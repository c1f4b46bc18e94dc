import CardCrucible.DeckBuilders
import CardCrucible.DrawLoops

/-! # Accounts — every card of a deck is in it or has been handed out

    A draw hands out the cards it returns, or those it throws with the error
    when the deck runs short.  `HandsOut` is what all draws have in common:
    the cards handed out and the cards left are the cards there were.

    An `Account` follows a deck through its mutating operations and collects
    what has been handed out since the deck was last created.  Whatever the
    operations, their arguments and the random outcomes they meet, the deck
    and the cards handed out make up the requested number of sub-decks. -/

namespace DeckAccounts

open Outcomes Arrangements CardModel DeckModel DeckModel.Deck DeckShuffles
open DeckBuilders DrawLoops

/-- The cards a draw hands out: those it returns or throws. -/
def handed : Except DeckError (List Card) → List Card
  | .ok cards => cards
  | .error (.insufficientCardsRemaining cardsDrawn _) => cardsDrawn
  | .error .drawFromEmptyDeck => []
  | .error .negativeDrawAttempt => []

/-- The same for a draw of a single card. -/
def handedCard : Except DeckError Card → List Card
  | .ok card => [card]
  | .error e => handed (.error e)

/-- From `d` to `d'` the cards `out` are handed out, and nothing else. -/
structure HandsOut (d : Deck) (out : List Card) (d' : Deck) : Prop where
  cards : (out ++ d'.decks).Perm d.decks
  numSubDecks : d'.numSubDecks = d.numSubDecks

theorem HandsOut.refl (d : Deck) : HandsOut d [] d :=
  ⟨List.Perm.refl _, rfl⟩

/-! ## The draws hand out -/

theorem drawCard_handsOut (d : Deck) :
    HandsOut d (handedCard d.drawCard.1) d.drawCard.2 := by
  obtain ⟨decks, num⟩ := d
  cases decks with
  | nil => exact HandsOut.refl _
  | cons card rest => exact ⟨List.Perm.refl _, rfl⟩

/-- Whatever the amount and however many cards there are, the draw hands out
    a prefix and leaves the rest. -/
theorem drawCardsFrom_splits (drawAmount : Int) (cards : List Card) :
    handed (drawCardsFrom drawAmount cards).1 = cards.take drawAmount.toNat ∧
      (drawCardsFrom drawAmount cards).2 = cards.drop drawAmount.toNat := by
  rcases drawCardsFrom_cases drawAmount cards with
    ⟨hle, hdraw⟩ | ⟨-, -, hdraw⟩ | ⟨hlt, message, hdraw⟩
  · have hzero : drawAmount.toNat = 0 := by omega
    rw [hdraw, hzero]
    exact ⟨rfl, rfl⟩
  · rw [hdraw]
    exact ⟨rfl, rfl⟩
  · -- all cards travel in the error
    rw [hdraw, List.take_of_length_le (by omega),
      List.drop_eq_nil_of_le (by omega)]
    exact ⟨rfl, rfl⟩

theorem drawCards_handsOut (d : Deck) (drawAmount : Int) :
    HandsOut d (handed (d.drawCards drawAmount).1)
      (d.drawCards drawAmount).2 := by
  obtain ⟨hhanded, hleft⟩ := drawCardsFrom_splits drawAmount d.decks
  rw [drawCards_ofArray]
  refine ⟨?_, rfl⟩
  show (handed (drawCardsFrom drawAmount d.decks).1
    ++ (drawCardsFrom drawAmount d.decks).2).Perm d.decks
  rw [hhanded, hleft, List.take_append_drop]

theorem drawRandomCard_handsOut (choice : Nat) (d : Deck) :
    ∃ r d', drawRandomCard choice d = .done (r, d') ∧
      HandsOut d (handedCard r) d' := by
  rw [drawRandomCard_ofArray]
  by_cases h : d.decks = []
  · refine ⟨.error .drawFromEmptyDeck, d, ?_, HandsOut.refl d⟩
    rw [drawRandomCardFrom_nil h]
    rfl
  · obtain ⟨card, hcard⟩ := exists_choice choice h
    rw [drawRandomCardFrom_eq hcard]
    exact ⟨.ok card, _, rfl,
      (List.perm_cons_erase (List.mem_of_getElem? hcard)).symm, rfl⟩

theorem drawRandomCards_handsOut (choices : Nat → Nat) (d : Deck)
    (drawAmount : Int) :
    ∃ r d', drawRandomCards choices d drawAmount = .done (r, d') ∧
      HandsOut d (handed r) d' := by
  by_cases hpos : 0 < drawAmount
  · obtain ⟨drawn, rest, hloop, -, hpicks⟩ := drawRandomCardsLoop_picks
      (yield drawAmount d.decks) choices [] d.decks (min_le_right _ _)
    refine ⟨_, _, drawRandomCards_of_loop hpos hloop, ?_, rfl⟩
    rw [List.nil_append, apply_ite handed]
    show ((if _ then drawn else drawn) ++ rest).Perm d.decks
    rw [ite_self]
    exact hpicks.perm
  · exact ⟨.error .negativeDrawAttempt, d,
      drawRandomCards_of_nonpos (not_lt.mp hpos) choices d, HandsOut.refl d⟩

/-! ## Operations -/

/-- The mutating operations of a deck, with their arguments and the random
    outcomes they meet. -/
inductive Operation where
  | createDeck (numSubDecks : Int)
  | createShuffledDeck (numSubDecks : Int) (fuel : Nat)
      (random : Nat → Arrangement Card)
  | shuffle (fuel : Nat) (random : Nat → Arrangement Card)
  | drawCard
  | drawCards (drawAmount : Int)
  | drawRandomCard (choice : Nat)
  | drawRandomCards (drawAmount : Int) (choices : Nat → Nat)

/-- A deck and the cards handed out since it was last created. -/
structure Account where
  deck : Deck
  handedOut : List Card

namespace Account

/-- Perform an operation. -/
def perform (a : Account) : Operation → Outcome Account
  | .createDeck numSubDecks =>
      return { deck := (a.deck.createDeck numSubDecks).2, handedOut := [] }
  | .createShuffledDeck numSubDecks fuel random => do
      let (_, deck) ← a.deck.createShuffledDeck fuel random numSubDecks
      return { deck := deck, handedOut := [] }
  | .shuffle fuel random => do
      let (_, deck) ← Deck.shuffle fuel random a.deck
      return { a with deck := deck }
  | .drawCard =>
      return { deck := a.deck.drawCard.2
               handedOut := a.handedOut ++ handedCard a.deck.drawCard.1 }
  | .drawCards drawAmount =>
      return { deck := (a.deck.drawCards drawAmount).2
               handedOut :=
                 a.handedOut ++ handed (a.deck.drawCards drawAmount).1 }
  | .drawRandomCard choice => do
      let (drawn, deck) ← Deck.drawRandomCard choice a.deck
      return { deck := deck, handedOut := a.handedOut ++ handedCard drawn }
  | .drawRandomCards drawAmount choices => do
      let (drawn, deck) ← Deck.drawRandomCards choices a.deck drawAmount
      return { deck := deck, handedOut := a.handedOut ++ handed drawn }

/-- Perform operations one after the other. -/
def performAll (a : Account) : List Operation → Outcome Account
  | [] => .done a
  | op :: ops => do
      let a ← a.perform op
      a.performAll ops

end Account

/-- The number of sub-decks an operation requests, if it creates the deck. -/
def requested (numSubDecks : Int) : Operation → Int
  | .createDeck n => n
  | .createShuffledDeck n _ _ => n
  | _ => numSubDecks

/-- The deck and the cards handed out are the requested sub-decks. -/
structure Balanced (a : Account) (n : Int) : Prop where
  cards : Copies (a.handedOut ++ a.deck.decks) (clamp n)
  numSubDecks : a.deck.numSubDecks.numSubDecks = clamp n

/-- A new deck is balanced. -/
theorem balanced_createDeck (d : Deck) (n : Int) :
    Balanced ⟨(d.createDeck n).2, []⟩ n :=
  ⟨copies_createDeck d n, numSubDecks_wrap n⟩

/-- Reordering the deck keeps the balance. -/
theorem Balanced.reorder {a : Account} {n : Int} (h : Balanced a n)
    {decks : List Card} (hperm : decks.Perm a.deck.decks) :
    Balanced { a with deck := { a.deck with decks := decks } } n :=
  ⟨h.cards.perm (hperm.append_left a.handedOut), h.numSubDecks⟩

/-- Handing out cards keeps the balance. -/
theorem Balanced.handsOut {a : Account} {n : Int} (h : Balanced a n)
    {out : List Card} {d : Deck} (hout : HandsOut a.deck out d) :
    Balanced ⟨d, a.handedOut ++ out⟩ n where
  cards := by
    refine h.cards.perm ?_
    show (a.handedOut ++ out ++ d.decks).Perm _
    rw [List.append_assoc]
    exact hout.cards.append_left a.handedOut
  numSubDecks := by
    show d.numSubDecks.numSubDecks = clamp n
    rw [hout.numSubDecks]
    exact h.numSubDecks

/-- Shuffling keeps the balance. -/
theorem Balanced.shuffle {a : Account} {n : Int} (h : Balanced a n)
    {fuel : Nat} {random : Nat → Arrangement Card} {p : List Card × Deck}
    (hrun : Deck.shuffle fuel random a.deck = .done p) :
    Balanced { a with deck := p.2 } n := by
  rw [shuffle_eq] at hrun
  obtain ⟨decks, hdecks, hp⟩ := Outcome.bind_eq_done.mp hrun
  rw [← Outcome.done.inj hp]
  exact h.reorder (staticShuffle_perm hdecks)

/-- **One operation** keeps the balance, for the number last requested. -/
theorem balanced_perform {a a' : Account} {n : Int} (h : Balanced a n)
    (op : Operation) (hrun : a.perform op = .done a') :
    Balanced a' (requested n op) := by
  cases op with
  | createDeck m =>
      rw [← Outcome.done.inj hrun]
      exact balanced_createDeck a.deck m
  | createShuffledDeck m fuel random =>
      obtain ⟨p, hp, ha'⟩ := Outcome.bind_eq_done.mp hrun
      rw [← Outcome.done.inj ha']
      exact (balanced_createDeck a.deck m).shuffle hp
  | shuffle fuel random =>
      obtain ⟨p, hp, ha'⟩ := Outcome.bind_eq_done.mp hrun
      rw [← Outcome.done.inj ha']
      exact h.shuffle hp
  | drawCard =>
      rw [← Outcome.done.inj hrun]
      exact h.handsOut (drawCard_handsOut a.deck)
  | drawCards drawAmount =>
      rw [← Outcome.done.inj hrun]
      exact h.handsOut (drawCards_handsOut a.deck drawAmount)
  | drawRandomCard choice =>
      obtain ⟨drawn, deck, hdraw, hout⟩ :=
        drawRandomCard_handsOut choice a.deck
      simp only [Account.perform, hdraw, Outcome.done_bind] at hrun
      rw [← Outcome.done.inj hrun]
      exact h.handsOut hout
  | drawRandomCards drawAmount choices =>
      obtain ⟨drawn, deck, hdraw, hout⟩ :=
        drawRandomCards_handsOut choices a.deck drawAmount
      simp only [Account.perform, hdraw, Outcome.done_bind] at hrun
      rw [← Outcome.done.inj hrun]
      exact h.handsOut hout

/-- **Any number of operations** keeps the balance. -/
theorem balanced_performAll :
    ∀ (ops : List Operation) {a a' : Account} {n : Int}, Balanced a n →
      a.performAll ops = .done a' →
      Balanced a' (ops.foldl requested n) := by
  intro ops
  induction ops with
  | nil =>
      intro a a' n h hrun
      rw [← Outcome.done.inj hrun]
      exact h
  | cons op ops ih =>
      intro a a' n h hrun
      obtain ⟨a₁, ha₁, hrest⟩ := Outcome.bind_eq_done.mp hrun
      exact ih (balanced_perform h op ha₁) hrest

/-- The initializer builds a balanced deck. -/
theorem balanced_init {fuel : Nat} {random : Nat → Arrangement Card} {n : Int}
    {shuffle : Bool} {d : Deck}
    (h : Deck.init fuel random n shuffle = .done d) :
    Balanced ⟨d, []⟩ n := by
  let d₀ : Deck := ⟨[], AllowedNumSubDecks.wrap n⟩
  -- the number is clamped twice
  have hnew : Balanced
      ⟨(d₀.createDeck (AllowedNumSubDecks.wrap n).numSubDecks).2, []⟩ n := by
    obtain ⟨hcards, hnum⟩ :=
      balanced_createDeck d₀ (AllowedNumSubDecks.wrap n).numSubDecks
    have hclamp : clamp (AllowedNumSubDecks.wrap n).numSubDecks = clamp n := by
      rw [numSubDecks_wrap]
      show min (max (min (max n 0) 10) 0) 10 = min (max n 0) 10
      omega
    rw [hclamp] at hcards hnum
    exact ⟨hcards, hnum⟩
  cases shuffle with
  | false =>
      rw [← Outcome.done.inj h]
      exact hnew
  | true =>
      obtain ⟨p, hp, hd⟩ := Outcome.bind_eq_done.mp h
      rw [← Outcome.done.inj hd]
      exact hnew.shuffle hp

/-- No operation traps. -/
theorem safe_perform (a : Account) (op : Operation) : (a.perform op).Safe := by
  have hshuffle : ∀ fuel random d, (Deck.shuffle fuel random d).Safe := by
    intro fuel random d
    rw [shuffle_eq]
    exact (safe_staticShuffle fuel random d.decks).bind
      (fun decks _ => Outcome.Safe.done _)
  cases op with
  | createDeck m => exact Outcome.Safe.done _
  | createShuffledDeck m fuel random =>
      exact (hshuffle fuel random _).bind (fun p _ => Outcome.Safe.done _)
  | shuffle fuel random =>
      exact (hshuffle fuel random _).bind (fun p _ => Outcome.Safe.done _)
  | drawCard => exact Outcome.Safe.done _
  | drawCards drawAmount => exact Outcome.Safe.done _
  | drawRandomCard choice =>
      obtain ⟨drawn, deck, hdraw, -⟩ := drawRandomCard_handsOut choice a.deck
      simp only [Account.perform, hdraw, Outcome.done_bind]
      exact Outcome.Safe.done _
  | drawRandomCards drawAmount choices =>
      obtain ⟨drawn, deck, hdraw, -⟩ :=
        drawRandomCards_handsOut choices a.deck drawAmount
      simp only [Account.perform, hdraw, Outcome.done_bind]
      exact Outcome.Safe.done _

theorem safe_performAll :
    ∀ (ops : List Operation) (a : Account), (a.performAll ops).Safe := by
  intro ops
  induction ops with
  | nil => intro a; exact Outcome.Safe.done a
  | cons op ops ih =>
      intro a
      exact (safe_perform a op).bind (fun a' _ => ih a')

/-- **Deck accounting**: after any operations on a deck from the initializer,
    the deck and the cards handed out since it was last created hold every card
    as often as the number of sub-decks last requested, clamped. -/
theorem deck_accounted {fuel : Nat} {random : Nat → Arrangement Card} {n : Int}
    {shuffle : Bool} {d : Deck}
    (hinit : Deck.init fuel random n shuffle = .done d)
    (ops : List Operation) :
    (Account.performAll ⟨d, []⟩ ops).Safe ∧
      ∀ a, Account.performAll ⟨d, []⟩ ops = .done a →
        Copies (a.handedOut ++ a.deck.deckCards)
            (min (max (ops.foldl requested n) 0) 10) ∧
          a.deck.numSubDecks.numSubDecks
            = min (max (ops.foldl requested n) 0) 10 := by
  refine ⟨safe_performAll ops ⟨d, []⟩, ?_⟩
  intro a hrun
  obtain ⟨hcards, hnum⟩ := balanced_performAll ops (balanced_init hinit) hrun
  exact ⟨hcards, hnum⟩

/-- Drawing three random cards from two: the error hands them over. -/
theorem deck_accounted_short_draws :
    ∃ a, Account.performAll
        ⟨(Deck.createDeck ⟨[], AllowedNumSubDecks.wrap 1⟩ 1).2, []⟩
        [.drawCards 50, .drawRandomCards 3 id, .drawCard] = .done a ∧
      a.deck.deckCards = [] ∧
      Copies (a.handedOut ++ a.deck.deckCards) 1 := by
  have hinit : Deck.init 0 (fun _ => .keep) 1 false
      = .done (Deck.createDeck ⟨[], AllowedNumSubDecks.wrap 1⟩ 1).2 := rfl
  exact ⟨_, rfl, rfl, ((deck_accounted hinit
    [.drawCards 50, .drawRandomCards 3 id, .drawCard]).2 _ rfl).1⟩

end DeckAccounts
