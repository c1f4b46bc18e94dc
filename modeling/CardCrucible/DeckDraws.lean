import CardCrucible.DeckAccounts
import CardCrucible.DrawLoops

/-! # Draws — what the draws of a deck hand out, and when they throw

    A draw hands out the cards it returns or throws, so a draw that runs short
    is seen like any other: from the top it hands out a prefix of the cards and
    leaves the rest, at random it hands out any sub-multiset of the right size
    in any order.  Draws from the top therefore compose, and random draws are
    exact and complete.

    The methods of a deck and the static methods are treated alike: `cards`
    reads off the array a draw works on, of a deck or of the array itself. -/

namespace DeckDraws

open Outcomes CardModel DeckModel DeckModel.Deck DeckAccounts DrawLoops Picking

variable {δ : Type}

/-! ## From the top -/

/-- So many single draws, one after the other, up to the first that throws. -/
def drawTimes (draw : δ → Except DeckError Card × δ) :
    Nat → δ → Except DeckError (List Card) × δ
  | 0, d => (.ok [], d)
  | n + 1, d =>
      match draw d with
      | (.ok card, d) =>
          match drawTimes draw n d with
          | (.ok cards, d) => (.ok (card :: cards), d)
          | (.error e, d) => (.error e, d)
      | (.error e, d) => (.error e, d)

theorem drawTimes_drawCardFrom (n : Nat) :
    ∀ cards : List Card, n ≤ cards.length →
      drawTimes drawCardFrom n cards = (.ok (cards.take n), cards.drop n) := by
  induction n with
  | zero => intro cards _; rfl
  | succ n ih =>
      intro cards hn
      cases cards with
      | nil => exact absurd hn (by simp)
      | cons card rest =>
          rw [List.length_cons] at hn
          simp only [drawTimes, drawCardFrom]
          rw [ih rest (by omega)]
          rfl

theorem drawTimes_ofArray (n : Nat) :
    ∀ d : Deck, drawTimes drawCard n d
      = ofArray d (drawTimes drawCardFrom n d.decks) := by
  induction n with
  | zero => intro d; rfl
  | succ n ih =>
      intro d
      obtain ⟨decks, num⟩ := d
      cases decks with
      | nil => rfl
      | cons card rest =>
          simp only [drawTimes, drawCard, drawCardFrom, ih ⟨rest, num⟩]
          obtain ⟨r, left⟩ := drawTimes drawCardFrom n rest
          cases r with
          | ok cards => rfl
          | error e => rfl

/-- Draws from the top compose: consecutive draws hand out what one draw of
    both amounts hands out, in order, and leave what it leaves; a draw of no
    more cards than there are is that many single draws; what is handed out
    and what is left is what there was. -/
structure DrawsCompose (cards : δ → List Card)
    (draw : δ → Except DeckError Card × δ)
    (draws : δ → Int → Except DeckError (List Card) × δ) (d : δ) : Prop where
  handed_add : ∀ a b : Int, 0 < a → 0 < b →
    handed (draws d a).1 ++ handed (draws (draws d a).2 b).1
      = handed (draws d (a + b)).1
  left_add : ∀ a b : Int, 0 < a → 0 < b →
    (draws (draws d a).2 b).2 = (draws d (a + b)).2
  oneByOne : ∀ n : Nat, 1 ≤ n → n ≤ (cards d).length →
    draws d n = drawTimes draw n d
  inOrder : ∀ n : Int, handed (draws d n).1 ++ cards (draws d n).2 = cards d

theorem drawsCompose_drawCardsFrom (cards : List Card) :
    DrawsCompose id drawCardFrom (fun cards n => drawCardsFrom n cards)
      cards where
  handed_add := by
    intro a b ha hb
    obtain ⟨hfirst, hleft⟩ := drawCardsFrom_splits a cards
    obtain ⟨hsecond, -⟩ := drawCardsFrom_splits b (drawCardsFrom a cards).2
    obtain ⟨hboth, -⟩ := drawCardsFrom_splits (a + b) cards
    have hsum : (a + b).toNat = a.toNat + b.toNat := by omega
    rw [hfirst, hsecond, hleft, hboth, hsum, List.take_add]
  left_add := by
    intro a b ha hb
    obtain ⟨-, hleft⟩ := drawCardsFrom_splits a cards
    obtain ⟨-, hleft'⟩ := drawCardsFrom_splits b (drawCardsFrom a cards).2
    obtain ⟨-, hboth⟩ := drawCardsFrom_splits (a + b) cards
    have hsum : (a + b).toNat = a.toNat + b.toNat := by omega
    rw [hleft', hleft, hboth, hsum, List.drop_drop]
  oneByOne := by
    intro n hn hle
    rw [drawTimes_drawCardFrom n cards hle]
    exact drawCardsFrom_of_le (by omega) hle
  inOrder := by
    intro n
    obtain ⟨hhanded, hleft⟩ := drawCardsFrom_splits n cards
    rw [hhanded]
    show _ ++ (drawCardsFrom n cards).2 = cards
    rw [hleft, List.take_append_drop]

theorem drawsCompose_drawCards (d : Deck) :
    DrawsCompose deckCards drawCard drawCards d := by
  obtain ⟨hhanded, hleft, hone, horder⟩ := drawsCompose_drawCardsFrom d.decks
  refine ⟨?_, ?_, ?_, ?_⟩
  · intro a b ha hb
    rw [drawCards_ofArray, drawCards_ofArray, drawCards_ofArray]
    exact hhanded a b ha hb
  · intro a b ha hb
    rw [drawCards_ofArray, drawCards_ofArray, drawCards_ofArray]
    simp only [ofArray]
    exact congrArg (fun rest => { d with decks := rest }) (hleft a b ha hb)
  · intro n hn hle
    rw [drawCards_ofArray, drawTimes_ofArray, hone n hn hle]
  · intro n
    rw [drawCards_ofArray]
    exact horder n

/-- **Draws from the top compose**, from a deck and from an array of cards, and
    the methods of a deck agree with the static ones. -/
theorem draws_compose (d : Deck) :
    DrawsCompose deckCards drawCard drawCards d ∧
      DrawsCompose id drawCardFrom (fun cards n => drawCardsFrom n cards)
        d.deckCards ∧
      d.drawCard = ofArray d (drawCardFrom d.deckCards) ∧
      ∀ n, d.drawCards n = ofArray d (drawCardsFrom n d.deckCards) :=
  ⟨drawsCompose_drawCards d, drawsCompose_drawCardsFrom d.decks,
    drawCard_ofArray d, drawCards_ofArray d⟩

/-! ## At random -/

/-- A random draw of `drawAmount` cards is exact: whatever the choices, it
    hands out that many cards, or all of them in the error if there are fewer,
    and leaves the others in order.  It is complete: every sub-multiset of
    that size is drawn, in every order, for some choices. -/
structure ExactDraws (cards : δ → List Card)
    (draws : (Nat → Nat) → δ → Int →
      Outcome (Except DeckError (List Card) × δ))
    (d : δ) (drawAmount : Int) : Prop where
  sound : ∀ choices, ∃ drawn d',
    (drawn.length : Int) = min drawAmount (cards d).length ∧
    (drawAmount ≤ (cards d).length →
      draws choices d drawAmount = .done (.ok drawn, d')) ∧
    ((cards d).length < drawAmount → cards d' = [] ∧
      ∃ message, draws choices d drawAmount
        = .done (.error (.insufficientCardsRemaining drawn message), d')) ∧
    (cards d').Sublist (cards d) ∧
    (drawn ++ cards d').Perm (cards d)
  complete : ∀ wanted : List Card,
    (wanted.length : Int) = min drawAmount (cards d).length →
    wanted.Subperm (cards d) →
    ∃ choices r d', draws choices d drawAmount = .done (r, d') ∧
      handed r = wanted

/-- A draw that runs the loop and leaves its array in `put` is exact. -/
theorem exactDraws_of_loop {cards : δ → List Card} (put : List Card → δ)
    (hput : ∀ rest, cards (put rest) = rest)
    {draws : (Nat → Nat) → δ → Int →
      Outcome (Except DeckError (List Card) × δ)}
    (message : List Card → String) {d : δ} {n : Int} (hn : 1 ≤ n)
    (hdraws : ∀ choices drawn rest,
      drawRandomCardsLoop (yield n (cards d)) choices [] (cards d)
        = .done (.ok drawn, rest) →
      draws choices d n
        = .done (if n ≤ (cards d).length then .ok drawn
            else .error (.insufficientCardsRemaining drawn (message drawn)),
          put rest)) :
    ExactDraws cards draws d n where
  sound := by
    intro choices
    obtain ⟨drawn, rest, hloop, hlen, hpicks⟩ := drawRandomCardsLoop_picks
      (yield n (cards d)) choices [] (cards d) (min_le_right _ _)
    rw [List.nil_append] at hloop
    have hdraw := hdraws choices drawn rest hloop
    simp only [yield] at hlen
    refine ⟨drawn, put rest, by omega, ?_, ?_, ?_, ?_⟩
    · intro hle
      rw [hdraw, if_pos hle]
    · intro hlt
      rw [if_neg (by omega)] at hdraw
      rw [hput]
      exact ⟨hpicks.rest_eq_nil (by omega), message drawn, hdraw⟩
    · rw [hput]
      exact hpicks.sublist
    · rw [hput]
      exact hpicks.perm
  complete := by
    intro wanted hlen hsub
    obtain ⟨rest, hpicks⟩ := exists_picks_iff.mpr hsub
    obtain ⟨choices, hloop⟩ := drawRandomCardsLoop_of_picks hpicks
    have hyield : wanted.length = yield n (cards d) := by
      simp only [yield]
      omega
    have hdraw := hdraws choices wanted rest (by rw [← hyield]; exact hloop [])
    refine ⟨choices, _, put rest, hdraw, ?_⟩
    by_cases hle : n ≤ (cards d).length
    · rw [if_pos hle]
      rfl
    · rw [if_neg hle]
      rfl

theorem exactDraws_drawRandomCards (d : Deck) {n : Int} (hn : 1 ≤ n) :
    ExactDraws deckCards drawRandomCards d n :=
  exactDraws_of_loop (fun rest => Deck.mk rest d.numSubDecks)
    (fun _ => rfl) _ hn (fun _ _ _ h => drawRandomCards_of_loop hn h)

theorem exactDraws_drawRandomCardsFrom (cards : List Card) {n : Int}
    (hn : 1 ≤ n) :
    ExactDraws id (fun choices cards n => drawRandomCardsFrom choices n cards)
      cards n :=
  exactDraws_of_loop id (fun _ => rfl) _ hn
    (fun _ _ _ h => drawRandomCardsFrom_of_loop hn h)

/-- **Random draws are exact and complete**, from a deck and from an array of
    cards. -/
theorem random_draws_exact (d : Deck) {n : Int} (hn : 1 ≤ n) :
    ExactDraws deckCards drawRandomCards d n ∧
      ExactDraws id (fun choices cards n => drawRandomCardsFrom choices n cards)
        d.deckCards n :=
  ⟨exactDraws_drawRandomCards d hn, exactDraws_drawRandomCardsFrom d.decks hn⟩

/-- Both of two equal cards can be drawn, past the card between them. -/
theorem random_draws_exact_repeated :
    ∃ choices r d', drawRandomCards choices
        ⟨[⟨.clubs, .ace⟩, ⟨.hearts, .two⟩, ⟨.clubs, .ace⟩],
          AllowedNumSubDecks.wrap 2⟩ 2 = .done (r, d') ∧
      handed r = [⟨.clubs, .ace⟩, ⟨.clubs, .ace⟩] :=
  (random_draws_exact
    ⟨[⟨.clubs, .ace⟩, ⟨.hearts, .two⟩, ⟨.clubs, .ace⟩],
      AllowedNumSubDecks.wrap 2⟩ (by decide)).1.complete
    [⟨.clubs, .ace⟩, ⟨.clubs, .ace⟩] rfl
    (List.Sublist.subperm (.cons_cons _ (.cons _ (.cons_cons _ .slnil))))

/-! ## Errors -/

/-- What a draw of `drawAmount` cards from `cards` comes to: it is refused, it
    returns that many cards, or it runs short. -/
inductive DrawResult (cards : List Card) (drawAmount : Int) :
    Except DeckError (List Card) → List Card → Prop
  | refused (h : drawAmount ≤ 0) :
      DrawResult cards drawAmount (.error .negativeDrawAttempt) cards
  | drawn {drawn rest : List Card} (hpos : 0 < drawAmount)
      (hle : drawAmount ≤ cards.length)
      (hlen : (drawn.length : Int) = drawAmount) :
      DrawResult cards drawAmount (.ok drawn) rest
  | short {drawn : List Card} {message : String}
      (hlt : cards.length < drawAmount) (hperm : drawn.Perm cards) :
      DrawResult cards drawAmount
        (.error (.insufficientCardsRemaining drawn message)) []

theorem drawCardsFrom_result (drawAmount : Int) (cards : List Card) :
    DrawResult cards drawAmount (drawCardsFrom drawAmount cards).1
      (drawCardsFrom drawAmount cards).2 := by
  rcases drawCardsFrom_cases drawAmount cards with
    ⟨hle, hdraw⟩ | ⟨hpos, hle, hdraw⟩ | ⟨hlt, message, hdraw⟩
  · rw [hdraw]
    exact .refused hle
  · rw [hdraw]
    refine .drawn hpos hle ?_
    rw [List.length_take]
    omega
  · rw [hdraw]
    exact .short hlt (List.Perm.refl cards)

theorem drawCards_result (drawAmount : Int) (d : Deck) :
    DrawResult d.deckCards drawAmount (d.drawCards drawAmount).1
      (d.drawCards drawAmount).2.deckCards := by
  rw [drawCards_ofArray]
  exact drawCardsFrom_result drawAmount d.decks

/-- An exact random draw returns what was asked for or runs short. -/
theorem ExactDraws.result {cards : δ → List Card}
    {draws : (Nat → Nat) → δ → Int →
      Outcome (Except DeckError (List Card) × δ)}
    {d : δ} {n : Int} (h : ExactDraws cards draws d n) (hn : 0 < n)
    (choices : Nat → Nat) :
    ∃ r d', draws choices d n = .done (r, d') ∧
      DrawResult (cards d) n r (cards d') := by
  obtain ⟨drawn, d', hlen, henough, hshort, -, hperm⟩ := h.sound choices
  by_cases hle : n ≤ (cards d).length
  · exact ⟨.ok drawn, d', henough hle, .drawn hn hle (by omega)⟩
  · obtain ⟨hrest, message, hdraw⟩ := hshort (by omega)
    rw [hrest, List.append_nil] at hperm
    refine ⟨_, d', hdraw, ?_⟩
    rw [hrest]
    exact .short (by omega) hperm

/-- A draw does what its documentation says: it throws `negativeDrawAttempt`
    exactly for a negative amount and leaves the cards alone, it throws
    `insufficientCardsRemaining` exactly when the amount exceeds the number of
    cards, with all of them inside and none left, and otherwise it returns as
    many cards as asked for. -/
structure AsDocumented (cards : List Card) (drawAmount : Int)
    (r : Except DeckError (List Card)) (rest : List Card) : Prop where
  negative : r = .error .negativeDrawAttempt ↔ drawAmount < 0
  untouched : r = .error .negativeDrawAttempt → rest = cards
  insufficient : (∃ drawn message,
    r = .error (.insufficientCardsRemaining drawn message)) ↔
      cards.length < drawAmount
  exhausted : ∀ drawn message,
    r = .error (.insufficientCardsRemaining drawn message) →
    drawn.Perm cards ∧ rest = []
  otherwise : 0 ≤ drawAmount → drawAmount ≤ cards.length →
    ∃ drawn, r = .ok drawn ∧ (drawn.length : Int) = drawAmount

/-- The guard refuses zero cards along with the negative amounts, and that is
    all that departs from the documentation. -/
theorem DrawResult.asDocumented_iff {cards rest : List Card} {n : Int}
    {r : Except DeckError (List Card)} (h : DrawResult cards n r rest) :
    AsDocumented cards n r rest ↔ n ≠ 0 := by
  cases h with
  | refused hn =>
      constructor
      · intro hdoc hzero
        have := hdoc.negative.mp rfl
        omega
      · intro hne
        refine ⟨⟨fun _ => by omega, fun _ => rfl⟩, fun _ => rfl, ?_, ?_, ?_⟩
        · refine ⟨?_, fun hlt => by omega⟩
          rintro ⟨drawn, message, hr⟩
          cases hr
        · intro drawn message hr
          cases hr
        · intro hpos
          omega
  | drawn hpos hle hlen =>
      refine ⟨fun _ => by omega, fun _ => ?_⟩
      refine ⟨⟨?_, fun hneg => by omega⟩, ?_, ⟨?_, fun hlt => by omega⟩, ?_,
        fun _ _ => ⟨_, rfl, hlen⟩⟩
      · intro hr
        cases hr
      · intro hr
        cases hr
      · rintro ⟨drawn, message, hr⟩
        cases hr
      · intro drawn message hr
        cases hr
  | short hlt hperm =>
      refine ⟨fun _ => by omega, fun _ => ?_⟩
      refine ⟨⟨?_, fun hneg => by omega⟩, ?_, ⟨fun _ => hlt, fun _ => ?_⟩, ?_,
        fun _ hle => by omega⟩
      · intro hr
        cases hr
      · intro hr
        cases hr
      · exact ⟨_, _, rfl⟩
      · intro drawn message hr
        cases hr
        exact ⟨hperm, rfl⟩

theorem drawRandomCards_result (choices : Nat → Nat) (d : Deck)
    (drawAmount : Int) :
    ∃ r d', drawRandomCards choices d drawAmount = .done (r, d') ∧
      DrawResult d.deckCards drawAmount r d'.deckCards := by
  by_cases hpos : 0 < drawAmount
  · exact (exactDraws_drawRandomCards d hpos).result hpos choices
  · have hle := not_lt.mp hpos
    exact ⟨.error .negativeDrawAttempt, d,
      drawRandomCards_of_nonpos hle choices d, .refused hle⟩

theorem drawRandomCardsFrom_result (choices : Nat → Nat) (cards : List Card)
    (drawAmount : Int) :
    ∃ r rest, drawRandomCardsFrom choices drawAmount cards = .done (r, rest) ∧
      DrawResult cards drawAmount r rest := by
  by_cases hpos : 0 < drawAmount
  · exact (exactDraws_drawRandomCardsFrom cards hpos).result hpos choices
  · have hle := not_lt.mp hpos
    exact ⟨.error .negativeDrawAttempt, cards,
      drawRandomCardsFrom_of_nonpos hle choices cards, .refused hle⟩

/-- **The errors are raised as documented** by all four draws, for every amount
    but zero. -/
theorem draw_errors_documented (d : Deck) (n : Int) :
    (AsDocumented d.deckCards n (d.drawCards n).1 (d.drawCards n).2.deckCards
      ↔ n ≠ 0) ∧
    (AsDocumented d.deckCards n (drawCardsFrom n d.deckCards).1
      (drawCardsFrom n d.deckCards).2 ↔ n ≠ 0) ∧
    (∀ choices, ∃ r d', drawRandomCards choices d n = .done (r, d') ∧
      (AsDocumented d.deckCards n r d'.deckCards ↔ n ≠ 0)) ∧
    ∀ choices, ∃ r rest,
      drawRandomCardsFrom choices n d.deckCards = .done (r, rest) ∧
      (AsDocumented d.deckCards n r rest ↔ n ≠ 0) := by
  refine ⟨(drawCards_result n d).asDocumented_iff,
    (drawCardsFrom_result n d.decks).asDocumented_iff, ?_, ?_⟩
  · intro choices
    obtain ⟨r, d', hdraw, hr⟩ := drawRandomCards_result choices d n
    exact ⟨r, d', hdraw, hr.asDocumented_iff⟩
  · intro choices
    obtain ⟨r, rest, hdraw, hr⟩ :=
      drawRandomCardsFrom_result choices d.decks n
    exact ⟨r, rest, hdraw, hr.asDocumented_iff⟩

/-- Drawing no cards from an empty hand or deck throws `negativeDrawAttempt`,
    which is not as documented. -/
theorem draw_no_cards_throws :
    (drawCardsFrom 0 [] = (.error .negativeDrawAttempt, []) ∧
      ¬ AsDocumented [] 0 (drawCardsFrom 0 []).1 (drawCardsFrom 0 []).2) ∧
    (Deck.drawCards ⟨[], AllowedNumSubDecks.wrap 1⟩ 0
        = (.error .negativeDrawAttempt, ⟨[], AllowedNumSubDecks.wrap 1⟩) ∧
      ¬ AsDocumented [] 0 (Deck.drawCards ⟨[], AllowedNumSubDecks.wrap 1⟩ 0).1
        []) ∧
    drawRandomCards id ⟨[], AllowedNumSubDecks.wrap 1⟩ 0
      = .done (.error .negativeDrawAttempt, ⟨[], AllowedNumSubDecks.wrap 1⟩) ∧
    drawRandomCardsFrom id 0 [] = .done (.error .negativeDrawAttempt, []) := by
  have hnot : ¬ AsDocumented [] 0 (.error .negativeDrawAttempt) [] := by
    intro hdoc
    exact absurd (hdoc.negative.mp rfl) (by decide)
  exact ⟨⟨rfl, hnot⟩, ⟨rfl, hnot⟩, rfl, rfl⟩

end DeckDraws
