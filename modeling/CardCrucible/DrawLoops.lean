import CardCrucible.Deck
import CardCrucible.Picking

/-! # Drawing loops — what drawing one card after another comes to

    The methods of a deck and the static methods on an array of cards are two
    copies of the same code.  A draw from a deck is the draw from its array of
    cards, with what is left put back into the deck.

    Drawing at random finds the first card equal to a random one and removes
    it, so the runs of the loop over all random choices are the `Picks` of the
    array. -/

namespace DrawLoops

open Outcomes CardModel DeckModel DeckModel.Deck Picking

/-- The result of a draw from the array of a deck, as the result of a draw
    from the deck. -/
def ofArray {ρ : Type} (d : Deck) (p : ρ × List Card) : ρ × Deck :=
  (p.1, { d with decks := p.2 })

/-! ## From the top -/

theorem drawCard_ofArray (d : Deck) :
    d.drawCard = ofArray d (drawCardFrom d.decks) := by
  obtain ⟨decks, num⟩ := d
  cases decks with
  | nil => rfl
  | cons card rest => rfl

theorem drawCardLoop_ofArray (n : Nat) :
    ∀ (drawn : List Card) (d : Deck),
      drawCardLoop n drawn d = ofArray d (drawCardsLoop n drawn d.decks) := by
  induction n with
  | zero => intro drawn d; rfl
  | succ n ih =>
      intro drawn d
      obtain ⟨decks, num⟩ := d
      cases decks with
      | nil => rfl
      | cons card rest => exact ih (drawn ++ [card]) ⟨rest, num⟩

theorem drawCards_ofArray (d : Deck) (drawAmount : Int) :
    d.drawCards drawAmount = ofArray d (drawCardsFrom drawAmount d.decks) := by
  simp only [drawCards, drawCardsFrom]
  by_cases hpos : 0 < drawAmount
  · rw [if_pos hpos, if_pos hpos]
    by_cases hle : drawAmount ≤ d.deckSize
    · have hle' : drawAmount ≤ d.decks.length := hle
      rw [if_pos hle, if_pos hle']
      exact drawCardLoop_ofArray drawAmount.toNat [] d
    · have hle' : ¬ drawAmount ≤ d.decks.length := hle
      rw [if_neg hle, if_neg hle']
      rfl
  · rw [if_neg hpos, if_neg hpos]
    rfl

/-- A draw from the top is refused, returns a prefix or throws all cards. -/
theorem drawCardsFrom_cases (n : Int) (cards : List Card) :
    (n ≤ 0 ∧ drawCardsFrom n cards = (.error .negativeDrawAttempt, cards)) ∨
    (0 < n ∧ n ≤ cards.length ∧
      drawCardsFrom n cards = (.ok (cards.take n.toNat), cards.drop n.toNat)) ∨
    (cards.length < n ∧ ∃ message, drawCardsFrom n cards
      = (.error (.insufficientCardsRemaining cards message), [])) := by
  by_cases hpos : 0 < n
  · obtain ⟨k, hk⟩ := Int.eq_ofNat_of_zero_le (le_of_lt hpos)
    rw [hk, Int.toNat_natCast]
    by_cases hle : k ≤ cards.length
    · exact Or.inr (Or.inl ⟨by omega, by omega,
        drawCardsFrom_of_le (by omega) hle⟩)
    · exact Or.inr (Or.inr ⟨by omega, drawCardsFrom_of_lt (not_le.mp hle)⟩)
  · refine Or.inl ⟨by omega, ?_⟩
    simp only [drawCardsFrom]
    rw [if_neg hpos]

/-! ## At random -/

/-- Both unwraps of a random draw succeed on cards and its index is in range:
    the card goes and the first card equal to it leaves the array. -/
theorem removeRandom_eq {choice : Nat} {cards : List Card} {card : Card}
    (h : cards[choice % cards.length]? = some card) :
    removeRandom choice cards = .done (card, cards.erase card) := by
  have hmem : card ∈ cards := List.mem_of_getElem? h
  cases hidx : cards.idxOf? card with
  | none => exact absurd hmem (List.idxOf?_eq_none_iff.mp hidx)
  | some i =>
      obtain ⟨hi, hcard, -⟩ := List.idxOf?_eq_some_iff.mp hidx
      have hget : cards[i]? = some card := by
        rw [List.getElem?_eq_getElem hi]
        exact congrArg some hcard
      have herase : cards.eraseIdx i = cards.erase card := by
        rw [List.erase_eq_eraseIdx]
        simp only [hidx]
      simp only [removeRandom, h, hidx, hget, herase]

/-- Some card is drawn from cards. -/
theorem exists_choice (choice : Nat) {cards : List Card} (h : cards ≠ []) :
    ∃ card, cards[choice % cards.length]? = some card :=
  ⟨_, List.getElem?_eq_getElem
    (Nat.mod_lt choice (List.length_pos_iff.mpr h))⟩

/-- Every card can be drawn. -/
theorem exists_choice_of_mem {cards : List Card} {card : Card}
    (h : card ∈ cards) :
    ∃ choice, cards[choice % cards.length]? = some card := by
  obtain ⟨i, hi, hcard⟩ := List.mem_iff_getElem.mp h
  refine ⟨i, ?_⟩
  rw [Nat.mod_eq_of_lt hi, List.getElem?_eq_getElem hi, hcard]

theorem drawRandomCardFrom_eq {choice : Nat} {cards : List Card} {card : Card}
    (h : cards[choice % cards.length]? = some card) :
    drawRandomCardFrom choice cards = .done (.ok card, cards.erase card) := by
  have hne : ¬ cards.isEmpty = true := by
    rw [List.isEmpty_iff]
    exact List.ne_nil_of_mem (List.mem_of_getElem? h)
  simp only [drawRandomCardFrom]
  rw [if_neg hne, removeRandom_eq h]
  rfl

theorem drawRandomCardFrom_nil {choice : Nat} {cards : List Card}
    (h : cards = []) :
    drawRandomCardFrom choice cards
      = .done (.error .drawFromEmptyDeck, cards) := by
  rw [h]
  rfl

theorem drawRandomCard_ofArray (choice : Nat) (d : Deck) :
    drawRandomCard choice d
      = drawRandomCardFrom choice d.decks >>= fun p => .done (ofArray d p) := by
  obtain ⟨decks, num⟩ := d
  cases decks with
  | nil => rfl
  | cons card rest =>
      have hpos : 0 < Deck.deckSize ⟨card :: rest, num⟩ := Nat.succ_pos _
      simp only [drawRandomCard, drawRandomCardFrom]
      rw [if_pos hpos, if_neg (by simp)]
      cases removeRandom choice (card :: rest) with
      | done p => rfl
      | trap r => rfl
      | outOfFuel => rfl

theorem drawRandomLoop_ofArray (n : Nat) :
    ∀ (choices : Nat → Nat) (drawn : List Card) (d : Deck),
      drawRandomLoop n choices drawn d
        = drawRandomCardsLoop n choices drawn d.decks
            >>= fun p => .done (ofArray d p) := by
  induction n with
  | zero => intro choices drawn d; rfl
  | succ n ih =>
      intro choices drawn d
      simp only [drawRandomLoop, drawRandomCardsLoop]
      rw [drawRandomCard_ofArray]
      cases drawRandomCardFrom (choices 0) d.decks with
      | done p =>
          obtain ⟨r, rest⟩ := p
          cases r with
          | ok card => exact ih _ (drawn ++ [card]) { d with decks := rest }
          | error e => rfl
      | trap r => rfl
      | outOfFuel => rfl

/-- One turn of the loop. -/
theorem drawRandomCardsLoop_succ {n : Nat} {choices : Nat → Nat}
    {drawn cards : List Card} {card : Card}
    (h : cards[choices 0 % cards.length]? = some card) :
    drawRandomCardsLoop (n + 1) choices drawn cards
      = drawRandomCardsLoop n (fun k => choices (k + 1)) (drawn ++ [card])
          (cards.erase card) := by
  simp only [drawRandomCardsLoop, drawRandomCardFrom_eq h, Outcome.done_bind]

/-- **Whatever the choices**, drawing no more cards than there are picks that
    many. -/
theorem drawRandomCardsLoop_picks (n : Nat) :
    ∀ (choices : Nat → Nat) (drawn cards : List Card), n ≤ cards.length →
      ∃ picked rest, drawRandomCardsLoop n choices drawn cards
          = .done (.ok (drawn ++ picked), rest) ∧
        picked.length = n ∧ Picks cards picked rest := by
  induction n with
  | zero =>
      intro choices drawn cards _
      exact ⟨[], cards, by rw [List.append_nil]; rfl, rfl, Picks.nil cards⟩
  | succ n ih =>
      intro choices drawn cards hn
      have hne : cards ≠ [] := List.length_pos_iff.mp (by omega)
      obtain ⟨card, hcard⟩ := exists_choice (choices 0) hne
      have hmem : card ∈ cards := List.mem_of_getElem? hcard
      have hlen := List.length_erase_of_mem hmem
      obtain ⟨picked, rest, hloop, hpicked, hpicks⟩ :=
        ih (fun k => choices (k + 1)) (drawn ++ [card]) (cards.erase card)
          (by omega)
      refine ⟨card :: picked, rest, ?_, ?_, Picks.cons hmem hpicks⟩
      · rw [drawRandomCardsLoop_succ hcard, hloop, List.append_assoc]
        rfl
      · rw [List.length_cons, hpicked]

/-- A choice, and the choices of the draws after it. -/
def chooseFirst (choice : Nat) (choices : Nat → Nat) : Nat → Nat
  | 0 => choice
  | k + 1 => choices k

/-- **Every pick is drawn** for some choices. -/
theorem drawRandomCardsLoop_of_picks {cards picked rest : List Card}
    (h : Picks cards picked rest) :
    ∃ choices : Nat → Nat, ∀ drawn,
      drawRandomCardsLoop picked.length choices drawn cards
        = .done (.ok (drawn ++ picked), rest) := by
  induction h with
  | nil cards =>
      exact ⟨id, fun drawn => by rw [List.append_nil]; rfl⟩
  | @cons cards picked rest card hmem _ ih =>
      obtain ⟨choices, hloop⟩ := ih
      obtain ⟨choice, hcard⟩ := exists_choice_of_mem hmem
      -- the first choice finds the card, the others are those of the rest
      have hfirst :
          cards[chooseFirst choice choices 0 % cards.length]? = some card :=
        hcard
      refine ⟨chooseFirst choice choices, ?_⟩
      intro drawn
      rw [List.length_cons, drawRandomCardsLoop_succ hfirst]
      show drawRandomCardsLoop picked.length choices (drawn ++ [card])
        (cards.erase card) = _
      rw [hloop, List.append_assoc]
      rfl

/-! ## Several cards at random -/

/-- How many cards a draw hands out, if it asks for a positive number. -/
def yield (drawAmount : Int) (cards : List Card) : Nat :=
  min drawAmount.toNat cards.length

theorem drawRandomCardsFrom_of_loop {choices : Nat → Nat} {n : Int}
    (hn : 0 < n) {cards drawn rest : List Card}
    (h : drawRandomCardsLoop (yield n cards) choices [] cards
      = .done (.ok drawn, rest)) :
    drawRandomCardsFrom choices n cards
      = .done (if n ≤ cards.length then .ok drawn
          else .error (.insufficientCardsRemaining drawn
            (s!"attempted to draw {n} cards but there were only " ++
              s!"{drawn.length} cards in the array of cards")), rest) := by
  simp only [drawRandomCardsFrom]
  rw [if_pos hn]
  by_cases hle : n ≤ cards.length
  · have hyield : yield n cards = n.toNat := min_eq_left (by omega)
    rw [hyield] at h
    rw [if_pos hle, if_pos hle, h]
  · have hyield : yield n cards = cards.length := min_eq_right (by omega)
    rw [hyield] at h
    rw [if_neg hle, if_neg hle, h]
    rfl

theorem drawRandomCards_of_loop {choices : Nat → Nat} {n : Int}
    (hn : 0 < n) {d : Deck} {drawn rest : List Card}
    (h : drawRandomCardsLoop (yield n d.decks) choices [] d.decks
      = .done (.ok drawn, rest)) :
    drawRandomCards choices d n
      = .done (if n ≤ d.decks.length then .ok drawn
          else .error (.insufficientCardsRemaining drawn
            (s!"attempted to draw {n} cards but there were only " ++
              s!"{drawn.length} cards in the deck")),
          { d with decks := rest }) := by
  have hloop : drawRandomLoop (yield n d.decks) choices [] d
      = .done (.ok drawn, { d with decks := rest }) := by
    rw [drawRandomLoop_ofArray, h]
    rfl
  simp only [drawRandomCards]
  rw [if_pos hn]
  by_cases hle : n ≤ d.decks.length
  · have hle' : n ≤ d.deckSize := hle
    have hyield : yield n d.decks = n.toNat := min_eq_left (by omega)
    rw [hyield] at hloop
    rw [if_pos hle', if_pos hle, hloop]
  · have hle' : ¬ n ≤ d.deckSize := hle
    have hyield : yield n d.decks = d.deckSize :=
      min_eq_right (show d.decks.length ≤ n.toNat by omega)
    rw [hyield] at hloop
    rw [if_neg hle', if_neg hle, hloop]
    rfl

theorem drawRandomCards_of_nonpos {n : Int} (hn : n ≤ 0)
    (choices : Nat → Nat) (d : Deck) :
    drawRandomCards choices d n = .done (.error .negativeDrawAttempt, d) := by
  simp only [drawRandomCards]
  rw [if_neg (not_lt.mpr hn)]

theorem drawRandomCardsFrom_of_nonpos {n : Int} (hn : n ≤ 0)
    (choices : Nat → Nat) (cards : List Card) :
    drawRandomCardsFrom choices n cards
      = .done (.error .negativeDrawAttempt, cards) := by
  simp only [drawRandomCardsFrom]
  rw [if_neg (not_lt.mpr hn)]

end DrawLoops
