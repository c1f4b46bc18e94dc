import CardCrucible.DeckAccounts
import CardCrucible.Runs

/-! # Equality — which decks and players can be told apart

    `=/` compares two arrays of cards index by index, and the equalities of
    decks and players rest on it.  Decks are equal if they have the same cards
    and the same number of sub-decks.  That number is private, though, and no
    method reads it: decks with the same cards answer all calls alike, equal
    or not. -/

namespace CardModel

open Outcomes

/-- The loop of `=/` over the indices. -/
def sameCardsLoop (left right : List Card) : List Nat → Outcome Bool
  | [] => .done true
  | i :: indices =>
      match left[i]? with
      | none => .trap "Index out of range"
      | some a =>
          match right[i]? with
          | none => .trap "Index out of range"
          | some b =>
              if a ≠ b then .done false else sameCardsLoop left right indices

/-- `=/` of two arrays of cards. -/
def sameCards (left right : List Card) : Outcome Bool :=
  if left.length = right.length then
    sameCardsLoop left right (List.range left.length)
  else .done false

theorem sameCardsLoop_eq {left right : List Card} :
    ∀ (indices : List Nat),
      (∀ i ∈ indices, i < left.length ∧ i < right.length) →
      sameCardsLoop left right indices
        = .done (decide (∀ i ∈ indices, left[i]? = right[i]?)) := by
  intro indices
  induction indices with
  | nil =>
      intro _
      simp [sameCardsLoop]
  | cons i indices ih =>
      intro hin
      obtain ⟨hl, hr⟩ := hin i List.mem_cons_self
      have hrest := ih (fun j hj => hin j (List.mem_cons_of_mem _ hj))
      simp only [sameCardsLoop]
      rw [List.getElem?_eq_getElem hl, List.getElem?_eq_getElem hr]
      by_cases hab : left[i] = right[i]
      · simp [hab, hrest, hl, hr]
      · simp [hab, hl, hr]

/-- **`=/` compares arrays**, and no index is out of range. -/
theorem sameCards_eq (left right : List Card) :
    sameCards left right = .done (decide (left = right)) := by
  simp only [sameCards]
  by_cases hlen : left.length = right.length
  · rw [if_pos hlen, sameCardsLoop_eq]
    · congr 2
      refine propext ⟨fun h => List.ext_getElem? (fun i => ?_), ?_⟩
      · by_cases hi : i < left.length
        · exact h i (List.mem_range.mpr hi)
        · rw [List.getElem?_eq_none (by omega), List.getElem?_eq_none (by omega)]
      · intro h i _
        rw [h]
    · intro i hi
      have hlt := List.mem_range.mp hi
      exact ⟨hlt, by omega⟩
  · rw [if_neg hlen, decide_eq_false (fun h => hlen (congrArg List.length h))]

end CardModel

namespace DeckModel.Deck

open Outcomes CardModel

/-- `Deck ==`. -/
def isEqual (left right : Deck) : Outcome Bool :=
  if left.numSubDecks.numSubDecks = right.numSubDecks.numSubDecks then
    sameCards left.decks right.decks
  else .done false

theorem isEqual_iff {left right : Deck} :
    left.isEqual right = .done true ↔
      left.decks = right.decks ∧ left.numSubDecks = right.numSubDecks := by
  obtain ⟨cards, ⟨n, hn⟩⟩ := left
  obtain ⟨cards', ⟨m, hm⟩⟩ := right
  show (if n = m then sameCards cards cards' else .done false) = .done true ↔
    cards = cards' ∧ _
  by_cases hnum : n = m
  · rw [if_pos hnum, sameCards_eq]
    simp [hnum]
  · rw [if_neg hnum]
    simp [hnum]

end DeckModel.Deck

namespace Equality

open Outcomes Arrangements CardModel DeckModel DeckModel.Deck DeckShuffles
open DrawLoops DeckAccounts Runs

/-- The public methods of a deck. -/
inductive Method where
  | mutating (op : Operation)
  | setDeckCards (newValue : List Card)
  | deckCards
  | deckSize

/-- What a method returns. -/
inductive Reply where
  | none
  | size (n : Nat)
  | cards (cards : List Card)
  | card (drawn : Except DeckError Card)
  | drawn (drawn : Except DeckError (List Card))
  deriving DecidableEq

/-- The methods that create the deck anew. -/
def creates : Method → Bool
  | .mutating (.createDeck _) => true
  | .mutating (.createShuffledDeck _ _ _) => true
  | _ => false

/-- Call a method. -/
def call : Method → Deck → Outcome (Reply × Deck)
  | .mutating (.createDeck numSubDecks), d =>
      let (cards, d) := d.createDeck numSubDecks
      .done (.cards cards, d)
  | .mutating (.createShuffledDeck numSubDecks fuel random), d => do
      let (cards, d) ← d.createShuffledDeck fuel random numSubDecks
      return (.cards cards, d)
  | .mutating (.shuffle fuel random), d => do
      let (cards, d) ← Deck.shuffle fuel random d
      return (.cards cards, d)
  | .mutating .drawCard, d =>
      let (card, d) := d.drawCard
      .done (.card card, d)
  | .mutating (.drawCards drawAmount), d =>
      let (drawn, d) := d.drawCards drawAmount
      .done (.drawn drawn, d)
  | .mutating (.drawRandomCard choice), d => do
      let (card, d) ← Deck.drawRandomCard choice d
      return (.card card, d)
  | .mutating (.drawRandomCards drawAmount choices), d => do
      let (drawn, d) ← Deck.drawRandomCards choices d drawAmount
      return (.drawn drawn, d)
  | .setDeckCards newValue, d => .done (.none, d.setDeckCards newValue)
  | .deckCards, d => .done (.cards d.deckCards, d)
  | .deckSize, d => .done (.size d.deckSize, d)

/-! ## The number of sub-decks -/

/-- The decks `d` and `e` have become: the cards are the same, and so are the
    numbers if they were before or the deck has been created anew. -/
structure Become (d e : Deck) (anew : Bool) (d' e' : Deck) : Prop where
  cards : d'.decks = e'.decks
  numbers : d'.numSubDecks = e'.numSubDecks ↔
    anew = true ∨ d.numSubDecks = e.numSubDecks

theorem Become.ofArray {d e : Deck} {ρ : Type} (p : ρ × List Card) :
    Become d e false (ofArray d p).2 (ofArray e p).2 :=
  ⟨rfl, by simp [DrawLoops.ofArray]⟩

theorem Become.trans {d e d₁ e₁ d₂ e₂ : Deck} {anew anew' : Bool}
    (h : Become d e anew d₁ e₁) (h' : Become d₁ e₁ anew' d₂ e₂) :
    Become d e (anew || anew') d₂ e₂ where
  cards := h'.cards
  numbers := by
    rw [h'.numbers, h.numbers, Bool.or_eq_true]
    tauto

theorem Become.isEqual_iff {d e d' e' : Deck} {anew : Bool}
    (h : Become d e anew d' e') (hcards : d.decks = e.decks) :
    d'.isEqual e' = .done true ↔
      anew = true ∨ d.isEqual e = .done true := by
  rw [Deck.isEqual_iff, Deck.isEqual_iff, h.numbers]
  simp [h.cards, hcards]

/-- A draw at random puts back what the array is left with. -/
theorem drawRandomCards_become (choices : Nat → Nat) {d e : Deck}
    (h : d.decks = e.decks) (drawAmount : Int) :
    Outcome.Rel (fun p q => p.1 = q.1 ∧ Become d e false p.2 q.2)
      (drawRandomCards choices d drawAmount)
      (drawRandomCards choices e drawAmount) := by
  have hloop : ∀ n, Outcome.Rel
      (fun p q => p.1 = q.1 ∧ Become d e false p.2 q.2)
      (drawRandomLoop n choices [] d) (drawRandomLoop n choices [] e) := by
    intro n
    rw [drawRandomLoop_ofArray, drawRandomLoop_ofArray, h]
    cases drawRandomCardsLoop n choices [] e.decks with
    | done p => exact .done ⟨rfl, Become.ofArray p⟩
    | trap r => exact .trap r
    | outOfFuel => exact .outOfFuel
  have hsize : d.deckSize = e.deckSize := congrArg List.length h
  simp only [drawRandomCards, hsize]
  by_cases hpos : 0 < drawAmount
  · rw [if_pos hpos, if_pos hpos]
    by_cases hle : drawAmount ≤ e.deckSize
    · rw [if_pos hle, if_pos hle]
      exact hloop _
    · rw [if_neg hle, if_neg hle]
      refine (hloop _).bind ?_
      rintro ⟨drawn, d'⟩ ⟨drawn', e'⟩ - - ⟨hdrawn, hbecome⟩
      have hsame : drawn = drawn' := hdrawn
      rw [← hsame]
      cases drawn with
      | ok cards => exact .done ⟨rfl, hbecome⟩
      | error err => exact .done ⟨rfl, hbecome⟩
  · rw [if_neg hpos, if_neg hpos]
    exact .done ⟨rfl, h, by simp⟩

theorem shuffle_become (fuel : Nat) (random : Nat → Arrangement Card)
    {d e : Deck} (h : d.decks = e.decks) :
    Outcome.Rel (fun p q => p.1 = q.1 ∧ Become d e false p.2 q.2)
      (Deck.shuffle fuel random d) (Deck.shuffle fuel random e) := by
  rw [shuffle_eq, shuffle_eq, h]
  cases staticShuffle fuel random e.decks with
  | done cards => exact .done ⟨rfl, rfl, by simp⟩
  | trap r => exact .trap r
  | outOfFuel => exact .outOfFuel

/-- **A method never reads the number of sub-decks.** -/
theorem call_become (m : Method) {d e : Deck} (h : d.decks = e.decks) :
    Outcome.Rel (fun p q => p.1 = q.1 ∧ Become d e (creates m) p.2 q.2)
      (call m d) (call m e) := by
  cases m with
  | setDeckCards newValue =>
      refine .done ⟨rfl, ?_⟩
      simp only [setDeckCards, h]
      by_cases hempty : e.decks.isEmpty = true
      · rw [if_pos hempty, if_pos hempty]
        exact ⟨rfl, by simp [creates]⟩
      · rw [if_neg hempty, if_neg hempty]
        exact ⟨h, by simp [creates]⟩
  | deckCards => exact .done ⟨congrArg Reply.cards h, h, by simp [creates]⟩
  | deckSize =>
      exact .done ⟨congrArg (fun l => Reply.size l.length) h, h,
        by simp [creates]⟩
  | mutating op =>
      cases op with
      | createDeck n => exact .done ⟨rfl, rfl, by simp [creates]⟩
      | createShuffledDeck n fuel random =>
          simp only [call, createShuffledDeck]
          have hsame : d.createDeck n = e.createDeck n := rfl
          rw [hsame]
          cases Deck.shuffle fuel random (e.createDeck n).2 with
          | done p => exact .done ⟨rfl, rfl, by simp [creates]⟩
          | trap r => exact .trap r
          | outOfFuel => exact .outOfFuel
      | shuffle fuel random =>
          refine (shuffle_become fuel random h).bind ?_
          rintro ⟨cards, d'⟩ ⟨cards', e'⟩ - - ⟨hcards, hbecome⟩
          exact .done ⟨congrArg Reply.cards hcards, hbecome⟩
      | drawCard =>
          simp only [call, drawCard_ofArray, h]
          exact .done ⟨rfl, Become.ofArray _⟩
      | drawCards drawAmount =>
          simp only [call, drawCards_ofArray, h]
          exact .done ⟨rfl, Become.ofArray _⟩
      | drawRandomCard choice =>
          simp only [call, drawRandomCard_ofArray, h]
          cases drawRandomCardFrom choice e.decks with
          | done p => exact .done ⟨rfl, Become.ofArray p⟩
          | trap r => exact .trap r
          | outOfFuel => exact .outOfFuel
      | drawRandomCards drawAmount choices =>
          refine (drawRandomCards_become choices h drawAmount).bind ?_
          rintro ⟨drawn, d'⟩ ⟨drawn', e'⟩ - - ⟨hdrawn, hbecome⟩
          exact .done ⟨congrArg Reply.drawn hdrawn, hbecome⟩

/-- Nor does any list of calls. -/
theorem replies_become (ms : List Method) {d e : Deck}
    (h : d.decks = e.decks) :
    Outcome.Rel (fun p q => p.1 = q.1 ∧ Become d e (ms.any creates) p.2 q.2)
      (replies call ms d) (replies call ms e) := by
  have hstep : ∀ (made : List Method) (m : Method) (d' e' : Deck),
      Become d e (made.any creates) d' e' →
      Outcome.Rel (fun p q => p.1 = q.1 ∧
          Become d e ((made ++ [m]).any creates) p.2 q.2)
        (call m d') (call m e') := by
    intro made m d' e' hmade
    refine (call_become m hmade.cards).mono ?_
    rintro p q ⟨hreply, hbecome⟩
    have hany : (made ++ [m]).any creates
        = (made.any creates || creates m) := by simp
    rw [hany]
    exact ⟨hreply, hmade.trans hbecome⟩
  exact replies_coupled hstep ms [] ⟨h, by simp⟩

/-! ## Telling decks apart -/

/-- Draw one card, `n` times. -/
def draws (n : Nat) : List Method := List.replicate n (.mutating .drawCard)

/-- The card a draw has got. -/
def got : Reply → Option Card
  | .card (.ok card) => some card
  | _ => none

theorem draws_got (n : Nat) :
    ∀ (cards : List Card) (num : AllowedNumSubDecks),
      ∃ p, replies call (draws n) ⟨cards, num⟩ = .done p ∧
        p.1.filterMap got = cards.take n := by
  induction n with
  | zero => intro cards num; exact ⟨([], ⟨cards, num⟩), rfl, rfl⟩
  | succ n ih =>
      intro cards num
      cases cards with
      | nil =>
          obtain ⟨p, hp, hgot⟩ := ih [] num
          refine ⟨(.card (.error .drawFromEmptyDeck) :: p.1, p.2), ?_, ?_⟩
          · show (replies call (draws n) ⟨[], num⟩ >>= _) = _
            rw [hp]
            rfl
          · rw [List.take_nil] at hgot ⊢
            exact hgot
      | cons card rest =>
          obtain ⟨p, hp, hgot⟩ := ih rest num
          refine ⟨(.card (.ok card) :: p.1, p.2), ?_, ?_⟩
          · show (replies call (draws n) ⟨rest, num⟩ >>= _) = _
            rw [hp]
            rfl
          · show card :: p.1.filterMap got = card :: rest.take n
            rw [hgot]

/-- Draws enough for both tell decks with different cards apart. -/
theorem decks_eq_of_draws {d e : Deck} {n : Nat} (hd : d.deckSize ≤ n)
    (he : e.deckSize ≤ n)
    (h : Outcome.Rel (fun p q => p.1 = q.1) (replies call (draws n) d)
      (replies call (draws n) e)) : d.decks = e.decks := by
  obtain ⟨p, hp, hgot⟩ := draws_got n d.decks d.numSubDecks
  obtain ⟨q, hq, hgot'⟩ := draws_got n e.decks e.numSubDecks
  obtain ⟨q', hq', hsame⟩ := h.of_done hp
  have hpq : p.1 = q.1 := by rw [hsame, ← Outcome.done.inj (hq'.symm.trans hq)]
  rw [hpq, hgot', List.take_of_length_le hd, List.take_of_length_le he] at hgot
  exact hgot.symm

/-- **Which decks can be told apart**: those with different cards, by drawing
    them; and no calls at all tell others apart.  Equality asks for the same
    number of sub-decks besides, so it implies that decks are alike; of two
    that are alike and not equal, calls leave equal decks exactly if one of
    them creates the deck anew. -/
theorem decks_alike_iff (d e : Deck) :
    (Alike call d e ↔ d.decks = e.decks) ∧
      (Outcome.Rel (fun p q => p.1 = q.1)
        (replies call (draws (max d.deckSize e.deckSize)) d)
        (replies call (draws (max d.deckSize e.deckSize)) e) →
          Alike call d e) ∧
      (d.isEqual e = .done true ↔
        Alike call d e ∧ d.numSubDecks = e.numSubDecks) ∧
      (Alike call d e → ∀ ms, Outcome.Rel
        (fun p q => p.1 = q.1 ∧ (p.2.isEqual q.2 = .done true ↔
          (∃ m ∈ ms, creates m = true) ∨ d.isEqual e = .done true))
        (replies call ms d) (replies call ms e)) := by
  have hdraws : Outcome.Rel (fun p q => p.1 = q.1)
      (replies call (draws (max d.deckSize e.deckSize)) d)
      (replies call (draws (max d.deckSize e.deckSize)) e) →
        d.decks = e.decks :=
    decks_eq_of_draws (le_max_left _ _) (le_max_right _ _)
  have halike : Alike call d e ↔ d.decks = e.decks := by
    refine ⟨fun h => hdraws (h _), fun h ms => ?_⟩
    exact (replies_become ms h).mono (fun p q hpq => hpq.1)
  refine ⟨halike, fun h => halike.mpr (hdraws h), ?_, ?_⟩
  · rw [halike]
    exact Deck.isEqual_iff
  · intro h ms
    have hcards := halike.mp h
    refine (replies_become ms hcards).mono ?_
    rintro p q ⟨hreplies, hbecome⟩
    refine ⟨hreplies, ?_⟩
    rw [hbecome.isEqual_iff hcards, List.any_eq_true]

end Equality
