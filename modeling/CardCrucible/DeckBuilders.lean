import CardCrucible.DeckShuffles

/-! # Builders — the instance and the static way to a deck

    `createDeck` exists twice.  The instance method clamps the number of
    sub-decks in a property wrapper; the static method clamps it by hand, and
    its second assignment undoes the first, so that the maximum is never
    enforced.  Both build the same cards, in different orders, up to the
    maximum; beyond it the static method builds too many or overflows. -/

namespace DeckBuilders

open Outcomes Arrangements CardModel DeckModel DeckModel.Deck DeckShuffles

/-- A sub-deck in the order the static method appends it. -/
def staticSubDeck : List Card :=
  Suit.allCases.flatMap fun suit =>
    Rank.allCases.map fun rank => { suit := suit, rank := rank }

/-- The loops of the two methods visit the same pairs. -/
theorem staticSubDeck_perm : staticSubDeck.Perm subDeck := by decide +kernel

/-- Every card is once in a sub-deck. -/
theorem count_subDeck (card : Card) : subDeck.count card = 1 := by
  revert card
  decide +kernel

/-- So many copies of every card. -/
def Copies (cards : List Card) (n : Int) : Prop :=
  ∀ card : Card, (cards.count card : Int) = n

theorem copies_flatten (n : Nat) : Copies (List.replicate n subDeck).flatten n := by
  intro card
  rw [List.count_flatten, List.map_replicate, count_subDeck,
    List.sum_replicate_nat, Nat.mul_one]

theorem Copies.perm {cards cards' : List Card} {n : Int} (h : Copies cards n)
    (hperm : cards'.Perm cards) : Copies cards' n := by
  intro card
  rw [hperm.count_eq]
  exact h card

/-- Copies of reordered sub-decks are reordered copies of sub-decks. -/
theorem flatten_replicate_perm {cards cards' : List Card} (n : Nat)
    (h : cards.Perm cards') :
    (List.replicate n cards).flatten.Perm (List.replicate n cards').flatten := by
  induction n with
  | zero => exact List.Perm.refl _
  | succ n ih => exact h.append ih

/-- The clamp of the property wrapper. -/
def clamp (n : Int) : Int := min (max n minNumSubDecks) maxNumSubDecks

theorem numSubDecks_wrap (n : Int) :
    (AllowedNumSubDecks.wrap n).numSubDecks = clamp n := by
  show max (min n 10) 0 = min (max n 0) 10
  omega

theorem clamp_nonneg (n : Int) : 0 ≤ clamp n := by
  show 0 ≤ min (max n 0) 10
  omega

/-- The instance method puts the clamped number of sub-decks into the deck. -/
theorem decks_createDeck (d : Deck) (n : Int) :
    (d.createDeck n).2.decks
      = (List.replicate (clamp n).toNat subDeck).flatten := by
  rw [← numSubDecks_wrap]
  rfl

theorem copies_createDeck (d : Deck) (n : Int) :
    Copies (d.createDeck n).2.decks (clamp n) := by
  have h := copies_flatten (clamp n).toNat
  rw [Int.toNat_of_nonneg (clamp_nonneg n)] at h
  rw [decks_createDeck]
  exact h

/-- Up to the maximum the static method builds the same cards. -/
theorem staticCreateDeck_perm {n : Int} (hn : n ≤ maxNumSubDecks) (d : Deck) :
    ∃ cards, staticCreateDeck n = .done cards ∧
      cards.Perm (d.createDeck n).2.decks := by
  have hmax : max n minNumSubDecks = clamp n := by
    have hn' : n ≤ 10 := hn
    show max n 0 = min (max n 0) 10
    omega
  have hfits : clamp n * defaultDeckSize ≤ maxInt := by
    show min (max n 0) 10 * 52 ≤ 2 ^ 63 - 1
    omega
  refine ⟨(List.replicate (clamp n).toNat staticSubDeck).flatten, ?_, ?_⟩
  · simp only [staticCreateDeck]
    rw [hmax, if_pos hfits]
    rfl
  · rw [decks_createDeck]
    exact flatten_replicate_perm _ staticSubDeck_perm

/-- Beyond the maximum it builds more cards, if it returns. -/
theorem staticCreateDeck_length {n : Int} {cards : List Card}
    (h : staticCreateDeck n = .done cards) :
    (cards.length : Int) = max n 0 * 52 := by
  simp only [staticCreateDeck] at h
  by_cases hfits : max n minNumSubDecks * defaultDeckSize ≤ maxInt
  · rw [if_pos hfits] at h
    rw [← Outcome.done.inj h, List.length_flatten, List.map_replicate,
      List.sum_replicate_nat]
    show (((max n 0).toNat * 52 : Nat) : Int) = max n 0 * 52
    omega
  · rw [if_neg hfits] at h
    cases h

theorem length_createDeck (d : Deck) (n : Int) :
    ((d.createDeck n).2.decks.length : Int) = clamp n * 52 := by
  have hnonneg := clamp_nonneg n
  rw [decks_createDeck, List.length_flatten, List.map_replicate,
    List.sum_replicate_nat]
  show (((clamp n).toNat * 52 : Nat) : Int) = clamp n * 52
  omega

/-! ## The builders agree up to the maximum -/

/-- A program with a shuffle builds so many copies of every card: it does not
    trap, it can end, and whenever it ends the copies are there. -/
structure Builds (n : Int)
    (run : Nat → (Nat → Arrangement Card) → Outcome (List Card)) : Prop where
  safe : ∀ fuel random, (run fuel random).Safe
  ends : ∃ fuel random cards, run fuel random = .done cards
  copies : ∀ fuel random cards, run fuel random = .done cards →
    Copies cards n

/-- The cards in the deck that `createShuffledDeck` leaves. -/
def createdShuffledDeck (d : Deck) (n : Int) (fuel : Nat)
    (random : Nat → Arrangement Card) : Outcome (List Card) := do
  let (_, d) ← d.createShuffledDeck fuel random n
  return d.deckCards

/-- The two builders agree on a number of sub-decks: the static method
    completes, with the documented number of copies of every card, in some
    order of the cards of the instance method; and so do the shuffled ones,
    each of which builds the copies by itself. -/
structure Agree (d : Deck) (n : Int) : Prop where
  created : ∃ cards, staticCreateDeck n = .done cards ∧
    cards.Perm (d.createDeck n).2.deckCards ∧ Copies cards (clamp n)
  staticShuffled : Builds (clamp n)
    (fun fuel random => staticCreateShuffledDeck fuel random n)
  instanceShuffled : Builds (clamp n) (createdShuffledDeck d n)
  returned : ∀ fuel random p, d.createShuffledDeck fuel random n = .done p →
    p.1 = p.2.deckCards
  shuffled : ∀ fuel random cards fuel' random' p,
    staticCreateShuffledDeck fuel random n = .done cards →
    d.createShuffledDeck fuel' random' n = .done p →
    cards.Perm p.2.deckCards

/-- A static shuffle that ends has only reordered the cards. -/
theorem staticShuffle_perm {fuel : Nat} {random : Nat → Arrangement Card}
    {deck out : List Card} (h : staticShuffle fuel random deck = .done out) :
    out.Perm deck := by
  simp only [staticShuffle] at h
  by_cases hlen : 0 < deck.length
  · rw [if_pos hlen] at h
    exact shuffleLoop_perm _ _ _ _ _ h
  · have hnil : deck = [] := List.length_eq_zero_iff.mp (by omega)
    rw [if_neg hlen] at h
    rw [← Outcome.done.inj h, hnil]

theorem safe_staticShuffle (fuel : Nat) (random : Nat → Arrangement Card)
    (deck : List Card) : (staticShuffle fuel random deck).Safe := by
  simp only [staticShuffle]
  by_cases hlen : 0 < deck.length
  · rw [if_pos hlen]
    exact safe_shuffleLoop _ _ _ _
  · rw [if_neg hlen]
    exact Outcome.Safe.done []

/-- A deck with copies of every card can be shuffled. -/
theorem staticShuffle_ends {deck : List Card} {n : Int}
    (h : Copies deck n) : ∃ fuel random out,
      staticShuffle fuel random deck = .done out := by
  cases deck with
  | nil => exact ⟨0, fun _ => .keep, [], rfl⟩
  | cons card rest =>
      -- there is a copy of a card, so there is one of every card
      have hmem : ∀ c : Card, c ∈ card :: rest := by
        intro c
        have hpos : 0 < (card :: rest).count card :=
          List.count_pos_iff.mpr List.mem_cons_self
        have hc := h c
        have hcard := h card
        exact List.count_pos_iff.mp (by omega)
      exact ((guaranteed_staticShuffle_iff (card :: rest)).mpr
        ⟨⟨.clubs, .two⟩, hmem _, ⟨.clubs, .three⟩, hmem _, by decide⟩).ends

/-- **A shuffle of copies** of every card builds them. -/
theorem builds_staticShuffle {deck : List Card} {n : Int} (h : Copies deck n) :
    Builds n (fun fuel random => staticShuffle fuel random deck) where
  safe := fun fuel random => safe_staticShuffle fuel random deck
  ends := staticShuffle_ends h
  copies := fun _ _ _ hout => h.perm (staticShuffle_perm hout)

/-- The instance method shuffles the deck it has created. -/
theorem createShuffledDeck_eq (fuel : Nat) (random : Nat → Arrangement Card)
    (d : Deck) (n : Int) :
    d.createShuffledDeck fuel random n
      = (staticShuffle fuel random (d.createDeck n).2.decks >>= fun decks =>
          .done (decks, { (d.createDeck n).2 with decks := decks })) := by
  simp only [createShuffledDeck]
  exact shuffle_eq fuel random (d.createDeck n).2

theorem createdShuffledDeck_eq (d : Deck) (n : Int) :
    createdShuffledDeck d n
      = fun fuel random => staticShuffle fuel random (d.createDeck n).2.decks
      := by
  funext fuel random
  simp only [createdShuffledDeck]
  rw [createShuffledDeck_eq]
  cases staticShuffle fuel random (d.createDeck n).2.decks <;> rfl

/-- It returns the deck it leaves, in which the cards are reordered. -/
theorem createShuffledDeck_inv {fuel : Nat} {random : Nat → Arrangement Card}
    {d : Deck} {n : Int} {p : List Card × Deck}
    (h : d.createShuffledDeck fuel random n = .done p) :
    p.1 = p.2.deckCards ∧ p.2.deckCards.Perm (d.createDeck n).2.decks := by
  rw [createShuffledDeck_eq] at h
  obtain ⟨out, hout, hp⟩ := Outcome.bind_eq_done.mp h
  rw [← Outcome.done.inj hp]
  exact ⟨rfl, staticShuffle_perm hout⟩

/-- **The builders agree exactly up to the maximum** number of sub-decks. -/
theorem builders_agree_iff (d : Deck) (n : Int) :
    Agree d n ↔ n ≤ maxNumSubDecks := by
  constructor
  · intro h
    obtain ⟨cards, hcards, hperm, -⟩ := h.created
    have hlen : (cards.length : Int) = (d.createDeck n).2.decks.length := by
      rw [hperm.length_eq]
      rfl
    rw [staticCreateDeck_length hcards, length_createDeck] at hlen
    have hclamp : clamp n = min (max n 0) 10 := rfl
    show n ≤ 10
    omega
  · intro hn
    obtain ⟨cards, hcards, hperm⟩ := staticCreateDeck_perm hn d
    have hcopies := (copies_createDeck d n).perm hperm
    have hrun : ∀ fuel random, staticCreateShuffledDeck fuel random n
        = staticShuffle fuel random cards := by
      intro fuel random
      simp only [staticCreateShuffledDeck]
      rw [hcards]
      rfl
    refine ⟨⟨cards, hcards, hperm, hcopies⟩, ?_, ?_, ?_, ?_⟩
    · simp only [hrun]
      exact builds_staticShuffle hcopies
    · rw [createdShuffledDeck_eq]
      exact builds_staticShuffle (copies_createDeck d n)
    · exact fun fuel random p hp => (createShuffledDeck_inv hp).1
    · intro fuel random out fuel' random' p hout hp
      rw [hrun] at hout
      exact ((staticShuffle_perm hout).trans hperm).trans
        (createShuffledDeck_inv hp).2.symm

/-- Eleven sub-decks are one too many, and with `2 ^ 60` the static method
    overflows. -/
theorem builders_disagree :
    (∃ cards, staticCreateDeck 11 = .done cards ∧ ¬ cards.Perm
        (Deck.createDeck ⟨[], AllowedNumSubDecks.wrap 0⟩ 11).2.deckCards) ∧
      staticCreateDeck (2 ^ 60) = .trap "Arithmetic overflow" := by
  refine ⟨⟨(List.replicate 11 staticSubDeck).flatten, rfl, ?_⟩, rfl⟩
  intro hperm
  have hlen := hperm.length_eq
  revert hlen
  decide +kernel

end DeckBuilders
