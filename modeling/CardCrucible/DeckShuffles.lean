import CardCrucible.Deck

/-! # Shuffles — when the retry loop can end

    Both shuffles reorder the cards until the order differs from the order
    before.  The loop can end exactly when the cards have a second order, that
    is, when two of them differ; with one card, or with copies of one card, no
    outcome of the random reordering satisfies its exit test. -/

namespace DeckShuffles

open Outcomes Arrangements CardModel DeckModel DeckModel.Deck

/-! ## Second orders -/

/-- A list with two different members has a second order. -/
theorem exists_perm_ne {α : Type} [DecidableEq α] {l : List α} {a b : α}
    (ha : a ∈ l) (hb : b ∈ l) (hab : a ≠ b) : ∃ l', l'.Perm l ∧ l' ≠ l := by
  have hfront : ∀ c ∈ l, (c :: l.erase c).Perm l := fun c hc =>
    (List.perm_cons_erase hc).symm
  by_cases h : a :: l.erase a = l
  · -- the list starts with `a`, so it does not start with `b`
    refine ⟨b :: l.erase b, hfront b hb, ?_⟩
    intro h'
    exact hab (List.cons.inj (h.trans h'.symm)).1
  · exact ⟨a :: l.erase a, hfront a ha, h⟩

/-- A list without two different members has only the order it is in. -/
theorem eq_of_perm_of_same {α : Type} {l l' : List α} (hperm : l'.Perm l)
    (h : ∀ a ∈ l, ∀ b ∈ l, a = b) : l' = l := by
  cases l with
  | nil => exact hperm.eq_nil
  | cons a rest =>
      have hrep : a :: rest = List.replicate (rest.length + 1) a :=
        List.eq_replicate_iff.mpr
          ⟨rfl, fun b hb => h b hb a List.mem_cons_self⟩
      rw [hrep] at hperm ⊢
      exact List.perm_replicate.mp hperm

/-! ## The retry loop -/

/-- A loop that ends leaves an order that differs from the one before. -/
theorem shuffleLoop_ne :
    ∀ (fuel : Nat) (random : Nat → Arrangement Card)
      (temp decks out : List Card),
      shuffleLoop fuel random temp decks = .done out → out ≠ temp := by
  intro fuel
  induction fuel with
  | zero => intro random temp decks out h; cases h
  | succ fuel ih =>
      intro random temp decks out h
      simp only [shuffleLoop] at h
      by_cases heq : temp = decks
      · rw [if_pos heq] at h
        exact ih _ _ _ _ h
      · rw [if_neg heq] at h
        rw [← Outcome.done.inj h]
        exact fun h' => heq h'.symm

/-- One outcome of the reordering with a new order ends the loop. -/
theorem shuffleLoop_of_ne {cards : List Card} {o : Arrangement Card}
    (h : o.arrange cards ≠ cards) :
    shuffleLoop 2 (fun _ => o) cards cards = .done (o.arrange cards) := by
  show (if cards = cards then (if cards = o.arrange cards then Outcome.outOfFuel
    else .done (o.arrange cards)) else .done cards) = _
  rw [if_pos rfl, if_neg (fun h' => h h'.symm)]

/-- **The loop can end** exactly on cards of which two differ. -/
theorem shuffleLoop_returns_iff (cards : List Card) :
    (∃ fuel random out, shuffleLoop fuel random cards cards = .done out) ↔
      ∃ a ∈ cards, ∃ b ∈ cards, a ≠ b := by
  constructor
  · rintro ⟨fuel, random, out, h⟩
    by_contra hsame
    refine shuffleLoop_ne fuel random cards cards out h ?_
    refine eq_of_perm_of_same (shuffleLoop_perm _ _ _ _ _ h) ?_
    intro a ha b hb
    by_contra hab
    exact hsame ⟨a, ha, b, hb, hab⟩
  · rintro ⟨a, ha, b, hb, hab⟩
    obtain ⟨cards', hperm, hne⟩ := exists_perm_ne ha hb hab
    have harrange : (Arrangement.only cards cards' hperm).arrange cards
        = cards' := if_pos rfl
    refine ⟨2, fun _ => Arrangement.only cards cards' hperm, cards', ?_⟩
    rw [shuffleLoop_of_ne (by rw [harrange]; exact hne), harrange]

/-- A loop never traps. -/
theorem safe_shuffleLoop :
    ∀ (fuel : Nat) (random : Nat → Arrangement Card) (temp decks : List Card),
      (shuffleLoop fuel random temp decks).Safe := by
  intro fuel
  induction fuel with
  | zero => intro random temp decks; exact Outcome.Safe.outOfFuel
  | succ fuel ih =>
      intro random temp decks
      simp only [shuffleLoop]
      by_cases heq : temp = decks
      · rw [if_pos heq]
        exact ih _ _ _
      · rw [if_neg heq]
        exact Outcome.Safe.done decks

/-! ## Both shuffles -/

/-- The guarantee of a shuffle, as a program with fuel and random outcomes: it
    can end, and whenever it does the order has changed and nothing else. -/
structure Guaranteed (cards : List Card)
    (run : Nat → (Nat → Arrangement Card) → Outcome (List Card)) : Prop where
  ends : ∃ fuel random out, run fuel random = .done out
  changed : ∀ fuel random out, run fuel random = .done out →
    out.Perm cards ∧ out ≠ cards

/-- The retry loop keeps the guarantee exactly when it can end. -/
theorem guaranteed_loop_iff (cards : List Card) :
    Guaranteed cards (fun fuel random => shuffleLoop fuel random cards cards) ↔
      ∃ a ∈ cards, ∃ b ∈ cards, a ≠ b := by
  rw [← shuffleLoop_returns_iff]
  constructor
  · exact fun h => h.ends
  · intro h
    exact ⟨h, fun fuel random out hout => ⟨shuffleLoop_perm _ _ _ _ _ hout,
      shuffleLoop_ne _ _ _ _ _ hout⟩⟩

/-- A program that does nothing but return an empty list guarantees nothing. -/
theorem not_guaranteed_nil : ¬ Guaranteed [] (fun _ _ => .done []) := by
  intro h
  exact (h.changed 0 (fun _ => .keep) [] rfl).2 rfl

theorem guaranteed_staticShuffle_iff (cards : List Card) :
    Guaranteed cards (fun fuel random => staticShuffle fuel random cards) ↔
      ∃ a ∈ cards, ∃ b ∈ cards, a ≠ b := by
  cases cards with
  | nil =>
      refine iff_of_false not_guaranteed_nil ?_
      rintro ⟨a, ha, -⟩
      simp at ha
  | cons card rest => exact guaranteed_loop_iff (card :: rest)

/-- The cards in the deck that `shuffle` leaves. -/
def shuffledDeck (d : Deck) (fuel : Nat) (random : Nat → Arrangement Card) :
    Outcome (List Card) := do
  let (_, d) ← Deck.shuffle fuel random d
  return d.deckCards

/-- The copy that `shuffle` returns is the deck it leaves. -/
theorem shuffle_eq (fuel : Nat) (random : Nat → Arrangement Card) (d : Deck) :
    Deck.shuffle fuel random d
      = (staticShuffle fuel random d.decks >>= fun decks =>
          .done (decks, { d with decks := decks })) := by
  simp only [Deck.shuffle, staticShuffle]
  by_cases h : 0 < d.decks.length
  · rw [if_pos h, if_pos (show 0 < d.deckSize from h)]
    rfl
  · have hnil : d.decks = [] := List.length_eq_zero_iff.mp (by omega)
    rw [if_neg h, if_neg (show ¬ 0 < d.deckSize from h)]
    show Outcome.done ([], d) = .done ([], { d with decks := [] })
    rw [← hnil]

theorem shuffledDeck_eq (d : Deck) (fuel : Nat)
    (random : Nat → Arrangement Card) :
    shuffledDeck d fuel random = staticShuffle fuel random d.decks := by
  simp only [shuffledDeck]
  rw [shuffle_eq]
  cases staticShuffle fuel random d.decks <;> rfl

/-- **When the shuffles keep their guarantee**: both the instance and the
    static shuffle do so exactly for cards of which two differ. -/
theorem shuffles_guaranteed_iff (cards : List Card)
    (numSubDecks : AllowedNumSubDecks) :
    (Guaranteed cards (shuffledDeck ⟨cards, numSubDecks⟩) ↔
        ∃ a ∈ cards, ∃ b ∈ cards, a ≠ b) ∧
      (Guaranteed cards (fun fuel random => staticShuffle fuel random cards) ↔
        ∃ a ∈ cards, ∃ b ∈ cards, a ≠ b) := by
  refine ⟨?_, guaranteed_staticShuffle_iff cards⟩
  have hrun : shuffledDeck ⟨cards, numSubDecks⟩
      = fun fuel random => staticShuffle fuel random cards := by
    funext fuel random
    exact shuffledDeck_eq ⟨cards, numSubDecks⟩ fuel random
  rw [hrun]
  exact guaranteed_staticShuffle_iff cards

/-- A sub-deck of which all cards but one have been drawn. -/
def lastCardDeck : Deck :=
  ((Deck.createDeck ⟨[], AllowedNumSubDecks.wrap 0⟩ 1).2.drawCards 51).2

theorem decks_lastCardDeck : lastCardDeck.decks = [⟨.spades, .ace⟩] := rfl

/-- Shuffling the last card of a deck never ends. -/
theorem last_card_never_shuffled :
    (∀ fuel random, shuffledDeck lastCardDeck fuel random = .outOfFuel) ∧
      ∀ fuel random,
        staticShuffle fuel random lastCardDeck.deckCards = .outOfFuel := by
  have hstatic : ∀ fuel random,
      staticShuffle fuel random lastCardDeck.decks = .outOfFuel := by
    intro fuel random
    rw [decks_lastCardDeck]
    show shuffleLoop fuel random [⟨.spades, .ace⟩] [⟨.spades, .ace⟩] = _
    cases h : shuffleLoop fuel random [⟨.spades, .ace⟩] [⟨.spades, .ace⟩] with
    | done out =>
        exact absurd (List.perm_singleton.mp (shuffleLoop_perm _ _ _ _ _ h))
          (shuffleLoop_ne _ _ _ _ _ h)
    | trap reason => exact absurd h (safe_shuffleLoop _ _ _ _ reason)
    | outOfFuel => rfl
  refine ⟨?_, hstatic⟩
  intro fuel random
  rw [shuffledDeck_eq]
  exact hstatic fuel random

end DeckShuffles
