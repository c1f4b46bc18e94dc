import CardCrucible.Ladder
import CardCrucible.RoundLaws
import Mathlib.Data.Prod.Lex

/-! # Strength — what a hand is worth in a round

    A round is a ladder.  The stakes of a hand are its first card and then
    every second card, at full value, and a card left over at the end counts
    below every full stake.  `strength` is that list: it depends on the hand
    alone, and the winner of a round, its draws and the players a draw leaves
    in the game can all be told from the strengths of the hands before it. -/

namespace Strength

open Outcomes Arrangements Dictionaries CardModel DeckModel PlayerModel
open WarModel WarModel.War WarState WarTurn Comparisons WarRuns Spending
open Dealing Rounds GameStatus RoundLaws Ladders

variable {Id : Type} [LinearOrder Id]

/-- A stake: a rank shown in a complete (`true`) or limited war. -/
abbrev Stake : Type := Bool ×ₗ Rank

/-- The stake of a card shown when everybody else can match it. -/
def full (card : Card) : Stake := toLex (true, card.rank)

/-- The stake of a last card. -/
def limited (card : Card) : Stake := toLex (false, card.rank)

/-- A stake falls short of another if it is limited and the other is full. -/
def short (a b : Stake) : Bool := !(ofLex a).1 && (ofLex b).1

/-- The stakes of a hand in a war. -/
def warStrength : List Card → List Stake
  | [] => []
  | [card] => [limited card]
  | _ :: card :: rest => full card :: warStrength rest

/-- The stakes of a hand in a round. -/
def strength : List Card → List Stake
  | [] => []
  | card :: rest => full card :: warStrength rest

theorem full_le_full {c d : Card} : full c ≤ full d ↔ c.rank ≤ d.rank := by
  simp only [full]
  rw [Prod.Lex.toLex_le_toLex]
  simp

theorem limited_le_limited {c d : Card} :
    limited c ≤ limited d ↔ c.rank ≤ d.rank := by
  simp only [limited]
  rw [Prod.Lex.toLex_le_toLex]
  simp

/-- The stakes of a player in a war. -/
abbrev warStakes (s : War Id) (id : Id) : List Stake := warStrength (hand s id)

/-- The stakes of a player in a round. -/
abbrev stakes (s : War Id) (id : Id) : List Stake := strength (hand s id)

/-! ## A comparison is a rung -/

theorem lt_of_short {a b : Stake} (h : short a b = true) : a < b := by
  have hab : (ofLex a).1 = false ∧ (ofLex b).1 = true := by
    simp only [short] at h
    rw [Bool.and_eq_true, Bool.not_eq_true'] at h
    exact h
  rw [Prod.Lex.lt_iff, hab.1, hab.2]
  exact Or.inl rfl

/-- A comparison after a turn is a rung of the ladder `f`: whoever shows a card
    has it as the next stake and goes on with the stakes of the hand that is
    left; whoever cannot show one has no stake or one that falls short. -/
structure Rung (s : War Id) (need : Nat) (ids : List Id)
    (f : Id → List Stake) (g : Card → Stake) : Prop where
  pos : 0 < need
  rank : ∀ c d, g c ≤ g d ↔ c.rank ≤ d.rank
  flat : ∀ c d, short (g c) (g d) = false
  shown : ∀ k ∈ ids, ∀ c, shows s need k = some c →
    f k = g c :: warStakes (turn need ids s) k
  unshown : ∀ k ∈ ids, shows s need k = none →
    f k = [] ∨ ∃ b rest, f k = b :: rest ∧ ∀ c, short b (g c) = true

/-- The cards placed are the first rung. -/
theorem rung_round (s : War Id) : Rung s 1 (active s) (stakes s) full where
  pos := Nat.zero_lt_one
  rank := fun _ _ => full_le_full
  flat := fun _ _ => rfl
  shown := by
    intro k hk c hc
    simp only [shows] at hc
    show strength (hand s k) = full c :: warStrength (hand (turn 1 _ s) k)
    rw [hand_turn, if_pos hk]
    cases hcards : hand s k with
    | nil => rw [hcards] at hc; simp at hc
    | cons d rest =>
        rw [hcards] at hc
        rw [← Option.some.inj hc]
        rfl
  unshown := by
    intro k _ hnone
    simp only [shows] at hnone
    refine Or.inl ?_
    show strength (hand s k) = []
    cases hcards : hand s k with
    | nil => rfl
    | cons d rest => rw [hcards] at hnone; simp at hnone

/-- The draws of a war are the next rung. -/
theorem rung_war (s : War Id) (holders : List Id) :
    ∃ g, Rung s (warSize s holders) holders (warStakes s) g := by
  by_cases hex : ∃ k ∈ holders, cardsNeededForWar ≤ (hand s k).length
  · -- a complete war: the second card is shown, a single one falls short
    have hsize : warSize s holders = 2 := if_pos hex
    rw [hsize]
    refine ⟨full, Nat.zero_lt_two, fun _ _ => full_le_full, fun _ _ => rfl,
      ?_, ?_⟩
    · intro k hk c hc
      simp only [shows] at hc
      show warStrength (hand s k) = full c :: warStrength (hand (turn 2 _ s) k)
      rw [hand_turn, if_pos hk]
      cases hcards : hand s k with
      | nil => rw [hcards] at hc; simp at hc
      | cons d rest =>
          cases rest with
          | nil => rw [hcards] at hc; simp at hc
          | cons e rest =>
              rw [hcards] at hc
              rw [← Option.some.inj hc]
              rfl
    · intro k _ hnone
      simp only [shows] at hnone
      show warStrength (hand s k) = [] ∨ _
      cases hcards : hand s k with
      | nil => exact Or.inl rfl
      | cons d rest =>
          cases rest with
          | nil =>
              refine Or.inr ⟨limited d, [], ?_, fun _ => rfl⟩
              show warStrength (hand s k) = _
              rw [hcards]
              rfl
          | cons e rest => rw [hcards] at hnone; simp at hnone
  · -- a limited war: nobody has a second card
    have hsize : warSize s holders = 1 := if_neg hex
    have hfew : ∀ k ∈ holders, (hand s k).length < 2 := fun k hk =>
      not_le.mp (fun h => hex ⟨k, hk, h⟩)
    rw [hsize]
    refine ⟨limited, Nat.zero_lt_one, fun _ _ => limited_le_limited,
      fun _ _ => rfl, ?_, ?_⟩
    · intro k hk c hc
      have hlen := hfew k hk
      simp only [shows] at hc
      show warStrength (hand s k)
        = limited c :: warStrength (hand (turn 1 _ s) k)
      rw [hand_turn, if_pos hk]
      cases hcards : hand s k with
      | nil => rw [hcards] at hc; simp at hc
      | cons d rest =>
          cases rest with
          | nil =>
              rw [hcards] at hc
              rw [← Option.some.inj hc]
              rfl
          | cons e rest =>
              rw [hcards, List.length_cons, List.length_cons] at hlen
              exact absurd hlen (by omega)
    · intro k _ hnone
      simp only [shows] at hnone
      refine Or.inl ?_
      show warStrength (hand s k) = []
      cases hcards : hand s k with
      | nil => rfl
      | cons d rest => rw [hcards] at hnone; simp at hnone

namespace Rung

variable {s : War Id} {need : Nat} {ids next : List Id}
variable {f : Id → List Stake} {g : Card → Stake}

/-- Leading the comparison is leading the rung. -/
theorem leads_iff (h : Rung s need ids f g)
    (hstand : ∃ k ∈ ids, need ≤ (hand s k).length) (id : Id) :
    LeadsTurn s need ids id ↔ LeadsNext ids f id := by
  obtain ⟨k₀, hk₀, hlen₀⟩ := hstand
  obtain ⟨c₀, hc₀⟩ := (shows_isSome h.pos).mpr hlen₀
  constructor
  · rintro ⟨hid, c, hc, hmax⟩
    refine ⟨hid, g c, by rw [h.shown id hid c hc]; rfl, ?_⟩
    intro k hk b hb
    cases hshow : shows s need k with
    | some d =>
        rw [h.shown k hk d hshow] at hb
        rw [← Option.some.inj hb]
        exact (h.rank d c).mpr (hmax k hk d hshow)
    | none =>
        rcases h.unshown k hk hshow with hnil | ⟨b', rest, hb', hshort⟩
        · rw [hnil] at hb
          simp at hb
        · rw [hb'] at hb
          rw [← Option.some.inj hb]
          exact le_of_lt (lt_of_short (hshort c))
  · rintro ⟨hid, a, ha, hmax⟩
    have hle₀ := hmax k₀ hk₀ (g c₀) (by rw [h.shown k₀ hk₀ c₀ hc₀]; rfl)
    cases hshow : shows s need id with
    | none =>
        rcases h.unshown id hid hshow with hnil | ⟨b, rest, hb, hshort⟩
        · rw [hnil] at ha
          simp at ha
        · rw [hb] at ha
          rw [← Option.some.inj ha] at hle₀
          exact absurd (lt_of_short (hshort c₀)) (not_lt.mpr hle₀)
    | some c =>
        rw [h.shown id hid c hshow] at ha
        refine ⟨hid, c, hshow, ?_⟩
        intro k hk d hd
        have hle := hmax k hk (g d) (by rw [h.shown k hk d hd]; rfl)
        rw [← Option.some.inj ha] at hle
        exact (h.rank d c).mp hle

/-- Those who go on are those who lead the rung. -/
theorem next_iff (h : Rung s need ids f g)
    (hlead : ∀ id, id ∈ next ↔ LeadsTurn s need ids id)
    (hne : ∃ id, id ∈ next) (id : Id) : id ∈ next ↔ LeadsNext ids f id := by
  have hstand : ∃ k ∈ ids, need ≤ (hand s k).length := by
    obtain ⟨k, hk⟩ := hne
    obtain ⟨hkids, c, hc, -⟩ := (hlead k).mp hk
    exact ⟨k, hkids, (shows_isSome h.pos).mp ⟨c, hc⟩⟩
  exact (hlead id).trans (h.leads_iff hstand id)

/-- **One rung keeps who tops**: those who lead go on with the stakes of the
    hands they are left with. -/
theorem tops_iff (h : Rung s need ids f g)
    (hlead : ∀ id, id ∈ next ↔ LeadsTurn s need ids id)
    (hne : ∃ id, id ∈ next) (id : Id) :
    Tops ids f id ↔ Tops next (warStakes (turn need ids s)) id := by
  rw [tops_iff_next (h.next_iff hlead hne) hne id]
  refine tops_congr (fun k hk => ?_) id
  obtain ⟨hkids, c, hc, -⟩ := (hlead k).mp hk
  rw [h.shown k hkids c hc]
  rfl

/-- The same with the ladder cut short after some rungs. -/
theorem tops_take_iff (h : Rung s need ids f g)
    (hlead : ∀ id, id ∈ next ↔ LeadsTurn s need ids id)
    (hne : ∃ id, id ∈ next) (n : Nat) (id : Id) :
    Tops ids (fun k => (f k).take (n + 1)) id
      ↔ Tops next (fun k => (warStakes (turn need ids s) k).take n) id := by
  rw [tops_take_iff_next (h.next_iff hlead hne) hne n id]
  refine tops_congr (fun k hk => ?_) id
  obtain ⟨hkids, c, hc, -⟩ := (hlead k).mp hk
  rw [h.shown k hkids c hc]
  rfl

/-- A sole leader tops alone. -/
theorem tops_iff_eq (h : Rung s need ids f g) {w : Id}
    (hlead : ∀ id, LeadsTurn s need ids id ↔ id = w) (id : Id) :
    Tops ids f id ↔ id = w := by
  have hmem : ∀ k, k ∈ [w] ↔ LeadsTurn s need ids k := fun k =>
    List.mem_singleton.trans (hlead k).symm
  rw [h.tops_iff hmem ⟨w, List.mem_singleton.mpr rfl⟩]
  exact tops_singleton _ w id

/-- Between two who lead, the rest of the stakes decides who gives out. -/
theorem givesOut_next (h : Rung s need ids f g)
    (hlead : ∀ id, id ∈ next ↔ LeadsTurn s need ids id) {i j : Id}
    (hi : i ∈ next) (hj : j ∈ next) :
    givesOut short (f i) (f j)
      = givesOut short (warStakes (turn need ids s) i)
          (warStakes (turn need ids s) j) := by
  obtain ⟨hiids, c, hc, hmaxc⟩ := (hlead i).mp hi
  obtain ⟨hjids, d, hd, hmaxd⟩ := (hlead j).mp hj
  have hcd : g c = g d := le_antisymm ((h.rank c d).mpr (hmaxd i hiids c hc))
    ((h.rank d c).mpr (hmaxc j hjids d hd))
  rw [h.shown i hiids c hc, h.shown j hjids d hd, hcd]
  exact if_pos rfl

/-- Against one who leads, one who does not gives out exactly when it comes up
    short. -/
theorem givesOut_left (h : Rung s need ids f g)
    (hlead : ∀ id, id ∈ next ↔ LeadsTurn s need ids id) {i j : Id}
    (hi : i ∈ ids) (hni : i ∉ next) (hj : j ∈ next) :
    givesOut short (f i) (f j) = true ↔ (hand s i).length < need := by
  obtain ⟨hjids, d, hd, hmaxd⟩ := (hlead j).mp hj
  rw [h.shown j hjids d hd]
  cases hshow : shows s need i with
  | some c =>
      -- it shows a card of a lower rank
      have hlen := (shows_isSome h.pos).mp ⟨c, hshow⟩
      have hne : ¬ g c = g d := by
        intro heq
        refine hni ((hlead i).mpr ⟨hi, c, hshow, ?_⟩)
        intro k hk e he
        exact le_trans (hmaxd k hk e he)
          ((h.rank d c).mp (le_of_eq heq.symm))
      have hval : givesOut short (f i)
          (g d :: warStakes (turn need ids s) j) = false := by
        rw [h.shown i hi c hshow]
        exact (if_neg hne).trans (h.flat c d)
      rw [hval]
      exact ⟨(fun hf => by cases hf),
        fun hlt => absurd hlen (not_le.mpr hlt)⟩
  | none =>
      have hlen : (hand s i).length < need := by
        refine not_le.mp (fun hle => ?_)
        obtain ⟨c, hc⟩ := (shows_isSome h.pos).mpr hle
        rw [hshow] at hc
        simp at hc
      refine ⟨fun _ => hlen, fun _ => ?_⟩
      rcases h.unshown i hi hshow with hnil | ⟨b, rest, hb, hshort⟩
      · rw [hnil]
        rfl
      · rw [hb]
        exact (if_neg (ne_of_lt (lt_of_short (hshort d)))).trans (hshort d)

end Rung

end Strength
