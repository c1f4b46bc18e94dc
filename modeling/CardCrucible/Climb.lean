import CardCrucible.Ladder
import Mathlib.Data.Finset.Lattice.Fold
import Mathlib.Order.Lattice.Nat

/-! # Climbs — how far the contestants of a ladder get

    Against somebody who tops a ladder, a contestant goes on for as long as its
    stakes are the same: `together` counts these rungs.  Whoever tops alone
    stops climbing with the last rival, so no `climb` is longer than the
    ladder is `contested`.  One rung of the ladder is one step of all of it for
    those who go on, and the end for the others. -/

namespace Climbs

open Ladders

variable {ι α : Type} [LinearOrder α]

/-- The number of stakes two lists share before they first differ. -/
def together : List α → List α → Nat
  | [], _ => 0
  | _ :: _, [] => 0
  | a :: as, b :: bs => if a = b then together as bs + 1 else 0

@[simp] theorem together_nil (l : List α) : together [] l = 0 := rfl

@[simp] theorem together_cons_self (a : α) (l m : List α) :
    together (a :: l) (a :: m) = together l m + 1 := if_pos rfl

theorem together_cons_of_ne {a b : α} (h : a ≠ b) (l m : List α) :
    together (a :: l) (b :: m) = 0 := if_neg h

theorem together_self (l : List α) : together l l = l.length := by
  induction l with
  | nil => rfl
  | cons a l ih => rw [together_cons_self, ih, List.length_cons]

/-- No list shares more stakes than there are. -/
theorem together_le (l m : List α) : together l m ≤ m.length := by
  induction l generalizing m with
  | nil => exact Nat.zero_le _
  | cons a l ih =>
      cases m with
      | nil => exact Nat.le_refl _
      | cons b m =>
          by_cases hab : a = b
          · rw [hab, together_cons_self, List.length_cons]
            exact Nat.succ_le_succ (ih m)
          · rw [together_cons_of_ne hab]
            exact Nat.zero_le _

section Contest

variable [DecidableEq ι]

/-- The rungs on which `t` has a rival. -/
def contested (ids : List ι) (stakes : ι → List α) (t : ι) : Nat :=
  (ids.toFinset.erase t).sup (fun k => together (stakes k) (stakes t))

/-- The rungs that a contestant climbs. -/
def climb (ids : List ι) (stakes : ι → List α) (t i : ι) : Nat :=
  min (together (stakes i) (stakes t)) (contested ids stakes t)

/-- Every rival is met on the rungs it shares. -/
theorem le_contested {ids : List ι} (stakes : ι → List α) {t k : ι}
    (hk : k ∈ ids.toFinset.erase t) :
    together (stakes k) (stakes t) ≤ contested ids stakes t := by
  simp only [contested]
  exact Finset.le_sup_of_le hk (Nat.le_refl _)

/-- Nobody meets a rival on a rung it has no stake for. -/
theorem contested_le (ids : List ι) (stakes : ι → List α) (t : ι) :
    contested ids stakes t ≤ (stakes t).length :=
  Finset.sup_le (fun k _ => together_le (stakes k) (stakes t))

theorem contested_congr {ids ids' : List ι} {stakes stakes' : ι → List α}
    {t : ι} (hmem : ∀ i, i ∈ ids ↔ i ∈ ids') (ht : t ∈ ids)
    (h : ∀ i ∈ ids, stakes i = stakes' i) :
    contested ids stakes t = contested ids' stakes' t := by
  have hids : ids.toFinset = ids'.toFinset := by
    ext i
    rw [List.mem_toFinset, List.mem_toFinset]
    exact hmem i
  simp only [contested]
  rw [← hids]
  refine Finset.sup_congr rfl (fun k hk => ?_)
  have hk' := List.mem_toFinset.mp (Finset.mem_of_mem_erase hk)
  rw [h k hk', h t ht]

theorem climb_congr {ids ids' : List ι} {stakes stakes' : ι → List α}
    {t i : ι} (hmem : ∀ i, i ∈ ids ↔ i ∈ ids') (ht : t ∈ ids) (hi : i ∈ ids)
    (h : ∀ i ∈ ids, stakes i = stakes' i) :
    climb ids stakes t i = climb ids' stakes' t i := by
  simp only [climb]
  rw [contested_congr hmem ht h, h i hi, h t ht]

/-- Against a top that is shared everybody climbs as far as it can. -/
theorem climb_of_shared {ids : List ι} {stakes : ι → List α} {t u : ι}
    (hu : u ∈ ids) (hne : u ≠ t) (hut : stakes u = stakes t) (i : ι) :
    climb ids stakes t i = together (stakes i) (stakes t) := by
  have hmem : u ∈ ids.toFinset.erase t :=
    Finset.mem_erase.mpr ⟨hne, List.mem_toFinset.mpr hu⟩
  have hsup := le_contested stakes hmem
  rw [hut, together_self] at hsup
  exact min_eq_left ((together_le _ _).trans hsup)

/-! ## One rung -/

section Rung

variable {ids next : List ι} {stakes : ι → List α} {t i : ι}

omit [DecidableEq ι] in
/-- Those who lead show the same stake. -/
theorem exists_stake (hlead : ∀ i, i ∈ next ↔ LeadsNext ids stakes i)
    (ht : t ∈ next) :
    ∃ a ts, stakes t = a :: ts ∧
      ∀ k, k ∈ next ↔ k ∈ ids ∧ ∃ ks, stakes k = a :: ks := by
  obtain ⟨htids, a, ha, hmax⟩ := (hlead t).mp ht
  obtain ⟨ts, hts⟩ := List.head?_eq_some_iff.mp ha
  refine ⟨a, ts, hts, fun k => ?_⟩
  rw [hlead k]
  constructor
  · rintro ⟨hk, b, hb, hmaxb⟩
    obtain ⟨ks, hks⟩ := List.head?_eq_some_iff.mp hb
    have hab : a = b := le_antisymm (hmaxb t htids a ha) (hmax k hk b hb)
    rw [hab]
    exact ⟨hk, ks, hks⟩
  · rintro ⟨hk, ks, hks⟩
    exact ⟨hk, a, by rw [hks]; rfl, hmax⟩

omit [DecidableEq ι] in
/-- Those who go on have one rung more than on the rest of the ladder. -/
theorem together_next (hlead : ∀ i, i ∈ next ↔ LeadsNext ids stakes i)
    (ht : t ∈ next) (hi : i ∈ next) :
    together (stakes i) (stakes t)
      = together (stakes i).tail (stakes t).tail + 1 := by
  obtain ⟨a, ts, hts, hnext⟩ := exists_stake hlead ht
  obtain ⟨-, is, his⟩ := (hnext i).mp hi
  rw [hts, his]
  exact together_cons_self a is ts

omit [DecidableEq ι] in
/-- The others have none. -/
theorem together_left (hlead : ∀ i, i ∈ next ↔ LeadsNext ids stakes i)
    (ht : t ∈ next) (hi : i ∈ ids) (hni : i ∉ next) :
    together (stakes i) (stakes t) = 0 := by
  obtain ⟨a, ts, hts, hnext⟩ := exists_stake hlead ht
  rw [hts]
  cases his : stakes i with
  | nil => rfl
  | cons b is =>
      refine together_cons_of_ne (fun hba => hni ?_) is ts
      rw [hba] at his
      exact (hnext i).mpr ⟨hi, is, his⟩

/-- A rung with several leaders is contested. -/
theorem contested_next (hlead : ∀ i, i ∈ next ↔ LeadsNext ids stakes i)
    (ht : t ∈ next) (hrival : ∃ k ∈ next, k ≠ t) :
    contested ids stakes t
      = contested next (fun k => (stakes k).tail) t + 1 := by
  simp only [contested]
  refine le_antisymm (Finset.sup_le (fun k hk => ?_)) ?_
  · obtain ⟨hkt, hkids⟩ := Finset.mem_erase.mp hk
    by_cases hknext : k ∈ next
    · rw [together_next hlead ht hknext]
      have hmem : k ∈ next.toFinset.erase t :=
        Finset.mem_erase.mpr ⟨hkt, List.mem_toFinset.mpr hknext⟩
      exact Nat.succ_le_succ (le_contested (fun k => (stakes k).tail) hmem)
    · rw [together_left hlead ht (List.mem_toFinset.mp hkids) hknext]
      exact Nat.zero_le _
  · -- the last rival on the rest of the ladder is the last one here
    obtain ⟨k₀, hk₀, hne₀⟩ := hrival
    have hnonempty : (next.toFinset.erase t).Nonempty :=
      ⟨k₀, Finset.mem_erase.mpr ⟨hne₀, List.mem_toFinset.mpr hk₀⟩⟩
    obtain ⟨k, hk, hsup⟩ := Finset.exists_mem_eq_sup _ hnonempty
      (fun k => together (stakes k).tail (stakes t).tail)
    obtain ⟨hkt, hknext⟩ := Finset.mem_erase.mp hk
    have hknext' := List.mem_toFinset.mp hknext
    have hmem : k ∈ ids.toFinset.erase t :=
      Finset.mem_erase.mpr
        ⟨hkt, List.mem_toFinset.mpr ((hlead k).mp hknext').1⟩
    rw [hsup, ← together_next hlead ht hknext']
    exact le_contested stakes hmem

/-- A sole leader has no rival. -/
theorem contested_sole (hlead : ∀ i, LeadsNext ids stakes i ↔ i = t) :
    contested ids stakes t = 0 := by
  have hmem : ∀ i, i ∈ [t] ↔ LeadsNext ids stakes i := fun i =>
    List.mem_singleton.trans (hlead i).symm
  simp only [contested]
  refine Nat.le_zero.mp (Finset.sup_le (fun k hk => ?_))
  obtain ⟨hkt, hkids⟩ := Finset.mem_erase.mp hk
  rw [together_left hmem (List.mem_singleton.mpr rfl)
    (List.mem_toFinset.mp hkids) (fun h => hkt (List.mem_singleton.mp h))]

theorem climb_sole (hlead : ∀ i, LeadsNext ids stakes i ↔ i = t) (i : ι) :
    climb ids stakes t i = 0 := by
  simp only [climb]
  rw [contested_sole hlead]
  exact Nat.min_zero _

/-- **One rung more** for whoever goes on. -/
theorem climb_next (hlead : ∀ i, i ∈ next ↔ LeadsNext ids stakes i)
    (ht : t ∈ next) (hrival : ∃ k ∈ next, k ≠ t) (hi : i ∈ next) :
    climb ids stakes t i
      = climb next (fun k => (stakes k).tail) t i + 1 := by
  simp only [climb]
  rw [contested_next hlead ht hrival, together_next hlead ht hi]
  exact Nat.add_min_add_right _ _ 1

/-- Whoever does not go on has climbed no rung. -/
theorem climb_left (hlead : ∀ i, i ∈ next ↔ LeadsNext ids stakes i)
    (ht : t ∈ next) (hi : i ∈ ids) (hni : i ∉ next) :
    climb ids stakes t i = 0 := by
  simp only [climb]
  rw [together_left hlead ht hi hni]
  exact Nat.zero_min _

end Rung

end Contest

end Climbs
