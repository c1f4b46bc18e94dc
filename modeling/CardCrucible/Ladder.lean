import Mathlib.Data.List.Lex
import Mathlib.Order.Lattice

/-! # Ladders — knock-out contests over lists of stakes

    Each contestant of a ladder brings a list of stakes.  The contestants show
    their next stakes, those with the highest one go on with the rest of their
    lists, and so on; a contestant whose list has ended cannot show anything.

    Who is left at the end needs no play to find out: `Tops` are the
    contestants whose lists are greatest in the lexicographic order, and
    `tops_iff_next` says that one rung of the ladder keeps them.  `givesOut`
    tells the contestants who ran out of (good enough) stakes from those who
    were beaten by a higher one. -/

namespace Ladders

variable {ι α : Type} [LinearOrder α]

/-- A contestant whose list nobody's exceeds. -/
def Tops (ids : List ι) (stakes : ι → List α) (i : ι) : Prop :=
  i ∈ ids ∧ ∀ k ∈ ids, stakes k ≤ stakes i

/-- A contestant who shows a stake that nobody's next one exceeds. -/
def LeadsNext (ids : List ι) (stakes : ι → List α) (i : ι) : Prop :=
  i ∈ ids ∧ ∃ a, (stakes i).head? = some a ∧
    ∀ k ∈ ids, ∀ b, (stakes k).head? = some b → b ≤ a

instance [DecidableEq ι] (ids : List ι) (stakes : ι → List α) :
    DecidablePred (Tops ids stakes) := fun i =>
  inferInstanceAs (Decidable (i ∈ ids ∧ ∀ k ∈ ids, stakes k ≤ stakes i))

/-- Whether a list ends, or falls short, where it first differs from
    another. -/
def givesOut (short : α → α → Bool) : List α → List α → Bool
  | [], _ => true
  | _ :: _, [] => false
  | a :: as, b :: bs => if a = b then givesOut short as bs else short a b

/-- Those who top have the same stakes. -/
theorem Tops.eq {ids : List ι} {stakes : ι → List α} {i j : ι}
    (hi : Tops ids stakes i) (hj : Tops ids stakes j) : stakes i = stakes j :=
  le_antisymm (hj.2 i hi.1) (hi.2 j hj.1)

theorem nil_le (l : List α) : [] ≤ l := by
  rw [← not_lt]
  intro h
  simp at h

theorem cons_le_cons_iff {a b : α} {l m : List α} :
    a :: l ≤ b :: m ↔ a < b ∨ a = b ∧ l ≤ m := by
  have hlt : b :: m < a :: l ↔ b < a ∨ b = a ∧ m < l := List.cons_lt_cons_iff
  rw [← not_lt, hlt, ← not_lt (a := m)]
  constructor
  · intro h
    rcases lt_trichotomy a b with hab | hab | hab
    · exact Or.inl hab
    · exact Or.inr ⟨hab, fun hml => h (Or.inr ⟨hab.symm, hml⟩)⟩
    · exact absurd (Or.inl hab) h
  · rintro (hab | ⟨hab, hml⟩) (hba | ⟨hba, hlm⟩)
    · exact lt_asymm hab hba
    · exact hab.ne hba.symm
    · exact hba.ne hab.symm
    · exact hml hlm

theorem tops_congr {ids : List ι} {stakes stakes' : ι → List α}
    (h : ∀ k ∈ ids, stakes k = stakes' k) (i : ι) :
    Tops ids stakes i ↔ Tops ids stakes' i := by
  constructor
  · rintro ⟨hi, htop⟩
    refine ⟨hi, fun k hk => ?_⟩
    rw [← h k hk, ← h i hi]
    exact htop k hk
  · rintro ⟨hi, htop⟩
    refine ⟨hi, fun k hk => ?_⟩
    rw [h k hk, h i hi]
    exact htop k hk

/-- A contestant alone tops. -/
theorem tops_singleton (stakes : ι → List α) (w i : ι) :
    Tops [w] stakes i ↔ i = w := by
  constructor
  · exact fun h => List.mem_singleton.mp h.1
  · intro hi
    subst hi
    refine ⟨List.mem_singleton.mpr rfl, fun k hk => ?_⟩
    rw [List.mem_singleton.mp hk]

/-- Contestants without stakes all top. -/
theorem tops_of_nil {ids : List ι} {stakes : ι → List α}
    (h : ∀ i ∈ ids, stakes i = []) (i : ι) : Tops ids stakes i ↔ i ∈ ids := by
  constructor
  · exact fun ht => ht.1
  · intro hi
    refine ⟨hi, fun k hk => ?_⟩
    rw [h k hk]
    exact nil_le _

/-- **One rung**: those who top are the ones who lead it and top the rest of
    the ladder. -/
theorem tops_iff_next {ids next : List ι} {stakes : ι → List α}
    (hlead : ∀ i, i ∈ next ↔ LeadsNext ids stakes i)
    (hne : ∃ i, i ∈ next) (i : ι) :
    Tops ids stakes i ↔ Tops next (fun k => (stakes k).tail) i := by
  obtain ⟨j, hj⟩ := hne
  obtain ⟨hjids, a, ha, hmax⟩ := (hlead j).mp hj
  obtain ⟨js, hjs⟩ := List.head?_eq_some_iff.mp ha
  -- the contestants who go on are those whose next stake is `a`
  have hnext : ∀ k, k ∈ next ↔ k ∈ ids ∧ ∃ ks, stakes k = a :: ks := by
    intro k
    rw [hlead k]
    constructor
    · rintro ⟨hk, b, hb, hmaxb⟩
      obtain ⟨ks, hks⟩ := List.head?_eq_some_iff.mp hb
      have hab : a = b := le_antisymm (hmaxb j hjids a ha) (hmax k hk b hb)
      exact ⟨hk, ks, hab ▸ hks⟩
    · rintro ⟨hk, ks, hks⟩
      exact ⟨hk, a, by rw [hks]; rfl, hmax⟩
  constructor
  · rintro ⟨hi, htop⟩
    have hle := htop j hjids
    cases hstakes : stakes i with
    | nil =>
        rw [hstakes, hjs, ← not_lt] at hle
        exact absurd List.Lex.nil hle
    | cons b is =>
        have hba : b ≤ a := hmax i hi b (by rw [hstakes]; rfl)
        rw [hstakes, hjs, cons_le_cons_iff] at hle
        have hab : a = b := by
          rcases hle with hlt | ⟨heq, -⟩
          · exact absurd hba (not_le.mpr hlt)
          · exact heq
        refine ⟨(hnext i).mpr ⟨hi, is, hab ▸ hstakes⟩, ?_⟩
        intro k hk
        obtain ⟨hkids, ks, hks⟩ := (hnext k).mp hk
        have hlek := htop k hkids
        show (stakes k).tail ≤ (stakes i).tail
        rw [hks, hstakes, cons_le_cons_iff] at hlek
        rw [hks, hstakes]
        rcases hlek with hlt | ⟨-, hle'⟩
        · exact absurd hab (ne_of_lt hlt)
        · exact hle'
  · rintro ⟨hi, htop⟩
    obtain ⟨hids, is, his⟩ := (hnext i).mp hi
    refine ⟨hids, ?_⟩
    intro k hk
    cases hstakes : stakes k with
    | nil => exact nil_le _
    | cons b ks =>
        have hba : b ≤ a := hmax k hk b (by rw [hstakes]; rfl)
        rw [his, cons_le_cons_iff]
        rcases lt_or_eq_of_le hba with hlt | heq
        · exact Or.inl hlt
        · have hle := htop k ((hnext k).mpr ⟨hk, ks, heq ▸ hstakes⟩)
          have hle' : (stakes k).tail ≤ (stakes i).tail := hle
          rw [hstakes, his] at hle'
          exact Or.inr ⟨heq, hle'⟩

/-- **One rung of a ladder cut short**: the same holds of the first stakes. -/
theorem tops_take_iff_next {ids next : List ι} {stakes : ι → List α}
    (hlead : ∀ i, i ∈ next ↔ LeadsNext ids stakes i)
    (hne : ∃ i, i ∈ next) (n : Nat) (i : ι) :
    Tops ids (fun k => (stakes k).take (n + 1)) i
      ↔ Tops next (fun k => (stakes k).tail.take n) i := by
  have hhead : ∀ k, ((stakes k).take (n + 1)).head? = (stakes k).head? := by
    intro k
    cases stakes k <;> rfl
  have hlead' : ∀ k, k ∈ next
      ↔ LeadsNext ids (fun k => (stakes k).take (n + 1)) k := by
    intro k
    rw [hlead k]
    simp only [LeadsNext, hhead]
  rw [tops_iff_next hlead' hne i]
  refine tops_congr (fun k _ => ?_) i
  cases stakes k with
  | nil => exact List.take_nil.symm
  | cons a rest => rfl

end Ladders
