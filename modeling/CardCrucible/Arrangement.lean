import Mathlib.Data.List.Perm.Basic
import Mathlib.Logic.Equiv.Basic

/-! # Arrangements — reorderings chosen by the environment

    A language may leave the order of an enumeration open, and a shuffle
    leaves it to chance.  An `Arrangement` is one such choice: a function that
    puts any list into some order and can neither lose nor repeat an element.

    Cards, messages or log lines collected in such an order come out in an
    order of their own, unless the parts commute: a `Commuting` batch comes to
    the same list in every order. -/

namespace Arrangements

/-- A reordering of every list. -/
structure Arrangement (α : Type) where
  arrange : List α → List α
  perm : ∀ l, (arrange l).Perm l

namespace Arrangement

variable {α β : Type}

/-- The arrangement that leaves every list as it is. -/
def keep : Arrangement α where
  arrange := id
  perm := fun l => List.Perm.refl l

/-- The arrangement that turns every list round. -/
def backwards : Arrangement α where
  arrange := List.reverse
  perm := List.reverse_perm

instance : Inhabited (Arrangement α) := ⟨keep⟩

/-- The arrangement that only rearranges one list. -/
def only [DecidableEq α] (l l' : List α) (h : l'.Perm l) : Arrangement α where
  arrange := fun k => if k = l then l' else k
  perm := by
    intro k
    by_cases hk : k = l
    · rw [if_pos hk, hk]
      exact h
    · rw [if_neg hk]

@[simp] theorem mem_arrange (o : Arrangement α) (l : List α) (a : α) :
    a ∈ o.arrange l ↔ a ∈ l := (o.perm l).mem_iff

@[simp] theorem length_arrange (o : Arrangement α) (l : List α) :
    (o.arrange l).length = l.length := (o.perm l).length_eq

@[simp] theorem arrange_eq_nil (o : Arrangement α) (l : List α) :
    o.arrange l = [] ↔ l = [] := by
  rw [← List.length_eq_zero_iff, length_arrange, List.length_eq_zero_iff]

/-- An arrangement keeps the keys of a list of entries distinct. -/
theorem nodup_map_arrange (o : Arrangement α) (f : α → β) {l : List α}
    (h : (l.map f).Nodup) : ((o.arrange l).map f).Nodup :=
  (((o.perm l).map f).nodup_iff).mpr h

/-- The order does not depend on the values of the entries. -/
def KeyDriven {κ ν : Type} (o : Arrangement (κ × ν)) : Prop :=
  ∀ (f : ν → ν) (l : List (κ × ν)),
    o.arrange (l.map (fun e => (e.1, f e.2)))
      = (o.arrange l).map (fun e => (e.1, f e.2))

theorem keyDriven_keep {κ ν : Type} :
    (keep : Arrangement (κ × ν)).KeyDriven := fun _ _ => rfl

/-- The same arrangement of other names for the elements. -/
def conj (e : α ≃ β) (o : Arrangement α) : Arrangement β where
  arrange := fun l => (o.arrange (l.map e.symm)).map e
  perm := by
    intro l
    have hperm := (o.perm (l.map e.symm)).map e
    rw [List.map_map, Equiv.self_comp_symm, List.map_id] at hperm
    exact hperm

theorem conj_map (e : α ≃ β) (o : Arrangement α) (l : List α) :
    (o.conj e).arrange (l.map e) = (o.arrange l).map e := by
  show (o.arrange ((l.map e).map e.symm)).map e = _
  rw [List.map_map, Equiv.symm_comp_self, List.map_id]

end Arrangement

/-! ## Batches -/

variable {ι α : Type}

/-- Any two parts of a batch can be exchanged. -/
def Commuting (f : ι → List α) (l : List ι) : Prop :=
  ∀ a ∈ l, ∀ b ∈ l, f a ++ f b = f b ++ f a

theorem Commuting.of_subset {f : ι → List α} {l l' : List ι}
    (h : Commuting f l) (hsub : ∀ a ∈ l', a ∈ l) : Commuting f l' :=
  fun a ha b hb => h a (hsub a ha) b (hsub b hb)

/-- **A commuting batch** comes to the same list in every order. -/
theorem Commuting.flatMap_eq {f : ι → List α} {l l' : List ι}
    (h : Commuting f l) (hperm : l.Perm l') : l'.flatMap f = l.flatMap f := by
  induction hperm with
  | nil => rfl
  | @cons a l l' _ ih =>
      rw [List.flatMap_cons, List.flatMap_cons,
        ih (h.of_subset (fun _ hb => List.mem_cons_of_mem _ hb))]
  | swap a b l =>
      have hba := h b List.mem_cons_self a
        (List.mem_cons_of_mem _ List.mem_cons_self)
      simp only [List.flatMap_cons]
      rw [← List.append_assoc, ← List.append_assoc, hba]
  | @trans l l' l'' hperm _ ih ih' =>
      rw [ih' (h.of_subset (fun _ ha => hperm.mem_iff.mpr ha)), ih h]

/-- **A batch commutes exactly when its order does not show.** -/
theorem commuting_iff {f : ι → List α} {l : List ι} :
    Commuting f l ↔
      ∀ l₁ l₂ : List ι, l₁.Perm l → l₂.Perm l →
        l₁.flatMap f = l₂.flatMap f := by
  constructor
  · intro h l₁ l₂ hp₁ hp₂
    rw [h.flatMap_eq hp₁.symm, h.flatMap_eq hp₂.symm]
  · intro h a ha b hb
    by_cases hab : a = b
    · rw [hab]
    · -- list the two first, in either order
      obtain ⟨pre, post, hl⟩ := List.append_of_mem ha
      have hfirst : l.Perm (a :: (pre ++ post)) := by
        rw [hl]
        exact List.perm_middle
      have hb' : b ∈ pre ++ post := by
        have hmem := hfirst.mem_iff.mp hb
        rw [List.mem_cons] at hmem
        exact hmem.resolve_left (fun hba => hab hba.symm)
      obtain ⟨pre', post', hl'⟩ := List.append_of_mem hb'
      have hboth : l.Perm (a :: b :: (pre' ++ post')) := by
        refine hfirst.trans (List.Perm.cons a ?_)
        rw [hl']
        exact List.perm_middle
      have heq := h (a :: b :: (pre' ++ post')) (b :: a :: (pre' ++ post'))
        hboth.symm ((List.Perm.swap a b _).trans hboth.symm)
      simp only [List.flatMap_cons] at heq
      rw [← List.append_assoc, ← List.append_assoc] at heq
      exact List.append_cancel_right heq

/-- Whatever adds nothing to a batch can be left out. -/
theorem flatMap_filter_of_nil {f : ι → List α} {p : ι → Bool}
    (h : ∀ a, p a = false → f a = []) (l : List ι) :
    (l.filter p).flatMap f = l.flatMap f := by
  induction l with
  | nil => rfl
  | cons a l ih =>
      cases hp : p a with
      | true =>
          rw [List.filter_cons_of_pos hp, List.flatMap_cons,
            List.flatMap_cons, ih]
      | false =>
          have hnot : ¬ p a = true := by
            rw [hp]
            exact Bool.false_ne_true
          rw [List.filter_cons_of_neg hnot, List.flatMap_cons, h a hp, ih]
          rfl

end Arrangements
