import Mathlib.Data.List.Perm.Subperm

/-! # Picking — taking elements out of a list, one at a time

    A pick takes out the first occurrence of an element.  `Picks` is what any
    number of picks can come to: the elements in the order in which they were
    picked, and what is left.  The elements picked are a sub-multiset of the
    list, in some order, and every such list can be picked. -/

namespace Picking

variable {α : Type} [DecidableEq α]

/-- From `l` the elements `picked` are picked one by one, leaving `rest`. -/
inductive Picks : List α → List α → List α → Prop
  | nil (l : List α) : Picks l [] l
  | cons {l picked rest : List α} {a : α} (hmem : a ∈ l)
      (h : Picks (l.erase a) picked rest) : Picks l (a :: picked) rest

namespace Picks

variable {l picked rest : List α}

/-- Nothing is lost and nothing is added. -/
theorem perm (h : Picks l picked rest) : (picked ++ rest).Perm l := by
  induction h with
  | nil l => exact List.Perm.refl l
  | cons hmem _ ih => exact (ih.cons _).trans (List.perm_cons_erase hmem).symm

theorem length (h : Picks l picked rest) :
    picked.length + rest.length = l.length := by
  rw [← List.length_append]
  exact h.perm.length_eq

/-- What is left keeps its order. -/
theorem sublist (h : Picks l picked rest) : rest.Sublist l := by
  induction h with
  | nil l => exact List.Sublist.refl l
  | cons _ _ ih => exact ih.trans List.erase_sublist

/-- Picking everything leaves nothing. -/
theorem rest_eq_nil (h : Picks l picked rest)
    (hlen : l.length ≤ picked.length) : rest = [] := by
  have := h.length
  exact List.length_eq_zero_iff.mp (by omega)

/-- What is picked is a sub-multiset. -/
theorem subperm (h : Picks l picked rest) : picked.Subperm l :=
  (List.sublist_append_left picked rest).subperm.trans h.perm.subperm

end Picks

/-- **What can be picked**: every sub-multiset of a list, in every order. -/
theorem exists_picks_iff {l picked : List α} :
    (∃ rest, Picks l picked rest) ↔ picked.Subperm l := by
  constructor
  · rintro ⟨rest, h⟩
    exact h.subperm
  · induction picked generalizing l with
    | nil => exact fun _ => ⟨l, Picks.nil l⟩
    | cons a picked ih =>
        intro hsub
        have herase : picked.Subperm (l.erase a) := by
          have := hsub.erase a
          rw [List.erase_cons_head] at this
          exact this
        obtain ⟨rest, hrest⟩ := ih herase
        exact ⟨rest, Picks.cons (hsub.subset List.mem_cons_self) hrest⟩

end Picking
