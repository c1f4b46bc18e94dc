import Mathlib.Data.List.Basic
import Mathlib.Logic.Function.Basic

/-! # Codes — texts that can be read back

    A prefix code gives every value a word such that no word begins another.
    Words written one after the other can then be read back, whatever follows
    the last of them.  A word with a closing mark that occurs nowhere else in
    it makes a prefix code. -/

namespace Codes

variable {α σ : Type}

/-- No code word is empty or begins another. -/
structure PrefixCode (code : α → List σ) : Prop where
  nonempty : ∀ a, code a ≠ []
  cancel : ∀ {a b : α} {s t : List σ}, code a ++ s = code b ++ t → a = b

/-- **Words in a row can be read back.** -/
theorem PrefixCode.flatMap_injective {code : α → List σ}
    (h : PrefixCode code) :
    Function.Injective (fun l : List α => l.flatMap code) := by
  intro l
  induction l with
  | nil =>
      intro m heq
      cases m with
      | nil => rfl
      | cons b m =>
          have hnil : [] = code b ++ m.flatMap code := heq
          exact absurd (List.append_eq_nil_iff.mp hnil.symm).1 (h.nonempty b)
  | cons a l ih =>
      intro m heq
      cases m with
      | nil =>
          have hnil : code a ++ l.flatMap code = [] := heq
          exact absurd (List.append_eq_nil_iff.mp hnil).1 (h.nonempty a)
      | cons b m =>
          have hcons : code a ++ l.flatMap code = code b ++ m.flatMap code :=
            heq
          have hab := h.cancel hcons
          rw [hab] at hcons ⊢
          rw [ih (List.append_cancel_left hcons)]

/-- Two words that are closed by a mark neither has in it. -/
theorem eq_of_closed {mark : σ} :
    ∀ {v w s t : List σ}, mark ∉ v → mark ∉ w →
      v ++ mark :: s = w ++ mark :: t → v = w := by
  intro v
  induction v with
  | nil =>
      intro w s t _ hw heq
      cases w with
      | nil => rfl
      | cons c w =>
          obtain ⟨hc, -⟩ := List.cons.inj heq
          exact absurd (hc ▸ List.mem_cons_self) hw
  | cons c v ih =>
      intro w s t hv hw heq
      cases w with
      | nil =>
          obtain ⟨hc, -⟩ := List.cons.inj heq
          exact absurd (hc ▸ List.mem_cons_self) hv
      | cons d w =>
          obtain ⟨hc, hrest⟩ := List.cons.inj heq
          rw [hc, ih (fun h => hv (List.mem_cons_of_mem _ h))
            (fun h => hw (List.mem_cons_of_mem _ h)) hrest]

/-- **Closed words are a prefix code.** -/
theorem prefixCode_closed {word : α → List σ} {mark : σ} (rest : List σ)
    (hword : Function.Injective word) (hmark : ∀ a, mark ∉ word a) :
    PrefixCode (fun a => word a ++ mark :: rest) where
  nonempty := fun a => List.append_ne_nil_of_right_ne_nil _ (by simp)
  cancel := by
    intro a b s t heq
    have heq' : word a ++ mark :: (rest ++ s)
        = word b ++ mark :: (rest ++ t) := by
      rw [List.append_assoc, List.append_assoc] at heq
      exact heq
    exact hword (eq_of_closed (hmark a) (hmark b) heq')

end Codes
