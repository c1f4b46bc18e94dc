/-! # Outcomes — partial computations with traps and fuel

    A program that may trap (a failed precondition, a force unwrap of nothing,
    an index out of range) and may run forever is modelled as a total function
    into `Outcome`: it is `done` with a value, it has hit a `trap`, or the fuel
    its unbounded loops were given did not suffice.

    `Safe` says that a computation does not trap.  `Refines` orders outcomes by
    fuel: a computation that ran out may still become anything, every other
    outcome is final.  A loop whose body is monotone in that order keeps its
    result when it is given more fuel.  `Rel` relates two computations that
    end in the same way. -/

namespace Outcomes

/-- What running a piece of program comes to. -/
inductive Outcome (α : Type) where
  | done (a : α)
  | trap (reason : String)
  | outOfFuel
  deriving Repr, DecidableEq

namespace Outcome

variable {α β : Type}

/-- Sequencing: a trap or an exhausted fuel ends the whole computation. -/
def bind : Outcome α → (α → Outcome β) → Outcome β
  | .done a, f => f a
  | .trap r, _ => .trap r
  | .outOfFuel, _ => .outOfFuel

instance : Monad Outcome where
  pure := Outcome.done
  bind := Outcome.bind

@[simp] theorem pure_eq (a : α) : (pure a : Outcome α) = .done a := rfl

@[simp] theorem done_bind (a : α) (f : α → Outcome β) :
    (Outcome.done a >>= f) = f a := rfl

@[simp] theorem trap_bind (r : String) (f : α → Outcome β) :
    ((Outcome.trap r : Outcome α) >>= f) = .trap r := rfl

@[simp] theorem outOfFuel_bind (f : α → Outcome β) :
    ((Outcome.outOfFuel : Outcome α) >>= f) = .outOfFuel := rfl

/-- A sequence is done exactly when both of its parts are. -/
theorem bind_eq_done {x : Outcome α} {f : α → Outcome β} {b : β} :
    (x >>= f) = .done b ↔ ∃ a, x = .done a ∧ f a = .done b := by
  constructor
  · intro h
    cases x with
    | done a => exact ⟨a, rfl, h⟩
    | trap r => simp at h
    | outOfFuel => simp at h
  · rintro ⟨a, rfl, h⟩
    exact h

/-- Rewrite the result of a computation. -/
def map (g : α → β) : Outcome α → Outcome β
  | .done a => .done (g a)
  | .trap r => .trap r
  | .outOfFuel => .outOfFuel

@[simp] theorem map_done (g : α → β) (a : α) :
    (Outcome.done a).map g = .done (g a) := rfl

@[simp] theorem map_trap (g : α → β) (r : String) :
    (Outcome.trap r : Outcome α).map g = .trap r := rfl

@[simp] theorem map_outOfFuel (g : α → β) :
    (Outcome.outOfFuel : Outcome α).map g = .outOfFuel := rfl

/-- Rewriting goes through a sequence part by part. -/
theorem map_bind {γ δ : Type} {x : Outcome α} {f : α → Outcome β} {g : α → γ}
    {h : β → δ} {f' : γ → Outcome δ}
    (hf : ∀ a, x = .done a → f' (g a) = (f a).map h) :
    (x.map g >>= f') = (x >>= f).map h := by
  cases x with
  | done a => exact hf a rfl
  | trap r => rfl
  | outOfFuel => rfl

/-- A computation that does not trap: it has a result or lacks fuel. -/
def Safe (x : Outcome α) : Prop := ∀ reason, x ≠ .trap reason

theorem Safe.done (a : α) : Safe (.done a) := fun _ h => by cases h

theorem Safe.outOfFuel : Safe (.outOfFuel : Outcome α) := fun _ h => by cases h

/-- A sequence is safe when its first part is, and its second part is after
    every result of the first. -/
theorem Safe.bind {x : Outcome α} {f : α → Outcome β} (hx : Safe x)
    (hf : ∀ a, x = .done a → Safe (f a)) : Safe (x >>= f) := by
  cases x with
  | done a => exact hf a rfl
  | trap r => exact absurd rfl (hx r)
  | outOfFuel => exact Safe.outOfFuel

/-- Whether a computation has a result with a given property can be decided by
    running it. -/
instance (x : Outcome α) (P : α → Prop) [DecidablePred P] :
    Decidable (∃ a, x = .done a ∧ P a) :=
  match x with
  | .done a => decidable_of_iff (P a)
      ⟨fun h => ⟨a, rfl, h⟩, fun ⟨_, hb, h⟩ => Outcome.done.inj hb ▸ h⟩
  | .trap _ => isFalse (fun ⟨_, hb, _⟩ => nomatch hb)
  | .outOfFuel => isFalse (fun ⟨_, hb, _⟩ => nomatch hb)

/-- The same for a computation with an optional result. -/
instance (x : Outcome (Option α)) (P : α → Prop) [DecidablePred P] :
    Decidable (∃ a, x = .done (some a) ∧ P a) :=
  match x with
  | .done (some a) => decidable_of_iff (P a)
      ⟨fun h => ⟨a, rfl, h⟩,
        fun ⟨_, hb, h⟩ => Option.some.inj (Outcome.done.inj hb) ▸ h⟩
  | .done none => isFalse (fun ⟨_, hb, _⟩ => nomatch Outcome.done.inj hb)
  | .trap _ => isFalse (fun ⟨_, hb, _⟩ => nomatch hb)
  | .outOfFuel => isFalse (fun ⟨_, hb, _⟩ => nomatch hb)

/-- `y` is `x` unless `x` stopped for want of fuel. -/
def Refines (x y : Outcome α) : Prop := x = .outOfFuel ∨ x = y

theorem Refines.refl (x : Outcome α) : Refines x x := Or.inr rfl

theorem Refines.outOfFuel (y : Outcome α) : Refines .outOfFuel y := Or.inl rfl

/-- More fuel does not change a result. -/
theorem Refines.done {x y : Outcome α} (h : Refines x y) {a : α}
    (hx : x = .done a) : y = .done a := by
  rcases h with h | h
  · rw [h] at hx
    simp at hx
  · rw [← h]
    exact hx

/-- Sequencing is monotone in both of its parts. -/
theorem Refines.bind {x y : Outcome α} {f g : α → Outcome β}
    (h : Refines x y) (hf : ∀ a, Refines (f a) (g a)) :
    Refines (x >>= f) (y >>= g) := by
  rcases h with h | h
  · subst h
    exact Refines.outOfFuel _
  · subst h
    cases x with
    | done a => exact hf a
    | trap r => exact Refines.refl _
    | outOfFuel => exact Refines.refl _

theorem Refines.trans {x y z : Outcome α} (h : Refines x y)
    (h' : Refines y z) : Refines x z := by
  rcases h with h | h
  · exact Or.inl h
  · rw [h]
    exact h'

/-- A computation given by fuel whose every extra unit refines it is refined
    by any amount more. -/
theorem refines_of_le {run : Nat → Outcome α}
    (hstep : ∀ n, Refines (run n) (run (n + 1))) {n m : Nat} (hnm : n ≤ m) :
    Refines (run n) (run m) := by
  induction hnm with
  | refl => exact Refines.refl _
  | step _ ih => exact ih.trans (hstep _)

/-- Two computations that end in the same way, with results related by `R`. -/
inductive Rel (R : α → β → Prop) : Outcome α → Outcome β → Prop where
  | done {a : α} {b : β} (h : R a b) : Rel R (.done a) (.done b)
  | trap (r : String) : Rel R (.trap r) (.trap r)
  | outOfFuel : Rel R .outOfFuel .outOfFuel

/-- Related first parts and, after related results, related second parts make
    related sequences. -/
theorem Rel.bind {γ δ : Type} {R : α → β → Prop} {S : γ → δ → Prop}
    {x : Outcome α} {y : Outcome β} {f : α → Outcome γ} {g : β → Outcome δ}
    (h : Rel R x y)
    (hf : ∀ a b, x = .done a → y = .done b → R a b → Rel S (f a) (g b)) :
    Rel S (x >>= f) (y >>= g) := by
  cases h with
  | done hab => exact hf _ _ rfl rfl hab
  | trap r => exact .trap r
  | outOfFuel => exact .outOfFuel

theorem Rel.mono {R S : α → β → Prop} {x : Outcome α} {y : Outcome β}
    (h : Rel R x y) (hRS : ∀ a b, R a b → S a b) : Rel S x y := by
  cases h with
  | done hab => exact .done (hRS _ _ hab)
  | trap r => exact .trap r
  | outOfFuel => exact .outOfFuel

/-- The one has a result when the other has. -/
theorem Rel.of_done {R : α → β → Prop} {x : Outcome α} {y : Outcome β}
    (h : Rel R x y) {a : α} (hx : x = .done a) : ∃ b, y = .done b ∧ R a b := by
  cases h with
  | @done a' b hab =>
      rw [← Outcome.done.inj hx]
      exact ⟨b, rfl, hab⟩
  | trap r => simp at hx
  | outOfFuel => simp at hx

theorem Rel.symm {R : α → β → Prop} {x : Outcome α} {y : Outcome β}
    (h : Rel R x y) : Rel (fun b a => R a b) y x := by
  cases h with
  | done hab => exact .done hab
  | trap r => exact .trap r
  | outOfFuel => exact .outOfFuel

/-- Computations that agree once their results are rewritten end in the same
    way. -/
theorem Rel.of_map_eq {γ : Type} {f : α → γ} {g : β → γ} {x : Outcome α}
    {y : Outcome β} (h : x.map f = y.map g) :
    Rel (fun a b => f a = g b) x y := by
  cases x with
  | done a =>
      cases y with
      | done b => exact .done (Outcome.done.inj h)
      | trap r => cases h
      | outOfFuel => cases h
  | trap r =>
      cases y with
      | done b => cases h
      | trap r' =>
          rw [Outcome.trap.inj h]
          exact .trap r'
      | outOfFuel => cases h
  | outOfFuel =>
      cases y with
      | done b => cases h
      | trap r => cases h
      | outOfFuel => exact .outOfFuel

/-- A computation given by fuel whose every extra unit refines it keeps a
    result it once has. -/
theorem done_of_le {run : Nat → Outcome α}
    (hstep : ∀ n, Refines (run n) (run (n + 1))) {n m : Nat} (hnm : n ≤ m)
    {a : α} (hn : run n = .done a) : run m = .done a := by
  induction hnm with
  | refl => exact hn
  | step _ ih => exact (hstep _).done ih

/-- Two amounts of fuel that both suffice give the same result. -/
theorem done_unique {run : Nat → Outcome α}
    (hstep : ∀ n, Refines (run n) (run (n + 1))) {n m : Nat} {a b : α}
    (hn : run n = .done a) (hm : run m = .done b) : a = b := by
  rcases Nat.le_total n m with h | h
  · have := done_of_le hstep h hn
    rw [this] at hm
    exact Outcome.done.inj hm
  · have := done_of_le hstep h hm
    rw [this] at hn
    exact (Outcome.done.inj hn).symm

end Outcome

end Outcomes
