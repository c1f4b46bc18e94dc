import CardCrucible.Outcome
import Mathlib.Algebra.Group.Basic

/-! # Runs — calls made one after the other

    A machine with partial steps: a call takes a state to an outcome.  The
    rules of this file carry a fact about every call over to every list of
    calls: a relation between the first state and the last, a balance between
    what the calls take in and what they give out, and the absence of traps.

    Calls may also reply.  Two states are `Alike` if no list of calls is
    answered differently from them; a coupling of the two runs, which may
    depend on the calls made so far, shows that they are. -/

namespace Runs

open Outcomes

variable {σ κ M : Type}

/-- Make a list of calls. -/
def runAll (step : κ → σ → Outcome σ) : List κ → σ → Outcome σ
  | [], s => .done s
  | c :: cs, s => step c s >>= runAll step cs

section Rules

variable {step : κ → σ → Outcome σ}

@[simp] theorem runAll_nil (s : σ) : runAll step [] s = .done s := rfl

@[simp] theorem runAll_cons (c : κ) (cs : List κ) (s : σ) :
    runAll step (c :: cs) s = (step c s >>= runAll step cs) := rfl

/-- **Relations.**  A preorder that relates the states around every call of a
    run relates its first state to its last. -/
theorem runAll_relates {P : σ → Prop} {R : σ → σ → Prop}
    (hkeep : ∀ c s s', P s → step c s = .done s' → P s')
    (hrefl : ∀ s, R s s) (htrans : ∀ {s t u}, R s t → R t u → R s u) :
    ∀ (cs : List κ), (∀ c ∈ cs, ∀ s s', P s → step c s = .done s' → R s s') →
      ∀ {s s' : σ}, P s → runAll step cs s = .done s' → R s s' := by
  intro cs
  induction cs with
  | nil =>
      intro _ s s' _ hrun
      rw [← Outcome.done.inj hrun]
      exact hrefl s
  | cons c cs ih =>
      intro hstep s s' h hrun
      obtain ⟨t, ht, hrest⟩ := Outcome.bind_eq_done.mp hrun
      refine htrans (hstep c List.mem_cons_self s t h ht) ?_
      exact ih (fun d hd => hstep d (List.mem_cons_of_mem _ hd))
        (hkeep c s t h ht) hrest

/-- What the calls of a run come to, added up over the states in which they
    are made. -/
def accrued [AddCommMonoid M] (step : κ → σ → Outcome σ) (f : κ → σ → M) :
    List κ → σ → M
  | [], _ => 0
  | c :: cs, s =>
      f c s + match step c s with
        | .done t => accrued step f cs t
        | .trap _ => 0
        | .outOfFuel => 0

theorem accrued_cons [AddCommMonoid M] {f : κ → σ → M} {c : κ} {cs : List κ}
    {s t : σ} (h : step c s = .done t) :
    accrued step f (c :: cs) s = f c s + accrued step f cs t := by
  simp only [accrued]
  rw [h]

/-- **Balances.**  If every call changes a total by what it takes in and gives
    out, so does every run. -/
theorem runAll_balance [AddCommMonoid M] {P : σ → Prop} {total : σ → M}
    {taken given : κ → σ → M}
    (hkeep : ∀ c s s', P s → step c s = .done s' → P s')
    (hstep : ∀ c s s', P s → step c s = .done s' →
      total s' + given c s = total s + taken c s) :
    ∀ (cs : List κ) {s s' : σ}, P s → runAll step cs s = .done s' →
      total s' + accrued step given cs s
        = total s + accrued step taken cs s := by
  intro cs
  induction cs with
  | nil =>
      intro s s' _ hrun
      rw [← Outcome.done.inj hrun]
      rfl
  | cons c cs ih =>
      intro s s' h hrun
      obtain ⟨t, ht, hrest⟩ := Outcome.bind_eq_done.mp hrun
      have hfirst := hstep c s t h ht
      have hlater := ih (hkeep c s t h ht) hrest
      rw [accrued_cons ht, accrued_cons ht]
      calc total s' + (given c s + accrued step given cs t)
          = given c s + (total s' + accrued step given cs t) :=
            add_left_comm _ _ _
        _ = given c s + (total t + accrued step taken cs t) := by rw [hlater]
        _ = (total t + given c s) + accrued step taken cs t := by
            rw [← add_assoc, add_comm (given c s)]
        _ = (total s + taken c s) + accrued step taken cs t := by rw [hfirst]
        _ = total s + (taken c s + accrued step taken cs t) :=
            add_assoc _ _ _

/-- **Traps.**  A run does not trap exactly when none of its calls does in the
    state in which it is made. -/
theorem safe_runAll_iff (cs : List κ) :
    ∀ s : σ, (runAll step cs s).Safe ↔
      ∀ pre c post, cs = pre ++ c :: post →
        ∀ t, runAll step pre s = .done t → (step c t).Safe := by
  induction cs with
  | nil =>
      intro s
      refine ⟨fun _ pre c post h => ?_, fun _ => Outcome.Safe.done s⟩
      cases pre <;> cases h
  | cons d cs ih =>
      intro s
      constructor
      · intro hsafe pre c post heq t ht
        cases pre with
        | nil =>
            obtain ⟨hdc, -⟩ := List.cons.inj heq
            rw [← Outcome.done.inj ht, ← hdc]
            intro reason htrap
            refine hsafe reason ?_
            simp only [runAll_cons, htrap, Outcome.trap_bind]
        | cons d' pre =>
            obtain ⟨hdd, hrest⟩ := List.cons.inj heq
            rw [← hdd] at ht
            obtain ⟨u, hu, hpre⟩ := Outcome.bind_eq_done.mp ht
            have hcs : (runAll step cs u).Safe := by
              simp only [runAll_cons, hu, Outcome.done_bind] at hsafe
              exact hsafe
            exact (ih u).mp hcs pre c post hrest t hpre
      · intro h
        refine (h [] d cs rfl s rfl).bind ?_
        intro u hu
        refine (ih u).mpr ?_
        intro pre c post heq t ht
        refine h (d :: pre) c post (by rw [heq]; rfl) t ?_
        simp only [runAll_cons, hu, Outcome.done_bind]
        exact ht

/-- **Morphisms.**  A machine that makes the translated calls on translated
    states makes the translated runs. -/
theorem runAll_map {σ' κ' : Type} {step' : κ' → σ' → Outcome σ'}
    {call : κ → κ'} {view : σ → σ'}
    (hstep : ∀ c s, step' (call c) (view s) = (step c s).map view)
    (cs : List κ) : ∀ s, runAll step' (cs.map call) (view s)
      = (runAll step cs s).map view := by
  induction cs with
  | nil => intro s; rfl
  | cons c cs ih =>
      intro s
      rw [List.map_cons, runAll_cons, runAll_cons, hstep]
      exact Outcome.map_bind (fun t _ => ih t)

/-- A machine with more fuel makes the same runs. -/
theorem runAll_refines {step' : κ → σ → Outcome σ}
    (hstep : ∀ c s, (step c s).Refines (step' c s)) (cs : List κ) :
    ∀ s, (runAll step cs s).Refines (runAll step' cs s) := by
  induction cs with
  | nil => intro s; exact Outcome.Refines.refl _
  | cons c cs ih => intro s; exact Outcome.Refines.bind (hstep c s) ih

end Rules

section Replies

variable {ω : Type}

/-- Make a list of calls and collect the replies. -/
def replies (step : κ → σ → Outcome (ω × σ)) :
    List κ → σ → Outcome (List ω × σ)
  | [], s => .done ([], s)
  | c :: cs, s => do
      let (r, s) ← step c s
      let (rs, s) ← replies step cs s
      return (r :: rs, s)

/-- No list of calls is answered differently. -/
def Alike (step : κ → σ → Outcome (ω × σ)) (s t : σ) : Prop :=
  ∀ cs, Outcome.Rel (fun p q => p.1 = q.1) (replies step cs s)
    (replies step cs t)

variable {step : κ → σ → Outcome (ω × σ)}

/-- **Couplings.**  If each call is answered alike from related states and
    relates the states it leaves, with the call added to those made before, so
    does every list of calls. -/
theorem replies_coupled {R : List κ → σ → σ → Prop}
    (hstep : ∀ made c s t, R made s t →
      Outcome.Rel (fun p q => p.1 = q.1 ∧ R (made ++ [c]) p.2 q.2)
        (step c s) (step c t)) :
    ∀ (cs made : List κ) {s t : σ}, R made s t →
      Outcome.Rel (fun p q => p.1 = q.1 ∧ R (made ++ cs) p.2 q.2)
        (replies step cs s) (replies step cs t) := by
  intro cs
  induction cs with
  | nil =>
      intro made s t h
      refine .done ⟨rfl, ?_⟩
      rw [List.append_nil]
      exact h
  | cons c cs ih =>
      intro made s t h
      refine (hstep made c s t h).bind ?_
      rintro ⟨r, s'⟩ ⟨r', t'⟩ - - ⟨hreply, hleft⟩
      refine (ih (made ++ [c]) hleft).bind ?_
      rintro ⟨rs, u⟩ ⟨rs', v⟩ - - ⟨hreplies, hlast⟩
      have hr : r = r' := hreply
      have hrs : rs = rs' := hreplies
      refine .done ⟨?_, ?_⟩
      · rw [hr, hrs]
      · rw [List.append_assoc] at hlast
        exact hlast

end Replies

end Runs
