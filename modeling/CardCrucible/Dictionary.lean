import Mathlib.Algebra.BigOperators.Group.Finset.Basic
import Mathlib.Algebra.Order.BigOperators.Group.Finset
import Mathlib.Data.List.Nodup

/-! # Dictionaries — finite maps with distinct keys

    A dictionary is a list of entries whose keys are distinct; the distinctness
    is a field, so no operation has to re-establish it for its callers.  The
    list order is a representation only: a program that iterates over a
    dictionary does so through an arrangement of the entries.

    The update of interest is `mapValues`, which rewrites the values in place.
    Point updates at present keys are instances of it, so a loop that visits
    the keys one after the other has a single `mapValues` as its closed form. -/

namespace Dictionaries

/-- A finite map from `K` to `V`. -/
structure Dictionary (K V : Type) where
  entries : List (K × V)
  nodupKeys : (entries.map Prod.fst).Nodup
  deriving DecidableEq

namespace Dictionary

variable {K V W : Type}

/-- The keys, in representation order. -/
def keys (d : Dictionary K V) : List K := d.entries.map Prod.fst

/-- The number of entries. -/
def count (d : Dictionary K V) : Nat := d.entries.length

def isEmpty (d : Dictionary K V) : Bool := d.entries.isEmpty

/-- The dictionary without entries. -/
def empty : Dictionary K V := ⟨[], List.nodup_nil⟩

@[ext] theorem ext {d e : Dictionary K V} (h : d.entries = e.entries) :
    d = e := by
  cases d
  cases e
  cases h
  rfl

theorem nodup_keys (d : Dictionary K V) : d.keys.Nodup := d.nodupKeys

@[simp] theorem keys_empty : (empty : Dictionary K V).keys = [] := rfl

theorem isEmpty_iff {d : Dictionary K V} : d.isEmpty = true ↔ d.keys = [] := by
  simp only [isEmpty, keys]
  rw [List.isEmpty_iff, List.map_eq_nil_iff]

@[simp] theorem length_keys (d : Dictionary K V) :
    d.keys.length = d.count := List.length_map ..

section Lookup

variable [DecidableEq K]

/-- The value of the first entry with a given key. -/
def findEntry (k : K) : List (K × V) → Option V
  | [] => none
  | (k', v) :: rest => if k' = k then some v else findEntry k rest

/-- Replace the entry with a given key, or append a new one. -/
def putEntry (k : K) (v : V) : List (K × V) → List (K × V)
  | [] => [(k, v)]
  | (k', v') :: rest =>
      if k' = k then (k, v) :: rest else (k', v') :: putEntry k v rest

/-- The value stored under a key. -/
def get? (d : Dictionary K V) (k : K) : Option V := findEntry k d.entries

/-- The value stored under a key, or a default. -/
def getD (d : Dictionary K V) (k : K) (v : V) : V := (d.get? k).getD v

theorem findEntry_eq_none {k : K} {l : List (K × V)} :
    findEntry k l = none ↔ k ∉ l.map Prod.fst := by
  induction l with
  | nil => simp [findEntry]
  | cons e rest ih =>
      obtain ⟨k', v'⟩ := e
      by_cases h : k' = k
      · simp [findEntry, h]
      · have h' : k ≠ k' := fun hk => h hk.symm
        simp only [findEntry, if_neg h, ih, List.map_cons, List.mem_cons,
          not_or]
        exact ⟨fun hn => ⟨h', hn⟩, fun hn => hn.2⟩

theorem findEntry_eq_some {k : K} {v : V} {l : List (K × V)}
    (hl : (l.map Prod.fst).Nodup) :
    findEntry k l = some v ↔ (k, v) ∈ l := by
  induction l with
  | nil => simp [findEntry]
  | cons e rest ih =>
      obtain ⟨k', v'⟩ := e
      rw [List.map_cons, List.nodup_cons] at hl
      by_cases h : k' = k
      · subst h
        simp only [findEntry, if_true, Option.some.injEq, List.mem_cons,
          Prod.mk.injEq, true_and]
        constructor
        · intro hv
          exact Or.inl hv.symm
        · rintro (hv | hm)
          · exact hv.symm
          · exact absurd (List.mem_map_of_mem (f := Prod.fst) hm) hl.1
      · have h' : ¬ k = k' := fun hk => h hk.symm
        simp only [findEntry, if_neg h, ih hl.2, List.mem_cons,
          Prod.mk.injEq, h', false_and, false_or]

/-- Putting a value keeps the keys, up to one new key at the end. -/
theorem map_fst_putEntry (k : K) (v : V) (l : List (K × V)) :
    (putEntry k v l).map Prod.fst
      = if k ∈ l.map Prod.fst then l.map Prod.fst
        else l.map Prod.fst ++ [k] := by
  induction l with
  | nil => simp [putEntry]
  | cons e rest ih =>
      obtain ⟨k', v'⟩ := e
      by_cases h : k' = k
      · simp [putEntry, h]
      · have h' : ¬ k = k' := fun hk => h hk.symm
        simp only [putEntry, if_neg h, List.map_cons, ih, List.mem_cons, h',
          false_or]
        by_cases hm : k ∈ rest.map Prod.fst
        · rw [if_pos hm, if_pos hm]
        · rw [if_neg hm, if_neg hm, List.cons_append]

/-- Store a value under a key. -/
def set (d : Dictionary K V) (k : K) (v : V) : Dictionary K V where
  entries := putEntry k v d.entries
  nodupKeys := by
    rw [map_fst_putEntry]
    by_cases h : k ∈ d.entries.map Prod.fst
    · rw [if_pos h]
      exact d.nodupKeys
    · rw [if_neg h]
      exact List.nodup_append.mpr ⟨d.nodupKeys, List.nodup_singleton k,
        fun a ha b hb hab => h (by
          rw [List.mem_singleton] at hb
          rw [← hb, ← hab]
          exact ha)⟩

theorem get?_eq_some {d : Dictionary K V} {k : K} {v : V} :
    d.get? k = some v ↔ (k, v) ∈ d.entries := findEntry_eq_some d.nodupKeys

theorem get?_eq_none {d : Dictionary K V} {k : K} :
    d.get? k = none ↔ k ∉ d.keys := findEntry_eq_none

/-- A key is present exactly when it has a value. -/
theorem mem_keys {d : Dictionary K V} {k : K} :
    k ∈ d.keys ↔ ∃ v, d.get? k = some v := by
  cases h : d.get? k with
  | none => simp [get?_eq_none.mp h]
  | some v =>
      have hk : k ∈ d.keys :=
        List.mem_map_of_mem (f := Prod.fst) (get?_eq_some.mp h)
      simp [hk]

/-- A new key is appended at the end of the entries. -/
theorem entries_set_of_notMem {d : Dictionary K V} {k : K} (v : V)
    (h : k ∉ d.keys) : (d.set k v).entries = d.entries ++ [(k, v)] := by
  have aux : ∀ l : List (K × V), k ∉ l.map Prod.fst →
      putEntry k v l = l ++ [(k, v)] := by
    intro l
    induction l with
    | nil => intro _; rfl
    | cons e rest ih =>
        intro hl
        obtain ⟨k', v'⟩ := e
        rw [List.map_cons, List.mem_cons, not_or] at hl
        have hne : ¬ k' = k := fun hk => hl.1 hk.symm
        simp only [putEntry, if_neg hne, List.cons_append, ih hl.2]
  exact aux d.entries h

@[simp] theorem get?_set_self (d : Dictionary K V) (k : K) (v : V) :
    (d.set k v).get? k = some v := by
  have aux : ∀ l : List (K × V), findEntry k (putEntry k v l) = some v := by
    intro l
    induction l with
    | nil => simp [putEntry, findEntry]
    | cons e rest ih =>
        obtain ⟨k', v'⟩ := e
        by_cases h : k' = k
        · simp [putEntry, findEntry, h]
        · simp only [putEntry, if_neg h, findEntry, ih]
  exact aux d.entries

theorem get?_set_of_ne (d : Dictionary K V) {k j : K} (v : V) (h : j ≠ k) :
    (d.set k v).get? j = d.get? j := by
  have hne : ¬ k = j := fun hk => h hk.symm
  have aux : ∀ l : List (K × V),
      findEntry j (putEntry k v l) = findEntry j l := by
    intro l
    induction l with
    | nil => simp only [putEntry, findEntry, if_neg hne]
    | cons e rest ih =>
        obtain ⟨k', v'⟩ := e
        by_cases hk : k' = k
        · subst hk
          simp only [putEntry, if_true, findEntry, if_neg hne]
        · by_cases hj : k' = j
          · simp only [putEntry, if_neg hk, findEntry, if_pos hj]
          · simp only [putEntry, if_neg hk, findEntry, if_neg hj, ih]
  exact aux d.entries

theorem mem_keys_set {d : Dictionary K V} {k j : K} {v : V} :
    j ∈ (d.set k v).keys ↔ j = k ∨ j ∈ d.keys := by
  show j ∈ (putEntry k v d.entries).map Prod.fst ↔ _
  rw [map_fst_putEntry]
  by_cases hk : k ∈ d.entries.map Prod.fst
  · rw [if_pos hk]
    constructor
    · exact Or.inr
    · rintro (hj | hj)
      · rw [hj]
        exact hk
      · exact hj
  · rw [if_neg hk, List.mem_append, List.mem_singleton]
    exact Or.comm

/-- A sum over the entries, after one of them is stored. -/
theorem sum_entries_set {M : Type} [AddCommMonoid M] (d : Dictionary K V)
    (k : K) (v : V) (f : V → M) :
    ((d.set k v).entries.map (fun e => f e.2)).sum
        + ((d.get? k).map f).getD 0
      = (d.entries.map (fun e => f e.2)).sum + f v := by
  have aux : ∀ l : List (K × V),
      ((putEntry k v l).map (fun e => f e.2)).sum
          + ((findEntry k l).map f).getD 0
        = (l.map (fun e => f e.2)).sum + f v := by
    intro l
    induction l with
    | nil => simp [putEntry, findEntry]
    | cons e rest ih =>
        obtain ⟨k', v'⟩ := e
        by_cases h : k' = k
        · simp only [putEntry, findEntry, if_pos h, List.map_cons,
            List.sum_cons, Option.map_some, Option.getD_some]
          rw [add_comm (f v), add_assoc, add_comm (f v), ← add_assoc,
            add_comm _ (f v')]
        · simp only [putEntry, findEntry, if_neg h, List.map_cons,
            List.sum_cons, add_assoc, ih]
  exact aux d.entries

end Lookup

/-- Dictionaries with the same keys, in the same order, and the same values
    are equal. -/
theorem ext_get? [DecidableEq K] {d e : Dictionary K V}
    (hkeys : d.keys = e.keys) (h : ∀ k ∈ d.keys, d.get? k = e.get? k) :
    d = e := by
  have aux : ∀ l l' : List (K × V), (l.map Prod.fst).Nodup →
      l.map Prod.fst = l'.map Prod.fst →
      (∀ k ∈ l.map Prod.fst, findEntry k l = findEntry k l') → l = l' := by
    intro l
    induction l with
    | nil =>
        intro l' _ hfst _
        exact (List.map_eq_nil_iff.mp hfst.symm).symm
    | cons p rest ih =>
        intro l' hnd hfst hfind
        obtain ⟨k, v⟩ := p
        cases l' with
        | nil => simp at hfst
        | cons p' rest' =>
            obtain ⟨k', v'⟩ := p'
            obtain ⟨hk, hrest⟩ := List.cons.inj hfst
            have hk' : k = k' := hk
            subst hk'
            rw [List.map_cons, List.nodup_cons] at hnd
            have hv := hfind k List.mem_cons_self
            simp only [findEntry, if_true, Option.some.injEq] at hv
            rw [hv, ih rest' hnd.2 hrest]
            intro j hj
            have hne : ¬ k = j := fun hkj => hnd.1 (hkj ▸ hj)
            have hval := hfind j (List.mem_cons_of_mem _ hj)
            simp only [findEntry, if_neg hne] at hval
            exact hval
  exact Dictionary.ext (aux d.entries e.entries d.nodupKeys hkeys h)

/-! ## Rewriting the values in place -/

/-- Rewrite every value; the keys stay as they are. -/
def mapValues (d : Dictionary K V) (f : K → V → W) : Dictionary K W where
  entries := d.entries.map (fun e => (e.1, f e.1 e.2))
  nodupKeys := by
    rw [List.map_map]
    exact d.nodupKeys

@[simp] theorem keys_mapValues (d : Dictionary K V) (f : K → V → W) :
    (d.mapValues f).keys = d.keys := by
  show List.map Prod.fst (List.map _ d.entries) = _
  rw [List.map_map]
  rfl

/-- Two rewritings in a row are one. -/
theorem mapValues_mapValues {U : Type} (d : Dictionary K V) (f : K → V → W)
    (g : K → W → U) :
    (d.mapValues f).mapValues g = d.mapValues (fun k v => g k (f k v)) := by
  ext1
  exact List.map_map ..

/-- A rewriting only depends on what it does to the entries present. -/
theorem mapValues_congr {d : Dictionary K V} {f g : K → V → W}
    (h : ∀ e ∈ d.entries, f e.1 e.2 = g e.1 e.2) :
    d.mapValues f = d.mapValues g := by
  ext1
  exact List.map_congr_left (fun e he => by rw [h e he])

/-- Rewriting every value by itself changes nothing. -/
theorem mapValues_self {d : Dictionary K V} {f : K → V → V}
    (h : ∀ e ∈ d.entries, f e.1 e.2 = e.2) : d.mapValues f = d := by
  ext1
  show List.map _ d.entries = d.entries
  rw [List.map_congr_left (g := id) (fun e he => by rw [h e he]; rfl),
    List.map_id]

section

variable [DecidableEq K]

@[simp] theorem get?_mapValues (d : Dictionary K V) (f : K → V → W) (k : K) :
    (d.mapValues f).get? k = (d.get? k).map (f k) := by
  have aux : ∀ l : List (K × V),
      findEntry k (l.map (fun e => (e.1, f e.1 e.2)))
        = (findEntry k l).map (f k) := by
    intro l
    induction l with
    | nil => rfl
    | cons e rest ih =>
        obtain ⟨k', v'⟩ := e
        by_cases h : k' = k
        · subst h
          simp [findEntry]
        · simp only [List.map_cons, findEntry, if_neg h, ih]
  exact aux d.entries

/-- Rewriting after storing is storing the rewritten value. -/
theorem mapValues_set (d : Dictionary K V) (f : V → W) (k : K) (v : V) :
    (d.set k v).mapValues (fun _ => f)
      = (d.mapValues (fun _ => f)).set k (f v) := by
  have aux : ∀ l : List (K × V),
      (putEntry k v l).map (fun e => (e.1, f e.2))
        = putEntry k (f v) (l.map (fun e => (e.1, f e.2))) := by
    intro l
    induction l with
    | nil => rfl
    | cons e rest ih =>
        obtain ⟨k', v'⟩ := e
        by_cases h : k' = k
        · simp only [putEntry, List.map_cons, if_pos h]
        · simp only [putEntry, List.map_cons, if_neg h, ih]
  ext1
  exact aux d.entries

/-- Storing under a present key is a rewriting in place. -/
theorem set_eq_mapValues {d : Dictionary K V} {k : K} {v : V} (g : V → V)
    (h : d.get? k = some v) :
    d.set k (g v) = d.mapValues (fun k' v' => if k' = k then g v' else v') := by
  have aux : ∀ l : List (K × V), (l.map Prod.fst).Nodup →
      findEntry k l = some v →
      putEntry k (g v) l
        = l.map (fun e => (e.1, if e.1 = k then g e.2 else e.2)) := by
    intro l
    induction l with
    | nil => intro _ hf; cases hf
    | cons e rest ih =>
        intro hl hf
        obtain ⟨k', v'⟩ := e
        rw [List.map_cons, List.nodup_cons] at hl
        by_cases hk : k' = k
        · subst hk
          simp only [findEntry, if_true, Option.some.injEq] at hf
          subst hf
          have hrest : rest.map
              (fun e => (e.1, if e.1 = k' then g e.2 else e.2)) = rest := by
            rw [List.map_congr_left (g := id) ?_, List.map_id]
            intro e he
            have hne : e.1 ≠ k' := by
              intro h'
              have hmem := List.mem_map_of_mem (f := Prod.fst) he
              rw [h'] at hmem
              exact hl.1 hmem
            simp [hne]
          simp only [putEntry, if_true, List.map_cons, hrest]
        · simp only [findEntry, if_neg hk] at hf
          simp only [putEntry, if_neg hk, List.map_cons, ih hl.2 hf]
  ext1
  exact aux d.entries d.nodupKeys h

/-- A sum over the entries is a sum over the keys of what they look up. -/
theorem sum_entries {M : Type} [AddCommMonoid M] (d : Dictionary K V)
    (f : K → V → M) (g : K → M)
    (hg : ∀ k v, d.get? k = some v → g k = f k v) :
    (d.entries.map (fun e => f e.1 e.2)).sum = ∑ k ∈ d.keys.toFinset, g k := by
  rw [List.sum_toFinset g d.nodup_keys]
  show _ = ((d.entries.map Prod.fst).map g).sum
  rw [List.map_map]
  refine congrArg List.sum (List.map_congr_left ?_)
  intro e he
  exact (hg e.1 e.2 (get?_eq_some.mpr he)).symm

end

/-! ## Renaming the keys -/

section

variable {L : Type} [DecidableEq K] [DecidableEq L]

/-- Rename the keys and rewrite the values. -/
def rename (d : Dictionary K V) (π : K ≃ L) (f : V → W) : Dictionary L W where
  entries := d.entries.map (fun e => (π e.1, f e.2))
  nodupKeys := by
    have hkeys : (d.entries.map (fun e => (π e.1, f e.2))).map Prod.fst
        = (d.entries.map Prod.fst).map π := by
      rw [List.map_map, List.map_map]
      rfl
    rw [hkeys]
    exact d.nodupKeys.map π.injective

theorem get?_rename (d : Dictionary K V) (π : K ≃ L) (f : V → W) (k : K) :
    (d.rename π f).get? (π k) = (d.get? k).map f := by
  cases h : d.get? k with
  | some v =>
      have hmem := get?_eq_some.mp h
      exact get?_eq_some.mpr
        (List.mem_map_of_mem (f := fun e => (π e.1, f e.2)) hmem)
  | none =>
      refine get?_eq_none.mpr ?_
      intro hmem
      obtain ⟨e', he', heq'⟩ := List.mem_map.mp hmem
      obtain ⟨e, he, heq⟩ := List.mem_map.mp he'
      rw [← heq] at heq'
      have hk : e.1 = k := π.injective heq'
      have hin : k ∈ d.keys := hk ▸ List.mem_map_of_mem (f := Prod.fst) he
      exact get?_eq_none.mp h hin

/-- Renaming after storing is storing under the new name. -/
theorem rename_set (d : Dictionary K V) (π : K ≃ L) (f : V → W) (k : K)
    (v : V) : (d.set k v).rename π f = (d.rename π f).set (π k) (f v) := by
  have aux : ∀ l : List (K × V),
      (putEntry k v l).map (fun e => (π e.1, f e.2))
        = putEntry (π k) (f v) (l.map (fun e => (π e.1, f e.2))) := by
    intro l
    induction l with
    | nil => rfl
    | cons e rest ih =>
        obtain ⟨k', v'⟩ := e
        by_cases h : k' = k
        · simp only [putEntry, List.map_cons, if_pos h, if_pos (congrArg π h)]
        · have h' : ¬ π k' = π k := fun heq => h (π.injective heq)
          simp only [putEntry, List.map_cons, if_neg h, if_neg h', ih]
  ext1
  exact aux d.entries

end

end Dictionary

end Dictionaries
