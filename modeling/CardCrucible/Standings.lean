import CardCrucible.RoundStrength

/-! # Standings — what a round reads of its players

    Of a player a round reads the hand and whether it is eliminated: its
    standing.  Two tables are `Alike` up to a renaming of the ids when the
    renamed players have the same standings.  Turns keep that and comparisons
    respect it, whatever order the ids are listed in: two lists correspond
    when one is a permutation of the other, renamed. -/

namespace Standings

open Outcomes Arrangements Dictionaries CardModel DeckModel PlayerModel
open WarModel WarModel.War WarState WarTurn Comparisons WarRuns Spending
open Dealing Rounds GameStatus RoundLaws

variable {Id Id' : Type}

/-! ## Lists that correspond -/

/-- `ids'` lists the renamed players of `ids`, in some order. -/
def Renamed (π : Id ≃ Id') (ids : List Id) (ids' : List Id') : Prop :=
  ids'.Perm (ids.map π)

namespace Renamed

variable {π : Id ≃ Id'} {ids : List Id} {ids' : List Id'}

theorem mem_iff (h : Renamed π ids ids') (id : Id) :
    π id ∈ ids' ↔ id ∈ ids := by
  rw [List.Perm.mem_iff h, List.mem_map]
  constructor
  · rintro ⟨k, hk, heq⟩
    rw [← π.injective heq]
    exact hk
  · exact fun hid => ⟨id, hid, rfl⟩

theorem length_eq (h : Renamed π ids ids') : ids'.length = ids.length := by
  rw [List.Perm.length_eq h, List.length_map]

/-- Every renamed player is the renaming of one. -/
theorem forall_mem (h : Renamed π ids ids') {P : Id' → Prop}
    (hP : ∀ id ∈ ids, P (π id)) : ∀ id' ∈ ids', P id' := by
  intro id' hid'
  obtain ⟨id, hid, heq⟩ := List.mem_map.mp ((List.Perm.mem_iff h).mp hid')
  rw [← heq]
  exact hP id hid

/-- Two lists without duplicates correspond when their members do. -/
theorem of_mem_iff (hnd : ids.Nodup) (hnd' : ids'.Nodup)
    (h : ∀ id, π id ∈ ids' ↔ id ∈ ids) : Renamed π ids ids' := by
  refine (List.perm_ext_iff_of_nodup hnd' (hnd.map π.injective)).mpr ?_
  intro id'
  rw [List.mem_map]
  constructor
  · intro hid'
    refine ⟨π.symm id', (h _).mp ?_, π.apply_symm_apply id'⟩
    rw [π.apply_symm_apply]
    exact hid'
  · rintro ⟨id, hid, heq⟩
    rw [← heq]
    exact (h id).mpr hid

/-- What corresponding players bring comes to the same, in some order. -/
theorem flatMap_perm (h : Renamed π ids ids') {f : Id → List Card}
    {f' : Id' → List Card} (hf : ∀ id, f' (π id) = f id) :
    (ids'.flatMap f').Perm (ids.flatMap f) := by
  have hsame : (ids.map π).flatMap f' = ids.flatMap f := by
    rw [List.flatMap_map]
    exact congrArg (ids.flatMap ·) (funext hf)
  rw [← hsame]
  exact List.Perm.flatMap_right _ h

/-- And in the same order, if the parts commute. -/
theorem flatMap_eq (h : Renamed π ids ids') {f : Id → List Card}
    {f' : Id' → List Card} (hf : ∀ id, f' (π id) = f id)
    (hcomm : Commuting f ids) : ids'.flatMap f' = ids.flatMap f := by
  have hcomm' : Commuting f' (ids.map π) := by
    intro a ha b hb
    obtain ⟨i, hi, hai⟩ := List.mem_map.mp ha
    obtain ⟨j, hj, hbj⟩ := List.mem_map.mp hb
    rw [← hai, ← hbj, hf i, hf j]
    exact hcomm i hi j hj
  rw [hcomm'.flatMap_eq (List.Perm.symm h), List.flatMap_map]
  exact congrArg (ids.flatMap ·) (funext hf)

end Renamed

/-! ## Standings -/

variable [LinearOrder Id] [LinearOrder Id']

/-- The hand of a player and whether it is eliminated. -/
def standing (s : War Id) (id : Id) : Option (List Card × Bool) :=
  (s.tournamentPlayer? id).map (fun p => (p.cards, p.eliminated))

theorem hand_of_standing (s : War Id) (id : Id) :
    hand s id = ((standing s id).map Prod.fst).getD [] := by
  simp only [hand, standing]
  cases s.tournamentPlayer? id <;> rfl

theorem inGame_of_standing (s : War Id) (id : Id) :
    inGame s id = ((standing s id).map (fun x => !x.2)).getD false := by
  simp only [inGame, standing]
  cases s.tournamentPlayer? id <;> rfl

theorem isOut_of_standing (s : War Id) (id : Id) :
    isOut s id = ((standing s id).map Prod.snd).getD false := by
  simp only [isOut, standing]
  cases s.tournamentPlayer? id <;> rfl

theorem standing_updatePlayers
    {f : Id → TournamentPlayer Id → TournamentPlayer Id}
    {g : Id → List Card × Bool → List Card × Bool}
    (h : ∀ id p, ((f id p).cards, (f id p).eliminated)
      = g id (p.cards, p.eliminated)) (s : War Id) (id : Id) :
    standing (updatePlayers s f) id = (standing s id).map (g id) := by
  simp only [standing]
  rw [tournamentPlayer?_updatePlayers, Option.map_map, Option.map_map]
  cases s.tournamentPlayer? id with
  | none => rfl
  | some p => exact congrArg some (h id p)

/-- What a turn does to a standing. -/
def turnStanding (need : Nat) (x : List Card × Bool) : List Card × Bool :=
  (x.1.drop need, x.2 || decide (x.1.length < need))

theorem standing_turn (need : Nat) (ids : List Id) (s : War Id) (id : Id) :
    standing (turn need ids s) id
      = (standing s id).map
          (fun x => if id ∈ ids then turnStanding need x else x) := by
  refine standing_updatePlayers
    (g := fun id x => if id ∈ ids then turnStanding need x else x) ?_ s id
  intro k p
  by_cases hk : k ∈ ids
  · rw [if_pos hk, if_pos hk]
    rfl
  · rw [if_neg hk, if_neg hk]

theorem standing_payOut (w : Id) (cards : List Card) (s : War Id) (id : Id) :
    standing (payOut w cards s) id
      = (standing s id).map
          (fun x => if id = w then (x.1 ++ cards, x.2) else x) := by
  refine standing_updatePlayers
    (g := fun id x => if id = w then (x.1 ++ cards, x.2) else x) ?_ s id
  intro k p
  by_cases hk : k = w
  · rw [if_pos hk, if_pos hk]
    rfl
  · rw [if_neg hk, if_neg hk]

theorem standing_dealt {s s' : War Id} {share : Id → List Card}
    {rest : List Card} (h : Dealt s s' share rest) (id : Id) :
    standing s' id
      = (standing s id).map (fun x => (x.1 ++ share id, x.2)) := by
  rw [h.state]
  exact standing_updatePlayers
    (g := fun id x => (x.1 ++ share id, x.2)) (fun _ _ => rfl) s id

/-! ## Tables that are alike -/

/-- The renamed players of `s` have the same standings in `t`. -/
def Alike (π : Id ≃ Id') (s : War Id) (t : War Id') : Prop :=
  ∀ id, standing t (π id) = standing s id

namespace Alike

variable {π : Id ≃ Id'} {s : War Id} {t : War Id'}

theorem symm (h : Alike π s t) : Alike π.symm t s := by
  intro id'
  have h' := h (π.symm id')
  rw [π.apply_symm_apply] at h'
  exact h'.symm

theorem hand_eq (h : Alike π s t) (id : Id) :
    hand t (π id) = hand s id := by
  rw [hand_of_standing, hand_of_standing, h id]

theorem inGame_eq (h : Alike π s t) (id : Id) :
    inGame t (π id) = inGame s id := by
  rw [inGame_of_standing, inGame_of_standing, h id]

theorem isOut_eq (h : Alike π s t) (id : Id) :
    isOut t (π id) = isOut s id := by
  rw [isOut_of_standing, isOut_of_standing, h id]

theorem pile_eq (h : Alike π s t) (need : Nat) (id : Id) :
    pile t need (π id) = pile s need id := by
  simp only [pile]
  rw [h.hand_eq id]

theorem shows_eq (h : Alike π s t) (need : Nat) (id : Id) :
    shows t need (π id) = shows s need id := by
  simp only [shows]
  rw [h.hand_eq id]

/-- Turns of corresponding players keep tables alike. -/
theorem turn (h : Alike π s t) {ids : List Id} {ids' : List Id'}
    (hids : Renamed π ids ids') (need : Nat) :
    Alike π (turn need ids s) (turn need ids' t) := by
  intro id
  rw [standing_turn, standing_turn, h id]
  simp only [hids.mem_iff id]

theorem active (h : Alike π s t) : Renamed π (active s) (active t) := by
  refine Renamed.of_mem_iff (nodup_active s) (nodup_active t) ?_
  intro id
  rw [mem_active, mem_active, h.inGame_eq id]

section Lists

variable {ids : List Id} {ids' : List Id'}

theorem warSize_eq (h : Alike π s t) (hids : Renamed π ids ids') :
    warSize t ids' = warSize s ids := by
  have hiff : (∃ id' ∈ ids', cardsNeededForWar ≤ (hand t id').length)
      ↔ ∃ id ∈ ids, cardsNeededForWar ≤ (hand s id).length := by
    constructor
    · rintro ⟨id', hid', hle⟩
      refine ⟨π.symm id', (hids.mem_iff _).mp ?_, ?_⟩
      · rw [π.apply_symm_apply]
        exact hid'
      · rw [← h.hand_eq, π.apply_symm_apply]
        exact hle
    · rintro ⟨id, hid, hle⟩
      exact ⟨π id, (hids.mem_iff id).mpr hid, by rw [h.hand_eq]; exact hle⟩
  simp only [warSize, hiff]

/-- The same players lead a turn. -/
theorem leadsTurn_iff (h : Alike π s t) (hids : Renamed π ids ids')
    (need : Nat) (id : Id) :
    LeadsTurn t need ids' (π id) ↔ LeadsTurn s need ids id := by
  simp only [LeadsTurn]
  rw [hids.mem_iff id, h.shows_eq need id]
  refine and_congr_right (fun _ => exists_congr (fun card => ?_))
  refine and_congr_right (fun _ => ?_)
  constructor
  · intro hmax k hk d hd
    refine hmax (π k) ((hids.mem_iff k).mpr hk) d ?_
    rw [h.shows_eq]
    exact hd
  · intro hmax
    refine hids.forall_mem (fun k hk d hd => ?_)
    rw [h.shows_eq] at hd
    exact hmax k hk d hd

/-- The same cards are put down. -/
theorem flatMap_pile (h : Alike π s t) (hids : Renamed π ids ids')
    (need : Nat) :
    (ids'.flatMap (pile t need)).Perm (ids.flatMap (pile s need)) :=
  hids.flatMap_perm (fun id => h.pile_eq need id)

end Lists

end Alike

end Standings
