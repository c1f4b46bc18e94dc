import CardCrucible.WarRuns

/-! # Spending — what putting cards down does to the table

    Between the start of a round and its payout the players only put cards
    down.  `Spent` says what such a stretch of play does: each hand loses a
    prefix, nobody but the players who take part is touched, nobody is
    re-admitted, and whoever drops out has nothing left.  It composes, so the
    fact about a whole war is an induction on its run. -/

namespace Spending

open Outcomes Arrangements Dictionaries CardModel DeckModel PlayerModel
open WarModel WarModel.War WarState WarTurn Comparisons WarRuns

variable {Id : Type} [LinearOrder Id]

/-- `t` is `s` after the players `ids` put down `taken`. -/
structure Spent (s t : War Id) (ids : List Id) (taken : Id → List Card) :
    Prop where
  hand_eq : ∀ id, hand s id = taken id ++ hand t id
  others : ∀ id, id ∉ ids →
    taken id = [] ∧ t.tournamentPlayer? id = s.tournamentPlayer? id
  keys_eq : t.players.keys = s.players.keys
  name_eq : ∀ id, nameOf t id = nameOf s id
  gameDeck_eq : t.gameDeck = s.gameDeck
  gameover_eq : t.gameover = s.gameover
  wellFormed : WellFormed s → WellFormed t
  inGame_of : ∀ id, inGame t id = true → inGame s id = true
  stay : ∀ id, isOut s id = true → isOut t id = true
  out : ∀ id, isOut t id = true → isOut s id = true ∨ hand t id = []

/-- After a turn a player is out if it was, or if it took the turn and came up
    short. -/
theorem isOut_turn (need : Nat) (ids : List Id) (s : War Id) (id : Id) :
    isOut (turn need ids s) id = true ↔
      isOut s id = true ∨
        (∃ p, s.tournamentPlayer? id = some p) ∧ id ∈ ids ∧
          (hand s id).length < need := by
  rw [isOut_iff, isOut_iff, tournamentPlayer?_turn]
  cases h : s.tournamentPlayer? id with
  | none => simp
  | some p =>
      rw [hand_of_some h]
      by_cases hid : id ∈ ids
      · have helim : (playTurn need p).eliminated = true ↔
            p.eliminated = true ∨ p.cards.length < need := by
          show (p.eliminated || decide (p.cards.length < need)) = true ↔ _
          rw [Bool.or_eq_true, decide_eq_true_eq]
        simp [hid, helim]
      · simp [hid]

namespace Spent

variable {s t u : War Id} {ids ids' : List Id} {taken taken' : Id → List Card}

/-- A recorded turn spends the piles it records. -/
theorem recorded {need : Nat} {rc : Dictionary Id (List Card)}
    (hrc : Records s need ids rc) :
    Spent s (turn need ids s) ids (fun id => rc.getD id []) where
  hand_eq := by
    intro id
    rw [hand_turn]
    by_cases hid : id ∈ ids
    · rw [if_pos hid, hrc.pile id hid]
      exact (List.take_append_drop need (hand s id)).symm
    · rw [if_neg hid, hrc.none id hid]
      rfl
  others := fun id hid =>
    ⟨hrc.none id hid, tournamentPlayer?_turn_of_notMem hid⟩
  keys_eq := keys_turn need ids s
  name_eq := nameOf_turn need ids s
  gameDeck_eq := rfl
  gameover_eq := rfl
  wellFormed := fun h => h.turn need ids
  inGame_of := fun id h => ((inGame_turn need ids s id).mp h).1
  stay := fun id h => (isOut_turn need ids s id).mpr (Or.inl h)
  out := by
    intro id h
    rcases (isOut_turn need ids s id).mp h with hout | ⟨-, hid, hlen⟩
    · exact Or.inl hout
    · refine Or.inr ?_
      rw [hand_turn, if_pos hid]
      exact List.drop_eq_nil_of_le (by omega)

/-- Stretches of play compose when the later one has no new players. -/
theorem trans (h : Spent s t ids taken) (h' : Spent t u ids' taken')
    (hsub : ∀ id ∈ ids', id ∈ ids) :
    Spent s u ids (fun id => taken id ++ taken' id) where
  hand_eq := by
    intro id
    rw [h.hand_eq id, h'.hand_eq id, List.append_assoc]
  others := by
    intro id hid
    obtain ⟨hnil, hsame⟩ := h.others id hid
    obtain ⟨hnil', hsame'⟩ := h'.others id (fun hm => hid (hsub id hm))
    exact ⟨by rw [hnil, hnil', List.append_nil], hsame'.trans hsame⟩
  keys_eq := h'.keys_eq.trans h.keys_eq
  name_eq := fun id => (h'.name_eq id).trans (h.name_eq id)
  gameDeck_eq := h'.gameDeck_eq.trans h.gameDeck_eq
  gameover_eq := h'.gameover_eq.trans h.gameover_eq
  wellFormed := fun hwf => h'.wellFormed (h.wellFormed hwf)
  inGame_of := fun id hin => h.inGame_of id (h'.inGame_of id hin)
  stay := fun id hout => h'.stay id (h.stay id hout)
  out := by
    intro id hout
    rcases h'.out id hout with hout' | hnil
    · rcases h.out id hout' with hs | hnil
      · exact Or.inl hs
      · -- a hand that was empty before stays empty
        have happ := h'.hand_eq id
        rw [hnil] at happ
        exact Or.inr (List.append_eq_nil_iff.mp happ.symm).2
    · exact Or.inr hnil

/-- Spending what is spent by another name. -/
theorem congr (h : Spent s t ids taken) (heq : ∀ id, taken' id = taken id) :
    Spent s t ids taken' := by
  have hfun : taken' = taken := funext heq
  rw [hfun]
  exact h

theorem prefix_hand (h : Spent s t ids taken) (id : Id) :
    taken id <+: hand s id := ⟨hand t id, (h.hand_eq id).symm⟩

end Spent

/-- What is left of a hand after its first cards were put down. -/
def leftOver (s : War Id) (put : Id → List Card) (id : Id) : List Card :=
  (hand s id).drop (put id).length

theorem leftOver_eq {s t : War Id} {ids : List Id} {put : Id → List Card}
    (h : Spent s t ids put) (id : Id) : leftOver s put id = hand t id := by
  simp only [leftOver]
  rw [h.hand_eq id, List.drop_left]

/-- The cards of distinct players in a row, added up. -/
theorem coe_flatMap {ids : List Id} (hnd : ids.Nodup)
    (taken : Id → List Card) :
    ((ids.flatMap taken : List Card) : Multiset Card)
      = ∑ id ∈ ids.toFinset, (taken id : Multiset Card) := by
  have hflat : ∀ l : List Id, ((l.flatMap taken : List Card) : Multiset Card)
      = (l.map (fun id => (taken id : Multiset Card))).sum := by
    intro l
    induction l with
    | nil => rfl
    | cons id l ih =>
        rw [List.flatMap_cons, List.map_cons, List.sum_cons, ← ih]
        rfl
  rw [hflat ids, List.sum_toFinset _ hnd]

/-- The piles of distinct players, added up. -/
theorem sum_piles {s : War Id} {need : Nat} {ids : List Id} (hnd : ids.Nodup)
    {rc : Dictionary Id (List Card)} (hrc : Records s need ids rc) :
    ((ids.flatMap (pile s need) : List Card) : Multiset Card)
      = ∑ id ∈ ids.toFinset, (rc.getD id [] : Multiset Card) := by
  rw [coe_flatMap hnd]
  exact Finset.sum_congr rfl (fun id hid => by
    rw [hrc.pile id (List.mem_toFinset.mp hid)])

/-- What nobody outside a smaller set puts down adds up over the smaller
    set. -/
theorem sum_taken_subset {taken : Id → List Card} {ids ids' : List Id}
    (hsub : ∀ id ∈ ids', id ∈ ids) (hnil : ∀ id, id ∉ ids' → taken id = []) :
    ∑ id ∈ ids'.toFinset, (taken id : Multiset Card)
      = ∑ id ∈ ids.toFinset, (taken id : Multiset Card) := by
  refine Finset.sum_subset ?_ ?_
  · intro id hid
    exact List.mem_toFinset.mpr (hsub id (List.mem_toFinset.mp hid))
  · intro id _ hid
    rw [hnil id (fun h => hid (List.mem_toFinset.mpr h))]
    rfl

omit [LinearOrder Id] in
theorem sum_append {taken taken' : Id → List Card} (F : Finset Id) :
    ∑ id ∈ F, ((taken id ++ taken' id : List Card) : Multiset Card)
      = ∑ id ∈ F, (taken id : Multiset Card)
        + ∑ id ∈ F, (taken' id : Multiset Card) := by
  rw [← Finset.sum_add_distrib]
  exact Finset.sum_congr rfl (fun id _ => (Multiset.coe_add _ _).symm)

/-! ## Wars -/

/-- **A war, said at once**: the holders put down the cards recorded in its
    comparisons, all of them are among the prize cards, and then one holder
    who is still in the game collects, or nobody does. -/
structure WarSpent (holders : List Id) (prizeCards : List Card) (s : War Id)
    (cs : List (Comparison Id)) (e : WarExit Id) (t : War Id) : Prop where
  spent : Spent s t holders (playedIn cs)
  prize : ∃ taken, e.prizeCards = prizeCards ++ taken ∧
    (taken : Multiset Card)
      = ∑ id ∈ holders.toFinset, (playedIn cs id : Multiset Card)
  exit : (∃ w ∈ holders, inGame t w = true ∧ e.thrown = none ∧
      e.state = { payOut w e.prizeCards t with roundWinner := some w }) ∨
    (∃ ids, e.thrown = some (.draw ids) ∧
      e.state = { t with roundWinner := none })

namespace WarSpent

variable {holders : List Id} {prizeCards : List Card} {s t : War Id}
variable {cs : List (Comparison Id)} {e : WarExit Id}

/-- A war that throws pays nobody. -/
theorem of_thrown (h : WarSpent holders prizeCards s cs e t) {ids : List Id}
    (hthrown : e.thrown = some (.draw ids)) :
    e.state = { t with roundWinner := none } := by
  rcases h.exit with ⟨w, -, -, hnone, -⟩ | ⟨_, -, hstate⟩
  · rw [hnone] at hthrown
    simp at hthrown
  · exact hstate

/-- A war that returns pays one of its holders. -/
theorem of_returned (h : WarSpent holders prizeCards s cs e t)
    (hwon : e.thrown = none) :
    ∃ w ∈ holders, inGame t w = true ∧
      e.state = { payOut w e.prizeCards t with roundWinner := some w } := by
  rcases h.exit with ⟨w, hw, hin, -, hstate⟩ | ⟨ids, hthrown, -⟩
  · exact ⟨w, hw, hin, hstate⟩
  · rw [hwon] at hthrown
    simp at hthrown

end WarSpent

theorem warSpent {holders : List Id} {prizeCards : List Card} {s : War Id}
    {cs : List (Comparison Id)} {e : WarExit Id}
    (hrun : WarRun holders prizeCards s cs e) (h : Holders s holders) :
    ∃ t, WarSpent holders prizeCards s cs e t := by
  induction hrun with
  | @drawn holders prizeCards s hempty =>
      refine ⟨turn 1 holders s, ?_, ?_, Or.inr ⟨holders, rfl, rfl⟩⟩
      · -- the last draws find no card, so there is nothing to record
        have hnone : recordedIds s 1 false holders = [] := by
          simp only [recordedIds]
          rw [List.filter_eq_nil_iff]
          intro id hid
          simp only [pile]
          rw [hempty id hid]
          exact Bool.false_ne_true
        have hentries : (Dictionary.empty : Dictionary Id (List Card)).entries
            = piles s 1 (recordedIds s 1 false holders) := by
          rw [hnone]
          rfl
        have hrc : Records s 1 holders Dictionary.empty :=
          records_of_entries hentries
        exact (Spent.recorded hrc).congr (fun _ => rfl)
      · refine ⟨[], (List.append_nil _).symm, ?_⟩
        exact (Finset.sum_eq_zero (fun _ _ => rfl)).symm
  | @won holders prizeCards s rc w hrc hlead =>
      have hw := (hlead w).mpr rfl
      refine ⟨afterDraws s holders, ?_, ?_, Or.inl ⟨w, hw.1, ?_, rfl, rfl⟩⟩
      · refine (Spent.recorded hrc).congr ?_
        intro id
        exact List.append_nil _
      · refine ⟨_, rfl, ?_⟩
        rw [sum_piles h.nodup hrc]
        exact Finset.sum_congr rfl (fun id _ => by
          rw [playedIn_cons, playedIn_nil, List.append_nil]
          rfl)
      · exact inGame_of_leads (warSize_pos s holders) h.inGame hw
  | @again holders prizeCards s rc next cs e hrc hnd htwo hlead hrest ih =>
      have hsub : ∀ id ∈ next, id ∈ holders :=
        fun id hid => ((hlead id).mp hid).1
      obtain ⟨t, hspent, ⟨taken, htaken, hsum⟩, hexit⟩ :=
        ih (holders_next h hnd hlead)
      refine ⟨t, ?_, ?_, ?_⟩
      · exact ((Spent.recorded hrc).trans hspent hsub).congr (fun _ => rfl)
      · -- the cards of these draws come before those of the nested call
        refine ⟨holders.flatMap (pile s (warSize s holders)) ++ taken, ?_, ?_⟩
        · rw [htaken]
          exact List.append_assoc ..
        · rw [← Multiset.coe_add, sum_piles h.nodup hrc, hsum,
            sum_taken_subset hsub (fun id hid => (hspent.others id hid).1),
            ← sum_append]
          rfl
      · rcases hexit with ⟨w, hw, hin, hnone, hstate⟩ | hdraw
        · exact Or.inl ⟨w, hsub w hw, hin, hnone, hstate⟩
        · exact Or.inr hdraw

end Spending
