import CardCrucible.Comparisons

/-! # War runs — what a call of `war` can do, said once

    `war` is recursive, draws through error paths and may throw.  `WarRun` is
    its big-step relation over the closed forms: a call is drawn (no holder has
    a card left), won (one holder leads the comparison) or goes on among those
    who tie.  `war_cases` is the step lemma; from it the function terminates
    within the number of cards the holders have, and every result it returns
    comes from a `WarRun`.  All facts about wars are inductions on `WarRun`. -/

namespace WarRuns

open Outcomes Arrangements Dictionaries CardModel DeckModel PlayerModel
open WarModel WarModel.War WarState WarTurn Comparisons

variable {Id : Type} [LinearOrder Id]

/-- The prize cards after the draws of a war. -/
def pot (s : War Id) (holders : List Id) (prizeCards : List Card) :
    List Card :=
  prizeCards ++ holders.flatMap (pile s (warSize s holders))

/-- The table after the draws of a war. -/
def afterDraws (s : War Id) (holders : List Id) : War Id :=
  turn (warSize s holders) holders s

/-- The comparison of a war. -/
def warComparison (s : War Id) (holders : List Id)
    (rc : Dictionary Id (List Card)) : Comparison Id :=
  turnComparison s (warSize s holders) holders holders rc

/-- The draws of a war, recorded. -/
abbrev WarRecords (s : War Id) (holders : List Id)
    (rc : Dictionary Id (List Card)) : Prop :=
  Records s (warSize s holders) holders rc

/-- Leading the comparison of a war. -/
abbrev LeadsWar (s : War Id) (holders : List Id) (id : Id) : Prop :=
  LeadsTurn s (warSize s holders) holders id

/-- The exit of a war that nobody has a card for. -/
def drawnExit (s : War Id) (holders : List Id) (prizeCards : List Card) :
    WarExit Id where
  thrown := some (.draw holders)
  prizeCards := prizeCards
  state := { turn 1 holders s with roundWinner := none }

/-- The exit of a war won by `w`. -/
def wonExit (s : War Id) (holders : List Id) (prizeCards : List Card) (w : Id) :
    WarExit Id where
  thrown := none
  prizeCards := pot s holders prizeCards
  state := { payOut w (pot s holders prizeCards) (afterDraws s holders) with
    roundWinner := some w }

/-- What a call of `war` can do: its comparisons and its exit. -/
inductive WarRun : List Id → List Card → War Id → List (Comparison Id) →
    WarExit Id → Prop where
  | drawn {holders : List Id} {prizeCards : List Card} {s : War Id}
      (hempty : ∀ id ∈ holders, hand s id = []) :
      WarRun holders prizeCards s [] (drawnExit s holders prizeCards)
  | won {holders : List Id} {prizeCards : List Card} {s : War Id}
      {rc : Dictionary Id (List Card)} {w : Id}
      (hrc : WarRecords s holders rc)
      (hlead : ∀ id, LeadsWar s holders id ↔ id = w) :
      WarRun holders prizeCards s [warComparison s holders rc]
        (wonExit s holders prizeCards w)
  | again {holders : List Id} {prizeCards : List Card} {s : War Id}
      {rc : Dictionary Id (List Card)} {next : List Id}
      {cs : List (Comparison Id)} {e : WarExit Id}
      (hrc : WarRecords s holders rc) (hnd : next.Nodup)
      (htwo : 2 ≤ next.length)
      (hlead : ∀ id, id ∈ next ↔ LeadsWar s holders id)
      (hrest : WarRun next (pot s holders prizeCards) (afterDraws s holders)
        cs e) :
      WarRun holders prizeCards s (warComparison s holders rc :: cs) e

/-! ## The step lemma -/

theorem warSize_pos (s : War Id) (holders : List Id) :
    0 < warSize s holders := by
  simp only [warSize]
  by_cases h : ∃ id ∈ holders, cardsNeededForWar ≤ (hand s id).length
  · rw [if_pos h]
    omega
  · rw [if_neg h]
    omega

/-- A war takes no more cards than it must: once nobody has enough for it,
    nobody has any. -/
theorem hand_eq_nil_of_all_short {s : War Id} {holders : List Id}
    (h : ∀ id ∈ holders, (hand s id).length < warSize s holders) :
    warSize s holders = 1 ∧ ∀ id ∈ holders, hand s id = [] := by
  have hsize : warSize s holders = 1 := by
    simp only [warSize] at h ⊢
    by_cases hex : ∃ id ∈ holders, cardsNeededForWar ≤ (hand s id).length
    · obtain ⟨id, hid, hle⟩ := hex
      have hlt := h id hid
      rw [if_pos ⟨id, hid, hle⟩] at hlt
      have hle' : 2 ≤ (hand s id).length := hle
      omega
    · rw [if_neg hex]
  refine ⟨hsize, ?_⟩
  intro id hid
  have hlt := h id hid
  rw [hsize] at hlt
  exact List.length_eq_zero_iff.mp (by omega)

/-- A card shown in a war is put down by a player who stays in the game. -/
theorem inGame_of_leads {s : War Id} {need : Nat} (hneed : 0 < need)
    {ids : List Id} (hin : ∀ id ∈ ids, inGame s id = true) {id : Id}
    (h : LeadsTurn s need ids id) : inGame (turn need ids s) id = true := by
  obtain ⟨hid, card, hcard, -⟩ := h
  exact (inGame_turn need ids s id).mpr
    ⟨hin id hid, fun _ => (shows_isSome hneed).mp ⟨card, hcard⟩⟩

/-- Those who lead a war hold a place in the next one. -/
theorem holders_next {s : War Id} {holders next : List Id}
    (h : Holders s holders) (hnd : next.Nodup)
    (hlead : ∀ id, id ∈ next ↔ LeadsWar s holders id) :
    Holders (afterDraws s holders) next where
  nodup := hnd
  inGame := fun id hid => inGame_of_leads (warSize_pos s holders) h.inGame
    ((hlead id).mp hid)

/-- Writing a player back changes nothing. -/
theorem setPlayer_self {s : War Id} {id : Id} {p : TournamentPlayer Id}
    (h : s.tournamentPlayer? id = some p) : s.setPlayer id p = s := by
  rw [show s.setPlayer id p = s.setPlayer id ((fun q => q) p) from rfl,
    setPlayer_eq_update (fun q => q) h]
  refine updatePlayers_self ?_
  intro k q _
  by_cases hk : k = id
  · rw [if_pos hk]
  · rw [if_neg hk]

/-- The winner of a war collects the prize cards; re-admitting a winner of a
    limited war does nothing, since it was never eliminated. -/
theorem collect_eq {s : War Id} {w : Id} (hwf : WellFormed s)
    (hin : inGame s w = true) (cards : List Card) :
    ∃ p, s.tournamentPlayer? w = some p ∧ p.id = w ∧
      s.setPlayer w (p.addToCards cards) = payOut w cards s ∧
      (payOut w cards s).setPlayer w
          ((p.addToCards cards).setIsNotEliminated true)
        = payOut w cards s := by
  obtain ⟨p, hp, he⟩ := inGame_iff.mp hin
  refine ⟨p, hp, hwf.playerID hp, setPlayer_addToCards cards hp, ?_⟩
  have hsame : (p.addToCards cards).setIsNotEliminated true
      = p.addToCards cards := by
    simp only [TournamentPlayer.setIsNotEliminated, TournamentPlayer.addToCards]
    rw [he]
    rfl
  have hpaid : (payOut w cards s).tournamentPlayer? w
      = some (p.addToCards cards) := by
    simp only [payOut]
    rw [tournamentPlayer?_updatePlayers, hp, Option.map_some, if_pos rfl]
  rw [hsame]
  exact setPlayer_self hpaid

/-- A list that is neither empty nor a single element has two. -/
theorem length_two_le {α : Type} {l : List α} (hne : l ≠ [])
    (hone : ∀ a, l ≠ [a]) : 2 ≤ l.length := by
  have hpos : l.length ≠ 0 := fun h => hne (List.length_eq_zero_iff.mp h)
  have hnot : l.length ≠ 1 := by
    intro h
    obtain ⟨a, ha⟩ := List.length_eq_one_iff.mp h
    exact hone a ha
  omega

/-- Such a list has a first and a second member. -/
theorem exists_cons_cons {α : Type} {l : List α} (h : 2 ≤ l.length) :
    ∃ a b rest, l = a :: b :: rest := by
  cases l with
  | nil => simp at h
  | cons a rest =>
      cases rest with
      | nil => simp at h
      | cons b rest => exact ⟨a, b, rest, rfl⟩

section Calls

variable {s : War Id} {holders : List Id} {prizeCards : List Card}
variable {enough : Bool} {rc : Dictionary Id (List Card)}

/-- A call of `war` whose draws all fail throws. -/
theorem war_of_failed (hdraws : warDraws holders prizeCards s
      = .done (enough, true, prizeCards, rc, turn 1 holders s))
    (fuel : Nat) (o : Schedule Id) (depth : Nat) :
    war (fuel + 1) o depth holders prizeCards s
        = .done (drawnExit s holders prizeCards) ∧
      warComparisons (fuel + 1) o depth holders prizeCards s = [] := by
  constructor
  · rw [war]
    simp only [hdraws, Outcome.done_bind, if_true]
    rfl
  · rw [warComparisons]
    simp only [hdraws]

/-- A call of `war` with a sole leader pays it. -/
theorem war_of_sole (hwf : WellFormed s) {o : Schedule Id} {depth : Nat}
    {w : Id} (hin : inGame (afterDraws s holders) w = true)
    (hdraws : warDraws holders prizeCards s
      = .done (enough, false, pot s holders prizeCards, rc,
          afterDraws s holders))
    (hnext : determineHighCardHolders (afterDraws s holders)
      (o.warParticipants depth) rc false = .done [w]) (fuel : Nat) :
    war (fuel + 1) o depth holders prizeCards s
        = .done (wonExit s holders prizeCards w) ∧
      warComparisons (fuel + 1) o depth holders prizeCards s
        = [warComparison s holders rc] := by
  obtain ⟨p, hp, hpid, hpay, hagain⟩ := collect_eq
    (hwf.turn (warSize s holders) holders) hin (pot s holders prizeCards)
  have hid : (p.addToCards (pot s holders prizeCards)).id = w := hpid
  have hwon : ({ (afterDraws s holders).setPlayer w
        (p.addToCards (pot s holders prizeCards)) with
        roundWinner := some w } : War Id)
      = { payOut w (pot s holders prizeCards) (afterDraws s holders) with
        roundWinner := some w } :=
    congrArg (fun t : War Id => { t with roundWinner := some w }) hpay
  -- the flag written in a limited war is the one the winner has
  have hback : ({ payOut w (pot s holders prizeCards) (afterDraws s holders)
        with roundWinner := some w } : War Id).setPlayer w
        ((p.addToCards (pot s holders prizeCards)).setIsNotEliminated true)
      = { payOut w (pot s holders prizeCards) (afterDraws s holders) with
        roundWinner := some w } :=
    congrArg (fun t : War Id => { t with roundWinner := some w }) hagain
  constructor
  · rw [war]
    simp only [hdraws, Outcome.done_bind, Bool.false_eq_true, if_false, hnext]
    rw [show (afterDraws s holders).tournamentPlayer? w = some p from hp]
    simp only [hid, hwon, hback]
    cases enough <;> rfl
  · rw [warComparisons]
    simp only [hdraws, hnext]
    rfl

/-- A call of `war` with several leaders goes on among them. -/
theorem war_of_several {o : Schedule Id} {depth : Nat} {next : List Id}
    (htwo : 2 ≤ next.length)
    (hdraws : warDraws holders prizeCards s
      = .done (enough, false, pot s holders prizeCards, rc,
          afterDraws s holders))
    (hnext : determineHighCardHolders (afterDraws s holders)
      (o.warParticipants depth) rc false = .done next) (fuel : Nat) :
    war (fuel + 1) o depth holders prizeCards s
        = war fuel o (depth + 1) next (pot s holders prizeCards)
            (afterDraws s holders) ∧
      warComparisons (fuel + 1) o depth holders prizeCards s
        = warComparison s holders rc ::
            warComparisons fuel o (depth + 1) next (pot s holders prizeCards)
              (afterDraws s holders) := by
  obtain ⟨a, b, rest, rfl⟩ := exists_cons_cons htwo
  constructor
  · rw [war]
    simp only [hdraws, Outcome.done_bind, Bool.false_eq_true, if_false, hnext]
  · rw [warComparisons]
    simp only [hdraws, hnext]
    rfl

end Calls

/-- **The draws of a war** find nobody with a card, or somebody with as many
    as the war takes. -/
theorem warDraws_cases {s : War Id} {holders : List Id}
    (h : Holders s holders) (prizeCards : List Card) :
    ∃ rc : Dictionary Id (List Card),
      rc.entries = piles s (warSize s holders) (recordedIds s
        (warSize s holders) (enoughCards s holders) holders) ∧
      (((∀ id ∈ holders, hand s id = []) ∧
        warDraws holders prizeCards s = .done (enoughCards s holders, true,
          prizeCards, rc, turn 1 holders s)) ∨
      ((∃ id ∈ holders, warSize s holders ≤ (hand s id).length) ∧
        warDraws holders prizeCards s = .done (enoughCards s holders, false,
          pot s holders prizeCards, rc, afterDraws s holders))) := by
  obtain ⟨rc, hentries, hdraws⟩ := warDraws_eq h prizeCards
  refine ⟨rc, hentries, ?_⟩
  cases hall : holders.all
      (fun id => decide ((hand s id).length < warSize s holders)) with
  | true =>
      -- nobody had enough cards
      rw [hall] at hdraws
      have hshort : ∀ id ∈ holders,
          (hand s id).length < warSize s holders := fun id hid =>
        of_decide_eq_true (List.all_eq_true.mp hall id hid)
      obtain ⟨hsize, hempty⟩ := hand_eq_nil_of_all_short hshort
      have hnone : holders.flatMap (pile s (warSize s holders)) = [] := by
        rw [List.flatMap_eq_nil_iff]
        intro id hid
        simp only [pile]
        rw [hempty id hid, List.take_nil]
      rw [hnone, List.append_nil, hsize] at hdraws
      exact Or.inl ⟨hempty, hdraws⟩
  | false =>
      rw [hall] at hdraws
      obtain ⟨id, hid, hlt⟩ := List.all_eq_false.mp hall
      exact Or.inr
        ⟨⟨id, hid, not_lt.mp (fun h' => hlt (decide_eq_true h'))⟩, hdraws⟩

/-- **One call of `war`**: it is drawn, won, or another call is made among
    those who tie. -/
theorem war_cases {s : War Id} (hwf : WellFormed s) {holders : List Id}
    (h : Holders s holders) (prizeCards : List Card) (o : Schedule Id)
    (depth : Nat) :
    ((∀ id ∈ holders, hand s id = []) ∧ ∀ fuel,
      war (fuel + 1) o depth holders prizeCards s
        = .done (drawnExit s holders prizeCards) ∧
      warComparisons (fuel + 1) o depth holders prizeCards s = []) ∨
    (∃ rc w, WarRecords s holders rc ∧
      (∀ id, LeadsWar s holders id ↔ id = w) ∧ ∀ fuel,
      war (fuel + 1) o depth holders prizeCards s
        = .done (wonExit s holders prizeCards w) ∧
      warComparisons (fuel + 1) o depth holders prizeCards s
        = [warComparison s holders rc]) ∨
    (∃ rc next, WarRecords s holders rc ∧ next.Nodup ∧ 2 ≤ next.length ∧
      (∀ id, id ∈ next ↔ LeadsWar s holders id) ∧
      (∃ id ∈ holders, warSize s holders ≤ (hand s id).length) ∧ ∀ fuel,
      war (fuel + 1) o depth holders prizeCards s
        = war fuel o (depth + 1) next (pot s holders prizeCards)
            (afterDraws s holders) ∧
      warComparisons (fuel + 1) o depth holders prizeCards s
        = warComparison s holders rc ::
            warComparisons fuel o (depth + 1) next (pot s holders prizeCards)
              (afterDraws s holders)) := by
  obtain ⟨rc, hentries, ⟨hempty, hdraws⟩ | ⟨hstand, hdraws⟩⟩ :=
    warDraws_cases h prizeCards
  · exact Or.inl ⟨hempty, fun fuel => war_of_failed hdraws fuel o depth⟩
  · have hrc : WarRecords s holders rc := records_of_entries hentries
    have hpos := warSize_pos s holders
    obtain ⟨next, hnext, hnd, hne, hlead⟩ :=
      determineHighCardHolders_turn hpos hrc h.inGame hstand
        (o.warParticipants depth)
    by_cases hone : ∃ w, next = [w]
    · obtain ⟨w, hw⟩ := hone
      subst hw
      have hlead' : ∀ id, LeadsWar s holders id ↔ id = w := fun id =>
        (hlead id).symm.trans List.mem_singleton
      have hin := inGame_of_leads hpos h.inGame ((hlead' w).mpr rfl)
      exact Or.inr (Or.inl ⟨rc, w, hrc, hlead', fun fuel =>
        war_of_sole hwf hin hdraws hnext fuel⟩)
    · have htwo := length_two_le hne (fun w hw => hone ⟨w, hw⟩)
      exact Or.inr (Or.inr ⟨rc, next, hrc, hnd, htwo, hlead, hstand,
        fun fuel => war_of_several htwo hdraws hnext fuel⟩)

/-! ## Termination and inversion -/

/-- The number of cards the holders have. -/
def holding (s : War Id) (holders : List Id) : Nat :=
  ∑ id ∈ holders.toFinset, (hand s id).length

/-- The next holders have fewer cards than the holders had. -/
theorem holding_lt {s : War Id} {need : Nat} (hneed : 0 < need)
    {ids next : List Id} (hsub : ∀ id ∈ next, id ∈ ids)
    (hstand : ∃ id ∈ ids, need ≤ (hand s id).length) :
    holding (turn need ids s) next < holding s ids := by
  have hle : holding (turn need ids s) next
      ≤ ∑ id ∈ ids.toFinset, (hand (turn need ids s) id).length := by
    refine Finset.sum_le_sum_of_subset ?_
    intro id hid
    rw [List.mem_toFinset] at hid ⊢
    exact hsub id hid
  refine Nat.lt_of_le_of_lt hle ?_
  obtain ⟨id₀, hid₀, hlen₀⟩ := hstand
  refine Finset.sum_lt_sum ?_ ⟨id₀, List.mem_toFinset.mpr hid₀, ?_⟩
  · intro id hid
    rw [hand_turn, if_pos (List.mem_toFinset.mp hid), List.length_drop]
    omega
  · rw [hand_turn, if_pos hid₀, List.length_drop]
    omega

/-- **`war` terminates** within one call more than the holders have cards. -/
theorem war_returns (o : Schedule Id) :
    ∀ (fuel depth : Nat) (holders : List Id) (prizeCards : List Card)
      (s : War Id), WellFormed s → Holders s holders →
      holding s holders < fuel →
      ∃ e, war fuel o depth holders prizeCards s = .done e := by
  intro fuel
  induction fuel with
  | zero =>
      intro depth holders prizeCards s _ _ hlt
      exact absurd hlt (Nat.not_lt_zero _)
  | succ fuel ih =>
      intro depth holders prizeCards s hwf h hlt
      rcases war_cases hwf h prizeCards o depth with
        ⟨-, hrun⟩ | ⟨rc, w, -, -, hrun⟩ |
        ⟨rc, next, -, hnd, -, hlead, hstand, hrun⟩
      · exact ⟨_, (hrun fuel).1⟩
      · exact ⟨_, (hrun fuel).1⟩
      · rw [(hrun fuel).1]
        refine ih _ _ _ _ (hwf.turn _ _) (holders_next h hnd hlead) ?_
        have hdec := holding_lt (warSize_pos s holders)
          (fun id hid => ((hlead id).mp hid).1) hstand
        show holding (turn (warSize s holders) holders s) next < fuel
        omega

/-- Every result of `war` comes from a run. -/
theorem war_inv (o : Schedule Id) :
    ∀ (fuel depth : Nat) (holders : List Id) (prizeCards : List Card)
      (s : War Id) (e : WarExit Id), WellFormed s → Holders s holders →
      war fuel o depth holders prizeCards s = .done e →
      WarRun holders prizeCards s
        (warComparisons fuel o depth holders prizeCards s) e := by
  intro fuel
  induction fuel with
  | zero => intro depth holders prizeCards s e _ _ hdone; cases hdone
  | succ fuel ih =>
      intro depth holders prizeCards s e hwf h hdone
      rcases war_cases hwf h prizeCards o depth with
        ⟨hempty, hrun⟩ | ⟨rc, w, hrc, hlead, hrun⟩ |
        ⟨rc, next, hrc, hnd, htwo, hlead, -, hrun⟩
      · rw [(hrun fuel).1] at hdone
        rw [(hrun fuel).2, ← Outcome.done.inj hdone]
        exact .drawn hempty
      · rw [(hrun fuel).1] at hdone
        rw [(hrun fuel).2, ← Outcome.done.inj hdone]
        exact .won hrc hlead
      · rw [(hrun fuel).1] at hdone
        rw [(hrun fuel).2]
        exact .again hrc hnd htwo hlead
          (ih _ _ _ _ _ (hwf.turn _ _) (holders_next h hnd hlead) hdone)

/-- More fuel does not change what `war` does. -/
theorem war_refines (o : Schedule Id) :
    ∀ (fuel depth : Nat) (holders : List Id) (prizeCards : List Card)
      (s : War Id),
      (war fuel o depth holders prizeCards s).Refines
        (war (fuel + 1) o depth holders prizeCards s) := by
  intro fuel
  induction fuel with
  | zero =>
      intro depth holders prizeCards s
      exact Outcome.Refines.outOfFuel _
  | succ fuel ih =>
      intro depth holders prizeCards s
      rw [war, war]
      refine Outcome.Refines.bind (Outcome.Refines.refl _) ?_
      rintro ⟨enough, draws, cards, participants, t⟩
      cases draws with
      | true => exact Outcome.Refines.refl _
      | false =>
          refine Outcome.Refines.bind (Outcome.Refines.refl _) ?_
          intro next
          cases next with
          | nil => exact ih _ _ _ _
          | cons a rest =>
              cases rest with
              | nil => exact Outcome.Refines.refl _
              | cons b rest => exact ih _ _ _ _

end WarRuns
