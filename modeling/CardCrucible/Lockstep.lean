import CardCrucible.Standings
import CardCrucible.RoundRobin

/-! # Lock-step — two runs on tables that are alike

    Two wars among corresponding players on tables that are alike take the
    same steps: both are drawn, both are won by the same player, or both go on
    among the same players.  `Lockstep` is the relation between such runs; the
    orders in which the holders are listed, and with them the order of the
    prize cards, are the only things that may differ.

    Rounds follow, as soon as the cards have been placed alike: one of them
    returns exactly when the other does, and they are settled in the same
    way. -/

namespace Lockstep

open Outcomes Arrangements Dictionaries CardModel DeckModel PlayerModel
open WarModel WarModel.War WarState WarTurn Comparisons WarRuns Spending
open Dealing Rounds GameStatus RoundLaws RoundStrength Standings

variable {Id Id' : Type} [LinearOrder Id] [LinearOrder Id']

/-! ## Wars -/

/-- Two wars that take the same steps. -/
inductive WarsAlike (π : Id ≃ Id') :
    List Id → List Card → War Id → List (Comparison Id) → WarExit Id →
    List Id' → List Card → War Id' → List (Comparison Id') → WarExit Id' →
    Prop where
  | drawn {holders : List Id} {prizeCards : List Card} {s : War Id}
      {holders' : List Id'} {prizeCards' : List Card} {t : War Id'}
      (h : Alike π s t) (hids : Renamed π holders holders') :
      WarsAlike π holders prizeCards s [] (drawnExit s holders prizeCards)
        holders' prizeCards' t [] (drawnExit t holders' prizeCards')
  | won {holders : List Id} {prizeCards : List Card} {s : War Id}
      {rc : Dictionary Id (List Card)} {w : Id}
      {holders' : List Id'} {prizeCards' : List Card} {t : War Id'}
      {rc' : Dictionary Id' (List Card)}
      (h : Alike π s t) (hids : Renamed π holders holders')
      (hrc : WarRecords s holders rc) (hrc' : WarRecords t holders' rc')
      (hlead : LeadsWar s holders w) :
      WarsAlike π holders prizeCards s [warComparison s holders rc]
        (wonExit s holders prizeCards w)
        holders' prizeCards' t [warComparison t holders' rc']
        (wonExit t holders' prizeCards' (π w))
  | again {holders next : List Id} {prizeCards : List Card} {s : War Id}
      {rc : Dictionary Id (List Card)} {cs : List (Comparison Id)}
      {e : WarExit Id}
      {holders' next' : List Id'} {prizeCards' : List Card} {t : War Id'}
      {rc' : Dictionary Id' (List Card)} {cs' : List (Comparison Id')}
      {e' : WarExit Id'}
      (h : Alike π s t) (hids : Renamed π holders holders')
      (hrc : WarRecords s holders rc) (hrc' : WarRecords t holders' rc')
      (hne : ∃ id, id ∈ next)
      (hlead : ∀ id, id ∈ next ↔ LeadsWar s holders id)
      (hrest : WarsAlike π next (pot s holders prizeCards)
        (afterDraws s holders) cs e next' (pot t holders' prizeCards')
        (afterDraws t holders') cs' e') :
      WarsAlike π holders prizeCards s (warComparison s holders rc :: cs) e
        holders' prizeCards' t (warComparison t holders' rc' :: cs') e'

/-- Without a card nobody leads. -/
theorem not_leads_of_empty {s : War Id} {need : Nat} {ids : List Id}
    (hempty : ∀ id ∈ ids, hand s id = []) (id : Id) :
    ¬ LeadsTurn s need ids id := by
  rintro ⟨hid, card, hcard, -⟩
  simp only [shows] at hcard
  rw [hempty id hid] at hcard
  simp at hcard

section Leaders

variable {π : Id ≃ Id'} {s : War Id} {t : War Id'}
variable {holders : List Id} {holders' : List Id'}

theorem leadsWar_iff (h : Alike π s t) (hids : Renamed π holders holders')
    (id : Id) : LeadsWar t holders' (π id) ↔ LeadsWar s holders id := by
  simp only [LeadsWar]
  rw [h.warSize_eq hids]
  exact h.leadsTurn_iff hids _ id

/-- Corresponding draws keep tables alike. -/
theorem alike_afterDraws (h : Alike π s t)
    (hids : Renamed π holders holders') :
    Alike π (afterDraws s holders) (afterDraws t holders') := by
  simp only [afterDraws]
  rw [h.warSize_eq hids]
  exact h.turn hids _

omit [LinearOrder Id] in
/-- Several leaders and a sole leader exclude each other. -/
theorem not_sole {next : List Id} (hnd : next.Nodup) (htwo : 2 ≤ next.length)
    {P : Id → Prop} (hlead : ∀ id, id ∈ next ↔ P id) {w : Id}
    (hsole : ∀ id, P id → id = w) : False := by
  obtain ⟨a, ha, b, hb, hab⟩ := exists_two hnd htwo
  exact hab ((hsole a ((hlead a).mp ha)).trans
    (hsole b ((hlead b).mp hb)).symm)

end Leaders

/-- **Wars run in lock-step.** -/
theorem war_lockstep {π : Id ≃ Id'} {holders : List Id}
    {prizeCards : List Card} {s : War Id} {cs : List (Comparison Id)}
    {e : WarExit Id} (hrun : WarRun holders prizeCards s cs e) :
    ∀ {holders' : List Id'} {prizeCards' : List Card} {t : War Id'}
      {cs' : List (Comparison Id')} {e' : WarExit Id'},
      Alike π s t → Renamed π holders holders' →
      WarRun holders' prizeCards' t cs' e' →
      WarsAlike π holders prizeCards s cs e holders' prizeCards' t cs' e' := by
  induction hrun with
  | @drawn holders prizeCards s hempty =>
      intro holders' prizeCards' t cs' e' h hids hrun'
      have hempty' : ∀ id' ∈ holders', hand t id' = [] :=
        hids.forall_mem (fun id hid => (h.hand_eq id).trans (hempty id hid))
      cases hrun' with
      | drawn _ => exact .drawn h hids
      | @won _ _ _ rc' w' hrc' hlead' =>
          exact absurd ((hlead' w').mpr rfl) (not_leads_of_empty hempty' w')
      | @again _ _ _ rc' next' cs' e' hrc' hnd' htwo' hlead' hrest' =>
          obtain ⟨k, hk⟩ := exists_mem_of_two_le htwo'
          exact absurd ((hlead' k).mp hk) (not_leads_of_empty hempty' k)
  | @won holders prizeCards s rc w hrc hlead =>
      intro holders' prizeCards' t cs' e' h hids hrun'
      have hw : LeadsWar t holders' (π w) :=
        (leadsWar_iff h hids w).mpr ((hlead w).mpr rfl)
      -- the leader of the one war is the only one of the other
      have hsole : ∀ id', LeadsWar t holders' id' → id' = π w := by
        intro id' hid'
        have hback : LeadsWar t holders' (π (π.symm id')) := by
          rw [π.apply_symm_apply]
          exact hid'
        have hid := (hlead _).mp ((leadsWar_iff h hids _).mp hback)
        rw [← hid, π.apply_symm_apply]
      cases hrun' with
      | drawn hempty' => exact absurd hw (not_leads_of_empty hempty' _)
      | @won _ _ _ rc' w' hrc' hlead' =>
          have hww : π w = w' := (hlead' _).mp hw
          rw [← hww]
          exact .won h hids hrc hrc' ((hlead w).mpr rfl)
      | again hrc' hnd' htwo' hlead' hrest' =>
          exact (not_sole hnd' htwo' hlead' hsole).elim
  | @again holders prizeCards s rc next cs e hrc hnd htwo hlead hrest ih =>
      intro holders' prizeCards' t cs' e' h hids hrun'
      have hne := exists_mem_of_two_le htwo
      have hlead₂ : ∀ id, id ∈ next ↔ LeadsWar t holders' (π id) :=
        fun id => (hlead id).trans (leadsWar_iff h hids id).symm
      cases hrun' with
      | drawn hempty' =>
          obtain ⟨k, hk⟩ := hne
          exact absurd ((hlead₂ k).mp hk) (not_leads_of_empty hempty' _)
      | @won _ _ _ rc' w' hrc' hlead' =>
          have hsole : ∀ id, LeadsWar t holders' (π id) → id = π.symm w' :=
            fun id hid => (π.eq_symm_apply).mpr ((hlead' _).mp hid)
          exact (not_sole hnd htwo hlead₂ hsole).elim
      | @again _ _ _ rc' next' cs' e' hrc' hnd' htwo' hlead' hrest' =>
          have hnext : Renamed π next next' := Renamed.of_mem_iff hnd hnd'
            (fun id => (hlead' _).trans (hlead₂ id).symm)
          exact .again h hids hrc hrc' hne hlead
            (ih (alike_afterDraws h hids) hnext hrest')

/-- Corresponding turns record the same piles. -/
theorem getD_alike {π : Id ≃ Id'} {s : War Id} {t : War Id'} {need : Nat}
    {ids : List Id} {ids' : List Id'} {rc : Dictionary Id (List Card)}
    {rc' : Dictionary Id' (List Card)} (h : Alike π s t)
    (hids : Renamed π ids ids') (hrc : Records s need ids rc)
    (hrc' : Records t need ids' rc') (id : Id) :
    rc'.getD (π id) [] = rc.getD id [] := by
  by_cases hid : id ∈ ids
  · rw [hrc.pile id hid, hrc'.pile _ ((hids.mem_iff id).mpr hid),
      h.pile_eq need id]
  · rw [hrc.none id hid, hrc'.none _ (fun h' => hid ((hids.mem_iff id).mp h'))]

/-- The ids, the deck and the game status are untouched. -/
structure Kept (s u : War Id) : Prop where
  keys_eq : u.players.keys = s.players.keys
  gameDeck_eq : u.gameDeck = s.gameDeck
  gameover_eq : u.gameover = s.gameover

theorem Kept.turn (need : Nat) (ids : List Id) (s : War Id) :
    Kept s (turn need ids s) := ⟨keys_turn need ids s, rfl, rfl⟩

omit [LinearOrder Id] in
theorem Kept.trans {s t u : War Id} (h : Kept s t) (h' : Kept t u) :
    Kept s u :=
  ⟨h'.keys_eq.trans h.keys_eq, h'.gameDeck_eq.trans h.gameDeck_eq,
    h'.gameover_eq.trans h.gameover_eq⟩

namespace WarsAlike

variable {π : Id ≃ Id'} {s : War Id} {t : War Id'} {ids : List Id}
variable {ids' : List Id'} {P P' : List Card} {cs : List (Comparison Id)}
variable {cs' : List (Comparison Id')} {e : WarExit Id} {e' : WarExit Id'}

/-- Corresponding players put down the same cards. -/
theorem playedIn_eq (h : WarsAlike π ids P s cs e ids' P' t cs' e')
    (id : Id) : playedIn cs' (π id) = playedIn cs id := by
  induction h with
  | drawn h hids => rfl
  | @won holders _ s rc w holders' _ t rc' h hids hrc hrc' hlead =>
      have hrc₂ : Records t (warSize s holders) holders' rc' := by
        rw [← h.warSize_eq hids]
        exact hrc'
      rw [playedIn_cons, playedIn_cons, playedIn_nil, playedIn_nil,
        List.append_nil, List.append_nil]
      exact getD_alike h hids hrc hrc₂ id
  | @again holders next _ s rc cs e holders' next' _ t rc' cs' e' h hids hrc
      hrc' hne hlead hrest ih =>
      have hrc₂ : Records t (warSize s holders) holders' rc' := by
        rw [← h.warSize_eq hids]
        exact hrc'
      have hhead : rc'.getD (π id) [] = rc.getD id [] :=
        getD_alike h hids hrc hrc₂ id
      rw [playedIn_cons, playedIn_cons, ih]
      exact congrArg (· ++ playedIn cs id) hhead

/-- The prize cards are the same, in some order. -/
theorem prize_perm (h : WarsAlike π ids P s cs e ids' P' t cs' e') :
    P'.Perm P → e'.prizeCards.Perm e.prizeCards := by
  have hpot : ∀ {holders : List Id} {holders' : List Id'} {s : War Id}
      {t : War Id'} {P P' : List Card}, Alike π s t →
      Renamed π holders holders' → P'.Perm P →
      (pot t holders' P').Perm (pot s holders P) := by
    intro holders holders' s t P P' h hids hP
    simp only [pot]
    rw [h.warSize_eq hids]
    exact hP.append (h.flatMap_pile hids _)
  induction h with
  | drawn h hids => exact fun hP => hP
  | won h hids hrc hrc' hlead => exact fun hP => hpot h hids hP
  | again h hids hrc hrc' hne hlead hrest ih =>
      exact fun hP => ih (hpot h hids hP)

/-- Both wars are won by the same player, or both throw a draw, on tables that
    are alike. -/
theorem exit (h : WarsAlike π ids P s cs e ids' P' t cs' e') :
    ∃ u u', Alike π u u' ∧ Kept s u ∧ Kept t u' ∧
      ((∃ w, e.thrown = none ∧ e'.thrown = none ∧
        e.state = { payOut w e.prizeCards u with roundWinner := some w } ∧
        e'.state = { payOut (π w) e'.prizeCards u' with
          roundWinner := some (π w) }) ∨
      ∃ ds ds', e.thrown = some (.draw ds) ∧ e'.thrown = some (.draw ds') ∧
        e.state = { u with roundWinner := none } ∧
        e'.state = { u' with roundWinner := none }) := by
  induction h with
  | @drawn holders _ s holders' _ t h hids =>
      exact ⟨turn 1 holders s, turn 1 holders' t, h.turn hids 1,
        Kept.turn 1 holders s, Kept.turn 1 holders' t,
        Or.inr ⟨holders, holders', rfl, rfl, rfl, rfl⟩⟩
  | @won holders _ s rc w holders' _ t rc' h hids hrc hrc' hlead =>
      exact ⟨afterDraws s holders, afterDraws t holders',
        alike_afterDraws h hids, Kept.turn _ holders s,
        Kept.turn _ holders' t, Or.inl ⟨w, rfl, rfl, rfl, rfl⟩⟩
  | @again holders next _ s rc cs e holders' next' _ t rc' cs' e' h hids hrc
      hrc' hne hlead hrest ih =>
      obtain ⟨u, u', halike, hkept, hkept', hexit⟩ := ih
      exact ⟨u, u', halike, (Kept.turn _ holders s).trans hkept,
        (Kept.turn _ holders' t).trans hkept', hexit⟩

end WarsAlike

/-! ## Rounds -/

/-- The cards have been placed alike. -/
structure Placed (π : Id ≃ Id') (s : War Id) (t : War Id') : Prop where
  table : Alike π (afterPlacing s) (afterPlacing t)
  leads : ∀ id, LeadsRound t (π id) ↔ LeadsRound s id
  cards : (placedCards t).Perm (placedCards s)

/-- On tables that are alike they are. -/
theorem Alike.placed {π : Id ≃ Id'} {s : War Id} {t : War Id'}
    (h : Alike π s t) : Placed π s t where
  table := h.turn h.active 1
  leads := h.leadsTurn_iff h.active 1
  cards := h.flatMap_pile h.active 1

/-- Two rounds that take the same steps, with their comparisons after the
    first, before they update the game status. -/
inductive RoundsAlike (π : Id ≃ Id') (s : War Id) (t : War Id') :
    List (Comparison Id) → War Id → List (Comparison Id') → War Id' →
    Prop where
  | sole {w : Id} :
      RoundsAlike π s t []
        { payOut w (placedCards s) (afterPlacing s) with
          roundWinner := some w }
        []
        { payOut (π w) (placedCards t) (afterPlacing t) with
          roundWinner := some (π w) }
  | war {holders : List Id} {holders' : List Id'}
      {cs : List (Comparison Id)} {cs' : List (Comparison Id')}
      {e : WarExit Id} {e' : WarExit Id'}
      (hlead : ∀ id, id ∈ holders ↔ LeadsRound s id)
      (hwars : WarsAlike π holders (placedCards s) (afterPlacing s) cs e
        holders' (placedCards t) (afterPlacing t) cs' e')
      (hwon : e.thrown = none) (hwon' : e'.thrown = none) :
      RoundsAlike π s t cs e.state cs' e'.state
  | drawn {holders ids : List Id} {holders' ids' : List Id'}
      {cs : List (Comparison Id)} {cs' : List (Comparison Id')}
      {e : WarExit Id} {e' : WarExit Id'} {fuel fuel' : Nat} {a : War Id}
      {b : War Id'}
      (hlead : ∀ id, id ∈ holders ↔ LeadsRound s id)
      (hwars : WarsAlike π holders (placedCards s) (afterPlacing s) cs e
        holders' (placedCards t) (afterPlacing t) cs' e')
      (hthrown : e.thrown = some (.draw ids))
      (hthrown' : e'.thrown = some (.draw ids'))
      (hdeal : dealCards fuel { e.state with
          gameDeck := e.state.gameDeck.setDeckCards e.prizeCards }
        = .done a)
      (hdeal' : dealCards fuel' { e'.state with
          gameDeck := e'.state.gameDeck.setDeckCards e'.prizeCards }
        = .done b) :
      RoundsAlike π s t cs a cs' b

/-- Only rounds with a card to place return. -/
theorem live_of_done {s s' : War Id} (hwf : WellFormed s) {fuel : Nat}
    {o : Schedule Id} (h : startRound fuel o s = .done s') : Live s := by
  by_contra hnot
  rw [startRound_of_not_live hwf hnot fuel o] at h
  simp at h

section Rounds

variable {π : Id ≃ Id'} {s : War Id} {t : War Id'}

/-- The holders of the cards placed correspond. -/
theorem Placed.holders (h : Placed π s t) {holders : List Id}
    {holders' : List Id'} (hnd : holders.Nodup) (hnd' : holders'.Nodup)
    (hlead : ∀ id, id ∈ holders ↔ LeadsRound s id)
    (hlead' : ∀ id, id ∈ holders' ↔ LeadsRound t id) :
    Renamed π holders holders' :=
  Renamed.of_mem_iff hnd hnd' (fun id =>
    (hlead' _).trans ((h.leads id).trans (hlead id).symm))

/-- Exits of wars that run in lock-step are both thrown or both returned. -/
theorem WarsAlike.thrown_iff {ids : List Id} {ids' : List Id'}
    {P P' : List Card} {cs : List (Comparison Id)}
    {cs' : List (Comparison Id')} {e : WarExit Id} {e' : WarExit Id'}
    (h : WarsAlike π ids P s cs e ids' P' t cs' e') :
    e.thrown = none ↔ e'.thrown = none := by
  obtain ⟨u, u', -, -, -, ⟨w, hwon, hwon', -⟩ | ⟨ds, ds', hd, hd', -⟩⟩ :=
    h.exit
  · rw [hwon, hwon']
    exact ⟨fun _ => rfl, fun _ => rfl⟩
  · rw [hd, hd']
    constructor <;> intro hf <;> simp at hf

/-- **Rounds run in lock-step** once the cards have been placed alike. -/
theorem round_lockstep (h : Placed π s t) (hwf : WellFormed s)
    (hwf' : WellFormed t) {fuel fuel' : Nat} {o : Schedule Id}
    {o' : Schedule Id'} {s' : War Id} {t' : War Id'}
    (hrun : startRound fuel o s = .done s')
    (hrun' : startRound fuel' o' t = .done t') :
    ∃ rc rc' cs cs' a b, RoundsAlike π s t cs a cs' b ∧
      Records s 1 (active s) rc ∧ Records t 1 (active t) rc' ∧
      roundComparisons fuel o s = firstComparison s rc :: cs ∧
      roundComparisons fuel' o' t = firstComparison t rc' :: cs' ∧
      s' = a.updateGameStatus o.players ∧
      t' = b.updateGameStatus o'.players := by
  obtain ⟨rc, holders, hrc, hnd, hne, hlead, heq⟩ :=
    startRound_eq hwf (live_of_done hwf hrun) o
  obtain ⟨rc', holders', hrc', hnd', hne', hlead', heq'⟩ :=
    startRound_eq hwf' (live_of_done hwf' hrun') o'
  rw [(heq fuel).1] at hrun
  rw [(heq' fuel').1] at hrun'
  obtain ⟨a, ha, hs'⟩ := Outcome.bind_eq_done.mp hrun
  obtain ⟨b, hb, ht'⟩ := Outcome.bind_eq_done.mp hrun'
  have hids := h.holders hnd hnd' hlead hlead'
  refine ⟨rc, rc', _, _, a, b, ?_, hrc, hrc', (heq fuel).2, (heq' fuel').2,
    (Outcome.done.inj hs').symm, (Outcome.done.inj ht').symm⟩
  rcases settleRound_exit hwf hnd hne hlead ha with
    ⟨w, hw, haw⟩ | ⟨htwo, e, hwar, hexit⟩
  · rcases settleRound_exit hwf' hnd' hne' hlead' hb with
      ⟨w', hw', hbw⟩ | ⟨htwo', -⟩
    · subst hw
      subst hw'
      have hmem := (hids.mem_iff w).mpr (List.mem_singleton.mpr rfl)
      have hww : π w = w' := List.mem_singleton.mp hmem
      rw [haw, hbw, ← hww]
      exact .sole
    · rw [hids.length_eq, hw] at htwo'
      exact absurd htwo' (by simp)
  · rcases settleRound_exit hwf' hnd' hne' hlead' hb with
      ⟨w', hw', -⟩ | ⟨-, e', hwar', hexit'⟩
    · rw [← hids.length_eq, hw'] at htwo
      exact absurd htwo (by simp)
    · have hwars := war_lockstep hwar h.table hids hwar'
      have hboth := hwars.thrown_iff
      rcases hexit with ⟨hwon, haw⟩ | ⟨ds, hthrown, hdeal⟩
      · rcases hexit' with ⟨hwon', hbw⟩ | ⟨ds', hthrown', -⟩
        · rw [haw, hbw]
          exact .war hlead hwars hwon hwon'
        · rw [hboth.mp hwon] at hthrown'
          simp at hthrown'
      · rcases hexit' with ⟨hwon', -⟩ | ⟨ds', hthrown', hdeal'⟩
        · rw [hboth.mpr hwon'] at hthrown
          simp at hthrown
        · exact .drawn hlead hwars hthrown hthrown' hdeal hdeal'

/-- **One round returns when the other does**: a draw of both leaves
    corresponding players in the game. -/
theorem returns_of_placed (h : Placed π s t) (hwf : WellFormed s)
    (hwf' : WellFormed t) {fuel : Nat} {o : Schedule Id} {s' : War Id}
    (hrun : startRound fuel o s = .done s') (o' : Schedule Id') :
    ∃ fuel' t', startRound fuel' o' t = .done t' := by
  have hlive : Live t := by
    obtain ⟨rc, holders, -, -, hne, hlead, -⟩ :=
      startRound_eq hwf (live_of_done hwf hrun) o
    obtain ⟨id, hid⟩ := List.exists_mem_of_ne_nil holders hne
    obtain ⟨hact, card, hcard, -⟩ :=
      (h.leads id).mpr ((hlead id).mp hid)
    exact live_iff_stand.mpr
      ⟨π id, hact, (shows_isSome Nat.zero_lt_one).mp ⟨card, hcard⟩⟩
  refine startRound_returns hwf' hlive o' ?_
  intro holders' cs' e' ds' hnd' htwo' hlead' hwar' hthrown'
  obtain ⟨a, hround, -⟩ := startRound_inv hwf hrun
  generalize roundComparisons fuel o s = cs₀ at hround
  cases hround with
  | @sole rc w hrc hlead =>
      -- a sole leader of the one is a sole leader of the other
      refine (not_sole hnd' htwo' (w := π w) hlead' (fun id' hid' => ?_)).elim
      have hback : LeadsRound t (π (π.symm id')) := by
        rw [π.apply_symm_apply]
        exact hid'
      rw [← (hlead _).mp ((h.leads _).mp hback), π.apply_symm_apply]
  | @war rc holders cs e hrc hnd htwo hlead hwar hwon =>
      have hwars := war_lockstep hwar h.table
        (h.holders hnd hnd' hlead hlead') hwar'
      rw [hwars.thrown_iff.mp hwon] at hthrown'
      simp at hthrown'
  | @drawn rc holders ds cs e a share hrc hnd htwo hlead hwar hthrown hleft
      hdealt =>
      have hwars := war_lockstep hwar h.table
        (h.holders hnd hnd' hlead hlead') hwar'
      obtain ⟨id, hin⟩ := hleft
      obtain ⟨u, u', halike, -, -, ⟨w, hwon, -⟩ | ⟨_, _, -, -, hu, hu'⟩⟩ :=
        hwars.exit
      · rw [hwon] at hthrown
        simp at hthrown
      · refine ⟨π id, ?_⟩
        rw [hu']
        rw [hu] at hin
        exact (halike.inGame_eq id).trans hin

/-! ## How rounds in lock-step are settled -/

/-- The same player wins both rounds, or the cards of both are dealt again, on
    tables that are alike; `R` relates the prize cards. -/
inductive Settled (π : Id ≃ Id') (R : List Card → List Card → Prop)
    (s : War Id) (t : War Id') : War Id → War Id' → Prop where
  | won {u : War Id} {u' : War Id'} {P P' : List Card} {w : Id}
      (h : Alike π u u') (hR : R P P') (hkept : Kept s u)
      (hkept' : Kept t u') :
      Settled π R s t { payOut w P u with roundWinner := some w }
        { payOut (π w) P' u' with roundWinner := some (π w) }
  | dealt {u : War Id} {u' : War Id'} {P P' : List Card} {fuel fuel' : Nat}
      {a : War Id} {b : War Id'}
      (h : Alike π u u') (hR : R P P') (hkept : Kept s u)
      (hkept' : Kept t u')
      (hdeal : dealCards fuel (drawnTable u P) = .done a)
      (hdeal' : dealCards fuel' (drawnTable u' P') = .done b) :
      Settled π R s t a b

/-- What is made of the exit of a war: nothing, or its cards are dealt. -/
inductive Closed (e : WarExit Id) : War Id → Prop where
  | won (hwon : e.thrown = none) : Closed e e.state
  | dealt {ids : List Id} {fuel : Nat} {a : War Id}
      (hthrown : e.thrown = some (.draw ids))
      (hdeal : dealCards fuel { e.state with
          gameDeck := e.state.gameDeck.setDeckCards e.prizeCards }
        = .done a) : Closed e a

/-- Wars in lock-step settle their rounds alike. -/
theorem WarsAlike.settled {holders : List Id} {holders' : List Id'}
    {cs : List (Comparison Id)} {cs' : List (Comparison Id')}
    {e : WarExit Id} {e' : WarExit Id'} {a : War Id} {b : War Id'}
    (h : WarsAlike π holders (placedCards s) (afterPlacing s) cs e
      holders' (placedCards t) (afterPlacing t) cs' e')
    {R : List Card → List Card → Prop} (hR : R e.prizeCards e'.prizeCards)
    (ha : Closed e a) (hb : Closed e' b) : Settled π R s t a b := by
  have hplace : Kept s (afterPlacing s) := Kept.turn 1 (active s) s
  have hplace' : Kept t (afterPlacing t) := Kept.turn 1 (active t) t
  obtain ⟨u, u', halike, hkept, hkept',
    ⟨w, hnone, hnone', hu, hu'⟩ | ⟨ds, ds', hd, hd', hu, hu'⟩⟩ := h.exit
  · cases ha with
    | dealt hthrown hdeal => rw [hnone] at hthrown; simp at hthrown
    | won hwon =>
        cases hb with
        | dealt hthrown' hdeal' => rw [hnone'] at hthrown'; simp at hthrown'
        | won hwon' =>
            rw [hu, hu']
            exact .won halike hR (hplace.trans hkept) (hplace'.trans hkept')
  · cases ha with
    | won hwon => rw [hd] at hwon; simp at hwon
    | dealt hthrown hdeal =>
        cases hb with
        | won hwon' => rw [hd'] at hwon'; simp at hwon'
        | dealt hthrown' hdeal' =>
            rw [hu] at hdeal
            rw [hu'] at hdeal'
            exact .dealt halike hR (hplace.trans hkept)
              (hplace'.trans hkept') hdeal hdeal'

theorem RoundsAlike.settled {cs : List (Comparison Id)} {a : War Id}
    {cs' : List (Comparison Id')} {b : War Id'}
    (h : RoundsAlike π s t cs a cs' b) (hplaced : Placed π s t)
    {R : List Card → List Card → Prop}
    (hR : R (placedCards s) (placedCards t))
    (hwar : ∀ {holders : List Id} {holders' : List Id'}
      {cs : List (Comparison Id)} {cs' : List (Comparison Id')}
      {e : WarExit Id} {e' : WarExit Id'},
      (∀ id, id ∈ holders ↔ LeadsRound s id) →
      WarsAlike π holders (placedCards s) (afterPlacing s) cs e
        holders' (placedCards t) (afterPlacing t) cs' e' →
      R e.prizeCards e'.prizeCards) :
    Settled π R s t a b := by
  cases h with
  | sole =>
      exact .won hplaced.table hR (Kept.turn 1 (active s) s)
        (Kept.turn 1 (active t) t)
  | war hlead hwars hwon hwon' =>
      exact hwars.settled (hwar hlead hwars) (.won hwon) (.won hwon')
  | drawn hlead hwars hthrown hthrown' hdeal hdeal' =>
      exact hwars.settled (hwar hlead hwars) (.dealt hthrown hdeal)
        (.dealt hthrown' hdeal')

theorem RoundsAlike.playedIn_eq {cs : List (Comparison Id)} {a : War Id}
    {cs' : List (Comparison Id')} {b : War Id'}
    (h : RoundsAlike π s t cs a cs' b) (id : Id) :
    playedIn cs' (π id) = playedIn cs id := by
  cases h with
  | sole => rfl
  | war hlead hwars hwon hwon' => exact hwars.playedIn_eq id
  | drawn hlead hwars hthrown hthrown' hdeal hdeal' =>
      exact hwars.playedIn_eq id

namespace Settled

variable {R : List Card → List Card → Prop} {a : War Id} {b : War Id'}

theorem inGame_eq (h : Settled π R s t a b) (id : Id) :
    inGame b (π id) = inGame a id := by
  cases h with
  | @won u u' P P' w h hR hkept hkept' =>
      show inGame (payOut (π w) P' u') (π id) = inGame (payOut w P u) id
      rw [inGame_payOut, inGame_payOut]
      exact h.inGame_eq id
  | dealt h hR hkept hkept' hdeal hdeal' =>
      obtain ⟨share, hdealt⟩ := dealCards_dealt hdeal
      obtain ⟨share', hdealt'⟩ := dealCards_dealt hdeal'
      rw [hdealt.inGame_eq, hdealt'.inGame_eq]
      exact h.inGame_eq id

theorem isOut_eq (h : Settled π R s t a b) (id : Id) :
    isOut b (π id) = isOut a id := by
  cases h with
  | @won u u' P P' w h hR hkept hkept' =>
      show isOut (payOut (π w) P' u') (π id) = isOut (payOut w P u) id
      rw [isOut_payOut, isOut_payOut]
      exact h.isOut_eq id
  | dealt h hR hkept hkept' hdeal hdeal' =>
      obtain ⟨share, hdealt⟩ := dealCards_dealt hdeal
      obtain ⟨share', hdealt'⟩ := dealCards_dealt hdeal'
      rw [isOut_dealt hdealt, isOut_dealt hdealt']
      exact h.isOut_eq id

theorem roundWinner_eq (h : Settled π R s t a b) :
    b.roundWinner = a.roundWinner.map π := by
  cases h with
  | won h hR hkept hkept' => rfl
  | dealt h hR hkept hkept' hdeal hdeal' =>
      obtain ⟨share, hdealt⟩ := dealCards_dealt hdeal
      obtain ⟨share', hdealt'⟩ := dealCards_dealt hdeal'
      rw [hdealt.state, hdealt'.state]
      rfl

/-- Whoever does not win keeps the same hand. -/
theorem hand_eq (h : Settled π R s t a b) {w : Id}
    (hw : a.roundWinner = some w) {id : Id} (hne : id ≠ w) :
    hand b (π id) = hand a id := by
  cases h with
  | @won u u' P P' w' h hR hkept hkept' =>
      have hww : w' = w := Option.some.inj hw
      subst hww
      have hne' : π id ≠ π w' := fun heq => hne (π.injective heq)
      show hand (payOut (π w') P' u') (π id) = hand (payOut w' P u) id
      rw [hand_payOut_of_ne P u hne, hand_payOut_of_ne P' u' hne']
      exact h.hand_eq id
  | dealt h hR hkept hkept' hdeal hdeal' =>
      obtain ⟨share, hdealt⟩ := dealCards_dealt hdeal
      rw [hdealt.state] at hw
      cases hw

end Settled

/-- As many players are left in tables where the same are in the game. -/
theorem length_survivors_eq (h : ∀ id, inGame t (π id) = inGame s id) :
    (survivors t).length = (survivors s).length := by
  have hids : Renamed π (survivors s) (survivors t) :=
    Renamed.of_mem_iff (nodup_survivors s) (nodup_survivors t)
      (fun id => by rw [mem_survivors, mem_survivors, h id])
  exact hids.length_eq

end Rounds

end Lockstep
