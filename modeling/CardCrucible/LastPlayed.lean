import CardCrucible.Draws

/-! # Last cards — what the tie-breaker compares

    `lastPlayedCard` is written when a card is placed, in both kinds of war and
    when a player comes up short in a complete war.  In a turn it becomes the
    last card of the pile put down, if there is one; so over the comparisons of
    a round it is the last card of all a player put down in that round.  Those
    who lead a comparison show cards of one rank, and the players of a draw are
    those who led the last comparison in which cards were put down. -/

namespace LastPlayed

open Outcomes Arrangements Dictionaries CardModel DeckModel PlayerModel
open WarModel WarModel.War WarState WarTurn Comparisons WarRuns Spending
open Dealing Rounds GameStatus RoundLaws Games Draws Lifecycle

variable {Id : Type} [LinearOrder Id]

/-! ## One step -/

/-- **A turn** plays the last card of its pile, if it has one. -/
theorem lastPlayed_recorded {s : War Id} {need : Nat} {ids : List Id}
    {rc : Dictionary Id (List Card)} (hrc : Records s need ids rc) (id : Id) :
    lastPlayed (turn need ids s) id
      = (rc.getD id []).getLast?.or (lastPlayed s id) := by
  simp only [lastPlayed]
  rw [tournamentPlayer?_turn]
  by_cases hid : id ∈ ids
  · rw [hrc.pile id hid]
    cases hp : s.tournamentPlayer? id with
    | none =>
        simp only [pile]
        rw [hand_of_none hp, List.take_nil]
        rfl
    | some p =>
        rw [pile_of_some hp, Option.map_some, if_pos hid]
        rfl
  · rw [hrc.none id hid]
    cases s.tournamentPlayer? id with
    | none => rfl
    | some p =>
        rw [Option.map_some, if_neg hid]
        rfl

/-- A turn without a card plays none. -/
theorem lastPlayed_turn_of_empty {s : War Id} {need : Nat} {ids : List Id}
    (hempty : ∀ id ∈ ids, hand s id = []) (id : Id) :
    lastPlayed (turn need ids s) id = lastPlayed s id := by
  simp only [lastPlayed]
  rw [tournamentPlayer?_turn]
  cases hp : s.tournamentPlayer? id with
  | none => rfl
  | some p =>
      by_cases hid : id ∈ ids
      · have hnil : p.cards = [] := by
          rw [← hand_of_some hp]
          exact hempty id hid
        rw [Option.map_some, if_pos hid]
        show (p.cards.take need).getLast?.or p.lastPlayedCard
          = p.lastPlayedCard
        rw [hnil, List.take_nil]
        rfl
      · rw [Option.map_some, if_neg hid]

theorem lastPlayed_payOut (w : Id) (cards : List Card) (s : War Id) (id : Id) :
    lastPlayed (payOut w cards s) id = lastPlayed s id := by
  simp only [lastPlayed, payOut]
  rw [tournamentPlayer?_updatePlayers]
  cases s.tournamentPlayer? id with
  | none => rfl
  | some p =>
      by_cases hid : id = w
      · rw [Option.map_some, if_pos hid]
        rfl
      · rw [Option.map_some, if_neg hid]

theorem lastPlayed_dealt {s s' : War Id} {share : Id → List Card}
    {rest : List Card} (h : Dealt s s' share rest) (id : Id) :
    lastPlayed s' id = lastPlayed s id := by
  simp only [lastPlayed]
  rw [h.tournamentPlayer? id]
  cases s.tournamentPlayer? id <;> rfl

/-! ## Wars and rounds -/

/-- **Over a war** the last card played is the last of all cards put down in
    it. -/
theorem lastPlayed_war {holders : List Id} {prizeCards : List Card}
    {s : War Id} {cs : List (Comparison Id)} {e : WarExit Id}
    (hrun : WarRun holders prizeCards s cs e) (id : Id) :
    lastPlayed e.state id
      = (playedIn cs id).getLast?.or (lastPlayed s id) := by
  induction hrun with
  | drawn hempty => exact lastPlayed_turn_of_empty hempty id
  | won hrc hlead =>
      rw [playedIn_cons, playedIn_nil, List.append_nil]
      exact (lastPlayed_payOut _ _ _ id).trans (lastPlayed_recorded hrc id)
  | again hrc hnd htwo hlead hrest ih =>
      have hstep := lastPlayed_recorded hrc id
      rw [ih, playedIn_cons, List.getLast?_append, Option.or_assoc]
      exact congrArg (Option.or _) hstep

/-- **Over a round** it is the last of all cards put down in the round. -/
theorem lastPlayed_round {s t : War Id} {cs : List (Comparison Id)}
    (hrun : RoundRun s cs t) (id : Id) :
    lastPlayed t id = (playedIn cs id).getLast?.or (lastPlayed s id) := by
  -- the cards placed, then those of the war
  have hjoin : ∀ {rc : Dictionary Id (List Card)} {holders : List Id}
      {cs : List (Comparison Id)} {e : WarExit Id},
      Records s 1 (active s) rc →
      WarRun holders (placedCards s) (afterPlacing s) cs e →
      lastPlayed e.state id
        = (playedIn (firstComparison s rc :: cs) id).getLast?.or
            (lastPlayed s id) := by
    intro rc holders cs e hrc hwar
    rw [lastPlayed_war hwar, playedIn_cons, List.getLast?_append,
      Option.or_assoc]
    exact congrArg (Option.or _) (lastPlayed_recorded hrc id)
  cases hrun with
  | sole hrc hlead =>
      rw [playedIn_cons, playedIn_nil, List.append_nil]
      exact (lastPlayed_payOut _ _ _ id).trans (lastPlayed_recorded hrc id)
  | war hrc hnd htwo hlead hwar hwon => exact hjoin hrc hwar
  | drawn hrc hnd htwo hlead hwar hthrown hleft hdealt =>
      exact (lastPlayed_dealt hdealt id).trans (hjoin hrc hwar)

/-! ## The cards of a draw -/

/-- All players of a list have a last card, of one rank. -/
def SameRank (s : War Id) (ids : List Id) (r : Rank) : Prop :=
  ∀ id ∈ ids, ∃ c, lastPlayed s id = some c ∧ c.rank = r

/-- Whoever shows a card in a turn has played it. -/
theorem lastPlayed_of_show {s : War Id} {need : Nat} (hneed : 0 < need)
    {ids : List Id} {rc : Dictionary Id (List Card)}
    (hrc : Records s need ids rc) {id : Id} (hid : id ∈ ids) {c : Card}
    (h : shows s need id = some c) :
    lastPlayed (turn need ids s) id = some c := by
  have hlen := (shows_isSome hneed).mp ⟨c, h⟩
  simp only [shows] at h
  rw [lastPlayed_recorded hrc, hrc.pile id hid]
  simp only [pile]
  rw [List.getLast?_take, if_neg (by omega), h]
  rfl

/-- Those who lead a turn have played cards of one rank. -/
theorem sameRank_of_leads {s : War Id} {need : Nat} (hneed : 0 < need)
    {ids next : List Id} {rc : Dictionary Id (List Card)}
    (hrc : Records s need ids rc)
    (hlead : ∀ id, id ∈ next ↔ LeadsTurn s need ids id) :
    ∃ r, SameRank (turn need ids s) next r := by
  cases next with
  | nil =>
      refine ⟨.two, fun id hid => ?_⟩
      simp at hid
  | cons a rest =>
      obtain ⟨ha, c, hc, hmax⟩ := (hlead a).mp List.mem_cons_self
      refine ⟨c.rank, fun id hid => ?_⟩
      obtain ⟨hid', d, hd, hmax'⟩ := (hlead id).mp hid
      exact ⟨d, lastPlayed_of_show hneed hrc hid' hd,
        le_antisymm (hmax id hid' d hd) (hmax' a ha c hc)⟩

/-- **A draw** is among players whose last cards have one rank, if those of the
    holders had. -/
theorem sameRank_of_draw {holders : List Id} {prizeCards : List Card}
    {s : War Id} {cs : List (Comparison Id)} {e : WarExit Id}
    (hrun : WarRun holders prizeCards s cs e) :
    ∀ {ids : List Id}, (∃ r, SameRank s holders r) →
      e.thrown = some (.draw ids) → ∃ r, SameRank e.state ids r := by
  induction hrun with
  | drawn hempty =>
      rintro ids ⟨r, hr⟩ he
      have hids : _ = ids := GameEvent.draw.inj (Option.some.inj he)
      subst hids
      refine ⟨r, fun id hid => ?_⟩
      obtain ⟨c, hc, hcr⟩ := hr id hid
      exact ⟨c, (lastPlayed_turn_of_empty hempty id).trans hc, hcr⟩
  | won hrc hlead => intro ids _ he; cases he
  | again hrc hnd htwo hlead hrest ih =>
      intro ids _ he
      exact ih (sameRank_of_leads (warSize_pos _ _) hrc hlead) he

/-! ## The cards compared -/

/-- Whoever places a card puts down cards in the round. -/
theorem exists_last_of_placer {s : War Id} {rc : Dictionary Id (List Card)}
    (hrc : Records s 1 (active s) rc) (cs : List (Comparison Id)) {id : Id}
    (hin : inGame s id = true) (hne : hand s id ≠ []) :
    ∃ c, (playedIn (firstComparison s rc :: cs) id).getLast? = some c := by
  have hpile : rc.getD id [] = (hand s id).take 1 :=
    hrc.pile id (mem_active.mpr hin)
  have hplayed : playedIn (firstComparison s rc :: cs) id ≠ [] := by
    rw [playedIn_cons]
    show rc.getD id [] ++ playedIn cs id ≠ []
    rw [hpile]
    intro hnil
    rcases List.take_eq_nil_iff.mp (List.append_eq_nil_iff.mp hnil).1 with h | h
    · exact absurd h (by omega)
    · exact hne h
  exact ⟨_, List.getLast?_eq_getLast_of_ne_nil hplayed⟩

/-- The draw of a round goes to its handler with the state of its exit. -/
theorem startRound_of_draw {s : War Id} (hwf : WellFormed s) {fuel : Nat}
    {o : Schedule Id} {exit : WarExit Id}
    (hwar : roundWar fuel o s = .done (some exit)) {ids : List Id}
    (hthrown : exit.thrown = some (.draw ids)) :
    startRound fuel o s
      = (handleDraw fuel o ids exit.prizeCards exit.state >>= fun t =>
          .done (t.updateGameStatus o.players)) := by
  obtain ⟨rc, holders, -, -, htwo, -, hrun, -, -, hround⟩ :=
    roundWar_inv hwf hwar
  have hmany : ∀ w, holders ≠ [w] := by
    intro w hw
    rw [hw] at htwo
    exact absurd htwo (by simp)
  rw [hround, settleRound_war hmany, hrun, Outcome.done_bind]
  simp only [hthrown]

/-- The cards compared in the handler of a draw. -/
theorem draw_cards {s : War Id} (hwf : WellFormed s) {fuel : Nat}
    {o : Schedule Id} {exit : WarExit Id}
    (hwar : roundWar fuel o s = .done (some exit)) {ids : List Id}
    (hthrown : exit.thrown = some (.draw ids)) :
    ∃ r, ∀ id ∈ ids, ∃ c, lastPlayed exit.state id = some c ∧ c.rank = r ∧
      (playedIn (roundComparisons fuel o s) id).getLast? = some c ∧
      hand s id
        = playedIn (roundComparisons fuel o s) id ++ hand exit.state id := by
  obtain ⟨rc, holders, hrc, hnd, htwo, hlead, -, hrun, hcs, -⟩ :=
    roundWar_inv hwf hwar
  have hholders := holders_first hnd hlead
  obtain ⟨r, hr⟩ := sameRank_of_draw hrun
    (sameRank_of_leads Nat.zero_lt_one hrc hlead) hthrown
  obtain ⟨t, hspent⟩ := warSpent hrun hholders
  obtain ⟨hputs, -⟩ := spent_war hrc hlead hspent
  have hstate := hspent.of_thrown hthrown
  refine ⟨r, fun id hid => ?_⟩
  obtain ⟨c, hc, hcr⟩ := hr id hid
  obtain ⟨hact, d, hd, -⟩ :=
    (hlead id).mp ((drawFacts hrun hholders htwo hthrown).sub id hid)
  have hne : hand s id ≠ [] := by
    have hlen := (shows_isSome Nat.zero_lt_one).mp ⟨d, hd⟩
    exact List.length_pos_iff.mp hlen
  obtain ⟨c', hc'⟩ := exists_last_of_placer hrc
    (laterComparisons fuel o holders s) (mem_active.mp hact) hne
  -- the cards of the round replace whatever was played before
  have hlast : lastPlayed exit.state id = some c' := by
    rw [playedIn_cons, List.getLast?_append] at hc'
    rw [lastPlayed_war hrun id,
      show lastPlayed (afterPlacing s) id = _ from
        lastPlayed_recorded hrc id, ← Option.or_assoc]
    rw [show (rc.getD id []).getLast?
      = ((firstComparison s rc).piles.getD id []).getLast? from rfl, hc']
    rfl
  have hsame : c = c' := Option.some.inj (hc.symm.trans hlast)
  subst hsame
  refine ⟨c, hc, hcr, by rw [hcs]; exact hc', ?_⟩
  rw [hcs, hstate]
  exact hputs.hand_eq id

/-- The last cards after a round that returns. -/
theorem round_cards {s s' : War Id} (hwf : WellFormed s) {fuel : Nat}
    {o : Schedule Id} (h : startRound fuel o s = .done s') {id : Id}
    (hin : inGame s id = true) (hne : hand s id ≠ []) :
    ∃ c, lastPlayed s' id = some c ∧
      (playedIn (roundComparisons fuel o s) id).getLast? = some c ∧
      playedIn (roundComparisons fuel o s) id <+: hand s id := by
  obtain ⟨t, hrun, hs'⟩ := startRound_inv hwf h
  obtain ⟨u, prizeCards, hspent⟩ := roundSpent hrun
  obtain ⟨b, hb⟩ := updateGameStatus_frame o.players t
  have hlast : lastPlayed s' id
      = (playedIn (roundComparisons fuel o s) id).getLast?.or
          (lastPlayed s id) := by
    rw [hs', hb]
    exact lastPlayed_round hrun id
  have hsome : ∃ c, (playedIn (roundComparisons fuel o s) id).getLast?
      = some c := by
    generalize roundComparisons fuel o s = cs at hrun
    cases hrun with
    | sole hrc hlead => exact exists_last_of_placer hrc _ hin hne
    | war hrc hnd htwo hlead hwar hwon =>
        exact exists_last_of_placer hrc _ hin hne
    | drawn hrc hnd htwo hlead hwar hthrown hleft hdealt =>
        exact exists_last_of_placer hrc _ hin hne
  obtain ⟨c, hc⟩ := hsome
  refine ⟨c, ?_, hc, hspent.spent.prefix_hand id⟩
  rw [hlast, hc]
  rfl

/-- **The tie-breaker compares the right cards**: at the catch of a draw the
    last card of each of its players is the last of the prefix of its hand it
    has put down in the round, all of one rank; and after every round that
    returns the same is so of all who placed a card. -/
theorem tie_breaker_cards {s : War Id} (hwf : WellFormed s) (fuel : Nat)
    (o : Schedule Id) :
    (∀ exit ids, roundWar fuel o s = .done (some exit) →
      exit.thrown = some (.draw ids) →
      startRound fuel o s
          = (handleDraw fuel o ids exit.prizeCards exit.state >>= fun t =>
              .done (t.updateGameStatus o.players)) ∧
        ∃ r, ∀ id ∈ ids, ∃ c, lastPlayed exit.state id = some c ∧ c.rank = r ∧
          (playedIn (roundComparisons fuel o s) id).getLast? = some c ∧
          hand s id
            = playedIn (roundComparisons fuel o s) id
                ++ hand exit.state id) ∧
      ∀ s', startRound fuel o s = .done s' →
        ∀ id, inGame s id = true → hand s id ≠ [] →
          ∃ c, lastPlayed s' id = some c ∧
            (playedIn (roundComparisons fuel o s) id).getLast? = some c ∧
            playedIn (roundComparisons fuel o s) id <+: hand s id := by
  refine ⟨?_, fun s' h id hin hne => round_cards hwf h hin hne⟩
  intro exit ids hwar hthrown
  exact ⟨startRound_of_draw hwf hwar hthrown, draw_cards hwf hwar hthrown⟩

theorem tie_breaker_cards_three :
    ∃ w d exit, War.init 2 (stacked drawDeck drawDeck_perm) 1 = .done w ∧
      dealCards 60 (w.addPlayers threeSeats) = .done d ∧
      roundWar 60 inOrder d = .done (some exit) ∧
      ∃ r, ∀ id ∈ ["B", "C"], ∃ c,
        lastPlayed exit.state id = some c ∧ c.rank = r ∧
        (playedIn (roundComparisons 60 inOrder d) id).getLast? = some c := by
  have hgame : ∃ w, War.init 2 (stacked drawDeck drawDeck_perm) 1 = .done w ∧
      ∃ d, dealCards 60 (w.addPlayers threeSeats) = .done d ∧ WellFormed d ∧
      ∃ exit, roundWar 60 inOrder d = .done (some exit) ∧
        exit.thrown = some (.draw ["B", "C"]) := by
    decide +kernel
  obtain ⟨w, hinit, d, hdeal, hwf, exit, hwar, hthrown⟩ := hgame
  obtain ⟨-, r, hr⟩ :=
    (tie_breaker_cards hwf 60 inOrder).1 exit ["B", "C"] hwar hthrown
  refine ⟨w, d, exit, hinit, hdeal, hwar, r, fun id hid => ?_⟩
  obtain ⟨c, hc, hcr, hlast, -⟩ := hr id hid
  exact ⟨c, hc, hcr, hlast⟩

end LastPlayed
