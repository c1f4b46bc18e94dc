import CardCrucible.Lifecycle
import CardCrucible.Twins

/-! # Snapshots — a game goes on from copies of its players

    The copy of a player is in the game again and has not played a card.  At
    the boundary of a round both are redundant: an eliminated player has no
    cards, so the next `placeCards` eliminates its copy before any other loop
    runs, and `lastPlayedCard` is only read of players who have played since.
    The first round on copies leaves the twin of what it would have left. -/

namespace Snapshots

open Outcomes Arrangements Dictionaries CardModel DeckModel PlayerModel
open WarModel WarModel.War WarState WarTurn Comparisons WarRuns Spending
open Dealing Rounds GameStatus RoundLaws Conservation Games Standings Twins
open Lifecycle

variable {Id : Type} [LinearOrder Id]

/-- Every player replaced by its copy. -/
def snapshot (s : War Id) : War Id := updatePlayers s (fun _ p => p.copy)

/-- `t` is a twin of `s`, except that players eliminated without a card may be
    in the game. -/
structure Restored (s t : War Id) : Prop where
  keys_eq : t.players.keys = s.players.keys
  standing_eq : ∀ id, standing t id = standing s id ∨
    standing s id = some ([], true) ∧ standing t id = some ([], false)
  decks_eq : t.gameDeck.decks = s.gameDeck.decks
  roundWinner_eq : t.roundWinner = s.roundWinner
  gameover_eq : t.gameover = s.gameover

theorem restored_of_twin {s t : War Id} (h : Twin s t) : Restored s t :=
  { h with standing_eq := fun id => Or.inl (h.standing_eq id) }

omit [LinearOrder Id] in
theorem wellFormed_snapshot {s : War Id} (h : WellFormed s) :
    WellFormed (snapshot s) := h.updatePlayers (fun _ _ => rfl)

/-- **Copies are restored** if the eliminated players have no cards. -/
theorem restored_snapshot {s : War Id}
    (hout : ∀ id, isOut s id = true → hand s id = []) :
    Restored s (snapshot s) where
  keys_eq := keys_updatePlayers ..
  standing_eq := by
    intro id
    have hcopy : standing (snapshot s) id
        = (standing s id).map (fun x => (x.1, false)) :=
      standing_updatePlayers (g := fun _ x => (x.1, false))
        (fun _ _ => rfl) s id
    have hid := hout id
    rw [isOut_of_standing, hand_of_standing] at hid
    rw [hcopy]
    cases hx : standing s id with
    | none => exact Or.inl rfl
    | some x =>
        obtain ⟨cards, out⟩ := x
        rw [hx] at hid
        cases out with
        | false => exact Or.inl rfl
        | true =>
            have hnil : cards = [] := hid rfl
            rw [hnil]
            exact Or.inr ⟨rfl, rfl⟩
  decks_eq := rfl
  roundWinner_eq := rfl
  gameover_eq := rfl

/-! ## Placing the cards -/

/-- The players without a card add nothing to the cards placed. -/
theorem flatMap_placers (s : War Id) :
    (placers s).flatMap (pile s 1) = placedCards s := by
  refine flatMap_filter_of_nil (fun id hid => ?_) (active s)
  have hempty : (pile s 1 id).isEmpty = true := by
    rw [Bool.false_or, Bool.not_eq_false'] at hid
    exact hid
  exact List.isEmpty_iff.mp hempty

namespace Restored

variable {s t : War Id}

theorem hand_eq (h : Restored s t) (id : Id) : hand t id = hand s id := by
  rw [hand_of_standing, hand_of_standing]
  rcases h.standing_eq id with heq | ⟨hs, ht⟩
  · rw [heq]
  · rw [hs, ht]
    rfl

theorem pile_eq (h : Restored s t) (need : Nat) : pile t need = pile s need := by
  funext id
  simp only [pile]
  rw [h.hand_eq id]

/-- The same players are in the game with a card. -/
theorem inGame_with_card (h : Restored s t) (id : Id) (hne : hand s id ≠ []) :
    inGame t id = inGame s id := by
  rw [inGame_of_standing, inGame_of_standing]
  rcases h.standing_eq id with heq | ⟨hs, -⟩
  · rw [heq]
  · rw [hand_of_standing, hs] at hne
    exact absurd rfl hne

/-- The same players place a card, in the same order. -/
theorem placers_eq (h : Restored s t) (hwf : WellFormed s)
    (hwf' : WellFormed t) : placers t = placers s := by
  simp only [placers, recordedIds]
  rw [active_eq hwf, active_eq hwf', h.keys_eq, h.pile_eq,
    List.filter_filter, List.filter_filter]
  refine List.filter_congr (fun id _ => ?_)
  simp only [pile]
  cases hcards : hand s id with
  | nil => rfl
  | cons c cs =>
      have hne : hand s id ≠ [] := by
        rw [hcards]
        exact List.cons_ne_nil c cs
      rw [h.inGame_with_card id hne]

/-- So the same cards are placed. -/
theorem placedCards_eq (h : Restored s t) (hwf : WellFormed s)
    (hwf' : WellFormed t) : placedCards t = placedCards s := by
  rw [← flatMap_placers s, ← flatMap_placers t, h.placers_eq hwf hwf',
    h.pile_eq]

/-- **After placing** the tables are twins: whoever was restored without a
    card is out again. -/
theorem afterPlacing (h : Restored s t) :
    Twin (afterPlacing s) (afterPlacing t) where
  keys_eq := by
    show (turn 1 (active t) t).players.keys = (turn 1 (active s) s).players.keys
    rw [keys_turn, keys_turn, h.keys_eq]
  standing_eq := by
    intro id
    show standing (turn 1 (active t) t) id = standing (turn 1 (active s) s) id
    rw [standing_turn, standing_turn]
    simp only [mem_active]
    rw [inGame_of_standing t, inGame_of_standing s]
    rcases h.standing_eq id with heq | ⟨hs, ht⟩
    · rw [heq]
    · rw [hs, ht]
      rfl
  decks_eq := h.decks_eq
  roundWinner_eq := h.roundWinner_eq
  gameover_eq := h.gameover_eq

end Restored

/-! ## Rounds -/

/-- **Settling on twins**, in the same iteration orders. -/
theorem settleRound_twin {s t : War Id}
    (h : Twin (afterPlacing s) (afterPlacing t))
    (hcards : placedCards t = placedCards s) (hwf : WellFormed s)
    (hwf' : WellFormed t) {holders : List Id} (hnd : holders.Nodup)
    (hne : holders ≠ []) (hlead : ∀ id, id ∈ holders ↔ LeadsRound s id)
    (hlead' : ∀ id, id ∈ holders ↔ LeadsRound t id) (fuel : Nat)
    (o : Schedule Id) :
    (settleRound fuel o holders (placedCards s) (afterPlacing s)).Rel Twin
      (settleRound fuel o holders (placedCards t) (afterPlacing t)) := by
  by_cases hone : ∃ w, holders = [w]
  · obtain ⟨w, hw⟩ := hone
    subst hw
    have hmem : w ∈ [w] := List.mem_singleton.mpr rfl
    rw [settleRound_sole hwf ((hlead w).mp hmem),
      settleRound_sole hwf' ((hlead' w).mp hmem), hcards]
    exact .done ((h.payOut w _).named (some w))
  · have hmany : ∀ w, holders ≠ [w] := fun w hw => hone ⟨w, hw⟩
    have htwo := length_two_le hne hmany
    have hh := holders_first hnd hlead
    have hh' := holders_first hnd hlead'
    have hwfa := hwf.turn 1 (active s)
    have hwfa' := hwf'.turn 1 (active t)
    have hwar := war_twin o fuel 0 holders (placedCards s) _ _ hwfa hwfa' hh h
    rw [← hcards] at hwar
    rw [settleRound_war hmany, settleRound_war hmany, ← hcards]
    refine hwar.bind ?_
    intro e e' he he' hexit
    have hrun := war_inv o _ _ _ _ _ _ hwfa hh he
    have hrun' := war_inv o _ _ _ _ _ _ hwfa' hh' he'
    rw [hcards] at hrun
    rw [hexit.thrown_eq]
    cases hthrown : e.thrown with
    | none => exact .done hexit.state
    | some ev =>
        obtain ⟨ids⟩ := ev
        have hthrown' : e'.thrown = some (.draw ids) := by
          rw [hexit.thrown_eq, hthrown]
        show (handleDraw fuel o ids e.prizeCards e.state).Rel Twin
          (handleDraw fuel o ids e'.prizeCards e'.state)
        rw [handleDraw_round hnd htwo hlead hrun hthrown,
          handleDraw_round hnd htwo hlead' hrun' hthrown', hexit.prize_eq]
        exact dealCards_twin (hexit.state.setDeckCards e.prizeCards) fuel

/-- The same players can place a card. -/
theorem Restored.live_iff {s t : War Id} (h : Restored s t)
    (hwf : WellFormed s) (hwf' : WellFormed t) : Live t ↔ Live s := by
  refine exists_congr (fun id => ?_)
  rw [← mem_placers, ← mem_placers, h.placers_eq hwf hwf']

/-- **A round on restored players**, in the same iteration orders, ends in the
    same way and leaves twins. -/
theorem startRound_restored {s t : War Id} (h : Restored s t)
    (hwf : WellFormed s) (hwf' : WellFormed t) (fuel : Nat)
    (o : Schedule Id) :
    (startRound fuel o s).Rel Twin (startRound fuel o t) := by
  by_cases hlive : Live s
  · have hlive' : Live t := (h.live_iff hwf hwf').mpr hlive
    obtain ⟨rc, hplace, hrc, hkeys⟩ := placeCards_records hwf
    obtain ⟨rc', hplace', hrc', hkeys'⟩ := placeCards_records hwf'
    have hsame : rc' = rc := by
      refine Dictionary.ext ?_
      rw [hrc'.entries_eq, hrc.entries_eq, hkeys', hkeys,
        h.placers_eq hwf hwf']
      simp only [piles, h.pile_eq]
    subst hsame
    have hafter := h.afterPlacing
    have hcards := h.placedCards_eq hwf hwf'
    obtain ⟨holders, hholders, hnd, hne, hlead⟩ :=
      firstHolders hlive hrc o.roundCards
    have hholders' : determineHighCardHolders (afterPlacing t) o.roundCards
        rc' false = .done holders :=
      (determineHighCardHolders_congr hafter.inGame_eq _ rc').trans hholders
    have hlead' : ∀ id, id ∈ holders ↔ LeadsRound t id := by
      obtain ⟨found, hfound, -, -, hfoundLead⟩ :=
        firstHolders hlive' hrc' o.roundCards
      rw [hholders'] at hfound
      rw [Outcome.done.inj hfound]
      exact hfoundLead
    rw [(startRound_of_holders hplace hrc hkeys hholders fuel).1,
      (startRound_of_holders hplace' hrc' hkeys' hholders' fuel).1]
    refine (settleRound_twin hafter hcards hwf hwf' hnd hne hlead hlead'
      fuel o).bind ?_
    intro u u' hu _ htwin
    -- somebody is left in the game, so the game status is updated alike
    obtain ⟨_, _, hspent⟩ :=
      roundSpent (settleRound_inv hwf hrc hnd hne hlead hu)
    exact .done (htwin.updateGameStatus hspent.exists_inGame _ _)
  · have hlive' : ¬ Live t := fun hl => hlive ((h.live_iff hwf hwf').mp hl)
    rw [startRound_of_not_live hwf hlive, startRound_of_not_live hwf' hlive']
    exact .trap _

/-! ## Runs -/

/-- **Every round after the first** is one on twins. -/
theorem playRounds_restored {s t : War Id} (h : Restored s t)
    (hwf : WellFormed s) (hwf' : WellFormed t) (fuel : Nat)
    (os : Nat → Schedule Id) (k : Nat) :
    (playRounds fuel os (k + 1) s).Rel Twin
      (playRounds fuel os (k + 1) t) := by
  induction k with
  | zero => exact startRound_restored h hwf hwf' fuel (os 0)
  | succ k ih =>
      rw [playRounds, playRounds]
      refine ih.bind ?_
      intro u u' hu hu' htwin
      exact startRound_restored (restored_of_twin htwin)
        (wellFormed_playRounds hwf hu) (wellFormed_playRounds hwf' hu')
        fuel (os (k + 1))

/-- **A snapshot replays the game**: from the state at any round boundary and
    from its snapshot the same numbers of rounds return, with the same hands,
    elimination flags, round winner and game status. -/
theorem snapshot_replays {init : Nat} {random : Nat → Arrangement Card}
    {n : Int} {w : War Id} {players : List (GamePlayer Id)}
    (hinit : War.init init random n = .done w)
    (hplayers : NewPlayers players) {s : War Id}
    (h : Reaches (w.addPlayers players) s) (os : Nat → Schedule Id)
    {k : Nat} (hk : 1 ≤ k) :
    ((∃ fuel s', playRounds fuel os k s = .done s') ↔
      ∃ fuel t', playRounds fuel os k (snapshot s) = .done t') ∧
    ∀ fuel fuel' s' t', playRounds fuel os k s = .done s' →
      playRounds fuel' os k (snapshot s) = .done t' → SameState s' t' := by
  have hready := newGame_ready hinit hplayers
  have hwf := h.wellFormed hready.wellFormed
  have hrel : ∀ fuel, (playRounds fuel os k s).Rel Twin
      (playRounds fuel os k (snapshot s)) := by
    intro fuel
    obtain ⟨m, rfl⟩ : ∃ m, k = m + 1 := ⟨k - 1, by omega⟩
    exact playRounds_restored (restored_snapshot (h.out_empty hready)) hwf
      (wellFormed_snapshot hwf) fuel os m
  refine ⟨⟨?_, ?_⟩, ?_⟩
  · rintro ⟨fuel, s', hs'⟩
    obtain ⟨t', ht', -⟩ := (hrel fuel).of_done hs'
    exact ⟨fuel, t', ht'⟩
  · rintro ⟨fuel, t', ht'⟩
    obtain ⟨s', hs', -⟩ := (hrel fuel).symm.of_done ht'
    exact ⟨fuel, s', hs'⟩
  · intro fuel fuel' s' t' hs' ht'
    obtain ⟨u, hu, htwin⟩ := (hrel fuel).of_done hs'
    have hut : u = t' :=
      Outcome.done_unique (fun n => playRounds_refines n os k _) hu ht'
    rw [← hut]
    exact htwin.sameState

/-- After two rounds `C` is out and the game goes on. -/
theorem snapshot_replays_oneCard :
    ∃ w d s s' t', War.init 2 (fun _ => .keep) 0 = .done w ∧
      dealCards 9 (w.addPlayers oneCardSeats) = .done d ∧
      playRounds 9 (fun _ => inOrder) 2 d = .done s ∧
      isOut s "C" = true ∧ isOut (snapshot s) "C" = false ∧
      s.gameover = false ∧
      playRounds 9 (fun _ => inOrder) 1 s = .done s' ∧
      playRounds 9 (fun _ => inOrder) 1 (snapshot s) = .done t' ∧
      SameState s' t' := by
  have hgame : ∃ w, War.init 2 (fun _ => .keep) 0 = .done w ∧
      ∃ d, dealCards 9 (w.addPlayers oneCardSeats) = .done d ∧
      ∃ s, playRounds 9 (fun _ => inOrder) 2 d = .done s ∧
      isOut s "C" = true ∧ isOut (snapshot s) "C" = false ∧
      s.gameover = false ∧
      ∃ s', playRounds 9 (fun _ => inOrder) 1 s = .done s' ∧
      ∃ t', playRounds 9 (fun _ => inOrder) 1 (snapshot s) = .done t' ∧
        True := by
    decide +kernel
  obtain ⟨w, hinit, d, hdeal, s, hs, hout, hin, hover, s', hs', t', ht', -⟩ :=
    hgame
  exact ⟨w, d, s, s', t', hinit, hdeal, hs, hout, hin, hover, hs', ht',
    (snapshot_replays hinit newPlayers_oneCard
      (playRounds_reaches (.dealt hdeal) hs) (fun _ => inOrder)
      (le_refl 1)).2 9 9 s' t' hs' ht'⟩

end Snapshots
