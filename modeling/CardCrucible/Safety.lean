import CardCrucible.LastPlayed

/-! # Safety — why no round and no game traps

    A round needs nothing but well-formed players and somebody in the game with
    a card: the highest rank then exists, every later comparison has a card to
    compare, and the players a draw deals to are registered.  The cards of a
    round go back to somebody in the game, so the next round finds what it
    needs.

    A game finds it as soon as there are cards at all.  There are none with an
    empty deck and empty hands, and then the first round traps. -/

namespace Safety

open Outcomes Arrangements Dictionaries CardModel DeckModel PlayerModel
open WarModel WarModel.War WarState WarTurn Comparisons WarRuns Spending
open Dealing Rounds GameStatus RoundLaws Conservation Games Lifecycle Draws
open LastPlayed

variable {Id : Type} [LinearOrder Id]

/-! ## One round -/

/-- Dealing to registered players does not trap. -/
theorem safe_dealLoop :
    ∀ (fuel : Nat) (s : War Id), (dealLoop fuel s).Safe := by
  intro fuel
  induction fuel with
  | zero => intro s; exact Outcome.Safe.outOfFuel
  | succ fuel ih =>
      intro s
      obtain ⟨b, t, share, rest, hrun, -⟩ :=
        dealPass_spec s
      simp only [dealLoop]
      simp only [hrun, Outcome.done_bind]
      cases b with
      | true => exact Outcome.Safe.done t
      | false => exact ih t

theorem safe_dealCards {s : War Id} (hplayers : s.players.keys ≠ [])
    (fuel : Nat) : (dealCards fuel s).Safe := by
  have hempty : ¬ s.players.isEmpty = true :=
    fun h => hplayers (Dictionary.isEmpty_iff.mp h)
  simp only [dealCards]
  rw [if_neg hempty]
  exact safe_dealLoop fuel s

/-- **A war** among players in the game does not trap. -/
theorem safe_war (o : Schedule Id) :
    ∀ (fuel depth : Nat) (holders : List Id) (prizeCards : List Card)
      (s : War Id), WellFormed s → Holders s holders →
      (war fuel o depth holders prizeCards s).Safe := by
  intro fuel
  induction fuel with
  | zero =>
      intro depth holders prizeCards s _ _
      exact Outcome.Safe.outOfFuel
  | succ fuel ih =>
      intro depth holders prizeCards s hwf h
      rcases war_cases hwf h prizeCards o depth with
        ⟨-, hrun⟩ | ⟨rc, w, -, -, hrun⟩ |
        ⟨rc, next, -, hnd, -, hlead, -, hrun⟩
      · rw [(hrun fuel).1]
        exact Outcome.Safe.done _
      · rw [(hrun fuel).1]
        exact Outcome.Safe.done _
      · rw [(hrun fuel).1]
        exact ih _ _ _ _ (hwf.turn _ _) (holders_next h hnd hlead)

/-- **A round** with a card to place does not trap. -/
theorem safe_startRound {s : War Id} (hwf : WellFormed s) (hlive : Live s)
    (fuel : Nat) (o : Schedule Id) : (startRound fuel o s).Safe := by
  obtain ⟨rc, holders, hrc, hnd, hne, hlead, heq⟩ := startRound_eq hwf hlive o
  rw [(heq fuel).1]
  refine Outcome.Safe.bind ?_ (fun t _ => Outcome.Safe.done _)
  by_cases hone : ∃ w, holders = [w]
  · obtain ⟨w, hw⟩ := hone
    subst hw
    rw [settleRound_sole hwf ((hlead w).mp (List.mem_singleton.mpr rfl))]
    exact Outcome.Safe.done _
  · have hmany : ∀ w, holders ≠ [w] := fun w hw => hone ⟨w, hw⟩
    have htwo := length_two_le hne hmany
    have hholders := holders_first hnd hlead
    have hwf' := hwf.turn 1 (active s)
    rw [settleRound_war hmany]
    refine (safe_war o _ _ _ _ _ hwf' hholders).bind ?_
    intro e hwar
    have hrun := war_inv o _ _ _ _ _ _ hwf' hholders hwar
    cases hthrown : e.thrown with
    | none => exact Outcome.Safe.done _
    | some ev =>
        obtain ⟨ids⟩ := ev
        show (handleDraw fuel o ids e.prizeCards e.state).Safe
        rw [handleDraw_round hnd htwo hlead hrun hthrown]
        refine safe_dealCards ?_ fuel
        -- the players are those of the start of the round
        obtain ⟨t, hspent⟩ := warSpent hrun hholders
        obtain ⟨id, hin, -⟩ := hlive
        obtain ⟨p, hp, -⟩ := inGame_iff.mp hin
        refine List.ne_nil_of_mem (a := id) ?_
        show id ∈ e.state.players.keys
        rw [hspent.of_thrown hthrown]
        show id ∈ t.players.keys
        rw [hspent.spent.keys_eq]
        show id ∈ (turn 1 (active s) s).players.keys
        rw [keys_turn]
        exact mem_keys_of_some hp

/-- Whoever is dealt a card is in the game. -/
theorem live_of_dealt {s s' : War Id} {share : Id → List Card}
    (h : Dealt s s' share []) (hdeck : s.gameDeck.decks ≠ []) : Live s' := by
  have hsum := h.cards
  have hsome : ∃ id, share id ≠ [] := by
    by_contra hnone
    have hzero : ∀ id, share id = [] := by
      intro id
      by_contra hne
      exact hnone ⟨id, hne⟩
    rw [Finset.sum_eq_zero (fun id _ => by rw [hzero id]; rfl)] at hsum
    exact hdeck ((Multiset.coe_eq_zero _).mp hsum)
  obtain ⟨id, hid⟩ := hsome
  refine ⟨id, ?_, ?_⟩
  · rw [h.inGame_eq]
    by_contra hout
    exact hid (h.skip id (Bool.eq_false_iff.mpr hout))
  · rw [h.hand_eq]
    intro hnil
    exact hid (List.append_eq_nil_iff.mp hnil).2

/-- **After a round** somebody in the game has a card again. -/
theorem live_startRound {s s' : War Id} (hwf : WellFormed s) (hlive : Live s)
    {fuel : Nat} {o : Schedule Id} (h : startRound fuel o s = .done s') :
    Live s' := by
  obtain ⟨s'', t, prizeCards, hspent, hs'⟩ := startRound_spent hwf h
  obtain ⟨id, hin, hne⟩ := hlive
  -- the card placed is among the prize cards
  have hprize : prizeCards ≠ [] := by
    intro hnil
    obtain ⟨c, -, hc, -⟩ := round_cards hwf h hin hne
    have hsum := hspent.prize
    rw [hnil] at hsum
    have hzero := Finset.sum_eq_zero_iff.mp hsum.symm id
      (List.mem_toFinset.mpr (mem_active.mpr hin))
    rw [(Multiset.coe_eq_zero _).mp hzero] at hc
    simp at hc
  have hlive'' : Live s'' := by
    rcases hspent.exit with ⟨w, hw, heq⟩ | ⟨-, share, hdealt⟩
    · rw [heq]
      refine ⟨w, (inGame_payOut w prizeCards t w).trans hw, ?_⟩
      show hand (payOut w prizeCards t) w ≠ []
      rw [hand_payOut_self prizeCards hw]
      exact List.append_ne_nil_of_right_ne_nil _ hprize
    · refine live_of_dealt hdealt ?_
      show (t.gameDeck.setDeckCards prizeCards).decks ≠ []
      simp only [Deck.setDeckCards]
      by_cases hempty : t.gameDeck.decks.isEmpty = true
      · rw [if_pos hempty]
        exact hprize
      · rw [if_neg hempty]
        exact fun hnil => hempty (List.isEmpty_iff.mpr hnil)
  obtain ⟨k, hk, hkne⟩ := hlive''
  rw [hs']
  exact ⟨k, hk, hkne⟩

/-- **Rounds never trap**: from any state with well-formed players one of whom
    is in the game and has a card, and after every round that returns the same
    is so again. -/
theorem rounds_never_trap {s : War Id} (hwf : WellFormed s) (hlive : Live s)
    (fuel : Nat) (os : Nat → Schedule Id) (n : Nat) :
    (playRounds fuel os n s).Safe ∧
      ∀ s', playRounds fuel os n s = .done s' → WellFormed s' ∧ Live s' := by
  have hkeep : ∀ n s', playRounds fuel os n s = .done s' →
      WellFormed s' ∧ Live s' := fun n s' h =>
    playRounds_keeps (fun t => WellFormed t ∧ Live t)
      (fun ht hround => ⟨wellFormed_startRound ht.1 hround,
        live_startRound ht.1 ht.2 hround⟩) ⟨hwf, hlive⟩ h
  refine ⟨?_, hkeep n⟩
  induction n with
  | zero => exact Outcome.Safe.done s
  | succ n ih =>
      refine ih.bind (fun t ht => ?_)
      obtain ⟨hwft, hlivet⟩ := hkeep n t ht
      exact safe_startRound hwft hlivet fuel (os n)

/-- Three rounds, of which the second eliminates a player. -/
theorem rounds_never_trap_oneCard :
    (playRounds 9 (fun _ => inOrder) 3 (table oneCardHands)).Safe ∧
      ∃ s', playRounds 9 (fun _ => inOrder) 3 (table oneCardHands) = .done s' ∧
        isOut s' "C" = true ∧ WellFormed s' ∧ Live s' := by
  have hwf : WellFormed (table oneCardHands) := by decide
  have hlive : Live (table oneCardHands) := ⟨"A", by decide, by decide⟩
  have hrun : ∃ s', playRounds 9 (fun _ => inOrder) 3 (table oneCardHands)
      = .done s' ∧ isOut s' "C" = true := by decide +kernel
  obtain ⟨s', hdone, hout⟩ := hrun
  obtain ⟨hsafe, hkeep⟩ := rounds_never_trap hwf hlive 9 (fun _ => inOrder) 3
  exact ⟨hsafe, s', hdone, hout, hkeep s' hdone⟩

/-! ## A whole game -/

/-- The winner of the last round, if there is one, is registered. -/
def WinnerRegistered (s : War Id) : Prop :=
  ∀ w, s.roundWinner = some w → w ∈ s.players.keys

theorem WinnerRegistered.announceWinner {s : War Id}
    (h : WinnerRegistered s) : s.announceWinner.Safe := by
  simp only [War.announceWinner]
  cases hw : s.roundWinner with
  | none => exact Outcome.Safe.done ()
  | some w =>
      obtain ⟨v, hv⟩ := Dictionary.mem_keys.mp (h w hw)
      simp only [hv]
      exact Outcome.Safe.done ()

theorem WinnerRegistered.announcement {s : War Id}
    (h : WinnerRegistered s) : s.announcement.Safe := by
  simp only [War.announcement]
  cases hw : s.roundWinner with
  | none => exact Outcome.Safe.done _
  | some w =>
      obtain ⟨v, hv⟩ := Dictionary.mem_keys.mp (h w hw)
      simp only [hv]
      exact Outcome.Safe.done _

/-- A round that returns has registered its winner. -/
theorem winnerRegistered_startRound {s s' : War Id} (hwf : WellFormed s)
    {fuel : Nat} {o : Schedule Id} (h : startRound fuel o s = .done s') :
    WinnerRegistered s' := by
  intro w hw
  rcases roundWinner_cases hwf h with ⟨v, hv, hin, -⟩ | ⟨hnone, -⟩
  · have hvw : v = w := Option.some.inj (hv.symm.trans hw)
    rw [← hvw]
    exact mem_keys_of_inGame hin
  · rw [hnone] at hw
    simp at hw

/-- **The rounds of a game** do not trap once somebody in it has a card, and
    they leave a registered winner or none. -/
theorem safe_gameLoop {fuel : Nat} :
    ∀ (rounds : Nat) (os : Nat → Schedule Id) (s : War Id), WellFormed s →
      Live s → WinnerRegistered s →
      (gameLoop fuel rounds os s).Safe ∧
        ∀ s', gameLoop fuel rounds os s = .done s' → WinnerRegistered s' := by
  intro rounds
  induction rounds with
  | zero =>
      intro os s _ _ _
      exact ⟨Outcome.Safe.outOfFuel, fun s' h => by cases h⟩
  | succ rounds ih =>
      intro os s hwf hlive hwinner
      simp only [gameLoop]
      cases s.gameover with
      | true =>
          refine ⟨Outcome.Safe.done s, fun s' h => ?_⟩
          rw [← Outcome.done.inj h]
          exact hwinner
      | false =>
          have hnext : ∀ t, startRound fuel (os 0) s = .done t →
              (gameLoop fuel rounds (fun n => os (n + 1)) t).Safe ∧
                ∀ s', gameLoop fuel rounds (fun n => os (n + 1)) t
                  = .done s' → WinnerRegistered s' := fun t ht =>
            ih _ t (wellFormed_startRound hwf ht)
              (live_startRound hwf hlive ht)
              (winnerRegistered_startRound hwf ht)
          rw [if_neg Bool.false_ne_true]
          constructor
          · refine (safe_startRound hwf hlive fuel (os 0)).bind ?_
            intro t ht
            exact (winnerRegistered_startRound hwf ht).announceWinner.bind
              (fun _ _ => (hnext t ht).1)
          · intro s' h
            obtain ⟨t, ht, h⟩ := Outcome.bind_eq_done.mp h
            obtain ⟨-, -, h⟩ := Outcome.bind_eq_done.mp h
            exact (hnext t ht).2 s' h

section NewGame

variable {fuel₀ : Nat} {random : Nat → Arrangement Card} {n : Int}
variable {w : War Id} {players : List (GamePlayer Id)}

/-- Adding players leaves the winner as it is. -/
theorem roundWinner_addPlayers (players : List (GamePlayer Id)) :
    ∀ s : War Id, (s.addPlayers players).roundWinner = s.roundWinner := by
  induction players with
  | nil => intro s; rfl
  | cons g rest ih =>
      intro s
      show ((s.addPlayer g).addPlayers rest).roundWinner = _
      rw [ih (s.addPlayer g)]
      cases g <;> rfl

theorem newGame_roundWinner (h : War.init fuel₀ random n = .done w) :
    (w.addPlayers players).roundWinner = none := by
  simp only [War.init] at h
  obtain ⟨deck, -, hw⟩ := Outcome.bind_eq_done.mp h
  rw [roundWinner_addPlayers, ← Outcome.done.inj hw]

/-- A game has more than one player to start with. -/
theorem one_lt_numPlayers (h : War.init fuel₀ random n = .done w)
    (hplayers : NewPlayers players) : 1 < (w.addPlayers players).numPlayers := by
  show 1 < (w.addPlayers players).players.entries.length
  rw [newGame_entries h hplayers, List.length_map]
  exact hplayers.two

/-- **Which new games have cards**: those with a sub-deck or a player who
    brings some. -/
theorem newGame_cards_iff (h : War.init fuel₀ random n = .done w)
    (hplayers : NewPlayers players) :
    allCards (w.addPlayers players) ≠ 0 ↔
      0 < n ∨ ∃ g ∈ players, g.toPlayer.cards ≠ [] := by
  constructor
  · intro hcards
    by_contra hnone
    rw [not_or] at hnone
    obtain ⟨hn, hhands⟩ := hnone
    have hempty : ∀ g ∈ players, g.toPlayer.cards = [] := by
      intro g hg
      by_contra hne
      exact hhands ⟨g, hg, hne⟩
    refine hcards ?_
    rw [newGame_cards h hplayers hempty]
    -- no sub-deck, no card
    have hperm := init_shuffled_perm (init_eq h).1
    have hzero : (AllowedNumSubDecks.wrap n).numSubDecks.toNat = 0 := by
      show (max (min n 10) 0).toNat = 0
      omega
    rw [hzero] at hperm
    exact (Multiset.coe_eq_zero _).mpr hperm.eq_nil
  · rintro (hn | ⟨g, hg, hne⟩)
    · exact newGame_nonempty h hn
    · intro hzero
      simp only [allCards] at hzero
      have hhands := (add_eq_zero.mp hzero).1
      rw [newGame_entries h hplayers, List.map_map] at hhands
      have hg0 := List.sum_eq_zero_iff.mp hhands _
        (List.mem_map_of_mem (f := (fun e : Id × GamePlayer Id =>
          (e.2.toPlayer.cards : Multiset Card)) ∘ entry) hg)
      refine hne ?_
      rw [← cards_entrant]
      exact (Multiset.coe_eq_zero _).mp hg0

/-- Without cards nobody is live. -/
theorem not_live_of_no_cards {s : War Id} (hwf : WellFormed s)
    (h : allCards s = 0) : ¬ Live s := by
  rintro ⟨id, hin, hne⟩
  rw [Conservation.allCards_eq hwf] at h
  have hhands : handCards s = 0 := (add_eq_zero.mp h).1
  have hid := Finset.sum_eq_zero_iff.mp hhands id
    (List.mem_toFinset.mpr (mem_keys_of_inGame hin))
  exact hne ((Multiset.coe_eq_zero _).mp hid)

/-- `startGame` with its check of the players passed. -/
theorem startGame_eq {s : War Id} (htwo : 1 < s.numPlayers)
    (fuel rounds : Nat) (os : Nat → Schedule Id) :
    startGame fuel rounds os s
      = (dealCards fuel s >>= fun s =>
          gameLoop fuel rounds os s >>= fun s =>
            s.announcement >>= fun line => .done (s, line)) := if_pos htwo

/-- **Without a card** the first round of a game traps. -/
theorem startGame_without_cards (h : War.init fuel₀ random n = .done w)
    (hplayers : NewPlayers players)
    (hcards : allCards (w.addPlayers players) = 0)
    (os : Nat → Schedule Id) :
    ∃ fuel, startGame fuel 1 os (w.addPlayers players) = .trap
      "An empty array does not possess a highest ranked card" := by
  have hready := newGame_ready h hplayers
  obtain ⟨d, hd⟩ := dealCards_returns (exists_inGame_of_two hready.two)
    (Nat.lt_succ_self _)
  have hreach : Reaches (w.addPlayers players) d := .dealt hd
  have hwf := hreach.wellFormed hready.wellFormed
  have hnone : allCards d = 0 := by
    rw [hreach.allCards_eq hready.wellFormed]
    exact hcards
  have hover := hready.running_dealt hd
  have htrap := startRound_of_not_live hwf (not_live_of_no_cards hwf hnone)
    ((w.addPlayers players).gameDeck.decks.length + 1) (os 0)
  refine ⟨(w.addPlayers players).gameDeck.decks.length + 1, ?_⟩
  rw [startGame_eq (one_lt_numPlayers h hplayers), hd, Outcome.done_bind]
  simp only [gameLoop, hover, Bool.false_eq_true, if_false, htrap,
    Outcome.trap_bind]

/-- **With a card** no step of a game traps. -/
theorem safe_startGame (h : War.init fuel₀ random n = .done w)
    (hplayers : NewPlayers players)
    (hcards : allCards (w.addPlayers players) ≠ 0) (fuel rounds : Nat)
    (os : Nat → Schedule Id) :
    (startGame fuel rounds os (w.addPlayers players)).Safe := by
  have hready := newGame_ready h hplayers
  have hkeys : (w.addPlayers players).players.keys ≠ [] := by
    obtain ⟨id, hin⟩ := exists_inGame_of_two hready.two
    exact List.ne_nil_of_mem (mem_keys_of_inGame hin)
  rw [startGame_eq (one_lt_numPlayers h hplayers)]
  refine (safe_dealCards hkeys fuel).bind ?_
  intro d hd
  have hreach : Reaches (w.addPlayers players) d := .dealt hd
  have hwinner : WinnerRegistered d := by
    obtain ⟨share, hdealt⟩ := dealCards_dealt hd
    intro v hv
    rw [hdealt.state] at hv
    have hnone : (w.addPlayers players).roundWinner = none :=
      newGame_roundWinner h
    exact absurd (hnone.symm.trans hv) (by simp)
  have hrun : (gameLoop fuel rounds os d).Safe ∧
      ∀ s', gameLoop fuel rounds os d = .done s' → WinnerRegistered s' :=
    safe_gameLoop rounds os d (hreach.wellFormed hready.wellFormed)
      (hreach.live hready hcards) hwinner
  obtain ⟨hloop, hend⟩ := hrun
  refine hloop.bind (fun s' hs' => ?_)
  exact (hend s' hs').announcement.bind (fun line _ => Outcome.Safe.done _)

/-- **Which games are safe to start**: those that have cards, whatever the
    number of players and sub-decks, the shuffle and the iteration orders.
    Without a card `startGame` traps in its first round. -/
theorem startGame_safe_iff (h : War.init fuel₀ random n = .done w)
    (hplayers : NewPlayers players) :
    (∀ fuel rounds os,
        (startGame fuel rounds os (w.addPlayers players)).Safe) ↔
      0 < n ∨ ∃ g ∈ players, g.toPlayer.cards ≠ [] := by
  rw [← newGame_cards_iff h hplayers]
  constructor
  · intro hsafe hcards
    obtain ⟨fuel, htrap⟩ := startGame_without_cards h hplayers hcards
      (fun _ => ⟨.keep, fun _ => .keep, .keep, .keep⟩)
    exact hsafe fuel 1 _ _ htrap
  · intro hcards fuel rounds os
    exact safe_startGame h hplayers hcards fuel rounds os

end NewGame

/-- Without a sub-deck a game of two is not safe, and with one a game of three
    is, which ends after a round. -/
theorem startGame_safe_iff_two :
    (∃ w, War.init 0 (fun _ => .keep) 0 = .done w ∧
      ¬ ∀ fuel rounds os,
        (startGame fuel rounds os (w.addPlayers twoSeats)).Safe) ∧
    ∃ w, War.init 2 (stacked drawDeck drawDeck_perm) 1 = .done w ∧
      (∀ fuel rounds os,
        (startGame fuel rounds os (w.addPlayers threeSeats)).Safe) ∧
      ∃ p, startGame 60 3 (fun _ => inOrder) (w.addPlayers threeSeats)
        = .done p ∧ True := by
  constructor
  · obtain ⟨w, hinit⟩ : ∃ w : War String,
        War.init 0 (fun _ => .keep) 0 = .done w := ⟨_, rfl⟩
    refine ⟨w, hinit, fun hsafe => ?_⟩
    rcases (startGame_safe_iff hinit newPlayers_two).mp hsafe with
      h | ⟨g, hg, hne⟩
    · exact absurd h (by decide)
    · revert g
      decide
  · have hgame : ∃ w, War.init 2 (stacked drawDeck drawDeck_perm) 1 = .done w ∧
        ∃ p, startGame 60 3 (fun _ => inOrder) (w.addPlayers threeSeats)
          = .done p ∧ True := by
      decide +kernel
    obtain ⟨w, hinit, hrun⟩ := hgame
    exact ⟨w, hinit, (startGame_safe_iff hinit newPlayers_three).mpr
      (Or.inl (by decide)), hrun⟩

/-- A game with no sub-deck, which the deck allows, traps in its first
    round. -/
theorem game_without_cards_traps :
    ∃ w, War.init 0 (fun _ => .keep) 0 = .done w ∧ NewPlayers twoSeats ∧
      startGame 1 1 (fun _ => inOrder) (w.addPlayers twoSeats)
        = .trap "An empty array does not possess a highest ranked card" :=
  ⟨_, rfl, newPlayers_two, by decide +kernel⟩

end Safety
