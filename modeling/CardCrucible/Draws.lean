import CardCrucible.Lifecycle

/-! # Draws — rounds that nobody wins

    Three things go wrong with a draw, and all of them come from the same
    place: by the time the handler of the draw runs, the players of the draw
    are eliminated.

    The comparison of suits skips eliminated players, so the tie-breaker never
    has a single winner; the cards are dealt out again instead.  If nobody else
    is left in the game, that dealing has no end.  And if exactly one player
    is left, the game ends with the round winner unset. -/

namespace Draws

open Outcomes Arrangements Dictionaries CardModel DeckModel PlayerModel
open WarModel WarModel.War WarState WarTurn Comparisons WarRuns Spending
open Dealing Rounds GameStatus RoundLaws Conservation Strength RoundStrength
open Games Lifecycle

variable {Id : Type} [LinearOrder Id]

/-! ## The dealing that has no end -/

/-- **A round returns exactly when it does not start from a stalemate.** -/
theorem round_returns_iff {fuel₀ : Nat} {random : Nat → Arrangement Card}
    {n : Int} {w : War Id} {players : List (GamePlayer Id)}
    (hinit : War.init fuel₀ random n = .done w) (hn : 0 < n)
    (hplayers : NewPlayers players) {s : War Id}
    (h : Reaches (w.addPlayers players) s) (o : Schedule Id) :
    (∃ fuel s', startRound fuel o s = .done s') ↔ ¬ Stalemate s := by
  have hready := newGame_ready hinit hplayers
  exact returns_iff (h.wellFormed hready.wellFormed)
    (h.live hready (newGame_nonempty hinit hn)) o

theorem round_returns_iff_three :
    ∃ w d, War.init 2 (stacked drawDeck drawDeck_perm) 1 = .done w ∧
      dealCards 60 (w.addPlayers threeSeats) = .done d ∧
      ((∃ fuel s', startRound fuel inOrder d = .done s') ↔
        ¬ Stalemate d) := by
  have hgame : ∃ w, War.init 2 (stacked drawDeck drawDeck_perm) 1 = .done w ∧
      ∃ d, dealCards 60 (w.addPlayers threeSeats) = .done d ∧ True := by
    decide +kernel
  obtain ⟨w, hinit, d, hdeal, -⟩ := hgame
  exact ⟨w, d, hinit, hdeal, round_returns_iff hinit (by decide)
    newPlayers_three (.dealt hdeal) inOrder⟩

/-- The sorted deck with its first two cards exchanged: two players get cards
    of the same rank in every place. -/
def evenDeck : List Card :=
  cardsAt (1 :: 0 :: (List.range 50).map (· + 2))

theorem evenDeck_perm : evenDeck.Perm Deck.subDeck := by decide +kernel

/-- The players of that game. -/
def twoSeats : List (GamePlayer String) := seats [("A", []), ("B", [])]

theorem newPlayers_two : NewPlayers twoSeats :=
  newPlayers_seats (by decide) (by decide)

/-- The first round of that game never returns. -/
theorem even_game_never_returns :
    ∃ w d, War.init 2 (stacked evenDeck evenDeck_perm) 1 = .done w ∧
      NewPlayers twoSeats ∧ Reaches (w.addPlayers twoSeats) d ∧
      ¬ ∃ fuel s', startRound fuel inOrder d = .done s' := by
  have hgame : ∃ w, War.init 2 (stacked evenDeck evenDeck_perm) 1 = .done w ∧
      ∃ d, dealCards 60 (w.addPlayers twoSeats) = .done d ∧ Stalemate d := by
    decide +kernel
  obtain ⟨w, hinit, d, hdeal, hstale⟩ := hgame
  have hreach : Reaches (w.addPlayers twoSeats) d := .dealt hdeal
  have hwf := hreach.wellFormed (newGame_ready hinit newPlayers_two).wellFormed
  refine ⟨w, d, hinit, newPlayers_two, hreach, ?_⟩
  rintro ⟨fuel, s', hrun⟩
  obtain ⟨t, hround, -⟩ := startRound_inv hwf hrun
  exact not_stalemate_of_run hround hstale

/-! ## The winner of the game -/

/-- A round that returns has a winner, who is still in the game, exactly when
    the hands before it are not drawn. -/
theorem roundWinner_cases {s s' : War Id} (hwf : WellFormed s) {fuel : Nat}
    {o : Schedule Id} (h : startRound fuel o s = .done s') :
    (∃ w, s'.roundWinner = some w ∧ inGame s' w = true ∧ ¬ Drawn s) ∨
      (s'.roundWinner = none ∧ Drawn s) := by
  obtain ⟨t, hrun, hs'⟩ := startRound_inv hwf h
  have hwinner : s'.roundWinner = t.roundWinner := by
    rw [hs', roundWinner_updateGameStatus]
  rcases round_tops hrun with ⟨w, hw, htop⟩ | ⟨hnone, hdrawn⟩
  · obtain ⟨u, prizeCards, hround⟩ := roundSpent hrun
    have hin := (hround.inGame_exit w).trans (hround.of_roundWinner hw).1
    refine Or.inl ⟨w, hwinner.trans hw, ?_, not_drawn_of_tops htop⟩
    rw [hs', inGame_updateGameStatus]
    exact hin
  · exact Or.inr ⟨hwinner.trans hnone, hdrawn⟩

/-- The two last lines differ, whoever has won. -/
theorem no_winner_line_ne (name : String) :
    "The game is over but there is no winner"
      ≠ "The game is over. The winner is " ++ name := by
  intro heq
  have hlist := congrArg (fun line => line.toList.take 17) heq
  have hlen : 17 ≤ "The game is over. The winner is ".toList.length := by
    decide +kernel
  simp only [String.toList_append] at hlist
  rw [List.take_append_of_le_length hlen] at hlist
  revert hlist
  decide +kernel

/-- The line of a game with a round winner names it, and that of a game without
    one says so. -/
theorem announcement_inv {s : War Id} (hwf : WellFormed s) {line : String}
    (h : s.announcement = .done line) :
    (∀ id, s.roundWinner = some id → ∃ p, s.tournamentPlayer? id = some p ∧
      line = "The game is over. The winner is " ++ p.name) ∧
    (s.roundWinner = none →
      line = "The game is over but there is no winner") := by
  simp only [War.announcement] at h
  constructor
  · intro id hid
    simp only [hid, hwf.get?_eq id] at h
    cases hp : s.tournamentPlayer? id with
    | none =>
        rw [hp] at h
        cases h
    | some p =>
        rw [hp] at h
        exact ⟨p, rfl, (Outcome.done.inj h).symm⟩
  · intro hnone
    simp only [hnone] at h
    exact (Outcome.done.inj h).symm

/-- A game that returns has played a last round, after which one player is
    left. -/
theorem exists_last_round {s₀ : War Id} (hready : Ready s₀)
    {fuel rounds : Nat} {os : Nat → Schedule Id} {s' : War Id} {line : String}
    (hgame : startGame fuel rounds os s₀ = .done (s', line)) :
    ∃ d k t, dealCards fuel s₀ = .done d ∧ playRounds fuel os k d = .done t ∧
      t.gameover = false ∧ startRound fuel (os k) t = .done s' ∧
      Reaches s₀ t ∧ (∃ v, survivors s' = [v]) ∧
      s'.announcement = .done line := by
  simp only [startGame] at hgame
  by_cases htwo : 1 < s₀.numPlayers
  · rw [if_pos htwo] at hgame
    obtain ⟨d, hdeal, hgame⟩ := Outcome.bind_eq_done.mp hgame
    obtain ⟨u, hloop, hgame⟩ := Outcome.bind_eq_done.mp hgame
    obtain ⟨line', hline, hpair⟩ := Outcome.bind_eq_done.mp hgame
    obtain ⟨rfl, rfl⟩ := Prod.mk.inj (Outcome.done.inj hpair)
    obtain ⟨k, t, hplay, hrunning, hlast, hend⟩ :=
      gameLoop_rounds rounds os d u hloop (hready.running_dealt hdeal)
    have hreach : Reaches s₀ t := playRounds_reaches (.dealt hdeal) hplay
    have hone := ((hreach.round hlast).gameover_iff hready).mp hend
    exact ⟨d, k, t, hdeal, hplay, hrunning, hlast, hreach,
      List.length_eq_one_iff.mp hone, hline⟩
  · rw [if_neg htwo] at hgame
    simp at hgame

/-- **The game announces its survivor exactly when its last round was not
    drawn**: only then is the survivor the round winner, only then does the
    last line name it, and after a drawn round the line says that there is no
    winner. -/
theorem survivor_announced_iff {fuel₀ : Nat}
    {random : Nat → Arrangement Card} {n : Int} {w : War Id}
    {players : List (GamePlayer Id)}
    (hinit : War.init fuel₀ random n = .done w)
    (hplayers : NewPlayers players) {fuel rounds : Nat}
    {os : Nat → Schedule Id} {s' : War Id} {line : String}
    (hgame : startGame fuel rounds os (w.addPlayers players)
      = .done (s', line)) :
    ∃ d k t, dealCards fuel (w.addPlayers players) = .done d ∧
      playRounds fuel os k d = .done t ∧ t.gameover = false ∧
      startRound fuel (os k) t = .done s' ∧
      ((∀ id, survivors s' = [id] → s'.roundWinner = some id) ↔
        ¬ Drawn t) ∧
      ((∀ id, survivors s' = [id] → ∃ p, s'.tournamentPlayer? id = some p ∧
        line = "The game is over. The winner is " ++ p.name) ↔ ¬ Drawn t) ∧
      (line = "The game is over but there is no winner" ↔ Drawn t) := by
  have hready := newGame_ready hinit hplayers
  obtain ⟨d, k, t, hdeal, hplay, hrunning, hlast, hreach, ⟨v, hsole⟩, hline⟩ :=
    exists_last_round hready hgame
  have hwf := hreach.wellFormed hready.wellFormed
  obtain ⟨hnamed, hunnamed⟩ :=
    announcement_inv (wellFormed_startRound hwf hlast) hline
  refine ⟨d, k, t, hdeal, hplay, hrunning, hlast, ?_⟩
  rcases roundWinner_cases hwf hlast with ⟨x, hx, hin, hnot⟩ | ⟨hnone, hdrawn⟩
  · -- the round winner is the survivor
    have hsurvivor : ∀ id, survivors s' = [id] → s'.roundWinner = some id := by
      intro id hid
      have hmem := mem_survivors.mpr hin
      rw [hid, List.mem_singleton] at hmem
      rw [hx, hmem]
    refine ⟨iff_of_true hsurvivor hnot, iff_of_true ?_ hnot, ?_⟩
    · exact fun id hid => hnamed id (hsurvivor id hid)
    · obtain ⟨p, -, hp⟩ := hnamed x hx
      refine iff_of_false (fun heq => ?_) hnot
      exact no_winner_line_ne p.name (heq.symm.trans hp)
  · -- a drawn round leaves a survivor and no round winner
    have hline' := hunnamed hnone
    refine ⟨iff_of_false (fun hall => ?_) (not_not_intro hdrawn),
      iff_of_false (fun hall => ?_) (not_not_intro hdrawn),
      iff_of_true hline' hdrawn⟩
    · have hv := hall v hsole
      rw [hnone] at hv
      simp at hv
    · obtain ⟨p, -, hp⟩ := hall v hsole
      exact no_winner_line_ne p.name (hline'.symm.trans hp)

theorem survivor_announced_iff_three :
    ∃ w p, War.init 2 (stacked drawDeck drawDeck_perm) 1 = .done w ∧
      startGame 60 3 (fun _ => inOrder) (w.addPlayers threeSeats) = .done p ∧
      ∃ t, startRound 60 inOrder t = .done p.1 ∧
        ((∀ id, survivors p.1 = [id] → p.1.roundWinner = some id) ↔
          ¬ Drawn t) ∧
        (p.2 = "The game is over but there is no winner" ↔ Drawn t) := by
  have hgame : ∃ w, War.init 2 (stacked drawDeck drawDeck_perm) 1 = .done w ∧
      ∃ p, startGame 60 3 (fun _ => inOrder) (w.addPlayers threeSeats)
        = .done p ∧ True := by
    decide +kernel
  obtain ⟨w, hinit, ⟨s', line⟩, hrun, -⟩ := hgame
  obtain ⟨d, k, t, -, -, -, hlast, hiff, -, hline⟩ :=
    survivor_announced_iff hinit newPlayers_three hrun
  exact ⟨w, (s', line), hinit, hrun, t, hlast, hiff, hline⟩

/-- A game that ends with one survivor and announces no winner. -/
theorem drawn_game_has_no_winner :
    ∃ w, War.init 2 (stacked drawDeck drawDeck_perm) 1 = .done w ∧
      ∃ p, startGame 60 3 (fun _ => inOrder) (w.addPlayers threeSeats)
          = .done p ∧
        survivors p.1 = ["A"] ∧ p.1.roundWinner ≠ some "A" ∧
        p.2 = "The game is over but there is no winner" := by
  decide +kernel

/-! ## The tie-breaker -/

/-- The call of `war` of a round: its exit, if the cards placed leave more than
    one high card holder. -/
def roundWar (fuel : Nat) (o : Schedule Id) (s : War Id) :
    Outcome (Option (WarExit Id)) := do
  let (roundCards, cards, s) ← s.placeCards
  let highCardHolders ←
    s.determineHighCardHolders o.roundCards roundCards false
  match highCardHolders with
  | [_] => return none
  | _ => do
      let exit ← war fuel o 0 highCardHolders cards s
      return some exit

/-- `w` is the one of `ids` whose last card played has the highest suit. -/
def SuitLeader (s : War Id) (ids : List Id) (w : Id) : Prop :=
  w ∈ ids ∧ ∃ c, lastPlayed s w = some c ∧
    ∀ id ∈ ids, id ≠ w → ∃ d, lastPlayed s id = some d ∧ d.suit < c.suit

instance (s : War Id) (ids : List Id) (w : Id) :
    Decidable (SuitLeader s ids w) :=
  inferInstanceAs (Decidable (w ∈ ids ∧ ∃ c, lastPlayed s w = some c ∧
    ∀ id ∈ ids, id ≠ w → ∃ d, lastPlayed s id = some d ∧ d.suit < c.suit))

/-- The tie-breaker gives the round to `w`: the round returns, `w` is back in
    the game with all the cards put down, and nobody else is given any. -/
def TieBreakWon (o : Schedule Id) (s : War Id) (exit : WarExit Id) (w : Id) :
    Prop :=
  ∃ fuel s', startRound fuel o s = .done s' ∧ s'.roundWinner = some w ∧
    inGame s' w = true ∧ (hand s' w).Perm exit.prizeCards ∧
    ∀ id, id ≠ w → hand s' id = hand exit.state id

/-- The war of a round is fought by those who lead the cards placed. -/
theorem roundWar_inv {s : War Id} (hwf : WellFormed s) {fuel : Nat}
    {o : Schedule Id} {exit : WarExit Id}
    (hwar : roundWar fuel o s = .done (some exit)) :
    ∃ rc holders, Records s 1 (active s) rc ∧ holders.Nodup ∧
      2 ≤ holders.length ∧ (∀ id, id ∈ holders ↔ LeadsRound s id) ∧
      war fuel o 0 holders (placedCards s) (afterPlacing s) = .done exit ∧
      WarRun holders (placedCards s) (afterPlacing s)
        (laterComparisons fuel o holders s) exit ∧
      roundComparisons fuel o s
        = firstComparison s rc :: laterComparisons fuel o holders s ∧
      startRound fuel o s
        = (settleRound fuel o holders (placedCards s) (afterPlacing s) >>=
            fun t => .done (t.updateGameStatus o.players)) := by
  obtain ⟨rc, hplace, hrc, hkeys⟩ := placeCards_records hwf
  simp only [roundWar] at hwar
  rw [hplace, Outcome.done_bind] at hwar
  by_cases hlive : Live s
  · obtain ⟨holders, hholders, hnd, hne, hlead⟩ :=
      firstHolders hlive hrc o.roundCards
    have htwo : 2 ≤ holders.length := by
      refine length_two_le hne (fun v hv => ?_)
      subst hv
      simp only [hholders, Outcome.done_bind] at hwar
      cases Outcome.done.inj hwar
    obtain ⟨a, b, rest, rfl⟩ := exists_cons_cons htwo
    have hrun : war fuel o 0 (a :: b :: rest) (placedCards s)
        (afterPlacing s) = .done exit := by
      simp only [hholders, Outcome.done_bind] at hwar
      obtain ⟨e, he, hsome⟩ := Outcome.bind_eq_done.mp hwar
      have hexit : e = exit := Option.some.inj (Outcome.done.inj hsome)
      rw [← hexit]
      exact he
    obtain ⟨hround, hcs⟩ :=
      startRound_of_holders hplace hrc hkeys hholders fuel
    exact ⟨rc, a :: b :: rest, hrc, hnd, htwo, hlead, hrun,
      war_inv o _ _ _ _ _ _ (hwf.turn 1 (active s))
        (holders_first hnd hlead) hrun, hcs, hround⟩
  · simp only [firstHolders_of_not_live hlive hkeys o.roundCards,
      Outcome.trap_bind] at hwar
    simp at hwar

/-- A draw thrown in a round is a draw of the hands before it. -/
theorem drawn_of_roundWar {s : War Id} (hwf : WellFormed s) {fuel : Nat}
    {o : Schedule Id} {exit : WarExit Id}
    (hwar : roundWar fuel o s = .done (some exit)) {ids : List Id}
    (hthrown : exit.thrown = some (.draw ids)) : Drawn s := by
  obtain ⟨rc, holders, -, hnd, htwo, hlead, -, hrun, -⟩ :=
    roundWar_inv hwf hwar
  exact drawn_of_draw hnd htwo hlead hrun hthrown

/-- **The tie-breaker never decides a draw**, whoever played the highest
    suit. -/
theorem tie_break_never_won {s : War Id} (hwf : WellFormed s) {fuel : Nat}
    {o : Schedule Id} {exit : WarExit Id}
    (hwar : roundWar fuel o s = .done (some exit)) {ids : List Id}
    (hthrown : exit.thrown = some (.draw ids)) {w : Id}
    (_hleader : SuitLeader exit.state ids w) : ¬ TieBreakWon o s exit w := by
  rintro ⟨fuel', s', hrun, hw, -⟩
  -- a round that a draw was thrown in has no winner
  rcases roundWinner_cases hwf hrun with ⟨v, -, -, hnot⟩ | ⟨hnone, -⟩
  · exact hnot (drawn_of_roundWar hwf hwar hthrown)
  · rw [hnone] at hw
    simp at hw

theorem tie_break_never_won_three :
    ∃ w d exit, War.init 2 (stacked drawDeck drawDeck_perm) 1 = .done w ∧
      dealCards 60 (w.addPlayers threeSeats) = .done d ∧
      roundWar 60 inOrder d = .done (some exit) ∧
      ¬ TieBreakWon inOrder d exit "C" := by
  have hgame : ∃ w, War.init 2 (stacked drawDeck drawDeck_perm) 1 = .done w ∧
      ∃ d, dealCards 60 (w.addPlayers threeSeats) = .done d ∧
      ∃ exit, roundWar 60 inOrder d = .done (some exit) ∧
        exit.thrown = some (.draw ["B", "C"]) ∧
        SuitLeader exit.state ["B", "C"] "C" := by
    decide +kernel
  obtain ⟨w, hinit, d, hdeal, exit, hwar, hthrown, hleader⟩ := hgame
  have hready := newGame_ready hinit newPlayers_three
  have hwf : WellFormed d :=
    (Reaches.dealt hdeal).wellFormed hready.wellFormed
  exact ⟨w, d, exit, hinit, hdeal, hwar,
    tie_break_never_won hwf hwar hthrown hleader⟩

/-- In that game `C` plays the highest suit of a draw and is not given the
    round. -/
theorem highest_suit_does_not_win :
    ∃ w d exit, War.init 2 (stacked drawDeck drawDeck_perm) 1 = .done w ∧
      NewPlayers threeSeats ∧ Reaches (w.addPlayers threeSeats) d ∧
      roundWar 60 inOrder d = .done (some exit) ∧
      exit.thrown = some (.draw ["B", "C"]) ∧
      SuitLeader exit.state ["B", "C"] "C" ∧
      ¬ TieBreakWon inOrder d exit "C" := by
  have hgame : ∃ w, War.init 2 (stacked drawDeck drawDeck_perm) 1 = .done w ∧
      ∃ d, dealCards 60 (w.addPlayers threeSeats) = .done d ∧ Drawn d ∧
      ∃ exit, roundWar 60 inOrder d = .done (some exit) ∧
        exit.thrown = some (.draw ["B", "C"]) ∧
        SuitLeader exit.state ["B", "C"] "C" := by
    decide +kernel
  obtain ⟨w, hinit, d, hdeal, hdrawn, exit, hwar, hthrown, hleader⟩ := hgame
  have hreach : Reaches (w.addPlayers threeSeats) d := .dealt hdeal
  have hwf := hreach.wellFormed
    (newGame_ready hinit newPlayers_three).wellFormed
  refine ⟨w, d, exit, hinit, newPlayers_three, hreach, hwar, hthrown,
    hleader, ?_⟩
  rintro ⟨fuel, s', hrun, hw, -⟩
  rcases roundWinner_cases hwf hrun with ⟨v, -, -, hnot⟩ | ⟨hnone, -⟩
  · exact hnot hdrawn
  · rw [hnone] at hw
    simp at hw

end Draws
