import CardCrucible.Relabelling

/-! # Suits — what a game never looks at

    The rules break the last ties by suit, and `determineHighCardHolders` has
    a branch that compares suits.  It is only reached with players who are all
    eliminated, whom it skips, so rounds and games commute with a `Relabelling`
    as everything else does.

    So a game can be replayed with other suits.  If the iteration orders of
    the dictionaries depend on the keys alone, two tables with the same ranks
    trap alike, run alike and announce the same line. -/

namespace Suits

open Outcomes Arrangements Dictionaries CardModel DeckModel PlayerModel
open WarModel WarModel.War WarState WarTurn Comparisons WarRuns Spending
open Dealing Rounds GameStatus RoundLaws Games Twins

variable {Id : Type}

namespace Relabelling

section Tables

variable [LinearOrder Id] (ρ : Relabelling)

/-! ## Rounds -/

theorem announceCards_table (s : War Id) (entries : List (Id × List Card)) :
    announceCards (ρ.table s) (entries.map (fun e => (e.1, ρ.cards e.2)))
      = announceCards s entries := by
  induction entries with
  | nil => rfl
  | cons e rest ih =>
      obtain ⟨id, l⟩ := e
      have hget : (ρ.table s).players.get? id
          = (s.players.get? id).map ρ.gamePlayer :=
        Dictionary.get?_mapValues ..
      simp only [List.map_cons, announceCards]
      rw [hget, ih]
      cases s.players.get? id with
      | none => cases l <;> rfl
      | some g => cases l <;> rfl

omit [LinearOrder Id] in
theorem updateGameStatus_table {order : Arrangement (Id × GamePlayer Id)}
    (horder : order.KeyDriven) (s : War Id) :
    (ρ.table s).updateGameStatus order
      = ρ.table (s.updateGameStatus order) := by
  have hcount : ∀ (entries : List (Id × GamePlayer Id)) (n : Nat),
      countNotEliminated
          (entries.map (fun e => (e.1, ρ.gamePlayer e.2))) n
        = countNotEliminated entries n := by
    intro entries
    induction entries with
    | nil => intro n; rfl
    | cons e rest ih =>
        intro n
        obtain ⟨id, g⟩ := e
        cases g with
        | player p => simp only [List.map_cons, countNotEliminated, ih]; rfl
        | tournament p =>
            simp only [List.map_cons, countNotEliminated, ih]
            rfl
  have hnum : (ρ.table s).numPlayers = s.numPlayers := List.length_map ..
  have hentries : order.arrange (ρ.table s).players.entries
      = (order.arrange s.players.entries).map
          (fun e => (e.1, ρ.gamePlayer e.2)) :=
    horder ρ.gamePlayer s.players.entries
  simp only [updateGameStatus]
  rw [hentries, hcount, hnum]
  cases countNotEliminated (order.arrange s.players.entries) 0 with
  | none => rfl
  | some n => exact (apply_ite ρ.table (n = 1 ∨ n = s.numPlayers)
      { s with gameover := true } s).symm

theorem setDeckCards_deck (d : Deck) (l : List Card) :
    (ρ.deck d).setDeckCards (ρ.cards l) = ρ.deck (d.setDeckCards l) := by
  obtain ⟨decks, num⟩ := d
  cases decks <;> rfl

/-- Among eliminated players the handler of a draw reads no suits. -/
theorem handleDraw_table {s : War Id} {ids : List Id} (hnd : ids.Nodup)
    (htwo : 2 ≤ ids.length) (hout : ∀ id ∈ ids, isOut s id = true)
    (hlast : ∀ id ∈ ids, ∃ c, lastPlayed s id = some c)
    (fuel : Nat) (o : Schedule Id) (l : List Card) :
    handleDraw fuel o ids (ρ.cards l) (ρ.table s)
      = (handleDraw fuel o ids l s).map ρ.table := by
  have hout' : ∀ id ∈ ids, isOut (ρ.table s) id = true := by
    intro id hid
    rw [isOut_table]
    exact hout id hid
  have hlast' : ∀ id ∈ ids, ∃ c, lastPlayed (ρ.table s) id = some c := by
    intro id hid
    obtain ⟨c, hc⟩ := hlast id hid
    rw [lastPlayed_table, hc]
    exact ⟨ρ.card c, rfl⟩
  rw [handleDraw_eq hnd htwo hout hlast, handleDraw_eq hnd htwo hout' hlast',
    ← dealCards_table]
  have hdeck : (ρ.table s).gameDeck.setDeckCards (ρ.cards l)
      = ρ.deck (s.gameDeck.setDeckCards l) := ρ.setDeckCards_deck _ _
  rw [hdeck]
  rfl

/-- A sole high card holder is paid whatever the suits. -/
theorem settleRound_sole_table (fuel : Nat) (o : Schedule Id) (w : Id)
    (l : List Card) (s : War Id) :
    settleRound fuel o [w] (ρ.cards l) (ρ.table s)
      = (settleRound fuel o [w] l s).map ρ.table := by
  simp only [settleRound]
  rw [tournamentPlayer?_table]
  cases s.tournamentPlayer? w with
  | none => rfl
  | some p =>
      have hpaid := ρ.paid_table s w p l
      exact congrArg (fun u => Outcome.done
        { u with roundWinner := some p.id }) hpaid.symm

theorem settleRound_table {s : War Id} (hwf : WellFormed s)
    {holders : List Id} (hnd : holders.Nodup) (hne : holders ≠ [])
    (hlead : ∀ id, id ∈ holders ↔ LeadsRound s id) {o : Schedule Id}
    (horder : ∀ n, (o.warParticipants n).KeyDriven) (fuel : Nat) :
    settleRound fuel o holders (ρ.cards (placedCards s))
        (ρ.table (afterPlacing s))
      = (settleRound fuel o holders (placedCards s)
          (afterPlacing s)).map ρ.table := by
  by_cases hone : ∃ w, holders = [w]
  · obtain ⟨w, rfl⟩ := hone
    exact ρ.settleRound_sole_table fuel o w _ _
  · have hmany : ∀ w, holders ≠ [w] := fun w hw => hone ⟨w, hw⟩
    have htwo := length_two_le hne hmany
    rw [settleRound_war hmany, settleRound_war hmany, ρ.war_table horder]
    refine Outcome.map_bind ?_
    intro e hwar
    have hrun := war_inv o _ _ _ _ _ _ (hwf.turn 1 (active s))
      (holders_first hnd hlead) hwar
    have hexit : (ρ.exit e).thrown = e.thrown := rfl
    simp only [hexit]
    cases hthrown : e.thrown with
    | none => rfl
    | some ev =>
        obtain ⟨ids⟩ := ev
        have hfacts := drawFacts hrun (holders_first hnd hlead) htwo hthrown
        refine ρ.handleDraw_table hfacts.nodup hfacts.two hfacts.out ?_ fuel o
          e.prizeCards
        refine lastPlayed_of_draw hrun ?_ hthrown
        intro id hid
        obtain ⟨hact, card, hcard, -⟩ := (hlead id).mp hid
        exact lastPlayed_of_shows hact (mem_active.mp hact) Nat.zero_lt_one
          ((shows_isSome Nat.zero_lt_one).mp ⟨card, hcard⟩)

/-- **A round commutes with an exchange of suits.** -/
theorem startRound_table {s : War Id} (hwf : WellFormed s) {o : Schedule Id}
    (horder : KeyDriven o) (fuel : Nat) :
    startRound fuel o (ρ.table s) = (startRound fuel o s).map ρ.table := by
  by_cases hlive : Live s
  · obtain ⟨rc, hplace, hrc, hkeys⟩ := placeCards_records hwf
    obtain ⟨holders, hholders, hnd, hne, hlead⟩ :=
      firstHolders hlive hrc o.roundCards
    have hplace' : placeCards (ρ.table s)
        = .done (ρ.recorded rc, ρ.cards (placedCards s),
            ρ.table (afterPlacing s)) := by
      rw [ρ.placeCards_table hwf, hplace]
      rfl
    simp only [startRound]
    simp only [hplace, hplace', Outcome.done_bind,
      ρ.arrange_recorded horder.roundCards, announceCards_table,
      announceCards_placed hrc hkeys,
      ρ.determineHighCardHolders_table horder.roundCards, hholders]
    rw [ρ.settleRound_table hwf hnd hne hlead horder.warParticipants]
    refine Outcome.map_bind ?_
    intro t _
    show Outcome.done _ = Outcome.done _
    rw [ρ.updateGameStatus_table horder.players]
  · have hnot : ¬ Live (ρ.table s) := fun h => hlive ((ρ.live_table s).mp h)
    rw [startRound_of_not_live hwf hlive,
      startRound_of_not_live (ρ.wellFormed_table.mpr hwf) hnot]
    rfl

/-! ## Games -/

theorem playRounds_table {s : War Id} (hwf : WellFormed s)
    {os : Nat → Schedule Id} (horder : ∀ n, KeyDriven (os n)) (fuel n : Nat) :
    playRounds fuel os n (ρ.table s)
      = (playRounds fuel os n s).map ρ.table := by
  induction n with
  | zero => rfl
  | succ n ih =>
      show (playRounds fuel os n (ρ.table s) >>= _) = _
      rw [ih]
      refine Outcome.map_bind ?_
      intro t ht
      exact ρ.startRound_table (wellFormed_playRounds hwf ht) (horder n) fuel

theorem announceWinner_table (s : War Id) :
    (ρ.table s).announceWinner = s.announceWinner := by
  have hget : ∀ id, (ρ.table s).players.get? id
      = (s.players.get? id).map ρ.gamePlayer :=
    fun id => Dictionary.get?_mapValues ..
  have hwinner : (ρ.table s).roundWinner = s.roundWinner := rfl
  simp only [announceWinner]
  rw [hwinner]
  cases s.roundWinner with
  | none => rfl
  | some w =>
      simp only [hget]
      cases s.players.get? w <;> rfl

theorem announcement_table (s : War Id) :
    (ρ.table s).announcement = s.announcement := by
  have hget : ∀ id, (ρ.table s).players.get? id
      = (s.players.get? id).map ρ.gamePlayer :=
    fun id => Dictionary.get?_mapValues ..
  have hwinner : (ρ.table s).roundWinner = s.roundWinner := rfl
  simp only [announcement]
  rw [hwinner]
  cases s.roundWinner with
  | none => rfl
  | some w =>
      simp only [hget]
      cases s.players.get? w with
      | none => rfl
      | some g => cases g <;> rfl

theorem gameLoop_table {fuel : Nat} (rounds : Nat) :
    ∀ {os : Nat → Schedule Id} {s : War Id}, WellFormed s →
      (∀ n, KeyDriven (os n)) →
      gameLoop fuel rounds os (ρ.table s)
        = (gameLoop fuel rounds os s).map ρ.table := by
  induction rounds with
  | zero => intro os s _ _; rfl
  | succ rounds ih =>
      intro os s hwf horder
      simp only [gameLoop]
      show (if s.gameover = true then _ else _) = _
      cases s.gameover with
      | true => rfl
      | false =>
          simp only [Bool.false_eq_true, if_false]
          rw [ρ.startRound_table hwf (horder 0)]
          refine Outcome.map_bind ?_
          intro t ht
          rw [announceWinner_table]
          cases t.announceWinner with
          | trap r => rfl
          | outOfFuel => rfl
          | done u =>
              exact ih (wellFormed_startRound hwf ht) (fun n => horder (n + 1))

/-- **A game commutes with an exchange of suits**, its last line included. -/
theorem startGame_table {s : War Id} (hwf : WellFormed s)
    {os : Nat → Schedule Id} (horder : ∀ n, KeyDriven (os n))
    (fuel rounds : Nat) :
    startGame fuel rounds os (ρ.table s)
      = (startGame fuel rounds os s).map (fun r => (ρ.table r.1, r.2)) := by
  have hnum : (ρ.table s).numPlayers = s.numPlayers := List.length_map ..
  simp only [startGame]
  rw [hnum]
  by_cases htwo : 1 < s.numPlayers
  · rw [if_pos htwo, if_pos htwo, dealCards_table]
    refine Outcome.map_bind ?_
    intro t ht
    obtain ⟨share, hdealt⟩ := dealCards_dealt ht
    rw [ρ.gameLoop_table rounds (hdealt.wellFormed hwf) horder]
    refine Outcome.map_bind ?_
    intro u _
    rw [announcement_table]
    cases u.announcement <;> rfl
  · rw [if_neg htwo, if_neg htwo]
    rfl

end Tables

end Relabelling

/-! ## Tables with the same ranks -/

section SameRanks

variable [LinearOrder Id]

open Relabelling

/-- Two tables that differ in the suits of their cards only. -/
def SameRanks (s t : War Id) : Prop := plain.table s = plain.table t

omit [LinearOrder Id] in
/-- An exchange of suits gives such tables. -/
theorem sameRanks_table (ρ : Relabelling) (s : War Id) :
    SameRanks (ρ.table s) s := by
  have hcards : ∀ l, plain.cards (ρ.cards l) = plain.cards l := by
    intro l
    simp only [cards]
    rw [List.map_map]
    exact List.map_congr_left (fun c _ => ρ.plain_card c)
  have hlast : ∀ c : Option Card,
      (c.map ρ.card).map plain.card = c.map plain.card := by
    intro c
    cases c with
    | none => rfl
    | some c => exact congrArg some (ρ.plain_card c)
  obtain ⟨⟨⟨decks, num⟩, players, gameover⟩, winner⟩ := s
  have hplayers : (players.mapValues (fun _ => ρ.gamePlayer)).mapValues
      (fun _ => plain.gamePlayer)
      = players.mapValues (fun _ => plain.gamePlayer) := by
    rw [Dictionary.mapValues_mapValues]
    refine Dictionary.mapValues_congr (fun e _ => ?_)
    obtain ⟨id, g⟩ := e
    cases g with
    | player p =>
        simp only [gamePlayer, player, hcards, hlast]
    | tournament p =>
        simp only [gamePlayer, tournamentPlayer, hcards, hlast]
  simp only [SameRanks, Relabelling.table, deck, hcards, hplayers]

namespace SameRanks

variable {s t : War Id}

theorem ranks_eq (h : SameRanks s t) (id : Id) :
    (hand s id).map Card.rank = (hand t id).map Card.rank := by
  have hmap : ∀ l, (plain.cards l).map Card.rank = l.map Card.rank := by
    intro l
    simp only [cards]
    rw [List.map_map]
    rfl
  have hhand : (hand (plain.table s) id).map Card.rank
      = (hand (plain.table t) id).map Card.rank :=
    congrArg (fun u => (hand u id).map Card.rank) h
  rw [hand_table, hand_table, hmap, hmap] at hhand
  exact hhand

theorem inGame_eq (h : SameRanks s t) (id : Id) :
    inGame s id = inGame t id := by
  have hin : inGame (plain.table s) id = inGame (plain.table t) id :=
    congrArg (fun u => inGame u id) h
  rw [inGame_table, inGame_table] at hin
  exact hin

omit [LinearOrder Id] in
theorem wellFormed (h : SameRanks s t) (hwf : WellFormed s) :
    WellFormed t := by
  have hplain : plain.table s = plain.table t := h
  rw [← plain.wellFormed_table, ← hplain]
  exact plain.wellFormed_table.mpr hwf

end SameRanks

/-- **Suits never matter**: from two tables with the same ranks any number of
    rounds, and the whole game, trap alike, lack fuel alike, or leave tables
    with the same ranks, the same players in the game, the same flag, the same
    winner and the same last line. -/
theorem suits_never_matter {s t : War Id} (hwf : WellFormed s)
    (hranks : SameRanks s t) {os : Nat → Schedule Id}
    (horder : ∀ n, KeyDriven (os n)) (fuel : Nat) :
    (∀ n, Outcome.Rel SameRanks (playRounds fuel os n s)
      (playRounds fuel os n t)) ∧
    ∀ rounds, Outcome.Rel
      (fun a b => SameRanks a.1 b.1 ∧ (∀ id,
        (hand a.1 id).map Card.rank = (hand b.1 id).map Card.rank ∧
          inGame a.1 id = inGame b.1 id) ∧
        a.1.gameover = b.1.gameover ∧ a.1.roundWinner = b.1.roundWinner ∧
        a.2 = b.2)
      (startGame fuel rounds os s) (startGame fuel rounds os t) := by
  have hwf' := hranks.wellFormed hwf
  have hplain : plain.table s = plain.table t := hranks
  constructor
  · intro n
    refine Outcome.Rel.of_map_eq ?_
    rw [← plain.playRounds_table hwf horder,
      ← plain.playRounds_table hwf' horder, hplain]
  · intro rounds
    have hrel : Outcome.Rel
        (fun a b : War Id × String =>
          (plain.table a.1, a.2) = (plain.table b.1, b.2))
        (startGame fuel rounds os s) (startGame fuel rounds os t) := by
      refine Outcome.Rel.of_map_eq ?_
      rw [← plain.startGame_table hwf horder,
        ← plain.startGame_table hwf' horder, hplain]
    refine hrel.mono ?_
    intro a b hab
    have htable : SameRanks a.1 b.1 := congrArg Prod.fst hab
    exact ⟨htable, fun id => ⟨htable.ranks_eq id, htable.inGame_eq id⟩,
      congrArg (fun r => r.1.gameover) hab,
      congrArg (fun r => r.1.roundWinner) hab, (Prod.mk.inj hab).2⟩

/-- Two tables of a war, with the same ranks and other suits. -/
def lowSuits : War String :=
  Games.table [("A", cardsAt [0, 8, 48]), ("B", cardsAt [1, 20])]

def highSuits : War String :=
  Games.table [("A", cardsAt [3, 11, 50]), ("B", cardsAt [3, 21])]

theorem suits_never_matter_war :
    Outcome.Rel SameRanks (playRounds 3 (fun _ => inOrder) 2 lowSuits)
      (playRounds 3 (fun _ => inOrder) 2 highSuits) := by
  have hwf : WellFormed lowSuits := by decide
  have horder : KeyDriven inOrder :=
    ⟨Arrangement.keyDriven_keep, fun _ => Arrangement.keyDriven_keep,
      Arrangement.keyDriven_keep⟩
  have hranks : SameRanks lowSuits highSuits := rfl
  exact (suits_never_matter hwf hranks (fun _ => horder) 3).1 2

end SameRanks

end Suits
