import CardCrucible.Lockstep

/-! # Renaming — a round is fair to every id

    `placeCards` sorts the players by id, and everything after it runs over
    dictionaries.  Still the ids only fix the order of the cards a winner
    collects: on a renamed table a round takes the same steps, so who wins it,
    who is eliminated and what is left in every hand are the same, renamed. -/

namespace Renaming

open Outcomes Arrangements Dictionaries CardModel DeckModel PlayerModel
open WarModel WarModel.War WarState WarTurn Comparisons WarRuns Spending
open Dealing Rounds GameStatus RoundLaws Games Standings Lockstep

variable {Id Id' : Type} [LinearOrder Id] [LinearOrder Id']

/-- A tournament player under its new id. -/
def renameTournament (π : Id ≃ Id') (p : TournamentPlayer Id) :
    TournamentPlayer Id' where
  name := p.name
  playerID := π p.playerID
  cards := p.cards
  lastPlayedCard := p.lastPlayedCard
  eliminated := p.eliminated

/-- A player under its new id. -/
def renamePlayer (π : Id ≃ Id') : GamePlayer Id → GamePlayer Id'
  | .player p => .player
      { name := p.name
        playerID := π p.playerID
        cards := p.cards
        lastPlayedCard := p.lastPlayedCard }
  | .tournament p => .tournament (renameTournament π p)

/-- The game with every id renamed. -/
def rename (π : Id ≃ Id') (s : War Id) : War Id' where
  gameDeck := s.gameDeck
  players := s.players.rename π (renamePlayer π)
  gameover := s.gameover
  roundWinner := s.roundWinner.map π

theorem tournamentPlayer?_rename (π : Id ≃ Id') (s : War Id) (id : Id) :
    (rename π s).tournamentPlayer? (π id)
      = (s.tournamentPlayer? id).map (renameTournament π) := by
  simp only [tournamentPlayer?]
  show ((s.players.rename π (renamePlayer π)).get? (π id)).bind _ = _
  rw [Dictionary.get?_rename]
  cases s.players.get? id with
  | none => rfl
  | some g => cases g <;> rfl

/-- Renaming changes nobody's standing. -/
theorem alike_rename (π : Id ≃ Id') (s : War Id) : Alike π s (rename π s) := by
  intro id
  simp only [standing]
  rw [tournamentPlayer?_rename]
  cases s.tournamentPlayer? id <;> rfl

omit [LinearOrder Id] [LinearOrder Id'] in
theorem WellFormed.rename {s : War Id} (h : WellFormed s) (π : Id ≃ Id') :
    WellFormed (rename π s) := by
  intro e' he'
  obtain ⟨e, he, heq⟩ := List.mem_map.mp he'
  obtain ⟨p, hp, hid⟩ := h e he
  rw [← heq]
  refine ⟨renameTournament π p, ?_, congrArg π hid⟩
  show renamePlayer π e.2 = _
  rw [hp]
  rfl

section Round

variable {π : Id ≃ Id'} {s : War Id} {t : War Id'}
variable {fuel fuel' : Nat} {o : Schedule Id} {o' : Schedule Id'}
variable {s' : War Id} {t' : War Id'}

/-- Rounds on tables that are alike are settled alike, and corresponding
    players put down the same cards. -/
theorem settled_of_alike (h : Alike π s t) (hwf : WellFormed s)
    (hwf' : WellFormed t) (hrun : startRound fuel o s = .done s')
    (hrun' : startRound fuel' o' t = .done t') :
    (∃ a b, Settled π (fun P P' => P'.Perm P) s t a b ∧
      s' = a.updateGameStatus o.players ∧
      t' = b.updateGameStatus o'.players) ∧
    ∀ id, playedIn (roundComparisons fuel' o' t) (π id)
      = playedIn (roundComparisons fuel o s) id := by
  have hplaced := Alike.placed h
  obtain ⟨rc, rc', cs, cs', a, b, hround, hrc, hrc', hcs, hcs', hs', ht'⟩ :=
    round_lockstep hplaced hwf hwf' hrun hrun'
  constructor
  · refine ⟨a, b, hround.settled hplaced hplaced.cards ?_, hs', ht'⟩
    exact fun _ hwars => hwars.prize_perm hplaced.cards
  · intro id
    have hfirst : rc'.getD (π id) [] = rc.getD id [] :=
      getD_alike h h.active hrc hrc' id
    rw [hcs, hcs', playedIn_cons, playedIn_cons, hround.playedIn_eq id]
    exact congrArg (· ++ playedIn cs id) hfirst

end Round

/-- **A round is fair**: under any renaming of the ids and in any iteration
    orders it returns if it did, the same players win and are eliminated, and
    the hands are the same up to the order of the cards won. -/
theorem round_fair {s : War Id} (hwf : WellFormed s) (π : Id ≃ Id')
    (o : Schedule Id) (o' : Schedule Id') :
    ((∃ fuel s', startRound fuel o s = .done s') ↔
      ∃ fuel t', startRound fuel o' (rename π s) = .done t') ∧
    ∀ fuel fuel' s' t', startRound fuel o s = .done s' →
      startRound fuel' o' (rename π s) = .done t' →
      t'.roundWinner = s'.roundWinner.map π ∧
      (∀ id, inGame t' (π id) = inGame s' id ∧
        isOut t' (π id) = isOut s' id) ∧
      t'.gameover = s'.gameover ∧
      ∀ w, s'.roundWinner = some w →
        (∀ id, id ≠ w → hand t' (π id) = hand s' id) ∧
        ∃ kept won won' : List Card,
          kept = leftOver s (playedIn (roundComparisons fuel o s)) w ∧
          won.Perm
            ((active s).flatMap (playedIn (roundComparisons fuel o s))) ∧
          won'.Perm won ∧ hand s' w = kept ++ won ∧
          hand t' (π w) = kept ++ won' := by
  have halike := alike_rename π s
  have hwf' := WellFormed.rename hwf π
  constructor
  · constructor
    · rintro ⟨fuel, s', hrun⟩
      exact returns_of_placed (Alike.placed halike) hwf hwf' hrun o'
    · rintro ⟨fuel, t', hrun'⟩
      exact returns_of_placed (Alike.placed halike.symm) hwf' hwf hrun' o
  · intro fuel fuel' s' t' hrun hrun'
    obtain ⟨⟨a, b, hsettled, hs', ht'⟩, hput⟩ :=
      settled_of_alike halike hwf hwf' hrun hrun'
    -- the update of the game status leaves all but one flag alone
    obtain ⟨ga, hga⟩ := updateGameStatus_frame o.players a
    obtain ⟨gb, hgb⟩ := updateGameStatus_frame o'.players b
    have hsa : s' = { a with gameover := ga } := hs'.trans hga
    have htb : t' = { b with gameover := gb } := ht'.trans hgb
    have hin : ∀ id, inGame t' (π id) = inGame s' id := by
      intro id
      rw [hsa, htb]
      exact hsettled.inGame_eq id
    have hwinner : t'.roundWinner = s'.roundWinner.map π := by
      rw [hsa, htb]
      exact hsettled.roundWinner_eq
    refine ⟨hwinner, fun id => ⟨hin id, ?_⟩, ?_, ?_⟩
    · rw [hsa, htb]
      exact hsettled.isOut_eq id
    · rw [gameover_startRound hwf hrun, gameover_startRound hwf' hrun',
        length_survivors_eq hin]
      rfl
    · intro w hw
      have hw' : t'.roundWinner = some (π w) := by
        rw [hwinner, hw]
        rfl
      obtain ⟨won, hwon, hhand⟩ := hand_winner hwf hrun hw
      obtain ⟨won', hwon', hhand'⟩ := hand_winner hwf' hrun' hw'
      refine ⟨?_, _, won, won', rfl, hwon, ?_, hhand, ?_⟩
      · intro id hne
        rw [hsa] at hw ⊢
        rw [htb]
        exact hsettled.hand_eq hw hne
      · exact hwon'.trans
          ((halike.active.flatMap_perm hput).trans hwon.symm)
      · rw [hhand']
        simp only [leftOver]
        rw [hput w, halike.hand_eq w]

/-- Two aces, and a war that `A` wins. -/
def acesTable : War String :=
  table [("A", cardsAt [48, 0, 44, 8]), ("B", cardsAt [49, 1, 40])]

/-- With the ids exchanged `B` wins it. -/
theorem round_fair_exchanged :
    ∃ s' t', startRound 9 inOrder acesTable = .done s' ∧
      startRound 9 inOrder (rename (Equiv.swap "A" "B") acesTable)
        = .done t' ∧
      t'.roundWinner = some "B" ∧ hand t' "A" = hand s' "B" := by
  have hrun : ∃ s', startRound 9 inOrder acesTable = .done s' ∧
      s'.roundWinner = some "A" := by decide +kernel
  have hrun' : ∃ t', startRound 9 inOrder
      (rename (Equiv.swap "A" "B") acesTable) = .done t' ∧ True := by
    decide +kernel
  obtain ⟨s', hdone, hw⟩ := hrun
  obtain ⟨t', hdone', -⟩ := hrun'
  obtain ⟨hwinner, -, -, hhands⟩ := (round_fair (s := acesTable) (by decide)
    (Equiv.swap "A" "B") inOrder inOrder).2 9 9 s' t' hdone hdone'
  have hB : hand t' (Equiv.swap "A" "B" "B") = hand s' "B" :=
    (hhands "A" hw).1 "B" (by decide)
  rw [Equiv.swap_apply_right] at hB
  refine ⟨s', t', hdone, hdone', ?_, hB⟩
  rw [hwinner, hw]
  exact congrArg some (Equiv.swap_apply_left "A" "B")

end Renaming
