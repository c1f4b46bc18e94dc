import CardCrucible.Costs
import CardCrucible.Faces
import CardCrucible.Payout

/-! # The transcript — what a game prints

    A round prints who played what, then "at war" whenever `war` is entered,
    and then its winner if it has one; a game ends with a line of its own.
    Here the lines are collected along the same calls that make up a round and
    a game.  The number of wars of a round can be told from the hands before
    it: there is one for every rung on which the top has a rival.

    Cards are named as their images are.  Any names will do here, so they are
    a parameter. -/

namespace Transcript

open Outcomes Arrangements Dictionaries CardModel DeckModel PlayerModel
open WarModel WarModel.War WarState WarTurn Comparisons WarRuns Spending
open Dealing Rounds GameStatus RoundLaws Games Ladders Climbs Strength
open RoundStrength Payout Costs

variable {Id : Type} [LinearOrder Id] (cardName : Card → String)

/-! ## The lines -/

/-- The loop of `startRound` that builds the message of a round. -/
def messageLoop (s : War Id) : String → List (Id × List Card) → Outcome String
  | msg, [] => .done msg
  | msg, (id, cards) :: rest =>
      match s.players.get? id, cards[0]? with
      | some p, some card =>
          messageLoop s
            (msg ++ (p.toPlayer.name ++ " played " ++ cardName card ++ ". "))
            rest
      | none, _ => .trap "Unexpectedly found nil while unwrapping an Optional"
      | _, none => .trap "Index out of range"

/-- What `war(_:_:)` prints. -/
def warLines : Nat → Schedule Id → Nat → List Id → List Card → War Id →
    List String
  | 0, _, _, _, _, _ => []
  | fuel + 1, o, depth, highCardHolders, prizeCards, s =>
      "at war" ::
        match warDraws highCardHolders prizeCards s with
        | .done (_, false, prizeCards, warParticipants, s) =>
            match s.determineHighCardHolders (o.warParticipants depth)
                warParticipants false with
            | .done [_] => []
            | .done newHighCardHolders =>
                warLines fuel o (depth + 1) newHighCardHolders prizeCards s
            | _ => []
        | _ => []

/-- What `startRound()` prints. -/
def roundLines (fuel : Nat) (o : Schedule Id) (s : War Id) : List String :=
  match s.placeCards with
  | .done (roundCards, cards, s) =>
      match messageLoop cardName s ""
          (o.roundCards.arrange roundCards.entries) with
      | .done msg =>
          msg ::
            match s.determineHighCardHolders o.roundCards roundCards false with
            | .done [_] => []
            | .done highCardHolders =>
                warLines fuel o 0 highCardHolders cards s
            | _ => []
      | _ => []
  | _ => []

/-- What the loop of `startGame` prints of the winner of a round. -/
def winnerLines (s : War Id) : List String :=
  match s.roundWinner with
  | some winner =>
      match s.players.get? winner with
      | some p => ["round winner: " ++ p.toPlayer.name]
      | none => []
  | none => []

/-- What the loop of `startGame` prints. -/
def gameLines (fuel : Nat) : Nat → (Nat → Schedule Id) → War Id → List String
  | 0, _, _ => []
  | rounds + 1, os, s =>
      if s.gameover then []
      else
        roundLines cardName fuel (os 0) s ++
          match startRound fuel (os 0) s with
          | .done s =>
              winnerLines s ++ gameLines fuel rounds (fun n => os (n + 1)) s
          | _ => []

/-- What `startGame()` prints. -/
def startGameLines (fuel rounds : Nat) (os : Nat → Schedule Id) (s : War Id) :
    List String :=
  if 1 < s.numPlayers then
    match dealCards fuel s with
    | .done s =>
        gameLines cardName fuel rounds os s ++
          match gameLoop fuel rounds os s with
          | .done s =>
              match s.announcement with
              | .done line => [line]
              | _ => []
          | _ => []
    | _ => []
  else []

/-- The unwraps of the message are those that can trap. -/
theorem announceCards_eq_message (s : War Id) :
    ∀ (entries : List (Id × List Card)) (msg : String),
      announceCards s entries
        = (messageLoop cardName s msg entries).map (fun _ => ()) := by
  intro entries
  induction entries with
  | nil => intro msg; rfl
  | cons e rest ih =>
      intro msg
      obtain ⟨id, cards⟩ := e
      simp only [announceCards, messageLoop]
      cases s.players.get? id with
      | none => cases cards[0]? <;> rfl
      | some p =>
          cases cards[0]? with
          | none => rfl
          | some card => exact ih _

/-! ## Wars -/

/-- A war that ends prints a line for each of its comparisons, and one more if
    it is drawn. -/
theorem warLines_of_done (o : Schedule Id) :
    ∀ (fuel depth : Nat) (holders : List Id) (prizeCards : List Card)
      (s : War Id) (e : WarExit Id),
      war fuel o depth holders prizeCards s = .done e →
      warLines fuel o depth holders prizeCards s
        = List.replicate
            ((warComparisons fuel o depth holders prizeCards s).length
              + if e.thrown = none then 0 else 1) "at war" := by
  intro fuel
  induction fuel with
  | zero => intro depth holders prizeCards s e h; cases h
  | succ fuel ih =>
      intro depth holders prizeCards s e h
      simp only [war] at h
      obtain ⟨⟨enough, failed, cards, participants, t⟩, hdraws, h⟩ :=
        Outcome.bind_eq_done.mp h
      simp only [warLines, warComparisons]
      rw [hdraws]
      cases failed with
      | true =>
          rw [← Outcome.done.inj h]
          rfl
      | false =>
          simp only [Bool.false_eq_true, if_false] at h
          obtain ⟨next, hnext, h⟩ := Outcome.bind_eq_done.mp h
          simp only [hnext]
          cases next with
          | nil =>
              simp only [ih _ _ _ _ e h]
              rw [List.length_cons, Nat.add_right_comm, List.replicate_succ]
          | cons a rest =>
              cases rest with
              | nil =>
                  cases hp : t.tournamentPlayer? a with
                  | none => simp only [hp] at h; cases h
                  | some p =>
                      simp only [hp] at h
                      rw [← Outcome.done.inj h]
                      rfl
              | cons b rest =>
                  simp only [ih _ _ _ _ e h]
                  rw [List.length_cons, Nat.add_right_comm,
                    List.replicate_succ]

/-- **What a war prints**: a line for every rung on which the top has a rival,
    and one more. -/
theorem warLines_eq {s : War Id} (hwf : WellFormed s) {holders : List Id}
    (h : Holders s holders) {t : Id} (htop : Tops holders (warStakes s) t)
    {fuel depth : Nat} {o : Schedule Id} {prizeCards : List Card}
    {e : WarExit Id}
    (hdone : war fuel o depth holders prizeCards s = .done e) :
    warLines fuel o depth holders prizeCards s
      = List.replicate (contested holders (warStakes s) t + 1) "at war" := by
  have hrun := war_inv o _ _ _ _ _ _ hwf h hdone
  rw [warLines_of_done o _ _ _ _ _ _ hdone]
  exact congrArg (List.replicate · "at war") (length_comparisons hrun htop)

/-! ## Rounds -/

/-- What a round says of a player: the first card of its hand. -/
def played (s : War Id) (id : Id) : String :=
  match nameOf s id, (hand s id)[0]? with
  | some name, some card => name ++ " played " ++ cardName card ++ ". "
  | _, _ => ""

/-- The message of a round that names players in a given order. -/
def said (s : War Id) : List Id → String
  | [] => ""
  | id :: ids => played cardName s id ++ said s ids

/-- The message names the entries of the cards placed one after the other. -/
theorem messageLoop_placed {s : War Id} (hwf : WellFormed s) :
    ∀ (entries : List (Id × List Card)) (msg : String),
      (∀ e ∈ entries, e.1 ∈ placers s ∧ e.2 = pile s 1 e.1) →
      messageLoop cardName (afterPlacing s) msg entries
        = .done (msg ++ said cardName s (entries.map Prod.fst)) := by
  intro entries
  induction entries with
  | nil =>
      intro msg _
      show Outcome.done msg = .done (msg ++ "")
      rw [String.append_empty]
  | cons e rest ih =>
      intro msg h
      obtain ⟨hplaces, hpile⟩ := h e List.mem_cons_self
      obtain ⟨id, cards⟩ := e
      obtain ⟨hin, hne⟩ := mem_placers.mp hplaces
      obtain ⟨p, hp, -⟩ := inGame_iff.mp hin
      obtain ⟨card, left, hhand⟩ := List.exists_cons_of_ne_nil hne
      have hhand' : hand s id = card :: left := hhand
      have hcards : cards = [card] := by
        rw [show cards = pile s 1 id from hpile]
        simp only [pile]
        rw [hhand']
        rfl
      have hget : (afterPlacing s).players.get? id
          = some (.tournament (playTurn 1 p)) := by
        have hwf' : WellFormed (afterPlacing s) := hwf.turn 1 (active s)
        rw [hwf'.get?_eq id]
        simp only [afterPlacing]
        rw [tournamentPlayer?_turn, show s.tournamentPlayer? id = some p from hp,
          Option.map_some, if_pos (mem_active.mpr hin)]
        rfl
      have hplayed : played cardName s id
          = p.name ++ " played " ++ cardName card ++ ". " := by
        simp only [played, nameOf]
        rw [show s.tournamentPlayer? id = some p from hp, hhand']
        rfl
      rw [hcards]
      simp only [messageLoop]
      rw [hget]
      show messageLoop cardName (afterPlacing s)
        (msg ++ (p.name ++ " played " ++ cardName card ++ ". ")) rest = _
      rw [ih _ (fun e he => h e (List.mem_cons_of_mem _ he)), ← hplayed,
        String.append_assoc]
      rfl

/-- **What a round prints**: the first card of everybody who places one, in
    some order, and then "at war" for every rung on which the top has a
    rival. -/
theorem roundLines_eq {s s' : War Id} (hwf : WellFormed s) {fuel : Nat}
    {o : Schedule Id} (h : startRound fuel o s = .done s') {t : Id}
    (htop : Tops (active s) (stakes s) t) :
    ∃ order, order.Perm (placers s) ∧
      roundLines cardName fuel o s = said cardName s order ::
        List.replicate (contested (active s) (stakes s) t) "at war" := by
  have hlive : Live s := by
    by_contra hlive
    rw [startRound_of_not_live hwf hlive fuel o] at h
    cases h
  obtain ⟨rc, hplace, hrc, hkeys⟩ := placeCards_records hwf
  obtain ⟨holders, hholders, hnd, hne, hlead⟩ :=
    firstHolders hlive hrc o.roundCards
  have hrung := rung_round s
  have hmessage := messageLoop_placed cardName hwf
    (o.roundCards.arrange rc.entries) "" (fun e he => by
      have he' : e ∈ rc.entries := (o.roundCards.mem_arrange _ e).mp he
      refine ⟨?_, hrc.entries e he'⟩
      rw [← hkeys]
      exact List.mem_map_of_mem he')
  refine ⟨(o.roundCards.arrange rc.entries).map Prod.fst, ?_, ?_⟩
  · rw [← hkeys]
    exact (o.roundCards.perm rc.entries).map Prod.fst
  · simp only [roundLines, hplace, hmessage, hholders]
    rw [String.empty_append]
    congr 1
    rw [(startRound_of_holders hplace hrc hkeys hholders fuel).1] at h
    obtain ⟨u, hsettle, -⟩ := Outcome.bind_eq_done.mp h
    by_cases hone : ∃ w, holders = [w]
    · obtain ⟨w, hw⟩ := hone
      have hlead' : ∀ id, LeadsRound s id ↔ id = w := fun id => by
        rw [← hlead id, hw, List.mem_singleton]
      rw [hw, (hrung.tops_iff_eq hlead' t).mp htop,
        contested_sole (leadsNext_sole hrung hlead')]
      rfl
    · have hmany : ∀ w, holders ≠ [w] := fun w hw => hone ⟨w, hw⟩
      have htwo := length_two_le hne hmany
      have htop' := (hrung.tops_iff hlead (exists_mem_of_two_le htwo) t).mp htop
      rw [settleRound_war hmany] at hsettle
      obtain ⟨e, hwar, -⟩ := Outcome.bind_eq_done.mp hsettle
      have hlines := warLines_eq (hwf.turn 1 (active s))
        (holders_first hnd hlead) htop' hwar
      rw [contested_rung hrung hnd htwo hlead htop'.1]
      obtain ⟨a, b, rest, rfl⟩ := exists_cons_cons htwo
      exact hlines

/-- The line of the winner names the player of the greatest strength, if it is
    not shared. -/
theorem winnerLines_eq {s s' : War Id} (hwf : WellFormed s) {fuel : Nat}
    {o : Schedule Id} (h : startRound fuel o s = .done s') :
    ∃ t, Tops (active s) (stakes s) t ∧
      winnerLines s' = if Drawn s then []
        else ["round winner: " ++ (nameOf s t).getD ""] := by
  obtain ⟨s'', u, prizeCards, hrun, hspent, -, hs'⟩ := startRound_dealt hwf h
  have hwinner : s'.roundWinner = s''.roundWinner := by
    rw [hs', roundWinner_updateGameStatus]
  rcases round_tops hrun with ⟨w, hw, htop⟩ | ⟨hnone, hdrawn⟩
  · refine ⟨w, (htop w).mpr rfl, ?_⟩
    rw [hw] at hwinner
    have hin := inGame_winner hwf h hwinner
    obtain ⟨p, hp, -⟩ := inGame_iff.mp hin
    have hname : nameOf s w = some p.name := by
      obtain ⟨v, v', prizeCards', hspent', hv⟩ := startRound_spent hwf h
      rw [← hspent'.name_eq w]
      rw [hv] at hp
      simp only [nameOf]
      rw [show v.tournamentPlayer? w = some p from hp]
      rfl
    have hget : s'.players.get? w = some (.tournament p) := by
      rw [(wellFormed_startRound hwf h).get?_eq w, hp]
      rfl
    rw [if_neg (not_drawn_of_tops htop), hname]
    simp only [winnerLines]
    rw [hwinner]
    simp only [hget]
    rfl
  · have hshared : Drawn s := hdrawn
    obtain ⟨a, -, -, -, -, hta, -⟩ := hshared
    refine ⟨a, hta, ?_⟩
    rw [if_pos hdrawn]
    simp only [winnerLines]
    rw [hwinner, hnone]

/-! ## Games -/

/-- The states at the round boundaries of a stretch of play. -/
structure Played (fuel : Nat) (os : Nat → Schedule Id) (n : Nat)
    (S : Nat → War Id) : Prop where
  round : ∀ i < n, startRound fuel (os i) (S i) = .done (S (i + 1))

/-- The loop of a game prints what its rounds print. -/
theorem gameLines_eq {fuel : Nat} (rounds : Nat) :
    ∀ {os : Nat → Schedule Id} {s t : War Id},
      gameLoop fuel rounds os s = .done t →
      ∃ (n : Nat) (S : Nat → War Id), S 0 = s ∧ S n = t ∧
        Played fuel os n S ∧
        gameLines cardName fuel rounds os s = (List.range n).flatMap (fun i =>
          roundLines cardName fuel (os i) (S i)
            ++ winnerLines (S (i + 1))) := by
  induction rounds with
  | zero => intro os s t h; cases h
  | succ rounds ih =>
      intro os s t h
      simp only [gameLoop] at h
      simp only [gameLines]
      by_cases hover : s.gameover = true
      · rw [if_pos hover] at h
        rw [if_pos hover]
        refine ⟨0, fun _ => s, rfl, Outcome.done.inj h, ⟨?_⟩, rfl⟩
        exact fun i hi => absurd hi (Nat.not_lt_zero i)
      · rw [if_neg hover] at h
        rw [if_neg hover]
        obtain ⟨u, hu, h⟩ := Outcome.bind_eq_done.mp h
        obtain ⟨-, -, h⟩ := Outcome.bind_eq_done.mp h
        obtain ⟨n, S, hfirst, hlast, hplayed, hlines⟩ := ih h
        refine ⟨n + 1, fun i => if i = 0 then s else S (i - 1), rfl, hlast,
          ⟨?_⟩, ?_⟩
        · intro i hi
          cases i with
          | zero => rw [← hfirst] at hu; exact hu
          | succ i => exact hplayed.round i (by omega)
        · simp only [hu]
          rw [hlines, List.range_succ_eq_map, List.flatMap_cons,
            List.flatMap_map, List.append_assoc, ← hfirst]
          rfl

/-- **The transcript of a game** can be told from the hands before each
    round: every round says the first card of everybody who places one, then
    "at war" for every rung on which the top has a rival, then whoever has the
    greatest strength, unless it is shared. -/
theorem game_transcript {s₀ : War Id} (hready : Ready s₀) {fuel rounds : Nat}
    {os : Nat → Schedule Id} {t : War Id} {line : String}
    (h : startGame fuel rounds os s₀ = .done (t, line)) :
    ∃ (n : Nat) (S : Nat → War Id), dealCards fuel s₀ = .done (S 0) ∧
      S n = t ∧ Played fuel os n S ∧
      startGameLines cardName fuel rounds os s₀
        = (List.range n).flatMap (fun i =>
            roundLines cardName fuel (os i) (S i) ++ winnerLines (S (i + 1)))
          ++ [line] ∧
      ∀ i < n, ∃ order b, order.Perm (placers (S i)) ∧
        Tops (active (S i)) (stakes (S i)) b ∧
        roundLines cardName fuel (os i) (S i) = said cardName (S i) order ::
          List.replicate (contested (active (S i)) (stakes (S i)) b)
            "at war" ∧
        winnerLines (S (i + 1)) = if Drawn (S i) then []
          else ["round winner: " ++ (nameOf (S i) b).getD ""] := by
  simp only [startGame] at h
  by_cases htwo : 1 < s₀.numPlayers
  · rw [if_pos htwo] at h
    obtain ⟨d, hd, h⟩ := Outcome.bind_eq_done.mp h
    obtain ⟨t', hloop, h⟩ := Outcome.bind_eq_done.mp h
    obtain ⟨line', hline, h⟩ := Outcome.bind_eq_done.mp h
    obtain ⟨rfl, rfl⟩ := Prod.mk.inj (Outcome.done.inj h)
    obtain ⟨n, S, hfirst, hlast, hplayed, hlines⟩ :=
      gameLines_eq cardName rounds hloop
    refine ⟨n, S, by rw [hfirst]; exact hd, hlast, hplayed, ?_, ?_⟩
    · simp only [startGameLines]
      rw [if_pos htwo]
      simp only [hd, hloop, hline, hlines]
    · have hreach : ∀ i ≤ n, Reaches s₀ (S i) := by
        intro i
        induction i with
        | zero => intro _; rw [hfirst]; exact .dealt hd
        | succ i ih =>
            intro hi
            exact .round (ih (by omega)) (hplayed.round i (by omega))
      intro i hi
      have hwf := (hreach i (by omega)).wellFormed hready.wellFormed
      have hround := hplayed.round i hi
      obtain ⟨b, hb, hwinner⟩ := winnerLines_eq hwf hround
      obtain ⟨order, horder, hround'⟩ := roundLines_eq cardName hwf hround hb
      exact ⟨order, b, horder, hb, hround', hwinner⟩
  · rw [if_neg htwo] at h
    cases h

/-- What three players make the game print. -/
def threeLines : List String :=
  ["A played AC. B played AH. C played AS. ", "at war", "round winner: B",
    "B played AC. ", "round winner: B", "The game is over. The winner is B"]

theorem game_transcript_three :
    ∃ (line : String) (n : Nat) (S : Nat → War String),
      dealCards 9 threeTable = .done (S 0) ∧
      startGame 9 5 (fun _ => inOrder) threeTable = .done (S n, line) ∧
      Played 9 (fun _ => inOrder) n S ∧
      startGameLines Card.listedName 9 5 (fun _ => inOrder) threeTable
        = threeLines ∧
      threeLines = (List.range n).flatMap (fun i =>
          roundLines Card.listedName 9 inOrder (S i) ++ winnerLines (S (i + 1)))
        ++ [line] ∧
      ∀ i < n, ∃ order b, order.Perm (placers (S i)) ∧
        Tops (active (S i)) (stakes (S i)) b ∧
        roundLines Card.listedName 9 inOrder (S i)
          = said Card.listedName (S i) order ::
            List.replicate (contested (active (S i)) (stakes (S i)) b)
              "at war" ∧
        winnerLines (S (i + 1)) = if Drawn (S i) then []
          else ["round winner: " ++ (nameOf (S i) b).getD ""] := by
  have hready : Ready threeTable := ⟨by decide, by decide, by decide, rfl⟩
  have hrun : ∃ r, startGame 9 5 (fun _ => inOrder) threeTable = .done r ∧
      True := by decide +kernel
  have hlines : startGameLines Card.listedName 9 5 (fun _ => inOrder)
      threeTable = threeLines := by decide +kernel
  obtain ⟨⟨t, line⟩, hdone, -⟩ := hrun
  obtain ⟨n, S, hd, rfl, hplayed, hall, hrounds⟩ :=
    game_transcript Card.listedName hready hdone
  exact ⟨line, n, S, hd, hdone, hplayed, hlines, hlines.symm.trans hall,
    hrounds⟩

end Transcript
