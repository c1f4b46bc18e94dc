import CardCrucible.Renaming
import CardCrucible.Relabelling
import CardCrucible.Sessions

/-! # Anonymity — ids count by their order alone

    Ids decide in which order cards are dealt and placed, and nothing else.
    With other ids in the same order, and the dictionaries iterated in the
    corresponding orders, every function of a game does the same: all of them
    commute with the renaming, and so does every session.  Nothing is assumed
    of the game; traps and exhausted fuel are the same as well. -/

namespace Anonymity

open Outcomes Arrangements Dictionaries CardModel DeckModel PlayerModel
open WarModel WarModel.War Dealing Rounds GameStatus RoundLaws Renaming
open DeckAccounts Runs Sessions
open Suits.Relabelling (putCard wonTable)

variable {Id Id' : Type}

/-! ## Renaming what a game is called with -/

/-- Entries of cards. -/
def pileEntry (π : Id ≃ Id') : Id × List Card ≃ Id' × List Card where
  toFun := fun e => (π e.1, e.2)
  invFun := fun e => (π.symm e.1, e.2)
  left_inv := fun e => by simp
  right_inv := fun e => by simp

/-- Entries of players. -/
def playerEntry (π : Id ≃ Id') :
    Id × GamePlayer Id ≃ Id' × GamePlayer Id' where
  toFun := fun e => (π e.1, renamePlayer π e.2)
  invFun := fun e => (π.symm e.1, renamePlayer π.symm e.2)
  left_inv := by
    rintro ⟨id, g⟩
    cases g <;> simp [renamePlayer, renameTournament]
  right_inv := by
    rintro ⟨id, g⟩
    cases g <;> simp [renamePlayer, renameTournament]

/-- The corresponding iteration orders. -/
def renameSchedule (π : Id ≃ Id') (o : Schedule Id) : Schedule Id' where
  roundCards := o.roundCards.conj (pileEntry π)
  warParticipants := fun n => (o.warParticipants n).conj (pileEntry π)
  lastPlayedCards := o.lastPlayedCards.conj (pileEntry π)
  players := o.players.conj (playerEntry π)

/-- The corresponding call. -/
def renameCall (π : Id ≃ Id') : Call Id → Call Id'
  | .addPlayer g => .addPlayer (renamePlayer π g)
  | .addPlayers gs => .addPlayers (gs.map (renamePlayer π))
  | .onDeck op => .onDeck op
  | .setDeckCards newValue => .setDeckCards newValue
  | .dealCards => .dealCards
  | .startRound o => .startRound (renameSchedule π o)
  | .updateGameStatus order => .updateGameStatus (order.conj (playerEntry π))
  | .startGame os => .startGame (fun n => renameSchedule π (os n))

section Functions

variable [LinearOrder Id] [LinearOrder Id'] (π : Id ≃ Id')

/-- Piles under their new keys. -/
def renamePiles (d : Dictionary Id (List Card)) : Dictionary Id' (List Card) :=
  d.rename π id

/-- What the draws of a war leave. -/
def renameDraws
    (r : Bool × List Card × Dictionary Id (List Card) × War Id) :
    Bool × List Card × Dictionary Id' (List Card) × War Id' :=
  (r.1, r.2.1, renamePiles π r.2.2.1, rename π r.2.2.2)

def renameExit (e : WarExit Id) : WarExit Id' where
  thrown := e.thrown.map (fun ev => match ev with
    | .draw ids => .draw (ids.map π))
  prizeCards := e.prizeCards
  state := rename π e.state

theorem setPlayer_rename (s : War Id) (id : Id) (p : TournamentPlayer Id) :
    rename π (s.setPlayer id p)
      = (rename π s).setPlayer (π id) (renameTournament π p) := by
  simp only [rename, setPlayer]
  rw [Dictionary.rename_set]
  rfl

theorem get?_renamePiles (d : Dictionary Id (List Card)) (id : Id) :
    (renamePiles π d).get? (π id) = d.get? id := by
  rw [renamePiles, Dictionary.get?_rename, Option.map_id]
  rfl

theorem renamePiles_set (d : Dictionary Id (List Card)) (id : Id)
    (l : List Card) :
    renamePiles π (d.set id l) = (renamePiles π d).set (π id) l :=
  Dictionary.rename_set ..

omit [LinearOrder Id] [LinearOrder Id'] in
theorem keys_rename (s : War Id) :
    (rename π s).players.keys = s.players.keys.map π := by
  show (s.players.entries.map _).map Prod.fst = (s.players.entries.map _).map π
  rw [List.map_map, List.map_map]
  rfl

/-! ## Comparing -/

omit [LinearOrder Id] [LinearOrder Id'] in
theorem pileEntry_mk (id : Id) (l : List Card) :
    pileEntry π (id, l) = (π id, l) := rfl

omit [LinearOrder Id] [LinearOrder Id'] in
theorem arrange_piles (order : Arrangement (Id × List Card))
    (d : Dictionary Id (List Card)) :
    (order.conj (pileEntry π)).arrange (renamePiles π d).entries
      = (order.arrange d.entries).map (pileEntry π) :=
  Arrangement.conj_map (pileEntry π) order d.entries

theorem lastCards_rename (s : War Id) (entries : List (Id × List Card)) :
    lastCards (rename π s) (entries.map (pileEntry π))
      = lastCards s entries := by
  induction entries with
  | nil => rfl
  | cons e rest ih =>
      obtain ⟨id, l⟩ := e
      rw [List.map_cons, pileEntry_mk]
      simp only [lastCards]
      rw [tournamentPlayer?_rename, ih]
      cases s.tournamentPlayer? id with
      | none => rfl
      | some p =>
          obtain ⟨⟨name, pid, hand, last⟩, out⟩ := p
          cases out <;> rfl

theorem rankHolders_rename (s : War Id) (r : Rank)
    (entries : List (Id × List Card)) :
    rankHolders (rename π s) r (entries.map (pileEntry π))
      = (rankHolders s r entries).map (List.map π) := by
  induction entries with
  | nil => rfl
  | cons e rest ih =>
      obtain ⟨id, l⟩ := e
      rw [List.map_cons, pileEntry_mk]
      simp only [rankHolders]
      rw [tournamentPlayer?_rename, ih]
      cases s.tournamentPlayer? id with
      | none => rfl
      | some p =>
          obtain ⟨⟨name, pid, hand, last⟩, out⟩ := p
          cases out with
          | true => rfl
          | false =>
              cases l.getLast? with
              | none => rfl
              | some c =>
                  refine Outcome.map_bind (fun holders _ => ?_)
                  exact congrArg Outcome.done (apply_ite (List.map π)
                    (c.rank = r) (id :: holders) holders).symm

theorem beatsSuits_rename (s : War Id) (id : Id) (l : List Card)
    (entries : List (Id × List Card)) :
    ∀ b : Bool, beatsSuits (rename π s) (π id) l b (entries.map (pileEntry π))
      = beatsSuits s id l b entries := by
  induction entries with
  | nil => intro b; rfl
  | cons e rest ih =>
      intro b
      obtain ⟨oId, oCards⟩ := e
      rw [List.map_cons, pileEntry_mk]
      simp only [beatsSuits]
      rw [tournamentPlayer?_rename]
      by_cases h : id = oId
      · rw [if_neg (not_not_intro h), if_neg (not_not_intro (congrArg π h))]
        exact ih b
      · have h' : π id ≠ π oId := fun heq => h (π.injective heq)
        rw [if_pos h, if_pos h']
        cases s.tournamentPlayer? id with
        | none => exact ih b
        | some p =>
            obtain ⟨⟨name, pid, hand, last⟩, out⟩ := p
            cases out with
            | true => exact ih b
            | false =>
                cases l[0]? with
                | none => rfl
                | some c =>
                    cases oCards[0]? with
                    | none => rfl
                    | some c' => exact ih _

theorem suitHolders_rename (s : War Id) (all : List (Id × List Card))
    (entries : List (Id × List Card)) :
    suitHolders (rename π s) (all.map (pileEntry π))
        (entries.map (pileEntry π))
      = (suitHolders s all entries).map (List.map π) := by
  induction entries with
  | nil => rfl
  | cons e rest ih =>
      obtain ⟨id, l⟩ := e
      rw [List.map_cons, pileEntry_mk]
      simp only [suitHolders]
      rw [beatsSuits_rename, ih]
      cases beatsSuits s id l true all with
      | trap r => rfl
      | outOfFuel => rfl
      | done b =>
          refine Outcome.map_bind (fun holders _ => ?_)
          exact congrArg Outcome.done (apply_ite (List.map π)
            (b = true) (id :: holders) holders).symm

/-- Both comparisons find the same holders. -/
theorem determineHighCardHolders_rename (s : War Id)
    (order : Arrangement (Id × List Card)) (d : Dictionary Id (List Card))
    (fromDraw : Bool) :
    determineHighCardHolders (rename π s) (order.conj (pileEntry π))
        (renamePiles π d) fromDraw
      = (determineHighCardHolders s order d fromDraw).map (List.map π) := by
  simp only [determineHighCardHolders]
  rw [arrange_piles]
  cases fromDraw with
  | true => exact suitHolders_rename π s _ _
  | false =>
      simp only [Bool.false_eq_true, if_false, lastCards_rename,
        rankHolders_rename]
      cases lastCards s (order.arrange d.entries) with
      | trap r => rfl
      | outOfFuel => rfl
      | done l =>
          simp only [Outcome.done_bind]
          cases Deck.determineHighestRank l <;> rfl

/-! ## War -/

theorem addPile_rename (participants : Dictionary Id (List Card)) (id : Id)
    (l : List Card) :
    addPile (renamePiles π participants) (π id) l
      = addPile participants id l := by
  simp only [addPile]
  rw [get?_renamePiles]

/-- The card drawn in a limited war joins the pile of its owner. -/
theorem putCard_rename (participants : Dictionary Id (List Card)) (id : Id)
    (c : Card) :
    renamePiles π (putCard participants id c)
      = putCard (renamePiles π participants) (π id) c := by
  simp only [putCard]
  rw [get?_renamePiles]
  cases participants.get? id with
  | none => exact renamePiles_set ..
  | some pile => exact renamePiles_set ..

theorem limitedWarLoop_rename (ids : List Id) :
    ∀ (none : Bool) (l : List Card) (participants : Dictionary Id (List Card))
      (s : War Id),
      limitedWarLoop (ids.map π) none l (renamePiles π participants)
          (rename π s)
        = (limitedWarLoop ids none l participants s).map (renameDraws π) := by
  induction ids with
  | nil => intro none l participants s; rfl
  | cons id ids ih =>
      intro none l participants s
      simp only [List.map_cons, limitedWarLoop]
      rw [tournamentPlayer?_rename]
      cases s.tournamentPlayer? id with
      | none => exact ih none l participants s
      | some p =>
          obtain ⟨⟨name, pid, hand, last⟩, out⟩ := p
          cases out with
          | true => exact ih none l participants s
          | false =>
              cases hand with
              | nil =>
                  show limitedWarLoop (ids.map π) _ _ _ _
                    = (limitedWarLoop ids _ _ _ _).map _
                  rw [← ih, ← addPile_rename π, setPlayer_rename]
                  rfl
              | cons c rest =>
                  show limitedWarLoop (ids.map π) false
                      (addPile (putCard (renamePiles π participants) (π id) c)
                        (π id) l)
                      (putCard (renamePiles π participants) (π id) c) _
                    = (limitedWarLoop ids false
                        (addPile (putCard participants id c) id l)
                        (putCard participants id c) _).map _
                  rw [← ih, ← putCard_rename, addPile_rename,
                    setPlayer_rename]
                  rfl

omit [LinearOrder Id] [LinearOrder Id'] in
theorem rememberLast_rename (l : List Card) (p : TournamentPlayer Id) :
    renameTournament π (rememberLast l p)
      = rememberLast l (renameTournament π p) := by
  simp only [rememberLast]
  cases l.getLast? <;> rfl

theorem gotoWarLoop_rename (ids : List Id) :
    ∀ (none : Bool) (l : List Card) (participants : Dictionary Id (List Card))
      (s : War Id),
      gotoWarLoop (ids.map π) none l (renamePiles π participants) (rename π s)
        = (gotoWarLoop ids none l participants s).map (renameDraws π) := by
  induction ids with
  | nil => intro none l participants s; rfl
  | cons id ids ih =>
      intro none l participants s
      simp only [List.map_cons, gotoWarLoop]
      rw [tournamentPlayer?_rename]
      cases s.tournamentPlayer? id with
      | none => exact ih none l participants s
      | some p =>
          simp only [Option.map_some]
          rw [show (renameTournament π p).cards = p.cards from rfl]
          obtain ⟨res, hand⟩ := Deck.drawCardsFrom cardsNeededForWar p.cards
          cases res with
          | ok cards =>
              dsimp only
              cases cards.getLast? with
              | none => rfl
              | some last =>
                  show gotoWarLoop (ids.map π) _ _ _ _
                    = (gotoWarLoop ids _ _ _ _).map _
                  rw [← ih, ← addPile_rename π, setPlayer_rename,
                    renamePiles_set]
                  rfl
          | error e =>
              cases e with
              | insufficientCardsRemaining cards message =>
                  show gotoWarLoop (ids.map π) _ _ _ _
                    = (gotoWarLoop ids _ _ _ _).map _
                  rw [← ih, ← addPile_rename π, setPlayer_rename,
                    renamePiles_set, rememberLast_rename]
                  rfl
              | drawFromEmptyDeck => rfl
              | negativeDrawAttempt => rfl

theorem scanHolders_rename (s : War Id) (ids : List Id) :
    scanHolders (rename π s) (ids.map π) = scanHolders s ids := by
  induction ids with
  | nil => rfl
  | cons id ids ih =>
      simp only [List.map_cons, scanHolders]
      rw [tournamentPlayer?_rename, ih]
      cases s.tournamentPlayer? id <;> rfl

theorem warDraws_rename (ids : List Id) (l : List Card) (s : War Id) :
    warDraws (ids.map π) l (rename π s)
      = (warDraws ids l s).map (fun r => (r.1, renameDraws π r.2)) := by
  simp only [warDraws]
  rw [scanHolders_rename]
  cases scanHolders s ids with
  | trap r => rfl
  | outOfFuel => rfl
  | done enough =>
      cases enough with
      | true =>
          have hgoto : gotoWar (ids.map π) l Dictionary.empty (rename π s)
              = (gotoWar ids l Dictionary.empty s).map (renameDraws π) :=
            gotoWarLoop_rename π ids true l Dictionary.empty s
          simp only [Outcome.done_bind, if_true]
          rw [hgoto]
          exact Outcome.map_bind (fun _ _ => rfl)
      | false =>
          have hlimited : limitedWar (ids.map π) l Dictionary.empty
                (rename π s)
              = (limitedWar ids l Dictionary.empty s).map (renameDraws π) :=
            limitedWarLoop_rename π ids true l Dictionary.empty s
          simp only [Outcome.done_bind, Bool.false_eq_true, if_false]
          rw [hlimited]
          exact Outcome.map_bind (fun _ _ => rfl)

/-- The winner of a war is paid under the new id. -/
theorem wonTable_rename (enoughCards : Bool) (s : War Id) (w : Id)
    (p : TournamentPlayer Id) (l : List Card) :
    rename π (wonTable enoughCards s w p l)
      = wonTable enoughCards (rename π s) (π w)
          (renameTournament π p) l := by
  have hpaid := setPlayer_rename π s w (p.addToCards l)
  cases enoughCards with
  | true =>
      show { rename π (s.setPlayer w (p.addToCards l)) with
        roundWinner := some (π p.id) } = _
      rw [hpaid]
      rfl
  | false =>
      show rename π (War.setPlayer _ w _) = _
      rw [setPlayer_rename]
      show War.setPlayer { rename π (s.setPlayer w (p.addToCards l)) with
        roundWinner := some (π p.id) } (π w) _ = _
      rw [hpaid]
      rfl

theorem war_rename (o : Schedule Id) (fuel : Nat) :
    ∀ (depth : Nat) (ids : List Id) (l : List Card) (s : War Id),
      war fuel (renameSchedule π o) depth (ids.map π) l (rename π s)
        = (war fuel o depth ids l s).map (renameExit π) := by
  induction fuel with
  | zero => intro depth ids l s; rfl
  | succ fuel ih =>
      intro depth ids l s
      simp only [war]
      rw [warDraws_rename]
      refine Outcome.map_bind ?_
      rintro ⟨enough, none, l, participants, t⟩ -
      cases none with
      | true => rfl
      | false =>
          show (determineHighCardHolders (rename π t)
            ((o.warParticipants depth).conj (pileEntry π))
            (renamePiles π participants) false >>= _) = _
          rw [determineHighCardHolders_rename]
          simp only [Bool.false_eq_true, if_false]
          refine Outcome.map_bind ?_
          intro holders _
          cases holders with
          | nil => exact ih (depth + 1) [] l t
          | cons w rest =>
              cases rest with
              | cons v rest => exact ih (depth + 1) (w :: v :: rest) l t
              | nil =>
                  simp only [List.map_cons, List.map_nil]
                  have hleft : (renameDraws π
                      (false, l, participants, t)).2.2.2 = rename π t := rfl
                  rw [hleft, tournamentPlayer?_rename]
                  cases t.tournamentPlayer? w with
                  | none => rfl
                  | some p =>
                      have hwon := wonTable_rename π enough t w p l
                      exact congrArg (fun u =>
                        Outcome.done (WarExit.mk none l u)) hwon.symm

/-! ## Dealing and placing, in a given order -/

theorem dealPass_rename (ids : List Id) :
    ∀ s : War Id, dealPass (ids.map π) (rename π s)
      = (dealPass ids s).map (fun r => (r.1, rename π r.2)) := by
  induction ids with
  | nil => intro s; rfl
  | cons id ids ih =>
      intro s
      simp only [List.map_cons, dealPass]
      rw [tournamentPlayer?_rename]
      cases s.tournamentPlayer? id with
      | none => exact ih s
      | some p =>
          obtain ⟨⟨name, pid, hand, last⟩, out⟩ := p
          cases out with
          | true => exact ih s
          | false =>
              obtain ⟨⟨⟨decks, num⟩, players, gameover⟩, winner⟩ := s
              cases decks with
              | nil => rfl
              | cons c rest =>
                  show dealPass (ids.map π) _ = (dealPass ids _).map _
                  rw [← ih, setPlayer_rename]
                  rfl

theorem placeLoop_rename (ids : List Id) :
    ∀ (rc : Dictionary Id (List Card)) (l : List Card) (s : War Id),
      placeLoop (ids.map π) (renamePiles π rc) l (rename π s)
        = (placeLoop ids rc l s).map (fun r =>
            (renamePiles π r.1, r.2.1, rename π r.2.2)) := by
  induction ids with
  | nil => intro rc l s; rfl
  | cons id ids ih =>
      intro rc l s
      simp only [List.map_cons, placeLoop]
      rw [tournamentPlayer?_rename]
      cases s.tournamentPlayer? id with
      | none => rfl
      | some p =>
          obtain ⟨⟨name, pid, hand, last⟩, out⟩ := p
          cases out with
          | true => exact ih rc l s
          | false =>
              cases hand with
              | nil =>
                  show placeLoop (ids.map π) _ _ _ = (placeLoop ids _ _ _).map _
                  rw [← ih, setPlayer_rename]
                  rfl
              | cons c rest =>
                  show placeLoop (ids.map π) _ _ _ = (placeLoop ids _ _ _).map _
                  rw [← ih, setPlayer_rename, renamePiles_set]
                  rfl

/-! ## The end of a round -/

theorem announceCards_rename (s : War Id) (entries : List (Id × List Card)) :
    announceCards (rename π s) (entries.map (pileEntry π))
      = announceCards s entries := by
  induction entries with
  | nil => rfl
  | cons e rest ih =>
      obtain ⟨id, l⟩ := e
      have hget : (rename π s).players.get? (π id)
          = (s.players.get? id).map (renamePlayer π) :=
        Dictionary.get?_rename ..
      rw [List.map_cons, pileEntry_mk]
      simp only [announceCards]
      rw [hget, ih]
      cases s.players.get? id with
      | none => cases l <;> rfl
      | some g => cases l <;> rfl

omit [LinearOrder Id] [LinearOrder Id'] in
theorem countNotEliminated_rename (entries : List (Id × GamePlayer Id)) :
    ∀ n : Nat, countNotEliminated (entries.map (playerEntry π)) n
      = countNotEliminated entries n := by
  induction entries with
  | nil => intro n; rfl
  | cons e rest ih =>
      intro n
      obtain ⟨id, g⟩ := e
      simp only [List.map_cons, countNotEliminated, ih]
      cases g <;> rfl

omit [LinearOrder Id] [LinearOrder Id'] in
theorem updateGameStatus_rename (order : Arrangement (Id × GamePlayer Id))
    (s : War Id) :
    (rename π s).updateGameStatus (order.conj (playerEntry π))
      = rename π (s.updateGameStatus order) := by
  have hentries : (order.conj (playerEntry π)).arrange
        (rename π s).players.entries
      = (order.arrange s.players.entries).map (playerEntry π) :=
    Arrangement.conj_map (playerEntry π) order s.players.entries
  have hnum : (rename π s).numPlayers = s.numPlayers := List.length_map ..
  simp only [updateGameStatus]
  rw [hentries, countNotEliminated_rename, hnum]
  cases countNotEliminated (order.arrange s.players.entries) 0 with
  | none => rfl
  | some n => exact (apply_ite (rename π) (n = 1 ∨ n = s.numPlayers)
      { s with gameover := true } s).symm

theorem lastPlayedLoop_rename (s : War Id) (ids : List Id) :
    ∀ d : Dictionary Id (List Card),
      lastPlayedLoop (rename π s) (ids.map π) (renamePiles π d)
        = (lastPlayedLoop s ids d).map (renamePiles π) := by
  induction ids with
  | nil => intro d; rfl
  | cons id ids ih =>
      intro d
      simp only [List.map_cons, lastPlayedLoop]
      rw [tournamentPlayer?_rename]
      cases s.tournamentPlayer? id with
      | none => rfl
      | some p =>
          obtain ⟨⟨name, pid, hand, last⟩, out⟩ := p
          cases last with
          | none => exact ih d
          | some c =>
              show lastPlayedLoop (rename π s) (ids.map π)
                ((renamePiles π d).set (π id) [c]) = _
              rw [← renamePiles_set]
              exact ih (d.set id [c])

theorem announceWinner_rename (s : War Id) :
    (rename π s).announceWinner = s.announceWinner := by
  have hget : ∀ id, (rename π s).players.get? (π id)
      = (s.players.get? id).map (renamePlayer π) :=
    fun id => Dictionary.get?_rename ..
  simp only [announceWinner]
  rw [show (rename π s).roundWinner = s.roundWinner.map π from rfl]
  cases s.roundWinner with
  | none => rfl
  | some w =>
      simp only [Option.map_some, hget]
      cases s.players.get? w <;> rfl

/-- Names are no ids: the last line is the same. -/
theorem announcement_rename (s : War Id) :
    (rename π s).announcement = s.announcement := by
  have hget : ∀ id, (rename π s).players.get? (π id)
      = (s.players.get? id).map (renamePlayer π) :=
    fun id => Dictionary.get?_rename ..
  simp only [announcement]
  rw [show (rename π s).roundWinner = s.roundWinner.map π from rfl]
  cases s.roundWinner with
  | none => rfl
  | some w =>
      simp only [Option.map_some, hget]
      cases s.players.get? w with
      | none => rfl
      | some g => cases g <;> rfl

theorem addPlayer_rename (s : War Id) (g : GamePlayer Id) :
    (rename π s).addPlayer (renamePlayer π g)
      = rename π (s.addPlayer g) := by
  cases g with
  | player p => exact (setPlayer_rename π s p.id (.ofPlayer p)).symm
  | tournament p => exact (setPlayer_rename π s p.id p).symm

theorem addPlayers_rename (gs : List (GamePlayer Id)) :
    ∀ s : War Id, (rename π s).addPlayers (gs.map (renamePlayer π))
      = rename π (s.addPlayers gs) := by
  induction gs with
  | nil => intro s; rfl
  | cons g gs ih =>
      intro s
      simp only [List.map_cons, addPlayers]
      rw [addPlayer_rename, ih]

end Functions

/-! ## Sorting, and what comes of it -/

section Ordered

variable [LinearOrder Id] [LinearOrder Id'] (π : Id ≃o Id')

theorem sortedKeys_rename (s : War Id) :
    (rename π.toEquiv s).players.keys.insertionSort (· ≤ ·)
      = (s.players.keys.insertionSort (· ≤ ·)).map π.toEquiv := by
  rw [keys_rename]
  refine (List.map_insertionSort (· ≤ ·) (· ≤ ·) π.toEquiv _ ?_).symm
  exact fun _ _ _ _ => π.le_iff_le.symm

theorem sortedPlayers_rename (s : War Id) :
    (rename π.toEquiv s).sortedPlayers
      = s.sortedPlayers.map π.toEquiv := by
  have hid : ∀ g : GamePlayer Id,
      (renamePlayer π.toEquiv g).toPlayer.id = π g.toPlayer.id := by
    intro g
    cases g <;> rfl
  have hsort := List.map_insertionSort
    (fun e f : Id × GamePlayer Id => e.2.toPlayer.id ≤ f.2.toPlayer.id)
    (fun e f : Id' × GamePlayer Id' => e.2.toPlayer.id ≤ f.2.toPlayer.id)
    (fun e => (π.toEquiv e.1, renamePlayer π.toEquiv e.2))
    s.players.entries (by
      intro e _ f _
      simp only [hid]
      exact π.le_iff_le.symm)
  simp only [sortedPlayers]
  rw [show (rename π.toEquiv s).players.entries = s.players.entries.map
    (fun e => (π.toEquiv e.1, renamePlayer π.toEquiv e.2)) from rfl, ← hsort,
    List.map_map, List.map_map]
  rfl

theorem dealLoop_rename (fuel : Nat) :
    ∀ s : War Id, dealLoop fuel (rename π.toEquiv s)
      = (dealLoop fuel s).map (rename π.toEquiv) := by
  induction fuel with
  | zero => intro s; rfl
  | succ fuel ih =>
      intro s
      simp only [dealLoop]
      rw [sortedKeys_rename, dealPass_rename]
      refine Outcome.map_bind ?_
      rintro ⟨returned, t⟩ -
      cases returned with
      | true => rfl
      | false => exact ih t

theorem dealCards_rename (fuel : Nat) (s : War Id) :
    dealCards fuel (rename π.toEquiv s)
      = (dealCards fuel s).map (rename π.toEquiv) := by
  have hempty : (rename π.toEquiv s).players.isEmpty
      = s.players.isEmpty := List.isEmpty_map ..
  simp only [dealCards]
  rw [hempty]
  cases s.players.isEmpty with
  | true => rfl
  | false => exact dealLoop_rename π fuel s

theorem placeCards_rename (s : War Id) :
    placeCards (rename π.toEquiv s)
      = (placeCards s).map (fun r =>
          (renamePiles π.toEquiv r.1, r.2.1, rename π.toEquiv r.2.2)) := by
  simp only [placeCards]
  rw [sortedPlayers_rename]
  exact placeLoop_rename π.toEquiv s.sortedPlayers Dictionary.empty [] s

/-- A player is paid, and in the game, under the new id. -/
theorem paid_rename (s : War Id) (w : Id) (p : TournamentPlayer Id) :
    rename π.toEquiv { s.setPlayer w p with roundWinner := some p.id }
      = { (rename π.toEquiv s).setPlayer (π w)
            (renameTournament π.toEquiv p) with
          roundWinner := some (π p.id) } := by
  have hset := setPlayer_rename π.toEquiv s w p
  exact congrArg (fun u : War Id' => { u with roundWinner := some (π p.id) })
    hset

theorem handleDraw_rename (fuel : Nat) (o : Schedule Id) (ids : List Id)
    (l : List Card) (s : War Id) :
    handleDraw fuel (renameSchedule π.toEquiv o) (ids.map π.toEquiv) l
        (rename π.toEquiv s)
      = (handleDraw fuel o ids l s).map (rename π.toEquiv) := by
  simp only [handleDraw]
  rw [show (Dictionary.empty : Dictionary Id' (List Card))
    = renamePiles π.toEquiv Dictionary.empty from rfl, lastPlayedLoop_rename]
  refine Outcome.map_bind ?_
  intro d _
  rw [show (renameSchedule π.toEquiv o).lastPlayedCards
    = o.lastPlayedCards.conj (pileEntry π.toEquiv) from rfl,
    determineHighCardHolders_rename]
  refine Outcome.map_bind ?_
  intro holders _
  cases holders with
  | nil =>
      exact dealCards_rename π fuel
        { s with gameDeck := s.gameDeck.setDeckCards l }
  | cons w rest =>
      cases rest with
      | cons v rest =>
          exact dealCards_rename π fuel
            { s with gameDeck := s.gameDeck.setDeckCards l }
      | nil =>
          simp only [List.map_cons, List.map_nil]
          rw [tournamentPlayer?_rename]
          cases s.tournamentPlayer? w with
          | none => rfl
          | some p =>
              have hpaid := paid_rename π s w
                ((p.setIsNotEliminated true).addToCards l)
              exact congrArg Outcome.done hpaid.symm

theorem settleRound_rename (fuel : Nat) (o : Schedule Id) (ids : List Id)
    (l : List Card) (s : War Id) :
    settleRound fuel (renameSchedule π.toEquiv o) (ids.map π.toEquiv) l
        (rename π.toEquiv s)
      = (settleRound fuel o ids l s).map (rename π.toEquiv) := by
  by_cases hone : ∃ w, ids = [w]
  · obtain ⟨w, rfl⟩ := hone
    simp only [List.map_cons, List.map_nil, settleRound]
    rw [tournamentPlayer?_rename]
    cases s.tournamentPlayer? w with
    | none => rfl
    | some p =>
        have hpaid := paid_rename π s w (p.addToCards l)
        exact congrArg Outcome.done hpaid.symm
  · have hmany : ∀ w, ids ≠ [w] := fun w hw => hone ⟨w, hw⟩
    have hmany' : ∀ w, ids.map π.toEquiv ≠ [w] := by
      intro w hw
      obtain ⟨v, hv, -⟩ := List.map_eq_singleton_iff.mp hw
      exact hmany v hv
    rw [settleRound_war hmany, settleRound_war hmany', war_rename]
    refine Outcome.map_bind ?_
    intro e _
    simp only [renameExit]
    cases e.thrown with
    | none => rfl
    | some ev =>
        obtain ⟨players⟩ := ev
        exact handleDraw_rename π fuel o players e.prizeCards e.state

/-- **A round commutes with every renaming that keeps the order.** -/
theorem startRound_rename (fuel : Nat) (o : Schedule Id) (s : War Id) :
    startRound fuel (renameSchedule π.toEquiv o) (rename π.toEquiv s)
      = (startRound fuel o s).map (rename π.toEquiv) := by
  simp only [startRound]
  rw [placeCards_rename]
  refine Outcome.map_bind ?_
  rintro ⟨rc, l, t⟩ -
  have horder : (renameSchedule π.toEquiv o).roundCards
      = o.roundCards.conj (pileEntry π.toEquiv) := rfl
  simp only [horder, arrange_piles, announceCards_rename,
    determineHighCardHolders_rename]
  cases announceCards t (o.roundCards.arrange rc.entries) with
  | trap r => rfl
  | outOfFuel => rfl
  | done u =>
      simp only [Outcome.done_bind]
      refine Outcome.map_bind ?_
      intro holders _
      rw [settleRound_rename]
      refine Outcome.map_bind ?_
      intro v _
      exact congrArg Outcome.done
        (updateGameStatus_rename π.toEquiv o.players v)

theorem gameLoop_rename (fuel rounds : Nat) :
    ∀ (os : Nat → Schedule Id) (s : War Id),
      gameLoop fuel rounds (fun n => renameSchedule π.toEquiv (os n))
          (rename π.toEquiv s)
        = (gameLoop fuel rounds os s).map (rename π.toEquiv) := by
  induction rounds with
  | zero => intro os s; rfl
  | succ rounds ih =>
      intro os s
      simp only [gameLoop]
      show (if s.gameover = true then _ else _) = _
      cases s.gameover with
      | true => rfl
      | false =>
          simp only [Bool.false_eq_true, if_false]
          rw [startRound_rename]
          refine Outcome.map_bind ?_
          intro t _
          rw [announceWinner_rename]
          cases t.announceWinner with
          | trap r => rfl
          | outOfFuel => rfl
          | done u => exact ih (fun n => os (n + 1)) t

theorem startGame_rename (fuel rounds : Nat) (os : Nat → Schedule Id)
    (s : War Id) :
    startGame fuel rounds (fun n => renameSchedule π.toEquiv (os n))
        (rename π.toEquiv s)
      = (startGame fuel rounds os s).map (fun r =>
          (rename π.toEquiv r.1, r.2)) := by
  have hnum : (rename π.toEquiv s).numPlayers = s.numPlayers :=
    List.length_map ..
  simp only [startGame]
  rw [hnum]
  by_cases htwo : 1 < s.numPlayers
  · rw [if_pos htwo, if_pos htwo, dealCards_rename]
    refine Outcome.map_bind ?_
    intro t _
    rw [gameLoop_rename]
    refine Outcome.map_bind ?_
    intro u _
    rw [announcement_rename]
    cases u.announcement <;> rfl
  · rw [if_neg htwo, if_neg htwo]
    rfl

/-! ## Sessions -/

theorem perform_rename (fuel rounds : Nat) (call : Call Id) (s : War Id) :
    perform fuel rounds (renameCall π.toEquiv call) (rename π.toEquiv s)
      = (perform fuel rounds call s).map (rename π.toEquiv) := by
  cases call with
  | addPlayer g =>
      exact congrArg Outcome.done (addPlayer_rename π.toEquiv s g)
  | addPlayers gs =>
      exact congrArg Outcome.done (addPlayers_rename π.toEquiv gs s)
  | onDeck op =>
      simp only [renameCall, perform]
      rw [show (rename π.toEquiv s).gameDeck = s.gameDeck from rfl]
      cases Account.perform ⟨s.gameDeck, []⟩ op <;> rfl
  | setDeckCards newValue => rfl
  | dealCards => exact dealCards_rename π fuel s
  | startRound o => exact startRound_rename π fuel o s
  | updateGameStatus order =>
      exact congrArg Outcome.done
        (updateGameStatus_rename π.toEquiv order s)
  | startGame os =>
      simp only [renameCall, perform]
      rw [startGame_rename]
      exact Outcome.map_bind (fun _ _ => rfl)

/-- **Only the order of the ids counts**: with other ids in the same order
    every session and every game takes the same course under the new ids.  It
    traps, lacks fuel or ends where the other does, and a game ends with the
    same line. -/
theorem session_anonymous (fuel rounds : Nat) (s : War Id) :
    (∀ cs : List (Call Id),
      performAll fuel rounds (cs.map (renameCall π.toEquiv))
          (rename π.toEquiv s)
        = (performAll fuel rounds cs s).map (rename π.toEquiv)) ∧
    ∀ os : Nat → Schedule Id,
      startGame fuel rounds (fun n => renameSchedule π.toEquiv (os n))
          (rename π.toEquiv s)
        = (startGame fuel rounds os s).map (fun r =>
            (rename π.toEquiv r.1, r.2)) := by
  constructor
  · intro cs
    exact runAll_map (perform_rename π fuel rounds) cs s
  · intro os
    exact startGame_rename π fuel rounds os s

end Ordered

end Anonymity
