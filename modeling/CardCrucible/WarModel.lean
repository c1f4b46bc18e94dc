import CardCrucible.Player

/-! # War — the game of `Games/War.swift`, function by function

    The state of a game, and each method of `War` as a function from the state
    before to the outcome and the state after.  A loop of the source is a
    recursive function on the list it runs over; the two loops without a bound
    (`while true` in `dealCards`, `while !gameover` in `startGame`) and the
    recursion of `war` have fuel.

    Swift leaves the iteration order of a dictionary open.  Every loop over one
    goes through an `Arrangement`, and a `Schedule` names those of a round. -/

namespace WarModel

open Outcomes Arrangements Dictionaries CardModel DeckModel PlayerModel

/-- The state of a `Game`. -/
structure Game (Id : Type) where
  gameDeck : Deck
  players : Dictionary Id (GamePlayer Id)
  gameover : Bool
  deriving DecidableEq

/-- The state of a game of `War`. -/
structure War (Id : Type) extends Game Id where
  roundWinner : Option Id
  deriving DecidableEq

/-- The event a round can throw. -/
inductive GameEvent (Id : Type) where
  | draw (players : List Id)
  deriving DecidableEq

/-- The iteration orders of the dictionaries of one round: `roundCards`, the
    `warParticipants` of each nested call of `war`, `lastPlayedCards` and
    `players`. -/
structure Schedule (Id : Type) where
  roundCards : Arrangement (Id × List Card)
  warParticipants : Nat → Arrangement (Id × List Card)
  lastPlayedCards : Arrangement (Id × List Card)
  players : Arrangement (Id × GamePlayer Id)

/-- How a call of `war` ends: what it throws, if it does, the `inout` prize
    cards and the state it leaves. -/
structure WarExit (Id : Type) where
  thrown : Option (GameEvent Id)
  prizeCards : List Card
  state : War Id
  deriving DecidableEq

variable {Id : Type}

/-- The number of cards a player must have to take part in a complete war. -/
def cardsNeededForWar : Nat := 2

namespace War

variable [LinearOrder Id]

def numPlayers (s : War Id) : Nat := s.players.count

/-- `players[id] as? TournamentPlayer`. -/
def tournamentPlayer? (s : War Id) (id : Id) : Option (TournamentPlayer Id) :=
  (s.players.get? id).bind GamePlayer.asTournamentPlayer

/-- Write the object behind `players[id]`. -/
def setPlayer (s : War Id) (id : Id) (p : TournamentPlayer Id) : War Id :=
  { s with players := s.players.set id (.tournament p) }

/-- `War.init(numSubDecks:)`: the deck is shuffled and nobody plays yet. -/
def init (fuel : Nat) (random : Nat → Arrangement Card) (numSubDecks : Int) :
    Outcome (War Id) := do
  let gameDeck ← Deck.init fuel random numSubDecks true
  return { gameDeck := gameDeck, players := Dictionary.empty,
           gameover := false, roundWinner := none }

/-- `addPlayer(player:)`: the game only stores tournament players. -/
def addPlayer (s : War Id) : GamePlayer Id → War Id
  | .tournament p => s.setPlayer p.id p
  | .player p => s.setPlayer p.id (.ofPlayer p)

/-- `addPlayers(players:)`. -/
def addPlayers (s : War Id) : List (GamePlayer Id) → War Id
  | [] => s
  | p :: ps => (s.addPlayer p).addPlayers ps

/-! ## Dealing -/

/-- The inner loop of `dealCards`; the flag says that it has returned because
    the deck ran out. -/
def dealPass : List Id → War Id → Outcome (Bool × War Id)
  | [], s => .done (false, s)
  | id :: ids, s =>
      match s.tournamentPlayer? id with
      | some player =>
          if player.isNotEliminated then
            match s.gameDeck.drawCard with
            | (.ok card, deck) =>
                dealPass ids
                  (setPlayer { s with gameDeck := deck } id
                    (player.addToCards [card]))
            | (.error .drawFromEmptyDeck, deck) =>
                .done (true, { s with gameDeck := deck })
            | (.error _, _) => .trap "Unknown error dealing cards"
          else dealPass ids s
      | none => dealPass ids s

/-- The `while true` of `dealCards`. -/
def dealLoop : Nat → War Id → Outcome (War Id)
  | 0, _ => .outOfFuel
  | fuel + 1, s => do
      let (returned, s) ←
        dealPass (s.players.keys.insertionSort (· ≤ ·)) s
      if returned then return s else dealLoop fuel s

/-- `dealCards()`. -/
def dealCards (fuel : Nat) (s : War Id) : Outcome (War Id) :=
  if s.players.isEmpty then
    .trap "There are no players in the game to deal cards to"
  else dealLoop fuel s

/-! ## Placing cards -/

/-- The keys of `players`, in the order of `players.values.sorted()`. -/
def sortedPlayers (s : War Id) : List Id :=
  (s.players.entries.insertionSort
    (fun e f => e.2.toPlayer.id ≤ f.2.toPlayer.id)).map Prod.fst

/-- The loop of `placeCards`, over the keys of the sorted players. -/
def placeLoop : List Id → Dictionary Id (List Card) → List Card → War Id →
    Outcome (Dictionary Id (List Card) × List Card × War Id)
  | [], roundCards, cards, s => .done (roundCards, cards, s)
  | id :: ids, roundCards, cards, s =>
      match s.tournamentPlayer? id with
      | some player =>
          if player.isNotEliminated then
            match Deck.drawCardFrom player.cards with
            | (.ok card, hand) =>
                placeLoop ids (roundCards.set player.id [card])
                  (cards ++ [card])
                  (s.setPlayer id { player with
                    cards := hand, lastPlayedCard := some card })
            | (.error .drawFromEmptyDeck, hand) =>
                placeLoop ids roundCards cards
                  (s.setPlayer id
                    ({ player with cards := hand }.setIsEliminated true))
            | (.error _, _) => .trap "unknown error in round of War"
          else placeLoop ids roundCards cards s
      | none => .trap "player should be a TournamentPlayer but is not"

/-- `placeCards()`. -/
def placeCards (s : War Id) :
    Outcome (Dictionary Id (List Card) × List Card × War Id) :=
  placeLoop s.sortedPlayers Dictionary.empty [] s

/-! ## High card holders -/

/-- The inner loop of the tie-breaker of `determineHighCardHolders`: whether
    `id` still holds a high card after it was compared with all entries. -/
def beatsSuits (s : War Id) (id : Id) (cards : List Card) :
    Bool → List (Id × List Card) → Outcome Bool
  | isHighCardHolder, [] => .done isHighCardHolder
  | isHighCardHolder, (oId, oCards) :: rest =>
      if id ≠ oId then
        match s.tournamentPlayer? id with
        | some player =>
            if player.isNotEliminated then
              match cards[0]?, oCards[0]? with
              | some card, some oCard =>
                  beatsSuits s id cards
                    (if card.suit < oCard.suit then false
                     else isHighCardHolder) rest
              | _, _ => .trap "Index out of range"
            else beatsSuits s id cards isHighCardHolder rest
        | none => beatsSuits s id cards isHighCardHolder rest
      else beatsSuits s id cards isHighCardHolder rest

/-- The outer loop of the tie-breaker; `all` are the entries compared with. -/
def suitHolders (s : War Id) (all : List (Id × List Card)) :
    List (Id × List Card) → Outcome (List Id)
  | [] => .done []
  | (id, cards) :: rest => do
      let isHighCardHolder ← beatsSuits s id cards true all
      let highCardHolders ← suitHolders s all rest
      return if isHighCardHolder then id :: highCardHolders
             else highCardHolders

/-- The first rank loop: the last cards of the players who are still in. -/
def lastCards (s : War Id) : List (Id × List Card) → Outcome (List Card)
  | [] => .done []
  | (id, rCards) :: rest =>
      match s.tournamentPlayer? id with
      | some player =>
          if player.isNotEliminated then
            match rCards.getLast? with
            | some card => do
                let cards ← lastCards s rest
                return card :: cards
            | none => .trap "Index out of range"
          else lastCards s rest
      | none => lastCards s rest

/-- The second rank loop: who of them placed a card of the highest rank. -/
def rankHolders (s : War Id) (highestRank : Rank) :
    List (Id × List Card) → Outcome (List Id)
  | [] => .done []
  | (id, cards) :: rest =>
      match s.tournamentPlayer? id with
      | some player =>
          if player.isNotEliminated then
            match cards.getLast? with
            | some card => do
                let highCardHolders ← rankHolders s highestRank rest
                return if card.rank = highestRank then id :: highCardHolders
                       else highCardHolders
            | none => .trap "Index out of range"
          else rankHolders s highestRank rest
      | none => rankHolders s highestRank rest

/-- `determineHighCardHolders(_:_:)`, iterating in the given order. -/
def determineHighCardHolders (s : War Id)
    (order : Arrangement (Id × List Card))
    (roundCards : Dictionary Id (List Card)) (determineFromDraw : Bool) :
    Outcome (List Id) :=
  let entries := order.arrange roundCards.entries
  if determineFromDraw then suitHolders s entries entries
  else do
    let cards ← lastCards s entries
    let highestRank ← Deck.determineHighestRank cards
    rankHolders s highestRank entries

/-! ## War -/

/-- `if participants[id] != nil && !participants[id]!.isEmpty` and its body. -/
def addPile (participants : Dictionary Id (List Card)) (id : Id)
    (prizeCards : List Card) : List Card :=
  match participants.get? id with
  | some pile => if pile.isEmpty then prizeCards else prizeCards ++ pile
  | none => prizeCards

/-- The loop of `limitedWar`. -/
def limitedWarLoop : List Id → Bool → List Card → Dictionary Id (List Card) →
    War Id → Outcome (Bool × List Card × Dictionary Id (List Card) × War Id)
  | [], noSuccessfulDraws, prizeCards, participants, s =>
      .done (noSuccessfulDraws, prizeCards, participants, s)
  | id :: ids, noSuccessfulDraws, prizeCards, participants, s =>
      match s.tournamentPlayer? id with
      | some player =>
          if player.isNotEliminated then
            match Deck.drawCardFrom player.cards with
            | (.ok drawnCard, hand) =>
                let participants := match participants.get? id with
                  | some cards => participants.set id (cards ++ [drawnCard])
                  | none => participants.set id [drawnCard]
                limitedWarLoop ids false (addPile participants id prizeCards)
                  participants
                  (s.setPlayer id { player with
                    cards := hand, lastPlayedCard := some drawnCard })
            | (.error .drawFromEmptyDeck, hand) =>
                limitedWarLoop ids noSuccessfulDraws
                  (addPile participants id prizeCards) participants
                  (s.setPlayer id
                    ({ player with cards := hand }.setIsEliminated true))
            | (.error _, _) => .trap "unexpected error in War tiebreaker"
          else limitedWarLoop ids noSuccessfulDraws prizeCards participants s
      | none => limitedWarLoop ids noSuccessfulDraws prizeCards participants s

/-- `limitedWar(_:_:_:)`. -/
def limitedWar (highCardHolders : List Id) (prizeCards : List Card)
    (participants : Dictionary Id (List Card)) (s : War Id) :
    Outcome (Bool × List Card × Dictionary Id (List Card) × War Id) :=
  limitedWarLoop highCardHolders true prizeCards participants s

/-- `if !cardsDrawn.isEmpty` and its body: the last of them was played. -/
def rememberLast (cardsDrawn : List Card) (player : TournamentPlayer Id) :
    TournamentPlayer Id :=
  match cardsDrawn.getLast? with
  | some last => { player with lastPlayedCard := some last }
  | none => player

/-- The loop of `gotoWar`. -/
def gotoWarLoop : List Id → Bool → List Card → Dictionary Id (List Card) →
    War Id → Outcome (Bool × List Card × Dictionary Id (List Card) × War Id)
  | [], noSuccessfulDraws, prizeCards, participants, s =>
      .done (noSuccessfulDraws, prizeCards, participants, s)
  | id :: ids, noSuccessfulDraws, prizeCards, participants, s =>
      match s.tournamentPlayer? id with
      | some player =>
          match Deck.drawCardsFrom cardsNeededForWar player.cards with
          | (.ok cards, hand) =>
              match cards.getLast? with
              | some last =>
                  gotoWarLoop ids false
                    (addPile (participants.set id cards) id prizeCards)
                    (participants.set id cards)
                    (s.setPlayer id { player with
                      cards := hand, lastPlayedCard := some last })
              | none => .trap "Index out of range"
          | (.error (.insufficientCardsRemaining cardsDrawn _), hand) =>
              gotoWarLoop ids noSuccessfulDraws
                (addPile (participants.set id cardsDrawn) id prizeCards)
                (participants.set id cardsDrawn)
                (s.setPlayer id
                  (rememberLast cardsDrawn
                    ({ player with cards := hand }.setIsEliminated true)))
          | (.error _, _) => .trap "unexpected error in War tiebreaker"
      | none => gotoWarLoop ids noSuccessfulDraws prizeCards participants s

/-- `gotoWar(_:_:_:)`. -/
def gotoWar (highCardHolders : List Id) (prizeCards : List Card)
    (participants : Dictionary Id (List Card)) (s : War Id) :
    Outcome (Bool × List Card × Dictionary Id (List Card) × War Id) :=
  gotoWarLoop highCardHolders true prizeCards participants s

/-- The scan at the start of `war`: whether it stops at a holder who has
    enough cards for a complete war. -/
def scanHolders (s : War Id) : List Id → Outcome Bool
  | [] => .done false
  | id :: ids =>
      match s.tournamentPlayer? id with
      | some player =>
          if cardsNeededForWar ≤ player.numCards then .done true
          else scanHolders s ids
      | none =>
          .trap
            "round winning player does not exist as a TournamentPlayer in War game"

/-- The part of `war` before its comparison: the draws of one complete or
    limited war.  The first flag is `enoughCards`. -/
def warDraws (highCardHolders : List Id) (prizeCards : List Card)
    (s : War Id) :
    Outcome (Bool × Bool × List Card × Dictionary Id (List Card) × War Id) := do
  let enoughCards ← scanHolders s highCardHolders
  let draws ←
    if enoughCards then gotoWar highCardHolders prizeCards Dictionary.empty s
    else limitedWar highCardHolders prizeCards Dictionary.empty s
  return (enoughCards, draws)

/-- `war(_:_:)`.  `depth` counts the calls around this one. -/
def war : Nat → Schedule Id → Nat → List Id → List Card → War Id →
    Outcome (WarExit Id)
  | 0, _, _, _, _, _ => .outOfFuel
  | fuel + 1, o, depth, highCardHolders, prizeCards, s => do
      let (enoughCards, noSuccessfulDraws, prizeCards, warParticipants, s) ←
        warDraws highCardHolders prizeCards s
      if noSuccessfulDraws then
        return { thrown := some (.draw highCardHolders)
                 prizeCards := prizeCards
                 state := { s with roundWinner := none } }
      else
        let newHighCardHolders ← s.determineHighCardHolders
          (o.warParticipants depth) warParticipants false
        match newHighCardHolders with
        | [winner] =>
            match s.tournamentPlayer? winner with
            | some player =>
                let player := player.addToCards prizeCards
                let s := { s.setPlayer winner player with
                  roundWinner := some player.id }
                return { thrown := none
                         prizeCards := prizeCards
                         state := if enoughCards then s
                           else s.setPlayer winner
                             (player.setIsNotEliminated true) }
            | none =>
                .trap
                  "round winning player does not exist as a TournamentPlayer in War game"
        | _ => war fuel o (depth + 1) newHighCardHolders prizeCards s

/-! ## Rounds -/

/-- `updateGameStatus()`: the counting loop, with its early return. -/
def countNotEliminated : List (Id × GamePlayer Id) → Nat → Option Nat
  | [], n => some n
  | (_, p) :: rest, n =>
      let n := match p.asTournamentPlayer with
        | some player => if player.isNotEliminated then n + 1 else n
        | none => n
      if 1 < n then none else countNotEliminated rest n

/-- `updateGameStatus()`. -/
def updateGameStatus (order : Arrangement (Id × GamePlayer Id)) (s : War Id) :
    War Id :=
  match countNotEliminated (order.arrange s.players.entries) 0 with
  | none => s
  | some n =>
      if n = 1 ∨ n = s.numPlayers then { s with gameover := true } else s

/-- The loop of `startRound` that prints who played what; only the unwraps
    that can trap are kept of it. -/
def announceCards (s : War Id) : List (Id × List Card) → Outcome Unit
  | [] => .done ()
  | (id, cards) :: rest =>
      match s.players.get? id, cards[0]? with
      | some _, some _ => announceCards s rest
      | none, _ => .trap "Unexpectedly found nil while unwrapping an Optional"
      | _, none => .trap "Index out of range"

/-- The loop of the draw handler that collects the last cards played. -/
def lastPlayedLoop (s : War Id) : List Id → Dictionary Id (List Card) →
    Outcome (Dictionary Id (List Card))
  | [], lastPlayedCards => .done lastPlayedCards
  | id :: ids, lastPlayedCards =>
      match s.tournamentPlayer? id with
      | some player =>
          match player.lastPlayedCard with
          | some card => lastPlayedLoop s ids (lastPlayedCards.set id [card])
          | none => lastPlayedLoop s ids lastPlayedCards
      | none => .trap "player does not exist as a TournamentPlayer in War game"

/-- The handler of `GameEvent.draw` in `startRound`. -/
def handleDraw (fuel : Nat) (o : Schedule Id) (playerIds : List Id)
    (cards : List Card) (s : War Id) : Outcome (War Id) := do
  let lastPlayedCards ← lastPlayedLoop s playerIds Dictionary.empty
  let highCardHolders ←
    s.determineHighCardHolders o.lastPlayedCards lastPlayedCards true
  match highCardHolders with
  | [winner] =>
      match s.tournamentPlayer? winner with
      | some player =>
          let player := (player.setIsNotEliminated true).addToCards cards
          return { s.setPlayer winner player with
            roundWinner := some player.id }
      | none =>
          .trap
            "round winning player does not exist as a TournamentPlayer in War game"
  | _ => dealCards fuel { s with gameDeck := s.gameDeck.setDeckCards cards }

/-- The part of `startRound` after the high card holders are known and before
    `updateGameStatus()`. -/
def settleRound (fuel : Nat) (o : Schedule Id) (highCardHolders : List Id)
    (cards : List Card) (s : War Id) : Outcome (War Id) :=
  match highCardHolders with
  | [winner] =>
      match s.tournamentPlayer? winner with
      | some player =>
          .done { s.setPlayer winner (player.addToCards cards) with
            roundWinner := some player.id }
      | none =>
          .trap
            "round winning player does not exist as a TournamentPlayer in War game"
  | _ => do
      let exit ← war fuel o 0 highCardHolders cards s
      match exit.thrown with
      | none => return exit.state
      | some (.draw playerIds) =>
          handleDraw fuel o playerIds exit.prizeCards exit.state

/-- `startRound()`. -/
def startRound (fuel : Nat) (o : Schedule Id) (s : War Id) :
    Outcome (War Id) := do
  let (roundCards, cards, s) ← s.placeCards
  announceCards s (o.roundCards.arrange roundCards.entries)
  let highCardHolders ←
    s.determineHighCardHolders o.roundCards roundCards false
  let s ← settleRound fuel o highCardHolders cards s
  return s.updateGameStatus o.players

/-! ## The game -/

/-- `print("round winner: …")` unwraps the winner's entry. -/
def announceWinner (s : War Id) : Outcome Unit :=
  match s.roundWinner with
  | some winner =>
      match s.players.get? winner with
      | some _ => .done ()
      | none => .trap "Unexpectedly found nil while unwrapping an Optional"
  | none => .done ()

/-- The `while !gameover` of `startGame`: `rounds` bounds its rounds and
    `os n` is the schedule of the `n`-th. -/
def gameLoop (fuel : Nat) : Nat → (Nat → Schedule Id) → War Id →
    Outcome (War Id)
  | 0, _, _ => .outOfFuel
  | rounds + 1, os, s =>
      if s.gameover then .done s
      else do
        let s ← startRound fuel (os 0) s
        s.announceWinner
        gameLoop fuel rounds (fun n => os (n + 1)) s

/-- The line `startGame` prints at the end. -/
def announcement (s : War Id) : Outcome String :=
  match s.roundWinner with
  | some winner =>
      match s.players.get? winner with
      | some p =>
          .done ("The game is over. The winner is " ++ p.toPlayer.name)
      | none => .trap "Unexpectedly found nil while unwrapping an Optional"
  | none => .done "The game is over but there is no winner"

/-- `startGame()`: the state it leaves and the line it ends with. -/
def startGame (fuel rounds : Nat) (os : Nat → Schedule Id) (s : War Id) :
    Outcome (War Id × String) :=
  if 1 < s.numPlayers then do
    let s ← dealCards fuel s
    let s ← gameLoop fuel rounds os s
    let line ← s.announcement
    return (s, line)
  else .trap "There are not enough players to start a game"

end War

end WarModel
