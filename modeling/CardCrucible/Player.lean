import CardCrucible.Dictionary
import CardCrucible.Deck

/-! # Players — hands, elimination and the dynamic type of a player

    The `Player` of `Player.swift` and its subclass `TournamentPlayer`.  Ids
    are UUID strings in the source and only ever compared, so the type of ids
    is a parameter with a linear order.

    A game stores references of type `Player`; `GamePlayer` records the class
    of the object behind the reference, and the conditional cast
    `as? TournamentPlayer` reads it. -/

namespace PlayerModel

open CardModel DeckModel

/-- A person who takes part in a card game. -/
structure Player (Id : Type) where
  name : String
  playerID : Id
  cards : List Card
  lastPlayedCard : Option Card
  deriving DecidableEq

/-- A player of a game that involves elimination. -/
structure TournamentPlayer (Id : Type) extends Player Id where
  eliminated : Bool
  deriving DecidableEq

/-- A reference to a player, with the class of the object it refers to. -/
inductive GamePlayer (Id : Type) where
  | player (p : Player Id)
  | tournament (p : TournamentPlayer Id)
  deriving DecidableEq

variable {Id : Type}

def Player.id (p : Player Id) : Id := p.playerID

def Player.numCards (p : Player Id) : Nat := p.cards.length

namespace TournamentPlayer

/-- `TournamentPlayer.init(_:_:_:)`. -/
def create (name : String) (id : Id) (cards : List Card) :
    TournamentPlayer Id where
  name := name
  playerID := id
  cards := cards
  lastPlayedCard := none
  eliminated := false

/-- `TournamentPlayer.init(_ player:)`. -/
def ofPlayer (p : Player Id) : TournamentPlayer Id :=
  create p.name p.playerID p.cards

/-- `copy(with:)`: name, id and cards are carried over. -/
def copy (p : TournamentPlayer Id) : TournamentPlayer Id :=
  create p.name p.playerID p.cards

def isEliminated (p : TournamentPlayer Id) : Bool := p.eliminated

def isNotEliminated (p : TournamentPlayer Id) : Bool := !p.eliminated

theorem isNotEliminated_eq (p : TournamentPlayer Id) :
    p.isNotEliminated = !p.eliminated := rfl

def setIsEliminated (p : TournamentPlayer Id) (newValue : Bool) :
    TournamentPlayer Id := { p with eliminated := newValue }

def setIsNotEliminated (p : TournamentPlayer Id) (newValue : Bool) :
    TournamentPlayer Id := { p with eliminated := !newValue }

/-- `addToCards(_ newCards:)`; a single card is a list of one. -/
def addToCards (p : TournamentPlayer Id) (newCards : List Card) :
    TournamentPlayer Id := { p with cards := p.cards ++ newCards }

end TournamentPlayer

namespace GamePlayer

/-- The part every player has. -/
def toPlayer : GamePlayer Id → Player Id
  | .player p => p
  | .tournament p => p.toPlayer

/-- `as? TournamentPlayer`. -/
def asTournamentPlayer : GamePlayer Id → Option (TournamentPlayer Id)
  | .player _ => none
  | .tournament p => some p

/-- Change the object behind a reference, if it is a tournament player. -/
def mapTournament (f : TournamentPlayer Id → TournamentPlayer Id) :
    GamePlayer Id → GamePlayer Id
  | .player p => .player p
  | .tournament p => .tournament (f p)

@[simp] theorem asTournamentPlayer_mapTournament
    (f : TournamentPlayer Id → TournamentPlayer Id) (g : GamePlayer Id) :
    (g.mapTournament f).asTournamentPlayer
      = g.asTournamentPlayer.map f := by
  cases g <;> rfl

end GamePlayer

end PlayerModel
