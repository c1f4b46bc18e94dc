import Mathlib.Order.Basic
import Mathlib.Data.String.Basic
import Mathlib.Data.Fintype.Prod

/-! # Cards — suits, ranks and their orders

    The card of `Models/Card.swift`.  Both enumerations are compared by their
    raw value: a rank by its number (two is 2, ace is 14), a suit by its name,
    which happens to put clubs below diamonds, hearts and spades.

    A card's `cardValue` is its rank's raw value in every card the initializer
    builds, so it is a function of the card here and not a third field.  So is
    the image name, which is read from a resource file and only ever printed
    (`Faces.lean`). -/

namespace CardModel

/-- The suit of a card. -/
inductive Suit where
  | clubs | diamonds | hearts | spades
  deriving Repr, DecidableEq

/-- The rank of a card. -/
inductive Rank where
  | two | three | four | five | six | seven | eight | nine | ten
  | jack | queen | king
  | ace
  deriving Repr, DecidableEq

def Suit.rawValue : Suit → String
  | .clubs => "Clubs"
  | .diamonds => "Diamonds"
  | .hearts => "Hearts"
  | .spades => "Spades"

def Rank.rawValue : Rank → Int
  | .two => 2
  | .three => 3
  | .four => 4
  | .five => 5
  | .six => 6
  | .seven => 7
  | .eight => 8
  | .nine => 9
  | .ten => 10
  | .jack => 11
  | .queen => 12
  | .king => 13
  | .ace => 14

/-- `Suit.allCases`, in declaration order. -/
def Suit.allCases : List Suit := [.clubs, .diamonds, .hearts, .spades]

/-- `Rank.allCases`, in declaration order. -/
def Rank.allCases : List Rank :=
  [.two, .three, .four, .five, .six, .seven, .eight, .nine, .ten, .jack,
    .queen, .king, .ace]

instance : Fintype Suit where
  elems := Suit.allCases.toFinset
  complete := by
    intro s
    cases s <;> decide

instance : Fintype Rank where
  elems := Rank.allCases.toFinset
  complete := by
    intro r
    cases r <;> decide

theorem Suit.rawValue_injective : Function.Injective Suit.rawValue := by
  intro a b h
  revert h
  revert a b
  decide

theorem Rank.rawValue_injective : Function.Injective Rank.rawValue := by
  intro a b h
  revert h
  revert a b
  decide

/-- Suits are ordered by their raw value, as strings. -/
instance : LinearOrder Suit :=
  LinearOrder.lift' Suit.rawValue Suit.rawValue_injective

/-- Ranks are ordered by their raw value, as numbers. -/
instance : LinearOrder Rank :=
  LinearOrder.lift' Rank.rawValue Rank.rawValue_injective

/-- Two is the lowest rank, so a running maximum may start from it. -/
theorem Rank.two_le (r : Rank) : Rank.two ≤ r := by
  revert r
  decide

/-- A playing card. -/
structure Card where
  suit : Suit
  rank : Rank
  deriving Repr, DecidableEq

/-- A card is a suit and a rank. -/
def Card.equivProd : Card ≃ Suit × Rank where
  toFun := fun c => (c.suit, c.rank)
  invFun := fun p => ⟨p.1, p.2⟩
  left_inv := fun _ => rfl
  right_inv := fun _ => rfl

instance : Fintype Card := Fintype.ofEquiv _ Card.equivProd.symm

/-- The value associated with the card's rank. -/
def Card.cardValue (c : Card) : Int := c.rank.rawValue

/-- `Card ==` compares suit, rank and card value: it is equality. -/
theorem Card.eq_iff (a b : Card) :
    a = b ↔ a.suit = b.suit ∧ a.rank = b.rank ∧ a.cardValue = b.cardValue := by
  constructor
  · intro h
    subst h
    exact ⟨rfl, rfl, rfl⟩
  · rintro ⟨hs, hr, -⟩
    cases a
    cases b
    cases hs
    cases hr
    rfl

end CardModel
