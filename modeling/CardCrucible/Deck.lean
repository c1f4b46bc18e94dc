import CardCrucible.Outcome
import CardCrucible.Arrangement
import CardCrucible.Card

/-! # Decks — building, shuffling and drawing

    The `Deck` of `Models/Deck.swift`.  A mutating method returns the pair of
    its result and the deck it leaves; a static method with an `inout` array
    returns the pair of its result and the array it leaves, so that what a
    throw leaves behind is visible.

    `Array.shuffle` draws on randomness: the outcome of each call is an
    arrangement given from outside, and the retry loop around it has fuel. -/

namespace DeckModel

open Outcomes Arrangements CardModel

/-- The most sub-decks a deck may have. -/
def maxNumSubDecks : Int := 10

/-- The fewest sub-decks a deck may have. -/
def minNumSubDecks : Int := 0

/-- The property wrapper around a number of sub-decks: only numbers within the
    limits can be stored. -/
structure AllowedNumSubDecks where
  numSubDecks : Int
  inRange : minNumSubDecks ≤ numSubDecks ∧ numSubDecks ≤ maxNumSubDecks
  deriving DecidableEq

/-- `init(wrappedValue:)` and the setter: force a number within the limits. -/
def AllowedNumSubDecks.wrap (wrappedValue : Int) : AllowedNumSubDecks where
  numSubDecks := max (min wrappedValue maxNumSubDecks) minNumSubDecks
  inRange := by
    refine ⟨le_max_right _ _, max_le (min_le_right _ _) ?_⟩
    decide

/-- The default number of cards of a sub-deck. -/
def defaultDeckSize : Int := 52

/-- The greatest value an `Int` can hold. -/
def maxInt : Int := 2 ^ 63 - 1

/-- The errors of drawing from a deck. -/
inductive DeckError where
  | drawFromEmptyDeck
  | insufficientCardsRemaining (cardsDrawn : List Card) (message : String)
  | negativeDrawAttempt
  deriving Repr, DecidableEq

/-- A main deck: the cards of its sub-decks, and how many sub-decks it has. -/
structure Deck where
  decks : List Card
  numSubDecks : AllowedNumSubDecks
  deriving DecidableEq

namespace Deck

/-- Getter of the main deck. -/
def deckCards (d : Deck) : List Card := d.decks

/-- Setter of `deckCards`: it only takes effect on an empty deck. -/
def setDeckCards (d : Deck) (newValue : List Card) : Deck :=
  if d.decks.isEmpty then { d with decks := newValue } else d

def deckSize (d : Deck) : Nat := d.decks.length

/-- One sub-deck in the order `createDeck` appends it. -/
def subDeck : List Card :=
  Rank.allCases.flatMap fun rank =>
    Suit.allCases.map fun suit => { suit := suit, rank := rank }

/-- `createDeck(numSubDecks:)`: replace the deck by that many sub-decks. -/
def createDeck (_ : Deck) (numSubDecks : Int) : List Card × Deck :=
  let allowed := AllowedNumSubDecks.wrap numSubDecks
  let decks := (List.replicate allowed.numSubDecks.toNat subDeck).flatten
  (decks, { decks := decks, numSubDecks := allowed })

/-- `static createDeck(numSubDecks:)`.  The source clamps the parameter at the
    maximum first, and then overwrites the result by clamping the parameter at
    the minimum.  The product traps when it overflows. -/
def staticCreateDeck (numSubDecks : Int) : Outcome (List Card) :=
  let subDecks := max numSubDecks minNumSubDecks
  if subDecks * defaultDeckSize ≤ maxInt then
    .done (List.replicate subDecks.toNat
      (Suit.allCases.flatMap fun suit =>
        Rank.allCases.map fun rank => { suit := suit, rank := rank })).flatten
  else .trap "Arithmetic overflow"

/-- The retry loop of both shuffles: shuffle until the order has changed. -/
def shuffleLoop : Nat → (Nat → Arrangement Card) → List Card → List Card →
    Outcome (List Card)
  | 0, _, _, _ => .outOfFuel
  | fuel + 1, random, tempDeck, decks =>
      if tempDeck = decks then
        shuffleLoop fuel (fun n => random (n + 1)) tempDeck
          ((random 0).arrange decks)
      else .done decks

/-- `shuffle()`: an empty deck is left alone. -/
def shuffle (fuel : Nat) (random : Nat → Arrangement Card) (d : Deck) :
    Outcome (List Card × Deck) :=
  if 0 < d.deckSize then do
    let decks ← shuffleLoop fuel random d.decks d.decks
    return (decks, { d with decks := decks })
  else .done ([], d)

/-- `static shuffle(deck:)`. -/
def staticShuffle (fuel : Nat) (random : Nat → Arrangement Card)
    (deck : List Card) : Outcome (List Card) :=
  if 0 < deck.length then shuffleLoop fuel random deck deck else .done []

/-- `static createShuffledDeck(numSubDecks:)`. -/
def staticCreateShuffledDeck (fuel : Nat) (random : Nat → Arrangement Card)
    (numSubDecks : Int) : Outcome (List Card) := do
  let deck ← staticCreateDeck numSubDecks
  staticShuffle fuel random deck

/-- `createShuffledDeck(numSubDecks:)`. -/
def createShuffledDeck (fuel : Nat) (random : Nat → Arrangement Card)
    (d : Deck) (numSubDecks : Int) : Outcome (List Card × Deck) :=
  shuffle fuel random (d.createDeck numSubDecks).2

/-- `Deck.init(numSubDecks:shuffle:)`. -/
def init (fuel : Nat) (random : Nat → Arrangement Card) (numSubDecks : Int)
    (shuffle : Bool) : Outcome Deck :=
  let d : Deck :=
    { decks := [], numSubDecks := AllowedNumSubDecks.wrap numSubDecks }
  if shuffle then do
    let (_, d) ← createShuffledDeck fuel random d d.numSubDecks.numSubDecks
    return d
  else .done (d.createDeck d.numSubDecks.numSubDecks).2

/-- `drawCard()`: the top card is at index 0. -/
def drawCard (d : Deck) : Except DeckError Card × Deck :=
  match d.decks with
  | [] => (.error .drawFromEmptyDeck, d)
  | card :: decks => (.ok card, { d with decks := decks })

/-- The drawing loop of `drawCards(drawAmount:)`. -/
def drawCardLoop : Nat → List Card → Deck →
    Except DeckError (List Card) × Deck
  | 0, drawnCards, d => (.ok drawnCards, d)
  | n + 1, drawnCards, d =>
      match d.drawCard with
      | (.ok card, d) => drawCardLoop n (drawnCards ++ [card]) d
      | (.error e, d) => (.error e, d)

/-- The error of drawing more cards than there are. -/
def insufficient (drawAmount : Int) (drawnCards : List Card) : DeckError :=
  .insufficientCardsRemaining drawnCards
    (s!"attempted to draw {drawAmount} cards but there were only " ++
      s!"{drawnCards.length} cards in the deck")

/-- `drawCards(drawAmount:)`. -/
def drawCards (d : Deck) (drawAmount : Int) :
    Except DeckError (List Card) × Deck :=
  if 0 < drawAmount then
    if drawAmount ≤ d.deckSize then drawCardLoop drawAmount.toNat [] d
    else (.error (insufficient drawAmount d.decks), { d with decks := [] })
  else (.error .negativeDrawAttempt, d)

/-- `decks.remove(at: decks.firstIndex(of: decks.randomElement()!)!)`; `choice`
    is the random number behind `randomElement()`. -/
def removeRandom (choice : Nat) (decks : List Card) :
    Outcome (Card × List Card) :=
  match decks[choice % decks.length]? with
  | none => .trap "Unexpectedly found nil while unwrapping an Optional"
  | some element =>
      match decks.idxOf? element with
      | none => .trap "Unexpectedly found nil while unwrapping an Optional"
      | some i =>
          match decks[i]? with
          | none => .trap "Index out of range"
          | some card => .done (card, decks.eraseIdx i)

/-- `drawRandomCard()`. -/
def drawRandomCard (choice : Nat) (d : Deck) :
    Outcome (Except DeckError Card × Deck) :=
  if 0 < d.deckSize then do
    let (card, decks) ← removeRandom choice d.decks
    return (.ok card, { d with decks := decks })
  else .done (.error .drawFromEmptyDeck, d)

/-- The drawing loop of `drawRandomCards(drawAmount:)`. -/
def drawRandomLoop : Nat → (Nat → Nat) → List Card → Deck →
    Outcome (Except DeckError (List Card) × Deck)
  | 0, _, drawnCards, d => .done (.ok drawnCards, d)
  | n + 1, choices, drawnCards, d => do
      let (drawn, d) ← drawRandomCard (choices 0) d
      match drawn with
      | .ok card =>
          drawRandomLoop n (fun k => choices (k + 1)) (drawnCards ++ [card]) d
      | .error e => return (.error e, d)

/-- `drawRandomCards(drawAmount:)`. -/
def drawRandomCards (choices : Nat → Nat) (d : Deck) (drawAmount : Int) :
    Outcome (Except DeckError (List Card) × Deck) :=
  if 0 < drawAmount then
    if drawAmount ≤ d.deckSize then
      drawRandomLoop drawAmount.toNat choices [] d
    else do
      let (drawn, d) ← drawRandomLoop d.deckSize choices [] d
      match drawn with
      | .ok drawnCards => return (.error (insufficient drawAmount drawnCards), d)
      | .error e => return (.error e, d)
  else .done (.error .negativeDrawAttempt, d)

/-- `static drawCard(from:)`. -/
def drawCardFrom : List Card → Except DeckError Card × List Card
  | [] => (.error .drawFromEmptyDeck, [])
  | card :: rest => (.ok card, rest)

/-- The drawing loop of `static drawCards(drawAmount:from:)`. -/
def drawCardsLoop : Nat → List Card → List Card →
    Except DeckError (List Card) × List Card
  | 0, drawnCards, cards => (.ok drawnCards, cards)
  | n + 1, drawnCards, cards =>
      match drawCardFrom cards with
      | (.ok card, rest) => drawCardsLoop n (drawnCards ++ [card]) rest
      | (.error e, rest) => (.error e, rest)

/-- `static drawCards(drawAmount:from:)`. -/
def drawCardsFrom (drawAmount : Int) (cards : List Card) :
    Except DeckError (List Card) × List Card :=
  if 0 < drawAmount then
    if drawAmount ≤ cards.length then
      drawCardsLoop drawAmount.toNat [] cards
    else
      (.error (.insufficientCardsRemaining cards
        (s!"attempted to draw {drawAmount} cards but there were only " ++
          s!"{cards.length} cards in the deck")), [])
  else (.error .negativeDrawAttempt, cards)

/-- `static drawRandomCard(_:)`. -/
def drawRandomCardFrom (choice : Nat) (cards : List Card) :
    Outcome (Except DeckError Card × List Card) :=
  if cards.isEmpty then .done (.error .drawFromEmptyDeck, cards)
  else do
    let (card, cards) ← removeRandom choice cards
    return (.ok card, cards)

/-- The drawing loop of `static drawRandomCards(drawAmount:from:)`. -/
def drawRandomCardsLoop : Nat → (Nat → Nat) → List Card → List Card →
    Outcome (Except DeckError (List Card) × List Card)
  | 0, _, drawnCards, cards => .done (.ok drawnCards, cards)
  | n + 1, choices, drawnCards, cards => do
      let (drawn, cards) ← drawRandomCardFrom (choices 0) cards
      match drawn with
      | .ok card =>
          drawRandomCardsLoop n (fun k => choices (k + 1))
            (drawnCards ++ [card]) cards
      | .error e => return (.error e, cards)

/-- `static drawRandomCards(drawAmount:from:)`. -/
def drawRandomCardsFrom (choices : Nat → Nat) (drawAmount : Int)
    (cards : List Card) :
    Outcome (Except DeckError (List Card) × List Card) :=
  if 0 < drawAmount then
    if drawAmount ≤ cards.length then
      drawRandomCardsLoop drawAmount.toNat choices [] cards
    else do
      let (drawn, cards) ← drawRandomCardsLoop cards.length choices [] cards
      match drawn with
      | .ok drawnCards =>
          return (.error (.insufficientCardsRemaining drawnCards
            (s!"attempted to draw {drawAmount} cards but there were only " ++
              s!"{drawnCards.length} cards in the array of cards")), cards)
      | .error e => return (.error e, cards)
  else .done (.error .negativeDrawAttempt, cards)

/-- The running maximum of `determineHighestRank`. -/
def highestRankFrom : Rank → List Card → Rank
  | highestRank, [] => highestRank
  | highestRank, card :: cards =>
      highestRankFrom
        (if highestRank < card.rank then card.rank else highestRank) cards

/-- `static determineHighestRank(in:)`. -/
def determineHighestRank (cards : List Card) : Outcome Rank :=
  if cards.isEmpty then
    .trap "An empty array does not possess a highest ranked card"
  else .done (highestRankFrom .two cards)

end Deck

/-! ## What the operations do -/

open Deck

/-- The drawing loop takes cards off the front, one by one. -/
theorem drawCardsLoop_eq (n : Nat) :
    ∀ (drawn cards : List Card), n ≤ cards.length →
      drawCardsLoop n drawn cards
        = (.ok (drawn ++ cards.take n), cards.drop n) := by
  induction n with
  | zero =>
      intro drawn cards _
      show (Except.ok drawn, cards) = _
      rw [List.take_zero, List.append_nil, List.drop_zero]
  | succ n ih =>
      intro drawn cards hn
      cases cards with
      | nil => exact absurd hn (by simp)
      | cons card rest =>
          rw [List.length_cons] at hn
          show drawCardsLoop n (drawn ++ [card]) rest = _
          rw [ih (drawn ++ [card]) rest (by omega), List.append_assoc]
          rfl

/-- Enough cards: the draw is a prefix and the rest stays. -/
theorem drawCardsFrom_of_le {n : Nat} {cards : List Card} (hn : 0 < n)
    (h : n ≤ cards.length) :
    drawCardsFrom n cards = (.ok (cards.take n), cards.drop n) := by
  have hpos : (0 : Int) < n := by omega
  have hle : (n : Int) ≤ cards.length := by omega
  simp only [drawCardsFrom]
  rw [if_pos hpos, if_pos hle]
  show drawCardsLoop n [] cards = _
  rw [drawCardsLoop_eq n [] cards h, List.nil_append]

/-- Too few cards: all of them travel in the error and none stays. -/
theorem drawCardsFrom_of_lt {n : Nat} {cards : List Card}
    (h : cards.length < n) :
    ∃ message, drawCardsFrom n cards
      = (.error (.insufficientCardsRemaining cards message), []) := by
  have hpos : (0 : Int) < n := by omega
  have hle : ¬ (n : Int) ≤ cards.length := by omega
  simp only [drawCardsFrom]
  rw [if_pos hpos, if_neg hle]
  exact ⟨_, rfl⟩

/-- The running maximum bounds its start and every card. -/
theorem highestRankFrom_ge (cards : List Card) :
    ∀ r : Rank, r ≤ highestRankFrom r cards ∧
      ∀ c ∈ cards, c.rank ≤ highestRankFrom r cards := by
  induction cards with
  | nil =>
      intro r
      exact ⟨le_refl r, fun c hc => absurd hc List.not_mem_nil⟩
  | cons card cards ih =>
      intro r
      obtain ⟨hstart, hall⟩ := ih (if r < card.rank then card.rank else r)
      have hmax : r ≤ (if r < card.rank then card.rank else r) ∧
          card.rank ≤ (if r < card.rank then card.rank else r) := by
        by_cases h : r < card.rank
        · rw [if_pos h]
          exact ⟨le_of_lt h, le_refl _⟩
        · rw [if_neg h]
          exact ⟨le_refl r, not_lt.mp h⟩
      refine ⟨le_trans hmax.1 hstart, ?_⟩
      intro c hc
      rcases List.mem_cons.mp hc with heq | hmem
      · rw [heq]
        exact le_trans hmax.2 hstart
      · exact hall c hmem

/-- The running maximum is its start or the rank of a card. -/
theorem highestRankFrom_mem (cards : List Card) :
    ∀ r : Rank, highestRankFrom r cards = r ∨
      ∃ c ∈ cards, highestRankFrom r cards = c.rank := by
  induction cards with
  | nil => intro r; exact Or.inl rfl
  | cons card cards ih =>
      intro r
      rcases ih (if r < card.rank then card.rank else r) with h | ⟨c, hc, h⟩
      · by_cases hlt : r < card.rank
        · rw [if_pos hlt] at h
          refine Or.inr ⟨card, List.mem_cons_self, ?_⟩
          show highestRankFrom (if r < card.rank then card.rank else r) cards
            = card.rank
          rw [if_pos hlt]
          exact h
        · refine Or.inl ?_
          show highestRankFrom (if r < card.rank then card.rank else r) cards
            = r
          rw [if_neg hlt] at h ⊢
          exact h
      · exact Or.inr ⟨c, List.mem_cons_of_mem _ hc, h⟩

/-- Starting the maximum from two is right: the result is the rank of a card
    and no card's rank exceeds it. -/
theorem determineHighestRank_spec {cards : List Card} (h : cards ≠ []) :
    ∃ r, determineHighestRank cards = .done r ∧
      (∃ c ∈ cards, c.rank = r) ∧ ∀ c ∈ cards, c.rank ≤ r := by
  obtain ⟨-, hall⟩ := highestRankFrom_ge cards .two
  refine ⟨highestRankFrom .two cards, ?_, ?_, hall⟩
  · simp only [determineHighestRank]
    rw [if_neg (by rw [List.isEmpty_iff]; exact h)]
  · rcases highestRankFrom_mem cards .two with hr | ⟨c, hc, hr⟩
    · -- the maximum never rose: every card is a two
      obtain ⟨c, hc⟩ := List.exists_mem_of_ne_nil cards h
      refine ⟨c, hc, le_antisymm (hall c hc) ?_⟩
      rw [hr]
      exact Rank.two_le c.rank
    · exact ⟨c, hc, hr.symm⟩

/-- A shuffle that ends has only reordered the cards. -/
theorem shuffleLoop_perm :
    ∀ (fuel : Nat) (random : Nat → Arrangement Card)
      (temp decks out : List Card),
      shuffleLoop fuel random temp decks = .done out → out.Perm decks := by
  intro fuel
  induction fuel with
  | zero => intro random temp decks out h; cases h
  | succ fuel ih =>
      intro random temp decks out h
      simp only [shuffleLoop] at h
      by_cases heq : temp = decks
      · -- the order has not changed yet: another shuffle
        rw [if_pos heq] at h
        exact (ih _ _ _ _ h).trans ((random 0).perm decks)
      · rw [if_neg heq] at h
        rw [← Outcome.done.inj h]

/-- The shuffled deck of the initializer holds the cards of its sub-decks. -/
theorem init_shuffled_perm {fuel : Nat} {random : Nat → Arrangement Card}
    {n : Int} {d : Deck} (h : init fuel random n true = .done d) :
    d.decks.Perm
      (List.replicate (AllowedNumSubDecks.wrap n).numSubDecks.toNat
        subDeck).flatten := by
  -- the initializer clamps the number, and `createDeck` clamps it once more
  have hwrap : AllowedNumSubDecks.wrap (AllowedNumSubDecks.wrap n).numSubDecks
      = AllowedNumSubDecks.wrap n := by
    obtain ⟨hlo, hhi⟩ := (AllowedNumSubDecks.wrap n).inRange
    show AllowedNumSubDecks.mk (max (min _ _) _) _ = _
    have hval : max (min (AllowedNumSubDecks.wrap n).numSubDecks
        maxNumSubDecks) minNumSubDecks
        = (AllowedNumSubDecks.wrap n).numSubDecks := by
      rw [min_eq_left hhi, max_eq_left hlo]
    cases hw : AllowedNumSubDecks.wrap n with
    | mk m hm =>
        rw [hw] at hval
        simp only [AllowedNumSubDecks.mk.injEq]
        exact hval
  simp only [init, createShuffledDeck, shuffle, createDeck] at h
  simp only [if_true, hwrap] at h
  obtain ⟨p, hp, hd⟩ := Outcome.bind_eq_done.mp h
  have hd' : p.2 = d := Outcome.done.inj hd
  rw [← hd']
  by_cases hsize : 0 < Deck.deckSize
      ⟨(List.replicate (AllowedNumSubDecks.wrap n).numSubDecks.toNat
        subDeck).flatten, AllowedNumSubDecks.wrap n⟩
  · rw [if_pos hsize] at hp
    obtain ⟨out, hout, hpair⟩ := Outcome.bind_eq_done.mp hp
    have hpair' := Outcome.done.inj hpair
    rw [← hpair']
    exact shuffleLoop_perm _ _ _ _ _ hout
  · rw [if_neg hsize] at hp
    have hp' := Outcome.done.inj hp
    rw [← hp']

end DeckModel
