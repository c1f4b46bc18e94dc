import CardCrucible.Safety
import CardCrucible.Twins

/-! # Relabelling — cards exchanged for cards of the same rank

    A `Relabelling` exchanges cards for cards of the same rank.  Dealing,
    placing and comparing cards and going to war all commute with it, because
    they only ever read ranks. -/

namespace Suits

open Outcomes Arrangements Dictionaries CardModel DeckModel PlayerModel
open WarModel WarModel.War WarState WarTurn Comparisons WarRuns Spending
open Dealing Rounds GameStatus RoundLaws Games Twins

variable {Id : Type}

/-- An exchange of cards for cards of the same rank. -/
structure Relabelling where
  card : Card → Card
  rank : ∀ c, (card c).rank = c.rank

namespace Relabelling

/-- The relabelling that forgets the suits. -/
def plain : Relabelling where
  card := fun c => { suit := .clubs, rank := c.rank }
  rank := fun _ => rfl

/-- Hands and piles. -/
def cards (ρ : Relabelling) (l : List Card) : List Card := l.map ρ.card

def player (ρ : Relabelling) (p : Player Id) : Player Id :=
  { p with
    cards := ρ.cards p.cards
    lastPlayedCard := p.lastPlayedCard.map ρ.card }

def tournamentPlayer (ρ : Relabelling) (p : TournamentPlayer Id) :
    TournamentPlayer Id :=
  { p with
    cards := ρ.cards p.cards
    lastPlayedCard := p.lastPlayedCard.map ρ.card }

def gamePlayer (ρ : Relabelling) : GamePlayer Id → GamePlayer Id
  | .player p => .player (ρ.player p)
  | .tournament p => .tournament (ρ.tournamentPlayer p)

def deck (ρ : Relabelling) (d : Deck) : Deck :=
  { d with decks := ρ.cards d.decks }

/-- Tables. -/
def table (ρ : Relabelling) (s : War Id) : War Id :=
  { s with
    gameDeck := ρ.deck s.gameDeck
    players := s.players.mapValues (fun _ => ρ.gamePlayer) }

/-- The cards recorded for a comparison. -/
def recorded (ρ : Relabelling) (d : Dictionary Id (List Card)) :
    Dictionary Id (List Card) := d.mapValues (fun _ => ρ.cards)

/-- What a call of `war` ends with. -/
def exit (ρ : Relabelling) (e : WarExit Id) : WarExit Id where
  thrown := e.thrown
  prizeCards := ρ.cards e.prizeCards
  state := ρ.table e.state

/-- What the draws of a war end with. -/
def draws (ρ : Relabelling)
    (r : Bool × List Card × Dictionary Id (List Card) × War Id) :
    Bool × List Card × Dictionary Id (List Card) × War Id :=
  (r.1, ρ.cards r.2.1, ρ.recorded r.2.2.1, ρ.table r.2.2.2)

section Reads

variable (ρ : Relabelling)

@[simp] theorem cards_nil : ρ.cards [] = [] := rfl

@[simp] theorem cards_cons (c : Card) (l : List Card) :
    ρ.cards (c :: l) = ρ.card c :: ρ.cards l := rfl

theorem cards_append (l l' : List Card) :
    ρ.cards (l ++ l') = ρ.cards l ++ ρ.cards l' := List.map_append

@[simp] theorem length_cards (l : List Card) :
    (ρ.cards l).length = l.length := List.length_map ..

theorem cards_isEmpty (l : List Card) :
    (ρ.cards l).isEmpty = l.isEmpty := by
  cases l <;> rfl

theorem getLast?_cards (l : List Card) :
    (ρ.cards l).getLast? = l.getLast?.map ρ.card := List.getLast?_map

/-- Forgetting the suits forgets an exchange of suits. -/
theorem plain_card (c : Card) : plain.card (ρ.card c) = plain.card c := by
  show Card.mk .clubs (ρ.card c).rank = _
  rw [ρ.rank]
  rfl

end Reads

section Tables

/-- The iteration orders of a round depend on the keys alone.  The order of
    `lastPlayedCards` may be anything. -/
structure KeyDriven (o : Schedule Id) : Prop where
  roundCards : o.roundCards.KeyDriven
  warParticipants : ∀ n, (o.warParticipants n).KeyDriven
  players : o.players.KeyDriven

variable [LinearOrder Id] (ρ : Relabelling)

omit [LinearOrder Id] in
@[simp] theorem keys_table (s : War Id) :
    (ρ.table s).players.keys = s.players.keys := Dictionary.keys_mapValues ..

@[simp] theorem tournamentPlayer?_table (s : War Id) (id : Id) :
    (ρ.table s).tournamentPlayer? id
      = (s.tournamentPlayer? id).map ρ.tournamentPlayer := by
  show ((s.players.mapValues _).get? id).bind _
    = ((s.players.get? id).bind _).map _
  rw [Dictionary.get?_mapValues]
  cases s.players.get? id with
  | none => rfl
  | some g => cases g <;> rfl

/-- Writing a player, then relabelling. -/
theorem table_setPlayer (s : War Id) (id : Id) (p : TournamentPlayer Id) :
    ρ.table (s.setPlayer id p)
      = (ρ.table s).setPlayer id (ρ.tournamentPlayer p) := by
  show { s with gameDeck := _, players := (s.players.set id _).mapValues _ }
    = _
  rw [Dictionary.mapValues_set]
  rfl

theorem inGame_table (s : War Id) (id : Id) :
    inGame (ρ.table s) id = inGame s id := by
  simp only [inGame]
  rw [tournamentPlayer?_table]
  cases s.tournamentPlayer? id <;> rfl

theorem isOut_table (s : War Id) (id : Id) :
    isOut (ρ.table s) id = isOut s id := by
  simp only [isOut]
  rw [tournamentPlayer?_table]
  cases s.tournamentPlayer? id <;> rfl

theorem hand_table (s : War Id) (id : Id) :
    hand (ρ.table s) id = ρ.cards (hand s id) := by
  simp only [hand]
  rw [tournamentPlayer?_table]
  cases s.tournamentPlayer? id <;> rfl

theorem lastPlayed_table (s : War Id) (id : Id) :
    lastPlayed (ρ.table s) id = (lastPlayed s id).map ρ.card := by
  simp only [lastPlayed]
  rw [tournamentPlayer?_table]
  cases s.tournamentPlayer? id <;> rfl

omit [LinearOrder Id] in
theorem wellFormed_table {s : War Id} :
    WellFormed (ρ.table s) ↔ WellFormed s := by
  constructor
  · intro h e he
    obtain ⟨p, hp, hid⟩ := h _
      (List.mem_map_of_mem (f := fun e => (e.1, ρ.gamePlayer e.2)) he)
    obtain ⟨id, g⟩ := e
    cases g with
    | player q => cases hp
    | tournament q =>
        have hpq : ρ.tournamentPlayer q = p := GamePlayer.tournament.inj hp
        rw [← hpq] at hid
        exact ⟨q, rfl, hid⟩
  · intro h e he
    obtain ⟨e₀, he₀, heq⟩ := List.mem_map.mp he
    obtain ⟨p, hp, hid⟩ := h e₀ he₀
    refine ⟨ρ.tournamentPlayer p, ?_, ?_⟩
    · rw [← heq]
      show ρ.gamePlayer e₀.2 = _
      rw [hp]
      rfl
    · rw [← heq]
      exact hid

theorem live_table (s : War Id) : Live (ρ.table s) ↔ Live s := by
  simp only [Live, inGame_table, hand_table, cards, ne_eq,
    List.map_eq_nil_iff]

/-! ## Dealing -/

theorem dealPass_table (ids : List Id) :
    ∀ s : War Id, dealPass ids (ρ.table s)
      = (dealPass ids s).map (fun r => (r.1, ρ.table r.2)) := by
  induction ids with
  | nil => intro s; rfl
  | cons id ids ih =>
      intro s
      simp only [dealPass]
      rw [tournamentPlayer?_table]
      cases s.tournamentPlayer? id with
      | none => exact ih s
      | some p =>
          obtain ⟨⟨name, pid, hand, last⟩, out⟩ := p
          cases out with
          | true => exact ih s
          | false =>
              obtain ⟨⟨⟨decks, num⟩, players, gameover⟩, winner⟩ := s
              cases decks with
              | nil => rfl
              | cons c rest =>
                  show dealPass ids _ = (dealPass ids _).map _
                  rw [← ih, table_setPlayer]
                  simp only [tournamentPlayer, TournamentPlayer.addToCards]
                  rw [cards_append]
                  rfl

theorem dealLoop_table (fuel : Nat) :
    ∀ s : War Id, dealLoop fuel (ρ.table s)
      = (dealLoop fuel s).map ρ.table := by
  induction fuel with
  | zero => intro s; rfl
  | succ fuel ih =>
      intro s
      simp only [dealLoop]
      rw [keys_table, dealPass_table]
      refine Outcome.map_bind ?_
      rintro ⟨returned, t⟩ -
      cases returned with
      | true => rfl
      | false => exact ih t

theorem dealCards_table (fuel : Nat) (s : War Id) :
    dealCards fuel (ρ.table s) = (dealCards fuel s).map ρ.table := by
  have hempty : (ρ.table s).players.isEmpty = s.players.isEmpty := by
    rw [Bool.eq_iff_iff, Dictionary.isEmpty_iff, Dictionary.isEmpty_iff,
      keys_table]
  simp only [dealCards]
  rw [hempty]
  cases s.players.isEmpty with
  | true => rfl
  | false => exact ρ.dealLoop_table fuel s

/-! ## Placing cards -/

theorem recorded_set (d : Dictionary Id (List Card)) (id : Id)
    (l : List Card) :
    ρ.recorded (d.set id l) = (ρ.recorded d).set id (ρ.cards l) :=
  Dictionary.mapValues_set ..

theorem placeLoop_table (ids : List Id) :
    ∀ (rc : Dictionary Id (List Card)) (l : List Card) (s : War Id),
      placeLoop ids (ρ.recorded rc) (ρ.cards l) (ρ.table s)
        = (placeLoop ids rc l s).map (fun r =>
            (ρ.recorded r.1, ρ.cards r.2.1, ρ.table r.2.2)) := by
  induction ids with
  | nil => intro rc l s; rfl
  | cons id ids ih =>
      intro rc l s
      simp only [placeLoop]
      rw [tournamentPlayer?_table]
      cases s.tournamentPlayer? id with
      | none => rfl
      | some p =>
          obtain ⟨⟨name, pid, hand, last⟩, out⟩ := p
          cases out with
          | true => exact ih rc l s
          | false =>
              cases hand with
              | nil =>
                  show placeLoop ids _ _ _ = (placeLoop ids _ _ _).map _
                  rw [← ih, table_setPlayer]
                  rfl
              | cons c rest =>
                  show placeLoop ids _ _ _ = (placeLoop ids _ _ _).map _
                  rw [← ih, table_setPlayer, recorded_set, cards_append]
                  rfl

theorem placeCards_table {s : War Id} (hwf : WellFormed s) :
    placeCards (ρ.table s)
      = (placeCards s).map (fun r =>
          (ρ.recorded r.1, ρ.cards r.2.1, ρ.table r.2.2)) := by
  have hsorted : (ρ.table s).sortedPlayers = s.sortedPlayers := by
    rw [sortedPlayers_eq (ρ.wellFormed_table.mpr hwf), sortedPlayers_eq hwf,
      keys_table]
  simp only [placeCards]
  rw [hsorted]
  exact ρ.placeLoop_table s.sortedPlayers Dictionary.empty [] s

/-! ## Comparing -/

omit [LinearOrder Id] in
/-- Relabelled entries, in an order that only depends on the keys. -/
theorem arrange_recorded {order : Arrangement (Id × List Card)}
    (horder : order.KeyDriven) (rc : Dictionary Id (List Card)) :
    order.arrange (ρ.recorded rc).entries
      = (order.arrange rc.entries).map (fun e => (e.1, ρ.cards e.2)) :=
  horder ρ.cards rc.entries

theorem lastCards_table (s : War Id) (entries : List (Id × List Card)) :
    lastCards (ρ.table s) (entries.map (fun e => (e.1, ρ.cards e.2)))
      = (lastCards s entries).map ρ.cards := by
  induction entries with
  | nil => rfl
  | cons e rest ih =>
      obtain ⟨id, l⟩ := e
      simp only [List.map_cons, lastCards]
      rw [tournamentPlayer?_table, getLast?_cards]
      cases s.tournamentPlayer? id with
      | none => exact ih
      | some p =>
          obtain ⟨⟨name, pid, hand, last⟩, out⟩ := p
          cases out with
          | true => exact ih
          | false =>
              cases l.getLast? with
              | none => rfl
              | some c =>
                  show (lastCards _ _ >>= _) = (lastCards s rest >>= _).map _
                  rw [ih]
                  exact Outcome.map_bind (fun _ _ => rfl)

theorem highestRankFrom_cards (l : List Card) :
    ∀ r : Rank, Deck.highestRankFrom r (ρ.cards l)
      = Deck.highestRankFrom r l := by
  induction l with
  | nil => intro r; rfl
  | cons c rest ih =>
      intro r
      simp only [cards_cons, Deck.highestRankFrom]
      rw [ρ.rank, ih]

theorem determineHighestRank_cards (l : List Card) :
    Deck.determineHighestRank (ρ.cards l) = Deck.determineHighestRank l := by
  simp only [Deck.determineHighestRank]
  rw [cards_isEmpty, highestRankFrom_cards]

theorem rankHolders_table (s : War Id) (r : Rank)
    (entries : List (Id × List Card)) :
    rankHolders (ρ.table s) r (entries.map (fun e => (e.1, ρ.cards e.2)))
      = rankHolders s r entries := by
  induction entries with
  | nil => rfl
  | cons e rest ih =>
      obtain ⟨id, l⟩ := e
      simp only [List.map_cons, rankHolders]
      rw [tournamentPlayer?_table, getLast?_cards, ih]
      cases s.tournamentPlayer? id with
      | none => rfl
      | some p =>
          obtain ⟨⟨name, pid, hand, last⟩, out⟩ := p
          cases out with
          | true => rfl
          | false =>
              cases l.getLast? with
              | none => rfl
              | some c =>
                  show (rankHolders s r rest >>= fun holders =>
                    .done (if (ρ.card c).rank = r then _ else _)) = _
                  rw [ρ.rank]
                  rfl

/-- The comparison of a round only reads ranks. -/
theorem determineHighCardHolders_table {order : Arrangement (Id × List Card)}
    (horder : order.KeyDriven) (s : War Id) (rc : Dictionary Id (List Card)) :
    determineHighCardHolders (ρ.table s) order (ρ.recorded rc) false
      = determineHighCardHolders s order rc false := by
  simp only [determineHighCardHolders]
  rw [ρ.arrange_recorded horder, lastCards_table]
  show (Outcome.map ρ.cards (lastCards s _) >>= _) = (lastCards s _ >>= _)
  cases lastCards s (order.arrange rc.entries) with
  | trap r => rfl
  | outOfFuel => rfl
  | done l =>
      show (Deck.determineHighestRank (ρ.cards l) >>= _) = _
      rw [determineHighestRank_cards]
      simp only [rankHolders_table]
      rfl

/-! ## War -/

theorem addPile_recorded (participants : Dictionary Id (List Card)) (id : Id)
    (l : List Card) :
    addPile (ρ.recorded participants) id (ρ.cards l)
      = ρ.cards (addPile participants id l) := by
  simp only [addPile, recorded]
  rw [Dictionary.get?_mapValues]
  cases participants.get? id with
  | none => rfl
  | some pile =>
      cases pile with
      | nil => rfl
      | cons c rest => exact (ρ.cards_append l (c :: rest)).symm

/-- A card drawn in a limited war is recorded. -/
def putCard (participants : Dictionary Id (List Card)) (id : Id) (c : Card) :
    Dictionary Id (List Card) :=
  match participants.get? id with
  | some pile => participants.set id (pile ++ [c])
  | none => participants.set id [c]

theorem putCard_recorded (participants : Dictionary Id (List Card)) (id : Id)
    (c : Card) :
    putCard (ρ.recorded participants) id (ρ.card c)
      = ρ.recorded (putCard participants id c) := by
  simp only [putCard, recorded]
  rw [Dictionary.get?_mapValues]
  cases participants.get? id with
  | none => exact (ρ.recorded_set participants id [c]).symm
  | some pile =>
      show (ρ.recorded participants).set id (ρ.cards pile ++ ρ.cards [c]) = _
      rw [← cards_append]
      exact (ρ.recorded_set participants id (pile ++ [c])).symm

theorem limitedWarLoop_table (ids : List Id) :
    ∀ (none : Bool) (l : List Card) (participants : Dictionary Id (List Card))
      (s : War Id),
      limitedWarLoop ids none (ρ.cards l) (ρ.recorded participants)
          (ρ.table s)
        = (limitedWarLoop ids none l participants s).map ρ.draws := by
  induction ids with
  | nil => intro none l participants s; rfl
  | cons id ids ih =>
      intro none l participants s
      simp only [limitedWarLoop]
      rw [tournamentPlayer?_table]
      cases s.tournamentPlayer? id with
      | none => exact ih none l participants s
      | some p =>
          obtain ⟨⟨name, pid, hand, last⟩, out⟩ := p
          cases out with
          | true => exact ih none l participants s
          | false =>
              cases hand with
              | nil =>
                  show limitedWarLoop ids _ _ _ _
                    = (limitedWarLoop ids _ _ _ _).map _
                  rw [← ih, addPile_recorded, table_setPlayer]
                  rfl
              | cons c rest =>
                  show limitedWarLoop ids false
                      (addPile (putCard (ρ.recorded participants) id
                        (ρ.card c)) id (ρ.cards l))
                      (putCard (ρ.recorded participants) id (ρ.card c)) _
                    = (limitedWarLoop ids false
                        (addPile (putCard participants id c) id l)
                        (putCard participants id c) _).map _
                  rw [← ih, putCard_recorded, addPile_recorded,
                    table_setPlayer]
                  rfl

/-- A draw of several cards, with the cards an error hands over. -/
def drawn (ρ : Relabelling) :
    Except DeckError (List Card) × List Card →
      Except DeckError (List Card) × List Card
  | (.ok l, rest) => (.ok (ρ.cards l), ρ.cards rest)
  | (.error (.insufficientCardsRemaining l message), rest) =>
      (.error (.insufficientCardsRemaining (ρ.cards l) message), ρ.cards rest)
  | (.error e, rest) => (.error e, ρ.cards rest)

theorem drawCardsLoop_cards (n : Nat) :
    ∀ (acc l : List Card), Deck.drawCardsLoop n (ρ.cards acc) (ρ.cards l)
      = ρ.drawn (Deck.drawCardsLoop n acc l) := by
  induction n with
  | zero => intro acc l; rfl
  | succ n ih =>
      intro acc l
      cases l with
      | nil => rfl
      | cons c rest =>
          show Deck.drawCardsLoop n (ρ.cards acc ++ ρ.cards [c]) _ = _
          rw [← cards_append]
          exact ih (acc ++ [c]) rest

theorem drawCardsFrom_cards (n : Int) (l : List Card) :
    Deck.drawCardsFrom n (ρ.cards l) = ρ.drawn (Deck.drawCardsFrom n l) := by
  simp only [Deck.drawCardsFrom, length_cards]
  by_cases hpos : 0 < n
  · rw [if_pos hpos, if_pos hpos]
    by_cases hle : n ≤ l.length
    · rw [if_pos hle, if_pos hle]
      exact ρ.drawCardsLoop_cards n.toNat [] l
    · rw [if_neg hle, if_neg hle]
      rfl
  · rw [if_neg hpos, if_neg hpos]
    rfl

omit [LinearOrder Id] in
theorem rememberLast_table (l : List Card) (p : TournamentPlayer Id) :
    rememberLast (ρ.cards l) (ρ.tournamentPlayer p)
      = ρ.tournamentPlayer (rememberLast l p) := by
  simp only [rememberLast]
  rw [getLast?_cards]
  cases l.getLast? <;> rfl

theorem gotoWarLoop_table (ids : List Id) :
    ∀ (none : Bool) (l : List Card) (participants : Dictionary Id (List Card))
      (s : War Id),
      gotoWarLoop ids none (ρ.cards l) (ρ.recorded participants) (ρ.table s)
        = (gotoWarLoop ids none l participants s).map ρ.draws := by
  induction ids with
  | nil => intro none l participants s; rfl
  | cons id ids ih =>
      intro none l participants s
      simp only [gotoWarLoop]
      rw [tournamentPlayer?_table]
      cases s.tournamentPlayer? id with
      | none => exact ih none l participants s
      | some p =>
          simp only [Option.map_some]
          rw [show (ρ.tournamentPlayer p).cards = ρ.cards p.cards from rfl,
            drawCardsFrom_cards]
          obtain ⟨res, hand⟩ := Deck.drawCardsFrom cardsNeededForWar p.cards
          cases res with
          | ok cards =>
              simp only [drawn]
              rw [getLast?_cards]
              cases cards.getLast? with
              | none => rfl
              | some last =>
                  show gotoWarLoop ids _ _ _ _ = (gotoWarLoop ids _ _ _ _).map _
                  rw [← ih, ← addPile_recorded, table_setPlayer, recorded_set]
                  rfl
          | error e =>
              cases e with
              | insufficientCardsRemaining cards message =>
                  show gotoWarLoop ids _ _ _ _ = (gotoWarLoop ids _ _ _ _).map _
                  rw [← ih, ← addPile_recorded, table_setPlayer, recorded_set,
                    ← rememberLast_table]
                  rfl
              | drawFromEmptyDeck => rfl
              | negativeDrawAttempt => rfl

theorem scanHolders_table (s : War Id) (ids : List Id) :
    scanHolders (ρ.table s) ids = scanHolders s ids := by
  induction ids with
  | nil => rfl
  | cons id ids ih =>
      simp only [scanHolders]
      rw [tournamentPlayer?_table, ih]
      cases s.tournamentPlayer? id with
      | none => rfl
      | some p =>
          simp only [Option.map_some]
          have hnum : (ρ.tournamentPlayer p).numCards = p.numCards :=
            ρ.length_cards p.cards
          rw [hnum]

theorem warDraws_table (ids : List Id) (l : List Card) (s : War Id) :
    warDraws ids (ρ.cards l) (ρ.table s)
      = (warDraws ids l s).map (fun r => (r.1, ρ.draws r.2)) := by
  simp only [warDraws]
  rw [scanHolders_table]
  cases scanHolders s ids with
  | trap r => rfl
  | outOfFuel => rfl
  | done enough =>
      cases enough with
      | true =>
          have hgoto : gotoWar ids (ρ.cards l) Dictionary.empty (ρ.table s)
              = (gotoWar ids l Dictionary.empty s).map ρ.draws :=
            ρ.gotoWarLoop_table ids true l Dictionary.empty s
          simp only [Outcome.done_bind, if_true]
          rw [hgoto]
          exact Outcome.map_bind (fun _ _ => rfl)
      | false =>
          have hlimited : limitedWar ids (ρ.cards l) Dictionary.empty
                (ρ.table s)
              = (limitedWar ids l Dictionary.empty s).map ρ.draws :=
            ρ.limitedWarLoop_table ids true l Dictionary.empty s
          simp only [Outcome.done_bind, Bool.false_eq_true, if_false]
          rw [hlimited]
          exact Outcome.map_bind (fun _ _ => rfl)

/-- The table after a war that `w` has won. -/
def wonTable (enoughCards : Bool) (s : War Id) (w : Id)
    (p : TournamentPlayer Id) (l : List Card) : War Id :=
  let player := p.addToCards l
  let s := { s.setPlayer w player with roundWinner := some player.id }
  if enoughCards then s else s.setPlayer w (player.setIsNotEliminated true)

theorem paid_table (s : War Id) (w : Id) (p : TournamentPlayer Id)
    (l : List Card) :
    ρ.table (s.setPlayer w (p.addToCards l))
      = (ρ.table s).setPlayer w
          ((ρ.tournamentPlayer p).addToCards (ρ.cards l)) := by
  rw [table_setPlayer]
  simp only [tournamentPlayer, TournamentPlayer.addToCards]
  rw [cards_append]

theorem wonTable_table (enoughCards : Bool) (s : War Id) (w : Id)
    (p : TournamentPlayer Id) (l : List Card) :
    ρ.table (wonTable enoughCards s w p l)
      = wonTable enoughCards (ρ.table s) w (ρ.tournamentPlayer p)
          (ρ.cards l) := by
  have hpaid := ρ.paid_table s w p l
  cases enoughCards with
  | true =>
      show { ρ.table (s.setPlayer w (p.addToCards l)) with
        roundWinner := some p.id } = _
      rw [hpaid]
      rfl
  | false =>
      show ρ.table (War.setPlayer _ w _) = _
      rw [table_setPlayer]
      show War.setPlayer { ρ.table (s.setPlayer w (p.addToCards l)) with
        roundWinner := some p.id } w _ = _
      rw [hpaid]
      simp only [tournamentPlayer, TournamentPlayer.addToCards,
        TournamentPlayer.setIsNotEliminated]
      rw [cards_append]
      rfl

theorem war_table {o : Schedule Id}
    (horder : ∀ n, (o.warParticipants n).KeyDriven) (fuel : Nat) :
    ∀ (depth : Nat) (ids : List Id) (l : List Card) (s : War Id),
      war fuel o depth ids (ρ.cards l) (ρ.table s)
        = (war fuel o depth ids l s).map ρ.exit := by
  induction fuel with
  | zero => intro depth ids l s; rfl
  | succ fuel ih =>
      intro depth ids l s
      simp only [war]
      rw [warDraws_table]
      refine Outcome.map_bind ?_
      rintro ⟨enough, none, l, participants, t⟩ -
      cases none with
      | true => rfl
      | false =>
          show (determineHighCardHolders (ρ.table t) _ (ρ.recorded participants)
            false >>= _) = _
          rw [ρ.determineHighCardHolders_table (horder depth)]
          cases hholders : determineHighCardHolders t (o.warParticipants depth)
            participants false with
          | trap r => rfl
          | outOfFuel => rfl
          | done holders =>
              cases holders with
              | nil => exact ih (depth + 1) [] l t
              | cons w rest =>
                  cases rest with
                  | cons v rest => exact ih (depth + 1) (w :: v :: rest) l t
                  | nil =>
                      simp only [Outcome.done_bind]
                      have hleft :
                          (ρ.draws (false, l, participants, t)).2.2.2
                            = ρ.table t := rfl
                      rw [hleft, tournamentPlayer?_table]
                      cases t.tournamentPlayer? w with
                      | none => rfl
                      | some p =>
                          have hwon := ρ.wonTable_table enough t w p l
                          exact congrArg (fun u =>
                            Outcome.done (WarExit.mk none (ρ.cards l) u))
                            hwon.symm

end Tables

end Relabelling

end Suits
