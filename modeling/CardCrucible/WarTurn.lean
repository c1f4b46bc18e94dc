import CardCrucible.WarState

/-! # Closed forms — what the loops of a round do

    `placeCards`, `gotoWar` and `limitedWar` remove cards by three different
    loops.  Over distinct ids each of them is the same thing, a `turn` of one
    or two cards: the piles go to the prize cards in the order of the ids, the
    players who came up short drop out, and the entries recorded for the
    comparison are the piles.

    The comparison itself is the arg-max its name promises, for every
    iteration order. -/

namespace WarTurn

open Outcomes Arrangements Dictionaries CardModel DeckModel PlayerModel
open WarModel WarModel.War WarState

variable {Id : Type} [LinearOrder Id]

/-- The entries recorded for a list of ids. -/
def piles (s : War Id) (need : Nat) (ids : List Id) : List (Id × List Card) :=
  ids.map (fun id => (id, pile s need id))

theorem piles_congr {s s' : War Id} {need : Nat} {ids : List Id}
    (h : ∀ id ∈ ids, pile s' need id = pile s need id) :
    piles s' need ids = piles s need ids :=
  List.map_congr_left (fun id hid => by rw [h id hid])

theorem flatMap_pile_congr {s s' : War Id} {need : Nat} {ids : List Id}
    (h : ∀ id ∈ ids, pile s' need id = pile s need id) :
    ids.flatMap (pile s' need) = ids.flatMap (pile s need) := by
  simp only [List.flatMap]
  rw [List.map_congr_left h]

/-- The pile just recorded is added to the prize cards. -/
theorem addPile_set (participants : Dictionary Id (List Card)) (id : Id)
    (cards prizeCards : List Card) :
    addPile (participants.set id cards) id prizeCards
      = prizeCards ++ cards := by
  simp only [addPile]
  rw [Dictionary.get?_set_self]
  cases cards with
  | nil => exact (List.append_nil _).symm
  | cons c cs => rfl

/-- Nothing recorded, nothing added. -/
theorem addPile_of_notMem {participants : Dictionary Id (List Card)} {id : Id}
    (h : id ∉ participants.keys) (prizeCards : List Card) :
    addPile participants id prizeCards = prizeCards := by
  simp only [addPile]
  rw [Dictionary.get?_eq_none.mpr h]

omit [LinearOrder Id] in
/-- Later ids of a list without duplicates are not the first. -/
theorem notMem_singleton {id k : Id} {ids : List Id} (h : id ∉ ids)
    (hk : k ∈ ids) : k ∉ [id] := by
  rw [List.mem_singleton]
  exact fun heq => h (heq ▸ hk)

theorem keys_set_of_notMem {participants : Dictionary Id (List Card)} {id : Id}
    (cards : List Card) (h : id ∉ participants.keys) :
    (participants.set id cards).keys = participants.keys ++ [id] := by
  show ((participants.set id cards).entries).map Prod.fst = _
  rw [Dictionary.entries_set_of_notMem cards h, List.map_append]
  rfl

/-- Ids that are still to come stay unrecorded. -/
theorem notMem_keys_set {participants : Dictionary Id (List Card)} {id : Id}
    {ids : List Id} (cards : List Card) (hid : id ∉ participants.keys)
    (hnd : id ∉ ids) (h : ∀ k ∈ ids, k ∉ participants.keys) :
    ∀ k ∈ ids, k ∉ (participants.set id cards).keys := by
  intro k hk hmem
  rw [keys_set_of_notMem cards hid, List.mem_append] at hmem
  rcases hmem with hmem | hmem
  · exact h k hk hmem
  · rw [List.mem_singleton] at hmem
    exact hnd (hmem ▸ hk)

/-! ## Turns in a row -/

omit [LinearOrder Id] in
/-- A player with enough cards keeps its flag and plays the last card drawn. -/
theorem playTurn_of_le {need : Nat} {p : TournamentPlayer Id}
    (hneed : 0 < need) (h : need ≤ p.cards.length) :
    ∃ last, (p.cards.take need).getLast? = some last ∧
      playTurn need p = { p with
        cards := p.cards.drop need
        lastPlayedCard := some last } := by
  cases hlast : (p.cards.take need).getLast? with
  | none =>
      rw [List.getLast?_eq_none_iff, List.take_eq_nil_iff] at hlast
      rcases hlast with hz | hz
      · exact absurd hz (by omega)
      · rw [hz, List.length_nil] at h
        exact absurd h (by omega)
  | some last =>
      refine ⟨last, rfl, ?_⟩
      simp only [playTurn]
      rw [hlast, decide_eq_false (by omega), Bool.or_false]
      rfl

omit [LinearOrder Id] in
/-- The turn of a player with a card. -/
theorem playTurn_cons {p : TournamentPlayer Id} {card : Card}
    {rest : List Card} (h : p.cards = card :: rest) :
    playTurn 1 p = { p with cards := rest, lastPlayedCard := some card } := by
  have hle : 1 ≤ p.cards.length := by
    rw [h, List.length_cons]
    omega
  obtain ⟨last, hlast, hturn⟩ := playTurn_of_le Nat.zero_lt_one hle
  rw [h] at hlast
  rw [hturn, h, ← Option.some.inj hlast]
  rfl

omit [LinearOrder Id] in
/-- A player who comes up short puts everything down and drops out. -/
theorem playTurn_of_lt {need : Nat} {p : TournamentPlayer Id}
    (h : p.cards.length < need) :
    playTurn need p
      = rememberLast p.cards
          (({ p with cards := [] } : TournamentPlayer Id).setIsEliminated
            true) := by
  simp only [playTurn, rememberLast, TournamentPlayer.setIsEliminated]
  rw [decide_eq_true h, Bool.or_true, List.drop_eq_nil_of_le (by omega),
    List.take_of_length_le (by omega)]
  cases p.cards.getLast? <;> rfl

omit [LinearOrder Id] in
/-- The turn of a player without a card. -/
theorem playTurn_nil {p : TournamentPlayer Id} (h : p.cards = []) :
    playTurn 1 p
      = ({ p with cards := [] } : TournamentPlayer Id).setIsEliminated
          true := by
  have hlt : p.cards.length < 1 := by
    rw [h]
    exact Nat.zero_lt_one
  rw [playTurn_of_lt hlt, h]
  rfl

/-- Players take their turns one after the other.  `empties` says whether an
    empty pile is recorded as well; the flag tells that nobody had enough. -/
def turnLoop (need : Nat) (empties : Bool) :
    List Id → Bool → List Card → Dictionary Id (List Card) → War Id →
    Bool × List Card × Dictionary Id (List Card) × War Id
  | [], b, cards, recorded, s => (b, cards, recorded, s)
  | id :: ids, b, cards, recorded, s =>
      turnLoop need empties ids (b && decide ((hand s id).length < need))
        (cards ++ pile s need id)
        (if empties || !(pile s need id).isEmpty
         then recorded.set id (pile s need id) else recorded)
        (turn need [id] s)

/-- The ids whose piles are recorded. -/
def recordedIds (s : War Id) (need : Nat) (empties : Bool) (ids : List Id) :
    List Id :=
  ids.filter (fun id => empties || !(pile s need id).isEmpty)

/-- The turn of a player leaves the others as short of cards as they were. -/
theorem all_short_turn {id : Id} {ids : List Id} (s : War Id) (need : Nat)
    (hid : id ∉ ids) :
    ids.all (fun k => decide ((hand (turn need [id] s) k).length < need))
      = ids.all (fun k => decide ((hand s k).length < need)) := by
  rw [Bool.eq_iff_iff, List.all_eq_true, List.all_eq_true]
  constructor
  · intro h k hk
    have := h k hk
    rw [hand_turn, if_neg (notMem_singleton hid hk)] at this
    exact this
  · intro h k hk
    rw [hand_turn, if_neg (notMem_singleton hid hk)]
    exact h k hk

/-- The turn of a player leaves the piles of the others to be recorded. -/
theorem piles_turn {id : Id} {ids : List Id} (s : War Id) (need : Nat)
    (empties : Bool) (hid : id ∉ ids) :
    piles (turn need [id] s) need
        (recordedIds (turn need [id] s) need empties ids)
      = piles s need (recordedIds s need empties ids) := by
  have hkeep : ∀ k ∈ ids, pile (turn need [id] s) need k = pile s need k :=
    fun _ hk => pile_turn_of_notMem (notMem_singleton hid hk)
  have hrec : recordedIds (turn need [id] s) need empties ids
      = recordedIds s need empties ids :=
    List.filter_congr (fun k hk => by rw [hkeep k hk])
  rw [hrec]
  exact piles_congr (fun k hk => hkeep k (List.mem_filter.mp hk).1)

/-- Over distinct ids, turns in a row are one turn of them all. -/
theorem turnLoop_eq (need : Nat) (empties : Bool) :
    ∀ (ids : List Id) (b : Bool) (cards : List Card)
      (recorded : Dictionary Id (List Card)) (s : War Id),
      ids.Nodup → (∀ id ∈ ids, id ∉ recorded.keys) →
      ∃ out : Dictionary Id (List Card),
        out.entries = recorded.entries
          ++ piles s need (recordedIds s need empties ids) ∧
        turnLoop need empties ids b cards recorded s
          = (b && ids.all (fun id => decide ((hand s id).length < need)),
              cards ++ ids.flatMap (pile s need), out, turn need ids s) := by
  intro ids
  induction ids with
  | nil =>
      intro b cards recorded s _ _
      refine ⟨recorded, (List.append_nil _).symm, ?_⟩
      rw [turn_nil, List.all_nil, Bool.and_true, List.flatMap_nil,
        List.append_nil]
      rfl
  | cons id ids ih =>
      intro b cards recorded s hnd hnew
      rw [List.nodup_cons] at hnd
      have hid : id ∉ recorded.keys := hnew id List.mem_cons_self
      have hnew' : ∀ k ∈ ids, k ∉ recorded.keys :=
        fun k hk => hnew k (List.mem_cons_of_mem _ hk)
      -- the turn of the head leaves the piles of the others alone
      have hkeep : ∀ k ∈ ids, pile (turn need [id] s) need k = pile s need k :=
        fun _ hk => pile_turn_of_notMem (notMem_singleton hnd.1 hk)
      have hall := all_short_turn s need hnd.1
      have hpiles := piles_turn s need empties hnd.1
      by_cases hput : (empties || !(pile s need id).isEmpty) = true
      · obtain ⟨out, hout, hloop⟩ := ih
          (b && decide ((hand s id).length < need)) (cards ++ pile s need id)
          (recorded.set id (pile s need id)) (turn need [id] s) hnd.2
          (notMem_keys_set _ hid hnd.1 hnew')
        refine ⟨out, ?_, ?_⟩
        · have hcons : recordedIds s need empties (id :: ids)
              = id :: recordedIds s need empties ids :=
            List.filter_cons_of_pos hput
          rw [hout, Dictionary.entries_set_of_notMem _ hid, hpiles, hcons,
            List.append_assoc]
          rfl
        · simp only [turnLoop]
          rw [if_pos hput, hloop, hall, flatMap_pile_congr hkeep,
            turn_cons s hnd.1, List.flatMap_cons, List.append_assoc,
            List.all_cons, Bool.and_assoc]
      · obtain ⟨out, hout, hloop⟩ := ih
          (b && decide ((hand s id).length < need)) (cards ++ pile s need id)
          recorded (turn need [id] s) hnd.2 hnew'
        refine ⟨out, ?_, ?_⟩
        · have hcons : recordedIds s need empties (id :: ids)
              = recordedIds s need empties ids :=
            List.filter_cons_of_neg hput
          rw [hout, hpiles, hcons]
        · simp only [turnLoop]
          rw [if_neg hput, hloop, hall, flatMap_pile_congr hkeep,
            turn_cons s hnd.1, List.flatMap_cons, List.append_assoc,
            List.all_cons, Bool.and_assoc]

/-! ## The three loops are turns -/

/-- `gotoWar` takes turns of two cards and records every pile. -/
theorem gotoWarLoop_eq_turnLoop :
    ∀ (ids : List Id) (b : Bool) (prizeCards : List Card)
      (participants : Dictionary Id (List Card)) (s : War Id),
      ids.Nodup → (∀ id ∈ ids, ∃ p, s.tournamentPlayer? id = some p) →
      gotoWarLoop ids b prizeCards participants s
        = .done (turnLoop 2 true ids b prizeCards participants s) := by
  intro ids
  induction ids with
  | nil => intro b prizeCards participants s _ _; rfl
  | cons id ids ih =>
      intro b prizeCards participants s hnd hreg
      rw [List.nodup_cons] at hnd
      obtain ⟨p, hp⟩ := hreg id List.mem_cons_self
      have hhand : hand s id = p.cards := hand_of_some hp
      have hreg' : ∀ k ∈ ids,
          ∃ q, (turn 2 [id] s).tournamentPlayer? k = some q := by
        intro k hk
        rw [tournamentPlayer?_turn_of_notMem (notMem_singleton hnd.1 hk)]
        exact hreg k (List.mem_cons_of_mem _ hk)
      simp only [gotoWarLoop, turnLoop]
      rw [← ih _ _ _ _ hnd.2 hreg', Bool.true_or, if_pos rfl]
      by_cases hlen : 2 ≤ p.cards.length
      · obtain ⟨last, hlast, hturn⟩ := playTurn_of_le (by omega) hlen
        have hdraw : Deck.drawCardsFrom cardsNeededForWar p.cards
            = (.ok (p.cards.take 2), p.cards.drop 2) :=
          drawCardsFrom_of_le (n := 2) (by omega) hlen
        have hpile : pile s 2 id = p.cards.take 2 := pile_of_some hp 2
        simp only [hp, hdraw, hlast]
        rw [← hturn, setPlayer_playTurn 2 hp, addPile_set, hpile, hhand,
          decide_eq_false (not_lt.mpr hlen), Bool.and_false]
      · -- the player comes up short: its cards travel in the error
        have hlt : p.cards.length < 2 := not_le.mp hlen
        obtain ⟨msg, hdraw⟩ := drawCardsFrom_of_lt (n := 2) hlt
        have hdraw' : Deck.drawCardsFrom cardsNeededForWar p.cards
            = (.error (.insufficientCardsRemaining p.cards msg), []) := hdraw
        have hpile : pile s 2 id = p.cards := by
          rw [pile_of_some hp, List.take_of_length_le (by omega)]
        simp only [hp, hdraw']
        rw [← playTurn_of_lt hlt, setPlayer_playTurn 2 hp, addPile_set, hpile,
          hhand, decide_eq_true hlt, Bool.and_true]

/-- `limitedWar` takes turns of one card and records the piles that are not
    empty. -/
theorem limitedWarLoop_eq_turnLoop :
    ∀ (ids : List Id) (b : Bool) (prizeCards : List Card)
      (participants : Dictionary Id (List Card)) (s : War Id),
      ids.Nodup → (∀ id ∈ ids, inGame s id = true) →
      (∀ id ∈ ids, id ∉ participants.keys) →
      limitedWarLoop ids b prizeCards participants s
        = .done (turnLoop 1 false ids b prizeCards participants s) := by
  intro ids
  induction ids with
  | nil => intro b prizeCards participants s _ _ _; rfl
  | cons id ids ih =>
      intro b prizeCards participants s hnd hin hnew
      rw [List.nodup_cons] at hnd
      obtain ⟨p, hp, hnot⟩ := exists_player (hin id List.mem_cons_self)
      have hhand : hand s id = p.cards := hand_of_some hp
      have hid : id ∉ participants.keys := hnew id List.mem_cons_self
      have hnew' : ∀ k ∈ ids, k ∉ participants.keys :=
        fun k hk => hnew k (List.mem_cons_of_mem _ hk)
      have hin' : ∀ k ∈ ids, inGame (turn 1 [id] s) k = true := by
        intro k hk
        have hne := notMem_singleton hnd.1 hk
        exact (inGame_turn 1 [id] s k).mpr
          ⟨hin k (List.mem_cons_of_mem _ hk), fun h => absurd h hne⟩
      simp only [limitedWarLoop, turnLoop]
      cases hcards : p.cards with
      | nil =>
          have hlt : p.cards.length < 1 := by
            rw [hcards]
            exact Nat.zero_lt_one
          have hpile : pile s 1 id = [] := by
            rw [pile_of_some hp, hcards]
            rfl
          simp only [hp, hnot, if_true, hcards, Deck.drawCardFrom]
          rw [← playTurn_nil hcards, setPlayer_playTurn 1 hp,
            addPile_of_notMem hid,
            ih _ _ _ _ hnd.2 hin' hnew', hpile, List.append_nil, hhand,
            decide_eq_true hlt, Bool.and_true]
          rfl
      | cons card rest =>
          have hle : 1 ≤ p.cards.length := by
            rw [hcards, List.length_cons]
            omega
          have hpile : pile s 1 id = [card] := by
            rw [pile_of_some hp, hcards]
            rfl
          simp only [hp, hnot, if_true, hcards, Deck.drawCardFrom,
            Dictionary.get?_eq_none.mpr hid]
          rw [← playTurn_cons hcards, setPlayer_playTurn 1 hp, addPile_set, ih _ _ _ _ hnd.2 hin'
              (notMem_keys_set _ hid hnd.1 hnew'), hpile, hhand,
            decide_eq_false (not_lt.mpr hle), Bool.and_false]
          rfl

/-- `placeCards` takes turns of one card among the players in the game. -/
theorem placeLoop_eq_turnLoop :
    ∀ (ids : List Id) (b : Bool) (roundCards : Dictionary Id (List Card))
      (cards : List Card) (s : War Id),
      WellFormed s → ids.Nodup → (∀ id ∈ ids, id ∈ s.players.keys) →
      ∃ b' cards' roundCards' s',
        turnLoop 1 false (ids.filter (inGame s)) b cards roundCards s
          = (b', cards', roundCards', s') ∧
        placeLoop ids roundCards cards s
          = .done (roundCards', cards', s') := by
  intro ids
  induction ids with
  | nil => intro b roundCards cards s _ _ _; exact ⟨_, _, _, _, rfl, rfl⟩
  | cons id ids ih =>
      intro b roundCards cards s hwf hnd hreg
      rw [List.nodup_cons] at hnd
      obtain ⟨p, hp, hpid⟩ := hwf.tournamentPlayer (hreg id List.mem_cons_self)
      have hhand : hand s id = p.cards := hand_of_some hp
      have hreg' : ∀ k ∈ ids, k ∈ s.players.keys :=
        fun k hk => hreg k (List.mem_cons_of_mem _ hk)
      simp only [placeLoop]
      cases he : p.eliminated with
      | true =>
          -- an eliminated player is passed over
          have hnot : p.isNotEliminated = false := by
            rw [TournamentPlayer.isNotEliminated_eq, he]
            rfl
          have hin : ¬ inGame s id = true := by
            rw [inGame_of_some hp, hnot]
            exact Bool.false_ne_true
          rw [List.filter_cons_of_neg hin]
          simp only [hp, hnot, Bool.false_eq_true, if_false]
          exact ih b roundCards cards s hwf hnd.2 hreg'
      | false =>
          have hnot : p.isNotEliminated = true := by
            rw [TournamentPlayer.isNotEliminated_eq, he]
            rfl
          have hin : inGame s id = true := by
            rw [inGame_of_some hp, hnot]
          have hfilter : ids.filter (inGame (turn 1 [id] s))
              = ids.filter (inGame s) := by
            refine List.filter_congr ?_
            intro k hk
            exact inGame_congr
              (tournamentPlayer?_turn_of_notMem (notMem_singleton hnd.1 hk))
          have hreg'' : ∀ k ∈ ids, k ∈ (turn 1 [id] s).players.keys := by
            intro k hk
            rw [keys_turn]
            exact hreg' k hk
          have next := fun b' cards' roundCards' =>
            ih b' roundCards' cards' (turn 1 [id] s) (hwf.turn 1 [id]) hnd.2
              hreg''
          rw [List.filter_cons_of_pos hin, ← hfilter]
          simp only [turnLoop]
          cases hcards : p.cards with
          | nil =>
              have hpile : pile s 1 id = [] := by
                rw [pile_of_some hp, hcards]
                rfl
              simp only [hp, hnot, if_true, hcards, Deck.drawCardFrom]
              rw [← playTurn_nil hcards, setPlayer_playTurn 1 hp, hpile,
                List.append_nil]
              exact next _ cards roundCards
          | cons card rest =>
              have hpile : pile s 1 id = [card] := by
                rw [pile_of_some hp, hcards]
                rfl
              simp only [hp, hnot, if_true, hcards, Deck.drawCardFrom]
              rw [← playTurn_cons hcards, setPlayer_playTurn 1 hp, hpile]
              rw [show p.id = id from hpid]
              exact next _ (cards ++ [card]) (roundCards.set id [card])

/-! ## The draws of a round and of a war -/

/-- The players in the game, in the order in which they place their cards. -/
def active (s : War Id) : List Id := s.sortedPlayers.filter (inGame s)

theorem sortedPlayers_perm (s : War Id) :
    s.sortedPlayers.Perm s.players.keys :=
  (List.perm_insertionSort _ _).map _

theorem nodup_sortedPlayers (s : War Id) : s.sortedPlayers.Nodup :=
  (sortedPlayers_perm s).nodup_iff.mpr s.players.nodup_keys

theorem nodup_active (s : War Id) : (active s).Nodup :=
  (nodup_sortedPlayers s).filter _

theorem mem_active {s : War Id} {id : Id} :
    id ∈ active s ↔ inGame s id = true :=
  mem_filter_inGame (fun _ h => (sortedPlayers_perm s).mem_iff.mpr h)

/-- Everybody in the game puts down one card; the entries are the piles of
    those who had one. -/
theorem placeCards_eq {s : War Id} (hwf : WellFormed s) :
    ∃ roundCards : Dictionary Id (List Card),
      roundCards.entries
        = piles s 1 (recordedIds s 1 false (active s)) ∧
      placeCards s = .done (roundCards, (active s).flatMap (pile s 1),
        turn 1 (active s) s) := by
  obtain ⟨b', cards', roundCards', s', hturns, hplace⟩ :=
    placeLoop_eq_turnLoop s.sortedPlayers true Dictionary.empty [] s hwf
      (nodup_sortedPlayers s)
      (fun id hid => (sortedPlayers_perm s).mem_iff.mp hid)
  obtain ⟨out, hout, hloop⟩ := turnLoop_eq 1 false (active s) true []
    Dictionary.empty s (nodup_active s) (fun _ _ => List.not_mem_nil)
  have heq := hloop.symm.trans hturns
  simp only [Prod.mk.injEq] at heq
  obtain ⟨-, hcards, hrec, hs⟩ := heq
  refine ⟨out, hout, ?_⟩
  simp only [placeCards]
  rw [hplace, ← hcards, ← hrec, ← hs, List.nil_append]

/-- The number of cards a war takes: two if a holder has that many. -/
def warSize (s : War Id) (holders : List Id) : Nat :=
  if ∃ id ∈ holders, cardsNeededForWar ≤ (hand s id).length then 2 else 1

/-- Whether some holder has enough cards for a complete war. -/
def enoughCards (s : War Id) (holders : List Id) : Bool :=
  decide (∃ id ∈ holders, cardsNeededForWar ≤ (hand s id).length)

theorem scanHolders_eq {s : War Id} :
    ∀ {holders : List Id},
      (∀ id ∈ holders, ∃ p, s.tournamentPlayer? id = some p) →
      scanHolders s holders = .done (enoughCards s holders) := by
  intro holders
  simp only [enoughCards]
  induction holders with
  | nil => intro _; simp [scanHolders]
  | cons id ids ih =>
      intro hreg
      obtain ⟨p, hp⟩ := hreg id List.mem_cons_self
      have hhand : hand s id = p.cards := hand_of_some hp
      simp only [scanHolders]
      rw [hp]
      show (if cardsNeededForWar ≤ p.cards.length then _ else _) = _
      by_cases hlen : cardsNeededForWar ≤ p.cards.length
      · have hex : ∃ k ∈ id :: ids,
            cardsNeededForWar ≤ (hand s k).length :=
          ⟨id, List.mem_cons_self, by rw [hhand]; exact hlen⟩
        rw [if_pos hlen, decide_eq_true hex]
      · rw [if_neg hlen,
          ih (fun k hk => hreg k (List.mem_cons_of_mem _ hk))]
        have hiff : (∃ k ∈ id :: ids, cardsNeededForWar ≤ (hand s k).length)
            ↔ ∃ k ∈ ids, cardsNeededForWar ≤ (hand s k).length := by
          constructor
          · rintro ⟨k, hk, hle⟩
            rcases List.mem_cons.mp hk with heq | hmem
            · rw [heq, hhand] at hle
              exact absurd hle hlen
            · exact ⟨k, hmem, hle⟩
          · rintro ⟨k, hk, hle⟩
            exact ⟨k, List.mem_cons_of_mem _ hk, hle⟩
        rw [decide_eq_decide.mpr hiff]

/-- Distinct players who are in the game. -/
structure Holders (s : War Id) (holders : List Id) : Prop where
  nodup : holders.Nodup
  inGame : ∀ id ∈ holders, inGame s id = true

theorem Holders.registered {s : War Id} {holders : List Id}
    (h : Holders s holders) :
    ∀ id ∈ holders, ∃ p, s.tournamentPlayer? id = some p := by
  intro id hid
  obtain ⟨p, hp, -⟩ := inGame_iff.mp (h.inGame id hid)
  exact ⟨p, hp⟩

/-- The draws of a war are one turn of all holders, complete or limited. -/
theorem warDraws_eq {s : War Id} {holders : List Id} (h : Holders s holders)
    (prizeCards : List Card) :
    ∃ participants : Dictionary Id (List Card),
      participants.entries
        = piles s (warSize s holders) (recordedIds s (warSize s holders)
            (enoughCards s holders) holders) ∧
      warDraws holders prizeCards s
        = .done (enoughCards s holders,
            holders.all
              (fun id => decide ((hand s id).length < warSize s holders)),
            prizeCards ++ holders.flatMap (pile s (warSize s holders)),
            participants, turn (warSize s holders) holders s) := by
  simp only [warDraws]
  rw [scanHolders_eq h.registered]
  by_cases hex : ∃ id ∈ holders, cardsNeededForWar ≤ (hand s id).length
  · have hsize : warSize s holders = 2 := if_pos hex
    have henough : enoughCards s holders = true := decide_eq_true hex
    obtain ⟨out, hout, hloop⟩ := turnLoop_eq 2 true holders true prizeCards
      Dictionary.empty s h.nodup (fun _ _ => List.not_mem_nil)
    refine ⟨out, ?_, ?_⟩
    · rw [hsize, henough]
      exact hout
    · rw [henough, hsize]
      show (gotoWarLoop holders true prizeCards Dictionary.empty s >>= _) = _
      rw [gotoWarLoop_eq_turnLoop _ _ _ _ _ h.nodup h.registered, hloop]
      rfl
  · have hsize : warSize s holders = 1 := if_neg hex
    have henough : enoughCards s holders = false := decide_eq_false hex
    obtain ⟨out, hout, hloop⟩ := turnLoop_eq 1 false holders true prizeCards
      Dictionary.empty s h.nodup (fun _ _ => List.not_mem_nil)
    refine ⟨out, ?_, ?_⟩
    · rw [hsize, henough]
      exact hout
    · rw [henough, hsize]
      show (limitedWarLoop holders true prizeCards Dictionary.empty s >>= _)
        = _
      rw [limitedWarLoop_eq_turnLoop _ _ _ _ _ h.nodup h.inGame
        (fun _ _ => List.not_mem_nil), hloop]
      rfl

end WarTurn
