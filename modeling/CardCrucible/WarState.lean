import CardCrucible.WarModel

/-! # Table views — hands, elimination and in-place updates of the players

    What the loops of a round read and write is the player behind a key.  This
    file gives the reads names (`hand`, `inGame`, `lastPlayed`) and states every
    write as an `updatePlayers`, which rewrites the tournament players in
    place, so that a loop over distinct ids has a closed form.

    The one write all loops share is `playTurn`: put down a number of cards
    from the front of the hand, remember the last of them, and drop out of the
    game when the hand was too short. -/

namespace WarState

open Outcomes Arrangements Dictionaries CardModel DeckModel PlayerModel
open WarModel WarModel.War

variable {Id : Type} [LinearOrder Id]

/-- Every player is a tournament player stored under its own id. -/
def WellFormed (s : War Id) : Prop :=
  ∀ e ∈ s.players.entries,
    ∃ p : TournamentPlayer Id, e.2 = .tournament p ∧ p.playerID = e.1

instance (e : Id × GamePlayer Id) : Decidable
    (∃ p : TournamentPlayer Id, e.2 = .tournament p ∧ p.playerID = e.1) :=
  match e with
  | (_, .player _) => isFalse (fun ⟨_, hp, _⟩ => nomatch hp)
  | (id, .tournament p) => decidable_of_iff (p.playerID = id)
      ⟨fun h => ⟨p, rfl, h⟩,
        fun ⟨_, hq, h⟩ => GamePlayer.tournament.inj hq ▸ h⟩

instance (s : War Id) : Decidable (WellFormed s) :=
  inferInstanceAs (Decidable (∀ e ∈ s.players.entries,
    ∃ p : TournamentPlayer Id, e.2 = .tournament p ∧ p.playerID = e.1))

/-- The hand of a player. -/
def hand (s : War Id) (id : Id) : List Card :=
  match s.tournamentPlayer? id with
  | some p => p.cards
  | none => []

/-- The last card a player put down. -/
def lastPlayed (s : War Id) (id : Id) : Option Card :=
  (s.tournamentPlayer? id).bind (fun p => p.lastPlayedCard)

/-- A registered tournament player who is not eliminated. -/
def inGame (s : War Id) (id : Id) : Bool :=
  match s.tournamentPlayer? id with
  | some p => p.isNotEliminated
  | none => false

/-- A registered tournament player who is eliminated. -/
def isOut (s : War Id) (id : Id) : Bool :=
  match s.tournamentPlayer? id with
  | some p => p.isEliminated
  | none => false

/-- The name of a registered tournament player. -/
def nameOf (s : War Id) (id : Id) : Option String :=
  (s.tournamentPlayer? id).map (fun p => p.name)

theorem hand_of_some {s : War Id} {id : Id} {p : TournamentPlayer Id}
    (h : s.tournamentPlayer? id = some p) : hand s id = p.cards := by
  simp only [hand]
  rw [h]

theorem hand_of_none {s : War Id} {id : Id}
    (h : s.tournamentPlayer? id = none) : hand s id = [] := by
  simp only [hand]
  rw [h]

theorem hand_congr {s t : War Id} {id : Id}
    (h : t.tournamentPlayer? id = s.tournamentPlayer? id) :
    hand t id = hand s id := by
  simp only [hand]
  rw [h]

theorem lastPlayed_of_some {s : War Id} {id : Id} {p : TournamentPlayer Id}
    (h : s.tournamentPlayer? id = some p) :
    lastPlayed s id = p.lastPlayedCard := by
  simp only [lastPlayed]
  rw [h]
  rfl

theorem inGame_of_some {s : War Id} {id : Id} {p : TournamentPlayer Id}
    (h : s.tournamentPlayer? id = some p) :
    inGame s id = p.isNotEliminated := by
  simp only [inGame]
  rw [h]

theorem inGame_of_none {s : War Id} {id : Id}
    (h : s.tournamentPlayer? id = none) : inGame s id = false := by
  simp only [inGame]
  rw [h]

theorem inGame_congr {s t : War Id} {id : Id}
    (h : t.tournamentPlayer? id = s.tournamentPlayer? id) :
    inGame t id = inGame s id := by
  simp only [inGame]
  rw [h]

theorem isOut_of_some {s : War Id} {id : Id} {p : TournamentPlayer Id}
    (h : s.tournamentPlayer? id = some p) : isOut s id = p.isEliminated := by
  simp only [isOut]
  rw [h]

theorem isOut_congr {s t : War Id} {id : Id}
    (h : t.tournamentPlayer? id = s.tournamentPlayer? id) :
    isOut t id = isOut s id := by
  simp only [isOut]
  rw [h]

/-- Being in the game names a player. -/
theorem inGame_iff {s : War Id} {id : Id} :
    inGame s id = true ↔
      ∃ p, s.tournamentPlayer? id = some p ∧ p.eliminated = false := by
  constructor
  · intro hin
    cases h : s.tournamentPlayer? id with
    | none =>
        rw [inGame_of_none h] at hin
        simp at hin
    | some p =>
        rw [inGame_of_some h, TournamentPlayer.isNotEliminated_eq] at hin
        exact ⟨p, rfl, by simpa using hin⟩
  · rintro ⟨p, hp, he⟩
    rw [inGame_of_some hp, TournamentPlayer.isNotEliminated_eq, he]
    rfl

/-- The player behind an id that is in the game. -/
theorem exists_player {s : War Id} {id : Id} (h : inGame s id = true) :
    ∃ p, s.tournamentPlayer? id = some p ∧ p.isNotEliminated = true := by
  obtain ⟨p, hp, -⟩ := inGame_iff.mp h
  exact ⟨p, hp, (inGame_of_some hp).symm.trans h⟩

theorem isOut_iff {s : War Id} {id : Id} :
    isOut s id = true ↔
      ∃ p, s.tournamentPlayer? id = some p ∧ p.eliminated = true := by
  simp only [isOut]
  cases h : s.tournamentPlayer? id with
  | none =>
      constructor
      · intro hf
        simp at hf
      · rintro ⟨p, hp, -⟩
        simp at hp
  | some p =>
      constructor
      · intro hf
        exact ⟨p, rfl, hf⟩
      · rintro ⟨q, hq, he⟩
        have hpq : p = q := Option.some.inj hq
        show p.eliminated = true
        rw [hpq, he]

theorem not_isOut_of_inGame {s : War Id} {id : Id} (h : inGame s id = true) :
    isOut s id = false := by
  obtain ⟨p, hp, he⟩ := inGame_iff.mp h
  rw [isOut_of_some hp]
  exact he

/-- In a well-formed game every key has its tournament player. -/
theorem WellFormed.tournamentPlayer {s : War Id} (h : WellFormed s) {id : Id}
    (hid : id ∈ s.players.keys) :
    ∃ p, s.tournamentPlayer? id = some p ∧ p.playerID = id := by
  obtain ⟨v, hv⟩ := Dictionary.mem_keys.mp hid
  obtain ⟨p, hp, hpid⟩ := h (id, v) (Dictionary.get?_eq_some.mp hv)
  refine ⟨p, ?_, hpid⟩
  have hp' : v = .tournament p := hp
  simp only [tournamentPlayer?]
  rw [hv, hp']
  rfl

theorem mem_keys_of_some {s : War Id} {id : Id} {p : TournamentPlayer Id}
    (h : s.tournamentPlayer? id = some p) : id ∈ s.players.keys := by
  simp only [tournamentPlayer?] at h
  cases hv : s.players.get? id with
  | none => rw [hv] at h; simp at h
  | some v => exact Dictionary.mem_keys.mpr ⟨v, hv⟩

/-- Whoever is in the game is registered. -/
theorem mem_keys_of_inGame {s : War Id} {id : Id} (h : inGame s id = true) :
    id ∈ s.players.keys := by
  obtain ⟨p, hp, -⟩ := inGame_iff.mp h
  exact mem_keys_of_some hp

/-- So a list of all registered ids lists whoever is in the game. -/
theorem mem_filter_inGame {s : War Id} {ids : List Id}
    (hids : ∀ id ∈ s.players.keys, id ∈ ids) {id : Id} :
    id ∈ ids.filter (inGame s) ↔ inGame s id = true := by
  rw [List.mem_filter]
  constructor
  · exact fun h => h.2
  · exact fun h => ⟨hids id (mem_keys_of_inGame h), h⟩

theorem WellFormed.playerID {s : War Id} (h : WellFormed s) {id : Id}
    {p : TournamentPlayer Id} (hp : s.tournamentPlayer? id = some p) :
    p.playerID = id := by
  obtain ⟨q, hq, hid⟩ := h.tournamentPlayer (mem_keys_of_some hp)
  rw [hp] at hq
  rw [Option.some.inj hq]
  exact hid

/-- The entry of a player of a well-formed game is its tournament player. -/
theorem WellFormed.get?_eq {s : War Id} (h : WellFormed s) (id : Id) :
    s.players.get? id = (s.tournamentPlayer? id).map .tournament := by
  cases hv : s.players.get? id with
  | none =>
      simp only [tournamentPlayer?]
      rw [hv]
      rfl
  | some v =>
      obtain ⟨p, hp, -⟩ := h (id, v) (Dictionary.get?_eq_some.mp hv)
      have hp' : v = .tournament p := hp
      simp only [tournamentPlayer?]
      rw [hv, hp']
      rfl

/-- A registered player of a well-formed game is in it or out of it. -/
theorem WellFormed.inGame_or_isOut {s : War Id} (h : WellFormed s) {id : Id}
    (hid : id ∈ s.players.keys) : inGame s id = true ∨ isOut s id = true := by
  obtain ⟨p, hp, -⟩ := h.tournamentPlayer hid
  cases he : p.eliminated with
  | false => exact Or.inl (inGame_iff.mpr ⟨p, hp, he⟩)
  | true => exact Or.inr (isOut_iff.mpr ⟨p, hp, he⟩)

/-! ## Updating the players in place -/

/-- Rewrite every tournament player by a function of its key. -/
def updatePlayers (s : War Id)
    (f : Id → TournamentPlayer Id → TournamentPlayer Id) : War Id :=
  { s with players := s.players.mapValues (fun id g => g.mapTournament (f id)) }

omit [LinearOrder Id] in
@[simp] theorem keys_updatePlayers (s : War Id)
    (f : Id → TournamentPlayer Id → TournamentPlayer Id) :
    (updatePlayers s f).players.keys = s.players.keys :=
  Dictionary.keys_mapValues ..

@[simp] theorem tournamentPlayer?_updatePlayers (s : War Id)
    (f : Id → TournamentPlayer Id → TournamentPlayer Id) (id : Id) :
    (updatePlayers s f).tournamentPlayer? id
      = (s.tournamentPlayer? id).map (f id) := by
  show ((s.players.mapValues _).get? id).bind _
    = ((s.players.get? id).bind _).map (f id)
  rw [Dictionary.get?_mapValues]
  cases s.players.get? id with
  | none => rfl
  | some g => exact GamePlayer.asTournamentPlayer_mapTournament (f id) g

theorem nameOf_updatePlayers {f : Id → TournamentPlayer Id →
    TournamentPlayer Id} (hf : ∀ id p, (f id p).name = p.name) (s : War Id)
    (id : Id) : nameOf (updatePlayers s f) id = nameOf s id := by
  simp only [nameOf]
  rw [tournamentPlayer?_updatePlayers]
  cases s.tournamentPlayer? id with
  | none => rfl
  | some p => exact congrArg some (hf id p)

/-- An update that keeps the flags changes nobody's place in the game. -/
theorem inGame_updatePlayers {f : Id → TournamentPlayer Id →
    TournamentPlayer Id} (hf : ∀ id p, (f id p).eliminated = p.eliminated)
    (s : War Id) (id : Id) : inGame (updatePlayers s f) id = inGame s id := by
  simp only [inGame]
  rw [tournamentPlayer?_updatePlayers]
  cases s.tournamentPlayer? id with
  | none => rfl
  | some p => exact congrArg not (hf id p)

theorem isOut_updatePlayers {f : Id → TournamentPlayer Id →
    TournamentPlayer Id} (hf : ∀ id p, (f id p).eliminated = p.eliminated)
    (s : War Id) (id : Id) : isOut (updatePlayers s f) id = isOut s id := by
  simp only [isOut]
  rw [tournamentPlayer?_updatePlayers]
  cases s.tournamentPlayer? id with
  | none => rfl
  | some p => exact hf id p

omit [LinearOrder Id] in
theorem updatePlayers_updatePlayers (s : War Id)
    (f g : Id → TournamentPlayer Id → TournamentPlayer Id) :
    updatePlayers (updatePlayers s f) g
      = updatePlayers s (fun id p => g id (f id p)) := by
  simp only [updatePlayers]
  rw [Dictionary.mapValues_mapValues]
  refine congrArg (fun ps => { s with players := ps }) ?_
  refine Dictionary.mapValues_congr ?_
  intro e _
  cases e.2 <;> rfl

/-- Updates that agree on the players present are equal. -/
theorem updatePlayers_congr {s : War Id}
    {f g : Id → TournamentPlayer Id → TournamentPlayer Id}
    (h : ∀ id p, s.tournamentPlayer? id = some p → f id p = g id p) :
    updatePlayers s f = updatePlayers s g := by
  simp only [updatePlayers]
  refine congrArg (fun ps => { s with players := ps }) ?_
  refine Dictionary.mapValues_congr ?_
  intro e he
  cases hg : e.2 with
  | player p => rfl
  | tournament p =>
      have hsome : s.tournamentPlayer? e.1 = some p := by
        simp only [tournamentPlayer?]
        rw [Dictionary.get?_eq_some.mpr he, hg]
        rfl
      show GamePlayer.tournament (f e.1 p) = .tournament (g e.1 p)
      rw [h e.1 p hsome]

/-- An update that keeps every player present changes nothing. -/
theorem updatePlayers_self {s : War Id}
    {f : Id → TournamentPlayer Id → TournamentPlayer Id}
    (h : ∀ id p, s.tournamentPlayer? id = some p → f id p = p) :
    updatePlayers s f = s := by
  rw [updatePlayers_congr (g := fun _ p => p) h]
  simp only [updatePlayers]
  have hself : s.players.mapValues
      (fun _ g => g.mapTournament (fun p => p)) = s.players :=
    Dictionary.mapValues_self (fun e _ => by cases e.2 <;> rfl)
  rw [hself]

/-- Writing one player is an update of that player alone. -/
theorem setPlayer_eq_update {s : War Id} {id : Id} {p : TournamentPlayer Id}
    (f : TournamentPlayer Id → TournamentPlayer Id)
    (h : s.tournamentPlayer? id = some p) :
    s.setPlayer id (f p)
      = updatePlayers s (fun k q => if k = id then f q else q) := by
  simp only [tournamentPlayer?] at h
  cases hg : s.players.get? id with
  | none => rw [hg] at h; simp at h
  | some g =>
      rw [hg] at h
      cases g with
      | player q => cases h
      | tournament q =>
          have hq : q = p := Option.some.inj h
          subst hq
          have hset := Dictionary.set_eq_mapValues
            (fun g => g.mapTournament f) hg
          show { s with players := s.players.set id (.tournament (f q)) } = _
          rw [show GamePlayer.tournament (f q)
            = (GamePlayer.tournament q).mapTournament f from rfl, hset]
          simp only [updatePlayers]
          refine congrArg (fun ps => { s with players := ps }) ?_
          refine Dictionary.mapValues_congr ?_
          intro e _
          by_cases hk : e.1 = id
          · rw [if_pos hk]
            simp only [hk, if_true]
          · rw [if_neg hk]
            simp only [hk, if_false]
            cases e.2 <;> rfl

omit [LinearOrder Id] in
/-- Updates that keep the ids keep a game well formed. -/
theorem WellFormed.updatePlayers {s : War Id} (h : WellFormed s)
    {f : Id → TournamentPlayer Id → TournamentPlayer Id}
    (hf : ∀ id p, (f id p).playerID = p.playerID) :
    WellFormed (updatePlayers s f) := by
  intro e he
  have he' : e ∈ s.players.entries.map
      (fun e => (e.1, e.2.mapTournament (f e.1))) := he
  obtain ⟨e₀, he₀, heq⟩ := List.mem_map.mp he'
  obtain ⟨p, hp, hid⟩ := h e₀ he₀
  refine ⟨f e₀.1 p, ?_, ?_⟩
  · rw [← heq, hp]
    rfl
  · rw [← heq, hf, hid]

/-! ## Turns: putting cards down -/

/-- Put down `need` cards from the front of the hand, or all cards and drop
    out when there are fewer. -/
def playTurn (need : Nat) (p : TournamentPlayer Id) : TournamentPlayer Id :=
  { p with
    cards := p.cards.drop need
    lastPlayedCard := (p.cards.take need).getLast?.or p.lastPlayedCard
    eliminated := p.eliminated || decide (p.cards.length < need) }

/-- All players of a list take a turn. -/
def turn (need : Nat) (ids : List Id) (s : War Id) : War Id :=
  updatePlayers s (fun id p => if id ∈ ids then playTurn need p else p)

/-- The cards a player puts down in a turn. -/
def pile (s : War Id) (need : Nat) (id : Id) : List Card :=
  (hand s id).take need

theorem pile_of_some {s : War Id} {id : Id} {p : TournamentPlayer Id}
    (h : s.tournamentPlayer? id = some p) (need : Nat) :
    pile s need id = p.cards.take need := by
  simp only [pile]
  rw [hand_of_some h]

@[simp] theorem keys_turn (need : Nat) (ids : List Id) (s : War Id) :
    (turn need ids s).players.keys = s.players.keys := keys_updatePlayers ..

theorem tournamentPlayer?_turn (need : Nat) (ids : List Id) (s : War Id)
    (id : Id) :
    (turn need ids s).tournamentPlayer? id
      = (s.tournamentPlayer? id).map
          (fun p => if id ∈ ids then playTurn need p else p) :=
  tournamentPlayer?_updatePlayers ..

theorem hand_turn (need : Nat) (ids : List Id) (s : War Id) (id : Id) :
    hand (turn need ids s) id
      = if id ∈ ids then (hand s id).drop need else hand s id := by
  simp only [hand]
  rw [tournamentPlayer?_turn]
  cases h : s.tournamentPlayer? id with
  | none =>
      by_cases hid : id ∈ ids
      · rw [if_pos hid, List.drop_nil]
        rfl
      · rw [if_neg hid]
        rfl
  | some p =>
      by_cases hid : id ∈ ids
      · simp only [hid, if_true, Option.map_some]
        rfl
      · simp only [hid, if_false, Option.map_some]

/-- After a turn a player is in the game if it was and had the cards. -/
theorem inGame_turn (need : Nat) (ids : List Id) (s : War Id) (id : Id) :
    inGame (turn need ids s) id = true ↔
      inGame s id = true ∧ (id ∈ ids → need ≤ (hand s id).length) := by
  rw [inGame_iff, inGame_iff, tournamentPlayer?_turn]
  cases h : s.tournamentPlayer? id with
  | none =>
      constructor
      · rintro ⟨p, hp, -⟩
        simp at hp
      · rintro ⟨⟨p, hp, -⟩, -⟩
        simp at hp
  | some p =>
      rw [hand_of_some h]
      by_cases hid : id ∈ ids
      · have helim : (playTurn need p).eliminated = false ↔
            p.eliminated = false ∧ need ≤ p.cards.length := by
          show (p.eliminated || decide (p.cards.length < need)) = false ↔ _
          rw [Bool.or_eq_false_iff, decide_eq_false_iff_not, not_lt]
        constructor
        · rintro ⟨q, hq, he⟩
          rw [Option.map_some, if_pos hid] at hq
          rw [← Option.some.inj hq] at he
          obtain ⟨he', hlen⟩ := helim.mp he
          exact ⟨⟨p, rfl, he'⟩, fun _ => hlen⟩
        · rintro ⟨⟨q, hq, he⟩, hlen⟩
          rw [← Option.some.inj hq] at he
          refine ⟨playTurn need p, ?_, helim.mpr ⟨he, hlen hid⟩⟩
          rw [Option.map_some, if_pos hid]
      · constructor
        · rintro ⟨q, hq, he⟩
          rw [Option.map_some, if_neg hid] at hq
          exact ⟨⟨q, hq, he⟩, fun h' => absurd h' hid⟩
        · rintro ⟨⟨q, hq, he⟩, -⟩
          refine ⟨q, ?_, he⟩
          rw [Option.map_some, if_neg hid]
          exact hq

/-- A turn changes nobody but the players who take it. -/
theorem tournamentPlayer?_turn_of_notMem {need : Nat} {ids : List Id}
    {s : War Id} {id : Id} (h : id ∉ ids) :
    (turn need ids s).tournamentPlayer? id = s.tournamentPlayer? id := by
  rw [tournamentPlayer?_turn]
  cases s.tournamentPlayer? id with
  | none => rfl
  | some p => rw [Option.map_some, if_neg h]

theorem WellFormed.turn {s : War Id} (h : WellFormed s) (need : Nat)
    (ids : List Id) : WellFormed (turn need ids s) := by
  refine h.updatePlayers ?_
  intro id p
  by_cases hid : id ∈ ids
  · rw [if_pos hid]
    rfl
  · rw [if_neg hid]

theorem nameOf_turn (need : Nat) (ids : List Id) (s : War Id) (id : Id) :
    nameOf (turn need ids s) id = nameOf s id := by
  refine nameOf_updatePlayers ?_ s id
  intro k p
  by_cases hk : k ∈ ids
  · rw [if_pos hk]
    rfl
  · rw [if_neg hk]

theorem turn_nil (need : Nat) (s : War Id) : turn need [] s = s :=
  updatePlayers_self (fun _ _ _ => if_neg (List.not_mem_nil))

/-- Turns are taken one after the other. -/
theorem turn_cons {need : Nat} {id : Id} {ids : List Id} (s : War Id)
    (h : id ∉ ids) : turn need ids (turn need [id] s) = turn need (id :: ids) s := by
  simp only [turn]
  rw [updatePlayers_updatePlayers]
  refine updatePlayers_congr ?_
  intro k p _
  by_cases hk : k = id
  · subst hk
    simp [h]
  · simp [hk]

/-- The single write of a turn. -/
theorem setPlayer_playTurn {s : War Id} {id : Id} {p : TournamentPlayer Id}
    (need : Nat) (h : s.tournamentPlayer? id = some p) :
    s.setPlayer id (playTurn need p) = turn need [id] s := by
  rw [setPlayer_eq_update (playTurn need) h]
  refine updatePlayers_congr ?_
  intro k q _
  simp only [List.mem_singleton]

/-- The piles of the others are untouched by a turn. -/
theorem pile_turn_of_notMem {need n : Nat} {ids : List Id} {s : War Id}
    {id : Id} (h : id ∉ ids) : pile (turn n ids s) need id = pile s need id := by
  simp only [pile]
  rw [hand_turn, if_neg h]

/-! ## Paying out -/

/-- Append cards to the hand of one player. -/
def payOut (w : Id) (cards : List Card) (s : War Id) : War Id :=
  updatePlayers s
    (fun id p => if id = w then p.addToCards cards else p)

@[simp] theorem keys_payOut (w : Id) (cards : List Card) (s : War Id) :
    (payOut w cards s).players.keys = s.players.keys := keys_updatePlayers ..

theorem setPlayer_addToCards {s : War Id} {w : Id} {p : TournamentPlayer Id}
    (cards : List Card) (h : s.tournamentPlayer? w = some p) :
    s.setPlayer w (p.addToCards cards) = payOut w cards s :=
  setPlayer_eq_update (fun q => q.addToCards cards) h

theorem tournamentPlayer?_payOut_of_ne {w id : Id} (cards : List Card)
    (s : War Id) (h : id ≠ w) :
    (payOut w cards s).tournamentPlayer? id = s.tournamentPlayer? id := by
  simp only [payOut]
  rw [tournamentPlayer?_updatePlayers]
  cases s.tournamentPlayer? id with
  | none => rfl
  | some p => rw [Option.map_some, if_neg h]

theorem hand_payOut_self {w : Id} (cards : List Card) {s : War Id}
    (h : inGame s w = true) : hand (payOut w cards s) w = hand s w ++ cards := by
  obtain ⟨p, hp, -⟩ := inGame_iff.mp h
  have hp' : (payOut w cards s).tournamentPlayer? w
      = some (p.addToCards cards) := by
    simp only [payOut]
    rw [tournamentPlayer?_updatePlayers, hp, Option.map_some, if_pos rfl]
  rw [hand_of_some hp', hand_of_some hp]
  rfl

theorem hand_payOut_of_ne {w id : Id} (cards : List Card) (s : War Id)
    (h : id ≠ w) : hand (payOut w cards s) id = hand s id :=
  hand_congr (tournamentPlayer?_payOut_of_ne cards s h)

/-- Paying a player leaves its flag and everybody else's. -/
theorem eliminated_payOut (w : Id) (cards : List Card) (id : Id)
    (p : TournamentPlayer Id) :
    (if id = w then p.addToCards cards else p).eliminated = p.eliminated := by
  by_cases h : id = w
  · rw [if_pos h]
    rfl
  · rw [if_neg h]

@[simp] theorem inGame_payOut (w : Id) (cards : List Card) (s : War Id)
    (id : Id) : inGame (payOut w cards s) id = inGame s id :=
  inGame_updatePlayers (eliminated_payOut w cards) s id

@[simp] theorem isOut_payOut (w : Id) (cards : List Card) (s : War Id)
    (id : Id) : isOut (payOut w cards s) id = isOut s id :=
  isOut_updatePlayers (eliminated_payOut w cards) s id

theorem nameOf_payOut (w : Id) (cards : List Card) (s : War Id) (id : Id) :
    nameOf (payOut w cards s) id = nameOf s id := by
  refine nameOf_updatePlayers ?_ s id
  intro k p
  by_cases hk : k = w
  · rw [if_pos hk]
    rfl
  · rw [if_neg hk]

theorem WellFormed.payOut {s : War Id} (h : WellFormed s) (w : Id)
    (cards : List Card) : WellFormed (payOut w cards s) := by
  refine h.updatePlayers ?_
  intro id p
  by_cases hid : id = w
  · rw [if_pos hid]
    rfl
  · rw [if_neg hid]

end WarState
