import CardCrucible.Contract
import CardCrucible.Deals
import CardCrucible.Identity
import CardCrucible.Snapshots

/-! # Initializers — games made with their players

    A game of war is a `Game` whose methods store tournament players.  It can
    be made with its players.  The initializer for an array of `Player`s makes
    new tournament players of all of them, also of those that are tournament
    players: it makes the snapshot of the game that adding the players makes.
    The two differ if somebody comes from another game. -/

namespace PlayerModel

variable {Id : Type}

namespace TournamentPlayer

/-- The loop of `toTournamentPlayers`. -/
def convertLoop : List (TournamentPlayer Id) → List (GamePlayer Id) →
    List (TournamentPlayer Id)
  | newPlayers, [] => newPlayers
  | newPlayers, player :: players =>
      convertLoop (newPlayers ++ [ofPlayer player.toPlayer]) players

/-- `toTournamentPlayers(_:)`. -/
def toTournamentPlayers (players : List (GamePlayer Id)) :
    List (TournamentPlayer Id) := convertLoop [] players

theorem convertLoop_eq (players : List (GamePlayer Id)) :
    ∀ newPlayers : List (TournamentPlayer Id),
      convertLoop newPlayers players
        = newPlayers ++ players.map (fun g => ofPlayer g.toPlayer) := by
  induction players with
  | nil => intro newPlayers; exact (List.append_nil _).symm
  | cons player players ih =>
      intro newPlayers
      show convertLoop (newPlayers ++ [ofPlayer player.toPlayer]) players = _
      rw [ih, List.append_assoc]
      rfl

theorem toTournamentPlayers_eq (players : List (GamePlayer Id)) :
    toTournamentPlayers players
      = players.map (fun g => ofPlayer g.toPlayer) := convertLoop_eq players []

end TournamentPlayer

end PlayerModel

namespace WarModel.Game

open Outcomes Arrangements Dictionaries CardModel DeckModel PlayerModel

variable {Id : Type} [DecidableEq Id]

/-- `Game.init(numSubDecks:)`. -/
def init (fuel : Nat) (random : Nat → Arrangement Card) (numSubDecks : Int) :
    Outcome (Game Id) := do
  let gameDeck ← Deck.init fuel random numSubDecks true
  return { gameDeck := gameDeck, players := Dictionary.empty,
           gameover := false }

/-- `Game.addPlayer(player:)`. -/
def addPlayer (s : Game Id) (player : GamePlayer Id) : Game Id :=
  { s with players := s.players.set player.toPlayer.id player }

/-- `Game.addPlayers(players:)`. -/
def addPlayers (s : Game Id) : List (GamePlayer Id) → Game Id
  | [] => s
  | player :: players => (s.addPlayer player).addPlayers players

/-- `Game.init(numSubDecks:withPlayers:)`. -/
def initWithPlayers (fuel : Nat) (random : Nat → Arrangement Card)
    (numSubDecks : Int) (withPlayers : List (GamePlayer Id)) :
    Outcome (Game Id) := do
  let s ← Game.init fuel random numSubDecks
  return s.addPlayers withPlayers

/-- `Game.dealCards()`, for subclasses to override. -/
def dealCards (_ : Game Id) : Outcome (Game Id) :=
  .trap "This method must be overwritten"

/-- `Game.startGame()`, for subclasses to override. -/
def startGame (_ : Game Id) : Outcome (Game Id) :=
  .trap "This method must be overwritten"

end WarModel.Game

namespace WarModel.War

open Outcomes Arrangements CardModel PlayerModel

variable {Id : Type} [LinearOrder Id]

/-- `War.init(numSubDecks:withPlayers:)` of tournament players. -/
def initWithTournamentPlayers (fuel : Nat) (random : Nat → Arrangement Card)
    (numSubDecks : Int) (withPlayers : List (TournamentPlayer Id)) :
    Outcome (War Id) := do
  let s ← War.init fuel random numSubDecks
  return s.addPlayers (withPlayers.map .tournament)

/-- `War.init(numSubDecks:withPlayers:)` of players. -/
def initWithPlayers (fuel : Nat) (random : Nat → Arrangement Card)
    (numSubDecks : Int) (withPlayers : List (GamePlayer Id)) :
    Outcome (War Id) :=
  let newPlayers := TournamentPlayer.toTournamentPlayers withPlayers
  initWithTournamentPlayers fuel random numSubDecks newPlayers

end WarModel.War

namespace Initializers

open Outcomes Arrangements Dictionaries CardModel DeckModel PlayerModel
open WarModel WarModel.War WarState Dealing Rounds GameStatus RoundLaws
open Games Safety Runs Sessions Contract Snapshots Deals Identity

variable {Id : Type} [LinearOrder Id]

/-! ## The class of games -/

/-- A game with its players stored as tournament players. -/
def stored (s : Game Id) : Game Id :=
  { s with
    players := s.players.mapValues (fun _ g => .tournament (entrant g)) }

/-- **A game of war is a game** that stores tournament players: its methods
    add to it what those they override add. -/
theorem toGame_addPlayers (gs : List (GamePlayer Id)) :
    ∀ (s : War Id) (base : Game Id), s.toGame = stored base →
      (s.addPlayers gs).toGame = stored (base.addPlayers gs) := by
  induction gs with
  | nil => intro s base h; exact h
  | cons g gs ih =>
      intro s base h
      refine ih (s.addPlayer g) (base.addPlayer g) ?_
      rw [addPlayer_eq, id_entrant]
      simp only [setPlayer, stored, Game.addPlayer]
      rw [h, Dictionary.mapValues_set]
      rfl

/-- On tournament players the methods of `Game` and those that override them
    do the same. -/
theorem toGame_initWithTournamentPlayers (fuel : Nat)
    (random : Nat → Arrangement Card) (n : Int)
    (ps : List (TournamentPlayer Id)) :
    (initWithTournamentPlayers fuel random n ps).map War.toGame
      = Game.initWithPlayers fuel random n (ps.map .tournament) := by
  have hadd : ∀ (ps : List (TournamentPlayer Id)) (s : War Id),
      (s.addPlayers (ps.map .tournament)).toGame
        = s.toGame.addPlayers (ps.map .tournament) := by
    intro ps
    induction ps with
    | nil => intro s; rfl
    | cons p ps ih => intro s; exact ih (s.addPlayer (.tournament p))
  simp only [initWithTournamentPlayers, War.init, Game.initWithPlayers,
    Game.init]
  cases Deck.init fuel random n true with
  | done deck => exact congrArg Outcome.done (hadd ps _)
  | trap r => rfl
  | outOfFuel => rfl

/-! ## Games made with their players -/

section MadeWith

variable {fuel : Nat} {random : Nat → Arrangement Card} {n : Int}
variable {v : War Id} {gs : List (GamePlayer Id)}

theorem snapshot_addPlayer (s : War Id) (g : GamePlayer Id) :
    snapshot (s.addPlayer g)
      = (snapshot s).addPlayer (.tournament (.ofPlayer g.toPlayer)) := by
  rw [addPlayer_eq, addPlayer_eq, id_entrant]
  simp only [snapshot, updatePlayers, setPlayer]
  rw [Dictionary.mapValues_set]
  cases g <;> rfl

theorem snapshot_addPlayers (gs : List (GamePlayer Id)) :
    ∀ s : War Id, snapshot (s.addPlayers gs)
      = (snapshot s).addPlayers
          (gs.map (fun g => .tournament (.ofPlayer g.toPlayer))) := by
  induction gs with
  | nil => intro s; rfl
  | cons g gs ih =>
      intro s
      show snapshot ((s.addPlayer g).addPlayers gs) = _
      rw [ih, snapshot_addPlayer]
      rfl

theorem tournamentPlayer?_init (hv : War.init fuel random n = .done v)
    (id : Id) : v.tournamentPlayer? id = none := by
  simp only [tournamentPlayer?]
  rw [(init_eq hv).2.1]
  rfl

/-- **The initializer makes the snapshot** of the game that adding the players
    makes. -/
theorem initWithPlayers_eq (hv : War.init fuel random n = .done v)
    (gs : List (GamePlayer Id)) :
    initWithPlayers fuel random n gs = .done (snapshot (v.addPlayers gs)) := by
  have hnew : snapshot v = v := by
    refine updatePlayers_self (fun id p hp => ?_)
    rw [tournamentPlayer?_init hv] at hp
    cases hp
  simp only [initWithPlayers, initWithTournamentPlayers]
  rw [hv, TournamentPlayer.toTournamentPlayers_eq, List.map_map,
    snapshot_addPlayers, hnew]
  rfl

theorem tournamentPlayer?_added (hv : War.init fuel random n = .done v)
    (id : Id) :
    (v.addPlayers gs).tournamentPlayer? id
      = (lastWith id gs).map entrant := by
  rw [tournamentPlayer?_addPlayers, tournamentPlayer?_init hv, Option.or_none]

theorem tournamentPlayer?_snapshot (s : War Id) (id : Id) :
    (snapshot s).tournamentPlayer? id
      = (s.tournamentPlayer? id).map TournamentPlayer.copy :=
  tournamentPlayer?_updatePlayers ..

omit [LinearOrder Id] in
theorem copy_eq_self {p : TournamentPlayer Id} :
    p.copy = p ↔ p.isEliminated = false ∧ p.lastPlayedCard = none := by
  obtain ⟨⟨name, id, cards, last⟩, eliminated⟩ := p
  simp [TournamentPlayer.copy, TournamentPlayer.create,
    TournamentPlayer.isEliminated, eq_comm, and_comm]

/-- Both ways make the same game if all players are new to it. -/
theorem snapshot_added_eq_iff (hv : War.init fuel random n = .done v) :
    snapshot (v.addPlayers gs) = v.addPlayers gs ↔
      ∀ id g, lastWith id gs = some g →
        (entrant g).isEliminated = false ∧
          (entrant g).lastPlayedCard = none := by
  constructor
  · intro heq id g hg
    have hid := congrArg (fun s => s.tournamentPlayer? id) heq
    simp only [tournamentPlayer?_snapshot, tournamentPlayer?_added hv] at hid
    rw [hg] at hid
    exact copy_eq_self.mp (Option.some.inj hid)
  · intro h
    refine updatePlayers_self (fun id p hp => ?_)
    rw [tournamentPlayer?_added hv] at hp
    obtain ⟨g, hg, hgp⟩ := Option.map_eq_some_iff.mp hp
    rw [← hgp]
    exact copy_eq_self.mpr (h id g hg)

/-- Cards can be dealt to somebody. -/
theorem dealCards_returns_iff {s : War Id} :
    (∃ fuel s', dealCards fuel s = .done s') ↔
      ∃ id, inGame s id = true := by
  constructor
  · rintro ⟨fuel, s', h⟩
    by_contra hnone
    refine dealCards_of_none (fun id => ?_) h
    exact Bool.eq_false_iff.mpr (fun hin => hnone ⟨id, hin⟩)
  · intro h
    exact ⟨_, dealCards_returns h (Nat.lt_succ_self _)⟩

theorem inGame_snapshot_added (hv : War.init fuel random n = .done v)
    {id : Id} :
    inGame (snapshot (v.addPlayers gs)) id = true ↔
      ∃ g, lastWith id gs = some g := by
  simp only [inGame]
  rw [tournamentPlayer?_snapshot, tournamentPlayer?_added hv]
  cases lastWith id gs with
  | none => simp
  | some g => exact ⟨fun _ => ⟨g, rfl⟩, fun _ => rfl⟩

theorem hand_snapshot_added (hv : War.init fuel random n = .done v)
    {id : Id} {g : GamePlayer Id} (hg : lastWith id gs = some g) :
    hand (snapshot (v.addPlayers gs)) id = g.toPlayer.cards := by
  rw [← cards_entrant]
  refine hand_of_some (p := (entrant g).copy) ?_
  rw [tournamentPlayer?_snapshot, tournamentPlayer?_added hv, hg]
  rfl

theorem mem_keys_snapshot_added (hv : War.init fuel random n = .done v)
    {id : Id} :
    id ∈ (snapshot (v.addPlayers gs)).players.keys ↔
      ∃ g, lastWith id gs = some g := by
  have hkeys : (snapshot (v.addPlayers gs)).players.keys
      = (v.addPlayers gs).players.keys := keys_updatePlayers ..
  rw [hkeys]
  constructor
  · intro hid
    rcases (kept_addPlayers gs v).new id hid with hv' | hmem
    · rw [(init_eq hv).2.1] at hv'
      cases hv'
    · obtain ⟨g, hg, hgid⟩ := List.mem_map.mp hmem
      rw [← hgid]
      exact exists_lastWith hg
  · rintro ⟨g, hg⟩
    have hp : (v.addPlayers gs).tournamentPlayer? id = some (entrant g) := by
      rw [tournamentPlayer?_added hv, hg]
      rfl
    exact mem_keys_of_some hp

theorem exists_lastWith_iff :
    (∃ id g, lastWith id gs = some g) ↔ gs ≠ [] := by
  constructor
  · rintro ⟨id, g, hg⟩
    exact List.ne_nil_of_mem (lastWith_some hg).1
  · intro hne
    obtain ⟨g, hg⟩ := List.exists_mem_of_ne_nil gs hne
    exact ⟨_, exists_lastWith hg⟩

/-- There are two players if two of them have different ids. -/
theorem one_lt_numPlayers_iff (hv : War.init fuel random n = .done v) :
    1 < (snapshot (v.addPlayers gs)).numPlayers ↔
      ∃ g ∈ gs, ∃ g' ∈ gs, g.toPlayer.id ≠ g'.toPlayer.id := by
  have hcard : (snapshot (v.addPlayers gs)).numPlayers
      = (snapshot (v.addPlayers gs)).players.keys.toFinset.card := by
    rw [List.toFinset_card_of_nodup (Dictionary.nodup_keys _)]
    exact (Dictionary.length_keys _).symm
  rw [hcard, Finset.one_lt_card]
  simp only [List.mem_toFinset, mem_keys_snapshot_added hv]
  constructor
  · rintro ⟨a, ⟨g, hg⟩, b, ⟨g', hg'⟩, hab⟩
    obtain ⟨hmem, hid⟩ := lastWith_some hg
    obtain ⟨hmem', hid'⟩ := lastWith_some hg'
    refine ⟨g, hmem, g', hmem', ?_⟩
    rw [hid, hid']
    exact hab
  · rintro ⟨g, hg, g', hg', hne⟩
    exact ⟨_, exists_lastWith hg, _, exists_lastWith hg', hne⟩

omit [LinearOrder Id] in
/-- The deck of a new game has cards if a sub-deck is asked for. -/
theorem decks_ne_nil_iff (hv : War.init fuel random n = .done v) :
    v.gameDeck.decks ≠ [] ↔ 0 < n := by
  have hperm : v.gameDeck.decks.Perm (unshuffled n) :=
    init_shuffled_perm (init_eq hv).1
  constructor
  · intro hne
    by_contra hn
    have hzero : (AllowedNumSubDecks.wrap n).numSubDecks.toNat = 0 := by
      show (max (min n 10) 0).toNat = 0
      omega
    refine hne (List.perm_nil.mp ?_)
    simp only [unshuffled] at hperm
    rw [hzero] at hperm
    exact hperm
  · intro hn hnil
    rw [hnil] at hperm
    exact unshuffled_ne_nil hn (List.nil_perm.mp hperm)

/-- A game made with its players can start if two of them have different ids
    and somebody gets a card. -/
theorem startable_iff (hv : War.init fuel random n = .done v) :
    Startable (snapshot (v.addPlayers gs)) ↔
      (∃ g ∈ gs, ∃ g' ∈ gs, g.toPlayer.id ≠ g'.toPlayer.id) ∧
        (0 < n ∨ ∃ id g, lastWith id gs = some g ∧ g.toPlayer.cards ≠ []) := by
  have hdeck : (snapshot (v.addPlayers gs)).gameDeck = v.gameDeck :=
    (addPlayers_frame gs v).1
  have hover : (snapshot (v.addPlayers gs)).gameover = false :=
    (addPlayers_frame gs v).2.trans (init_eq hv).2.2
  have hlive : Live (snapshot (v.addPlayers gs)) ↔
      ∃ id g, lastWith id gs = some g ∧ g.toPlayer.cards ≠ [] := by
    constructor
    · rintro ⟨id, hin, hne⟩
      obtain ⟨g, hg⟩ := (inGame_snapshot_added hv).mp hin
      rw [hand_snapshot_added hv hg] at hne
      exact ⟨id, g, hg, hne⟩
    · rintro ⟨id, g, hg, hne⟩
      refine ⟨id, (inGame_snapshot_added hv).mpr ⟨g, hg⟩, ?_⟩
      rw [hand_snapshot_added hv hg]
      exact hne
  simp only [Startable]
  rw [one_lt_numPlayers_iff hv, hover, hdeck, decks_ne_nil_iff hv, hlive]
  refine and_congr_right ?_
  rintro ⟨g, hg, -⟩
  obtain ⟨g', hg'⟩ := exists_lastWith hg
  -- everybody is in the game
  have hsome : ¬ ∀ id, inGame (snapshot (v.addPlayers gs)) id = false := by
    intro hnone
    have hin := (inGame_snapshot_added hv).mpr ⟨g', hg'⟩
    rw [hnone] at hin
    cases hin
  simp [hsome]

/-- **Games made with their players.**  The initializer for players makes the
    snapshot of the game that adding the players makes, which is another game
    if one of those that stay has been eliminated or has played.  Its cards
    can be dealt unless it has no players; after adding the players they can
    only be dealt if one of them is not eliminated.  And `startGame` never
    traps exactly if there are two ids and somebody gets a card. -/
theorem game_with_players (hv : War.init fuel random n = .done v)
    (gs : List (GamePlayer Id)) :
    ∃ w, initWithPlayers fuel random n gs = .done w ∧
      w = snapshot (v.addPlayers gs) ∧
      (w = v.addPlayers gs ↔ ∀ id g, lastWith id gs = some g →
        (entrant g).isEliminated = false ∧
          (entrant g).lastPlayedCard = none) ∧
      ((∃ fuel s, dealCards fuel w = .done s) ↔ gs ≠ []) ∧
      ((∃ fuel s, dealCards fuel (v.addPlayers gs) = .done s) ↔
        ∃ id g, lastWith id gs = some g ∧
          (entrant g).isEliminated = false) ∧
      ((∀ fuel rounds os, (War.startGame fuel rounds os w).Safe) ↔
        (∃ g ∈ gs, ∃ g' ∈ gs, g.toPlayer.id ≠ g'.toPlayer.id) ∧
          (0 < n ∨ ∃ id g, lastWith id gs = some g ∧
            g.toPlayer.cards ≠ [])) := by
  have hadded : Kept (gs.map (fun g => g.toPlayer.id)) v (v.addPlayers gs) :=
    kept_addPlayers gs v
  have hwf : WellFormed (snapshot (v.addPlayers gs)) :=
    wellFormed_snapshot (hadded.wellFormed (wellFormed_init hv))
  have hwinner : WinnerRegistered (snapshot (v.addPlayers gs)) := by
    intro id hid
    cases (newGame_roundWinner hv).symm.trans hid
  refine ⟨_, initWithPlayers_eq hv gs, rfl, snapshot_added_eq_iff hv, ?_, ?_,
    ?_⟩
  · rw [dealCards_returns_iff, ← exists_lastWith_iff]
    simp only [inGame_snapshot_added hv]
  · rw [dealCards_returns_iff]
    refine exists_congr (fun id => ?_)
    rw [inGame_iff, tournamentPlayer?_added hv]
    constructor
    · rintro ⟨p, hp, helim⟩
      obtain ⟨g, hg, hgp⟩ := Option.map_eq_some_iff.mp hp
      rw [← hgp] at helim
      exact ⟨g, hg, helim⟩
    · rintro ⟨g, hg, helim⟩
      exact ⟨entrant g, by rw [hg]; rfl, helim⟩
  · rw [← startable_iff hv]
    constructor
    · intro hsafe
      by_contra hnot
      have hillegal : ¬ Legal (snapshot (v.addPlayers gs)) (.startGame
          (fun _ => ⟨.keep, fun _ => .keep, .keep, .keep⟩)) := hnot
      obtain ⟨fuel', rounds', reason, htrap⟩ :=
        trap_of_not_legal hwf hillegal
      exact ((hsafe fuel' rounds' _).bind
        (fun r _ => Outcome.Safe.done _)) reason htrap
    · intro hstart fuel' rounds' os
      exact safe_startGame_of_startable hwf hwinner hstart fuel' rounds' os

end MadeWith

/-- The first player has been eliminated in another game. -/
def returning : List (GamePlayer String) :=
  [.tournament ⟨⟨"A", "A", cardsAt [48], none⟩, true⟩,
    .player ⟨"B", "B", [], none⟩]

theorem game_with_players_returning :
    ∃ v w : War String, War.init 0 (fun _ => .keep) 0 = .done v ∧
      initWithPlayers 0 (fun _ => .keep) 0 returning = .done w ∧
      w ≠ v.addPlayers returning ∧
      ∀ fuel rounds os, (War.startGame fuel rounds os w).Safe := by
  have hinit : ∃ v : War String,
      War.init 0 (fun _ => .keep) 0 = .done v ∧ v.gameover = false := by
    decide +kernel
  obtain ⟨v, hv, -⟩ := hinit
  obtain ⟨w, hw, -, hsame, -, -, hsafe⟩ := game_with_players hv returning
  refine ⟨v, w, hv, hw, fun heq => ?_, hsafe.mpr ⟨?_, Or.inr ?_⟩⟩
  · -- the first player is eliminated
    have hfirst := (hsame.mp heq "A" _ rfl).1
    cases hfirst
  · exact ⟨_, List.mem_cons_self, _, List.mem_cons_of_mem _
      List.mem_cons_self, by decide⟩
  · exact ⟨"A", _, rfl, by decide⟩

end Initializers
