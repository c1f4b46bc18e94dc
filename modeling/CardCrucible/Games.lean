import CardCrucible.Conservation
import CardCrucible.RoundStrength

/-! # Games — the start of a game and the states it reaches

    `startGame` deals the cards and plays rounds until the game is over.
    `Reaches` collects the states at its round boundaries, whatever the fuel
    and the iteration orders of each round; what holds at every boundary is
    one induction on it.  `playRounds` is the state after a given number of
    rounds of one run. -/

namespace Games

open Outcomes Arrangements Dictionaries CardModel DeckModel PlayerModel
open WarModel WarModel.War WarState WarTurn Comparisons Spending Dealing
open Rounds GameStatus RoundLaws Conservation

variable {Id : Type} [LinearOrder Id]

/-! ## New games -/

/-- The tournament player a game stores for a player who is added. -/
def entrant : GamePlayer Id → TournamentPlayer Id
  | .tournament p => p
  | .player p => .ofPlayer p

/-- At least two players with distinct ids, none of them eliminated. -/
structure NewPlayers (players : List (GamePlayer Id)) : Prop where
  two : 2 ≤ players.length
  distinct : (players.map (fun g => g.toPlayer.id)).Nodup
  fresh : ∀ g ∈ players, (entrant g).eliminated = false

/-- What a game needs to start: everybody in it is in the game, and there are
    at least two. -/
structure Ready (s : War Id) : Prop where
  wellFormed : WellFormed s
  inGame : ∀ id ∈ s.players.keys, inGame s id = true
  two : 2 ≤ (survivors s).length
  running : s.gameover = false

omit [LinearOrder Id] in
theorem id_entrant (g : GamePlayer Id) : (entrant g).id = g.toPlayer.id := by
  cases g <;> rfl

omit [LinearOrder Id] in
theorem cards_entrant (g : GamePlayer Id) :
    (entrant g).cards = g.toPlayer.cards := by
  cases g <;> rfl

theorem addPlayer_eq (s : War Id) (g : GamePlayer Id) :
    s.addPlayer g = s.setPlayer (entrant g).id (entrant g) := by
  cases g <;> rfl

/-- The entry of a player who is added. -/
def entry (g : GamePlayer Id) : Id × GamePlayer Id :=
  (g.toPlayer.id, .tournament (entrant g))

/-- New players are appended in order. -/
theorem addPlayers_entries :
    ∀ (players : List (GamePlayer Id)) (s : War Id),
      (players.map (fun g => g.toPlayer.id)).Nodup →
      (∀ g ∈ players, g.toPlayer.id ∉ s.players.keys) →
      (s.addPlayers players).players.entries
        = s.players.entries ++ players.map entry := by
  intro players
  induction players with
  | nil => intro s _ _; exact (List.append_nil _).symm
  | cons g rest ih =>
      intro s hnd hnew
      rw [List.map_cons, List.nodup_cons] at hnd
      have hid : (entrant g).id ∉ s.players.keys := by
        rw [id_entrant]
        exact hnew g List.mem_cons_self
      have hentries : (s.addPlayer g).players.entries
          = s.players.entries ++ [entry g] := by
        rw [addPlayer_eq]
        show (s.players.set _ _).entries = _
        rw [Dictionary.entries_set_of_notMem _ hid, id_entrant]
        rfl
      show ((s.addPlayer g).addPlayers rest).players.entries = _
      rw [ih (s.addPlayer g) hnd.2, hentries, List.append_assoc]
      · rfl
      · intro k hk hmem
        have hkeys : (s.addPlayer g).players.keys
            = s.players.keys ++ [g.toPlayer.id] := by
          show (s.addPlayer g).players.entries.map Prod.fst = _
          rw [hentries, List.map_append]
          rfl
        rw [hkeys, List.mem_append] at hmem
        rcases hmem with hmem | hmem
        · exact hnew k (List.mem_cons_of_mem _ hk) hmem
        · rw [List.mem_singleton] at hmem
          refine hnd.1 ?_
          rw [← hmem]
          exact List.mem_map_of_mem (f := fun g => g.toPlayer.id) hk

/-- Adding players touches nothing but the players. -/
theorem addPlayers_frame (players : List (GamePlayer Id)) :
    ∀ s : War Id, (s.addPlayers players).gameDeck = s.gameDeck ∧
      (s.addPlayers players).gameover = s.gameover := by
  induction players with
  | nil => intro s; exact ⟨rfl, rfl⟩
  | cons g rest ih =>
      intro s
      obtain ⟨hdeck, hover⟩ := ih (s.addPlayer g)
      cases g <;> exact ⟨hdeck, hover⟩

omit [LinearOrder Id] in
/-- A new game has a shuffled deck and no players. -/
theorem init_eq {fuel : Nat} {random : Nat → Arrangement Card} {n : Int}
    {w : War Id} (h : War.init fuel random n = .done w) :
    Deck.init fuel random n true = .done w.gameDeck ∧
      w.players = Dictionary.empty ∧ w.gameover = false := by
  simp only [War.init] at h
  obtain ⟨deck, hdeck, hw⟩ := Outcome.bind_eq_done.mp h
  rw [← Outcome.done.inj hw]
  exact ⟨hdeck, rfl, rfl⟩

section NewGame

variable {fuel : Nat} {random : Nat → Arrangement Card} {n : Int}
variable {w : War Id} {players : List (GamePlayer Id)}

theorem newGame_entries (h : War.init fuel random n = .done w)
    (hplayers : NewPlayers players) :
    (w.addPlayers players).players.entries = players.map entry := by
  obtain ⟨-, hnone, -⟩ := init_eq h
  rw [addPlayers_entries players w hplayers.distinct, hnone]
  · rfl
  · intro g _
    rw [hnone]
    exact List.not_mem_nil

/-- Every entry of a new game is one of its players. -/
theorem newGame_get (h : War.init fuel random n = .done w)
    (hplayers : NewPlayers players) {id : Id}
    (hid : id ∈ (w.addPlayers players).players.keys) :
    ∃ g ∈ players, (w.addPlayers players).tournamentPlayer? id
      = some (entrant g) := by
  obtain ⟨v, hv⟩ := Dictionary.mem_keys.mp hid
  have hmem := Dictionary.get?_eq_some.mp hv
  rw [newGame_entries h hplayers] at hmem
  obtain ⟨g, hg, heq⟩ := List.mem_map.mp hmem
  refine ⟨g, hg, ?_⟩
  have hv' : v = .tournament (entrant g) := (congrArg Prod.snd heq).symm
  simp only [tournamentPlayer?]
  rw [hv, hv']
  rfl

/-- **New games can start.** -/
theorem newGame_ready (h : War.init fuel random n = .done w)
    (hplayers : NewPlayers players) : Ready (w.addPlayers players) := by
  have hin : ∀ id ∈ (w.addPlayers players).players.keys,
      inGame (w.addPlayers players) id = true := by
    intro id hid
    obtain ⟨g, hg, hp⟩ := newGame_get h hplayers hid
    exact inGame_iff.mpr ⟨entrant g, hp, hplayers.fresh g hg⟩
  refine ⟨?_, hin, ?_, ?_⟩
  · intro e he
    rw [newGame_entries h hplayers] at he
    obtain ⟨g, -, heq⟩ := List.mem_map.mp he
    rw [← heq]
    exact ⟨entrant g, rfl, id_entrant g⟩
  · have hall : survivors (w.addPlayers players)
        = (w.addPlayers players).players.keys :=
      List.filter_eq_self.mpr hin
    have htwo := hplayers.two
    rw [hall]
    show 2 ≤ ((w.addPlayers players).players.entries.map Prod.fst).length
    rw [newGame_entries h hplayers, List.length_map, List.length_map]
    exact htwo
  · rw [(addPlayers_frame players w).2]
    exact (init_eq h).2.2

/-- The cards of a new game whose players have none are its deck. -/
theorem newGame_cards (h : War.init fuel random n = .done w)
    (hplayers : NewPlayers players)
    (hempty : ∀ g ∈ players, g.toPlayer.cards = []) :
    allCards (w.addPlayers players) = w.gameDeck.decks := by
  simp only [allCards]
  rw [newGame_entries h hplayers, (addPlayers_frame players w).1,
    List.map_map]
  have hzero : (players.map ((fun e : Id × GamePlayer Id =>
      (e.2.toPlayer.cards : Multiset Card)) ∘ entry)).sum = 0 := by
    refine List.sum_eq_zero ?_
    intro m hm
    obtain ⟨g, hg, heq⟩ := List.mem_map.mp hm
    rw [← heq]
    show ((entrant g).cards : Multiset Card) = 0
    rw [cards_entrant, hempty g hg]
    rfl
  rw [hzero, zero_add]

/-- A new game with at least one sub-deck has cards. -/
theorem newGame_nonempty (h : War.init fuel random n = .done w)
    (hn : 0 < n) : allCards (w.addPlayers players) ≠ 0 := by
  intro hzero
  have hperm := init_shuffled_perm (init_eq h).1
  have hdeck : w.gameDeck.decks = [] := by
    simp only [allCards] at hzero
    rw [(addPlayers_frame players w).1] at hzero
    exact (Multiset.coe_eq_zero _).mp (add_eq_zero.mp hzero).2
  have hlen := hperm.length_eq
  have hsub : Deck.subDeck.length = 52 := rfl
  rw [hdeck, List.length_flatten, List.map_replicate,
    List.sum_replicate_nat, hsub, List.length_nil] at hlen
  have hnum : (AllowedNumSubDecks.wrap n).numSubDecks
      = max (min n maxNumSubDecks) minNumSubDecks := rfl
  have hlo : 0 < (AllowedNumSubDecks.wrap n).numSubDecks := by
    rw [hnum]
    exact lt_max_of_lt_left (lt_min hn (by decide))
  omega

end NewGame

/-! ## Seats

    Players and tables to run the model on: ids and names are strings, as in
    the source. -/

/-- Fresh players, each named by its id, with given hands. -/
def seats (hands : List (String × List Card)) : List (GamePlayer String) :=
  hands.map (fun h => .tournament (.create h.1 h.1 h.2))

/-- A table with an empty deck. -/
def table (hands : List (String × List Card)) : War String :=
  War.addPlayers
    { gameDeck := { decks := [], numSubDecks := AllowedNumSubDecks.wrap 1 }
      players := Dictionary.empty
      gameover := false
      roundWinner := none } (seats hands)

/-- The cards at given places of a sorted sub-deck. -/
def cardsAt (places : List Nat) : List Card :=
  places.filterMap (fun n => Deck.subDeck[n]?)

/-- A shuffle that puts one sorted sub-deck into a given order. -/
def stacked (deck : List Card) (h : deck.Perm Deck.subDeck) :
    Nat → Arrangement Card := fun _ => Arrangement.only Deck.subDeck deck h

/-- Every dictionary is iterated in representation order. -/
def inOrder : Schedule String where
  roundCards := Arrangement.keep
  warParticipants := fun _ => Arrangement.keep
  lastPlayedCards := Arrangement.keep
  players := Arrangement.keep

/-- Seats with distinct ids can start a game. -/
theorem newPlayers_seats {hands : List (String × List Card)}
    (htwo : 2 ≤ hands.length) (hnd : (hands.map Prod.fst).Nodup) :
    NewPlayers (seats hands) where
  two := by
    simp only [seats]
    rw [List.length_map]
    exact htwo
  distinct := by
    simp only [seats]
    rw [List.map_map]
    exact hnd
  fresh := by
    intro g hg
    obtain ⟨h, -, heq⟩ := List.mem_map.mp hg
    rw [← heq]
    rfl

/-! ## Reachable states -/

/-- Dealing does not end the game. -/
theorem Ready.running_dealt {s₀ s : War Id} (h : Ready s₀) {fuel : Nat}
    (hrun : dealCards fuel s₀ = .done s) : s.gameover = false := by
  obtain ⟨share, hdealt⟩ := dealCards_dealt hrun
  rw [hdealt.state]
  exact h.running

/-- The states at the round boundaries of a game: after `dealCards`, and after
    every `startRound` that returns. -/
inductive Reaches (s₀ : War Id) : War Id → Prop where
  | dealt {fuel : Nat} {s : War Id} (hrun : dealCards fuel s₀ = .done s) :
      Reaches s₀ s
  | round {fuel : Nat} {o : Schedule Id} {s s' : War Id}
      (h : Reaches s₀ s) (hrun : startRound fuel o s = .done s') :
      Reaches s₀ s'

namespace Reaches

variable {s₀ s : War Id}

theorem wellFormed (h : Reaches s₀ s) (hwf : WellFormed s₀) :
    WellFormed s := by
  induction h with
  | dealt hrun =>
      obtain ⟨share, hdealt⟩ := dealCards_dealt hrun
      exact hdealt.wellFormed hwf
  | round h hrun ih =>
      obtain ⟨s'', t, prizeCards, hspent, hs'⟩ := startRound_spent ih hrun
      rw [hs']
      exact hspent.wellFormed ih

/-- **The game deck is empty** at every round boundary. -/
theorem decks_eq (h : Reaches s₀ s) (hwf : WellFormed s₀) :
    s.gameDeck.decks = [] := by
  induction h with
  | dealt hrun =>
      obtain ⟨share, hdealt⟩ := dealCards_dealt hrun
      exact hdealt.decks_eq
  | round h hrun ih =>
      obtain ⟨s'', t, prizeCards, hspent, hs'⟩ :=
        startRound_spent (h.wellFormed hwf) hrun
      rw [hs']
      exact hspent.decks_eq ih

/-- **The cards stay the same** over any number of rounds. -/
theorem allCards_eq (h : Reaches s₀ s) (hwf : WellFormed s₀) :
    allCards s = allCards s₀ := by
  induction h with
  | dealt hrun =>
      obtain ⟨share, hdealt⟩ := dealCards_dealt hrun
      exact allCards_dealt hwf hdealt
  | round h hrun ih =>
      have hwf' := h.wellFormed hwf
      obtain ⟨s'', t, prizeCards, hspent, hs'⟩ := startRound_spent hwf' hrun
      rw [hs', ← ih]
      show allCards s'' = _
      exact allCards_round hwf' (h.decks_eq hwf) hspent

theorem keys_eq (h : Reaches s₀ s) (hwf : WellFormed s₀) :
    s.players.keys = s₀.players.keys := by
  induction h with
  | dealt hrun =>
      obtain ⟨share, hdealt⟩ := dealCards_dealt hrun
      exact hdealt.keys_eq
  | round h hrun ih =>
      obtain ⟨s'', t, prizeCards, hspent, hs'⟩ :=
        startRound_spent (h.wellFormed hwf) hrun
      rw [hs', ← ih]
      exact hspent.keys_eq

/-- **Eliminated players have no cards** at a round boundary. -/
theorem out_empty (h : Reaches s₀ s) (hready : Ready s₀) :
    ∀ id, isOut s id = true → hand s id = [] := by
  induction h with
  | dealt hrun =>
      obtain ⟨share, hdealt⟩ := dealCards_dealt hrun
      intro id hout
      rw [isOut_dealt hdealt] at hout
      obtain ⟨p, hp, -⟩ := isOut_iff.mp hout
      have hin := hready.inGame id (mem_keys_of_some hp)
      rw [not_isOut_of_inGame hin] at hout
      simp at hout
  | round h hrun ih =>
      obtain ⟨s'', t, prizeCards, hspent, hs'⟩ :=
        startRound_spent (h.wellFormed hready.wellFormed) hrun
      rw [hs']
      exact hspent.out_empty ih

/-- **Somebody is in the game** at every round boundary. -/
theorem exists_inGame (h : Reaches s₀ s) (hready : Ready s₀) :
    ∃ id, inGame s id = true := by
  cases h with
  | dealt hrun =>
      obtain ⟨share, hdealt⟩ := dealCards_dealt hrun
      obtain ⟨id, hid⟩ := exists_inGame_of_two hready.two
      exact ⟨id, (hdealt.inGame_eq id).trans hid⟩
  | round h hrun =>
      exact exists_inGame_startRound (h.wellFormed hready.wellFormed) hrun

/-- **The game is over exactly when one player is left.** -/
theorem gameover_iff (h : Reaches s₀ s) (hready : Ready s₀) :
    s.gameover = true ↔ (survivors s).length = 1 := by
  induction h with
  | @dealt fuel s hrun =>
      obtain ⟨share, hdealt⟩ := dealCards_dealt hrun
      have hover := hready.running_dealt hrun
      have hsame : survivors s = survivors s₀ := by
        simp only [survivors]
        rw [hdealt.keys_eq]
        exact List.filter_congr (fun id _ => hdealt.inGame_eq id)
      have htwo := hready.two
      rw [hover, hsame]
      exact ⟨(fun hf => by cases hf), fun hone => by omega⟩
  | @round fuel o s s' h hrun ih =>
      obtain ⟨s'', t, prizeCards, hspent, hs'⟩ :=
        startRound_spent (h.wellFormed hready.wellFormed) hrun
      have hsurv : survivors s' = survivors s'' := by
        rw [hs']
        rfl
      have hover : s'.gameover
          = (s.gameover || decide ((survivors s'').length = 1)) := by
        rw [hs']
      rw [hover, hsurv, Bool.or_eq_true, decide_eq_true_eq, ih]
      constructor
      · rintro (hone | hone)
        · -- the game was over: the last player in it stays
          have hle := length_survivors_le
            (fun id (hin : inGame s'' id = true) => hspent.inGame_of hin)
          obtain ⟨id, hin⟩ := hspent.exists_inGame
          have hpos := List.length_pos_of_mem (mem_survivors.mpr hin)
          omega
        · exact hone
      · exact Or.inr

/-- Somebody in the game has a card, if there are cards. -/
theorem live (h : Reaches s₀ s) (hready : Ready s₀)
    (hcards : allCards s₀ ≠ 0) : Live s := by
  have hwf := h.wellFormed hready.wellFormed
  have hne : handCards s ≠ 0 := by
    intro hzero
    refine hcards ?_
    rw [← h.allCards_eq hready.wellFormed, Conservation.allCards_eq hwf,
      hzero, h.decks_eq hready.wellFormed]
    rfl
  by_contra hnot
  -- without a card in the game all hands are empty
  refine hne (Finset.sum_eq_zero (fun id hid => ?_))
  rcases hwf.inGame_or_isOut (List.mem_toFinset.mp hid) with hin | hout
  · by_cases hnil : hand s id = []
    · rw [hnil]
      rfl
    · exact absurd ⟨id, hin, hnil⟩ hnot
  · rw [h.out_empty hready id hout]
    rfl

end Reaches

/-! ## Runs of `startGame` -/

/-- The state after a number of rounds. -/
def playRounds (fuel : Nat) (os : Nat → Schedule Id) :
    Nat → War Id → Outcome (War Id)
  | 0, s => .done s
  | n + 1, s => do
      let s ← playRounds fuel os n s
      startRound fuel (os n) s

/-- The first round can be split off. -/
theorem playRounds_succ (fuel : Nat) (n : Nat) :
    ∀ (os : Nat → Schedule Id) (s : War Id),
      playRounds fuel os (n + 1) s
        = (startRound fuel (os 0) s >>=
            playRounds fuel (fun m => os (m + 1)) n) := by
  induction n with
  | zero =>
      intro os s
      show startRound fuel (os 0) s = _
      cases startRound fuel (os 0) s <;> rfl
  | succ n ih =>
      intro os s
      show (playRounds fuel os (n + 1) s >>= _) = _
      rw [ih os s]
      cases startRound fuel (os 0) s <;> rfl

/-- More fuel does not change the state after some rounds. -/
theorem playRounds_refines (fuel : Nat) (os : Nat → Schedule Id) (n : Nat)
    (s : War Id) :
    (playRounds fuel os n s).Refines (playRounds (fuel + 1) os n s) := by
  induction n with
  | zero => exact Outcome.Refines.refl _
  | succ n ih =>
      exact Outcome.Refines.bind ih
        (fun t => startRound_refines fuel (os n) t)

/-- What every round keeps, any number of rounds keeps. -/
theorem playRounds_keeps (P : War Id → Prop)
    (hstep : ∀ {fuel : Nat} {o : Schedule Id} {s s' : War Id}, P s →
      startRound fuel o s = .done s' → P s')
    {fuel : Nat} {os : Nat → Schedule Id} {s : War Id} (h : P s) :
    ∀ {n : Nat} {s' : War Id}, playRounds fuel os n s = .done s' → P s' := by
  intro n
  induction n with
  | zero =>
      intro s' hrun
      rw [← Outcome.done.inj hrun]
      exact h
  | succ n ih =>
      intro s' hrun
      obtain ⟨t, ht, hround⟩ := Outcome.bind_eq_done.mp hrun
      exact hstep (ih ht) hround

theorem playRounds_reaches {fuel : Nat} {os : Nat → Schedule Id}
    {s₀ s : War Id} (h : Reaches s₀ s) {n : Nat} {s' : War Id}
    (hrun : playRounds fuel os n s = .done s') : Reaches s₀ s' :=
  playRounds_keeps (Reaches s₀) (fun h hround => h.round hround) h hrun

theorem wellFormed_playRounds {fuel : Nat} {os : Nat → Schedule Id}
    {s : War Id} (hwf : WellFormed s) {n : Nat} {s' : War Id}
    (hrun : playRounds fuel os n s = .done s') : WellFormed s' :=
  playRounds_keeps WellFormed
    (fun h hround => wellFormed_startRound h hround) hwf hrun

/-- **The loop of `startGame`** plays rounds from states in which the game is
    not over until it is. -/
theorem gameLoop_rounds {fuel : Nat} :
    ∀ (rounds : Nat) (os : Nat → Schedule Id) (s s' : War Id),
      gameLoop fuel rounds os s = .done s' → s.gameover = false →
      ∃ n t, playRounds fuel os n s = .done t ∧ t.gameover = false ∧
        startRound fuel (os n) t = .done s' ∧ s'.gameover = true := by
  intro rounds
  induction rounds with
  | zero => intro os s s' h; cases h
  | succ rounds ih =>
      intro os s s' h hover
      simp only [gameLoop] at h
      rw [hover, if_neg Bool.false_ne_true] at h
      obtain ⟨u, hu, h⟩ := Outcome.bind_eq_done.mp h
      obtain ⟨-, -, h⟩ := Outcome.bind_eq_done.mp h
      cases hend : u.gameover with
      | true =>
          -- the loop ends here, if it has the fuel to look at the flag
          have hloop : gameLoop fuel rounds (fun n => os (n + 1)) u
              = .done s' := h
          cases rounds with
          | zero => cases hloop
          | succ rounds =>
              simp only [gameLoop] at hloop
              rw [hend, if_pos rfl] at hloop
              have hsu : u = s' := Outcome.done.inj hloop
              subst hsu
              exact ⟨0, s, rfl, hover, hu, hend⟩
      | false =>
          obtain ⟨n, t, ht, hrest⟩ := ih _ _ _ h hend
          refine ⟨n + 1, t, ?_, hrest⟩
          rw [playRounds_succ, hu]
          exact ht

end Games
