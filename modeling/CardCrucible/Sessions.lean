import CardCrucible.DeckAccounts
import CardCrucible.Runs
import CardCrucible.Safety

/-! # Sessions — the methods of a game, called in any order

    `startGame` calls the methods of `War` in one order, but they can all be
    called from outside, by a view or a test: players are added to a game that
    runs, cards are drawn from its deck, rounds are played by hand.  A session
    is any list of such calls.

    `Kept` says what a call never changes: every player stays a tournament
    player under its own id, nobody is unregistered, a finished game stays
    finished, and a player who is out is out as it is, unless a player with its
    id is added.  It composes, so it holds of whole sessions. -/

namespace Sessions

open Outcomes Arrangements Dictionaries CardModel DeckModel PlayerModel
open WarModel WarModel.War WarState Spending Dealing Rounds GameStatus
open RoundLaws Games Draws Safety DeckAccounts Runs

variable {Id : Type}

/-- A call of a method of `War` or of its deck. -/
inductive Call (Id : Type) where
  | addPlayer (player : GamePlayer Id)
  | addPlayers (players : List (GamePlayer Id))
  | onDeck (op : Operation)
  | setDeckCards (newValue : List Card)
  | dealCards
  | startRound (o : Schedule Id)
  | updateGameStatus (order : Arrangement (Id × GamePlayer Id))
  | startGame (os : Nat → Schedule Id)

/-- The ids a call registers. -/
def registered : Call Id → List Id
  | .addPlayer g => [g.toPlayer.id]
  | .addPlayers gs => gs.map (fun g => g.toPlayer.id)
  | .onDeck _ => []
  | .setDeckCards _ => []
  | .dealCards => []
  | .startRound _ => []
  | .updateGameStatus _ => []
  | .startGame _ => []

variable [LinearOrder Id]

/-- Make a call.  `fuel` is for the loops of one round or one deal, `rounds`
    for the loop of `startGame`. -/
def perform (fuel rounds : Nat) : Call Id → War Id → Outcome (War Id)
  | .addPlayer g, s => .done (s.addPlayer g)
  | .addPlayers gs, s => .done (s.addPlayers gs)
  | .onDeck op, s => do
      let a ← Account.perform ⟨s.gameDeck, []⟩ op
      return { s with gameDeck := a.deck }
  | .setDeckCards newValue, s =>
      .done { s with gameDeck := s.gameDeck.setDeckCards newValue }
  | .dealCards, s => War.dealCards fuel s
  | .startRound o, s => War.startRound fuel o s
  | .updateGameStatus order, s => .done (s.updateGameStatus order)
  | .startGame os, s => do
      let (s, _) ← War.startGame fuel rounds os s
      return s

/-- Make a list of calls. -/
abbrev performAll (fuel rounds : Nat) (cs : List (Call Id)) (s : War Id) :
    Outcome (War Id) := runAll (perform fuel rounds) cs s

/-! ## What every call keeps -/

/-- From `s` to `t` nothing happens to the registry but that `ids` are
    added. -/
structure Kept (ids : List Id) (s t : War Id) : Prop where
  wellFormed : WellFormed s → WellFormed t
  winner : WinnerRegistered s → WinnerRegistered t
  stay : ∀ id ∈ s.players.keys, id ∈ t.players.keys
  new : ∀ id ∈ t.players.keys, id ∈ s.players.keys ∨ id ∈ ids
  gameover : s.gameover = true → t.gameover = true
  out : ∀ id, id ∉ ids → isOut s id = true →
    t.tournamentPlayer? id = s.tournamentPlayer? id
  inGame : ∀ id, id ∉ ids → inGame t id = true → inGame s id = true

namespace Kept

variable {ids ids' : List Id} {s t u : War Id}

theorem refl (ids : List Id) (s : War Id) : Kept ids s s where
  wellFormed := id
  winner := id
  stay := fun _ h => h
  new := fun _ h => Or.inl h
  gameover := id
  out := fun _ _ _ => rfl
  inGame := fun _ _ h => h

theorem trans (h : Kept ids s t) (h' : Kept ids t u) : Kept ids s u where
  wellFormed := fun hwf => h'.wellFormed (h.wellFormed hwf)
  winner := fun hw => h'.winner (h.winner hw)
  stay := fun id hid => h'.stay id (h.stay id hid)
  new := by
    intro id hid
    rcases h'.new id hid with ht | hids
    · exact h.new id ht
    · exact Or.inr hids
  gameover := fun hover => h'.gameover (h.gameover hover)
  out := by
    intro id hid hout
    have hsame := h.out id hid hout
    have hout' : isOut t id = true := (isOut_congr hsame).trans hout
    exact (h'.out id hid hout').trans hsame
  inGame := fun id hid hin => h.inGame id hid (h'.inGame id hid hin)

theorem mono (h : Kept ids s t) (hsub : ∀ id ∈ ids, id ∈ ids') :
    Kept ids' s t where
  wellFormed := h.wellFormed
  winner := h.winner
  stay := h.stay
  new := fun id hid => (h.new id hid).imp_right (hsub id)
  gameover := h.gameover
  out := fun id hid => h.out id (fun hmem => hid (hsub id hmem))
  inGame := fun id hid => h.inGame id (fun hmem => hid (hsub id hmem))

/-- The deck is no part of the registry. -/
theorem deck (s : War Id) (d : Deck) : Kept [] s { s with gameDeck := d } where
  wellFormed := id
  winner := id
  stay := fun _ h => h
  new := fun _ h => Or.inl h
  gameover := id
  out := fun _ _ _ => rfl
  inGame := fun _ _ h => h

end Kept

theorem tournamentPlayer?_addPlayer (s : War Id) (g : GamePlayer Id)
    (id : Id) :
    (s.addPlayer g).tournamentPlayer? id
      = if id = g.toPlayer.id then some (entrant g)
        else s.tournamentPlayer? id := by
  rw [addPlayer_eq, id_entrant]
  simp only [tournamentPlayer?, setPlayer]
  by_cases h : id = g.toPlayer.id
  · rw [if_pos h, h, Dictionary.get?_set_self]
    rfl
  · rw [if_neg h, Dictionary.get?_set_of_ne _ _ h]

theorem wellFormed_addPlayer {s : War Id} (hwf : WellFormed s)
    (g : GamePlayer Id) : WellFormed (s.addPlayer g) := by
  intro e he
  obtain ⟨id, v⟩ := e
  have hget : (s.addPlayer g).players.get? id = some v :=
    Dictionary.get?_eq_some.mpr he
  rw [addPlayer_eq, id_entrant] at hget
  simp only [setPlayer] at hget
  by_cases h : id = g.toPlayer.id
  · rw [h, Dictionary.get?_set_self] at hget
    refine ⟨entrant g, (Option.some.inj hget).symm, ?_⟩
    rw [h]
    exact id_entrant g
  · rw [Dictionary.get?_set_of_ne _ _ h] at hget
    exact hwf (id, v) (Dictionary.get?_eq_some.mp hget)

theorem mem_keys_addPlayer {s : War Id} {g : GamePlayer Id} {id : Id} :
    id ∈ (s.addPlayer g).players.keys
      ↔ id = g.toPlayer.id ∨ id ∈ s.players.keys := by
  rw [addPlayer_eq, id_entrant]
  exact Dictionary.mem_keys_set

theorem kept_addPlayer (s : War Id) (g : GamePlayer Id) :
    Kept [g.toPlayer.id] s (s.addPlayer g) where
  wellFormed := fun hwf => wellFormed_addPlayer hwf g
  winner := by
    intro hwinner w hw
    have hsame : (s.addPlayer g).roundWinner = s.roundWinner := by
      cases g <;> rfl
    exact mem_keys_addPlayer.mpr (Or.inr (hwinner w (hsame.symm.trans hw)))
  stay := fun id hid => mem_keys_addPlayer.mpr (Or.inr hid)
  new := by
    intro id hid
    rcases mem_keys_addPlayer.mp hid with h | h
    · exact Or.inr (List.mem_singleton.mpr h)
    · exact Or.inl h
  gameover := by
    intro hover
    cases g <;> exact hover
  out := by
    intro id hid _
    rw [tournamentPlayer?_addPlayer,
      if_neg (fun h => hid (List.mem_singleton.mpr h))]
  inGame := by
    intro id hid hin
    have hsame : (s.addPlayer g).tournamentPlayer? id
        = s.tournamentPlayer? id := by
      rw [tournamentPlayer?_addPlayer,
        if_neg (fun h => hid (List.mem_singleton.mpr h))]
    rw [inGame_congr hsame] at hin
    exact hin

theorem kept_addPlayers (gs : List (GamePlayer Id)) :
    ∀ s : War Id, Kept (gs.map (fun g => g.toPlayer.id)) s
      (s.addPlayers gs) := by
  induction gs with
  | nil => intro s; exact Kept.refl _ s
  | cons g gs ih =>
      intro s
      refine Kept.trans (t := s.addPlayer g) ?_ ?_
      · refine (kept_addPlayer s g).mono ?_
        intro id hid
        rw [List.mem_singleton.mp hid]
        exact List.mem_cons_self
      · exact (ih (s.addPlayer g)).mono
          (fun id hid => List.mem_cons_of_mem _ hid)

theorem kept_dealt {s t : War Id} {share : Id → List Card}
    {rest : List Card} (h : Dealt s t share rest) : Kept [] s t where
  wellFormed := h.wellFormed
  winner := by
    intro hwinner w hw
    rw [h.state] at hw
    rw [h.keys_eq]
    exact hwinner w hw
  stay := fun id hid => by
    rw [h.keys_eq]
    exact hid
  new := fun id hid => by
    rw [h.keys_eq] at hid
    exact Or.inl hid
  gameover := fun hover => by
    rw [h.state]
    exact hover
  out := fun id _ hout => h.of_not_inGame (inGame_eq_false_of_isOut hout)
  inGame := fun id _ hin => (h.inGame_eq id).symm.trans hin

theorem kept_startRound {s t : War Id} (hwf : WellFormed s) {fuel : Nat}
    {o : Schedule Id} (h : War.startRound fuel o s = .done t) :
    Kept [] s t := by
  obtain ⟨t', u, prizeCards, hspent, ht⟩ := startRound_spent hwf h
  have hkeys : t.players.keys = s.players.keys := by
    rw [ht]
    exact hspent.keys_eq
  refine ⟨fun _ => wellFormed_startRound hwf h,
    fun _ => winnerRegistered_startRound hwf h, ?_, ?_, ?_, ?_, ?_⟩
  · intro id hid
    rw [hkeys]
    exact hid
  · intro id hid
    rw [hkeys] at hid
    exact Or.inl hid
  · intro hover
    rw [ht, hover]
    rfl
  · intro id _ hout
    rw [ht]
    exact (hspent.out_unchanged hout).2
  · intro id _ hin
    rw [ht] at hin
    exact hspent.inGame_of hin

theorem kept_updateGameStatus (order : Arrangement (Id × GamePlayer Id))
    (s : War Id) : Kept [] s (s.updateGameStatus order) := by
  have hover : s.gameover = true →
      (s.updateGameStatus order).gameover = true := by
    intro hover
    simp only [War.updateGameStatus]
    cases countNotEliminated (order.arrange s.players.entries) 0 with
    | none => exact hover
    | some n =>
        by_cases hn : n = 1 ∨ n = s.numPlayers
        · simp only [if_pos hn]
        · simp only [if_neg hn]
          exact hover
  obtain ⟨b, hb⟩ := updateGameStatus_frame order s
  rw [hb] at hover ⊢
  exact ⟨id, id, fun _ h => h, fun _ h => Or.inl h, hover,
    fun _ _ _ => rfl, fun _ _ h => h⟩

/-- What a deal and every round relate, a whole game relates. -/
theorem startGame_relates {P : War Id → Prop} {R : War Id → War Id → Prop}
    {fuel : Nat} (hrefl : ∀ s, R s s)
    (htrans : ∀ {s t u}, R s t → R t u → R s u)
    (hround : ∀ o s t, P s → War.startRound fuel o s = .done t →
      P t ∧ R s t)
    {s t : War Id} (hdeal : ∀ d share, Dealt s d share [] → P d ∧ R s d)
    {rounds : Nat} {os : Nat → Schedule Id} {line : String}
    (h : War.startGame fuel rounds os s = .done (t, line)) : R s t := by
  have hloop : ∀ (rounds : Nat) (os : Nat → Schedule Id) (d u : War Id),
      P d → gameLoop fuel rounds os d = .done u → R d u := by
    intro rounds
    induction rounds with
    | zero => intro os d u _ h; cases h
    | succ rounds ih =>
        intro os d u hd h
        simp only [gameLoop] at h
        cases hover : d.gameover with
        | true =>
            rw [hover, if_pos rfl] at h
            rw [← Outcome.done.inj h]
            exact hrefl d
        | false =>
            rw [hover, if_neg Bool.false_ne_true] at h
            obtain ⟨v, hv, h⟩ := Outcome.bind_eq_done.mp h
            obtain ⟨-, -, h⟩ := Outcome.bind_eq_done.mp h
            obtain ⟨hPv, hRv⟩ := hround (os 0) d v hd hv
            exact htrans hRv (ih _ v u hPv h)
  simp only [War.startGame] at h
  by_cases htwo : 1 < s.numPlayers
  · rw [if_pos htwo] at h
    obtain ⟨d, hd, h⟩ := Outcome.bind_eq_done.mp h
    obtain ⟨u, hu, h⟩ := Outcome.bind_eq_done.mp h
    obtain ⟨line', -, h⟩ := Outcome.bind_eq_done.mp h
    have hut : u = t := congrArg Prod.fst (Outcome.done.inj h)
    obtain ⟨share, hdealt⟩ := dealCards_dealt hd
    obtain ⟨hPd, hRd⟩ := hdeal d share hdealt
    rw [← hut]
    exact htrans hRd (hloop rounds os d u hPd hu)
  · rw [if_neg htwo] at h
    simp at h

theorem kept_startGame {s t : War Id} (hwf : WellFormed s) {fuel rounds : Nat}
    {os : Nat → Schedule Id} {line : String}
    (h : War.startGame fuel rounds os s = .done (t, line)) : Kept [] s t := by
  refine startGame_relates (P := WellFormed) (Kept.refl [])
    (fun huv hvw => huv.trans hvw) ?_ ?_ h
  · intro o u v hu hround
    exact ⟨wellFormed_startRound hu hround, kept_startRound hu hround⟩
  · intro d share hdealt
    exact ⟨hdealt.wellFormed hwf, kept_dealt hdealt⟩

/-- **One call** keeps the registry. -/
theorem kept_perform {s t : War Id} (hwf : WellFormed s) {fuel rounds : Nat}
    (c : Call Id) (h : perform fuel rounds c s = .done t) :
    Kept (registered c) s t := by
  cases c with
  | addPlayer g =>
      rw [← Outcome.done.inj h]
      exact kept_addPlayer s g
  | addPlayers gs =>
      rw [← Outcome.done.inj h]
      exact kept_addPlayers gs s
  | onDeck op =>
      obtain ⟨a, -, ha⟩ := Outcome.bind_eq_done.mp h
      rw [← Outcome.done.inj ha]
      exact Kept.deck s a.deck
  | setDeckCards newValue =>
      rw [← Outcome.done.inj h]
      exact Kept.deck s _
  | dealCards =>
      obtain ⟨share, hdealt⟩ := dealCards_dealt h
      exact kept_dealt hdealt
  | startRound o => exact kept_startRound hwf h
  | updateGameStatus order =>
      rw [← Outcome.done.inj h]
      exact kept_updateGameStatus order s
  | startGame os =>
      obtain ⟨⟨u, line⟩, hu, ht⟩ := Outcome.bind_eq_done.mp h
      rw [← Outcome.done.inj ht]
      exact kept_startGame hwf hu

/-- **Any session** keeps the registry: from a state in which every player is
    a tournament player under its own id and the round winner is registered,
    whatever calls are made and whatever comes of them. -/
theorem session_kept {s t : War Id} (hwf : WellFormed s) {fuel rounds : Nat}
    (cs : List (Call Id)) (h : performAll fuel rounds cs s = .done t) :
    Kept (cs.flatMap registered) s t := by
  refine runAll_relates (P := WellFormed) (R := Kept (cs.flatMap registered))
    ?_ ?_ ?_ cs ?_ hwf h
  · intro c u v hu hc
    exact (kept_perform hu c hc).wellFormed hu
  · exact Kept.refl _
  · intro u v w huv hvw
    exact huv.trans hvw
  · intro c hmem u v hu hc
    refine (kept_perform hu c hc).mono ?_
    intro id hid
    exact List.mem_flatMap.mpr ⟨c, hmem, hid⟩

/-- A call registers its ids. -/
theorem mem_keys_of_registered {s t : War Id} {fuel rounds : Nat}
    {c : Call Id} (h : perform fuel rounds c s = .done t) {id : Id}
    (hid : id ∈ registered c) : id ∈ t.players.keys := by
  cases c with
  | addPlayer g =>
      rw [← Outcome.done.inj h]
      exact mem_keys_addPlayer.mpr (Or.inl (List.mem_singleton.mp hid))
  | addPlayers gs =>
      have hall : ∀ (gs : List (GamePlayer Id)) (s : War Id) {id : Id},
          id ∈ gs.map (fun g => g.toPlayer.id) →
          id ∈ (s.addPlayers gs).players.keys := by
        intro gs
        induction gs with
        | nil => intro s id hid; cases hid
        | cons g gs ih =>
            intro s id hid
            rcases List.mem_cons.mp hid with hid | hid
            · refine (kept_addPlayers gs (s.addPlayer g)).stay id ?_
              exact mem_keys_addPlayer.mpr (Or.inl hid)
            · exact ih (s.addPlayer g) hid
      rw [← Outcome.done.inj h]
      exact hall gs s hid
  | onDeck op => cases hid
  | setDeckCards newValue => cases hid
  | dealCards => cases hid
  | startRound o => cases hid
  | updateGameStatus order => cases hid
  | startGame os => cases hid

theorem mem_keys_of_session {fuel rounds : Nat} (cs : List (Call Id)) :
    ∀ {s t : War Id}, WellFormed s →
      performAll fuel rounds cs s = .done t →
      ∀ id ∈ cs.flatMap registered, id ∈ t.players.keys := by
  induction cs with
  | nil => intro s t _ _ id hid; cases hid
  | cons c cs ih =>
      intro s t hwf h id hid
      obtain ⟨u, hu, hrest⟩ := Outcome.bind_eq_done.mp h
      have hwfu := (kept_perform hwf c hu).wellFormed hwf
      rcases List.mem_append.mp hid with hc | hcs
      · exact (session_kept hwfu cs hrest).stay id
          (mem_keys_of_registered hu hc)
      · exact ih hwfu hrest id hcs

/-! ## Sessions of a new game -/

section NewSession

variable {fuel₀ : Nat} {random : Nat → Arrangement Card} {n : Int}
variable {w : War Id}

omit [LinearOrder Id] in
theorem wellFormed_init (h : War.init fuel₀ random n = .done w) :
    WellFormed w := by
  intro e he
  rw [(init_eq h).2.1] at he
  cases he

theorem winnerRegistered_init (h : War.init fuel₀ random n = .done w) :
    WinnerRegistered w := by
  have hnone : (w.addPlayers []).roundWinner = none := newGame_roundWinner h
  intro v hv
  cases hnone.symm.trans hv

/-- **The registry of a game**, over all orders of calls: its players are the
    ids that were ever added, each with a tournament player under its own id;
    the round winner is one of them; a finished game stays finished; and unless
    its id is added again, a player who is out stays as it is and nobody gets
    back in. -/
theorem session_registry (hinit : War.init fuel₀ random n = .done w)
    {fuel rounds fuel' rounds' : Nat} {before after : List (Call Id)}
    {s t : War Id} (hs : performAll fuel rounds before w = .done s)
    (ht : performAll fuel' rounds' after s = .done t) :
    WellFormed t ∧ WinnerRegistered t ∧
      (∀ id, id ∈ t.players.keys ↔
        id ∈ (before ++ after).flatMap registered) ∧
      (s.gameover = true → t.gameover = true) ∧
      ∀ id, id ∉ after.flatMap registered →
        (isOut s id = true →
          t.tournamentPlayer? id = s.tournamentPlayer? id) ∧
        (inGame t id = true → inGame s id = true) := by
  have hwf := wellFormed_init hinit
  have hbefore := session_kept hwf before hs
  have hwfs := hbefore.wellFormed hwf
  have hafter := session_kept hwfs after ht
  refine ⟨hafter.wellFormed hwfs,
    hafter.winner (hbefore.winner (winnerRegistered_init hinit)), ?_,
    hafter.gameover, fun id hid => ⟨hafter.out id hid, hafter.inGame id hid⟩⟩
  intro id
  rw [List.flatMap_append, List.mem_append]
  constructor
  · intro hid
    rcases hafter.new id hid with hids | hids
    · rcases hbefore.new id hids with hidw | hid'
      · -- a new game has no players
        rw [(init_eq hinit).2.1] at hidw
        cases hidw
      · exact Or.inl hid'
    · exact Or.inr hids
  · rintro (hid | hid)
    · exact hafter.stay id (mem_keys_of_session before hwf hs id hid)
    · exact mem_keys_of_session after hwfs ht id hid

end NewSession

/-- Two players and three cards: the second player is out after two rounds,
    and a third is added to the finished game. -/
def before : List (Call String) :=
  [.setDeckCards (cardsAt [48, 0, 44]), .addPlayers twoSeats, .dealCards,
    .startRound inOrder, .startRound inOrder]

def after : List (Call String) :=
  [.addPlayer (.player ⟨"C", "C", cardsAt [50], none⟩),
    .startRound inOrder, .updateGameStatus .keep]

theorem session_registry_two :
    ∃ w, War.init 0 (fun _ => .keep) 0 = .done w ∧
      ∃ s, performAll 5 5 before w = .done s ∧
      ∃ t, performAll 5 5 after s = .done t ∧
        isOut s "B" = true ∧
        t.tournamentPlayer? "B" = s.tournamentPlayer? "B" := by
  have hrun : ∃ w : War String, War.init 0 (fun _ => .keep) 0 = .done w ∧
      ∃ s, performAll 5 5 before w = .done s ∧
      ∃ t, performAll 5 5 after s = .done t ∧ isOut s "B" = true := by
    decide +kernel
  obtain ⟨w, hinit, s, hs, t, ht, hout⟩ := hrun
  exact ⟨w, hinit, s, hs, t, ht, hout,
    ((session_registry hinit hs ht).2.2.2.2 "B" (by decide)).1 hout⟩

end Sessions
