import CardCrucible.Equality
import CardCrucible.Sessions
import CardCrucible.Twins

/-! # Identity — which player is which

    Players are equal if they have the same id and the same name; `=/` compares
    their cards as well.  Nothing a game does changes an id or a name, so
    throughout a session every player is equal to the one last added under its
    id, and to no other. -/

namespace PlayerModel

open Outcomes CardModel

variable {Id : Type}

namespace Player

/-- `Player.init(_:_:_:)`. -/
def create (name : String) (id : Id) (cards : List Card) : Player Id where
  name := name
  playerID := id
  cards := cards
  lastPlayedCard := none

/-- `copy(with:)`. -/
def copy (p : Player Id) : Player Id := create p.name p.playerID p.cards

/-- `hash(into:)`; `combine` is the method of hashers. -/
def hash {Hasher : Type} (combine : Hasher → Id → Hasher) (hasher : Hasher)
    (p : Player Id) : Hasher := combine hasher p.playerID

/-- `Player <`. -/
def isLess [LT Id] [DecidableLT Id] (lhs rhs : Player Id) : Bool :=
  decide (lhs.id < rhs.id)

variable [DecidableEq Id]

/-- `Player ==`. -/
def isEqual (lhs rhs : Player Id) : Bool :=
  lhs.playerID == rhs.playerID && lhs.name == rhs.name

/-- `Player =/`. -/
def isDeeplyEqual (lhs rhs : Player Id) : Outcome Bool :=
  if lhs.isEqual rhs then sameCards lhs.cards rhs.cards else .done false

theorem isEqual_iff {p q : Player Id} :
    p.isEqual q = true ↔ p.id = q.id ∧ p.name = q.name := by
  simp only [isEqual, Bool.and_eq_true, beq_iff_eq]
  rfl

theorem isDeeplyEqual_iff {p q : Player Id} :
    p.isDeeplyEqual q = .done true ↔
      p.isEqual q = true ∧ p.cards = q.cards := by
  simp only [isDeeplyEqual]
  by_cases h : p.isEqual q = true
  · rw [if_pos h, sameCards_eq]
    simp [h]
  · rw [if_neg h]
    simp [h]

/-- Equal players have the same hash. -/
theorem hash_eq {Hasher : Type} (combine : Hasher → Id → Hasher)
    (hasher : Hasher) {p q : Player Id} (h : p.isEqual q = true) :
    p.hash combine hasher = q.hash combine hasher :=
  congrArg (combine hasher) (isEqual_iff.mp h).1

end Player

namespace GamePlayer

/-- `copy(with:)` of the object behind a reference. -/
def copy : GamePlayer Id → GamePlayer Id
  | .player p => .player p.copy
  | .tournament p => .tournament p.copy

/-- **A copy is deeply equal** to its original. -/
theorem isDeeplyEqual_copy [DecidableEq Id] (g : GamePlayer Id) :
    g.copy.toPlayer.isDeeplyEqual g.toPlayer = .done true := by
  rw [Player.isDeeplyEqual_iff, Player.isEqual_iff]
  cases g with
  | player p => exact ⟨⟨rfl, rfl⟩, rfl⟩
  | tournament p => exact ⟨⟨rfl, rfl⟩, rfl⟩

end GamePlayer

end PlayerModel

namespace Identity

open Outcomes Arrangements Dictionaries CardModel DeckModel PlayerModel
open WarModel WarModel.War WarState Dealing Rounds GameStatus RoundLaws
open Games Safety Runs Sessions Twins WarTurn

variable {Id : Type}

/-- The players a call adds. -/
def added : Call Id → List (GamePlayer Id)
  | .addPlayer g => [g]
  | .addPlayers gs => gs
  | .onDeck _ => []
  | .setDeckCards _ => []
  | .dealCards => []
  | .startRound _ => []
  | .updateGameStatus _ => []
  | .startGame _ => []

variable [LinearOrder Id]

/-- **The players are sorted** by `Player <`, which compares ids only: of two
    players the one who places a card first is less. -/
theorem sortedPlayers_isLess {s : War Id} (hwf : WellFormed s) :
    s.sortedPlayers.Pairwise (fun id id' => ∀ g g',
      s.players.get? id = some g → s.players.get? id' = some g' →
        g.toPlayer.isLess g'.toPlayer = true) := by
  have hid : ∀ id g, s.players.get? id = some g → g.toPlayer.id = id := by
    intro id g hg
    obtain ⟨p, hp, hpid⟩ := hwf (id, g) (Dictionary.get?_eq_some.mp hg)
    rw [show g = .tournament p from hp]
    exact hpid
  have hle : s.sortedPlayers.Pairwise (· ≤ ·) := by
    rw [sortedPlayers_eq hwf]
    exact List.pairwise_insertionSort (· ≤ ·) s.players.keys
  have hlt : s.sortedPlayers.Pairwise (· < ·) :=
    hle.imp₂ (fun _ _ hab hne => lt_of_le_of_ne hab hne)
      (nodup_sortedPlayers s)
  refine hlt.imp (fun {a b} hab g g' hg hg' => ?_)
  simp only [Player.isLess]
  rw [hid a g hg, hid b g' hg']
  exact decide_eq_true hab

/-- The last of the players with an id. -/
def lastWith (id : Id) (gs : List (GamePlayer Id)) : Option (GamePlayer Id) :=
  gs.reverse.find? (fun g => g.toPlayer.id = id)

theorem lastWith_append (id : Id) (gs gs' : List (GamePlayer Id)) :
    lastWith id (gs ++ gs') = (lastWith id gs').or (lastWith id gs) := by
  simp only [lastWith]
  rw [List.reverse_append, List.find?_append]

theorem lastWith_singleton (id : Id) (g : GamePlayer Id) :
    lastWith id [g] = if id = g.toPlayer.id then some g else none := by
  by_cases h : id = g.toPlayer.id
  · simp [lastWith, h]
  · simp [lastWith, h, Ne.symm h]

theorem lastWith_some {id : Id} {gs : List (GamePlayer Id)}
    {g : GamePlayer Id} (h : lastWith id gs = some g) :
    g ∈ gs ∧ g.toPlayer.id = id := by
  refine ⟨List.mem_reverse.mp (List.mem_of_find?_eq_some h), ?_⟩
  have hid := List.find?_some h
  exact of_decide_eq_true hid

theorem exists_lastWith {g : GamePlayer Id} {gs : List (GamePlayer Id)}
    (hg : g ∈ gs) : ∃ g', lastWith g.toPlayer.id gs = some g' := by
  refine Option.isSome_iff_exists.mp ?_
  rw [lastWith, List.find?_isSome]
  exact ⟨g, List.mem_reverse.mpr hg, by simp⟩

/-- **The last player added under an id** is the one the game has. -/
theorem tournamentPlayer?_addPlayers (gs : List (GamePlayer Id)) :
    ∀ (s : War Id) (id : Id), (s.addPlayers gs).tournamentPlayer? id
      = ((lastWith id gs).map entrant).or (s.tournamentPlayer? id) := by
  induction gs with
  | nil => intro s id; rfl
  | cons g gs ih =>
      intro s id
      show ((s.addPlayer g).addPlayers gs).tournamentPlayer? id = _
      rw [ih, tournamentPlayer?_addPlayer, ← List.singleton_append,
        lastWith_append, lastWith_singleton]
      by_cases h : id = g.toPlayer.id
      · rw [if_pos h, if_pos h]
        cases lastWith id gs <;> rfl
      · rw [if_neg h, if_neg h]
        cases lastWith id gs <;> rfl

omit [LinearOrder Id] in
theorem name_entrant (g : GamePlayer Id) :
    (entrant g).name = g.toPlayer.name := by
  cases g <;> rfl

/-! ## Names over sessions -/

/-- The name that is known of an id once players have been added. -/
def newName (gs : List (GamePlayer Id)) (s : War Id) (id : Id) :
    Option String :=
  ((lastWith id gs).map (fun g => g.toPlayer.name)).or (nameOf s id)

theorem nameOf_of_some {s : War Id} {id : Id} {p : TournamentPlayer Id}
    (hp : s.tournamentPlayer? id = some p) : nameOf s id = some p.name := by
  simp only [nameOf]
  rw [hp]
  rfl

theorem nameOf_addPlayers (gs : List (GamePlayer Id)) (s : War Id) (id : Id) :
    nameOf (s.addPlayers gs) id = newName gs s id := by
  simp only [nameOf, newName]
  rw [tournamentPlayer?_addPlayers]
  cases lastWith id gs with
  | none => rfl
  | some g => exact congrArg some (name_entrant g)

theorem nameOf_startRound {s t : War Id} (hwf : WellFormed s) {fuel : Nat}
    {o : Schedule Id} (h : War.startRound fuel o s = .done t) (id : Id) :
    nameOf t id = nameOf s id := by
  obtain ⟨t', u, prizeCards, hspent, ht⟩ := startRound_spent hwf h
  rw [ht]
  exact hspent.name_eq id

/-- **One call** changes no name but those of the players it adds. -/
theorem nameOf_perform {s t : War Id} (hwf : WellFormed s) {fuel rounds : Nat}
    {c : Call Id} (h : perform fuel rounds c s = .done t) (id : Id) :
    nameOf t id = newName (added c) s id := by
  cases c with
  | addPlayer g =>
      rw [← Outcome.done.inj h]
      exact nameOf_addPlayers [g] s id
  | addPlayers gs =>
      rw [← Outcome.done.inj h]
      exact nameOf_addPlayers gs s id
  | onDeck op =>
      obtain ⟨a, -, ha⟩ := Outcome.bind_eq_done.mp h
      rw [← Outcome.done.inj ha]
      rfl
  | setDeckCards newValue =>
      rw [← Outcome.done.inj h]
      rfl
  | dealCards =>
      obtain ⟨share, hdealt⟩ := dealCards_dealt h
      exact hdealt.name_eq id
  | startRound o => exact nameOf_startRound hwf h id
  | updateGameStatus order =>
      obtain ⟨b, hb⟩ := updateGameStatus_frame order s
      rw [← Outcome.done.inj h, hb]
      rfl
  | startGame os =>
      obtain ⟨⟨u, line⟩, hu, ht⟩ := Outcome.bind_eq_done.mp h
      rw [← Outcome.done.inj ht]
      have hsame : ∀ id, nameOf u id = nameOf s id := by
        refine startGame_relates (P := WellFormed)
          (R := fun a b => ∀ id, nameOf b id = nameOf a id)
          (fun _ _ => rfl) (fun hab hbc id => (hbc id).trans (hab id)) ?_ ?_ hu
        · intro o a b ha hround
          exact ⟨wellFormed_startRound ha hround, nameOf_startRound ha hround⟩
        · intro d share hdealt
          exact ⟨hdealt.wellFormed hwf, hdealt.name_eq⟩
      exact hsame id

theorem newName_append (gs gs' : List (GamePlayer Id)) (s : War Id)
    (id : Id) : newName (gs ++ gs') s id
      = ((lastWith id gs').map (fun g => g.toPlayer.name)).or
          (newName gs s id) := by
  simp only [newName]
  rw [lastWith_append]
  cases lastWith id gs' <;> rfl

/-- **A session** knows a player by the name it was last added with. -/
theorem nameOf_session {fuel rounds : Nat} (cs : List (Call Id)) :
    ∀ {s t : War Id}, WellFormed s →
      performAll fuel rounds cs s = .done t →
      ∀ id, nameOf t id = newName (cs.flatMap added) s id := by
  induction cs with
  | nil =>
      intro s t _ h id
      rw [← Outcome.done.inj h]
      rfl
  | cons c cs ih =>
      intro s t hwf h id
      obtain ⟨u, hu, hrest⟩ := Outcome.bind_eq_done.mp h
      have hkept := kept_perform hwf c hu
      have hlater : nameOf t id = newName (cs.flatMap added) u id :=
        ih (hkept.wellFormed hwf) hrest id
      rw [List.flatMap_cons, newName_append, ← nameOf_perform hwf hu]
      exact hlater

omit [LinearOrder Id] in
/-- The ids a call registers are those of the players it adds. -/
theorem registered_eq (c : Call Id) :
    registered c = (added c).map (fun g => g.toPlayer.id) := by
  cases c <;> rfl

theorem lastWith_of_notMem {cs : List (Call Id)} {id : Id}
    (h : id ∉ cs.flatMap registered) :
    lastWith id (cs.flatMap added) = none := by
  refine Option.eq_none_iff_forall_ne_some.mpr (fun g hg => h ?_)
  obtain ⟨hmem, hid⟩ := lastWith_some hg
  obtain ⟨c, hc, hgc⟩ := List.mem_flatMap.mp hmem
  refine List.mem_flatMap.mpr ⟨c, hc, ?_⟩
  rw [registered_eq, ← hid]
  exact List.mem_map_of_mem hgc

section Session

variable {fuel₀ : Nat} {random : Nat → Arrangement Card} {n : Int}
variable {w : War Id}

/-- A player is equal to the one last added under its id. -/
theorem isEqual_added (hinit : War.init fuel₀ random n = .done w)
    {fuel rounds fuel' rounds' : Nat} {before after : List (Call Id)}
    {s t : War Id} (hs : performAll fuel rounds before w = .done s)
    (ht : performAll fuel' rounds' after s = .done t) (hwft : WellFormed t)
    {id : Id} {p : TournamentPlayer Id}
    (hp : t.tournamentPlayer? id = some p) :
    ∃ g, lastWith id ((before ++ after).flatMap added) = some g ∧
      p.toPlayer.isEqual g.toPlayer = true := by
  have hwf := wellFormed_init hinit
  have hwfs := (session_kept hwf before hs).wellFormed hwf
  -- a new game knows no name
  have hnone : nameOf w id = none := by
    simp only [nameOf, tournamentPlayer?]
    rw [(init_eq hinit).2.1]
    rfl
  have hall : nameOf t id
      = newName ((before ++ after).flatMap added) w id := by
    rw [nameOf_session after hwfs ht, List.flatMap_append, newName_append,
      ← nameOf_session before hwf hs]
    rfl
  rw [nameOf_of_some hp] at hall
  simp only [newName] at hall
  rw [hnone, Option.or_none] at hall
  obtain ⟨g, hg, hgname⟩ := Option.map_eq_some_iff.mp hall.symm
  refine ⟨g, hg, Player.isEqual_iff.mpr ⟨?_, hgname.symm⟩⟩
  rw [(lastWith_some hg).2]
  exact hwft.playerID hp

/-- Only players under one id are equal. -/
theorem isEqual_iff_same {t : War Id} (hwf : WellFormed t) {id id' : Id}
    {p q : TournamentPlayer Id} (hp : t.tournamentPlayer? id = some p)
    (hq : t.tournamentPlayer? id' = some q) :
    p.toPlayer.isEqual q.toPlayer = true ↔ id = id' := by
  constructor
  · intro heq
    rw [← hwf.playerID hp, ← hwf.playerID hq]
    exact (Player.isEqual_iff.mp heq).1
  · intro heq
    rw [heq] at hp
    rw [Option.some.inj (hp.symm.trans hq)]
    exact Player.isEqual_iff.mpr ⟨rfl, rfl⟩

/-- A player stays equal to what it was, and deeply so once it is out. -/
theorem isEqual_before {fuel rounds : Nat} {cs : List (Call Id)}
    {s t : War Id} (hwf : WellFormed s)
    (ht : performAll fuel rounds cs s = .done t) {id : Id}
    (hnew : id ∉ cs.flatMap registered) {p q : TournamentPlayer Id}
    (hp : t.tournamentPlayer? id = some p)
    (hq : s.tournamentPlayer? id = some q) :
    p.toPlayer.isEqual q.toPlayer = true ∧
      (isOut s id = true →
        p.toPlayer.isDeeplyEqual q.toPlayer = .done true) := by
  have hkept := session_kept hwf cs ht
  have hid : p.toPlayer.id = q.toPlayer.id :=
    ((hkept.wellFormed hwf).playerID hp).trans (hwf.playerID hq).symm
  have hname : nameOf t id = nameOf s id := by
    rw [nameOf_session cs hwf ht]
    simp only [newName]
    rw [lastWith_of_notMem hnew]
    rfl
  rw [nameOf_of_some hp, nameOf_of_some hq] at hname
  have hequal : p.toPlayer.isEqual q.toPlayer = true :=
    Player.isEqual_iff.mpr ⟨hid, Option.some.inj hname⟩
  refine ⟨hequal, fun hout => ?_⟩
  have hpq := hkept.out id hnew hout
  rw [hp, hq] at hpq
  refine Player.isDeeplyEqual_iff.mpr ⟨hequal, ?_⟩
  rw [Option.some.inj hpq]

/-- **Equality identifies a player throughout a session**: every player of a
    game is equal to the one last added under its id and to no other player of
    the game; and unless its id is added again, it stays equal to what it was,
    deeply so once it is out. -/
theorem session_identity (hinit : War.init fuel₀ random n = .done w)
    {fuel rounds fuel' rounds' : Nat} {before after : List (Call Id)}
    {s t : War Id} (hs : performAll fuel rounds before w = .done s)
    (ht : performAll fuel' rounds' after s = .done t) {id : Id}
    {p : TournamentPlayer Id} (hp : t.tournamentPlayer? id = some p) :
    (∃ g, lastWith id ((before ++ after).flatMap added) = some g ∧
        p.toPlayer.isEqual g.toPlayer = true) ∧
      (∀ id' q, t.tournamentPlayer? id' = some q →
        (p.toPlayer.isEqual q.toPlayer = true ↔ id = id')) ∧
      (id ∉ after.flatMap registered →
        ∀ q, s.tournamentPlayer? id = some q →
          p.toPlayer.isEqual q.toPlayer = true ∧
          (isOut s id = true →
            p.toPlayer.isDeeplyEqual q.toPlayer = .done true)) := by
  have hwf := wellFormed_init hinit
  have hwfs := (session_kept hwf before hs).wellFormed hwf
  have hwft := (session_kept hwfs after ht).wellFormed hwfs
  refine ⟨isEqual_added hinit hs ht hwft hp, ?_, ?_⟩
  · intro id' q hq
    exact isEqual_iff_same hwft hp hq
  · intro hnew q hq
    exact isEqual_before hwfs ht hnew hp hq

end Session

/-- The session of two players in which the second goes out and a third is
    added: the second is deeply equal to what it was. -/
theorem session_identity_two :
    ∃ w, War.init 0 (fun _ => .keep) 0 = .done w ∧
      ∃ s, performAll 5 5 Sessions.before w = .done s ∧
      ∃ t, performAll 5 5 Sessions.after s = .done t ∧
      ∃ p q, t.tournamentPlayer? "B" = some p ∧
        s.tournamentPlayer? "B" = some q ∧
        p.toPlayer.isDeeplyEqual q.toPlayer = .done true := by
  have hrun : ∃ w : War String, War.init 0 (fun _ => .keep) 0 = .done w ∧
      ∃ s, performAll 5 5 Sessions.before w = .done s ∧
      ∃ t, performAll 5 5 Sessions.after s = .done t ∧ isOut s "B" = true ∧
        (t.tournamentPlayer? "B").isSome = true := by
    decide +kernel
  obtain ⟨w, hinit, s, hs, t, ht, hout, hsome⟩ := hrun
  obtain ⟨p, hp⟩ := Option.isSome_iff_exists.mp hsome
  obtain ⟨q, hq, -⟩ := isOut_iff.mp hout
  exact ⟨w, hinit, s, hs, t, ht, p, q, hp, hq,
    ((session_identity hinit hs ht hp).2.2 (by decide) q hq).2 hout⟩

end Identity
