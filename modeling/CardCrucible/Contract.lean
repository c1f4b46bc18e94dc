import CardCrucible.Sessions

/-! # The contract of a game — which sessions trap

    A call is legal in a state if its preconditions hold there: cards are dealt
    to somebody, a round has a card to compare, a game has two players and
    something to play with.  `startGame` does not check the last point itself;
    it holds as soon as somebody in the game has a card or the deck has one.

    A session never traps, whatever its fuel, exactly when every call is legal
    in the state in which it is made.  Nothing else can go wrong: no cast to a
    tournament player, no index and no force unwrap fails on the way. -/

namespace Contract

open Outcomes Arrangements Dictionaries CardModel DeckModel PlayerModel
open WarModel WarModel.War WarState Dealing Rounds GameStatus RoundLaws Games
open Safety DeckAccounts Runs Sessions

variable {Id : Type} [LinearOrder Id]

/-- A game that can start: there are two players, and if a round is going to
    be played, somebody has a card for it. -/
def Startable (s : War Id) : Prop :=
  1 < s.numPlayers ∧
    (s.gameover = true ∨ (∀ id, inGame s id = false) ∨
      s.gameDeck.decks ≠ [] ∨ Live s)

/-- The preconditions of a call. -/
def Legal (s : War Id) : Call Id → Prop
  | .addPlayer _ => True
  | .addPlayers _ => True
  | .onDeck _ => True
  | .setDeckCards _ => True
  | .dealCards => s.players.keys ≠ []
  | .startRound _ => Live s
  | .updateGameStatus _ => True
  | .startGame _ => Startable s

/-! ## Legal calls -/

/-- Whoever has a card keeps it when cards are dealt. -/
theorem live_dealt {s t : War Id} {share : Id → List Card}
    {rest : List Card} (h : Dealt s t share rest) (hlive : Live s) :
    Live t := by
  obtain ⟨id, hin, hne⟩ := hlive
  refine ⟨id, (h.inGame_eq id).trans hin, ?_⟩
  rw [h.hand_eq]
  exact List.append_ne_nil_of_left_ne_nil hne _

/-- An empty deck deals nothing. -/
theorem not_live_dealt {s t : War Id} {share : Id → List Card}
    (h : Dealt s t share []) (hdeck : s.gameDeck.decks = [])
    (hnot : ¬ Live s) : ¬ Live t := by
  have hsum := h.cards
  rw [hdeck] at hsum
  have hzero := Finset.sum_eq_zero_iff.mp (add_eq_zero.mp hsum.symm).1
  rintro ⟨id, hin, hne⟩
  have hin' := (h.inGame_eq id).symm.trans hin
  have hnil := hzero id (List.mem_toFinset.mpr (mem_keys_of_inGame hin'))
  refine hnot ⟨id, hin', ?_⟩
  rw [h.hand_eq, (Multiset.coe_eq_zero _).mp hnil, List.append_nil] at hne
  exact hne

omit [LinearOrder Id] in
/-- Players are registered if there are two of them. -/
theorem keys_ne_nil {s : War Id} (h : 1 < s.numPlayers) :
    s.players.keys ≠ [] := by
  have hlen : s.players.keys.length = s.numPlayers := s.players.length_keys
  intro hnil
  rw [hnil] at hlen
  simp only [List.length_nil] at hlen
  omega

/-- **A game that can start** does not trap. -/
theorem safe_startGame_of_startable {s : War Id} (hwf : WellFormed s)
    (hwinner : WinnerRegistered s) (h : Startable s) (fuel rounds : Nat)
    (os : Nat → Schedule Id) : (War.startGame fuel rounds os s).Safe := by
  obtain ⟨htwo, hplay⟩ := h
  rw [startGame_eq htwo]
  refine (safe_dealCards (keys_ne_nil htwo) fuel).bind ?_
  intro d hd
  obtain ⟨share, hdealt⟩ := dealCards_dealt hd
  have hkept := kept_dealt hdealt
  have hrun : (gameLoop fuel rounds os d).Safe ∧
      ∀ t, gameLoop fuel rounds os d = .done t → WinnerRegistered t := by
    rcases hplay with hover | hnone | hdeck | hlive
    · -- no round is played
      have hdone := hkept.gameover hover
      cases rounds with
      | zero => exact ⟨Outcome.Safe.outOfFuel, fun t ht => by cases ht⟩
      | succ rounds =>
          simp only [gameLoop]
          rw [if_pos hdone]
          refine ⟨Outcome.Safe.done d, fun t ht => ?_⟩
          rw [← Outcome.done.inj ht]
          exact hkept.winner hwinner
    · exact absurd hd (dealCards_of_none hnone)
    · exact safe_gameLoop rounds os d (hkept.wellFormed hwf)
        (live_of_dealt hdealt hdeck) (hkept.winner hwinner)
    · exact safe_gameLoop rounds os d (hkept.wellFormed hwf)
        (live_dealt hdealt hlive) (hkept.winner hwinner)
  refine hrun.1.bind (fun t ht => ?_)
  exact (hrun.2 t ht).announcement.bind (fun line _ => Outcome.Safe.done _)

/-- **A legal call does not trap.** -/
theorem safe_of_legal {s : War Id} (hwf : WellFormed s)
    (hwinner : WinnerRegistered s) {c : Call Id} (h : Legal s c)
    (fuel rounds : Nat) : (perform fuel rounds c s).Safe := by
  cases c with
  | addPlayer g => exact Outcome.Safe.done _
  | addPlayers gs => exact Outcome.Safe.done _
  | onDeck op =>
      exact (safe_perform ⟨s.gameDeck, []⟩ op).bind
        (fun a _ => Outcome.Safe.done _)
  | setDeckCards newValue => exact Outcome.Safe.done _
  | dealCards => exact safe_dealCards h fuel
  | startRound o => exact safe_startRound hwf h fuel o
  | updateGameStatus order => exact Outcome.Safe.done _
  | startGame os =>
      exact (safe_startGame_of_startable hwf hwinner h fuel rounds os).bind
        (fun r _ => Outcome.Safe.done _)

/-! ## Illegal calls -/

/-- **An illegal call traps**, with enough fuel to get that far. -/
theorem trap_of_not_legal {s : War Id} (hwf : WellFormed s) {c : Call Id}
    (h : ¬ Legal s c) :
    ∃ fuel rounds reason, perform fuel rounds c s = .trap reason := by
  cases c with
  | addPlayer g => exact absurd trivial h
  | addPlayers gs => exact absurd trivial h
  | onDeck op => exact absurd trivial h
  | setDeckCards newValue => exact absurd trivial h
  | updateGameStatus order => exact absurd trivial h
  | dealCards =>
      have hempty : s.players.isEmpty = true :=
        Dictionary.isEmpty_iff.mpr (not_not.mp h)
      exact ⟨0, 0, _, if_pos hempty⟩
  | startRound o => exact ⟨0, 0, _, startRound_of_not_live hwf h 0 o⟩
  | startGame os =>
      by_cases htwo : 1 < s.numPlayers
      · -- the first round traps
        have hplay : ¬ (s.gameover = true ∨ (∀ id, inGame s id = false) ∨
            s.gameDeck.decks ≠ [] ∨ Live s) := fun hp => h ⟨htwo, hp⟩
        simp only [not_or, not_forall, ne_eq, not_not,
          Bool.not_eq_false] at hplay
        obtain ⟨hover, hin, hdeck, hlive⟩ := hplay
        obtain ⟨d, hd⟩ := dealCards_returns hin (Nat.lt_succ_self _)
        obtain ⟨share, hdealt⟩ := dealCards_dealt hd
        have hoverd : ¬ d.gameover = true := by
          rw [hdealt.state]
          exact hover
        have htrap := startRound_of_not_live (hdealt.wellFormed hwf)
          (not_live_dealt hdealt hdeck hlive)
          (s.gameDeck.decks.length + 1) (os 0)
        refine ⟨s.gameDeck.decks.length + 1, 1,
          "An empty array does not possess a highest ranked card", ?_⟩
        simp only [perform]
        rw [startGame_eq htwo, hd, Outcome.done_bind]
        simp only [gameLoop]
        rw [if_neg hoverd, htrap]
        rfl
      · refine ⟨0, 0,
          "There are not enough players to start a game", ?_⟩
        simp only [perform, War.startGame]
        rw [if_neg htwo]
        rfl

/-! ## Fuel -/

theorem gameLoop_refines_fuel {fuel : Nat} (rounds : Nat) :
    ∀ (os : Nat → Schedule Id) (s : War Id),
      (gameLoop fuel rounds os s).Refines
        (gameLoop (fuel + 1) rounds os s) := by
  induction rounds with
  | zero => intro os s; exact Outcome.Refines.refl _
  | succ rounds ih =>
      intro os s
      simp only [gameLoop]
      by_cases hover : s.gameover = true
      · rw [if_pos hover, if_pos hover]
        exact Outcome.Refines.refl _
      · rw [if_neg hover, if_neg hover]
        refine Outcome.Refines.bind (startRound_refines fuel (os 0) s) ?_
        intro t
        exact Outcome.Refines.bind (Outcome.Refines.refl _)
          (fun _ => ih (fun n => os (n + 1)) t)

theorem gameLoop_refines_rounds {fuel : Nat} (rounds : Nat) :
    ∀ (os : Nat → Schedule Id) (s : War Id),
      (gameLoop fuel rounds os s).Refines
        (gameLoop fuel (rounds + 1) os s) := by
  induction rounds with
  | zero => intro os s; exact Outcome.Refines.outOfFuel _
  | succ rounds ih =>
      intro os s
      rw [gameLoop, gameLoop]
      by_cases hover : s.gameover = true
      · rw [if_pos hover, if_pos hover]
        exact Outcome.Refines.refl _
      · rw [if_neg hover, if_neg hover]
        refine Outcome.Refines.bind (Outcome.Refines.refl _) (fun t => ?_)
        exact Outcome.Refines.bind (Outcome.Refines.refl _)
          (fun _ => ih (fun n => os (n + 1)) t)

theorem perform_refines_fuel (fuel rounds : Nat) (c : Call Id) (s : War Id) :
    (perform fuel rounds c s).Refines (perform (fuel + 1) rounds c s) := by
  cases c with
  | addPlayer g => exact Outcome.Refines.refl _
  | addPlayers gs => exact Outcome.Refines.refl _
  | onDeck op => exact Outcome.Refines.refl _
  | setDeckCards newValue => exact Outcome.Refines.refl _
  | dealCards => exact dealCards_refines fuel s
  | startRound o => exact startRound_refines fuel o s
  | updateGameStatus order => exact Outcome.Refines.refl _
  | startGame os =>
      refine Outcome.Refines.bind ?_ (fun _ => Outcome.Refines.refl _)
      simp only [War.startGame]
      by_cases htwo : 1 < s.numPlayers
      · rw [if_pos htwo, if_pos htwo]
        refine Outcome.Refines.bind (dealCards_refines fuel s) (fun d => ?_)
        exact Outcome.Refines.bind (gameLoop_refines_fuel rounds os d)
          (fun _ => Outcome.Refines.refl _)
      · rw [if_neg htwo, if_neg htwo]
        exact Outcome.Refines.refl _

theorem perform_refines_rounds (fuel rounds : Nat) (c : Call Id)
    (s : War Id) :
    (perform fuel rounds c s).Refines (perform fuel (rounds + 1) c s) := by
  cases c with
  | startGame os =>
      refine Outcome.Refines.bind ?_ (fun _ => Outcome.Refines.refl _)
      simp only [War.startGame]
      by_cases htwo : 1 < s.numPlayers
      · rw [if_pos htwo, if_pos htwo]
        refine Outcome.Refines.bind (Outcome.Refines.refl _) (fun d => ?_)
        exact Outcome.Refines.bind (gameLoop_refines_rounds rounds os d)
          (fun _ => Outcome.Refines.refl _)
      · rw [if_neg htwo, if_neg htwo]
        exact Outcome.Refines.refl _
  | _ => exact Outcome.Refines.refl _

theorem perform_refines {fuel fuel' rounds rounds' : Nat}
    (hfuel : fuel ≤ fuel') (hrounds : rounds ≤ rounds') (c : Call Id)
    (s : War Id) :
    (perform fuel rounds c s).Refines (perform fuel' rounds' c s) :=
  (Outcome.refines_of_le (fun n => perform_refines_fuel n rounds c s)
    hfuel).trans
    (Outcome.refines_of_le (fun n => perform_refines_rounds fuel' n c s)
      hrounds)

/-! ## The contract -/

/-- **The contract of a game**: a session does not trap, whatever its fuel,
    exactly when every call is legal in every state in which it is made. -/
theorem session_contract {s : War Id} (hwf : WellFormed s)
    (hwinner : WinnerRegistered s) (cs : List (Call Id)) :
    (∀ fuel rounds, (performAll fuel rounds cs s).Safe) ↔
      ∀ before c after, cs = before ++ c :: after → ∀ fuel rounds t,
        performAll fuel rounds before s = .done t → Legal t c := by
  constructor
  · intro hsafe before c after heq fuel rounds t ht
    have hkept := session_kept hwf before ht
    by_contra hnot
    obtain ⟨fuel', rounds', reason, htrap⟩ :=
      trap_of_not_legal (hkept.wellFormed hwf) hnot
    -- enough fuel to get there and to trap
    have hall := (safe_runAll_iff cs s).mp
      (hsafe (max fuel fuel') (max rounds rounds')) before c after heq
    refine hall t ?_ reason ?_
    · exact (runAll_refines (perform_refines (le_max_left _ _)
        (le_max_left _ _)) before s).done ht
    · rcases perform_refines (le_max_right fuel fuel')
        (le_max_right rounds rounds') c t with hfuel | hsame
      · rw [hfuel] at htrap
        cases htrap
      · rw [← hsame]
        exact htrap
  · intro hlegal fuel rounds
    refine (safe_runAll_iff cs s).mpr ?_
    intro before c after heq t ht
    have hkept := session_kept hwf before ht
    exact safe_of_legal (hkept.wellFormed hwf) (hkept.winner hwinner)
      (hlegal before c after heq fuel rounds t ht) fuel rounds

/-- Dealing before a player is added is the only thing wrong here. -/
theorem session_contract_early_deal :
    ∃ w : War String, War.init 0 (fun _ => .keep) 0 = .done w ∧
      ¬ ∀ fuel rounds, (performAll fuel rounds
        [.setDeckCards (cardsAt [48, 0]), .dealCards,
          .addPlayers (seats [("A", []), ("B", [])])] w).Safe := by
  obtain ⟨w, hinit⟩ : ∃ w : War String,
      War.init 0 (fun _ => .keep) 0 = .done w := ⟨_, rfl⟩
  refine ⟨w, hinit, fun hsafe => ?_⟩
  have hlegal := (session_contract (wellFormed_init hinit)
    (winnerRegistered_init hinit) _).mp hsafe
    [.setDeckCards (cardsAt [48, 0])] .dealCards
    [.addPlayers (seats [("A", []), ("B", [])])] rfl 0 0 _ rfl
  refine hlegal ?_
  show w.players.keys = []
  rw [(init_eq hinit).2.1]
  rfl

end Contract
