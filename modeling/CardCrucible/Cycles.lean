import CardCrucible.Draws
import Mathlib.Data.Set.Finite.List
import Mathlib.Data.Fintype.Pi
import Mathlib.Order.Preorder.Finite

/-! # Cycles — games that never end

    Nothing in the rules makes a game end: there are deals from which the play
    comes back to where it was.  That is the only way not to end, because the
    state of a game has room for finitely many hands. -/

namespace Cycles

open Outcomes Arrangements Dictionaries CardModel DeckModel PlayerModel
open WarModel WarModel.War WarState WarTurn Comparisons WarRuns Spending
open Dealing Rounds GameStatus RoundLaws Conservation Games Lifecycle Draws

variable {Id : Type} [LinearOrder Id]

/-! ## States with the same players -/

theorem deck_ext {d e : Deck} (hdecks : d.decks = e.decks)
    (hnum : d.numSubDecks = e.numSubDecks) : d = e := by
  obtain ⟨cards, num⟩ := d
  obtain ⟨cards', num'⟩ := e
  have h1 : cards = cards' := hdecks
  have h2 : num = num' := hnum
  rw [h1, h2]

/-- A state is known from its players' hands, last cards, flags and names. -/
theorem war_ext {s t : War Id} (hs : WellFormed s) (ht : WellFormed t)
    (hkeys : s.players.keys = t.players.keys)
    (hhand : ∀ id ∈ s.players.keys, hand s id = hand t id)
    (hlast : ∀ id ∈ s.players.keys, lastPlayed s id = lastPlayed t id)
    (hout : ∀ id ∈ s.players.keys, isOut s id = isOut t id)
    (hname : ∀ id ∈ s.players.keys, nameOf s id = nameOf t id)
    (hdeck : s.gameDeck = t.gameDeck) (hover : s.gameover = t.gameover)
    (hwinner : s.roundWinner = t.roundWinner) : s = t := by
  have hplayers : s.players = t.players := by
    refine Dictionary.ext_get? hkeys ?_
    intro id hid
    obtain ⟨p, hp, hpid⟩ := hs.tournamentPlayer hid
    obtain ⟨q, hq, hqid⟩ := ht.tournamentPlayer (hkeys ▸ hid)
    have hcards := hhand id hid
    have hcard := hlast id hid
    have hflag := hout id hid
    have hnames := hname id hid
    rw [hand_of_some hp, hand_of_some hq] at hcards
    rw [lastPlayed_of_some hp, lastPlayed_of_some hq] at hcard
    rw [isOut_of_some hp, isOut_of_some hq] at hflag
    simp only [nameOf] at hnames
    rw [hp, hq] at hnames
    have hpq : p = q := by
      obtain ⟨⟨pn, pi, pc, pl⟩, pe⟩ := p
      obtain ⟨⟨qn, qi, qc, ql⟩, qe⟩ := q
      have h1 : pn = qn := Option.some.inj hnames
      have h2 : pi = qi := hpid.trans hqid.symm
      have h3 : pc = qc := hcards
      have h4 : pl = ql := hcard
      have h5 : pe = qe := hflag
      rw [h1, h2, h3, h4, h5]
    rw [hs.get?_eq, ht.get?_eq, hp, hq, hpq]
  obtain ⟨⟨d, ps, b⟩, winner⟩ := s
  obtain ⟨⟨d', ps', b'⟩, winner'⟩ := t
  have h1 : d = d' := hdeck
  have h2 : ps = ps' := hplayers
  have h3 : b = b' := hover
  have h4 : winner = winner' := hwinner
  rw [h1, h2, h3, h4]

/-- What distinguishes the states of a game between its rounds. -/
abbrev Signature (s₀ : War Id) : Type :=
  ({id // id ∈ s₀.players.keys} → List Card × Option Card × Bool) ×
    Option Id × Bool

def signature (s₀ s : War Id) : Signature s₀ :=
  (fun id => (hand s id.1, lastPlayed s id.1, isOut s id.1),
    s.roundWinner, s.gameover)

/-- The signatures a game has room for. -/
def signatures (s₀ : War Id) : Set (Signature s₀) :=
  {f | ∀ id, f id ∈ {l : List Card | l.length ≤ (allCards s₀).card} ×ˢ
      (Set.univ : Set (Option Card × Bool))} ×ˢ
    ({r | ∀ w, r = some w → w ∈ s₀.players.keys} ×ˢ (Set.univ : Set Bool))

/-- **There are finitely many of them.** -/
theorem finite_signatures (s₀ : War Id) : (signatures s₀).Finite := by
  refine Set.Finite.prod ?_ (Set.Finite.prod ?_ Set.finite_univ)
  · refine Set.Finite.pi' (fun _ => ?_)
    exact Set.Finite.prod (List.finite_length_le Card _) Set.finite_univ
  · have hkeys : ({r : Option Id | ∀ w, r = some w → w ∈ s₀.players.keys})
        ⊆ insert none (some '' {w | w ∈ s₀.players.keys}) := by
      intro r hr
      cases r with
      | none => exact Or.inl rfl
      | some w => exact Or.inr ⟨w, hr w rfl, rfl⟩
    refine Set.Finite.subset (Set.Finite.insert none ?_) hkeys
    exact Set.Finite.image some (List.finite_toSet s₀.players.keys)

/-- A hand is among all the cards. -/
theorem length_hand_le {s₀ s : War Id} (hwf : WellFormed s₀)
    (h : Reaches s₀ s) {id : Id} (hid : id ∈ s.players.keys) :
    (hand s id).length ≤ (allCards s₀).card := by
  have hle : (hand s id : Multiset Card) ≤ handCards s :=
    Finset.single_le_sum
      (f := fun k => (hand s k : Multiset Card)) (fun _ _ => Multiset.zero_le _)
      (List.mem_toFinset.mpr hid)
  have hcard := Multiset.card_le_card hle
  rw [← h.allCards_eq hwf, Conservation.allCards_eq (h.wellFormed hwf),
    Multiset.card_add]
  rw [Multiset.coe_card] at hcard
  omega

/-- What a game keeps besides the signature. -/
theorem reaches_fixed {s₀ s : War Id} (hwf : WellFormed s₀)
    (h : Reaches s₀ s) :
    (∀ id, nameOf s id = nameOf s₀ id) ∧
      s.gameDeck.numSubDecks = s₀.gameDeck.numSubDecks := by
  induction h with
  | dealt hrun =>
      obtain ⟨share, hdealt⟩ := dealCards_dealt hrun
      refine ⟨hdealt.name_eq, ?_⟩
      rw [hdealt.state]
  | round h hrun ih =>
      obtain ⟨s'', t, prizeCards, hround, hs'⟩ :=
        startRound_spent (h.wellFormed hwf) hrun
      rw [hs']
      exact ⟨fun id => (hround.name_eq id).trans (ih.1 id),
        hround.numSubDecks_eq.trans ih.2⟩

/-- **The signature of a reachable state determines it.** -/
theorem eq_of_signature {s₀ s t : War Id} (hwf : WellFormed s₀)
    (hs : Reaches s₀ s) (ht : Reaches s₀ t)
    (h : signature s₀ s = signature s₀ t) : s = t := by
  have hkeys := hs.keys_eq hwf
  have hsig : ∀ id ∈ s.players.keys,
      (hand s id, lastPlayed s id, isOut s id)
        = (hand t id, lastPlayed t id, isOut t id) := by
    intro id hid
    exact congrFun (congrArg Prod.fst h) ⟨id, hkeys ▸ hid⟩
  have hrest := congrArg Prod.snd h
  have hfixed := reaches_fixed hwf hs
  have hfixed' := reaches_fixed hwf ht
  have hdeck : s.gameDeck = t.gameDeck := by
    have hd := hs.decks_eq hwf
    have hd' := ht.decks_eq hwf
    have hn := hfixed.2.trans hfixed'.2.symm
    exact deck_ext (hd.trans hd'.symm) hn
  refine war_ext (hs.wellFormed hwf) (ht.wellFormed hwf)
    (hkeys.trans (ht.keys_eq hwf).symm) ?_ ?_ ?_ ?_ hdeck
    (congrArg Prod.snd hrest) (congrArg Prod.fst hrest)
  · exact fun id hid => congrArg Prod.fst (hsig id hid)
  · exact fun id hid => congrArg (fun x => x.2.1) (hsig id hid)
  · exact fun id hid => congrArg (fun x => x.2.2) (hsig id hid)
  · exact fun id _ => (hfixed.1 id).trans (hfixed'.1 id).symm

/-- After a round the winner, if there is one, is a player. -/
theorem signature_mem {s₀ s s' : War Id} (hwf : WellFormed s₀)
    (h : Reaches s₀ s) {fuel : Nat} {o : Schedule Id}
    (hrun : startRound fuel o s = .done s') :
    signature s₀ s' ∈ signatures s₀ := by
  have h' := h.round hrun
  have hkeys := h'.keys_eq hwf
  refine ⟨fun id => ⟨?_, Set.mem_univ _⟩, ?_, Set.mem_univ _⟩
  · have hid : id.1 ∈ s'.players.keys := by
      rw [hkeys]
      exact id.2
    exact length_hand_le hwf h' hid
  · intro w hw
    have hw' : s'.roundWinner = some w := hw
    rcases roundWinner_cases (h.wellFormed hwf) hrun with
      ⟨v, hv, hin, -⟩ | ⟨hnone, -⟩
    · rw [hv] at hw'
      rw [← hkeys, ← Option.some.inj hw']
      exact mem_keys_of_inGame hin
    · rw [hnone] at hw'
      simp at hw'

/-! ## Plays -/

/-- A play of a game: the states at its round boundaries, where every round
    that `startGame` starts returns. -/
structure Play (s₀ : War Id) (os : Nat → Schedule Id) (run : Nat → War Id) :
    Prop where
  dealt : ∃ fuel, dealCards fuel s₀ = .done (run 0)
  round : ∀ n, (run n).gameover = false →
    ∃ fuel, startRound fuel (os n) (run n) = .done (run (n + 1))

/-- The play comes back to an earlier state before the game is over. -/
def ComesBack (run : Nat → War Id) : Prop :=
  ∃ i j, i < j ∧ run i = run j ∧ ∀ k, k ≤ j → (run k).gameover = false

theorem Play.reaches {s₀ : War Id} {os : Nat → Schedule Id}
    {run : Nat → War Id} (h : Play s₀ os run)
    (hover : ∀ n, (run n).gameover = false) : ∀ n, Reaches s₀ (run n) := by
  intro n
  induction n with
  | zero =>
      obtain ⟨fuel, hdeal⟩ := h.dealt
      exact .dealt hdeal
  | succ n ih =>
      obtain ⟨fuel, hrun⟩ := h.round n (hover n)
      exact ih.round hrun

/-- A sequence that steps alike from equal values stays in a cycle it has
    closed. -/
theorem stays_in_cycle {α : Type} {run : Nat → α} {i j : Nat} (hij : i < j)
    (heq : run i = run j)
    (hstep : ∀ n k, k < j → run n = run k → run (n + 1) = run (k + 1)) :
    ∀ n, i ≤ n → ∃ k, k < j ∧ run n = run k := by
  intro n hn
  induction n with
  | zero => exact ⟨0, by omega, rfl⟩
  | succ n ih =>
      by_cases hi : i ≤ n
      · obtain ⟨k, hk, hrun⟩ := ih hi
        have hnext := hstep n k hk hrun
        by_cases hkj : k + 1 = j
        · refine ⟨i, hij, ?_⟩
          rw [hnext, hkj, heq]
        · exact ⟨k + 1, by omega, hnext⟩
      · exact ⟨n + 1, by omega, rfl⟩

/-- **A game ends or comes back**: it has no other way to go on.  And with the
    same iteration orders in every round a game that comes back never ends. -/
theorem ends_or_comes_back {fuel₀ : Nat} {random : Nat → Arrangement Card}
    {n : Int} {w : War Id} {players : List (GamePlayer Id)}
    (hinit : War.init fuel₀ random n = .done w)
    (hplayers : NewPlayers players) {os : Nat → Schedule Id}
    {run : Nat → War Id} (hplay : Play (w.addPlayers players) os run) :
    ((∃ n, (run n).gameover = true) ∨ ComesBack run) ∧
      ((∀ n, os n = os 0) →
        ((∃ n, (run n).gameover = true) ↔ ¬ ComesBack run)) := by
  have hwf := (newGame_ready hinit hplayers).wellFormed
  have heither : (∃ n, (run n).gameover = true) ∨ ComesBack run := by
    by_cases hend : ∃ n, (run n).gameover = true
    · exact Or.inl hend
    · have hover : ∀ n, (run n).gameover = false := fun n =>
        Bool.eq_false_iff.mpr (fun h => hend ⟨n, h⟩)
      have hreach := hplay.reaches hover
      -- infinitely many rounds, finitely many signatures
      have hmem : ∀ n, signature (w.addPlayers players) (run (n + 1))
          ∈ signatures (w.addPlayers players) := by
        intro n
        obtain ⟨fuel, hrun⟩ := hplay.round n (hover n)
        exact signature_mem hwf (hreach n) hrun
      obtain ⟨i, j, hij, hsig⟩ :=
        Set.Finite.exists_lt_map_eq_of_forall_mem hmem
          (finite_signatures (w.addPlayers players))
      refine Or.inr ⟨i + 1, j + 1, by omega, ?_, fun k _ => hover k⟩
      exact eq_of_signature hwf (hreach _) (hreach _) hsig
  refine ⟨heither, fun hsame => ⟨?_, fun hno => heither.resolve_right hno⟩⟩
  rintro ⟨m, hm⟩ ⟨i, j, hij, heq, hover⟩
  have hstep : ∀ n k, k < j → run n = run k → run (n + 1) = run (k + 1) := by
    intro n k hk hrun
    have hk' := hover k (by omega)
    obtain ⟨f, hf⟩ := hplay.round n (by rw [hrun]; exact hk')
    obtain ⟨g, hg⟩ := hplay.round k hk'
    rw [hsame n, hrun] at hf
    rw [hsame k] at hg
    exact startRound_unique hf hg
  -- from the first return on, every state is one of those before
  have hnever : (run m).gameover = false := by
    by_cases him : i ≤ m
    · obtain ⟨k, hk, hrun⟩ := stays_in_cycle hij heq hstep m him
      rw [hrun]
      exact hover k (by omega)
    · exact hover m (by omega)
  rw [hnever] at hm
  simp at hm

theorem ends_or_comes_back_three :
    ∃ w run, War.init 2 (stacked drawDeck drawDeck_perm) 1 = .done w ∧
      Play (w.addPlayers threeSeats) (fun _ => inOrder) run ∧
      ((∃ n, (run n).gameover = true) ↔ ¬ ComesBack run) := by
  have hgame : ∃ w, War.init 2 (stacked drawDeck drawDeck_perm) 1 = .done w ∧
      ∃ d, dealCards 60 (w.addPlayers threeSeats) = .done d ∧
      ∃ s, startRound 60 inOrder d = .done s ∧ s.gameover = true := by
    decide +kernel
  obtain ⟨w, hinit, d, hdeal, s, hrun, hover⟩ := hgame
  have hplay : Play (w.addPlayers threeSeats) (fun _ => inOrder)
      (fun n => if n = 0 then d else s) := by
    refine ⟨⟨60, hdeal⟩, fun n hn => ?_⟩
    by_cases h0 : n = 0
    · rw [if_pos h0]
      exact ⟨60, hrun⟩
    · rw [if_neg h0, hover] at hn
      simp at hn
  exact ⟨w, _, hinit, hplay,
    (ends_or_comes_back hinit newPlayers_three hplay).2 (fun _ => rfl)⟩

/-! ## A game that comes back -/

/-- A deck that two players can play with forever. -/
def cycleDeck : List Card :=
  cardsAt [46, 23, 15, 40, 43, 0, 7, 32, 33, 24, 1, 47, 31, 14, 12, 41, 26, 18,
    2, 30, 20, 6, 5, 35, 39, 25, 29, 34, 50, 10, 27, 51, 45, 9, 11, 22, 49, 21,
    17, 38, 28, 13, 19, 42, 48, 4, 16, 36, 37, 3, 8, 44]

theorem cycleDeck_perm : cycleDeck.Perm Deck.subDeck := by decide +kernel

/-- Rounds with the same iteration orders can be played in two parts. -/
theorem playRounds_add (fuel : Nat) (o : Schedule Id) (m n : Nat)
    (s : War Id) :
    playRounds fuel (fun _ => o) (m + n) s
      = (playRounds fuel (fun _ => o) m s >>=
          playRounds fuel (fun _ => o) n) := by
  induction n with
  | zero =>
      show playRounds fuel (fun _ => o) m s = _
      cases playRounds fuel (fun _ => o) m s <;> rfl
  | succ n ih =>
      show (playRounds fuel (fun _ => o) (m + n) s >>= _) = _
      rw [ih]
      cases playRounds fuel (fun _ => o) m s <;> rfl

/-- A game that is over stays over. -/
theorem gameover_of_playRounds {s : War Id} (hwf : WellFormed s)
    (hover : s.gameover = true) {fuel : Nat} {os : Nat → Schedule Id}
    {n : Nat} {s' : War Id} (hrun : playRounds fuel os n s = .done s') :
    s'.gameover = true := by
  refine (playRounds_keeps (fun t => WellFormed t ∧ t.gameover = true) ?_
    ⟨hwf, hover⟩ hrun).2
  rintro fuel o t t' ⟨hwft, hovert⟩ hround
  refine ⟨wellFormed_startRound hwft hround, ?_⟩
  rw [gameover_startRound hwft hround, hovert]
  rfl

/-- **A run that comes back is never over**, at any number of rounds. -/
theorem never_over_of_repeat {s₀ d s : War Id} (hwf : WellFormed s₀)
    (hd : Reaches s₀ d) {fuel period : Nat} {o : Schedule Id}
    (hpos : 0 < period)
    (hone : playRounds fuel (fun _ => o) period d = .done s)
    (htwo : playRounds fuel (fun _ => o) (period + period) d = .done s)
    (hover : s.gameover = false) (n : Nat) :
    ∃ t, playRounds fuel (fun _ => o) n d = .done t ∧
      t.gameover = false := by
  have hcycle : playRounds fuel (fun _ => o) period s = .done s := by
    rw [playRounds_add, hone] at htwo
    exact htwo
  have hall : ∀ k, playRounds fuel (fun _ => o) (period + period * k) d
      = .done s := by
    intro k
    induction k with
    | zero => exact hone
    | succ k ih =>
        rw [show period + period * (k + 1) = period + period * k + period by
          rw [Nat.mul_succ, Nat.add_assoc], playRounds_add, ih]
        exact hcycle
  obtain ⟨m, hm⟩ : ∃ m, period + period * n = n + m := by
    have hle : n ≤ period * n := Nat.le_mul_of_pos_left n hpos
    exact ⟨period + (period * n - n), by omega⟩
  have hend := hall n
  rw [hm, playRounds_add] at hend
  obtain ⟨t, ht, hrest⟩ := Outcome.bind_eq_done.mp hend
  refine ⟨t, ht, Bool.eq_false_iff.mpr (fun htrue => ?_)⟩
  have hs := gameover_of_playRounds
    ((playRounds_reaches hd ht).wellFormed hwf) htrue hrest
  rw [hover] at hs
  simp at hs

/-- Every round of that game returns, and none ends it: the state after 52
    rounds is the state after 104. -/
theorem cycle_game_never_ends :
    ∃ w d, War.init 2 (stacked cycleDeck cycleDeck_perm) 1 = .done w ∧
      NewPlayers twoSeats ∧ dealCards 60 (w.addPlayers twoSeats) = .done d ∧
      ∀ n, ∃ s, playRounds 2 (fun _ => inOrder) n d = .done s ∧
        s.gameover = false := by
  have hgame : ∃ w, War.init 2 (stacked cycleDeck cycleDeck_perm) 1 = .done w ∧
      ∃ d, dealCards 60 (w.addPlayers twoSeats) = .done d ∧
      ∃ s, playRounds 2 (fun _ => inOrder) 52 d = .done s ∧
        playRounds 2 (fun _ => inOrder) (52 + 52) d = .done s ∧
        s.gameover = false := by
    decide +kernel
  obtain ⟨w, hinit, d, hdeal, s, hone, htwo, hover⟩ := hgame
  have hwf := (newGame_ready hinit newPlayers_two).wellFormed
  exact ⟨w, d, hinit, newPlayers_two, hdeal,
    never_over_of_repeat hwf (.dealt hdeal) (by decide) hone htwo hover⟩

end Cycles
