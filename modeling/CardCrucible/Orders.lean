import CardCrucible.Twins

/-! # Orders — when the iteration orders of dictionaries show

    The order of the high card holders is the order in which a dictionary was
    iterated over, and a war appends the cards of its holders in that order.
    Nothing else of a round depends on it.  So a round has one result in every
    order when the cards that go down together commute. -/

namespace Orders

open Outcomes Arrangements Dictionaries CardModel DeckModel PlayerModel
open WarModel WarModel.War WarState WarTurn Comparisons WarRuns Spending
open Dealing Rounds GameStatus RoundLaws Ladders Strength Games Standings
open Lockstep Twins

variable {Id Id' : Type} [LinearOrder Id] [LinearOrder Id']

/-- The cards a hand puts down in its `n`-th war. -/
def warPair (cards : List Card) (n : Nat) : List Card :=
  (cards.drop (2 * n)).take 2

/-- The pairs two hands put down in their `n`-th war can be exchanged. -/
def PairsCommute (cards cards' : List Card) (n : Nat) : Prop :=
  warPair cards n ++ warPair cards' n = warPair cards' n ++ warPair cards n

/-- Holders who still tie after `n` wars put down pairs that commute. -/
def WarOrderFree (s : War Id) (holders : List Id) : Prop :=
  ∀ n a b, Tops holders (fun id => (warStakes s id).take n) a →
    Tops holders (fun id => (warStakes s id).take n) b →
    PairsCommute (hand s a) (hand s b) n

/-- Players who tie on the cards placed and after `n` wars put down pairs that
    commute. -/
def OrderFree (s : War Id) : Prop :=
  ∀ n a b, Tops (active s) (fun id => (stakes s id).take (n + 1)) a →
    Tops (active s) (fun id => (stakes s id).take (n + 1)) b →
    PairsCommute (hand s a).tail (hand s b).tail n

section Deciding

/-- From some war on a hand has nothing to put down. -/
theorem warPair_eq_nil {cards : List Card} {n : Nat} (h : cards.length ≤ n) :
    warPair cards n = [] := by
  simp only [warPair]
  rw [List.drop_eq_nil_of_le (by omega), List.take_nil]

/-- So only so many wars have to be looked at. -/
theorem orderFree_iff_below {s : War Id} {m : Nat}
    (hm : ∀ id ∈ active s, (hand s id).length ≤ m) :
    OrderFree s ↔ ∀ n < m, ∀ a ∈ active s, ∀ b ∈ active s,
      Tops (active s) (fun id => (stakes s id).take (n + 1)) a →
      Tops (active s) (fun id => (stakes s id).take (n + 1)) b →
      PairsCommute (hand s a).tail (hand s b).tail n := by
  constructor
  · exact fun h n _ a _ b _ hta htb => h n a b hta htb
  · intro h n a b hta htb
    by_cases hn : n < m
    · exact h n hn a hta.1 b htb.1 hta htb
    · have hnil : ∀ id ∈ active s, warPair (hand s id).tail n = [] := by
        intro id hid
        have hlen := hm id hid
        refine warPair_eq_nil ?_
        rw [List.length_tail]
        omega
      simp only [PairsCommute]
      rw [hnil a hta.1, hnil b htb.1]

/-- The cards that can be put down. -/
def cardsInGame (s : War Id) : List Card := ((active s).map (hand s)).flatten

theorem length_hand_le {s : War Id} {id : Id} (hid : id ∈ active s) :
    (hand s id).length ≤ (cardsInGame s).length :=
  (List.sublist_flatten_of_mem (List.mem_map_of_mem hid)).length_le

instance (cards cards' : List Card) (n : Nat) :
    Decidable (PairsCommute cards cards' n) :=
  inferInstanceAs (Decidable
    (warPair cards n ++ warPair cards' n = warPair cards' n ++ warPair cards n))

instance (s : War Id) : Decidable (OrderFree s) :=
  decidable_of_iff _ (orderFree_iff_below (m := (cardsInGame s).length)
    (fun _ hid => length_hand_le hid)).symm

end Deciding

/-! ## Wars -/

section War

variable {s : War Id} {holders : List Id}

/-- The draws of a war take the first pair of every hand. -/
theorem pile_war {id : Id} (hid : id ∈ holders) :
    pile s (warSize s holders) id = warPair (hand s id) 0 := by
  simp only [pile, warPair]
  rw [Nat.mul_zero, List.drop_zero]
  by_cases hex : ∃ k ∈ holders, cardsNeededForWar ≤ (hand s k).length
  · rw [show warSize s holders = 2 from if_pos hex]
  · -- nobody has a second card
    have hlen : (hand s id).length < 2 :=
      not_le.mp (fun h => hex ⟨id, hid, h⟩)
    rw [show warSize s holders = 1 from if_neg hex,
      List.take_of_length_le (by omega), List.take_of_length_le (by omega)]

/-- What is left goes on with the next pair. -/
theorem warPair_afterDraws {id : Id} (hid : id ∈ holders) (n : Nat) :
    warPair (hand (afterDraws s holders) id) n
      = warPair (hand s id) (n + 1) := by
  simp only [afterDraws, warPair]
  rw [hand_turn, if_pos hid, List.drop_drop]
  by_cases hex : ∃ k ∈ holders, cardsNeededForWar ≤ (hand s k).length
  · rw [show warSize s holders = 2 from if_pos hex,
      show 2 + 2 * n = 2 * (n + 1) by omega]
  · have hlen : (hand s id).length < 2 :=
      not_le.mp (fun h => hex ⟨id, hid, h⟩)
    rw [show warSize s holders = 1 from if_neg hex,
      List.drop_eq_nil_of_le (by omega), List.drop_eq_nil_of_le (by omega)]

/-- The first piles of an order-free war commute. -/
theorem WarOrderFree.commuting (h : WarOrderFree s holders) :
    Commuting (pile s (warSize s holders)) holders := by
  have htop : ∀ id ∈ holders,
      Tops holders (fun id => (warStakes s id).take 0) id :=
    fun id hid => ⟨hid, fun _ _ => le_refl _⟩
  intro a ha b hb
  rw [pile_war ha, pile_war hb]
  exact h 0 a b (htop a ha) (htop b hb)

/-- **One step**: the next call of an order-free war is order-free. -/
theorem WarOrderFree.next (h : WarOrderFree s holders) {next : List Id}
    (hlead : ∀ id, id ∈ next ↔ LeadsWar s holders id) :
    WarOrderFree (afterDraws s holders) next := by
  obtain ⟨g, hrung⟩ := rung_war s holders
  intro n a b ha hb
  have hne : ∃ id, id ∈ next := ⟨a, ha.1⟩
  have hstep := hrung.tops_take_iff hlead hne n
  have hpairs := h (n + 1) a b ((hstep a).mpr ha) ((hstep b).mpr hb)
  simp only [PairsCommute] at hpairs ⊢
  rw [warPair_afterDraws ((hlead a).mp ha.1).1,
    warPair_afterDraws ((hlead b).mp hb.1).1]
  exact hpairs

end War

/-- **An order-free war** has the same prize cards in every order. -/
theorem prize_eq {π : Id ≃ Id'} {s : War Id} {t : War Id'} {ids : List Id}
    {ids' : List Id'} {P P' : List Card} {cs : List (Comparison Id)}
    {cs' : List (Comparison Id')} {e : WarExit Id} {e' : WarExit Id'}
    (h : WarsAlike π ids P s cs e ids' P' t cs' e') :
    P' = P → WarOrderFree s ids → e'.prizeCards = e.prizeCards := by
  have hpot : ∀ {holders : List Id} {holders' : List Id'} {s : War Id}
      {t : War Id'} {P P' : List Card}, Alike π s t →
      Renamed π holders holders' → P' = P → WarOrderFree s holders →
      pot t holders' P' = pot s holders P := by
    intro holders holders' s t P P' h hids hP hfree
    simp only [pot]
    rw [hP, h.warSize_eq hids,
      hids.flatMap_eq (fun id => h.pile_eq _ id) hfree.commuting]
  induction h with
  | drawn h hids => exact fun hP _ => hP
  | won h hids hrc hrc' hlead => exact fun hP hfree => hpot h hids hP hfree
  | again h hids hrc hrc' hne hlead hrest ih =>
      exact fun hP hfree => ih (hpot h hids hP hfree) (hfree.next hlead)

/-! ## Rounds -/

/-- A card has been placed from the hand of everybody in the game. -/
theorem hand_afterPlacing {s : War Id} {id : Id} (hid : id ∈ active s) :
    hand (afterPlacing s) id = (hand s id).tail := by
  show hand (turn 1 (active s) s) id = _
  rw [hand_turn, if_pos hid, List.drop_one]

/-- The war of an order-free round is order-free. -/
theorem OrderFree.war {s : War Id} (h : OrderFree s) {holders : List Id}
    (hlead : ∀ id, id ∈ holders ↔ LeadsRound s id) :
    WarOrderFree (afterPlacing s) holders := by
  intro n a b ha hb
  have hne : ∃ id, id ∈ holders := ⟨a, ha.1⟩
  have hstep := (rung_round s).tops_take_iff hlead hne n
  rw [hand_afterPlacing ((hlead a).mp ha.1).1,
    hand_afterPlacing ((hlead b).mp hb.1).1]
  exact h n a b ((hstep a).mpr ha) ((hstep b).mpr hb)

/-- A round in which the cards placed have different ranks is order-free. -/
theorem orderFree_of_ranks {s : War Id}
    (h : ∀ a ∈ active s, ∀ b ∈ active s,
      (stakes s a).head? = (stakes s b).head? → a = b) : OrderFree s := by
  have hhead : ∀ (l : List Stake) (n : Nat),
      (l.take (n + 1)).head? = l.head? := by
    intro l n
    cases l <;> rfl
  intro n a b ha hb
  have heq := congrArg List.head? (ha.eq hb)
  rw [hhead, hhead] at heq
  rw [h a ha.1 b hb.1 heq]
  rfl

/-- Rounds settled with the same prize cards leave twins. -/
theorem twin_of_settled {s t a b : War Id} (h : Twin s t)
    (hsettled : Settled (Equiv.refl Id) (fun P P' => P' = P) s t a b) :
    Twin a b := by
  have hkeep : ∀ {u u' : War Id}, Alike (Equiv.refl Id) u u' → Kept s u →
      Kept t u' → ∀ r, Twin { u with roundWinner := r }
        { u' with roundWinner := r } := fun halike hkept hkept' r =>
    { keys_eq := by
        rw [hkept.keys_eq, hkept'.keys_eq, h.keys_eq]
      standing_eq := halike
      decks_eq := by
        rw [hkept.gameDeck_eq, hkept'.gameDeck_eq, h.decks_eq]
      roundWinner_eq := rfl
      gameover_eq := by
        rw [hkept.gameover_eq, hkept'.gameover_eq, h.gameover_eq] }
  cases hsettled with
  | @won u u' P P' w halike hR hkept hkept' =>
      rw [show P' = P from hR]
      exact ((hkeep halike hkept hkept' (some w)).payOut w P).named (some w)
  | @dealt u u' P P' fuel fuel' a b halike hR hkept hkept' hdeal hdeal' =>
      rw [show P' = P from hR] at hdeal'
      have hdrawn : Twin (drawnTable u P) (drawnTable u' P) :=
        (hkeep halike hkept hkept' none).setDeckCards P
      obtain ⟨c, hc, htwin⟩ := (dealCards_twin hdrawn fuel).of_done hdeal
      -- the other run deals the same, whatever its fuel
      have hcb : c = b :=
        Outcome.done_unique (fun n => dealCards_refines n _) hc hdeal'
      rw [← hcb]
      exact htwin

/-- **One order-free round** leaves the same state in any two orders. -/
theorem twin_round {s t : War Id} (h : Twin s t) (hwf : WellFormed s)
    (hwf' : WellFormed t) (hfree : OrderFree s) {fuel fuel' : Nat}
    {o o' : Schedule Id} {s' t' : War Id}
    (hrun : startRound fuel o s = .done s')
    (hrun' : startRound fuel' o' t = .done t') : Twin s' t' := by
  have hplaced := Alike.placed h.alike
  have hcards := placedCards_twin h hwf hwf'
  obtain ⟨rc, rc', cs, cs', a, b, hround, -, -, -, -, hs', ht'⟩ :=
    round_lockstep hplaced hwf hwf' hrun hrun'
  have htwin : Twin a b := twin_of_settled h (hround.settled hplaced hcards
    (fun hlead hwars => prize_eq hwars hcards (hfree.war hlead)))
  have hin : ∃ id, inGame a id = true := by
    obtain ⟨id, hid⟩ := exists_inGame_startRound hwf hrun
    rw [hs', inGame_updateGameStatus] at hid
    exact ⟨id, hid⟩
  rw [hs', ht']
  exact htwin.updateGameStatus hin o.players o'.players

/-! ## Runs -/

/-- **Order-free runs** are matched in every order. -/
theorem exists_replay {s : War Id} (hwf : WellFormed s) {fuel : Nat}
    {os : Nat → Schedule Id} (os' : Nat → Schedule Id) (k : Nat) :
    ∀ s', playRounds fuel os k s = .done s' →
      (∀ i < k, ∀ t, playRounds fuel os i s = .done t → OrderFree t) →
      WellFormed s' ∧ ∃ fuel' t', playRounds fuel' os' k s = .done t' ∧
        WellFormed t' ∧ Twin s' t' := by
  induction k with
  | zero =>
      intro s' hrun _
      rw [← Outcome.done.inj hrun]
      exact ⟨hwf, 0, s, rfl, hwf, Twin.refl s⟩
  | succ k ih =>
      intro s' hrun hfree
      obtain ⟨u, hu, hround⟩ := Outcome.bind_eq_done.mp hrun
      obtain ⟨hwfu, n, u', hu', hwfu', htwin⟩ :=
        ih u hu (fun i hi => hfree i (by omega))
      obtain ⟨m, t', ht'⟩ := returns_of_placed
        (Alike.placed htwin.alike) hwfu hwfu' hround (os' k)
      have hlast := hfree k (by omega) u hu
      refine ⟨wellFormed_startRound hwfu hround, n + m, t', ?_,
        wellFormed_startRound hwfu' ht',
        twin_round htwin hwfu hwfu' hlast hround ht'⟩
      -- the fuel of both parts suffices for the run
      refine Outcome.bind_eq_done.mpr ⟨u', ?_, ?_⟩
      · exact Outcome.done_of_le (fun n => playRounds_refines n os' k s)
          (Nat.le_add_right n m) hu'
      · exact Outcome.done_of_le (fun n => startRound_refines n (os' k) u')
          (Nat.le_add_left m n) ht'

/-- **Replays agree on order-free runs**: if the first `k` rounds return from
    states that are order-free, they return in every iteration order, and with
    the same state. -/
theorem replays_agree {s : War Id} (hwf : WellFormed s) {fuel k : Nat}
    {os : Nat → Schedule Id} {s' : War Id}
    (hrun : playRounds fuel os k s = .done s')
    (hfree : ∀ i < k, ∀ t, playRounds fuel os i s = .done t → OrderFree t)
    (os' : Nat → Schedule Id) :
    (∃ fuel' t', playRounds fuel' os' k s = .done t') ∧
      ∀ fuel' t', playRounds fuel' os' k s = .done t' → SameState s' t' := by
  obtain ⟨-, n, u, hu, -, htwin⟩ := exists_replay hwf os' k s' hrun hfree
  refine ⟨⟨n, u, hu⟩, ?_⟩
  intro fuel' t' ht'
  have hut : u = t' :=
    Outcome.done_unique (fun n => playRounds_refines n os' k s) hu ht'
  rw [← hut]
  exact htwin.sameState

/-- Every dictionary is iterated against its representation order. -/
def outOfOrder : Schedule String where
  roundCards := Arrangement.backwards
  warParticipants := fun _ => Arrangement.backwards
  lastPlayedCards := Arrangement.backwards
  players := Arrangement.backwards

/-- Three players with cards of two sub-decks: `A` and `B` put down the same
    pair in their first war, and in the second `B` has no card left. -/
def pairsTable : War String :=
  table [("A", cardsAt [44, 0, 4, 8, 12]), ("B", cardsAt [45, 0, 4]),
    ("C", cardsAt [40, 36])]

/-- Two rounds of that game, the first with two wars. -/
theorem replays_agree_pairs :
    ∃ s', playRounds 9 (fun _ => inOrder) 2 pairsTable = .done s' ∧
      (roundComparisons 9 inOrder pairsTable).length = 3 ∧
      (∃ fuel' t',
        playRounds fuel' (fun _ => outOfOrder) 2 pairsTable = .done t') ∧
      ∀ fuel' t', playRounds fuel' (fun _ => outOfOrder) 2 pairsTable
        = .done t' → SameState s' t' := by
  have hrun : ∃ s', playRounds 9 (fun _ => inOrder) 2 pairsTable = .done s' ∧
      (roundComparisons 9 inOrder pairsTable).length = 3 := by
    decide +kernel
  obtain ⟨s', hdone, hwars⟩ := hrun
  have hsecond : ∃ u, playRounds 9 (fun _ => inOrder) 1 pairsTable = .done u ∧
      OrderFree u := by decide +kernel
  obtain ⟨u, hu, hfreeu⟩ := hsecond
  have hfree : ∀ i < 2, ∀ t, playRounds 9 (fun _ => inOrder) i pairsTable
      = .done t → OrderFree t := by
    intro i hi t ht
    have hcases : i = 0 ∨ i = 1 := by omega
    rcases hcases with rfl | rfl
    · rw [← Outcome.done.inj ht]
      decide +kernel
    · rw [hu] at ht
      rw [← Outcome.done.inj ht]
      exact hfreeu
  exact ⟨s', hdone, hwars, replays_agree (s := pairsTable) (by decide) hdone
    hfree (fun _ => outOfOrder)⟩

/-- The sorted deck with two cards exchanged: two players start with a pair of
    twos, and `B` wins the war over them. -/
def warDeck : List Card :=
  cardsAt ([0, 1, 2, 3, 4, 8, 6, 7, 5] ++ (List.range 43).map (· + 9))

theorem warDeck_perm : warDeck.Perm Deck.subDeck := by decide +kernel

/-- After one round of that game the hand of `B` depends on the order of a
    dictionary. -/
theorem replays_differ :
    ∃ w d s' t', War.init 2 (stacked warDeck warDeck_perm) 1 = .done w ∧
      NewPlayers (seats [("A", []), ("B", [])]) ∧
      dealCards 60 (w.addPlayers (seats [("A", []), ("B", [])])) = .done d ∧
      playRounds 60 (fun _ => inOrder) 1 d = .done s' ∧
      playRounds 60 (fun _ => outOfOrder) 1 d = .done t' ∧
      hand t' "B" ≠ hand s' "B" ∧ ¬ SameState s' t' := by
  have hgame : ∃ w, War.init 2 (stacked warDeck warDeck_perm) 1 = .done w ∧
      ∃ d, dealCards 60 (w.addPlayers (seats [("A", []), ("B", [])]))
        = .done d ∧
      ∃ s', playRounds 60 (fun _ => inOrder) 1 d = .done s' ∧
      ∃ t', playRounds 60 (fun _ => outOfOrder) 1 d = .done t' ∧
        hand t' "B" ≠ hand s' "B" := by
    decide +kernel
  obtain ⟨w, hinit, d, hdeal, s', hs', t', ht', hne⟩ := hgame
  refine ⟨w, d, s', t', hinit, newPlayers_seats (by decide) (by decide),
    hdeal, hs', ht', hne, fun hsame => hne (hsame.1 "B").1⟩

end Orders
