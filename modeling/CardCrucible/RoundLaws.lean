import CardCrucible.GameStatus

/-! # Round laws — what a round does to hands, deck and eliminations

    Whatever path a round takes, it is a stretch of spending followed by one
    payout: to a winner who is still in the game, or through the game deck to
    everybody who is.  `RoundSpent` says so, and the laws of a round are read
    off it without another look at the paths. -/

namespace RoundLaws

open Outcomes Arrangements Dictionaries CardModel DeckModel PlayerModel
open WarModel WarModel.War WarState WarTurn Comparisons WarRuns Spending
open Dealing Rounds GameStatus

variable {Id : Type} [LinearOrder Id]

/-- The table of a draw: its cards are in the game deck. -/
def drawnTable (t : War Id) (prizeCards : List Card) : War Id :=
  { t with
    roundWinner := none
    gameDeck := t.gameDeck.setDeckCards prizeCards }

omit [LinearOrder Id] in
/-- The setter takes effect if the deck is empty. -/
theorem decks_drawnTable {t : War Id} (h : t.gameDeck.decks = [])
    (prizeCards : List Card) :
    (drawnTable t prizeCards).gameDeck.decks = prizeCards := by
  show (t.gameDeck.setDeckCards prizeCards).decks = prizeCards
  simp only [Deck.setDeckCards]
  rw [h]
  rfl

/-- **A round, said at once**: the players in the game put down the cards
    recorded in its comparisons, which make up the prize cards, and the prize
    cards are paid to a winner or dealt out again. -/
structure RoundSpent (s : War Id) (cs : List (Comparison Id)) (s' t : War Id)
    (prizeCards : List Card) : Prop where
  spent : Spent s t (active s) (playedIn cs)
  prize : (prizeCards : Multiset Card)
    = ∑ id ∈ (active s).toFinset, (playedIn cs id : Multiset Card)
  exit : (∃ w, inGame t w = true ∧
      s' = { payOut w prizeCards t with roundWinner := some w }) ∨
    ((∃ id, inGame t id = true) ∧
      ∃ share, Dealt (drawnTable t prizeCards) s' share [])

/-- The cards placed are what the first comparison records. -/
theorem spent_placing {s : War Id} {rc : Dictionary Id (List Card)}
    (hrc : Records s 1 (active s) rc) :
    Spent s (afterPlacing s) (active s) (fun id => rc.getD id []) ∧
      (placedCards s : Multiset Card)
        = ∑ id ∈ (active s).toFinset, (rc.getD id [] : Multiset Card) :=
  ⟨Spent.recorded hrc, sum_piles (nodup_active s) hrc⟩

/-- Placing the cards and a war spend one after the other. -/
theorem spent_war {s : War Id} {rc : Dictionary Id (List Card)}
    {holders : List Id} {cs : List (Comparison Id)} {e : WarExit Id}
    {t : War Id} (hrc : Records s 1 (active s) rc)
    (hlead : ∀ id, id ∈ holders ↔ LeadsRound s id)
    (hwar : WarSpent holders (placedCards s) (afterPlacing s) cs e t) :
    Spent s t (active s) (playedIn (firstComparison s rc :: cs)) ∧
      (e.prizeCards : Multiset Card)
        = ∑ id ∈ (active s).toFinset,
            (playedIn (firstComparison s rc :: cs) id : Multiset Card) := by
  obtain ⟨hplace, hplaced⟩ := spent_placing hrc
  have hsub : ∀ id ∈ holders, id ∈ active s :=
    fun id hid => ((hlead id).mp hid).1
  obtain ⟨taken, htaken, hsum⟩ := hwar.prize
  refine ⟨(hplace.trans hwar.spent hsub).congr (fun _ => rfl), ?_⟩
  rw [htaken, ← Multiset.coe_add, hplaced, hsum,
    sum_taken_subset hsub (fun id hid => (hwar.spent.others id hid).1),
    ← sum_append]
  rfl

theorem roundSpent {s s' : War Id} {cs : List (Comparison Id)}
    (hrun : RoundRun s cs s') :
    ∃ t prizeCards, RoundSpent s cs s' t prizeCards := by
  cases hrun with
  | @sole rc w hrc hlead =>
      obtain ⟨hspent, hsum⟩ := spent_placing hrc
      have hplayed : ∀ id, playedIn [firstComparison s rc] id
          = rc.getD id [] := fun id => List.append_nil _
      refine ⟨afterPlacing s, placedCards s, hspent.congr hplayed, ?_,
        Or.inl ⟨w, ?_, rfl⟩⟩
      · rw [hsum]
        exact Finset.sum_congr rfl (fun id _ => by rw [hplayed id])
      · exact inGame_of_leads Nat.zero_lt_one
          (fun _ hk => mem_active.mp hk) ((hlead w).mpr rfl)
  | @war rc holders cs e hrc hnd htwo hlead hrun hwon =>
      obtain ⟨t, hwar⟩ := warSpent hrun (holders_first hnd hlead)
      obtain ⟨hspent, hsum⟩ := spent_war hrc hlead hwar
      refine ⟨t, e.prizeCards, hspent, hsum, Or.inl ?_⟩
      obtain ⟨w, -, hin, hstate⟩ := hwar.of_returned hwon
      exact ⟨w, hin, hstate⟩
  | @drawn rc holders ids cs e s' share hrc hnd htwo hlead hrun hthrown hleft
      hdealt =>
      obtain ⟨t, hwar⟩ := warSpent hrun (holders_first hnd hlead)
      obtain ⟨hspent, hsum⟩ := spent_war hrc hlead hwar
      refine ⟨t, e.prizeCards, hspent, hsum, Or.inr ?_⟩
      rw [hwar.of_thrown hthrown] at hleft hdealt
      exact ⟨hleft, share, hdealt⟩

/-! ## The laws of one round -/

/-- Registered players are out or in, never both. -/
theorem inGame_eq_false_of_isOut {s : War Id} {id : Id}
    (h : isOut s id = true) : inGame s id = false := by
  cases hin : inGame s id with
  | false => rfl
  | true =>
      rw [not_isOut_of_inGame hin] at h
      simp at h

/-- Who is out after dealing was out before. -/
theorem isOut_dealt {s s' : War Id} {share : Id → List Card}
    {rest : List Card} (h : Dealt s s' share rest) (id : Id) :
    isOut s' id = isOut s id := by
  rw [h.state]
  exact isOut_updatePlayers (f := fun id p => p.addToCards (share id))
    (fun _ _ => rfl) s id

namespace RoundSpent

variable {s s' t : War Id} {cs : List (Comparison Id)} {prizeCards : List Card}

theorem keys_eq (h : RoundSpent s cs s' t prizeCards) :
    s'.players.keys = s.players.keys := by
  rw [← h.spent.keys_eq]
  rcases h.exit with ⟨w, -, hs'⟩ | ⟨-, share, hdealt⟩
  · rw [hs']
    exact keys_payOut w prizeCards t
  · exact hdealt.keys_eq

theorem name_eq (h : RoundSpent s cs s' t prizeCards) (id : Id) :
    nameOf s' id = nameOf s id := by
  rw [← h.spent.name_eq id]
  rcases h.exit with ⟨w, -, hs'⟩ | ⟨-, share, hdealt⟩
  · rw [hs']
    exact nameOf_payOut w prizeCards t id
  · exact hdealt.name_eq id

/-- The number of sub-decks is fixed. -/
theorem numSubDecks_eq (h : RoundSpent s cs s' t prizeCards) :
    s'.gameDeck.numSubDecks = s.gameDeck.numSubDecks := by
  rw [← h.spent.gameDeck_eq]
  rcases h.exit with ⟨w, -, hs'⟩ | ⟨-, share, hdealt⟩
  · rw [hs']
    rfl
  · rw [hdealt.state]
    show (t.gameDeck.setDeckCards prizeCards).numSubDecks = _
    simp only [Deck.setDeckCards]
    by_cases hdeck : t.gameDeck.decks.isEmpty = true
    · rw [if_pos hdeck]
    · rw [if_neg hdeck]

theorem wellFormed (h : RoundSpent s cs s' t prizeCards)
    (hwf : WellFormed s) : WellFormed s' := by
  have ht := h.spent.wellFormed hwf
  rcases h.exit with ⟨w, -, hs'⟩ | ⟨-, share, hdealt⟩
  · rw [hs']
    exact ht.payOut w prizeCards
  · exact hdealt.wellFormed ht

/-- The game deck is empty after a round if it was before. -/
theorem decks_eq (h : RoundSpent s cs s' t prizeCards)
    (hdeck : s.gameDeck.decks = []) : s'.gameDeck.decks = [] := by
  rcases h.exit with ⟨w, -, hs'⟩ | ⟨-, share, hdealt⟩
  · rw [hs']
    show t.gameDeck.decks = []
    rw [h.spent.gameDeck_eq]
    exact hdeck
  · exact hdealt.decks_eq

theorem gameover_eq (h : RoundSpent s cs s' t prizeCards) :
    s'.gameover = s.gameover := by
  rw [← h.spent.gameover_eq]
  rcases h.exit with ⟨w, -, hs'⟩ | ⟨-, share, hdealt⟩
  · rw [hs']
    rfl
  · rw [hdealt.state]
    rfl

/-- The payout admits and eliminates nobody. -/
theorem inGame_exit (h : RoundSpent s cs s' t prizeCards) (id : Id) :
    inGame s' id = inGame t id := by
  rcases h.exit with ⟨w, -, hs'⟩ | ⟨-, share, hdealt⟩
  · rw [hs']
    exact inGame_payOut w prizeCards t id
  · exact hdealt.inGame_eq id

theorem isOut_exit (h : RoundSpent s cs s' t prizeCards) (id : Id) :
    isOut s' id = isOut t id := by
  rcases h.exit with ⟨w, -, hs'⟩ | ⟨-, share, hdealt⟩
  · rw [hs']
    exact isOut_payOut w prizeCards t id
  · exact isOut_dealt hdealt id

/-- Nobody enters the game in a round. -/
theorem inGame_of (h : RoundSpent s cs s' t prizeCards) {id : Id}
    (hin : inGame s' id = true) : inGame s id = true :=
  h.spent.inGame_of id ((h.inGame_exit id).symm.trans hin)

/-- Somebody is left in the game. -/
theorem exists_inGame (h : RoundSpent s cs s' t prizeCards) :
    ∃ id, inGame s' id = true := by
  rcases h.exit with ⟨w, hin, -⟩ | ⟨⟨id, hin⟩, -⟩
  · exact ⟨w, (h.inGame_exit w).trans hin⟩
  · exact ⟨id, (h.inGame_exit id).trans hin⟩

/-- The payout leaves whoever is not in the game as it is. -/
theorem exit_unchanged (h : RoundSpent s cs s' t prizeCards) {id : Id}
    (hin : inGame t id = false) :
    s'.tournamentPlayer? id = t.tournamentPlayer? id := by
  rcases h.exit with ⟨w, hw, hs'⟩ | ⟨-, share, hdealt⟩
  · rw [hs']
    have hne : id ≠ w := by
      intro heq
      rw [heq, hw] at hin
      simp at hin
    exact tournamentPlayer?_payOut_of_ne prizeCards t hne
  · exact hdealt.of_not_inGame hin

/-- **A round leaves an eliminated player as it is.** -/
theorem out_unchanged (h : RoundSpent s cs s' t prizeCards) {id : Id}
    (hout : isOut s id = true) :
    playedIn cs id = [] ∧
      s'.tournamentPlayer? id = s.tournamentPlayer? id := by
  have hin := inGame_eq_false_of_isOut hout
  -- it is not among those who place a card
  have hnot : id ∉ active s := by
    intro hmem
    rw [mem_active, hin] at hmem
    simp at hmem
  obtain ⟨hnil, hsame⟩ := h.spent.others id hnot
  refine ⟨hnil, Eq.trans ?_ hsame⟩
  refine h.exit_unchanged ?_
  exact inGame_eq_false_of_isOut (h.spent.stay id hout)

/-- **Eliminated players have empty hands** after a round if they had
    before. -/
theorem out_empty (h : RoundSpent s cs s' t prizeCards)
    (hempty : ∀ id, isOut s id = true → hand s id = []) :
    ∀ id, isOut s' id = true → hand s' id = [] := by
  intro id hout
  rw [h.isOut_exit] at hout
  rw [hand_congr (h.exit_unchanged (inGame_eq_false_of_isOut hout))]
  rcases h.spent.out id hout with hs | hnil
  · have happ := h.spent.hand_eq id
    rw [hempty id hs] at happ
    exact (List.append_eq_nil_iff.mp happ.symm).2
  · exact hnil

/-- The round winner is the player who is paid. -/
theorem of_roundWinner (h : RoundSpent s cs s' t prizeCards) {w : Id}
    (hw : s'.roundWinner = some w) :
    inGame t w = true ∧
      s' = { payOut w prizeCards t with roundWinner := some w } := by
  rcases h.exit with ⟨w', hin, hs'⟩ | ⟨-, share, hdealt⟩
  · have hw' : some w' = some w := by
      rw [hs'] at hw
      exact hw
    rw [Option.some.inj hw'] at hin hs'
    exact ⟨hin, hs'⟩
  · -- a draw has unset the winner, and dealing does not set it
    rw [hdealt.state] at hw
    cases hw

end RoundSpent

/-- **Every round that returns**, said at once. -/
theorem startRound_spent {s s' : War Id} (hwf : WellFormed s) {fuel : Nat}
    {o : Schedule Id} (h : startRound fuel o s = .done s') :
    ∃ s'' t prizeCards,
      RoundSpent s (roundComparisons fuel o s) s'' t prizeCards ∧
        s' = { s'' with
          gameover := s.gameover || decide ((survivors s'').length = 1) } := by
  obtain ⟨s'', hrun, hs'⟩ := startRound_inv hwf h
  obtain ⟨t, prizeCards, hspent⟩ := roundSpent hrun
  refine ⟨s'', t, prizeCards, hspent, ?_⟩
  obtain ⟨id, hin⟩ := hspent.exists_inGame
  have hplayers : s''.players.keys ≠ [] :=
    List.ne_nil_of_mem (mem_keys_of_inGame hin)
  rw [hs', updateGameStatus_eq hplayers, hspent.gameover_eq]

/-- A round keeps the players well formed. -/
theorem wellFormed_startRound {s s' : War Id} (hwf : WellFormed s)
    {fuel : Nat} {o : Schedule Id} (h : startRound fuel o s = .done s') :
    WellFormed s' := by
  obtain ⟨s'', t, prizeCards, hspent, hs'⟩ := startRound_spent hwf h
  rw [hs']
  exact hspent.wellFormed hwf

/-- A round that starts with an empty deck ends with one. -/
theorem decks_startRound {s s' : War Id} (hwf : WellFormed s)
    (hdeck : s.gameDeck.decks = []) {fuel : Nat} {o : Schedule Id}
    (h : startRound fuel o s = .done s') : s'.gameDeck.decks = [] := by
  obtain ⟨s'', t, prizeCards, hspent, hs'⟩ := startRound_spent hwf h
  rw [hs']
  exact hspent.decks_eq hdeck

/-- Somebody is left in the game by a round. -/
theorem exists_inGame_startRound {s s' : War Id} (hwf : WellFormed s)
    {fuel : Nat} {o : Schedule Id} (h : startRound fuel o s = .done s') :
    ∃ id, inGame s' id = true := by
  obtain ⟨s'', t, prizeCards, hspent, hs'⟩ := startRound_spent hwf h
  rw [hs']
  exact hspent.exists_inGame

/-- The winner of a round is in the game. -/
theorem inGame_winner {s s' : War Id} (hwf : WellFormed s) {fuel : Nat}
    {o : Schedule Id} (h : startRound fuel o s = .done s') {w : Id}
    (hw : s'.roundWinner = some w) : inGame s' w = true := by
  obtain ⟨s'', t, prizeCards, hspent, hs'⟩ := startRound_spent hwf h
  rw [hs'] at hw
  rw [hs']
  exact (hspent.inGame_exit w).trans (hspent.of_roundWinner hw).1

/-- The flag that ends the game, told from the players in it. -/
theorem gameover_startRound {s s' : War Id} (hwf : WellFormed s)
    {fuel : Nat} {o : Schedule Id} (h : startRound fuel o s = .done s') :
    s'.gameover
      = (s.gameover || decide ((survivors s').length = 1)) := by
  obtain ⟨s'', t, prizeCards, -, hs'⟩ := startRound_spent hwf h
  rw [hs']
  rfl

/-- The winner of a round has what it did not put down, and then all that was
    put down. -/
theorem hand_winner {s s' : War Id} (hwf : WellFormed s) {fuel : Nat}
    {o : Schedule Id} (h : startRound fuel o s = .done s') {w : Id}
    (hw : s'.roundWinner = some w) :
    ∃ won : List Card,
      won.Perm ((active s).flatMap (playedIn (roundComparisons fuel o s))) ∧
      hand s' w
        = leftOver s (playedIn (roundComparisons fuel o s)) w ++ won := by
  obtain ⟨s'', t, prizeCards, hround, hs'⟩ := startRound_spent hwf h
  have hw' : s''.roundWinner = some w := by
    rw [hs'] at hw
    exact hw
  obtain ⟨hin, hpaid⟩ := hround.of_roundWinner hw'
  refine ⟨prizeCards, ?_, ?_⟩
  · rw [← Multiset.coe_eq_coe, hround.prize, coe_flatMap (nodup_active s)]
  · rw [hs', hpaid, leftOver_eq hround.spent]
    exact hand_payOut_self prizeCards hin

end RoundLaws
