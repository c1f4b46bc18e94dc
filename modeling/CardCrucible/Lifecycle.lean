import CardCrucible.Payout

/-! # Lifecycle — what holds from the deal to the last round

    Over whole games: the cards stay the same, elimination is final, and the
    game is over when one player has everything. -/

namespace Lifecycle

open Outcomes Arrangements Dictionaries CardModel DeckModel PlayerModel
open WarModel WarModel.War WarState WarTurn Comparisons WarRuns Spending
open Dealing Rounds GameStatus RoundLaws Conservation Games Payout

variable {Id : Type} [LinearOrder Id]

/-- **Cards are conserved** from before the deal through any number of rounds,
    and the game deck is empty at every round boundary. -/
theorem cards_conserved {s : War Id} (hwf : WellFormed s)
    (htwo : 2 ≤ (survivors s).length) :
    (∃ fuel s', dealCards fuel s = .done s') ∧
      ∀ s', Reaches s s' →
        allCards s' = allCards s ∧ s'.gameDeck.decks = [] := by
  refine ⟨⟨s.gameDeck.decks.length + 1, ?_⟩, fun s' h => ?_⟩
  · exact dealCards_returns (exists_inGame_of_two htwo) (Nat.lt_succ_self _)
  · exact ⟨h.allCards_eq hwf, h.decks_eq hwf⟩

theorem cards_conserved_three :
    ∃ d s', dealCards 9 threeTable = .done d ∧
      startRound 9 inOrder d = .done s' ∧
      allCards s' = allCards threeTable ∧ s'.gameDeck.decks = [] := by
  have hgame : ∃ d, dealCards 9 threeTable = .done d ∧
      ∃ s', startRound 9 inOrder d = .done s' ∧ True := by
    decide +kernel
  obtain ⟨d, hdeal, s', hrun, -⟩ := hgame
  obtain ⟨-, hkept⟩ :=
    cards_conserved (s := threeTable) (by decide) (by decide +kernel)
  obtain ⟨hall, hdeck⟩ := hkept s' (.round (.dealt hdeal) hrun)
  exact ⟨d, s', hdeal, hrun, hall, hdeck⟩

/-! ## Elimination -/

/-- The contestants of a war are its holders. -/
theorem contestants_war {holders : List Id} {prizeCards : List Card}
    {s : War Id} {cs : List (Comparison Id)} {e : WarExit Id}
    (hrun : WarRun holders prizeCards s cs e) :
    ∀ c ∈ cs, ∀ id ∈ c.contestants, id ∈ holders := by
  induction hrun with
  | drawn hempty => intro c hc; simp at hc
  | won hrc hlead =>
      intro c hc id hid
      rw [List.mem_singleton.mp hc] at hid
      exact hid
  | again hrc hnd htwo hlead hrest ih =>
      intro c hc id hid
      rcases List.mem_cons.mp hc with heq | htail
      · rw [heq] at hid
        exact hid
      · exact ((hlead id).mp (ih c htail id hid)).1

/-- Only players in the game are compared. -/
theorem contestants_round {s s' : War Id} {cs : List (Comparison Id)}
    (hrun : RoundRun s cs s') :
    ∀ c ∈ cs, ∀ id ∈ c.contestants, inGame s id = true := by
  have hfirst : ∀ rc, ∀ id ∈ (firstComparison s rc).contestants,
      inGame s id = true := fun _ id hid => (mem_placers.mp hid).1
  have hwar : ∀ {rc : Dictionary Id (List Card)} {holders : List Id}
      {cs : List (Comparison Id)} {e : WarExit Id},
      (∀ id, id ∈ holders ↔ LeadsRound s id) →
      WarRun holders (placedCards s) (afterPlacing s) cs e →
      ∀ c ∈ firstComparison s rc :: cs, ∀ id ∈ c.contestants,
        inGame s id = true := by
    intro rc holders cs e hlead hrun c hc id hid
    rcases List.mem_cons.mp hc with heq | htail
    · rw [heq] at hid
      exact hfirst _ id hid
    · exact mem_active.mp
        ((hlead id).mp (contestants_war hrun c htail id hid)).1
  cases hrun with
  | sole hrc hlead =>
      intro c hc id hid
      rw [List.mem_singleton.mp hc] at hid
      exact hfirst _ id hid
  | war hrc hnd htwo hlead hrun hwon => exact hwar hlead hrun
  | drawn hrc hnd htwo hlead hrun hthrown hleft hdealt =>
      exact hwar hlead hrun

/-- **Elimination is final**: an eliminated player has no cards and no later
    round asks it for one, compares it, deals to it or re-admits it. -/
theorem elimination_final {fuel₀ : Nat} {random : Nat → Arrangement Card}
    {n : Int} {w : War Id} {players : List (GamePlayer Id)}
    (hinit : War.init fuel₀ random n = .done w)
    (hplayers : NewPlayers players) {s : War Id}
    (h : Reaches (w.addPlayers players) s) :
    (∀ id, isOut s id = true → hand s id = []) ∧
    ∀ fuel o s', startRound fuel o s = .done s' →
      (∀ id, isOut s id = true →
        isOut s' id = true ∧ hand s' id = [] ∧
        s'.players.get? id = s.players.get? id ∧
        playedIn (roundComparisons fuel o s) id = [] ∧
        ∀ c ∈ roundComparisons fuel o s, id ∉ c.contestants) ∧
      (survivors s').length ≤ (survivors s).length := by
  have hready := newGame_ready hinit hplayers
  have hwf := h.wellFormed hready.wellFormed
  have hempty := h.out_empty hready
  refine ⟨hempty, ?_⟩
  intro fuel o s' hrun
  obtain ⟨s'', t, prizeCards, hround, hs'⟩ := startRound_spent hwf hrun
  obtain ⟨_, hcompared, -⟩ := startRound_inv hwf hrun
  have hwf' : WellFormed s' := (h.round hrun).wellFormed hready.wellFormed
  constructor
  · intro id hout
    obtain ⟨hnil, hsame⟩ := hround.out_unchanged hout
    have hsame' : s'.tournamentPlayer? id = s.tournamentPlayer? id := by
      rw [hs']
      exact hsame
    refine ⟨?_, ?_, ?_, hnil, ?_⟩
    · rw [isOut_congr hsame']
      exact hout
    · rw [hand_congr hsame']
      exact hempty id hout
    · rw [hwf'.get?_eq, hwf.get?_eq, hsame']
    · intro c hc hmem
      have hin := contestants_round hcompared c hc id hmem
      rw [inGame_eq_false_of_isOut hout] at hin
      simp at hin
  · -- nobody enters the game in a round
    refine length_survivors_le (fun id hin => hround.inGame_of ?_)
    rw [hs'] at hin
    exact hin

/-- Three players, of whom `C` loses its only card in the first round. -/
def oneCardHands : List (String × List Card) :=
  [("A", cardsAt [48, 44, 32]), ("B", cardsAt [40, 41, 42]),
    ("C", cardsAt [0])]

def oneCardSeats : List (GamePlayer String) := seats oneCardHands

theorem newPlayers_oneCard : NewPlayers oneCardSeats :=
  newPlayers_seats (by decide) (by decide)

/-- After two rounds `C` is out, and the third leaves it alone. -/
theorem elimination_final_oneCard :
    ∃ w d s s', War.init 2 (fun _ => .keep) 0 = .done w ∧
      dealCards 9 (w.addPlayers oneCardSeats) = .done d ∧
      playRounds 9 (fun _ => inOrder) 2 d = .done s ∧
      isOut s "C" = true ∧ hand s "C" = [] ∧
      startRound 9 inOrder s = .done s' ∧
      (isOut s' "C" = true ∧ hand s' "C" = [] ∧
        s'.players.get? "C" = s.players.get? "C" ∧
        playedIn (roundComparisons 9 inOrder s) "C" = [] ∧
        ∀ c ∈ roundComparisons 9 inOrder s, "C" ∉ c.contestants) ∧
      (survivors s').length ≤ (survivors s).length := by
  have hgame : ∃ w, War.init 2 (fun _ => .keep) 0 = .done w ∧
      ∃ d, dealCards 9 (w.addPlayers oneCardSeats) = .done d ∧
      ∃ s, playRounds 9 (fun _ => inOrder) 2 d = .done s ∧
      isOut s "C" = true ∧ ∃ s', startRound 9 inOrder s = .done s' ∧ True := by
    decide +kernel
  obtain ⟨w, hinit, d, hdeal, s, hs, hout, s', hrun, -⟩ := hgame
  obtain ⟨hempty, hround⟩ := elimination_final hinit newPlayers_oneCard
    (playRounds_reaches (.dealt hdeal) hs)
  obtain ⟨hfinal, hfewer⟩ := hround 9 inOrder s' hrun
  exact ⟨w, d, s, s', hinit, hdeal, hs, hout, hempty "C" hout, hrun,
    hfinal "C" hout, hfewer⟩

/-! ## The end of a game -/

/-- The only player in the game of a reachable state has all the cards. -/
theorem hand_of_sole {s₀ s : War Id} (hready : Ready s₀) (h : Reaches s₀ s)
    {w : Id} (hw : survivors s = [w]) :
    (hand s w : Multiset Card) = allCards s₀ ∧
      ∀ id, id ≠ w → hand s id = [] := by
  have hwf := h.wellFormed hready.wellFormed
  have hin : ∀ id, inGame s id = true ↔ id = w := by
    intro id
    rw [← mem_survivors, hw, List.mem_singleton]
  have hothers : ∀ id, id ≠ w → hand s id = [] := by
    intro id hne
    cases hp : s.tournamentPlayer? id with
    | none => exact hand_of_none hp
    | some p =>
        rcases hwf.inGame_or_isOut (mem_keys_of_some hp) with hstay | hout
        · exact absurd ((hin id).mp hstay) hne
        · exact h.out_empty hready id hout
  refine ⟨?_, hothers⟩
  rw [← h.allCards_eq hready.wellFormed, Conservation.allCards_eq hwf,
    h.decks_eq hready.wellFormed]
  -- every other hand is empty, so the sum has one term
  have hsum : handCards s = hand s w := by
    refine Finset.sum_eq_single w ?_ ?_
    · intro id _ hne
      rw [hothers id hne]
      rfl
    · intro hmem
      have hid := mem_keys_of_inGame ((hin w).mpr rfl)
      exact absurd (List.mem_toFinset.mpr hid) hmem
  rw [hsum]
  exact (add_zero _).symm

/-- **A finished game is won**: when a round returns with the game over, one
    player is left and holds the deck the game was created with; the game goes
    on while two players are left. -/
theorem finished_game_won {fuel₀ : Nat} {random : Nat → Arrangement Card}
    {n : Int} {w : War Id} {players : List (GamePlayer Id)}
    (hinit : War.init fuel₀ random n = .done w)
    (hplayers : NewPlayers players)
    (hnone : ∀ g ∈ players, g.toPlayer.cards = []) {s : War Id}
    (h : Reaches (w.addPlayers players) s) {fuel : Nat} {o : Schedule Id}
    {s' : War Id} (hrun : startRound fuel o s = .done s') :
    (s'.gameover = true →
      ∃ winner, (∀ id, inGame s' id = true ↔ id = winner) ∧
        (hand s' winner).Perm w.gameDeck.decks ∧
        ∀ id, id ≠ winner → hand s' id = []) ∧
    (2 ≤ (survivors s').length → s'.gameover = false) := by
  have hready := newGame_ready hinit hplayers
  have h' := h.round hrun
  have hover := h'.gameover_iff hready
  constructor
  · intro hend
    obtain ⟨winner, hsole⟩ := List.length_eq_one_iff.mp (hover.mp hend)
    obtain ⟨hall, hothers⟩ := hand_of_sole hready h' hsole
    refine ⟨winner, ?_, ?_, hothers⟩
    · intro id
      rw [← mem_survivors, hsole, List.mem_singleton]
    · rw [newGame_cards hinit hplayers hnone] at hall
      exact Multiset.coe_eq_coe.mp hall
  · intro htwo
    refine Bool.eq_false_iff.mpr (fun hend => ?_)
    have hone := hover.mp hend
    omega

/-- A deck that gives three players a game of one round: `A` starts with a
    two, and `B` and `C` tie in every comparison until they have no cards. -/
def drawDeck : List Card :=
  cardsAt [0, 4, 5, 1, 34, 44, 2, 8, 9, 3, 35, 45, 6, 12, 13, 7, 38, 46, 10,
    16, 17, 11, 39, 47, 14, 20, 21, 15, 40, 48, 18, 24, 25, 19, 41, 49, 22,
    28, 29, 23, 42, 50, 26, 32, 33, 27, 43, 51, 30, 36, 37, 31]

theorem drawDeck_perm : drawDeck.Perm Deck.subDeck := by decide +kernel

/-- The players of that game. -/
def threeSeats : List (GamePlayer String) :=
  seats [("A", []), ("B", []), ("C", [])]

theorem newPlayers_three : NewPlayers threeSeats :=
  newPlayers_seats (by decide) (by decide)

theorem finished_game_won_three :
    ∃ w d s', War.init 2 (stacked drawDeck drawDeck_perm) 1 = .done w ∧
      dealCards 60 (w.addPlayers threeSeats) = .done d ∧
      startRound 60 inOrder d = .done s' ∧
      ∃ winner, (hand s' winner).Perm w.gameDeck.decks := by
  have hgame : ∃ w, War.init 2 (stacked drawDeck drawDeck_perm) 1 = .done w ∧
      ∃ d, dealCards 60 (w.addPlayers threeSeats) = .done d ∧
      ∃ s', startRound 60 inOrder d = .done s' ∧ s'.gameover = true := by
    decide +kernel
  obtain ⟨w, hinit, d, hdeal, s', hrun, hover⟩ := hgame
  have hnone : ∀ g ∈ threeSeats, g.toPlayer.cards = [] := by decide
  obtain ⟨winner, -, hperm, -⟩ :=
    (finished_game_won hinit newPlayers_three hnone (.dealt hdeal) hrun).1
      hover
  exact ⟨w, d, s', hinit, hdeal, hrun, winner, hperm⟩

end Lifecycle
