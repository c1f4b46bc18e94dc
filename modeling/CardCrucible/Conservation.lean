import CardCrucible.RoundLaws

/-! # Conservation — no card is lost or duplicated

    The cards of a game are the hands of its players and the game deck.  A
    round takes them through `roundCards`, `warParticipants`, the prize cards
    and, after a draw, the game deck, whose setter drops an assignment unless
    the deck is empty; it is, between rounds. -/

namespace Conservation

open Outcomes Arrangements Dictionaries CardModel DeckModel PlayerModel
open WarModel WarModel.War WarState WarTurn Comparisons Spending Dealing
open Rounds GameStatus RoundLaws

variable {Id : Type} [LinearOrder Id]

omit [LinearOrder Id] in
/-- All cards of a game: every player's hand and the game deck. -/
def allCards (s : War Id) : Multiset Card :=
  (s.players.entries.map
    (fun e => (e.2.toPlayer.cards : Multiset Card))).sum + s.gameDeck.decks

/-- The hands of the registered players, added up. -/
def handCards (s : War Id) : Multiset Card :=
  ∑ id ∈ s.players.keys.toFinset, (hand s id : Multiset Card)

theorem allCards_eq {s : War Id} (hwf : WellFormed s) :
    allCards s = handCards s + s.gameDeck.decks := by
  simp only [allCards, handCards]
  refine congrArg (· + _) ?_
  refine Dictionary.sum_entries s.players
    (fun _ g => (g.toPlayer.cards : Multiset Card)) _ ?_
  intro id g hg
  obtain ⟨p, hp, -⟩ := hwf (id, g) (Dictionary.get?_eq_some.mp hg)
  have hg' : g = .tournament p := hp
  have hsome : s.tournamentPlayer? id = some p := by
    simp only [tournamentPlayer?]
    rw [hg, hg']
    rfl
  rw [hand_of_some hsome, hg']
  rfl

/-- Dealing moves cards from the deck to the hands. -/
theorem handCards_dealt {s s' : War Id} {share : Id → List Card}
    {rest : List Card} (h : Dealt s s' share rest) :
    handCards s' + rest = handCards s + s.gameDeck.decks := by
  have hhands : handCards s' = handCards s
      + ∑ id ∈ s.players.keys.toFinset, (share id : Multiset Card) := by
    simp only [handCards]
    rw [h.keys_eq, ← sum_append]
    exact Finset.sum_congr rfl (fun id _ => by rw [h.hand_eq id])
  rw [hhands, h.cards, add_assoc]

theorem allCards_dealt {s s' : War Id} {share : Id → List Card}
    {rest : List Card} (hwf : WellFormed s) (h : Dealt s s' share rest) :
    allCards s' = allCards s := by
  rw [allCards_eq hwf, allCards_eq (h.wellFormed hwf), h.decks_eq]
  exact handCards_dealt h

/-- Paying a player who is in the game adds the cards to the hands. -/
theorem handCards_payOut {t : War Id} {w : Id} (hin : inGame t w = true)
    (cards : List Card) :
    handCards (payOut w cards t) = handCards t + cards := by
  have hmem : w ∈ t.players.keys.toFinset :=
    List.mem_toFinset.mpr (mem_keys_of_inGame hin)
  simp only [handCards]
  rw [keys_payOut, ← Finset.add_sum_erase _ _ hmem,
    ← Finset.add_sum_erase _ (fun id => (hand t id : Multiset Card)) hmem,
    hand_payOut_self cards hin]
  -- nobody else is paid
  have hothers : ∑ id ∈ t.players.keys.toFinset.erase w,
        (hand (payOut w cards t) id : Multiset Card)
      = ∑ id ∈ t.players.keys.toFinset.erase w,
        (hand t id : Multiset Card) :=
    Finset.sum_congr rfl (fun id hid => by
      rw [hand_payOut_of_ne cards t (Finset.ne_of_mem_erase hid)])
  rw [hothers, ← Multiset.coe_add]
  exact add_right_comm _ _ _

/-- What the players spend is what their hands lose. -/
theorem handCards_spent {s t : War Id} {ids : List Id}
    {taken : Id → List Card} (h : Spent s t ids taken)
    (hids : ∀ id ∈ ids, id ∈ s.players.keys) :
    handCards s = handCards t
      + ∑ id ∈ ids.toFinset, (taken id : Multiset Card) := by
  simp only [handCards]
  rw [sum_taken_subset hids (fun id hid => (h.others id hid).1), h.keys_eq,
    add_comm, ← sum_append]
  exact Finset.sum_congr rfl (fun id _ => by rw [h.hand_eq id])

theorem mem_keys_of_active {s : War Id} {id : Id} (h : id ∈ active s) :
    id ∈ s.players.keys := by
  exact mem_keys_of_inGame (mem_active.mp h)

/-- **A round conserves the cards**, if the game deck is empty. -/
theorem allCards_round {s s' t : War Id} {cs : List (Comparison Id)}
    {prizeCards : List Card} (hwf : WellFormed s)
    (hdeck : s.gameDeck.decks = [])
    (h : RoundSpent s cs s' t prizeCards) : allCards s' = allCards s := by
  have hspent := handCards_spent h.spent (fun _ hid => mem_keys_of_active hid)
  rw [← h.prize] at hspent
  have hdeckt : t.gameDeck.decks = [] := by
    rw [h.spent.gameDeck_eq]
    exact hdeck
  rw [allCards_eq hwf, allCards_eq (h.wellFormed hwf), h.decks_eq hdeck,
    hdeck, hspent]
  refine congrArg (· + _) ?_
  rcases h.exit with ⟨w, hin, hs'⟩ | ⟨-, share, hdealt⟩
  · rw [hs']
    exact handCards_payOut hin prizeCards
  · have hcards := handCards_dealt hdealt
    rw [decks_drawnTable hdeckt] at hcards
    exact (add_zero _).symm.trans hcards

end Conservation
