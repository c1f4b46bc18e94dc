import CardCrucible.Games

/-! # War law — how a war ends and what it leaves

    A war is always decided within one call more than its holders have cards.
    Either one holder collects everything put down, or at least two of them
    tie to the end and are all eliminated without a card.  Nobody outside the
    war is touched. -/

namespace WarLaw

open Outcomes Arrangements Dictionaries CardModel DeckModel PlayerModel
open WarModel WarModel.War WarState WarTurn Comparisons WarRuns Spending
open Dealing Rounds GameStatus RoundLaws Games

variable {Id : Type} [LinearOrder Id]

/-- `w` wins the war: it is a holder still in the game, and the prize cards
    are at the end of its hand. -/
def WonBy (s : War Id) (holders : List Id) (put : Id → List Card)
    (e : WarExit Id) (w : Id) : Prop :=
  w ∈ holders ∧ e.thrown = none ∧ e.state.roundWinner = some w ∧
    inGame e.state w = true ∧
    hand e.state w = leftOver s put w ++ e.prizeCards ∧
    ∀ id, id ≠ w → hand e.state id = leftOver s put id

/-- The war throws a draw among `ids`: at least two holders, all eliminated
    without a card. -/
def DrawnAmong (s : War Id) (holders : List Id) (put : Id → List Card)
    (e : WarExit Id) (ids : List Id) : Prop :=
  e.thrown = some (.draw ids) ∧ ids.Nodup ∧ 2 ≤ ids.length ∧
    (∀ id ∈ ids, id ∈ holders ∧ isOut e.state id = true ∧
      hand e.state id = []) ∧
    e.state.roundWinner = none ∧ ∀ id, hand e.state id = leftOver s put id

/-- **The law of war.** -/
theorem war_outcome {s : War Id} (hwf : WellFormed s) {holders : List Id}
    (hnd : holders.Nodup) (htwo : 2 ≤ holders.length)
    (hin : ∀ id ∈ holders, inGame s id = true) (prizeCards : List Card)
    (o : Schedule Id) (depth : Nat) :
    ∃ (e : WarExit Id) (put : Id → List Card) (taken : List Card),
      war ((∑ id ∈ holders.toFinset, (hand s id).length) + 1) o depth holders
        prizeCards s = .done e ∧
      ((∃ w, WonBy s holders put e w) ∨ ∃ ids, DrawnAmong s holders put e ids) ∧
      e.prizeCards = prizeCards ++ taken ∧
      taken.Perm (holders.flatMap put) ∧
      (∀ id, put id <+: hand s id) ∧
      ∀ id, id ∉ holders → e.state.players.get? id = s.players.get? id := by
  have h : Holders s holders := ⟨hnd, hin⟩
  obtain ⟨e, hdone⟩ := war_returns o _ depth holders prizeCards s hwf h
    (Nat.lt_succ_self (holding s holders))
  have hrun := war_inv o _ _ _ _ _ _ hwf h hdone
  obtain ⟨t, hwar⟩ := warSpent hrun h
  obtain ⟨taken, htaken, hsum⟩ := hwar.prize
  have hspent := hwar.spent
  have hrest := leftOver_eq hspent
  refine ⟨e, _, taken, hdone, ?_, htaken, ?_, hspent.prefix_hand, ?_⟩
  · rcases hwar.exit with ⟨w, hw, hint, hnone, hstate⟩ | ⟨ids, hthrown, hstate⟩
    · refine Or.inl ⟨w, hw, hnone, ?_, ?_, ?_, ?_⟩
      · rw [hstate]
      · rw [hstate]
        exact (inGame_payOut w e.prizeCards t w).trans hint
      · rw [hstate, hrest]
        exact hand_payOut_self e.prizeCards hint
      · intro id hne
        rw [hstate, hrest]
        exact hand_payOut_of_ne e.prizeCards t hne
    · have hfacts := drawFacts hrun h htwo hthrown
      refine Or.inr ⟨ids, hthrown, hfacts.nodup, hfacts.two, ?_,
        hfacts.roundWinner, ?_⟩
      · exact fun id hid =>
          ⟨hfacts.sub id hid, hfacts.out id hid, hfacts.empty id hid⟩
      · intro id
        rw [hstate, hrest]
        rfl
  · rw [← Multiset.coe_eq_coe, hsum, coe_flatMap hnd]
  · -- outside the war the entries of the dictionary are the same
    intro id hid
    obtain ⟨-, hsame⟩ := hspent.others id hid
    have hexit : WellFormed e.state ∧
        e.state.tournamentPlayer? id = t.tournamentPlayer? id := by
      rcases hwar.exit with ⟨w, hw, -, -, hstate⟩ | ⟨ids, -, hstate⟩
      · rw [hstate]
        exact ⟨(hspent.wellFormed hwf).payOut w e.prizeCards,
          tournamentPlayer?_payOut_of_ne e.prizeCards t
            (fun heq => hid (heq ▸ hw))⟩
      · rw [hstate]
        exact ⟨hspent.wellFormed hwf, rfl⟩
    rw [hexit.1.get?_eq, hwf.get?_eq, hexit.2, hsame]

/-- Two players with three cards each. -/
def pairTable : War String :=
  table [("A", [⟨.clubs, .five⟩, ⟨.clubs, .six⟩, ⟨.clubs, .seven⟩]),
    ("B", [⟨.hearts, .five⟩, ⟨.hearts, .six⟩, ⟨.hearts, .two⟩])]

/-- They go to war over a pair of twos. -/
theorem war_outcome_pair :
    ∃ (e : WarExit String) (put : String → List Card),
      war ((∑ id ∈ ["A", "B"].toFinset, (hand pairTable id).length) + 1)
        inOrder 0 ["A", "B"] [⟨.clubs, .two⟩, ⟨.hearts, .two⟩] pairTable
        = .done e ∧
      ((∃ w, WonBy pairTable ["A", "B"] put e w) ∨
        ∃ ids, DrawnAmong pairTable ["A", "B"] put e ids) := by
  have hnd : ["A", "B"].Nodup := by decide
  obtain ⟨e, put, taken, hdone, hexit, -⟩ :=
    war_outcome (s := pairTable) (by decide) hnd (by decide) (by decide)
      [⟨.clubs, .two⟩, ⟨.hearts, .two⟩] inOrder 0
  exact ⟨e, put, hdone, hexit⟩

end WarLaw
