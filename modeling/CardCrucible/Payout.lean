import CardCrucible.WarLaw

/-! # Payout — who wins a round and what it gets

    A round with a winner moves cards in one way only: every player loses a
    prefix of its hand and the winner appends all that was put down.  And the
    winner has led every comparison of the round, each of them among those who
    tied in the one before. -/

namespace Payout

open Outcomes Arrangements Dictionaries CardModel DeckModel PlayerModel
open WarModel WarModel.War WarState WarTurn Comparisons WarRuns Spending
open Dealing Rounds GameStatus RoundLaws Conservation Games

variable {Id : Type} [LinearOrder Id]

/-- **The payout of a round with a winner.** -/
theorem round_payout {s s' : War Id} (hwf : WellFormed s) {fuel : Nat}
    {o : Schedule Id} (h : startRound fuel o s = .done s') {w : Id}
    (hw : s'.roundWinner = some w) :
    (∀ id, playedIn (roundComparisons fuel o s) id <+: hand s id) ∧
    (∀ id, id ≠ w →
      hand s' id = leftOver s (playedIn (roundComparisons fuel o s)) id) ∧
    w ∈ s'.players.keys ∧ inGame s' w = true ∧
    ∃ prizeCards : List Card,
      prizeCards.Perm
        (s.players.keys.flatMap (playedIn (roundComparisons fuel o s))) ∧
      hand s' w = leftOver s (playedIn (roundComparisons fuel o s)) w
        ++ prizeCards := by
  obtain ⟨s'', t, prizeCards, hround, hs'⟩ := startRound_spent hwf h
  have hw' : s''.roundWinner = some w := by
    rw [hs'] at hw
    exact hw
  obtain ⟨hin, hpaid⟩ := hround.of_roundWinner hw'
  have hleft := leftOver_eq hround.spent
  have hin' : inGame s' w = true := by
    rw [hs', hpaid]
    exact (inGame_payOut w prizeCards t w).trans hin
  refine ⟨hround.spent.prefix_hand, ?_, mem_keys_of_inGame hin', hin',
    prizeCards, ?_, ?_⟩
  · intro id hne
    rw [hs', hpaid, hleft]
    exact hand_payOut_of_ne prizeCards t hne
  · -- players who place no card add nothing to the pot
    rw [← Multiset.coe_eq_coe, hround.prize, coe_flatMap s.players.nodup_keys]
    exact sum_taken_subset (fun _ hid => mem_keys_of_active hid)
      (fun id hid => (hround.spent.others id hid).1)
  · rw [hs', hpaid, hleft]
    exact hand_payOut_self prizeCards hin

/-- Three players; two of them can afford a war, the third runs short. -/
def threeTable : War String :=
  table [("A", [⟨.clubs, .ace⟩, ⟨.clubs, .two⟩, ⟨.clubs, .four⟩]),
    ("B", [⟨.hearts, .ace⟩, ⟨.hearts, .two⟩, ⟨.hearts, .five⟩]),
    ("C", [⟨.spades, .ace⟩])]

theorem round_payout_three :
    ∃ s', startRound 9 inOrder threeTable = .done s' ∧
      inGame s' "B" = true ∧
      ∀ id, id ≠ "B" → hand s' id = leftOver threeTable
        (playedIn (roundComparisons 9 inOrder threeTable)) id := by
  have hrun : ∃ s', startRound 9 inOrder threeTable = .done s' ∧
      s'.roundWinner = some "B" := by decide +kernel
  obtain ⟨s', hdone, hw⟩ := hrun
  obtain ⟨-, hothers, -, hin, -⟩ := round_payout (by decide) hdone hw
  exact ⟨s', hdone, hin, hothers⟩

/-! ## The chain of comparisons -/

/-- The next comparison is among those who tied at the top of this one. -/
def Follows (c c' : Comparison Id) : Prop :=
  (∀ id ∈ c'.contestants, id ∈ c.contestants) ∧
    ∀ id, id ∈ c'.contestants ↔ c.Leads id

/-- `w` is compared and still in the game, and every other contestant still in
    the game shows a card of no higher rank. -/
def Highest (c : Comparison Id) (w : Id) : Prop :=
  w ∈ c.contestants ∧ inGame c.table w = true ∧
    ∃ card, c.facing w = some card ∧
      ∀ id ∈ c.contestants, inGame c.table id = true →
        ∃ d, c.facing id = some d ∧ d.rank ≤ card.rank

/-- The same with every other contestant strictly below. -/
def StrictlyHighest (c : Comparison Id) (w : Id) : Prop :=
  ∃ card, c.facing w = some card ∧
    ∀ id ∈ c.contestants, id ≠ w → inGame c.table id = true →
      ∃ d, c.facing id = some d ∧ d.rank < card.rank

/-- Every contestant still in the game shows a card. -/
def Faced (c : Comparison Id) : Prop :=
  ∀ id ∈ c.contestants, inGame c.table id = true →
    ∃ d, c.facing id = some d

theorem highest_of_leads {c : Comparison Id} (hfaced : Faced c) {w : Id}
    (h : c.Leads w) : Highest c w := by
  obtain ⟨hw, card, hcard, hle⟩ := h
  refine ⟨hw, ?_, card, hcard, ?_⟩
  · cases hin : inGame c.table w with
    | true => rfl
    | false =>
        simp only [Comparison.facing] at hcard
        rw [hin] at hcard
        simp at hcard
  · intro id hid hin
    obtain ⟨d, hd⟩ := hfaced id hid hin
    exact ⟨d, hd, hle id hid d hd⟩

/-- A contestant who leads alone is strictly ahead: whoever matched it would
    lead as well. -/
theorem strictlyHighest_of_sole {c : Comparison Id} (hfaced : Faced c)
    {w : Id} (h : ∀ id, c.Leads id ↔ id = w) : StrictlyHighest c w := by
  obtain ⟨-, card, hcard, hle⟩ := (h w).mpr rfl
  refine ⟨card, hcard, ?_⟩
  intro id hid hne hin
  obtain ⟨d, hd⟩ := hfaced id hid hin
  -- whoever matched the card would lead as well
  refine ⟨d, hd, lt_of_not_ge (fun hge => hne ?_)⟩
  refine (h id).mp ⟨hid, d, hd, ?_⟩
  intro k hk e he
  exact le_trans (hle k hk e he) hge

/-- The contestants of a turn who are still in the game had the cards. -/
theorem faced_turnComparison {s : War Id} {need : Nat} (hneed : 0 < need)
    {ids contestants : List Id} {rc : Dictionary Id (List Card)}
    (hrc : Records s need ids rc) (hin : ∀ id ∈ ids, inGame s id = true)
    (hsub : ∀ id ∈ contestants, id ∈ ids) :
    Faced (turnComparison s need ids contestants rc) := by
  intro id hid hstay
  have hid' := hsub id hid
  have hlen := ((inGame_turn need ids s id).mp hstay).2 hid'
  obtain ⟨card, hcard⟩ := (shows_isSome hneed).mpr hlen
  exact ⟨card,
    (facing_turnComparison contestants hneed hrc hin hid').trans hcard⟩

/-- The comparison of the cards placed is among those who placed one. -/
theorem leads_firstComparison {s : War Id} {rc : Dictionary Id (List Card)}
    (hrc : Records s 1 (active s) rc) (id : Id) :
    (firstComparison s rc).Leads id ↔ LeadsRound s id := by
  have hin : ∀ k ∈ active s, inGame s k = true := fun _ hk => mem_active.mp hk
  have hface : ∀ k ∈ active s, (firstComparison s rc).facing k = shows s 1 k :=
    fun k hk => facing_turnComparison _ Nat.zero_lt_one hrc hin hk
  have hplaced : ∀ k ∈ active s, ∀ d, shows s 1 k = some d →
      k ∈ placers s := by
    intro k hk d hd
    refine mem_placers.mpr ⟨hin k hk, fun hnil => ?_⟩
    simp only [shows] at hd
    rw [hnil] at hd
    simp at hd
  have hact : ∀ k ∈ placers s, k ∈ active s := fun k hk =>
    mem_active.mpr (mem_placers.mp hk).1
  constructor
  · rintro ⟨hid, card, hcard, hle⟩
    have hid' := hact id hid
    refine ⟨hid', card, (hface id hid').symm.trans hcard, ?_⟩
    intro k hk d hd
    exact hle k (hplaced k hk d hd) d ((hface k hk).trans hd)
  · rintro ⟨hid, card, hcard, hle⟩
    refine ⟨hplaced id hid card hcard, card,
      (hface id hid).trans hcard, ?_⟩
    intro k hk d hd
    exact hle k (hact k hk) d ((hface k (hact k hk)).symm.trans hd)

/-- What a chain of comparisons among `first` says about its winner. -/
structure Earned (first : List Id) (cs : List (Comparison Id)) (w : Id) :
    Prop where
  head : ∃ c, cs.head? = some c ∧ ∀ id, id ∈ c.contestants ↔ id ∈ first
  chain : cs.IsChain Follows
  highest : ∀ c ∈ cs, Highest c w
  last : ∃ c, cs.getLast? = some c ∧ StrictlyHighest c w

/-- A comparison with a sole leader ends the chain. -/
theorem earned_single {first : List Id} {c : Comparison Id} {w : Id}
    (hfirst : c.contestants = first) (hfaced : Faced c)
    (hlead : ∀ id, c.Leads id ↔ id = w) : Earned first [c] w where
  head := ⟨c, rfl, fun _ => by rw [hfirst]⟩
  chain := List.isChain_singleton c
  highest := by
    intro c' hc'
    rw [List.mem_singleton.mp hc']
    exact highest_of_leads hfaced ((hlead w).mpr rfl)
  last := ⟨c, rfl, strictlyHighest_of_sole hfaced hlead⟩

/-- A comparison followed by a chain among its leaders. -/
theorem earned_cons {first next : List Id} {c : Comparison Id}
    {cs : List (Comparison Id)} {w : Id} (hfirst : c.contestants = first)
    (hfaced : Faced c) (hlead : ∀ id, id ∈ next ↔ c.Leads id)
    (h : Earned next cs w) : Earned first (c :: cs) w := by
  obtain ⟨c', hc', hmem⟩ := h.head
  obtain ⟨rest, hcs⟩ := List.head?_eq_some_iff.mp hc'
  have hfollows : Follows c c' :=
    ⟨fun id hid => ((hlead id).mp ((hmem id).mp hid)).1,
      fun id => (hmem id).trans (hlead id)⟩
  refine ⟨⟨c, rfl, fun _ => by rw [hfirst]⟩, ?_, ?_, ?_⟩
  · rw [hcs]
    refine List.isChain_cons_cons.mpr ⟨hfollows, ?_⟩
    rw [← hcs]
    exact h.chain
  · intro d hd
    rcases List.mem_cons.mp hd with heq | htail
    · rw [heq]
      have hw : w ∈ c'.contestants :=
        (h.highest c' (hcs ▸ List.mem_cons_self)).1
      exact highest_of_leads hfaced ((hfollows.2 w).mp hw)
    · exact h.highest d htail
  · obtain ⟨last, hlast, hstrict⟩ := h.last
    refine ⟨last, ?_, hstrict⟩
    rw [hcs] at hlast ⊢
    rw [List.getLast?_cons_cons]
    exact hlast

/-- The winner of a war has earned it. -/
theorem earned_war {holders : List Id} {prizeCards : List Card} {s : War Id}
    {cs : List (Comparison Id)} {e : WarExit Id}
    (hrun : WarRun holders prizeCards s cs e) {w : Id} :
    Holders s holders → e.state.roundWinner = some w →
      Earned holders cs w := by
  induction hrun with
  | drawn hempty => intro _ hw; cases hw
  | @won holders prizeCards s rc w' hrc hlead =>
      intro h hw
      have hpos := warSize_pos s holders
      have hww : w' = w := Option.some.inj hw
      rw [← hww]
      exact earned_single rfl
        (faced_turnComparison hpos hrc h.inGame (fun _ hid => hid))
        (fun id => (leads_turnComparison hpos hrc h.inGame id).trans
          (hlead id))
  | @again holders prizeCards s rc next cs e hrc hnd htwo hlead hrest ih =>
      intro h hw
      have hpos := warSize_pos s holders
      exact earned_cons rfl
        (faced_turnComparison hpos hrc h.inGame (fun _ hid => hid))
        (fun id => (hlead id).trans
          (leads_turnComparison hpos hrc h.inGame id).symm)
        (ih (holders_next h hnd hlead) hw)

/-- The winner of a round has earned it. -/
theorem earned_round {s s' : War Id} {cs : List (Comparison Id)}
    (hrun : RoundRun s cs s') {w : Id} (hw : s'.roundWinner = some w) :
    Earned (placers s) cs w := by
  have hfaced : ∀ rc, Records s 1 (active s) rc →
      Faced (firstComparison s rc) := fun rc hrc =>
    faced_turnComparison Nat.zero_lt_one hrc (fun _ hk => mem_active.mp hk)
      (fun _ hk => mem_active.mpr (mem_placers.mp hk).1)
  cases hrun with
  | @sole rc w' hrc hlead =>
      have hww : w' = w := Option.some.inj hw
      rw [← hww]
      exact earned_single rfl (hfaced rc hrc)
        (fun id => (leads_firstComparison hrc id).trans (hlead id))
  | @war rc holders cs e hrc hnd htwo hlead hrun hwon =>
      exact earned_cons rfl (hfaced rc hrc)
        (fun id => (hlead id).trans (leads_firstComparison hrc id).symm)
        (earned_war hrun (holders_first hnd hlead) hw)
  | @drawn rc holders ids cs e s' share hrc hnd htwo hlead hrun hthrown hleft
      hdealt =>
      -- a draw has no winner
      have hnone := (drawFacts hrun (holders_first hnd hlead) htwo
        hthrown).roundWinner
      rw [hdealt.state] at hw
      have hw' : e.state.roundWinner = some w := hw
      rw [hnone] at hw'
      simp at hw'

/-- **A round winner earned it**: it was never below the top of any comparison
    of the round, and it ended alone there. -/
theorem winner_earned {s s' : War Id} (hwf : WellFormed s) {fuel : Nat}
    {o : Schedule Id} (h : startRound fuel o s = .done s') {w : Id}
    (hw : s'.roundWinner = some w) :
    (∃ c, (roundComparisons fuel o s).head? = some c ∧
      ∀ id, id ∈ c.contestants ↔ inGame s id = true ∧ hand s id ≠ []) ∧
    (roundComparisons fuel o s).IsChain Follows ∧
    (∀ c ∈ roundComparisons fuel o s, Highest c w) ∧
    ∃ c, (roundComparisons fuel o s).getLast? = some c ∧
      StrictlyHighest c w := by
  obtain ⟨s'', hrun, hs'⟩ := startRound_inv hwf h
  have hw' : s''.roundWinner = some w := by
    rw [hs', roundWinner_updateGameStatus] at hw
    exact hw
  have hearned := earned_round hrun hw'
  obtain ⟨c, hc, hfirst⟩ := hearned.head
  exact ⟨⟨c, hc, fun id => (hfirst id).trans mem_placers⟩, hearned.chain,
    hearned.highest, hearned.last⟩

theorem winner_earned_three :
    (roundComparisons 9 inOrder threeTable).IsChain Follows ∧
      ∀ c ∈ roundComparisons 9 inOrder threeTable, Highest c "B" := by
  have hrun : ∃ s', startRound 9 inOrder threeTable = .done s' ∧
      s'.roundWinner = some "B" := by decide +kernel
  obtain ⟨s', hdone, hw⟩ := hrun
  obtain ⟨-, hchain, hhighest, -⟩ := winner_earned (by decide) hdone hw
  exact ⟨hchain, hhighest⟩

end Payout
