import CardCrucible.Climb
import CardCrucible.RoundStrength
import CardCrucible.RoundRobin

/-! # Costs — what a round takes from each player

    A player puts down one card in a round, and two more for every rung it
    climbs against the greatest strength; if it has fewer, it puts down all of
    them.  Whoever does not win stays in the game unless it gives out.  So both
    the cards a round moves and the players it eliminates can be told from the
    hands before it, without a look at the wars. -/

namespace Costs

open Outcomes Arrangements Dictionaries CardModel DeckModel PlayerModel
open WarModel WarModel.War WarState WarTurn Comparisons WarRuns Spending
open Dealing Rounds GameStatus RoundLaws Ladders Climbs Strength
open RoundStrength RoundRobin

variable {Id : Type} [LinearOrder Id]

/-! ## Wars -/

/-- No holder has a second card to keep back in a limited war. -/
theorem take_drop_warSize {s : War Id} {holders : List Id} {id : Id}
    (hid : id ∈ holders) :
    (hand s id).take (warSize s holders) = (hand s id).take 2 ∧
      (hand s id).drop (warSize s holders) = (hand s id).drop 2 := by
  by_cases hex : ∃ k ∈ holders, cardsNeededForWar ≤ (hand s k).length
  · have hsize : warSize s holders = 2 := if_pos hex
    rw [hsize]
    exact ⟨rfl, rfl⟩
  · have hsize : warSize s holders = 1 := if_neg hex
    have hlen : (hand s id).length < 2 :=
      not_le.mp (fun h => hex ⟨id, hid, h⟩)
    rw [hsize]
    constructor
    · rw [List.take_of_length_le (by omega), List.take_of_length_le (by omega)]
    · rw [List.drop_of_length_le (by omega), List.drop_of_length_le (by omega)]

omit [LinearOrder Id] in
/-- One of several players is another one. -/
theorem exists_rival {ids : List Id} (hnd : ids.Nodup) (htwo : 2 ≤ ids.length)
    (t : Id) : ∃ k ∈ ids, k ≠ t := by
  obtain ⟨a, ha, b, hb, hab⟩ := exists_two hnd htwo
  by_cases hat : a = t
  · exact ⟨b, hb, fun hbt => hab (hat.trans hbt.symm)⟩
  · exact ⟨a, ha, hat⟩

/-- The stakes of those who go on are those of the hands they are left with. -/
theorem tail_rung {s : War Id} {need : Nat} {ids next : List Id}
    {f : Id → List Stake} {g : Card → Stake} (h : Rung s need ids f g)
    (hlead : ∀ id, id ∈ next ↔ LeadsTurn s need ids id) :
    ∀ k ∈ next, (f k).tail = warStakes (turn need ids s) k := by
  intro k hk
  obtain ⟨hkids, c, hc, -⟩ := (hlead k).mp hk
  rw [h.shown k hkids c hc]
  rfl

theorem contested_rung {s : War Id} {need : Nat} {ids next : List Id}
    {f : Id → List Stake} {g : Card → Stake} (h : Rung s need ids f g)
    (hnd : next.Nodup) (htwo : 2 ≤ next.length)
    (hlead : ∀ id, id ∈ next ↔ LeadsTurn s need ids id) {t : Id}
    (ht : t ∈ next) :
    contested ids f t
      = contested next (warStakes (turn need ids s)) t + 1 := by
  rw [contested_next (h.next_iff hlead ⟨t, ht⟩) ht (exists_rival hnd htwo t),
    contested_congr (fun _ => Iff.rfl) ht (tail_rung h hlead)]

/-- The rungs after one that several players lead. -/
theorem climb_rung {s : War Id} {need : Nat} {ids next : List Id}
    {f : Id → List Stake} {g : Card → Stake} (h : Rung s need ids f g)
    (hnd : next.Nodup) (htwo : 2 ≤ next.length)
    (hlead : ∀ id, id ∈ next ↔ LeadsTurn s need ids id) {t id : Id}
    (ht : t ∈ next) (hid : id ∈ next) :
    climb ids f t id
      = climb next (warStakes (turn need ids s)) t id + 1 := by
  have hnext := h.next_iff hlead ⟨t, ht⟩
  rw [climb_next hnext ht (exists_rival hnd htwo t) hid]
  rw [climb_congr (fun _ => Iff.rfl) ht hid (tail_rung h hlead)]

/-- A sole leader leads its rung alone. -/
theorem leadsNext_sole {s : War Id} {need : Nat} {ids : List Id}
    {f : Id → List Stake} {g : Card → Stake} (h : Rung s need ids f g) {w : Id}
    (hlead : ∀ id, LeadsTurn s need ids id ↔ id = w) (id : Id) :
    LeadsNext ids f id ↔ id = w := by
  have hmem : ∀ k, k ∈ [w] ↔ LeadsTurn s need ids k := fun k =>
    List.mem_singleton.trans (hlead k).symm
  have hnext := h.next_iff hmem ⟨w, List.mem_singleton.mpr rfl⟩
  exact (hnext id).symm.trans List.mem_singleton

/-- **What a war takes**: two cards for the first draw and two for every rung
    a holder climbs. -/
theorem war_costs {holders : List Id} {prizeCards : List Card} {s : War Id}
    {cs : List (Comparison Id)} {e : WarExit Id}
    (hrun : WarRun holders prizeCards s cs e) :
    ∀ {t : Id}, Holders s holders → Tops holders (warStakes s) t →
      ∀ id ∈ holders, playedIn cs id
        = (hand s id).take (2 * (climb holders (warStakes s) t id + 1)) := by
  induction hrun with
  | @drawn holders prizeCards s hempty =>
      intro t _ _ id hid
      rw [hempty id hid, List.take_nil]
      rfl
  | @won holders prizeCards s rc w hrc hlead =>
      intro t _ htop id hid
      obtain ⟨g, hrung⟩ := rung_war s holders
      rw [(hrung.tops_iff_eq hlead t).mp htop, climb_sole (leadsNext_sole hrung hlead),
        playedIn_cons, playedIn_nil, List.append_nil]
      exact (hrc.pile id hid).trans (take_drop_warSize hid).1
  | @again holders prizeCards s rc next cs e hrc hnd htwo hlead hrest ih =>
      intro t h htop id hid
      obtain ⟨g, hrung⟩ := rung_war s holders
      have hne : ∃ k, k ∈ next := exists_mem_of_two_le htwo
      have hnext := holders_next h hnd hlead
      have htop' := (hrung.tops_iff hlead hne t).mp htop
      have hpile : (warComparison s holders rc).piles.getD id []
          = (hand s id).take 2 :=
        (hrc.pile id hid).trans (take_drop_warSize hid).1
      rw [playedIn_cons, hpile]
      by_cases hidnext : id ∈ next
      · -- whoever goes on plays the rest of the war with the cards left
        have hhand : hand (afterDraws s holders) id = (hand s id).drop 2 := by
          simp only [afterDraws]
          rw [hand_turn, if_pos hid]
          exact (take_drop_warSize hid).2
        rw [climb_rung hrung hnd htwo hlead htop'.1 hidnext,
          ih hnext htop' id hidnext, hhand, ← List.take_add]
        congr 1
        simp only [afterDraws]
        omega
      · obtain ⟨u, hwar⟩ := warSpent hrest hnext
        rw [(hwar.spent.others id hidnext).1, List.append_nil,
          climb_left (hrung.next_iff hlead hne) htop'.1 hid hidnext]

/-- **How many comparisons a war takes**: one for every rung on which the top
    has a rival, and one more if it is won. -/
theorem length_comparisons {holders : List Id} {prizeCards : List Card}
    {s : War Id} {cs : List (Comparison Id)} {e : WarExit Id}
    (hrun : WarRun holders prizeCards s cs e) :
    ∀ {t : Id}, Tops holders (warStakes s) t →
      cs.length + (if e.thrown = none then 0 else 1)
        = contested holders (warStakes s) t + 1 := by
  induction hrun with
  | @drawn holders prizeCards s hempty =>
      intro t htop
      have hnil : warStakes s t = [] := by
        show warStrength (hand s t) = []
        rw [hempty t htop.1]
        rfl
      have hle := contested_le holders (warStakes s) t
      rw [hnil] at hle
      rw [Nat.le_zero.mp hle]
      rfl
  | @won holders prizeCards s rc w hrc hlead =>
      intro t htop
      obtain ⟨g, hrung⟩ := rung_war s holders
      rw [(hrung.tops_iff_eq hlead t).mp htop,
        contested_sole (leadsNext_sole hrung hlead)]
      rfl
  | @again holders prizeCards s rc next cs e hrc hnd htwo hlead hrest ih =>
      intro t htop
      obtain ⟨g, hrung⟩ := rung_war s holders
      have htop' :=
        (hrung.tops_iff hlead (exists_mem_of_two_le htwo) t).mp htop
      have hrung' := contested_rung hrung hnd htwo hlead htop'.1
      have hrest' := ih htop'
      rw [hrung', List.length_cons]
      simp only [afterDraws] at hrest'
      omega

/-- **Whom a won war eliminates**: the holders who give out against the
    winner. -/
theorem war_left_won {holders : List Id} {prizeCards : List Card} {s : War Id}
    {cs : List (Comparison Id)} {e : WarExit Id}
    (hrun : WarRun holders prizeCards s cs e) :
    ∀ {w : Id}, Holders s holders → e.state.roundWinner = some w →
      ∀ i ∈ holders, i ≠ w → (inGame e.state i = false ↔
        givesOut short (warStakes s i) (warStakes s w) = true) := by
  induction hrun with
  | drawn hempty => intro w _ he; cases he
  | @won holders prizeCards s rc w' hrc hlead =>
      intro w h he i hi hne
      obtain ⟨g, hrung⟩ := rung_war s holders
      rw [Option.some.inj he] at hlead
      have hmem : ∀ k, k ∈ [w] ↔ LeadsTurn s (warSize s holders) holders k :=
        fun k => List.mem_singleton.trans (hlead k).symm
      have hin : inGame (wonExit s holders prizeCards w').state i
          = inGame (afterDraws s holders) i := inGame_payOut ..
      rw [hin]
      exact out_of_rung hrung h.inGame hmem hi
        (fun hw => hne (List.mem_singleton.mp hw)) (List.mem_singleton.mpr rfl)
  | @again holders prizeCards s rc next cs e hrc hnd htwo hlead hrest ih =>
      intro w h he i hi hne
      have hnext := holders_next h hnd hlead
      obtain ⟨g, hrung⟩ := rung_war s holders
      have hw : w ∈ next := by
        rcases war_tops hrest with ⟨w', -, hw', htop⟩ | ⟨ids, hthrown, -⟩
        · rw [Option.some.inj (he.symm.trans hw')]
          exact ((htop w').mpr rfl).1
        · rw [(drawFacts hrest hnext htwo hthrown).roundWinner] at he
          cases he
      by_cases hinext : i ∈ next
      · rw [hrung.givesOut_next hlead hinext hw]
        exact ih hnext he i hinext hne
      · rw [inGame_of_notMem hrest hnext hinext]
        exact out_of_rung hrung h.inGame hlead hi hinext hw

/-! ## Rounds -/

section Round

variable {s s' : War Id} {cs : List (Comparison Id)} {t : Id}

/-- **What a round takes**: one card, and two for every rung a player
    climbs. -/
theorem round_costs (hrun : RoundRun s cs s')
    (htop : Tops (active s) (stakes s) t) :
    ∀ id ∈ active s, playedIn cs id
      = (hand s id).take (1 + 2 * climb (active s) (stakes s) t id) := by
  have hrung := rung_round s
  have hwar : ∀ {rc : Dictionary Id (List Card)} {holders : List Id}
      {cs : List (Comparison Id)} {e : WarExit Id},
      Records s 1 (active s) rc → holders.Nodup → 2 ≤ holders.length →
      (∀ id, id ∈ holders ↔ LeadsRound s id) →
      WarRun holders (placedCards s) (afterPlacing s) cs e →
      ∀ id ∈ active s, playedIn (firstComparison s rc :: cs) id
        = (hand s id).take (1 + 2 * climb (active s) (stakes s) t id) := by
    intro rc holders cs e hrc hnd htwo hlead hrun id hid
    have hne := exists_mem_of_two_le htwo
    have hholders := holders_first hnd hlead
    have htop' := (hrung.tops_iff hlead hne t).mp htop
    have hpile : (firstComparison s rc).piles.getD id []
        = (hand s id).take 1 := hrc.pile id hid
    rw [playedIn_cons, hpile]
    by_cases hidnext : id ∈ holders
    · have hhand : hand (afterPlacing s) id = (hand s id).drop 1 := by
        simp only [afterPlacing]
        rw [hand_turn, if_pos hid]
      rw [climb_rung hrung hnd htwo hlead htop'.1 hidnext,
        war_costs hrun hholders htop' id hidnext, hhand, ← List.take_add]
      rfl
    · obtain ⟨u, hspent⟩ := warSpent hrun hholders
      rw [(hspent.spent.others id hidnext).1, List.append_nil,
        climb_left (hrung.next_iff hlead hne) htop'.1 hid hidnext]
  intro id hid
  cases hrun with
  | @sole rc w hrc hlead =>
      rw [(hrung.tops_iff_eq hlead t).mp htop, climb_sole (leadsNext_sole hrung hlead),
        playedIn_cons, playedIn_nil, List.append_nil]
      exact hrc.pile id hid
  | war hrc hnd htwo hlead hrun hwon =>
      exact hwar hrc hnd htwo hlead hrun id hid
  | drawn hrc hnd htwo hlead hrun hthrown hleft hdealt =>
      exact hwar hrc hnd htwo hlead hrun id hid

/-- **Whom a round eliminates**: whoever gives out against the greatest
    strength, unless it is its own and wins. -/
theorem round_left (hrun : RoundRun s cs s')
    (htop : Tops (active s) (stakes s) t) {i : Id} (hi : i ∈ active s) :
    inGame s' i = false ↔ s'.roundWinner ≠ some i ∧
      givesOut short (stakes s i) (stakes s t) = true := by
  have hrung := rung_round s
  have hin : ∀ k ∈ active s, inGame s k = true :=
    fun _ hk => mem_active.mp hk
  obtain ⟨u, prizeCards, hspent⟩ := roundSpent hrun
  by_cases hw : s'.roundWinner = some i
  · -- the winner is paid, so it is in the game
    have hini : inGame s' i = true :=
      (hspent.inGame_exit i).trans (hspent.of_roundWinner hw).1
    rw [hini]
    exact ⟨(fun h => by cases h), fun h => absurd hw h.1⟩
  · rw [and_iff_right hw]
    cases hrun with
    | @sole rc w hrc hlead =>
        have htw := (hrung.tops_iff_eq hlead t).mp htop
        have hmem : ∀ k, k ∈ [w] ↔ LeadsTurn s 1 (active s) k :=
          fun k => List.mem_singleton.trans (hlead k).symm
        have hpaid : inGame { payOut w (placedCards s) (afterPlacing s) with
            roundWinner := some w } i = inGame (afterPlacing s) i :=
          inGame_payOut ..
        rw [hpaid, htw]
        refine out_of_rung hrung hin hmem hi (fun hiw => hw ?_)
          (List.mem_singleton.mpr rfl)
        rw [List.mem_singleton.mp hiw]
    | @war rc holders cs e hrc hnd htwo hlead hrun hwon =>
        have hholders := holders_first hnd hlead
        have hne := exists_mem_of_two_le htwo
        have htop' := (hrung.tops_iff hlead hne t).mp htop
        rcases war_tops hrun with ⟨w, -, hwin, htops⟩ | ⟨ids, hthrown, -⟩
        · have htw := (htops t).mp htop'
          have hiw : i ≠ w := fun heq => hw (by rw [heq]; exact hwin)
          rw [htw] at htop' ⊢
          by_cases hih : i ∈ holders
          · rw [hrung.givesOut_next hlead hih htop'.1]
            exact war_left_won hrun hholders hwin i hih hiw
          · rw [inGame_of_notMem hrun hholders hih]
            exact out_of_rung hrung hin hlead hi hih htop'.1
        · rw [hwon] at hthrown
          simp at hthrown
    | @drawn rc holders ids cs e s' share hrc hnd htwo hlead hrun hthrown
        hleft hdealt =>
        have hfacts := drawFacts hrun (holders_first hnd hlead) htwo hthrown
        have ht := (draw_tops hlead (exists_mem_of_two_le htwo) hrun hthrown
          t).mp htop
        have hsame : inGame s' i = inGame e.state i := hdealt.inGame_eq i
        rw [hsame]
        exact draw_left hnd hlead hrun hthrown hfacts.sub hi ht

end Round

/-! ## Redistributions -/

/-- **A round that nobody wins deals its cards in a round robin.** -/
theorem startRound_dealt {s s' : War Id} (hwf : WellFormed s) {fuel : Nat}
    {o : Schedule Id} (h : startRound fuel o s = .done s') :
    ∃ s'' t prizeCards,
      RoundRun s (roundComparisons fuel o s) s'' ∧
      RoundSpent s (roundComparisons fuel o s) s'' t prizeCards ∧
      (s''.roundWinner = none →
        dealCards fuel (drawnTable t prizeCards) = .done s'') ∧
      s' = s''.updateGameStatus o.players := by
  by_cases hlive : Live s
  · obtain ⟨rc, holders, hrc, hnd, hne, hlead, heq⟩ :=
      startRound_eq hwf hlive o
    rw [(heq fuel).1] at h
    obtain ⟨s'', hs'', hs'⟩ := Outcome.bind_eq_done.mp h
    have hrun := settleRound_inv hwf hrc hnd hne hlead hs''
    rw [(heq fuel).2]
    rcases settleRound_exit hwf hnd hne hlead hs'' with
      ⟨w, -, hexit⟩ | ⟨htwo, e, hwar, ⟨hwon, hexit⟩ | ⟨ids, hthrown, hdeal⟩⟩
    · obtain ⟨t, prizeCards, hspent⟩ := roundSpent hrun
      refine ⟨s'', t, prizeCards, hrun, hspent, ?_,
        (Outcome.done.inj hs').symm⟩
      intro hnone
      rw [hexit] at hnone
      cases hnone
    · obtain ⟨t, prizeCards, hspent⟩ := roundSpent hrun
      refine ⟨s'', t, prizeCards, hrun, hspent, ?_,
        (Outcome.done.inj hs').symm⟩
      intro hnone
      rcases war_tops hwar with ⟨w, -, hw, -⟩ | ⟨ids, hthrown, -⟩
      · rw [hexit, hw] at hnone
        cases hnone
      · rw [hwon] at hthrown
        simp at hthrown
    · obtain ⟨t, hwarSpent⟩ := warSpent hwar (holders_first hnd hlead)
      obtain ⟨hspent, hsum⟩ := spent_war hrc hlead hwarSpent
      have hstate := hwarSpent.of_thrown hthrown
      rw [hstate] at hdeal
      have hdrawn : dealCards fuel (drawnTable t e.prizeCards)
          = .done s'' := hdeal
      obtain ⟨share, hdealt⟩ := dealCards_dealt hdrawn
      have hleft : ∃ id, inGame t id = true := by
        by_contra hno
        refine dealCards_of_none (fun id => ?_) hdrawn
        exact Bool.eq_false_iff.mpr (fun hin => hno ⟨id, hin⟩)
      exact ⟨s'', t, e.prizeCards, hrun,
        ⟨hspent, hsum, Or.inr ⟨hleft, share, hdealt⟩⟩, fun _ => hdrawn,
        (Outcome.done.inj hs').symm⟩
  · rw [startRound_of_not_live hwf hlive fuel o] at h
    simp at h

end Costs
