import CardCrucible.Orders

/-! # Choices — every order of the holders comes about

    `WarRun` lets those who tie go on in any order.  The code takes the order
    of a dictionary, which the language leaves open, and there is an iteration
    order for each of them.  So nothing that `WarRun` allows is out of reach,
    and a round that is not order-free has two results. -/

namespace Choices

open Outcomes Arrangements Dictionaries CardModel DeckModel PlayerModel
open WarModel WarModel.War WarState WarTurn Comparisons WarRuns Spending
open Dealing Rounds GameStatus RoundLaws RoundStrength Ladders Strength Games
open RoundRobin Standings Lockstep Twins Orders

variable {Id : Type} [LinearOrder Id]

/-! ## Orders of the holders -/

/-- The entries can be arranged to list given ids first. -/
theorem exists_order {entries : List (Id × List Card)} {ids : List Id}
    (hnd : ids.Nodup) (hsub : ∀ id ∈ ids, id ∈ entries.map Prod.fst) :
    ∃ (order : Arrangement (Id × List Card)) (others : List Id),
      (order.arrange entries).map Prod.fst = ids ++ others := by
  obtain ⟨first, hfirst, hlisted⟩ := hnd.subperm hsub
  obtain ⟨others, hperm⟩ := hlisted.exists_perm_append
  have hlift : Relation.Comp (· = List.map Prod.fst ·) List.Perm
      (ids ++ others) entries := by
    rw [List.eq_map_comp_perm]
    exact (hfirst.symm.append_right others).trans hperm.symm
  obtain ⟨l, hl, hentries⟩ := hlift
  refine ⟨Arrangement.only entries l hentries, others, ?_⟩
  show (if entries = entries then l else entries).map Prod.fst = ids ++ others
  rw [if_pos rfl]
  exact hl.symm

/-- The holders are listed in the order of the entries. -/
theorem rankHolders_sublist {s : War Id} {r : Rank} :
    ∀ {entries : List (Id × List Card)} {holders : List Id},
      rankHolders s r entries = .done holders →
      holders.Sublist (entries.map Prod.fst) := by
  intro entries
  induction entries with
  | nil =>
      intro holders h
      rw [← Outcome.done.inj h]
      exact List.Sublist.refl _
  | cons e rest ih =>
      intro holders h
      obtain ⟨id, cards⟩ := e
      rw [rankHolders_cons] at h
      cases hin : inGame s id with
      | false =>
          rw [hin, if_neg Bool.false_ne_true] at h
          exact (ih h).cons id
      | true =>
          rw [hin, if_pos rfl] at h
          cases hlast : cards.getLast? with
          | none =>
              rw [hlast] at h
              cases h
          | some card =>
              rw [hlast] at h
              obtain ⟨found, hfound, h⟩ := Outcome.bind_eq_done.mp h
              have hids := Outcome.done.inj h
              by_cases hr : card.rank = r
              · rw [if_pos hr] at hids
                rw [← hids]
                exact (ih hfound).cons_cons id
              · rw [if_neg hr] at hids
                rw [← hids]
                exact (ih hfound).cons id

theorem determineHighCardHolders_sublist {s : War Id}
    {order : Arrangement (Id × List Card)} {rc : Dictionary Id (List Card)}
    {holders : List Id}
    (h : determineHighCardHolders s order rc false = .done holders) :
    holders.Sublist ((order.arrange rc.entries).map Prod.fst) := by
  simp only [determineHighCardHolders, Bool.false_eq_true, if_false] at h
  obtain ⟨cards, -, h⟩ := Outcome.bind_eq_done.mp h
  obtain ⟨r, -, h⟩ := Outcome.bind_eq_done.mp h
  exact rankHolders_sublist h

/-- **Every order of the leaders** is the one of some iteration order. -/
theorem exists_order_of_leads {s : War Id} {need : Nat} (hneed : 0 < need)
    {ids : List Id} {rc : Dictionary Id (List Card)}
    (hrc : Records s need ids rc) (hin : ∀ id ∈ ids, inGame s id = true)
    (hstand : ∃ id ∈ ids, need ≤ (hand s id).length) {next : List Id}
    (hnd : next.Nodup) (hlead : ∀ id, id ∈ next ↔ LeadsTurn s need ids id) :
    ∃ order, determineHighCardHolders (turn need ids s) order rc false
      = .done next := by
  have hall := determineHighCardHolders_turn hneed hrc hin hstand
  -- whoever leads is listed in every order, so it has an entry
  have hsub : ∀ id ∈ next, id ∈ rc.entries.map Prod.fst := by
    intro id hid
    obtain ⟨found, hfound, -, -, hmem⟩ := hall .keep
    exact (determineHighCardHolders_sublist hfound).subset
      ((hmem id).mpr ((hlead id).mp hid))
  obtain ⟨order, others, hkeys⟩ := exists_order hnd hsub
  obtain ⟨found, hfound, hfnd, -, hmem⟩ := hall order
  refine ⟨order, hfound.trans ?_⟩
  have hsame : ∀ id, id ∈ found ↔ id ∈ next := fun id =>
    (hmem id).trans (hlead id).symm
  have hlisted := determineHighCardHolders_sublist hfound
  have hdisj : (next ++ others).Nodup := by
    rw [← hkeys]
    exact order.nodup_map_arrange Prod.fst rc.nodupKeys
  rw [hkeys] at hlisted
  -- only the first ids are among the leaders
  have hfilter := hlisted.filter (fun id => decide (id ∈ next))
  rw [List.filter_append, List.filter_eq_self.mpr (fun id hid =>
      decide_eq_true ((hsame id).mp hid)), List.filter_eq_self.mpr
      (fun id hid => decide_eq_true hid), List.filter_eq_nil_iff.mpr
      (fun id hid hmem => (List.disjoint_of_nodup_append hdisj)
        (of_decide_eq_true hmem) hid), List.append_nil] at hfilter
  have hlen := ((List.perm_ext_iff_of_nodup hfnd hnd).mpr hsame).length_eq
  rw [hfilter.eq_of_length hlen]

/-! ## Wars -/

/-- One order now, and others for the calls to come. -/
def thenOrders (order : Arrangement (Id × List Card))
    (orders : Nat → Arrangement (Id × List Card)) :
    Nat → Arrangement (Id × List Card)
  | 0 => order
  | n + 1 => orders n

/-- **Every run of `war`** is the one of some iteration orders. -/
theorem exists_orders_of_run {holders : List Id} {prizeCards : List Card}
    {s : War Id} {cs : List (Comparison Id)} {e : WarExit Id}
    (hrun : WarRun holders prizeCards s cs e) :
    WellFormed s → Holders s holders →
    ∃ (fuel : Nat) (orders : Nat → Arrangement (Id × List Card)),
      ∀ (o : Schedule Id) (depth : Nat),
        (∀ n, o.warParticipants (depth + n) = orders n) →
        war fuel o depth holders prizeCards s = .done e := by
  induction hrun with
  | @drawn holders prizeCards s hempty =>
      intro hwf h
      refine ⟨1, fun _ => .keep, fun o depth _ => ?_⟩
      rcases war_cases hwf h prizeCards o depth with
        ⟨-, hrun⟩ | ⟨rc, w, -, hlead, -⟩ | ⟨rc, next, -, -, htwo, hlead, -, -⟩
      · exact (hrun 0).1
      · exact absurd ((hlead w).mpr rfl) (not_leads_of_empty hempty w)
      · obtain ⟨k, hk⟩ := exists_mem_of_two_le htwo
        exact absurd ((hlead k).mp hk) (not_leads_of_empty hempty k)
  | @won holders prizeCards s rc w hrc hlead =>
      intro hwf h
      have hw : LeadsWar s holders w := (hlead w).mpr rfl
      refine ⟨1, fun _ => .keep, fun o depth _ => ?_⟩
      rcases war_cases hwf h prizeCards o depth with
        ⟨hempty, -⟩ | ⟨rc', w', -, hlead', hrun⟩ |
        ⟨rc', next, -, hnd, htwo, hnext, -, -⟩
      · exact absurd hw (not_leads_of_empty hempty w)
      · rw [(hlead' w).mp hw]
        exact (hrun 0).1
      · exact (not_sole hnd htwo hnext (fun id => (hlead id).mp)).elim
  | @again holders prizeCards s rc next cs e hrc hnd htwo hlead hrest ih =>
      intro hwf h
      obtain ⟨fuel, orders, hrun⟩ :=
        ih (hwf.turn _ _) (holders_next h hnd hlead)
      obtain ⟨k, hk⟩ := exists_mem_of_two_le htwo
      obtain ⟨rc', hentries, ⟨hempty, -⟩ | ⟨hstand, hdraws⟩⟩ :=
        warDraws_cases h prizeCards
      · exact absurd ((hlead k).mp hk) (not_leads_of_empty hempty k)
      · obtain ⟨order, hnext⟩ := exists_order_of_leads (warSize_pos s holders)
          (records_of_entries hentries) h.inGame hstand hnd hlead
        refine ⟨fuel + 1, thenOrders order orders, fun o depth ho => ?_⟩
        have hnow : o.warParticipants depth = order := ho 0
        have hlater : ∀ n, o.warParticipants (depth + 1 + n) = orders n := by
          intro n
          rw [Nat.add_assoc, Nat.add_comm 1 n]
          exact ho (n + 1)
        rw [← hnow] at hnext
        rw [(war_of_several htwo hdraws hnext fuel).1]
        exact hrun o (depth + 1) hlater

/-! ## Wars whose order shows -/

/-- The prize cards begin with those of the first draws. -/
theorem pot_prefix {holders : List Id} {prizeCards : List Card} {s : War Id}
    {cs : List (Comparison Id)} {e : WarExit Id}
    (hrun : WarRun holders prizeCards s cs e) (h : Holders s holders)
    (hcard : ∃ id ∈ holders, hand s id ≠ []) :
    pot s holders prizeCards <+: e.prizeCards := by
  cases hrun with
  | drawn hempty =>
      obtain ⟨id, hid, hne⟩ := hcard
      exact absurd (hempty id hid) hne
  | won hrc hlead => exact List.prefix_refl _
  | again hrc hnd htwo hlead hrest =>
      obtain ⟨t, hwar⟩ := warSpent hrest (holders_next h hnd hlead)
      obtain ⟨taken, htaken, -⟩ := hwar.prize
      exact ⟨taken, htaken.symm⟩

/-- Every war has a run. -/
theorem exists_run {s : War Id} (hwf : WellFormed s) {holders : List Id}
    (h : Holders s holders) (prizeCards : List Card) :
    ∃ cs e, WarRun holders prizeCards s cs e := by
  obtain ⟨e, hdone⟩ := war_returns ⟨.keep, fun _ => .keep, .keep, .keep⟩ _ 0
    holders prizeCards s hwf h (Nat.lt_succ_self _)
  exact ⟨_, e, war_inv _ _ _ _ _ _ _ hwf h hdone⟩

/-- The draws of holders in another order. -/
theorem holders_perm {s : War Id} {holders holders' : List Id}
    (h : Holders s holders) (hperm : holders'.Perm holders) :
    Holders s holders' ∧ warSize s holders' = warSize s holders := by
  refine ⟨⟨hperm.nodup_iff.mpr h.nodup, fun id hid =>
    h.inGame id (hperm.mem_iff.mp hid)⟩, ?_⟩
  simp only [warSize, hperm.mem_iff]

/-- Holders whose first draws do not commute win different prize cards in two
    orders. -/
theorem exists_prizes_of_not_commuting {s : War Id} (hwf : WellFormed s)
    {holders : List Id} (h : Holders s holders) (prizeCards : List Card)
    (hnot : ¬ Commuting (pile s (warSize s holders)) holders) :
    ∃ l l' cs cs' e e', l.Perm holders ∧ l'.Perm holders ∧
      WarRun l prizeCards s cs e ∧ WarRun l' prizeCards s cs' e' ∧
      e'.prizeCards ≠ e.prizeCards := by
  obtain ⟨l, l', hl, hl', hne⟩ : ∃ l l' : List Id, l.Perm holders ∧
      l'.Perm holders ∧ l.flatMap (pile s (warSize s holders))
        ≠ l'.flatMap (pile s (warSize s holders)) := by
    by_contra hall
    exact hnot (commuting_iff.mpr (fun l l' hl hl' =>
      by_contra (fun hne => hall ⟨l, l', hl, hl', hne⟩)))
  obtain ⟨hh, hsize⟩ := holders_perm h hl
  obtain ⟨hh', hsize'⟩ := holders_perm h hl'
  obtain ⟨cs, e, hrun⟩ := exists_run hwf hh prizeCards
  obtain ⟨cs', e', hrun'⟩ := exists_run hwf hh' prizeCards
  -- somebody has a card, or all piles were empty
  have hcard : ∃ id ∈ holders, hand s id ≠ [] := by
    by_contra hnone
    have hempty : ∀ id ∈ holders, hand s id = [] := fun id hid =>
      by_contra (fun hcard => hnone ⟨id, hid, hcard⟩)
    refine hnot (fun a ha b hb => ?_)
    simp only [pile]
    rw [hempty a ha, hempty b hb]
  obtain ⟨id, hid, hid'⟩ := hcard
  have hpot := pot_prefix hrun hh ⟨id, hl.mem_iff.mpr hid, hid'⟩
  have hpot' := pot_prefix hrun' hh' ⟨id, hl'.mem_iff.mpr hid, hid'⟩
  refine ⟨l, l', cs, cs', e, e', hl, hl', hrun, hrun', fun heq => hne ?_⟩
  rw [heq] at hpot'
  simp only [pot] at hpot hpot'
  rw [hsize] at hpot
  rw [hsize'] at hpot'
  have hlen := ((hl.trans hl'.symm).flatMap_right
    (pile s (warSize s holders))).length_eq
  have hprefix := List.prefix_of_prefix_length_le hpot hpot' (by
    rw [List.length_append, List.length_append, hlen])
  have hpots := hprefix.eq_of_length (by
    rw [List.length_append, List.length_append, hlen])
  exact List.append_cancel_left hpots

/-- **A war that is not order-free** wins different prize cards in two orders:
    the orders differ where the pairs do not commute. -/
theorem exists_prizes_ne (n : Nat) :
    ∀ {s : War Id} {holders : List Id} (prizeCards : List Card) {a b : Id},
      WellFormed s → Holders s holders →
      Tops holders (fun id => (warStakes s id).take n) a →
      Tops holders (fun id => (warStakes s id).take n) b →
      ¬ PairsCommute (hand s a) (hand s b) n →
      ∃ l l' cs cs' e e', l.Perm holders ∧ l'.Perm holders ∧
        WarRun l prizeCards s cs e ∧ WarRun l' prizeCards s cs' e' ∧
        e'.prizeCards ≠ e.prizeCards := by
  induction n with
  | zero =>
      intro s holders prizeCards a b hwf h ha hb hnot
      refine exists_prizes_of_not_commuting hwf h prizeCards (fun hcomm => ?_)
      have hpairs := hcomm a ha.1 b hb.1
      rw [pile_war ha.1, pile_war hb.1] at hpairs
      exact hnot hpairs
  | succ n ih =>
      intro s holders prizeCards a b hwf h ha hb hnot
      have hab : a ≠ b := by
        intro heq
        rw [heq] at hnot
        exact hnot rfl
      obtain ⟨g, hrung⟩ := rung_war s holders
      obtain ⟨cs, e, hrun⟩ := exists_run hwf h prizeCards
      cases hrun with
      | drawn hempty =>
          refine absurd ?_ hnot
          simp only [PairsCommute]
          rw [hempty a ha.1, hempty b hb.1]
      | @won _ _ _ rc w hrc hlead =>
          -- a sole leader tops alone
          have hmem : ∀ id, id ∈ [w] ↔ LeadsWar s holders id := fun id =>
            List.mem_singleton.trans (hlead id).symm
          have hstep := hrung.tops_take_iff hmem
            ⟨w, List.mem_singleton.mpr rfl⟩ n
          exact absurd ((List.mem_singleton.mp ((hstep a).mp ha).1).trans
            (List.mem_singleton.mp ((hstep b).mp hb).1).symm) hab
      | @again _ _ _ rc next cs e hrc hnd htwo hlead hrest =>
          have hstep := hrung.tops_take_iff hlead
            (exists_mem_of_two_le htwo) n
          have ha' := (hstep a).mp ha
          have hb' := (hstep b).mp hb
          have hpairs : ¬ PairsCommute (hand (afterDraws s holders) a)
              (hand (afterDraws s holders) b) n := by
            simp only [PairsCommute] at hnot ⊢
            rw [warPair_afterDraws ha.1, warPair_afterDraws hb.1]
            exact hnot
          obtain ⟨l, l', cs, cs', e, e', hl, hl', hrun, hrun', hne⟩ :=
            ih (pot s holders prizeCards) (hwf.turn _ _)
              (holders_next h hnd hlead) ha' hb' hpairs
          have hagain : ∀ {k : List Id} {cs : List (Comparison Id)}
              {e : WarExit Id}, k.Perm next →
              WarRun k (pot s holders prizeCards) (afterDraws s holders) cs e →
              WarRun holders prizeCards s (warComparison s holders rc :: cs)
                e := fun hk hrun =>
            .again hrc (hk.nodup_iff.mpr hnd) (hk.length_eq ▸ htwo)
              (fun id => hk.mem_iff.trans (hlead id)) hrun
          exact ⟨holders, holders, _, _, e, e', List.Perm.refl _,
            List.Perm.refl _, hagain hl hrun, hagain hl' hrun', hne⟩

/-! ## Rounds -/

/-- **Every war of a round** is the one of some iteration orders. -/
theorem exists_schedule {s : War Id} (hwf : WellFormed s) (hlive : Live s)
    {holders : List Id} (hnd : holders.Nodup) (htwo : 2 ≤ holders.length)
    (hlead : ∀ id, id ∈ holders ↔ LeadsRound s id)
    {cs : List (Comparison Id)} {e : WarExit Id}
    (hrun : WarRun holders (placedCards s) (afterPlacing s) cs e) :
    ∃ o : Schedule Id, ∀ fuel s', startRound fuel o s = .done s' →
      ∃ t, Closed e t ∧ s' = t.updateGameStatus o.players := by
  obtain ⟨rc, hplace, hrc, hkeys⟩ := placeCards_records hwf
  obtain ⟨order, horder⟩ := exists_order_of_leads Nat.zero_lt_one hrc
    (fun _ hid => mem_active.mp hid) (live_iff_stand.mp hlive) hnd hlead
  obtain ⟨enough, orders, hwar⟩ := exists_orders_of_run hrun
    (hwf.turn 1 (active s)) (holders_first hnd hlead)
  let o : Schedule Id := ⟨order, orders, .keep, .keep⟩
  have hdone := hwar o 0 (fun n => congrArg orders (Nat.zero_add n))
  have hholders : determineHighCardHolders (afterPlacing s) o.roundCards rc
      false = .done holders := horder
  refine ⟨o, fun fuel s' h => ?_⟩
  rw [(startRound_of_holders hplace hrc hkeys hholders fuel).1] at h
  obtain ⟨t, ht, hs'⟩ := Outcome.bind_eq_done.mp h
  refine ⟨t, ?_, (Outcome.done.inj hs').symm⟩
  rw [settleRound_war (fun w hw => by rw [hw] at htwo; simp at htwo)] at ht
  obtain ⟨e', he', hexit⟩ := Outcome.bind_eq_done.mp ht
  -- with whatever fuel the war ends, it ends with `e`
  have heq : e' = e := Outcome.done_unique
    (fun n => war_refines o n 0 holders (placedCards s) (afterPlacing s))
    he' hdone
  subst heq
  cases hthrown : e'.thrown with
  | none =>
      rw [hthrown] at hexit
      rw [← Outcome.done.inj hexit]
      exact .won hthrown
  | some ev =>
      obtain ⟨ids⟩ := ev
      rw [hthrown] at hexit
      have hdeal := handleDraw_round hnd htwo hlead hrun hthrown fuel o
      exact .dealt hthrown (hdeal.symm.trans hexit)

/-- The hands after a round tell the prize cards. -/
theorem prize_eq_of_hands {s a b : War Id}
    {R : List Card → List Card → Prop}
    (h : Settled (Equiv.refl Id) R s s a b) (hdeck : s.gameDeck.decks = [])
    (hin : ∃ id, inGame a id = true)
    (hwinner : ∀ w, a.roundWinner = some w → inGame a w = true)
    (hhands : ∀ id, hand b id = hand a id) : ∃ P, R P P := by
  cases h with
  | @won u u' P P' w halike hR hkept hkept' =>
      have hina : inGame u w = true :=
        (inGame_payOut w P u w).symm.trans (hwinner w rfl)
      have hinb : inGame u' w = true := (halike.inGame_eq w).trans hina
      have hw : hand u' w ++ P' = hand u w ++ P := by
        rw [← hand_payOut_self P hina, ← hand_payOut_self P' hinb]
        exact hhands w
      rw [show hand u' w = hand u w from halike.hand_eq w] at hw
      rw [List.append_cancel_left hw] at hR
      exact ⟨P, hR⟩
  | @dealt u u' P P' fuel fuel' a b halike hR hkept hkept' hdeal hdeal' =>
      have hdecks : ∀ {t : War Id}, Kept s t → ∀ Q,
          (drawnTable t Q).gameDeck.decks = Q := by
        intro t ht Q
        refine decks_drawnTable ?_ Q
        rw [ht.gameDeck_eq]
        exact hdeck
      obtain ⟨id, hid⟩ := hin
      obtain ⟨share, hdealt⟩ := dealCards_dealt hdeal
      have hidu : inGame u id = true := (hdealt.inGame_eq id).symm.trans hid
      have hreceivers : receivers (drawnTable u' P')
          = receivers (drawnTable u P) := by
        show (u'.players.keys.insertionSort (· ≤ ·)).filter (inGame u') = _
        rw [hkept'.keys_eq, ← hkept.keys_eq]
        exact List.filter_congr (fun k _ => halike.inGame_eq k)
      have heq := decks_eq_of_hands (s := drawnTable u P) ⟨id, hidu⟩
        hreceivers halike.hand_eq hdeal hdeal' hhands
      rw [hdecks hkept, hdecks hkept'] at heq
      rw [heq] at hR
      exact ⟨P, hR⟩

/-- A round in which that war is fought, and how it ends. -/
theorem exists_round {s s' : War Id} (hwf : WellFormed s) {fuel : Nat}
    {o : Schedule Id} (hrun : startRound fuel o s = .done s')
    {holders : List Id} (hnd : holders.Nodup) (htwo : 2 ≤ holders.length)
    (hlead : ∀ id, id ∈ holders ↔ LeadsRound s id)
    {cs : List (Comparison Id)} {e : WarExit Id}
    (hwar : WarRun holders (placedCards s) (afterPlacing s) cs e) :
    ∃ fuel o s' t, startRound fuel o s = .done s' ∧ Closed e t ∧
      s' = t.updateGameStatus o.players := by
  obtain ⟨o', ho'⟩ :=
    exists_schedule hwf (live_of_done hwf hrun) hnd htwo hlead hwar
  obtain ⟨fuel', s', hdone⟩ := returns_of_placed
    (Alike.placed (Twin.refl s).alike) hwf hwf hrun o'
  obtain ⟨t, ht, hs'⟩ := ho' fuel' s' hdone
  exact ⟨fuel', o', s', t, hdone, ht, hs'⟩

/-- The leaders of a round that is not order-free win different prize cards in
    two orders. -/
theorem exists_wars_ne {s : War Id} (hwf : WellFormed s) (hlive : Live s)
    (hnot : ¬ OrderFree s) :
    ∃ l l' cs cs' e e', l.Nodup ∧ 2 ≤ l.length ∧
      (∀ id, id ∈ l ↔ LeadsRound s id) ∧ l'.Perm l ∧
      WarRun l (placedCards s) (afterPlacing s) cs e ∧
      WarRun l' (placedCards s) (afterPlacing s) cs' e' ∧
      e'.prizeCards ≠ e.prizeCards := by
  obtain ⟨n, a, b, ha, hb, hpairs⟩ : ∃ n a b,
      Tops (active s) (fun id => (stakes s id).take (n + 1)) a ∧
      Tops (active s) (fun id => (stakes s id).take (n + 1)) b ∧
      ¬ PairsCommute (hand s a).tail (hand s b).tail n := by
    by_contra hall
    exact hnot (fun n a b ha hb =>
      by_contra (fun hpairs => hall ⟨n, a, b, ha, hb, hpairs⟩))
  obtain ⟨rc, -, hrc, -⟩ := placeCards_records hwf
  obtain ⟨holders, -, hnd, hne, hlead⟩ := firstHolders hlive hrc .keep
  have hstep := (rung_round s).tops_take_iff hlead
    (List.exists_mem_of_ne_nil holders hne) n
  have ha' := (hstep a).mp ha
  have hb' := (hstep b).mp hb
  rw [← hand_afterPlacing ha.1, ← hand_afterPlacing hb.1] at hpairs
  have htwo : 2 ≤ holders.length := by
    refine length_two_le hne (fun w hw => hpairs ?_)
    rw [hw] at ha' hb'
    rw [List.mem_singleton.mp ha'.1, List.mem_singleton.mp hb'.1]
    rfl
  obtain ⟨l, l', cs, cs', e, e', hl, hl', hwar, hwar', hprize⟩ :=
    exists_prizes_ne n (placedCards s) (hwf.turn 1 (active s))
      (holders_first hnd hlead) ha' hb' hpairs
  exact ⟨l, l', cs, cs', e, e', hl.nodup_iff.mpr hnd, hl.length_eq ▸ htwo,
    fun id => hl.mem_iff.trans (hlead id), hl'.trans hl.symm, hwar, hwar',
    hprize⟩

/-- **A round that is not order-free** has two results. -/
theorem exists_results_ne {s s' : War Id} (hwf : WellFormed s)
    (hdeck : s.gameDeck.decks = []) {fuel : Nat} {o : Schedule Id}
    (hrun : startRound fuel o s = .done s') (hnot : ¬ OrderFree s) :
    ∃ fuel₁ fuel₂ o₁ o₂ s₁ s₂, startRound fuel₁ o₁ s = .done s₁ ∧
      startRound fuel₂ o₂ s = .done s₂ ∧ ¬ SameState s₁ s₂ := by
  obtain ⟨l, l', cs, cs', e, e', hnd, htwo, hlead, hperm, hwar, hwar',
    hprize⟩ := exists_wars_ne hwf (live_of_done hwf hrun) hnot
  obtain ⟨fuel₁, o₁, s₁, t₁, hdone₁, ht₁, hs₁⟩ :=
    exists_round hwf hrun hnd htwo hlead hwar
  obtain ⟨fuel₂, o₂, s₂, t₂, hdone₂, ht₂, hs₂⟩ :=
    exists_round hwf hrun (hperm.nodup_iff.mpr hnd) (hperm.length_eq ▸ htwo)
      (fun id => hperm.mem_iff.trans (hlead id)) hwar'
  refine ⟨fuel₁, fuel₂, o₁, o₂, s₁, s₂, hdone₁, hdone₂, fun hsame => ?_⟩
  have hids : Renamed (Equiv.refl Id) l l' := by
    show l'.Perm (l.map id)
    rw [List.map_id]
    exact hperm
  have hsettled : Settled (Equiv.refl Id) (fun P P' => P' ≠ P) s s t₁ t₂ :=
    (war_lockstep hwar (Twin.refl _).alike hids hwar').settled hprize ht₁ ht₂
  have hin : ∃ id, inGame t₁ id = true := by
    obtain ⟨id, hid⟩ := exists_inGame_startRound hwf hdone₁
    rw [hs₁, inGame_updateGameStatus] at hid
    exact ⟨id, hid⟩
  have hwinner : ∀ w, t₁.roundWinner = some w → inGame t₁ w = true := by
    intro w hw
    have hw₁ : s₁.roundWinner = some w := by
      rw [hs₁, roundWinner_updateGameStatus]
      exact hw
    have hin₁ := inGame_winner hwf hdone₁ hw₁
    rw [hs₁, inGame_updateGameStatus] at hin₁
    exact hin₁
  have hhands : ∀ id, hand t₂ id = hand t₁ id := by
    intro id
    have hid := (hsame.1 id).1
    rw [hs₁, hs₂, hand_updateGameStatus, hand_updateGameStatus] at hid
    exact hid
  -- the same hands come from the same prize cards
  obtain ⟨P, hP⟩ := prize_eq_of_hands hsettled hdeck hin hwinner hhands
  exact hP rfl

/-- **When the orders do not show**: a round that returns from a state with an
    empty deck has one result in all iteration orders exactly when the state
    is order-free. -/
theorem orderFree_iff {s s' : War Id} (hwf : WellFormed s)
    (hdeck : s.gameDeck.decks = []) {fuel : Nat} {o : Schedule Id}
    (hrun : startRound fuel o s = .done s') :
    OrderFree s ↔ ∀ fuel₁ fuel₂ o₁ o₂ s₁ s₂,
      startRound fuel₁ o₁ s = .done s₁ → startRound fuel₂ o₂ s = .done s₂ →
      SameState s₁ s₂ := by
  constructor
  · intro hfree fuel₁ fuel₂ o₁ o₂ s₁ s₂ h₁ h₂
    exact (twin_round (Twin.refl s) hwf hwf hfree h₁ h₂).sameState
  · intro hall
    by_contra hnot
    obtain ⟨fuel₁, fuel₂, o₁, o₂, s₁, s₂, h₁, h₂, hne⟩ :=
      exists_results_ne hwf hdeck hrun hnot
    exact hne (hall fuel₁ fuel₂ o₁ o₂ s₁ s₂ h₁ h₂)

/-! ## Runs -/

/-- Only the orders of the rounds played matter. -/
theorem playRounds_congr {fuel : Nat}
    {os os' : Nat → Schedule Id} {s : War Id} {n : Nat}
    (h : ∀ i < n, os i = os' i) :
    playRounds fuel os n s = playRounds fuel os' n s := by
  induction n with
  | zero => rfl
  | succ n ih =>
      rw [playRounds, playRounds, ih (fun i hi => h i (by omega)),
        h n (Nat.lt_succ_self n)]

/-- A run of several rounds passes through those before. -/
theorem startRound_of_playRounds {fuel : Nat} {os : Nat → Schedule Id}
    {s t : War Id} {i : Nat} (ht : playRounds fuel os i s = .done t) :
    ∀ {k : Nat} {s' : War Id}, playRounds fuel os k s = .done s' → i < k →
      ∃ u, startRound fuel (os i) t = .done u := by
  intro k
  induction k with
  | zero => intro s' _ hlt; exact absurd hlt (Nat.not_lt_zero i)
  | succ k ih =>
      intro s' hrun hlt
      obtain ⟨v, hv, hround⟩ := Outcome.bind_eq_done.mp hrun
      by_cases hik : i = k
      · subst hik
        rw [ht] at hv
        rw [Outcome.done.inj hv]
        exact ⟨s', hround⟩
      · exact ih hv (by omega)

/-- **When no replay shows the orders**: the runs from a state with an empty
    deck agree after every number of rounds exactly when every state they
    reach and can go on from is order-free. -/
theorem replays_iff {s : War Id} (hwf : WellFormed s)
    (hdeck : s.gameDeck.decks = []) :
    (∀ k fuel fuel' os os' s' t', playRounds fuel os k s = .done s' →
      playRounds fuel' os' k s = .done t' → SameState s' t') ↔
    ∀ k fuel os t, playRounds fuel os k s = .done t →
      (∃ fuel o u, startRound fuel o t = .done u) → OrderFree t := by
  constructor
  · rintro hall k fuel os t ht ⟨fuel₀, o, u, hu⟩
    obtain ⟨hwft, hdeckt⟩ := playRounds_keeps
      (fun t => WellFormed t ∧ t.gameDeck.decks = [])
      (fun h hround => ⟨wellFormed_startRound h.1 hround,
        decks_startRound h.1 h.2 hround⟩) ⟨hwf, hdeck⟩ ht
    refine (orderFree_iff hwft hdeckt hu).mpr ?_
    intro fuel₁ fuel₂ o₁ o₂ s₁ s₂ h₁ h₂
    -- one more round in either order
    have hmore : ∀ {fuel' o' s'}, startRound fuel' o' t = .done s' →
        playRounds (fuel + fuel') (Function.update os k o') (k + 1) s
          = .done s' := by
      intro fuel' o' s' h
      have hbefore : ∀ i < k, Function.update os k o' i = os i :=
        fun i hi => Function.update_of_ne (Nat.ne_of_lt hi) o' os
      refine Outcome.bind_eq_done.mpr ⟨t, ?_, ?_⟩
      · rw [playRounds_congr hbefore]
        exact Outcome.done_of_le (fun n => playRounds_refines n os k s)
          (Nat.le_add_right fuel fuel') ht
      · rw [Function.update_self]
        exact Outcome.done_of_le (fun n => startRound_refines n o' t)
          (Nat.le_add_left fuel' fuel) h
    exact hall (k + 1) _ _ _ _ s₁ s₂ (hmore h₁) (hmore h₂)
  · intro hfree k fuel fuel' os os' s' t' hs' ht'
    obtain ⟨-, n, u, hu, -, htwin⟩ := exists_replay hwf os' k s' hs' (by
      intro i hi t ht
      obtain ⟨v, hv⟩ := startRound_of_playRounds ht hs' hi
      exact hfree i fuel os t ht ⟨fuel, os i, v, hv⟩)
    have hut : u = t' :=
      Outcome.done_unique (fun n => playRounds_refines n os' k s) hu ht'
    rw [← hut]
    exact htwin.sameState

end Choices
