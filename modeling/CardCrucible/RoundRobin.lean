import CardCrucible.Games

/-! # Round robin — which card of the deck each player is dealt

    `dealCards` passes over the sorted ids again and again and leaves in the
    middle of a pass when the deck is empty.  One pass gives the `j`-th player
    in the game the `j`-th card, if there is one; so over all passes it gets
    every `k`-th card from the `j`-th on, where `k` players are in the game. -/

namespace RoundRobin

open Outcomes Dictionaries CardModel DeckModel PlayerModel
open WarModel WarModel.War WarState Dealing Games

variable {Id : Type} [LinearOrder Id]

/-- The players cards are dealt to, in the order of their ids. -/
def receivers (s : War Id) : List Id :=
  (s.players.keys.insertionSort (· ≤ ·)).filter (inGame s)

theorem mem_receivers {s : War Id} {id : Id} :
    id ∈ receivers s ↔ inGame s id = true :=
  mem_filter_inGame (fun k h => (mem_sortedKeys s k).mpr h)

/-- The receivers are listed by increasing id. -/
theorem receivers_sorted (s : War Id) : (receivers s).Pairwise (· < ·) := by
  have hle : (s.players.keys.insertionSort (· ≤ ·)).Pairwise (· ≤ ·) :=
    List.pairwise_insertionSort (· ≤ ·) s.players.keys
  have hlt := (hle.and (nodup_sortedKeys s)).imp
    (fun {a b} h => lt_of_le_of_ne h.1 h.2)
  exact hlt.filter _

/-! ## All passes -/

/-- The cards of the `j`-th of `k` players: the `j`-th card of every round. -/
def EveryKth (deck : List Card) (j k : Nat) (gained : List Card) : Prop :=
  ∀ i, gained[i]? = deck[j + k * i]?

/-- The card of a first pass and the cards of the passes after it. -/
theorem everyKth_cons {deck gained : List Card} {j k : Nat} (hj : j < k)
    (h : EveryKth (deck.drop k) j k gained) :
    EveryKth deck j k (deck[j]?.toList ++ gained) := by
  intro i
  cases hcard : deck[j]? with
  | some card =>
      cases i with
      | zero =>
          rw [Nat.mul_zero, Nat.add_zero, hcard]
          rfl
      | succ i =>
          have hi := h i
          rw [List.getElem?_drop] at hi
          show gained[i]? = _
          rw [hi]
          congr 1
          rw [Nat.mul_succ]
          omega
  | none =>
      -- the deck ends before the first card, so there is no later one
      have hlen : deck.length ≤ j := List.getElem?_eq_none_iff.mp hcard
      have hi := h i
      rw [List.drop_eq_nil_of_le (by omega)] at hi
      have hbeyond : deck[j + k * i]? = none :=
        List.getElem?_eq_none (by omega)
      show gained[i]? = _
      rw [hi, hbeyond]
      rfl

/-- What a player gets is as long as the deck has cards for it. -/
theorem EveryKth.lt_length_iff {deck gained : List Card} {j k : Nat}
    (h : EveryKth deck j k gained) (i : Nat) :
    i < gained.length ↔ j + k * i < deck.length := by
  rw [← not_le, ← not_le, ← List.getElem?_eq_none_iff,
    ← List.getElem?_eq_none_iff, h i]

/-- Two of `k` players get the same number of cards, up to one. -/
theorem EveryKth.length_le {deck gained gained' : List Card} {j j' k : Nat}
    (h : EveryKth deck j k gained) (h' : EveryKth deck j' k gained')
    (hj' : j' < k) : gained.length ≤ gained'.length + 1 := by
  by_contra hlong
  have hlast := (h.lt_length_iff (gained'.length + 1)).mp (by omega)
  have hend := (h'.lt_length_iff gained'.length).not.mp (Nat.lt_irrefl _)
  rw [Nat.mul_succ] at hlast
  omega

/-- What the players get tells the deck. -/
theorem eq_of_everyKth {deck deck' : List Card} {k : Nat} (hk : 0 < k)
    (h : ∀ j < k, ∃ gained,
      EveryKth deck j k gained ∧ EveryKth deck' j k gained) :
    deck = deck' := by
  refine List.ext_getElem? (fun i => ?_)
  obtain ⟨gained, hdeck, hdeck'⟩ := h (i % k) (Nat.mod_lt i hk)
  have hi := (hdeck (i / k)).symm.trans (hdeck' (i / k))
  rw [Nat.mod_add_div] at hi
  exact hi

theorem receivers_dealt {s s' : War Id} {share : Id → List Card}
    {rest : List Card} (h : Dealt s s' share rest) :
    receivers s' = receivers s := by
  simp only [receivers]
  rw [h.keys_eq]
  exact List.filter_congr (fun k _ => h.inGame_eq k)

/-- **The loop deals a round robin.** -/
theorem dealLoop_robin :
    ∀ (fuel : Nat) (s : War Id), (∃ id, inGame s id = true) →
      s.gameDeck.decks.length < fuel →
      ∃ s' share, dealLoop fuel s = .done s' ∧ Dealt s s' share [] ∧
        ∀ (j : Nat) (p : Id), (receivers s)[j]? = some p →
          EveryKth s.gameDeck.decks j (receivers s).length (share p) := by
  intro fuel
  induction fuel with
  | zero => intro s _ h; exact absurd h (Nat.not_lt_zero _)
  | succ fuel ih =>
      rintro s ⟨id, hin⟩ hlt
      obtain ⟨t, share, hrun, hdealt, hshare, -⟩ :=
        dealPass_robin (s.players.keys.insertionSort (· ≤ ·)) s
          (nodup_sortedKeys s)
      have hpos : 0 < (receivers s).length :=
        List.length_pos_of_mem (mem_receivers.mpr hin)
      have hbound : ∀ (j : Nat) (p : Id), (receivers s)[j]? = some p →
          j < (receivers s).length := fun j p hp =>
        (List.getElem?_eq_some_iff.mp hp).1
      have hpass : ∀ (j : Nat) (p : Id), (receivers s)[j]? = some p →
          share p = s.gameDeck.decks[j]?.toList := hshare
      have hleft : Dealt s t share
          (s.gameDeck.decks.drop (receivers s).length) := hdealt
      simp only [dealLoop]
      rw [hrun]
      by_cases hend : s.gameDeck.decks.length < (receivers s).length
      · -- the pass has run out of cards
        have hempty : s.gameDeck.decks.drop (receivers s).length = [] :=
          List.drop_eq_nil_of_le (by omega)
        rw [hempty] at hleft
        refine ⟨t, share, if_pos (decide_eq_true hend), hleft, ?_⟩
        intro j p hp
        have hnil : EveryKth (s.gameDeck.decks.drop (receivers s).length) j
            (receivers s).length [] := by
          intro i
          rw [hempty]
          rfl
        have hcons := everyKth_cons (hbound j p hp) hnil
        rw [List.append_nil, ← hpass j p hp] at hcons
        exact hcons
      · have hin' : inGame t id = true := (hleft.inGame_eq id).trans hin
        obtain ⟨s', share', hloop, hdealt', hshare'⟩ := ih t ⟨id, hin'⟩ (by
          rw [hleft.decks_eq, List.length_drop]
          omega)
        refine ⟨s', _, ?_, hleft.trans hdealt', ?_⟩
        · show (if decide _ = true then _ else _) = _
          rw [if_neg (by rw [decide_eq_true_eq]; exact hend)]
          exact hloop
        · intro j p hp
          have hrest := hshare' j p (by rw [receivers_dealt hleft]; exact hp)
          rw [receivers_dealt hleft, hleft.decks_eq] at hrest
          rw [hpass j p hp]
          exact everyKth_cons (hbound j p hp) hrest

/-- Whenever dealing returns it has dealt a round robin. -/
theorem dealCards_robin {s s' : War Id} (hin : ∃ id, inGame s id = true)
    {fuel : Nat} (h : dealCards fuel s = .done s') :
    ∃ share, Dealt s s' share [] ∧
      ∀ (j : Nat) (p : Id), (receivers s)[j]? = some p →
        EveryKth s.gameDeck.decks j (receivers s).length (share p) := by
  obtain ⟨id, hid⟩ := hin
  obtain ⟨t, share, hdone, hdealt, hevery⟩ :=
    dealLoop_robin _ s ⟨id, hid⟩ (Nat.lt_succ_self _)
  have hloop : dealLoop fuel s = .done s' :=
    (if_neg (isEmpty_players_of_inGame hid)).symm.trans h
  have hst : t = s' :=
    Outcome.done_unique (fun n => dealLoop_refines n s) hdone hloop
  rw [hst] at hdealt
  exact ⟨share, hdealt, hevery⟩

/-- **The hands after dealing tell the deck.** -/
theorem decks_eq_of_hands {s t s' t' : War Id} {fuel fuel' : Nat}
    (hin : ∃ id, inGame s id = true) (hreceivers : receivers t = receivers s)
    (hhand : ∀ id, hand t id = hand s id)
    (hs : dealCards fuel s = .done s') (ht : dealCards fuel' t = .done t')
    (hhand' : ∀ id, hand t' id = hand s' id) :
    t.gameDeck.decks = s.gameDeck.decks := by
  obtain ⟨id, hid⟩ := hin
  have hmem : id ∈ receivers s := mem_receivers.mpr hid
  have hid' : inGame t id = true := by
    rw [← hreceivers] at hmem
    exact mem_receivers.mp hmem
  obtain ⟨share, hdealt, hevery⟩ := dealCards_robin ⟨id, hid⟩ hs
  obtain ⟨share', hdealt', hevery'⟩ := dealCards_robin ⟨id, hid'⟩ ht
  rw [hreceivers] at hevery'
  have hshare : ∀ p, share' p = share p := by
    intro p
    have hp := hhand' p
    rw [hdealt.hand_eq, hdealt'.hand_eq, hhand] at hp
    exact List.append_cancel_left hp
  refine eq_of_everyKth (List.length_pos_of_mem hmem) (fun j hj => ?_)
  have hp := List.getElem?_eq_getElem hj
  have hgained' := hevery' j _ hp
  rw [hshare] at hgained'
  exact ⟨_, hgained', hevery j _ hp⟩

/-- **Dealing is a fair round robin**: it ends with an empty deck, the `j`-th
    of the `k` players in the game gets every `k`-th card from the `j`-th on,
    the others are left alone, and no two players get numbers of cards that
    differ by more than one. -/
theorem deal_fair {s : War Id} (hin : ∃ id, inGame s id = true) :
    (receivers s).Pairwise (· < ·) ∧
      (∀ id, id ∈ receivers s ↔ inGame s id = true) ∧
      ∃ (s' : War Id) (gained : Id → List Card),
        (∀ fuel, s.gameDeck.deckSize < fuel → dealCards fuel s = .done s') ∧
        s'.gameDeck.deckCards = [] ∧
        (∀ id, hand s' id = hand s id ++ gained id) ∧
        (∀ (j : Nat) (p : Id), (receivers s)[j]? = some p →
          EveryKth s.gameDeck.deckCards j (receivers s).length (gained p)) ∧
        (∀ id, inGame s id = false →
          s'.tournamentPlayer? id = s.tournamentPlayer? id) ∧
        ∀ p q, inGame s p = true → inGame s q = true →
          (gained p).length ≤ (gained q).length + 1 := by
  refine ⟨receivers_sorted s, fun id => mem_receivers, ?_⟩
  obtain ⟨s', hdone⟩ := dealCards_returns hin (Nat.lt_succ_self _)
  obtain ⟨gained, hdealt, hevery⟩ := dealCards_robin hin hdone
  refine ⟨s', gained, ?_, hdealt.decks_eq, hdealt.hand_eq, hevery,
    fun id hout => hdealt.of_not_inGame hout, ?_⟩
  · -- any other fuel that suffices gives the same result
    intro fuel hfuel
    exact Outcome.done_of_le (fun n => dealCards_refines n s) hfuel hdone
  · intro p q hp hq
    obtain ⟨i, hi⟩ := List.mem_iff_getElem?.mp (mem_receivers.mpr hp)
    obtain ⟨j, hj⟩ := List.mem_iff_getElem?.mp (mem_receivers.mpr hq)
    exact (hevery i p hi).length_le (hevery j q hj)
      (List.getElem?_eq_some_iff.mp hj).1

/-- Five cards for three players, the second of whom is eliminated. -/
def dealTable : War String :=
  { (table [("A", []), ("B", []), ("C", [])]).setPlayer "B"
      ((TournamentPlayer.create "B" "B" []).setIsEliminated true) with
    gameDeck := ⟨cardsAt [0, 1, 2, 3, 4], AllowedNumSubDecks.wrap 1⟩ }

theorem deal_fair_three :
    ∃ (s' : War String) (gained : String → List Card),
      dealCards 6 dealTable = .done s' ∧
      hand s' "A" = gained "A" ∧
      EveryKth (cardsAt [0, 1, 2, 3, 4]) 0 2 (gained "A") ∧
      EveryKth (cardsAt [0, 1, 2, 3, 4]) 1 2 (gained "C") ∧
      (gained "A").length ≤ (gained "C").length + 1 := by
  have hA : inGame dealTable "A" = true := by decide
  have hC : inGame dealTable "C" = true := by decide
  obtain ⟨-, -, s', gained, hrun, -, hhand, hevery, -, hfair⟩ :=
    deal_fair ⟨"A", hA⟩
  exact ⟨s', gained, hrun 6 (by decide), hhand "A",
    hevery 0 "A" (by decide), hevery 1 "C" (by decide), hfair "A" "C" hA hC⟩

end RoundRobin
