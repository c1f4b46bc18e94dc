import CardCrucible.Dealing

/-! # Rounds — what a call of `startRound` can do, said once

    `RoundRun` is the relation between the table before a round and the table
    before `updateGameStatus`: a sole leader collects the cards placed, a war
    is won, or a war is drawn.  In the last case every player of the draw is
    eliminated when the suits are compared, and the comparison skips eliminated
    players: all of them hold a high card, there are at least two of them, and
    the cards are always dealt out again. -/

namespace Rounds

open Outcomes Arrangements Dictionaries CardModel DeckModel PlayerModel
open WarModel WarModel.War WarState WarTurn Comparisons WarRuns Spending
open Dealing

variable {Id : Type} [LinearOrder Id]

/-- The players who place a card, in the order in which they do. -/
def placers (s : War Id) : List Id := recordedIds s 1 false (active s)

/-- The cards placed, in the order in which they are. -/
def placedCards (s : War Id) : List Card := (active s).flatMap (pile s 1)

/-- The table after everybody has placed a card. -/
def afterPlacing (s : War Id) : War Id := turn 1 (active s) s

/-- The comparison of the cards placed. -/
def firstComparison (s : War Id) (rc : Dictionary Id (List Card)) :
    Comparison Id :=
  turnComparison s 1 (active s) (placers s) rc

/-- Leading the comparison of the cards placed. -/
abbrev LeadsRound (s : War Id) (id : Id) : Prop :=
  LeadsTurn s 1 (active s) id

/-- The comparisons after the first: none for a sole leader, those of the war
    otherwise. -/
def laterComparisons (fuel : Nat) (o : Schedule Id) (holders : List Id)
    (s : War Id) : List (Comparison Id) :=
  match holders with
  | [_] => []
  | holders => warComparisons fuel o 0 holders (placedCards s) (afterPlacing s)

/-- Somebody in the game has a card to place. -/
def Live (s : War Id) : Prop := ∃ id, inGame s id = true ∧ hand s id ≠ []

/-- What a call of `startRound` can do before it updates the game status. -/
inductive RoundRun (s : War Id) : List (Comparison Id) → War Id → Prop where
  | sole {rc : Dictionary Id (List Card)} {w : Id}
      (hrc : Records s 1 (active s) rc)
      (hlead : ∀ id, LeadsRound s id ↔ id = w) :
      RoundRun s [firstComparison s rc]
        { payOut w (placedCards s) (afterPlacing s) with
          roundWinner := some w }
  | war {rc : Dictionary Id (List Card)} {holders : List Id}
      {cs : List (Comparison Id)} {e : WarExit Id}
      (hrc : Records s 1 (active s) rc) (hnd : holders.Nodup)
      (htwo : 2 ≤ holders.length)
      (hlead : ∀ id, id ∈ holders ↔ LeadsRound s id)
      (hrun : WarRun holders (placedCards s) (afterPlacing s) cs e)
      (hwon : e.thrown = none) :
      RoundRun s (firstComparison s rc :: cs) e.state
  | drawn {rc : Dictionary Id (List Card)} {holders ids : List Id}
      {cs : List (Comparison Id)} {e : WarExit Id} {s' : War Id}
      {share : Id → List Card}
      (hrc : Records s 1 (active s) rc) (hnd : holders.Nodup)
      (htwo : 2 ≤ holders.length)
      (hlead : ∀ id, id ∈ holders ↔ LeadsRound s id)
      (hrun : WarRun holders (placedCards s) (afterPlacing s) cs e)
      (hthrown : e.thrown = some (.draw ids))
      (hleft : ∃ id, inGame e.state id = true)
      (hdealt : Dealt { e.state with
          gameDeck := e.state.gameDeck.setDeckCards e.prizeCards }
        s' share []) :
      RoundRun s (firstComparison s rc :: cs) s'

/-! ## Placing the cards -/

theorem mem_placers {s : War Id} {id : Id} :
    id ∈ placers s ↔ inGame s id = true ∧ hand s id ≠ [] := by
  simp only [placers, recordedIds]
  rw [List.mem_filter, mem_active]
  refine and_congr_right (fun _ => ?_)
  simp only [pile]
  cases hand s id with
  | nil => simp
  | cons c cs => simp

/-- The entries of the cards placed name registered players with a card. -/
theorem announceCards_eq {s : War Id} :
    ∀ {entries : List (Id × List Card)},
      (∀ e ∈ entries, e.1 ∈ s.players.keys ∧ e.2 ≠ []) →
      announceCards s entries = .done () := by
  intro entries
  induction entries with
  | nil => intro _; rfl
  | cons e rest ih =>
      intro h
      obtain ⟨id, cards⟩ := e
      obtain ⟨hkey, hne⟩ := h (id, cards) List.mem_cons_self
      obtain ⟨v, hv⟩ := Dictionary.mem_keys.mp hkey
      cases cards with
      | nil => exact absurd rfl hne
      | cons c cs =>
          simp only [announceCards]
          rw [hv]
          exact ih (fun e he => h e (List.mem_cons_of_mem _ he))

theorem live_iff_stand {s : War Id} :
    Live s ↔ ∃ id ∈ active s, 1 ≤ (hand s id).length := by
  constructor
  · rintro ⟨id, hin, hne⟩
    refine ⟨id, mem_active.mpr hin, ?_⟩
    have := List.length_pos_iff.mpr hne
    omega
  · rintro ⟨id, hid, hlen⟩
    refine ⟨id, mem_active.mp hid, ?_⟩
    intro hnil
    rw [hnil] at hlen
    exact absurd hlen (by simp)

/-- The entries of the cards placed can be announced. -/
theorem announceCards_placed {s : War Id} {rc : Dictionary Id (List Card)}
    (hrc : Records s 1 (active s) rc) (hkeys : rc.keys = placers s)
    (order : Arrangement (Id × List Card)) :
    announceCards (afterPlacing s) (order.arrange rc.entries) = .done () := by
  refine announceCards_eq ?_
  intro e he
  have he' : e ∈ rc.entries := (order.mem_arrange _ e).mp he
  have hkey : e.1 ∈ placers s := by
    rw [← hkeys]
    exact List.mem_map_of_mem (f := Prod.fst) he'
  obtain ⟨hin, hne⟩ := mem_placers.mp hkey
  refine ⟨?_, ?_⟩
  · show e.1 ∈ (turn 1 (active s) s).players.keys
    rw [keys_turn]
    exact mem_keys_of_inGame hin
  · rw [hrc.entries e he']
    simp only [pile]
    intro hnil
    rcases List.take_eq_nil_iff.mp hnil with h0 | h0
    · exact absurd h0 (by omega)
    · exact hne h0

/-- Placing the cards records those who placed one. -/
theorem placeCards_records {s : War Id} (hwf : WellFormed s) :
    ∃ rc, placeCards s = .done (rc, placedCards s, afterPlacing s) ∧
      Records s 1 (active s) rc ∧ rc.keys = placers s := by
  obtain ⟨rc, hentries, hplace⟩ := placeCards_eq hwf
  refine ⟨rc, hplace, records_of_entries hentries, ?_⟩
  simp only [Dictionary.keys]
  rw [hentries]
  simp only [piles]
  rw [List.map_map]
  exact List.map_id _

/-- The high card holders of the cards placed, if there is a card. -/
theorem firstHolders {s : War Id} (hlive : Live s)
    {rc : Dictionary Id (List Card)} (hrc : Records s 1 (active s) rc)
    (order : Arrangement (Id × List Card)) :
    ∃ holders, determineHighCardHolders (afterPlacing s) order rc false
        = .done holders ∧
      holders.Nodup ∧ holders ≠ [] ∧
      ∀ id, id ∈ holders ↔ LeadsRound s id :=
  determineHighCardHolders_turn Nat.zero_lt_one hrc
    (fun _ hid => mem_active.mp hid) (live_iff_stand.mp hlive) order

/-- Without a card there is no highest rank. -/
theorem firstHolders_of_not_live {s : War Id} (h : ¬ Live s)
    {rc : Dictionary Id (List Card)} (hkeys : rc.keys = placers s)
    (order : Arrangement (Id × List Card)) :
    determineHighCardHolders (afterPlacing s) order rc false = .trap
      "An empty array does not possess a highest ranked card" := by
  have hnone : placers s = [] := by
    rw [List.eq_nil_iff_forall_not_mem]
    intro id hid
    obtain ⟨hin, hne⟩ := mem_placers.mp hid
    exact h ⟨id, hin, hne⟩
  have hmap : rc.entries.map Prod.fst = [] := hkeys.trans hnone
  have hnil : rc.entries = [] := List.map_eq_nil_iff.mp hmap
  simp only [determineHighCardHolders]
  rw [hnil, (Arrangement.arrange_eq_nil order []).mpr rfl]
  rfl

/-- A round settles among the high card holders of the cards placed. -/
theorem startRound_of_holders {s : War Id} {o : Schedule Id}
    {rc : Dictionary Id (List Card)} {holders : List Id}
    (hplace : placeCards s = .done (rc, placedCards s, afterPlacing s))
    (hrc : Records s 1 (active s) rc) (hkeys : rc.keys = placers s)
    (hholders : determineHighCardHolders (afterPlacing s) o.roundCards rc
      false = .done holders) (fuel : Nat) :
    startRound fuel o s
        = (settleRound fuel o holders (placedCards s) (afterPlacing s) >>=
            fun t => .done (t.updateGameStatus o.players)) ∧
      roundComparisons fuel o s
        = firstComparison s rc :: laterComparisons fuel o holders s := by
  constructor
  · simp only [startRound]
    simp only [hplace, Outcome.done_bind,
      announceCards_placed hrc hkeys o.roundCards, hholders]
    rfl
  · simp only [roundComparisons]
    simp only [hplace, hholders, hkeys]
    cases holders with
    | nil => rfl
    | cons a rest => cases rest <;> rfl

/-- **A round with a card to place** compares the cards placed and settles
    among those who lead. -/
theorem startRound_eq {s : War Id} (hwf : WellFormed s) (hlive : Live s)
    (o : Schedule Id) :
    ∃ rc holders, Records s 1 (active s) rc ∧ holders.Nodup ∧ holders ≠ [] ∧
      (∀ id, id ∈ holders ↔ LeadsRound s id) ∧ ∀ fuel,
      startRound fuel o s
        = (settleRound fuel o holders (placedCards s) (afterPlacing s) >>=
            fun t => .done (t.updateGameStatus o.players)) ∧
      roundComparisons fuel o s
        = firstComparison s rc :: laterComparisons fuel o holders s := by
  obtain ⟨rc, hplace, hrc, hkeys⟩ := placeCards_records hwf
  obtain ⟨holders, hholders, hnd, hne, hlead⟩ :=
    firstHolders hlive hrc o.roundCards
  exact ⟨rc, holders, hrc, hnd, hne, hlead,
    startRound_of_holders hplace hrc hkeys hholders⟩

/-- **A round without a card to place traps**: there is no highest rank. -/
theorem startRound_of_not_live {s : War Id} (hwf : WellFormed s)
    (h : ¬ Live s) (fuel : Nat) (o : Schedule Id) :
    startRound fuel o s = .trap
      "An empty array does not possess a highest ranked card" := by
  obtain ⟨rc, hplace, hrc, hkeys⟩ := placeCards_records hwf
  have hannounce := announceCards_placed hrc hkeys o.roundCards
  have hholders := firstHolders_of_not_live h hkeys o.roundCards
  simp only [startRound]
  simp only [hplace, Outcome.done_bind, hannounce, hholders,
    Outcome.trap_bind]

/-! ## The draw -/

/-- What a draw says about its players. -/
structure DrawFacts (holders ids : List Id) (e : WarExit Id) : Prop where
  nodup : ids.Nodup
  sub : ∀ id ∈ ids, id ∈ holders
  two : 2 ≤ ids.length
  empty : ∀ id ∈ ids, hand e.state id = []
  out : ∀ id ∈ ids, isOut e.state id = true
  roundWinner : e.state.roundWinner = none

/-- Whoever takes a turn with an empty hand is out. -/
theorem isOut_turn_of_empty {s : War Id} {ids : List Id} {id : Id}
    (hid : id ∈ ids) (hin : inGame s id = true) (hempty : hand s id = []) :
    isOut (turn 1 ids s) id = true := by
  obtain ⟨p, hp, -⟩ := inGame_iff.mp hin
  refine (isOut_turn 1 ids s id).mpr (Or.inr ⟨⟨p, hp⟩, hid, ?_⟩)
  rw [hempty]
  exact Nat.zero_lt_one

/-- A draw is among at least two holders, who are all out without a card. -/
theorem drawFacts {holders : List Id} {prizeCards : List Card} {s : War Id}
    {cs : List (Comparison Id)} {e : WarExit Id}
    (hrun : WarRun holders prizeCards s cs e) :
    ∀ {ids : List Id}, Holders s holders → 2 ≤ holders.length →
      e.thrown = some (.draw ids) → DrawFacts holders ids e := by
  induction hrun with
  | drawn hempty =>
      intro ids h htwo he
      have hids : _ = ids := GameEvent.draw.inj (Option.some.inj he)
      subst hids
      exact {
        nodup := h.nodup
        sub := fun _ hid => hid
        two := htwo
        empty := fun id hid => by
          show hand (turn 1 _ _) id = []
          rw [hand_turn, if_pos hid, hempty id hid, List.drop_nil]
        out := fun id hid =>
          isOut_turn_of_empty hid (h.inGame id hid) (hempty id hid)
        roundWinner := rfl }
  | won hrc hlead => intro ids _ _ he; cases he
  | again hrc hnd htwo' hlead hrest ih =>
      intro ids h _ he
      have hfacts := ih (holders_next h hnd hlead) htwo' he
      exact { hfacts with
        sub := fun id hid => ((hlead id).mp (hfacts.sub id hid)).1 }

/-- Turns only ever add a last card played. -/
theorem lastPlayed_turn {s : War Id} {need : Nat} {ids : List Id} {id : Id}
    (h : ∃ c, lastPlayed s id = some c) :
    ∃ c, lastPlayed (turn need ids s) id = some c := by
  obtain ⟨c, hc⟩ := h
  simp only [lastPlayed] at hc ⊢
  rw [tournamentPlayer?_turn]
  cases hp : s.tournamentPlayer? id with
  | none => rw [hp] at hc; simp at hc
  | some p =>
      rw [hp] at hc
      by_cases hid : id ∈ ids
      · -- an empty hand leaves the card played before
        rw [Option.map_some, if_pos hid]
        show ∃ d, (p.cards.take need).getLast?.or p.lastPlayedCard = some d
        cases (p.cards.take need).getLast? with
        | some d => exact ⟨d, rfl⟩
        | none => exact ⟨c, hc⟩
      · rw [Option.map_some, if_neg hid]
        exact ⟨c, hc⟩

/-- Whoever shows a card in a turn has a last card played after it. -/
theorem lastPlayed_of_shows {s : War Id} {ids : List Id} {id : Id}
    (hid : id ∈ ids) (hin : inGame s id = true) {need : Nat}
    (hneed : 0 < need) (h : need ≤ (hand s id).length) :
    ∃ c, lastPlayed (turn need ids s) id = some c := by
  obtain ⟨p, hp, -⟩ := inGame_iff.mp hin
  rw [hand_of_some hp] at h
  obtain ⟨last, hlast, hturn⟩ := playTurn_of_le hneed h
  have hp' : (turn need ids s).tournamentPlayer? id
      = some (playTurn need p) := by
    rw [tournamentPlayer?_turn, hp, Option.map_some, if_pos hid]
  refine ⟨last, ?_⟩
  rw [lastPlayed_of_some hp', hturn]

/-- The players of a draw all have a last card played if the holders had. -/
theorem lastPlayed_of_draw {holders : List Id} {prizeCards : List Card}
    {s : War Id} {cs : List (Comparison Id)} {e : WarExit Id}
    (hrun : WarRun holders prizeCards s cs e) :
    ∀ {ids : List Id}, (∀ id ∈ holders, ∃ c, lastPlayed s id = some c) →
      e.thrown = some (.draw ids) →
      ∀ id ∈ ids, ∃ c, lastPlayed e.state id = some c := by
  induction hrun with
  | drawn hempty =>
      intro ids hlast he id hid
      have hids : _ = ids := GameEvent.draw.inj (Option.some.inj he)
      subst hids
      exact lastPlayed_turn (hlast id hid)
  | won hrc hlead => intro ids _ he; cases he
  | again hrc hnd htwo hlead hrest ih =>
      intro ids hlast he
      refine ih (fun id hid => ?_) he
      exact lastPlayed_turn (hlast id ((hlead id).mp hid).1)

/-- Among eliminated players the suits are never compared. -/
theorem beatsSuits_of_out {s : War Id} {id : Id} (hout : isOut s id = true)
    (cards : List Card) :
    ∀ (b : Bool) (entries : List (Id × List Card)),
      beatsSuits s id cards b entries = .done b := by
  intro b entries
  obtain ⟨p, hp, he⟩ := isOut_iff.mp hout
  have hnot : p.isNotEliminated = false := by
    rw [TournamentPlayer.isNotEliminated_eq, he]
    rfl
  induction entries with
  | nil => rfl
  | cons e rest ih =>
      obtain ⟨oId, oCards⟩ := e
      simp only [beatsSuits]
      by_cases hne : id ≠ oId
      · simp only [if_pos hne, hp, hnot, Bool.false_eq_true, if_false]
        exact ih
      · rw [if_neg hne]
        exact ih

/-- So every one of them holds a high card. -/
theorem suitHolders_of_out {s : War Id} (all : List (Id × List Card)) :
    ∀ {entries : List (Id × List Card)},
      (∀ e ∈ entries, isOut s e.1 = true) →
      suitHolders s all entries = .done (entries.map Prod.fst) := by
  intro entries
  induction entries with
  | nil => intro _; rfl
  | cons e rest ih =>
      intro hout
      obtain ⟨id, cards⟩ := e
      simp only [suitHolders]
      rw [beatsSuits_of_out (hout (id, cards) List.mem_cons_self) cards true
        all, ih (fun e he => hout e (List.mem_cons_of_mem _ he))]
      rfl

/-- The last cards played are collected for every player who has one. -/
theorem lastPlayedLoop_eq {s : War Id} :
    ∀ (ids : List Id) (acc : Dictionary Id (List Card)),
      ids.Nodup → (∀ id ∈ ids, id ∉ acc.keys) →
      (∀ id ∈ ids, ∃ c, lastPlayed s id = some c) →
      ∃ out : Dictionary Id (List Card),
        out.keys = acc.keys ++ ids ∧
        lastPlayedLoop s ids acc = .done out := by
  intro ids
  induction ids with
  | nil =>
      intro acc _ _ _
      exact ⟨acc, (List.append_nil _).symm, rfl⟩
  | cons id ids ih =>
      intro acc hnd hnew hlast
      rw [List.nodup_cons] at hnd
      have hid := hnew id List.mem_cons_self
      obtain ⟨c, hc⟩ := hlast id List.mem_cons_self
      simp only [lastPlayed] at hc
      cases hp : s.tournamentPlayer? id with
      | none => rw [hp] at hc; simp at hc
      | some p =>
          rw [hp] at hc
          have hc' : p.lastPlayedCard = some c := hc
          obtain ⟨out, hout, hloop⟩ := ih (acc.set id [c]) hnd.2
            (notMem_keys_set [c] hid hnd.1
              (fun k hk => hnew k (List.mem_cons_of_mem _ hk)))
            (fun k hk => hlast k (List.mem_cons_of_mem _ hk))
          refine ⟨out, ?_, ?_⟩
          · rw [hout, keys_set_of_notMem [c] hid, List.append_assoc]
            rfl
          · simp only [lastPlayedLoop]
            simp only [hp, hc', hloop]

/-- **The tie-breaker never decides**: the handler of a draw among at least
    two eliminated players deals the cards out again. -/
theorem handleDraw_eq {s : War Id} {ids : List Id} (hnd : ids.Nodup)
    (htwo : 2 ≤ ids.length) (hout : ∀ id ∈ ids, isOut s id = true)
    (hlast : ∀ id ∈ ids, ∃ c, lastPlayed s id = some c)
    (fuel : Nat) (o : Schedule Id) (cards : List Card) :
    handleDraw fuel o ids cards s
      = dealCards fuel
          { s with gameDeck := s.gameDeck.setDeckCards cards } := by
  obtain ⟨out, hkeys, hloop⟩ := lastPlayedLoop_eq ids Dictionary.empty hnd
    (fun _ _ => List.not_mem_nil) hlast
  rw [Dictionary.keys_empty, List.nil_append] at hkeys
  have hholders : determineHighCardHolders s o.lastPlayedCards out true
      = .done ((o.lastPlayedCards.arrange out.entries).map Prod.fst) := by
    simp only [determineHighCardHolders]
    simp only [if_true]
    refine suitHolders_of_out _ ?_
    intro e he
    have he' := (o.lastPlayedCards.mem_arrange _ e).mp he
    have hkey : e.1 ∈ out.keys := List.mem_map_of_mem (f := Prod.fst) he'
    rw [hkeys] at hkey
    exact hout e.1 hkey
  have hlen : 2 ≤ ((o.lastPlayedCards.arrange out.entries).map
      Prod.fst).length := by
    rw [List.length_map, Arrangement.length_arrange]
    have : out.keys.length = out.entries.length := List.length_map ..
    rw [← this, hkeys]
    exact htwo
  simp only [handleDraw]
  simp only [hloop, Outcome.done_bind, hholders]
  cases hcase : (o.lastPlayedCards.arrange out.entries).map Prod.fst with
  | nil => rfl
  | cons a rest =>
      cases rest with
      | nil =>
          rw [hcase] at hlen
          exact absurd hlen (by simp)
      | cons b rest => rfl

/-! ## Settling -/

/-- Those who lead the comparison of the cards placed can go to war. -/
theorem holders_first {s : War Id} {holders : List Id} (hnd : holders.Nodup)
    (hlead : ∀ id, id ∈ holders ↔ LeadsRound s id) :
    Holders (afterPlacing s) holders where
  nodup := hnd
  inGame := fun id hid => inGame_of_leads Nat.zero_lt_one
    (fun _ hk => mem_active.mp hk) ((hlead id).mp hid)

/-- A sole leader collects the cards placed. -/
theorem settleRound_sole {s : War Id} (hwf : WellFormed s) {w : Id}
    (hlead : LeadsRound s w) (fuel : Nat) (o : Schedule Id) :
    settleRound fuel o [w] (placedCards s) (afterPlacing s)
      = .done { payOut w (placedCards s) (afterPlacing s) with
          roundWinner := some w } := by
  have hin : inGame (afterPlacing s) w = true :=
    inGame_of_leads Nat.zero_lt_one (fun _ hk => mem_active.mp hk) hlead
  obtain ⟨p, hp, hpid, hpay, -⟩ :=
    collect_eq (hwf.turn 1 (active s)) hin (placedCards s)
  have hp' : tournamentPlayer? (afterPlacing s) w = some p := hp
  have hpaid : setPlayer (afterPlacing s) w (p.addToCards (placedCards s))
      = payOut w (placedCards s) (afterPlacing s) := hpay
  simp only [settleRound]
  simp only [hp', hpaid, show p.id = w from hpid]

/-- Several leaders go to war; a draw goes to its handler. -/
theorem settleRound_war {holders : List Id} (hmany : ∀ w, holders ≠ [w])
    (fuel : Nat) (o : Schedule Id) (cards : List Card) (s : War Id) :
    settleRound fuel o holders cards s
      = (war fuel o 0 holders cards s >>= fun exit =>
          match exit.thrown with
          | none => .done exit.state
          | some (.draw playerIds) =>
              handleDraw fuel o playerIds exit.prizeCards exit.state) := by
  cases holders with
  | nil => rfl
  | cons a rest =>
      cases rest with
      | nil => exact absurd rfl (hmany a)
      | cons b rest => rfl

/-- The draw of a round is handled by dealing its cards. -/
theorem handleDraw_round {s : War Id} {holders ids : List Id}
    (hnd : holders.Nodup) (htwo : 2 ≤ holders.length)
    (hlead : ∀ id, id ∈ holders ↔ LeadsRound s id)
    {cs : List (Comparison Id)} {e : WarExit Id}
    (hrun : WarRun holders (placedCards s) (afterPlacing s) cs e)
    (hthrown : e.thrown = some (.draw ids)) (fuel : Nat) (o : Schedule Id) :
    handleDraw fuel o ids e.prizeCards e.state
      = dealCards fuel { e.state with
          gameDeck := e.state.gameDeck.setDeckCards e.prizeCards } := by
  have hfacts := drawFacts hrun (holders_first hnd hlead) htwo hthrown
  refine handleDraw_eq hfacts.nodup hfacts.two hfacts.out ?_ fuel o _
  refine lastPlayed_of_draw hrun ?_ hthrown
  intro id hid
  obtain ⟨hact, card, hcard, -⟩ := (hlead id).mp hid
  exact lastPlayed_of_shows hact (mem_active.mp hact) Nat.zero_lt_one
    ((shows_isSome Nat.zero_lt_one).mp ⟨card, hcard⟩)

/-- **How a round is settled**: a sole leader collects, or the war of several
    is won, or it is drawn and its cards are dealt. -/
theorem settleRound_exit {s s' : War Id} (hwf : WellFormed s)
    {holders : List Id} (hnd : holders.Nodup) (hne : holders ≠ [])
    (hlead : ∀ id, id ∈ holders ↔ LeadsRound s id) {fuel : Nat}
    {o : Schedule Id}
    (h : settleRound fuel o holders (placedCards s) (afterPlacing s)
      = .done s') :
    (∃ w, holders = [w] ∧
      s' = { payOut w (placedCards s) (afterPlacing s) with
        roundWinner := some w }) ∨
    (2 ≤ holders.length ∧ ∃ e,
      WarRun holders (placedCards s) (afterPlacing s)
        (laterComparisons fuel o holders s) e ∧
      ((e.thrown = none ∧ s' = e.state) ∨
        ∃ ids, e.thrown = some (.draw ids) ∧
          dealCards fuel { e.state with
            gameDeck := e.state.gameDeck.setDeckCards e.prizeCards }
            = .done s')) := by
  by_cases hone : ∃ w, holders = [w]
  · obtain ⟨w, hw⟩ := hone
    subst hw
    have hw := (hlead w).mp (List.mem_singleton.mpr rfl)
    rw [settleRound_sole hwf hw] at h
    exact Or.inl ⟨w, rfl, (Outcome.done.inj h).symm⟩
  · have hmany : ∀ w, holders ≠ [w] := fun w hw => hone ⟨w, hw⟩
    have htwo := length_two_le hne hmany
    rw [settleRound_war hmany] at h
    obtain ⟨e, hwar, hexit⟩ := Outcome.bind_eq_done.mp h
    have hrun := war_inv o _ _ _ _ _ _ (hwf.turn 1 (active s))
      (holders_first hnd hlead) hwar
    have hcs : laterComparisons fuel o holders s
        = warComparisons fuel o 0 holders (placedCards s)
            (afterPlacing s) := by
      obtain ⟨a, b, rest, rfl⟩ := exists_cons_cons htwo
      rfl
    rw [hcs]
    refine Or.inr ⟨htwo, e, hrun, ?_⟩
    cases hthrown : e.thrown with
    | none =>
        rw [hthrown] at hexit
        exact Or.inl ⟨rfl, (Outcome.done.inj hexit).symm⟩
    | some ev =>
        obtain ⟨ids⟩ := ev
        rw [hthrown] at hexit
        refine Or.inr ⟨ids, rfl, ?_⟩
        rw [← handleDraw_round hnd htwo hlead hrun hthrown fuel o]
        exact hexit

/-- Every result of settling comes from a run of the round. -/
theorem settleRound_inv {s s' : War Id} (hwf : WellFormed s)
    {rc : Dictionary Id (List Card)} {holders : List Id}
    (hrc : Records s 1 (active s) rc) (hnd : holders.Nodup)
    (hne : holders ≠ []) (hlead : ∀ id, id ∈ holders ↔ LeadsRound s id)
    {fuel : Nat} {o : Schedule Id}
    (h : settleRound fuel o holders (placedCards s) (afterPlacing s)
      = .done s') :
    RoundRun s (firstComparison s rc :: laterComparisons fuel o holders s)
      s' := by
  rcases settleRound_exit hwf hnd hne hlead h with
    ⟨w, hw, hs'⟩ | ⟨htwo, e, hrun, ⟨hwon, hs'⟩ | ⟨ids, hthrown, hdeal⟩⟩
  · subst hw
    rw [hs']
    exact .sole hrc (fun id => (hlead id).symm.trans List.mem_singleton)
  · rw [hs']
    exact .war hrc hnd htwo hlead hrun hwon
  · obtain ⟨share, hdealt⟩ := dealCards_dealt hdeal
    -- dealing to nobody would not have returned
    have hleft : ∃ id, inGame e.state id = true := by
      by_contra hno
      refine dealCards_of_none (fun id => ?_) hdeal
      exact Bool.eq_false_iff.mpr (fun hin => hno ⟨id, hin⟩)
    exact .drawn hrc hnd htwo hlead hrun hthrown hleft hdealt

/-- **Every round that returns is a `RoundRun`**, followed by the update of the
    game status. -/
theorem startRound_inv {s s' : War Id} (hwf : WellFormed s) {fuel : Nat}
    {o : Schedule Id} (h : startRound fuel o s = .done s') :
    ∃ t, RoundRun s (roundComparisons fuel o s) t ∧
      s' = t.updateGameStatus o.players := by
  by_cases hlive : Live s
  · obtain ⟨rc, holders, hrc, hnd, hne, hlead, heq⟩ :=
      startRound_eq hwf hlive o
    rw [(heq fuel).1] at h
    obtain ⟨t, ht, hs'⟩ := Outcome.bind_eq_done.mp h
    refine ⟨t, ?_, (Outcome.done.inj hs').symm⟩
    rw [(heq fuel).2]
    exact settleRound_inv hwf hrc hnd hne hlead ht
  · rw [startRound_of_not_live hwf hlive fuel o] at h
    simp at h

/-- **When a round returns**: a sole leader and a war that is won always make
    it return, a draw if it leaves somebody in the game. -/
theorem startRound_returns {s : War Id} (hwf : WellFormed s) (hlive : Live s)
    (o : Schedule Id)
    (hleft : ∀ holders cs e ids, holders.Nodup → 2 ≤ holders.length →
      (∀ id, id ∈ holders ↔ LeadsRound s id) →
      WarRun holders (placedCards s) (afterPlacing s) cs e →
      e.thrown = some (.draw ids) → ∃ id, inGame e.state id = true) :
    ∃ fuel s', startRound fuel o s = .done s' := by
  obtain ⟨rc, holders, hrc, hnd, hne, hlead, heq⟩ := startRound_eq hwf hlive o
  by_cases hone : ∃ w, holders = [w]
  · obtain ⟨w, hw⟩ := hone
    subst hw
    have hw := (hlead w).mp (List.mem_singleton.mpr rfl)
    refine ⟨0, updateGameStatus o.players
      { payOut w (placedCards s) (afterPlacing s) with
        roundWinner := some w }, ?_⟩
    rw [(heq 0).1, settleRound_sole hwf hw]
    rfl
  · have hmany : ∀ w, holders ≠ [w] := fun w hw => hone ⟨w, hw⟩
    have htwo := length_two_le hne hmany
    have hholders := holders_first hnd hlead
    have hwf' := hwf.turn 1 (active s)
    have hsettle := fun fuel =>
      settleRound_war hmany fuel o (placedCards s) (afterPlacing s)
    obtain ⟨e, hwar⟩ := war_returns o _ 0 holders (placedCards s)
      (afterPlacing s) hwf' hholders (Nat.lt_succ_self _)
    have hrun := war_inv o _ _ _ _ _ _ hwf' hholders hwar
    have hwar' := fun n (hn : holding (afterPlacing s) holders + 1 ≤ n) =>
      Outcome.done_of_le (fun n => war_refines o n 0 holders (placedCards s)
        (afterPlacing s)) hn hwar
    -- the fuel is enough for the war and for the dealing after it
    cases hthrown : e.thrown with
    | none =>
        refine ⟨holding (afterPlacing s) holders + 1,
          updateGameStatus o.players e.state, ?_⟩
        · rw [(heq _).1, hsettle, hwar' _ (le_refl _)]
          simp only [Outcome.done_bind, hthrown]
    | some ev =>
        obtain ⟨ids⟩ := ev
        have hin := hleft holders _ e ids hnd htwo hlead hrun hthrown
        let deck := e.state.gameDeck.setDeckCards e.prizeCards
        have hfuel : deck.decks.length
            < holding (afterPlacing s) holders + 1
              + (deck.decks.length + 1) := by omega
        obtain ⟨t, ht⟩ := dealCards_returns
          (s := { e.state with gameDeck := deck }) hin hfuel
        refine ⟨holding (afterPlacing s) holders + 1
          + (deck.decks.length + 1), t.updateGameStatus o.players, ?_⟩
        · rw [(heq _).1, hsettle, hwar' _ (by omega)]
          simp only [Outcome.done_bind, hthrown]
          rw [handleDraw_round hnd htwo hlead hrun hthrown, ht]
          rfl

/-! ## The result of a round does not depend on its fuel -/

theorem handleDraw_refines (fuel : Nat) (o : Schedule Id) (ids : List Id)
    (cards : List Card) (s : War Id) :
    (handleDraw fuel o ids cards s).Refines
      (handleDraw (fuel + 1) o ids cards s) := by
  refine Outcome.Refines.bind (Outcome.Refines.refl _) (fun last => ?_)
  refine Outcome.Refines.bind (Outcome.Refines.refl _) (fun high => ?_)
  -- only the dealing of the cards that nobody has won uses the fuel
  cases high with
  | nil => exact dealCards_refines fuel _
  | cons a rest =>
      cases rest with
      | nil => exact Outcome.Refines.refl _
      | cons b rest => exact dealCards_refines fuel _

theorem settleRound_refines (fuel : Nat) (o : Schedule Id)
    (holders : List Id) (cards : List Card) (s : War Id) :
    (settleRound fuel o holders cards s).Refines
      (settleRound (fuel + 1) o holders cards s) := by
  by_cases hone : ∃ w, holders = [w]
  · obtain ⟨w, rfl⟩ := hone
    exact Outcome.Refines.refl _
  · have hmany : ∀ w, holders ≠ [w] := fun w hw => hone ⟨w, hw⟩
    rw [settleRound_war hmany, settleRound_war hmany]
    refine Outcome.Refines.bind (war_refines o fuel 0 holders cards s)
      (fun exit => ?_)
    cases exit.thrown with
    | none => exact Outcome.Refines.refl _
    | some ev =>
        obtain ⟨ids⟩ := ev
        exact handleDraw_refines fuel o ids exit.prizeCards exit.state

theorem startRound_refines (fuel : Nat) (o : Schedule Id) (s : War Id) :
    (startRound fuel o s).Refines (startRound (fuel + 1) o s) := by
  simp only [startRound]
  refine Outcome.Refines.bind (Outcome.Refines.refl _) ?_
  rintro ⟨roundCards, cards, t⟩
  refine Outcome.Refines.bind (Outcome.Refines.refl _) (fun _ => ?_)
  refine Outcome.Refines.bind (Outcome.Refines.refl _) (fun holders => ?_)
  exact Outcome.Refines.bind (settleRound_refines fuel o holders cards t)
    (fun _ => Outcome.Refines.refl _)

/-- A round has one result. -/
theorem startRound_unique {o : Schedule Id} {s t u : War Id} {n m : Nat}
    (ht : startRound n o s = .done t) (hu : startRound m o s = .done u) :
    t = u :=
  Outcome.done_unique (fun k => startRound_refines k o s) ht hu

end Rounds
