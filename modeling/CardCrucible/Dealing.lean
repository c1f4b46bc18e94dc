import CardCrucible.Spending

/-! # Dealing — where the cards of the game deck go

    `dealCards` leaves its `while true` only through a failed draw, and only a
    player in the game draws.  So it ends exactly when somebody is in the game,
    and then the whole deck has moved into the hands of players in the game. -/

namespace Dealing

open Outcomes Arrangements Dictionaries CardModel DeckModel PlayerModel
open WarModel WarModel.War WarState Spending

variable {Id : Type} [LinearOrder Id]

/-- Append a share of cards to every hand. -/
def deal (share : Id → List Card) (s : War Id) : War Id :=
  updatePlayers s (fun id p => p.addToCards (share id))

/-- `s'` is `s` after cards of the game deck were dealt: `share` went to the
    players in the game and `rest` is still in the deck. -/
structure Dealt (s s' : War Id) (share : Id → List Card) (rest : List Card) :
    Prop where
  skip : ∀ id, inGame s id = false → share id = []
  state : s' = { deal share s with
    gameDeck := { s.gameDeck with decks := rest } }
  cards : (s.gameDeck.decks : Multiset Card)
    = ∑ id ∈ s.players.keys.toFinset, (share id : Multiset Card) + rest

omit [LinearOrder Id] in
@[simp] theorem keys_deal (share : Id → List Card) (s : War Id) :
    (deal share s).players.keys = s.players.keys := keys_updatePlayers ..

theorem tournamentPlayer?_deal (share : Id → List Card) (s : War Id)
    (id : Id) :
    (deal share s).tournamentPlayer? id
      = (s.tournamentPlayer? id).map (fun p => p.addToCards (share id)) :=
  tournamentPlayer?_updatePlayers ..

@[simp] theorem inGame_deal (share : Id → List Card) (s : War Id) (id : Id) :
    inGame (deal share s) id = inGame s id :=
  inGame_updatePlayers (f := fun id p => p.addToCards (share id))
    (fun _ _ => rfl) s id

theorem hand_deal {share : Id → List Card} {s : War Id}
    (hskip : ∀ id, inGame s id = false → share id = []) (id : Id) :
    hand (deal share s) id = hand s id ++ share id := by
  simp only [hand]
  rw [tournamentPlayer?_deal]
  cases h : s.tournamentPlayer? id with
  | none =>
      rw [hskip id (inGame_of_none h)]
      rfl
  | some p => rfl

omit [LinearOrder Id] in
theorem WellFormed.deal {s : War Id} (h : WellFormed s)
    (share : Id → List Card) : WellFormed (deal share s) :=
  h.updatePlayers (fun _ _ => rfl)

namespace Dealt

variable {s s' s'' : War Id} {share share' : Id → List Card}
variable {rest rest' : List Card}

theorem tournamentPlayer? (h : Dealt s s' share rest) (id : Id) :
    s'.tournamentPlayer? id
      = (s.tournamentPlayer? id).map (fun p => p.addToCards (share id)) := by
  rw [h.state]
  exact tournamentPlayer?_deal share s id

theorem inGame_eq (h : Dealt s s' share rest) (id : Id) :
    inGame s' id = inGame s id := by
  rw [h.state]
  exact inGame_deal share s id

theorem hand_eq (h : Dealt s s' share rest) (id : Id) :
    hand s' id = hand s id ++ share id := by
  rw [h.state]
  exact hand_deal h.skip id

theorem keys_eq (h : Dealt s s' share rest) :
    s'.players.keys = s.players.keys := by
  rw [h.state]
  exact keys_deal share s

theorem name_eq (h : Dealt s s' share rest) (id : Id) :
    nameOf s' id = nameOf s id := by
  rw [h.state]
  exact nameOf_updatePlayers (f := fun id p => p.addToCards (share id))
    (fun _ _ => rfl) s id

theorem decks_eq (h : Dealt s s' share rest) : s'.gameDeck.decks = rest := by
  rw [h.state]

theorem wellFormed (h : Dealt s s' share rest) (hwf : WellFormed s) :
    WellFormed s' := by
  rw [h.state]
  exact WellFormed.deal hwf share

/-- Dealing keeps a player who is not in the game as it is. -/
theorem of_not_inGame (h : Dealt s s' share rest) {id : Id}
    (hin : inGame s id = false) :
    s'.tournamentPlayer? id = s.tournamentPlayer? id := by
  rw [h.tournamentPlayer? id, h.skip id hin]
  cases s.tournamentPlayer? id with
  | none => rfl
  | some p =>
      rw [Option.map_some]
      simp only [TournamentPlayer.addToCards]
      rw [List.append_nil]

/-- Nothing has been dealt yet. -/
theorem refl (s : War Id) :
    Dealt s s (fun _ => []) s.gameDeck.decks where
  skip := fun _ _ => rfl
  state := by
    have hself : deal (fun _ => []) s = s :=
      updatePlayers_self (fun _ p _ => by
        simp only [TournamentPlayer.addToCards]
        rw [List.append_nil])
    rw [hself]
  cards := by
    rw [Finset.sum_eq_zero (fun _ _ => Multiset.coe_nil), zero_add]

theorem trans (h : Dealt s s' share rest) (h' : Dealt s' s'' share' rest') :
    Dealt s s'' (fun id => share id ++ share' id) rest' where
  skip := by
    intro id hin
    rw [h.skip id hin, h'.skip id (by rw [h.inGame_eq]; exact hin)]
    rfl
  state := by
    have htwice : deal share' (deal share s)
        = deal (fun id => share id ++ share' id) s := by
      simp only [deal]
      rw [updatePlayers_updatePlayers]
      refine updatePlayers_congr ?_
      intro id p _
      simp only [TournamentPlayer.addToCards]
      simp only [List.append_assoc]
    rw [← htwice, h'.state, h.state]
    rfl
  cards := by
    have hcards' := h'.cards
    rw [h.decks_eq, h.keys_eq] at hcards'
    rw [h.cards, sum_append, hcards', add_assoc]

end Dealt

/-- One card goes to one player in the game. -/
theorem dealt_single {s : War Id} {id : Id} {p : TournamentPlayer Id}
    {card : Card} {rest : List Card} (hp : s.tournamentPlayer? id = some p)
    (hin : p.isNotEliminated = true) (hdecks : s.gameDeck.decks = card :: rest) :
    Dealt s
      (setPlayer { s with gameDeck := { s.gameDeck with decks := rest } } id
        (p.addToCards [card]))
      (fun k => if k = id then [card] else []) rest where
  skip := by
    intro k hk
    by_cases hkid : k = id
    · rw [hkid, inGame_of_some hp, hin] at hk
      simp at hk
    · rw [if_neg hkid]
  state := by
    have hset := setPlayer_addToCards [card] hp
    have hpay : payOut id [card] s
        = deal (fun k => if k = id then [card] else []) s := by
      refine updatePlayers_congr ?_
      intro k q _
      show (if k = id then q.addToCards [card] else q)
        = q.addToCards (if k = id then [card] else [])
      by_cases hk : k = id
      · rw [if_pos hk, if_pos hk]
      · rw [if_neg hk, if_neg hk]
        simp only [TournamentPlayer.addToCards]
        rw [List.append_nil]
    rw [← hpay, ← hset]
    rfl
  cards := by
    have hmem : id ∈ s.players.keys.toFinset :=
      List.mem_toFinset.mpr (mem_keys_of_some hp)
    rw [Finset.sum_eq_single id]
    · rw [if_pos rfl, hdecks]
      rfl
    · intro k _ hk
      rw [if_neg hk]
      rfl
    · intro h
      exact absurd hmem h

/-- A pass skips whoever is not in the game. -/
theorem dealPass_skip {s : War Id} {id : Id} (h : inGame s id = false)
    (ids : List Id) : dealPass (id :: ids) s = dealPass ids s := by
  simp only [dealPass]
  cases hp : s.tournamentPlayer? id with
  | none => rfl
  | some p =>
      have hin : p.isNotEliminated = false := by
        rw [← inGame_of_some hp]
        exact h
      simp only [hin, Bool.false_eq_true, if_false]

/-- A pass deals the top card to a player in the game. -/
theorem dealPass_deal {s : War Id} {id : Id} {p : TournamentPlayer Id}
    (hp : s.tournamentPlayer? id = some p) (hin : p.isNotEliminated = true)
    {card : Card} {rest : List Card} (hdecks : s.gameDeck.decks = card :: rest)
    (ids : List Id) :
    dealPass (id :: ids) s = dealPass ids
      (setPlayer { s with gameDeck := { s.gameDeck with decks := rest } } id
        (p.addToCards [card])) := by
  have hdraw : s.gameDeck.drawCard
      = (.ok card, { s.gameDeck with decks := rest }) := by
    simp only [Deck.drawCard]
    rw [hdecks]
  simp only [dealPass, hp, hin, if_true, hdraw]

/-- A pass returns when a player in the game finds the deck empty: the only
    exit of the loop in the source. -/
theorem dealPass_empty {s : War Id} {id : Id} (h : inGame s id = true)
    (hdecks : s.gameDeck.decks = []) (ids : List Id) :
    dealPass (id :: ids) s = .done (true, s) := by
  obtain ⟨p, hp, hin⟩ := exists_player h
  have hdraw : s.gameDeck.drawCard
      = (.error .drawFromEmptyDeck, s.gameDeck) := by
    simp only [Deck.drawCard]
    rw [hdecks]
  simp only [dealPass, hp, hin, if_true, hdraw]

/-- The keys a pass runs over are the registered ids. -/
theorem mem_sortedKeys (s : War Id) (id : Id) :
    id ∈ s.players.keys.insertionSort (· ≤ ·) ↔ id ∈ s.players.keys :=
  (List.perm_insertionSort (· ≤ ·) s.players.keys).mem_iff

theorem nodup_sortedKeys (s : War Id) :
    (s.players.keys.insertionSort (· ≤ ·)).Nodup :=
  (List.perm_insertionSort (· ≤ ·) s.players.keys).nodup_iff.mpr
    s.players.nodup_keys

/-- **A pass** deals the front of the deck, one card each, and returns when the
    cards do not suffice. -/
theorem dealPass_robin :
    ∀ (ids : List Id) (s : War Id), ids.Nodup →
      ∃ s' share,
        dealPass ids s = .done (decide (s.gameDeck.decks.length
            < (ids.filter (inGame s)).length), s') ∧
        Dealt s s' share
          (s.gameDeck.decks.drop (ids.filter (inGame s)).length) ∧
        (∀ (j : Nat) (p : Id), (ids.filter (inGame s))[j]? = some p →
          share p = s.gameDeck.decks[j]?.toList) ∧
        ∀ p, p ∉ ids → share p = [] := by
  intro ids
  induction ids with
  | nil =>
      intro s _
      refine ⟨s, fun _ => [], rfl, Dealt.refl s, ?_, fun _ _ => rfl⟩
      intro j p hp
      simp at hp
  | cons id ids ih =>
      intro s hnd
      rw [List.nodup_cons] at hnd
      cases hin : inGame s id with
      | false =>
          obtain ⟨s', share, hrun, hdealt, hshare, hnone⟩ := ih s hnd.2
          have hskip : ¬ inGame s id = true := by
            rw [hin]
            exact Bool.false_ne_true
          rw [dealPass_skip hin, List.filter_cons_of_neg hskip]
          exact ⟨s', share, hrun, hdealt, hshare, fun p hp =>
            hnone p (fun h => hp (List.mem_cons_of_mem _ h))⟩
      | true =>
          rw [List.filter_cons_of_pos hin]
          cases hdecks : s.gameDeck.decks with
          | nil =>
              -- nobody gets a card from an empty deck
              have hself := Dealt.refl s
              rw [hdecks] at hself
              refine ⟨s, fun _ => [], dealPass_empty hin hdecks ids, ?_, ?_,
                fun _ _ => rfl⟩
              · rw [List.drop_nil]
                exact hself
              · intro j p _
                rfl
          | cons card rest =>
              obtain ⟨p, hp, hnot⟩ := exists_player hin
              have hone := dealt_single hp hnot hdecks
              obtain ⟨s', share, hrun, hdealt, hshare, hnone⟩ := ih
                (setPlayer
                  { s with gameDeck := { s.gameDeck with decks := rest } }
                  id (p.addToCards [card])) hnd.2
              rw [List.filter_congr (fun k _ => hone.inGame_eq k),
                hone.decks_eq] at hrun hdealt hshare
              have hfirst : share id = [] := hnone id hnd.1
              refine ⟨s', _, ?_, hone.trans hdealt, ?_, ?_⟩
              · rw [dealPass_deal hp hnot hdecks, hrun]
                simp only [List.length_cons, Nat.add_lt_add_iff_right]
              · intro j k hk
                cases j with
                | zero =>
                    have hkid : id = k := Option.some.inj hk
                    subst hkid
                    rw [if_pos rfl, hfirst]
                    rfl
                | succ j =>
                    have hk' : (ids.filter (inGame s))[j]? = some k := hk
                    have hmem := (List.mem_filter.mp
                      (List.mem_of_getElem? hk')).1
                    have hne : k ≠ id := fun h => hnd.1 (h ▸ hmem)
                    rw [if_neg hne, hshare j k hk']
                    rfl
              · intro k hk
                rw [List.mem_cons, not_or] at hk
                rw [if_neg hk.1, hnone k hk.2]
                rfl

/-- One pass deals; it returns with an empty deck, or it has dealt a card to
    everybody who is in the game. -/
theorem dealPass_spec (s : War Id) :
    ∃ b s' share rest,
      dealPass (s.players.keys.insertionSort (· ≤ ·)) s = .done (b, s') ∧
      Dealt s s' share rest ∧ (b = true → rest = []) ∧
      (b = false → (∃ id, inGame s id = true) →
        rest.length < s.gameDeck.decks.length) := by
  obtain ⟨s', share, hrun, hdealt, -, -⟩ :=
    dealPass_robin (s.players.keys.insertionSort (· ≤ ·)) s
      (nodup_sortedKeys s)
  refine ⟨_, s', share, _, hrun, hdealt, ?_, ?_⟩
  · intro hb
    exact List.drop_eq_nil_of_le (le_of_lt (of_decide_eq_true hb))
  · rintro hb ⟨id, hin⟩
    have hge := of_decide_eq_false hb
    have hid := (mem_sortedKeys s id).mpr (mem_keys_of_inGame hin)
    have hpos := List.length_pos_of_mem (List.mem_filter.mpr ⟨hid, hin⟩)
    rw [List.length_drop]
    omega

/-- Without a player in the game a pass does nothing. -/
theorem dealPass_of_none :
    ∀ (ids : List Id) (s : War Id), (∀ id, inGame s id = false) →
      dealPass ids s = .done (false, s) := by
  intro ids
  induction ids with
  | nil => intro s _; rfl
  | cons id ids ih =>
      intro s hnone
      rw [dealPass_skip (hnone id)]
      exact ih s hnone

/-- **Dealing ends** once somebody is in the game. -/
theorem dealLoop_returns :
    ∀ (fuel : Nat) (s : War Id), (∃ id, inGame s id = true) →
      s.gameDeck.decks.length < fuel → ∃ s', dealLoop fuel s = .done s' := by
  intro fuel
  induction fuel with
  | zero => intro s _ h; exact absurd h (Nat.not_lt_zero _)
  | succ fuel ih =>
      rintro s ⟨id, hin⟩ hlt
      obtain ⟨b, s', share, rest, hrun, hdealt, -, hdec⟩ :=
        dealPass_spec s
      simp only [dealLoop]
      simp only [hrun, Outcome.done_bind]
      cases b with
      | true => exact ⟨s', rfl⟩
      | false =>
          -- the deck shrinks with every pass
          have hshort := hdec rfl ⟨id, hin⟩
          refine ih s' ⟨id, (hdealt.inGame_eq id).trans hin⟩ ?_
          rw [hdealt.decks_eq]
          omega

/-- **Dealing to nobody never ends.** -/
theorem dealLoop_of_none :
    ∀ (fuel : Nat) (s : War Id), (∀ id, inGame s id = false) →
      dealLoop fuel s = .outOfFuel := by
  intro fuel
  induction fuel with
  | zero => intro s _; rfl
  | succ fuel ih =>
      intro s hnone
      simp only [dealLoop]
      simp only [dealPass_of_none _ s hnone, Outcome.done_bind,
        Bool.false_eq_true, if_false]
      exact ih s hnone

/-- A deal that ends has dealt the whole deck. -/
theorem dealLoop_dealt :
    ∀ (fuel : Nat) (s s' : War Id), dealLoop fuel s = .done s' →
      ∃ share, Dealt s s' share [] := by
  intro fuel
  induction fuel with
  | zero => intro s s' h; cases h
  | succ fuel ih =>
      intro s s' h
      obtain ⟨b, t, share, rest, hrun, hdealt, hret, -⟩ :=
        dealPass_spec s
      simp only [dealLoop] at h
      simp only [hrun, Outcome.done_bind] at h
      -- the deck is empty when a pass returns
      cases b with
      | true =>
          have ht : t = s' := Outcome.done.inj h
          rw [hret rfl] at hdealt
          rw [← ht]
          exact ⟨share, hdealt⟩
      | false =>
          obtain ⟨share', hdealt'⟩ := ih t s' h
          exact ⟨_, hdealt.trans hdealt'⟩

theorem dealLoop_refines :
    ∀ (fuel : Nat) (s : War Id),
      (dealLoop fuel s).Refines (dealLoop (fuel + 1) s) := by
  intro fuel
  induction fuel with
  | zero => intro s; exact Outcome.Refines.outOfFuel _
  | succ fuel ih =>
      intro s
      rw [dealLoop, dealLoop]
      refine Outcome.Refines.bind (Outcome.Refines.refl _) ?_
      rintro ⟨b, t⟩
      cases b with
      | true => exact Outcome.Refines.refl _
      | false => exact ih t

theorem dealCards_dealt {fuel : Nat} {s s' : War Id}
    (h : dealCards fuel s = .done s') : ∃ share, Dealt s s' share [] := by
  simp only [dealCards] at h
  by_cases hempty : s.players.isEmpty = true
  · rw [if_pos hempty] at h
    simp at h
  · rw [if_neg hempty] at h
    exact dealLoop_dealt fuel s s' h

/-- Players in the game are players. -/
theorem isEmpty_players_of_inGame {s : War Id} {id : Id}
    (h : inGame s id = true) : ¬ s.players.isEmpty = true := by
  have hmem := mem_keys_of_inGame h
  intro hempty
  rw [Dictionary.isEmpty_iff.mp hempty] at hmem
  simp at hmem

theorem dealCards_returns {fuel : Nat} {s : War Id}
    (h : ∃ id, inGame s id = true) (hlt : s.gameDeck.decks.length < fuel) :
    ∃ s', dealCards fuel s = .done s' := by
  obtain ⟨id, hin⟩ := h
  simp only [dealCards]
  rw [if_neg (isEmpty_players_of_inGame hin)]
  exact dealLoop_returns fuel s ⟨id, hin⟩ hlt

/-- Dealing to nobody gives no result, whatever the fuel. -/
theorem dealCards_of_none {fuel : Nat} {s s' : War Id}
    (h : ∀ id, inGame s id = false) : dealCards fuel s ≠ .done s' := by
  simp only [dealCards]
  by_cases hempty : s.players.isEmpty = true
  · rw [if_pos hempty]
    exact fun hf => by cases hf
  · rw [if_neg hempty, dealLoop_of_none fuel s h]
    exact fun hf => by cases hf

theorem dealCards_refines (fuel : Nat) (s : War Id) :
    (dealCards fuel s).Refines (dealCards (fuel + 1) s) := by
  simp only [dealCards]
  by_cases hempty : s.players.isEmpty = true
  · rw [if_pos hempty, if_pos hempty]
    exact Outcome.Refines.refl _
  · rw [if_neg hempty, if_neg hempty]
    exact dealLoop_refines fuel s

end Dealing
