import CardCrucible.Lockstep

/-! # Twins — tables no round tells apart

    Twins have the same ids, standings and deck, the same winner and game
    status; their players may differ in names and last cards.  Placing and
    dealing go by sorted ids, so on twins they do the same and leave twins. -/

namespace Twins

open Outcomes Arrangements Dictionaries CardModel DeckModel PlayerModel
open WarModel WarModel.War WarState WarTurn Comparisons WarRuns Spending
open Dealing Rounds GameStatus RoundLaws Games Standings Lockstep

variable {Id : Type} [LinearOrder Id]

/-- Tables that agree on all but names and last cards. -/
structure Twin (s t : War Id) : Prop where
  keys_eq : t.players.keys = s.players.keys
  standing_eq : ∀ id, standing t id = standing s id
  decks_eq : t.gameDeck.decks = s.gameDeck.decks
  roundWinner_eq : t.roundWinner = s.roundWinner
  gameover_eq : t.gameover = s.gameover

/-- The same hands, elimination flags, winner and game status. -/
def SameState (s t : War Id) : Prop :=
  (∀ id, hand t id = hand s id ∧ inGame t id = inGame s id ∧
    isOut t id = isOut s id) ∧
    t.roundWinner = s.roundWinner ∧ t.gameover = s.gameover

namespace Twin

variable {s t : War Id}

theorem refl (s : War Id) : Twin s s := ⟨rfl, fun _ => rfl, rfl, rfl, rfl⟩

theorem alike (h : Twin s t) : Alike (Equiv.refl Id) s t := h.standing_eq

theorem hand_eq (h : Twin s t) (id : Id) : hand t id = hand s id :=
  h.alike.hand_eq id

theorem inGame_eq (h : Twin s t) (id : Id) : inGame t id = inGame s id :=
  h.alike.inGame_eq id

theorem pile_eq (h : Twin s t) (need : Nat) : pile t need = pile s need :=
  funext (fun id => h.alike.pile_eq need id)

theorem warSize_eq (h : Twin s t) (holders : List Id) :
    warSize t holders = warSize s holders := by
  simp only [warSize, h.hand_eq]

theorem enoughCards_eq (h : Twin s t) (holders : List Id) :
    enoughCards t holders = enoughCards s holders := by
  simp only [enoughCards, h.hand_eq]

theorem pot_eq (h : Twin s t) (holders : List Id) (prizeCards : List Card) :
    pot t holders prizeCards = pot s holders prizeCards := by
  simp only [pot]
  rw [h.warSize_eq, h.pile_eq]

theorem turn (h : Twin s t) (need : Nat) (ids : List Id) :
    Twin (turn need ids s) (turn need ids t) where
  keys_eq := by
    rw [keys_turn, keys_turn, h.keys_eq]
  standing_eq := by
    intro id
    rw [standing_turn, standing_turn, h.standing_eq id]
  decks_eq := h.decks_eq
  roundWinner_eq := h.roundWinner_eq
  gameover_eq := h.gameover_eq

theorem payOut (h : Twin s t) (w : Id) (cards : List Card) :
    Twin (payOut w cards s) (payOut w cards t) where
  keys_eq := by
    rw [keys_payOut, keys_payOut, h.keys_eq]
  standing_eq := by
    intro id
    rw [standing_payOut, standing_payOut, h.standing_eq id]
  decks_eq := h.decks_eq
  roundWinner_eq := h.roundWinner_eq
  gameover_eq := h.gameover_eq

/-- Naming the same winner keeps twins. -/
theorem named (h : Twin s t) (r : Option Id) :
    Twin { s with roundWinner := r } { t with roundWinner := r } :=
  { h with roundWinner_eq := rfl }

/-- Dealing the same shares keeps twins. -/
theorem dealt {s' t' : War Id} {share : Id → List Card} {rest : List Card}
    (h : Twin s t) (hs : Dealt s s' share rest) (ht : Dealt t t' share rest) :
    Twin s' t' where
  keys_eq := by
    rw [hs.keys_eq, ht.keys_eq, h.keys_eq]
  standing_eq := by
    intro id
    rw [standing_dealt hs, standing_dealt ht, h.standing_eq id]
  decks_eq := by
    rw [hs.decks_eq, ht.decks_eq]
  roundWinner_eq := by
    rw [hs.state, ht.state]
    exact h.roundWinner_eq
  gameover_eq := by
    rw [hs.state, ht.state]
    exact h.gameover_eq

/-- So does putting the same cards into the deck. -/
theorem setDeckCards (h : Twin s t) (cards : List Card) :
    Twin { s with gameDeck := s.gameDeck.setDeckCards cards }
      { t with gameDeck := t.gameDeck.setDeckCards cards } :=
  { h with
    decks_eq := by
      simp only [Deck.setDeckCards]
      rw [h.decks_eq]
      cases s.gameDeck.decks.isEmpty with
      | true => rfl
      | false => exact h.decks_eq }

/-- Twins with a player in the game end it alike. -/
theorem updateGameStatus (h : Twin s t) (hin : ∃ id, inGame s id = true)
    (order order' : Arrangement (Id × GamePlayer Id)) :
    Twin (updateGameStatus order s) (updateGameStatus order' t) := by
  obtain ⟨id, hid⟩ := hin
  have hplayers : s.players.keys ≠ [] :=
    List.ne_nil_of_mem (mem_keys_of_inGame hid)
  have hplayers' : t.players.keys ≠ [] := by
    rw [h.keys_eq]
    exact hplayers
  have hin : ∀ id, inGame t (Equiv.refl Id id) = inGame s id := h.inGame_eq
  have hsurv : (survivors t).length = (survivors s).length :=
    length_survivors_eq hin
  rw [updateGameStatus_eq hplayers, updateGameStatus_eq hplayers', hsurv,
    h.gameover_eq]
  exact { h with gameover_eq := rfl }

theorem sameState (h : Twin s t) : SameState s t :=
  ⟨fun id => ⟨h.hand_eq id, h.inGame_eq id, h.alike.isOut_eq id⟩,
    h.roundWinner_eq, h.gameover_eq⟩

end Twin

/-! ## Dealing -/

/-- **A pass** over twins. -/
theorem dealPass_twin :
    ∀ (ids : List Id) (s t : War Id), Twin s t →
      (dealPass ids s).Rel (fun x y => y.1 = x.1 ∧ Twin x.2 y.2)
        (dealPass ids t) := by
  intro ids
  induction ids with
  | nil => intro s t h; exact .done ⟨rfl, h⟩
  | cons id ids ih =>
      intro s t h
      cases hin : inGame s id with
      | false =>
          rw [dealPass_skip hin, dealPass_skip ((h.inGame_eq id).trans hin)]
          exact ih s t h
      | true =>
          have hin' : inGame t id = true := (h.inGame_eq id).trans hin
          cases hdecks : s.gameDeck.decks with
          | nil =>
              rw [dealPass_empty hin hdecks,
                dealPass_empty hin' (h.decks_eq.trans hdecks)]
              exact .done ⟨rfl, h⟩
          | cons card rest =>
              have hdecks' := h.decks_eq.trans hdecks
              obtain ⟨p, hp, hnot⟩ := exists_player hin
              obtain ⟨q, hq, hnot'⟩ := exists_player hin'
              rw [dealPass_deal hp hnot hdecks, dealPass_deal hq hnot' hdecks']
              exact ih _ _ (h.dealt (dealt_single hp hnot hdecks)
                (dealt_single hq hnot' hdecks'))

theorem dealLoop_twin :
    ∀ (fuel : Nat) (s t : War Id), Twin s t →
      (dealLoop fuel s).Rel Twin (dealLoop fuel t) := by
  intro fuel
  induction fuel with
  | zero => intro s t _; exact .outOfFuel
  | succ fuel ih =>
      intro s t h
      rw [dealLoop, dealLoop, h.keys_eq]
      refine (dealPass_twin _ s t h).bind ?_
      rintro ⟨b, s'⟩ ⟨b', t'⟩ - - ⟨hb, htwin⟩
      have hbb : b' = b := hb
      subst hbb
      cases b' with
      | true => exact .done htwin
      | false => exact ih s' t' htwin

/-- **Dealing to twins** leaves twins. -/
theorem dealCards_twin {s t : War Id} (h : Twin s t) (fuel : Nat) :
    (dealCards fuel s).Rel Twin (dealCards fuel t) := by
  have hempty : t.players.isEmpty = s.players.isEmpty := by
    have hkeys := congrArg List.isEmpty h.keys_eq
    simp only [Dictionary.keys, List.isEmpty_map] at hkeys
    exact hkeys
  simp only [dealCards]
  rw [hempty]
  cases s.players.isEmpty with
  | true => exact .trap _
  | false => exact dealLoop_twin fuel s t h

/-! ## Placing -/

/-- The players place their cards by increasing id. -/
theorem sortedPlayers_eq {s : War Id} (hwf : WellFormed s) :
    s.sortedPlayers = s.players.keys.insertionSort (· ≤ ·) := by
  refine List.map_insertionSort _ _ Prod.fst _ ?_
  have hid : ∀ e ∈ s.players.entries, e.2.toPlayer.id = e.1 := by
    intro e he
    obtain ⟨p, hp, hpid⟩ := hwf e he
    rw [hp]
    exact hpid
  intro e he f hf
  rw [hid e he, hid f hf]

theorem active_eq {s : War Id} (hwf : WellFormed s) :
    active s = (s.players.keys.insertionSort (· ≤ ·)).filter (inGame s) := by
  simp only [active]
  rw [sortedPlayers_eq hwf]

/-- Twins place the same cards in the same order. -/
theorem placedCards_twin {s t : War Id} (h : Twin s t) (hwf : WellFormed s)
    (hwf' : WellFormed t) : placedCards t = placedCards s := by
  have hact : active t = active s := by
    rw [active_eq hwf, active_eq hwf', h.keys_eq]
    exact List.filter_congr (fun id _ => h.inGame_eq id)
  simp only [placedCards]
  rw [hact, h.pile_eq]

/-! ## Comparing -/

/-- **The rank comparison** only reads who is in the game. -/
theorem determineHighCardHolders_congr {s t : War Id}
    (h : ∀ id, inGame t id = inGame s id)
    (order : Arrangement (Id × List Card))
    (rc : Dictionary Id (List Card)) :
    determineHighCardHolders t order rc false
      = determineHighCardHolders s order rc false := by
  have hcards : ∀ entries, lastCards t entries = lastCards s entries := by
    intro entries
    induction entries with
    | nil => rfl
    | cons e rest ih =>
        obtain ⟨id, cards⟩ := e
        rw [lastCards_cons, lastCards_cons, h id, ih]
  have hholders : ∀ r entries,
      rankHolders t r entries = rankHolders s r entries := by
    intro r entries
    induction entries with
    | nil => rfl
    | cons e rest ih =>
        obtain ⟨id, cards⟩ := e
        rw [rankHolders_cons, rankHolders_cons, h id, ih]
  simp only [determineHighCardHolders, Bool.false_eq_true, if_false, hcards,
    hholders]

/-! ## Wars -/

/-- The same players can go to war on twins. -/
theorem Twin.holders {s t : War Id} (h : Twin s t) {holders : List Id}
    (hh : Holders s holders) : Holders t holders where
  nodup := hh.nodup
  inGame := fun id hid => (h.inGame_eq id).trans (hh.inGame id hid)

theorem Twin.afterDraws {s t : War Id} (h : Twin s t) (holders : List Id) :
    Twin (afterDraws s holders) (afterDraws t holders) := by
  simp only [WarRuns.afterDraws]
  rw [h.warSize_eq]
  exact h.turn _ holders

/-- The same is thrown, with the same prize cards, and twins are left. -/
structure TwinExit (e e' : WarExit Id) : Prop where
  thrown_eq : e'.thrown = e.thrown
  prize_eq : e'.prizeCards = e.prizeCards
  state : Twin e.state e'.state

/-- **Wars on twins**, in the same iteration orders. -/
theorem war_twin (o : Schedule Id) :
    ∀ (fuel depth : Nat) (holders : List Id) (prizeCards : List Card)
      (s t : War Id), WellFormed s → WellFormed t → Holders s holders →
      Twin s t →
      (war fuel o depth holders prizeCards s).Rel TwinExit
        (war fuel o depth holders prizeCards t) := by
  intro fuel
  induction fuel with
  | zero => intro depth holders prizeCards s t _ _ _ _; exact .outOfFuel
  | succ fuel ih =>
      intro depth holders prizeCards s t hwf hwf' hh h
      have hh' := h.holders hh
      obtain ⟨rc, hentries, hs⟩ := warDraws_cases hh prizeCards
      obtain ⟨rc', hentries', ht⟩ := warDraws_cases hh' prizeCards
      -- both record the same piles
      have hrc : rc' = rc := by
        refine Dictionary.ext ?_
        rw [hentries, hentries', h.warSize_eq, h.enoughCards_eq]
        simp only [piles, recordedIds, h.pile_eq]
      subst hrc
      have hpos := warSize_pos s holders
      rcases hs with ⟨hempty, hdraws⟩ | ⟨hstand, hdraws⟩
      · rcases ht with ⟨-, hdraws'⟩ | ⟨⟨id, hid, hle⟩, -⟩
        · rw [(war_of_failed hdraws fuel o depth).1,
            (war_of_failed hdraws' fuel o depth).1]
          exact .done ⟨rfl, rfl, (h.turn 1 holders).named none⟩
        · rw [h.warSize_eq, h.hand_eq, hempty id hid] at hle
          exact absurd hle (not_le.mpr hpos)
      · rcases ht with ⟨hempty', -⟩ | ⟨-, hdraws'⟩
        · obtain ⟨id, hid, hle⟩ := hstand
          rw [← h.hand_eq, hempty' id hid] at hle
          exact absurd hle (not_le.mpr hpos)
        · have hafter := h.afterDraws holders
          have hpot := h.pot_eq holders prizeCards
          obtain ⟨next, hnext, hnd, hne, hlead⟩ :=
            determineHighCardHolders_turn hpos (records_of_entries hentries)
              hh.inGame hstand (o.warParticipants depth)
          have hnext' : determineHighCardHolders (afterDraws t holders)
              (o.warParticipants depth) rc' false = .done next :=
            (determineHighCardHolders_congr hafter.inGame_eq _ rc').trans hnext
          by_cases hone : ∃ w, next = [w]
          · obtain ⟨w, hw⟩ := hone
            subst hw
            have hin : inGame (afterDraws s holders) w = true :=
              inGame_of_leads hpos hh.inGame
                ((hlead w).mp (List.mem_singleton.mpr rfl))
            have hin' := (hafter.inGame_eq w).trans hin
            rw [(war_of_sole hwf hin hdraws hnext fuel).1,
              (war_of_sole hwf' hin' hdraws' hnext' fuel).1]
            refine .done ⟨rfl, hpot, ?_⟩
            simp only [wonExit]
            rw [hpot]
            exact (hafter.payOut w _).named (some w)
          · have htwo := length_two_le hne (fun w hw => hone ⟨w, hw⟩)
            rw [(war_of_several htwo hdraws hnext fuel).1,
              (war_of_several htwo hdraws' hnext' fuel).1, hpot]
            exact ih _ _ _ _ _ (hwf.turn _ _) (hwf'.turn _ _)
              (holders_next hh hnd hlead) hafter

end Twins
