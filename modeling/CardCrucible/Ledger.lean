import CardCrucible.Sessions

/-! # The ledger of a session — where cards come from and where they go

    Rounds conserve the cards while the game deck is empty, which it is in
    every game that `startGame` runs.  Calls in another order are not so
    careful: a player who is added replaces the one with the same id and its
    hand, a new deck replaces the old one, and the pot of a round that nobody
    wins is dropped when the game deck still has cards, because the setter of
    `deckCards` then does nothing.

    The ledger lists all of it: over any session the cards of the game, and
    the cards that left it on these ways, are the cards it began with and those
    that were brought in. -/

namespace Ledger

open Outcomes Arrangements Dictionaries CardModel DeckModel PlayerModel
open WarModel WarModel.War WarState WarTurn Comparisons Spending Dealing
open Rounds GameStatus RoundLaws Conservation Games DeckAccounts DeckBuilders
open DeckShuffles Runs Sessions

variable {Id : Type} [LinearOrder Id]

/-! ## Operations on the deck -/

/-- Whether an operation replaces the deck by a new one. -/
def createsDeck : Operation → Bool
  | .createDeck _ => true
  | .createShuffledDeck _ _ _ => true
  | .shuffle _ _ => false
  | .drawCard => false
  | .drawCards _ => false
  | .drawRandomCard _ => false
  | .drawRandomCards _ _ => false

/-- The cards an operation creates. -/
def created (op : Operation) (d : Deck) : Multiset Card :=
  match Account.perform ⟨d, []⟩ op with
  | .done a => if createsDeck op then a.deck.decks else 0
  | .trap _ => 0
  | .outOfFuel => 0

/-- The cards an operation hands out or throws away. -/
def discarded (op : Operation) (d : Deck) : Multiset Card :=
  match Account.perform ⟨d, []⟩ op with
  | .done a => if createsDeck op then d.decks else a.handedOut
  | .trap _ => 0
  | .outOfFuel => 0

theorem shuffle_balance {fuel : Nat} {random : Nat → Arrangement Card}
    {d : Deck} {p : List Card × Deck}
    (h : Deck.shuffle fuel random d = .done p) : p.2.decks.Perm d.decks := by
  rw [shuffle_eq] at h
  obtain ⟨decks, hdecks, hp⟩ := Outcome.bind_eq_done.mp h
  rw [← Outcome.done.inj hp]
  exact staticShuffle_perm hdecks

/-- An operation that creates no deck hands out what the deck loses. -/
theorem handsOut_perform {d : Deck} {op : Operation} {a : Account}
    (hop : createsDeck op = false)
    (h : Account.perform ⟨d, []⟩ op = .done a) :
    (a.handedOut ++ a.deck.decks).Perm d.decks := by
  cases op with
  | createDeck m => cases hop
  | createShuffledDeck m fuel random => cases hop
  | shuffle fuel random =>
      obtain ⟨p, hp, ha⟩ := Outcome.bind_eq_done.mp h
      rw [← Outcome.done.inj ha]
      exact shuffle_balance hp
  | drawCard =>
      rw [← Outcome.done.inj h]
      exact (drawCard_handsOut d).cards
  | drawCards drawAmount =>
      rw [← Outcome.done.inj h]
      exact (drawCards_handsOut d drawAmount).cards
  | drawRandomCard choice =>
      obtain ⟨drawn, deck, hdraw, hout⟩ := drawRandomCard_handsOut choice d
      simp only [Account.perform, hdraw, Outcome.done_bind] at h
      rw [← Outcome.done.inj h]
      exact hout.cards
  | drawRandomCards drawAmount choices =>
      obtain ⟨drawn, deck, hdraw, hout⟩ :=
        drawRandomCards_handsOut choices d drawAmount
      simp only [Account.perform, hdraw, Outcome.done_bind] at h
      rw [← Outcome.done.inj h]
      exact hout.cards

theorem deck_balance {d : Deck} {op : Operation} {a : Account}
    (h : Account.perform ⟨d, []⟩ op = .done a) :
    (a.deck.decks : Multiset Card) + discarded op d
      = d.decks + created op d := by
  simp only [created, discarded]
  rw [h]
  cases hop : createsDeck op with
  | true => exact add_comm _ _
  | false =>
      show (a.deck.decks : Multiset Card) + a.handedOut = d.decks + 0
      rw [add_zero, add_comm, Multiset.coe_add]
      exact Multiset.coe_eq_coe.mpr (handsOut_perform hop h)

/-! ## Calls -/

/-- The hands that the players of a list replace, one after the other. -/
def replaced : List (GamePlayer Id) → War Id → Multiset Card
  | [], _ => 0
  | g :: gs, s => hand s g.toPlayer.id + replaced gs (s.addPlayer g)

/-- The pot of a round that nobody wins while the game deck has cards. -/
def lostPot (fuel : Nat) (o : Schedule Id) (s : War Id) : Multiset Card :=
  match War.startRound fuel o s with
  | .done t =>
      if s.gameDeck.decks ≠ [] ∧ t.roundWinner = none then
        ∑ id ∈ (active s).toFinset,
          (playedIn (roundComparisons fuel o s) id : Multiset Card)
      else 0
  | .trap _ => 0
  | .outOfFuel => 0

/-- The cards a call brings in. -/
def takenIn : Call Id → War Id → Multiset Card
  | .addPlayer g, _ => g.toPlayer.cards
  | .addPlayers gs, _ =>
      (gs.map (fun g => (g.toPlayer.cards : Multiset Card))).sum
  | .onDeck op, s => created op s.gameDeck
  | .setDeckCards newValue, s => if s.gameDeck.decks = [] then newValue else 0
  | .dealCards, _ => 0
  | .startRound _, _ => 0
  | .updateGameStatus _, _ => 0
  | .startGame _, _ => 0

/-- The cards that leave the game by a call. -/
def givenOut (fuel : Nat) : Call Id → War Id → Multiset Card
  | .addPlayer g, s => hand s g.toPlayer.id
  | .addPlayers gs, s => replaced gs s
  | .onDeck op, s => discarded op s.gameDeck
  | .setDeckCards _, _ => 0
  | .dealCards, _ => 0
  | .startRound o, s => lostPot fuel o s
  | .updateGameStatus _, _ => 0
  | .startGame _, _ => 0

/-- The new player's cards come in and those of the replaced one go. -/
theorem addPlayer_balance {s : War Id} (hwf : WellFormed s)
    (g : GamePlayer Id) :
    allCards (s.addPlayer g) + hand s g.toPlayer.id
      = allCards s + g.toPlayer.cards := by
  have hsum := Dictionary.sum_entries_set s.players g.toPlayer.id
    (.tournament (entrant g))
    (fun g : GamePlayer Id => (g.toPlayer.cards : Multiset Card))
  have hold : ((s.players.get? g.toPlayer.id).map
      (fun g : GamePlayer Id => (g.toPlayer.cards : Multiset Card))).getD 0
      = hand s g.toPlayer.id := by
    rw [hwf.get?_eq]
    simp only [hand]
    cases s.tournamentPlayer? g.toPlayer.id <;> rfl
  have hnew : (GamePlayer.tournament (entrant g)).toPlayer.cards
      = g.toPlayer.cards := cards_entrant g
  rw [hold, hnew] at hsum
  have hdeck : (s.addPlayer g).gameDeck = s.gameDeck := by
    cases g <;> rfl
  have hplayers : (s.addPlayer g).players
      = s.players.set g.toPlayer.id (.tournament (entrant g)) := by
    rw [addPlayer_eq, id_entrant]
    rfl
  simp only [allCards]
  rw [hdeck, hplayers, add_right_comm, hsum, add_right_comm]

theorem addPlayers_balance (gs : List (GamePlayer Id)) :
    ∀ {s : War Id}, WellFormed s →
      allCards (s.addPlayers gs) + replaced gs s
        = allCards s
          + (gs.map (fun g => (g.toPlayer.cards : Multiset Card))).sum := by
  induction gs with
  | nil => intro s _; rfl
  | cons g gs ih =>
      intro s hwf
      have hrest := ih (wellFormed_addPlayer hwf g)
      have hfirst := addPlayer_balance hwf g
      show allCards ((s.addPlayer g).addPlayers gs)
        + (hand s g.toPlayer.id + replaced gs (s.addPlayer g)) = _
      rw [List.map_cons, List.sum_cons, ← add_assoc, add_right_comm, hrest,
        add_right_comm, hfirst, add_assoc]

/-- A round that is won conserves the cards, and one that is drawn loses its
    pot unless the game deck is empty. -/
theorem startRound_balance {s t : War Id} (hwf : WellFormed s) {fuel : Nat}
    {o : Schedule Id} (h : War.startRound fuel o s = .done t) :
    allCards t + lostPot fuel o s = allCards s := by
  obtain ⟨t', u, prizeCards, hround, ht⟩ := startRound_spent hwf h
  have hall : allCards t = allCards t' := by
    rw [ht]
    rfl
  have hwinner : t.roundWinner = t'.roundWinner := by
    rw [ht]
  have hspent := handCards_spent hround.spent
    (fun _ hid => mem_keys_of_active hid)
  simp only [lostPot]
  rw [h]
  show allCards t + (if _ then _ else _) = _
  by_cases hdeck : s.gameDeck.decks = []
  · rw [if_neg (fun hand => hand.1 hdeck), add_zero, hall]
    exact allCards_round hwf hdeck hround
  · rcases hround.exit with ⟨w, hin, hpaid⟩ | ⟨-, share, hdealt⟩
    · have hsome : t.roundWinner = some w := by
        rw [hwinner, hpaid]
      rw [if_neg (fun hand => by
        rw [hsome] at hand
        exact absurd hand.2 (by simp)), add_zero, hall,
        allCards_eq (hround.wellFormed hwf), allCards_eq hwf, hspent,
        ← hround.prize, ← handCards_payOut hin prizeCards, hpaid,
        ← hround.spent.gameDeck_eq]
      rfl
    · -- the setter leaves the deck alone, and the old deck is dealt
      have hnone : t.roundWinner = none := by
        rw [hwinner, hdealt.state]
        rfl
      have hset : (drawnTable u prizeCards).gameDeck.decks
          = s.gameDeck.decks := by
        rw [← hround.spent.gameDeck_eq]
        show (u.gameDeck.setDeckCards prizeCards).decks = _
        simp only [Deck.setDeckCards]
        rw [if_neg]
        intro hempty
        refine hdeck ?_
        rw [← hround.spent.gameDeck_eq]
        exact List.isEmpty_iff.mp hempty
      have hcards := handCards_dealt hdealt
      rw [hset] at hcards
      rw [if_pos ⟨hdeck, hnone⟩, hall, allCards_eq (hround.wellFormed hwf),
        allCards_eq hwf, hdealt.decks_eq, hcards, hspent]
      exact add_right_comm _ _ _

/-- A whole game conserves the cards from any state: it deals first. -/
theorem startGame_balance {s t : War Id} (hwf : WellFormed s)
    {fuel rounds : Nat} {os : Nat → Schedule Id} {line : String}
    (h : War.startGame fuel rounds os s = .done (t, line)) :
    allCards t = allCards s := by
  refine startGame_relates
    (P := fun u => WellFormed u ∧ u.gameDeck.decks = [])
    (R := fun u v => allCards v = allCards u) (fun _ => rfl)
    (fun huv hvw => hvw.trans huv) ?_ ?_ h
  · rintro o u v ⟨hu, hdeck⟩ hround
    refine ⟨⟨wellFormed_startRound hu hround,
      decks_startRound hu hdeck hround⟩, ?_⟩
    obtain ⟨v', t', prizeCards, hspent, hv⟩ := startRound_spent hu hround
    rw [hv]
    show allCards v' = _
    exact allCards_round hu hdeck hspent
  · intro d share hdealt
    exact ⟨⟨hdealt.wellFormed hwf, hdealt.decks_eq⟩,
      allCards_dealt hwf hdealt⟩

/-- **One call** balances. -/
theorem call_balance {fuel rounds : Nat} (c : Call Id) (s t : War Id)
    (hwf : WellFormed s) (h : perform fuel rounds c s = .done t) :
    allCards t + givenOut fuel c s = allCards s + takenIn c s := by
  cases c with
  | addPlayer g =>
      rw [← Outcome.done.inj h]
      exact addPlayer_balance hwf g
  | addPlayers gs =>
      rw [← Outcome.done.inj h]
      exact addPlayers_balance gs hwf
  | onDeck op =>
      obtain ⟨a, ha, ht⟩ := Outcome.bind_eq_done.mp h
      rw [← Outcome.done.inj ht]
      simp only [allCards, givenOut, takenIn, add_assoc]
      exact congrArg (_ + ·) (deck_balance ha)
  | setDeckCards newValue =>
      rw [← Outcome.done.inj h]
      simp only [allCards, givenOut, takenIn, Deck.setDeckCards, add_zero]
      by_cases hdeck : s.gameDeck.decks = []
      · simp [hdeck]
      · simp [hdeck]
  | dealCards =>
      obtain ⟨share, hdealt⟩ := dealCards_dealt h
      exact congrArg (· + 0) (allCards_dealt hwf hdealt)
  | startRound o =>
      exact (startRound_balance hwf h).trans (add_zero _).symm
  | updateGameStatus order =>
      rw [← Outcome.done.inj h]
      obtain ⟨b, hb⟩ := updateGameStatus_frame order s
      rw [hb]
      rfl
  | startGame os =>
      obtain ⟨⟨u, line⟩, hu, ht⟩ := Outcome.bind_eq_done.mp h
      rw [← Outcome.done.inj ht]
      exact congrArg (· + 0) (startGame_balance hwf hu)

/-- **The ledger of a session**: whatever the calls and their order, the cards
    of the game and all that left it are the cards it had and all that came
    in. -/
theorem session_ledger {s t : War Id} (hwf : WellFormed s)
    {fuel rounds : Nat} (cs : List (Call Id))
    (h : performAll fuel rounds cs s = .done t) :
    allCards t + accrued (perform fuel rounds) (givenOut fuel) cs s
      = allCards s + accrued (perform fuel rounds) takenIn cs s :=
  runAll_balance (P := WellFormed)
    (fun c _ _ hu hc => (kept_perform hu c hc).wellFormed hu)
    (fun c u v hu hc => call_balance c u v hu hc) cs hwf h

/-- Two players draw with their only cards while the deck still has one. -/
def drawSession : List (Call String) :=
  [.addPlayers (seats [("A", cardsAt [44]), ("B", cardsAt [45]),
      ("C", cardsAt [0, 4])]),
    .setDeckCards (cardsAt [12]), .startRound inOrder]

/-- Five cards came in, the pot of three is lost, and the player who is left
    has one card of its own and the one of the deck. -/
theorem session_ledger_draw :
    ∃ w, War.init 0 (fun _ => .keep) 0 = .done w ∧
      ∃ t, performAll 9 0 drawSession w = .done t ∧
      allCards t = (cardsAt [4, 12] : List Card) ∧
      allCards t + accrued (perform 9 0) (givenOut 9) drawSession w
        = allCards w + accrued (perform 9 0) takenIn drawSession w := by
  have hrun : ∃ w : War String, War.init 0 (fun _ => .keep) 0 = .done w ∧
      ∃ t, performAll 9 0 drawSession w = .done t ∧
        allCards t = (cardsAt [4, 12] : List Card) := by
    decide +kernel
  obtain ⟨w, hinit, t, ht, hcards⟩ := hrun
  exact ⟨w, hinit, t, ht, hcards,
    session_ledger (wellFormed_init hinit) drawSession ht⟩

end Ledger
