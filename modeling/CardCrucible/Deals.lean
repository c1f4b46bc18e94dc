import CardCrucible.DeckShuffles
import CardCrucible.RoundRobin
import CardCrucible.Draws

/-! # Deals — which hands a new game can start with

    A new game shuffles its deck and deals it round robin.  The hands that come
    of it are fair shares of the sub-decks.  Conversely every list of fair
    shares is dealt from one deck, the one that interleaves them, and the
    shuffle can bring about every order but one: it goes on until the order of
    the new deck has changed.  So exactly one deal can never happen. -/

namespace Deals

open Outcomes Arrangements Dictionaries CardModel DeckModel DeckModel.Deck
open PlayerModel WarModel WarModel.War WarState Dealing GameStatus Games
open DeckShuffles RoundRobin Draws

variable {Id : Type} [LinearOrder Id]

/-! ## Interleaving hands -/

/-- The deck of `n` cards that `k` hands of the right sizes are dealt from. -/
def interleave (n k : Nat) (hk : 0 < k) (hands : Nat → List Card)
    (hsize : ∀ j < k, ∀ i, i < (hands j).length ↔ j + k * i < n) :
    List Card :=
  List.ofFn fun m : Fin n => (hands (m % k)).get ⟨m / k, by
    rw [hsize (m % k) (Nat.mod_lt m hk), Nat.mod_add_div]
    exact m.isLt⟩

theorem everyKth_interleave {n k : Nat} (hk : 0 < k) {hands : Nat → List Card}
    (hsize : ∀ j < k, ∀ i, i < (hands j).length ↔ j + k * i < n) {j : Nat}
    (hj : j < k) :
    EveryKth (interleave n k hk hands hsize) j k (hands j) := by
  intro i
  have hmod : (j + k * i) % k = j := by
    rw [Nat.add_mul_mod_self_left]
    exact Nat.mod_eq_of_lt hj
  have hdiv : (j + k * i) / k = i := by
    rw [Nat.add_mul_div_left _ _ hk, Nat.div_eq_of_lt hj, Nat.zero_add]
  simp only [interleave]
  rw [List.getElem?_ofFn]
  by_cases hlt : j + k * i < n
  · rw [dif_pos hlt]
    have hget := List.getElem?_eq_getElem ((hsize j hj i).mpr hlt)
    rw [hget]
    simp only [List.get_eq_getElem, hmod, hdiv]
  · rw [dif_neg hlt]
    refine List.getElem?_eq_none ?_
    exact not_lt.mp ((hsize j hj i).not.mpr hlt)

/-- The size of the `j`-th of `k` fair shares of `n` cards. -/
def shareSize (n k j : Nat) : Nat := (n + k - 1 - j) / k

theorem lt_shareSize_iff {n k j : Nat} (hj : j < k) (i : Nat) :
    i < shareSize n k j ↔ j + k * i < n := by
  simp only [shareSize]
  rw [← Nat.succ_le_iff, Nat.le_div_iff_mul_le (by omega), Nat.succ_mul,
    Nat.mul_comm i k]
  omega

/-- The length of a list of every `k`-th card. -/
theorem length_eq_of_everyKth {deck gained : List Card} {j k : Nat}
    (hj : j < k) (h : EveryKth deck j k gained) :
    gained.length = shareSize deck.length k j := by
  have hiff : ∀ i, i < gained.length ↔ i < shareSize deck.length k j :=
    fun i => (h.lt_length_iff i).trans (lt_shareSize_iff hj i).symm
  have hle := (hiff (shareSize deck.length k j)).not.mpr (lt_irrefl _)
  have hge := (hiff gained.length).not.mp (lt_irrefl _)
  omega

/-! ## Hands dealt from a deck -/

section DealtFrom

variable {Seat : Type} {deck deck' : List Card} {ids : List Seat}
variable {hands hands' : Seat → List Card}

/-- The hands are dealt from a deck. -/
def DealtFrom (deck : List Card) (ids : List Seat)
    (hands : Seat → List Card) : Prop :=
  ∀ j id, ids[j]? = some id → EveryKth deck j ids.length (hands id)

namespace DealtFrom

theorem congr (h : DealtFrom deck ids hands)
    (heq : ∀ id ∈ ids, hands' id = hands id) : DealtFrom deck ids hands' := by
  intro j id hj
  rw [heq id (List.mem_of_getElem? hj)]
  exact h j id hj

/-- A deck deals the hands in one way. -/
theorem hands_unique (h : DealtFrom deck ids hands)
    (h' : DealtFrom deck ids hands') : ∀ id ∈ ids, hands id = hands' id := by
  intro id hid
  obtain ⟨j, hj⟩ := List.mem_iff_getElem?.mp hid
  exact List.ext_getElem? (fun i => (h j id hj i).trans (h' j id hj i).symm)

/-- The hands are dealt from one deck. -/
theorem deck_unique (hne : 0 < ids.length) (h : DealtFrom deck ids hands)
    (h' : DealtFrom deck' ids hands) : deck = deck' := by
  refine eq_of_everyKth hne (fun j hj => ?_)
  have hid := List.getElem?_eq_getElem hj
  exact ⟨_, h j _ hid, h' j _ hid⟩

/-- The cards of one pass. -/
theorem firstPass {Seat : Type} {f : Seat → List Card} :
    ∀ (ids : List Seat) (deck : List Card),
      (∀ (j : Nat) (id : Seat), ids[j]? = some id →
        f id = deck[j]?.toList) →
      ids.flatMap f = deck.take ids.length := by
  intro ids
  induction ids with
  | nil => intro deck _; rfl
  | cons id ids ih =>
      intro deck h
      rw [List.flatMap_cons, h 0 id rfl]
      cases deck with
      | nil =>
          rw [ih [] (fun j id' hj => h (j + 1) id' hj), List.take_nil,
            List.take_nil]
          rfl
      | cons card deck =>
          rw [ih deck (fun j id' hj => h (j + 1) id' hj)]
          rfl

/-- **Dealing loses no card**: the hands hold the deck. -/
theorem perm (hne : 0 < ids.length) :
    ∀ {deck : List Card} {hands : Seat → List Card},
      DealtFrom deck ids hands → (ids.flatMap hands).Perm deck := by
  -- by induction on the deck, one pass at a time
  intro deck
  induction hn : deck.length using Nat.strong_induction_on generalizing deck with
  | _ n ih =>
      intro hands h
      have hhead : ids.flatMap (fun id => (hands id).take 1)
          = deck.take ids.length := by
        refine firstPass ids deck (fun j id hj => ?_)
        have hzero := h j id hj 0
        rw [Nat.mul_zero, Nat.add_zero] at hzero
        rw [← hzero]
        cases hands id <;> rfl
      have htail : DealtFrom (deck.drop ids.length) ids
          (fun id => (hands id).tail) := by
        intro j id hj i
        have hnext := h j id hj (i + 1)
        rw [List.getElem?_tail, hnext, List.getElem?_drop, Nat.mul_succ]
        congr 1
        omega
      have hsplit : ids.flatMap hands
          = ids.flatMap (fun id => (hands id).take 1 ++ (hands id).tail) := by
        refine congrArg (ids.flatMap ·) (funext fun id => ?_)
        cases hands id <;> rfl
      by_cases hdeck : deck = []
      · rw [hdeck]
        refine List.Perm.of_eq (List.flatMap_eq_nil_iff.mpr ?_)
        intro id hid
        obtain ⟨j, hj⟩ := List.mem_iff_getElem?.mp hid
        refine List.ext_getElem? (fun i => ?_)
        rw [h j id hj i, hdeck]
        rfl
      · have hpos := List.length_pos_iff.mpr hdeck
        have hrest := ih (deck.drop ids.length).length
          (by rw [List.length_drop]; omega) rfl htail
        have happ := List.flatMap_append_perm ids
          (fun id => (hands id).take 1) (fun id => (hands id).tail)
        rw [← hsplit, hhead] at happ
        have hdrop := hrest.append_left (deck.take ids.length)
        rw [List.take_append_drop] at hdrop
        exact happ.symm.trans hdrop

end DealtFrom

/-- The hands are fair shares of the cards. -/
structure FairShares (cards : List Card) (ids : List Seat)
    (hands : Seat → List Card) : Prop where
  size : ∀ j id, ids[j]? = some id →
    (hands id).length = shareSize cards.length ids.length j
  cards : (ids.flatMap hands).Perm cards

theorem DealtFrom.fairShares (hne : 0 < ids.length)
    (h : DealtFrom deck ids hands) : FairShares deck ids hands where
  size := fun j id hj =>
    length_eq_of_everyKth (List.getElem?_eq_some_iff.mp hj).1 (h j id hj)
  cards := h.perm hne

theorem FairShares.of_perm (h : FairShares deck ids hands)
    (hperm : deck.Perm deck') : FairShares deck' ids hands where
  size := fun j id hj => by
    rw [← hperm.length_eq]
    exact h.size j id hj
  cards := h.cards.trans hperm

/-- **Fair shares are dealt from one order of the cards.** -/
theorem FairShares.exists_dealtFrom (hne : 0 < ids.length)
    (h : FairShares deck ids hands) :
    ∃ deck', deck'.Perm deck ∧ DealtFrom deck' ids hands := by
  have hsize : ∀ j < ids.length, ∀ i,
      i < ((ids[j]?.map hands).getD []).length ↔
        j + ids.length * i < deck.length := by
    intro j hj i
    have hid := List.getElem?_eq_getElem hj
    rw [← lt_shareSize_iff hj, ← h.size j _ hid, hid]
    rfl
  have hdealt : DealtFrom (interleave deck.length ids.length hne
      (fun j => (ids[j]?.map hands).getD []) hsize) ids hands := by
    intro j id hj
    have hevery := everyKth_interleave hne hsize
      (List.getElem?_eq_some_iff.mp hj).1
    rw [hj] at hevery
    exact hevery
  exact ⟨_, (hdealt.perm hne).symm.trans h.cards, hdealt⟩

end DealtFrom

/-! ## New games -/

/-- The cards of a new deck before it is shuffled. -/
def unshuffled (n : Int) : List Card :=
  (List.replicate (AllowedNumSubDecks.wrap n).numSubDecks.toNat
    subDeck).flatten

/-- The players in the order in which cards are dealt to them. -/
def seating (players : List (GamePlayer Id)) : List Id :=
  (players.map (fun g => g.toPlayer.id)).insertionSort (· ≤ ·)

omit [LinearOrder Id] in
/-- Clamping twice is clamping once. -/
theorem wrap_wrap (n : Int) :
    AllowedNumSubDecks.wrap (AllowedNumSubDecks.wrap n).numSubDecks
      = AllowedNumSubDecks.wrap n := by
  have hval : max (min (max (min n 10) 0) 10) 0 = max (min n 10) 0 := by
    omega
  simp only [AllowedNumSubDecks.wrap, AllowedNumSubDecks.mk.injEq]
  exact hval

/-- The deck of the initializer is a shuffle of the new deck. -/
theorem init_shuffled (fuel : Nat) (random : Nat → Arrangement Card)
    (n : Int) :
    Deck.init fuel random n true
      = (staticShuffle fuel random (unshuffled n) >>= fun decks =>
          .done ⟨decks, AllowedNumSubDecks.wrap n⟩) := by
  simp only [Deck.init, createShuffledDeck, if_true]
  rw [shuffle_eq]
  simp only [createDeck, wrap_wrap]
  show ((staticShuffle fuel random (unshuffled n) >>= _) >>= _) = _
  cases staticShuffle fuel random (unshuffled n) <;> rfl

theorem unshuffled_ne_nil {n : Int} (hn : 0 < n) : unshuffled n ≠ [] := by
  intro hnil
  have hlen : (unshuffled n).length
      = (AllowedNumSubDecks.wrap n).numSubDecks.toNat * 52 := by
    simp only [unshuffled]
    rw [List.length_flatten, List.map_replicate, List.sum_replicate_nat]
    rfl
  have hnum : (AllowedNumSubDecks.wrap n).numSubDecks
      = max (min n 10) 0 := rfl
  rw [hnil, hnum, List.length_nil] at hlen
  omega

omit [LinearOrder Id] in
/-- **Which decks the initializer can leave**: every order of the sub-decks but
    the one they are created in. -/
theorem init_deck_iff {n : Int} (hn : 0 < n) (deck : List Card) :
    (∃ (fuel : Nat) (random : Nat → Arrangement Card) (w : War Id),
      War.init fuel random n = .done w ∧ w.gameDeck.decks = deck) ↔
      deck.Perm (unshuffled n) ∧ deck ≠ unshuffled n := by
  have hpos : 0 < (unshuffled n).length :=
    List.length_pos_iff.mpr (unshuffled_ne_nil hn)
  constructor
  · rintro ⟨fuel, random, w, hinit, hdeck⟩
    have hd := (init_eq hinit).1
    refine ⟨?_, ?_⟩
    · rw [← hdeck]
      exact init_shuffled_perm hd
    · rw [init_shuffled] at hd
      obtain ⟨out, hout, hw⟩ := Outcome.bind_eq_done.mp hd
      simp only [staticShuffle] at hout
      rw [if_pos hpos] at hout
      have hdecks : out = deck := by
        rw [← hdeck, ← Outcome.done.inj hw]
      rw [← hdecks]
      exact shuffleLoop_ne _ _ _ _ _ hout
  · rintro ⟨hperm, hne⟩
    let o := Arrangement.only (unshuffled n) deck hperm
    have harrange : o.arrange (unshuffled n) = deck := if_pos rfl
    have hother : o.arrange (unshuffled n) ≠ unshuffled n := by
      rw [harrange]
      exact hne
    have hloop := shuffleLoop_of_ne hother
    let w : War Id :=
      { gameDeck := ⟨deck, AllowedNumSubDecks.wrap n⟩
        players := Dictionary.empty
        gameover := false
        roundWinner := none }
    refine ⟨2, fun _ => o, w, ?_, rfl⟩
    simp only [War.init]
    rw [init_shuffled]
    simp only [staticShuffle]
    rw [if_pos hpos, hloop, harrange]
    rfl

/-! ## The hands of a new game -/

section NewGame

variable {fuel₀ : Nat} {random : Nat → Arrangement Card} {n : Int}
variable {w : War Id} {players : List (GamePlayer Id)}

/-- Cards are dealt to the players of a new game by increasing id. -/
theorem receivers_newGame (h : War.init fuel₀ random n = .done w)
    (hplayers : NewPlayers players) :
    receivers (w.addPlayers players) = seating players := by
  have hready := newGame_ready h hplayers
  have hkeys : (w.addPlayers players).players.keys
      = players.map (fun g => g.toPlayer.id) := by
    show (w.addPlayers players).players.entries.map Prod.fst = _
    rw [newGame_entries h hplayers, List.map_map]
    rfl
  simp only [receivers, seating]
  rw [hkeys]
  refine List.filter_eq_self.mpr ?_
  intro id hid
  refine hready.inGame id ?_
  rw [hkeys]
  exact (List.perm_insertionSort (· ≤ ·) _).mem_iff.mp hid

/-- Players who bring no cards have none before the deal. -/
theorem hand_newGame (h : War.init fuel₀ random n = .done w)
    (hplayers : NewPlayers players)
    (hempty : ∀ g ∈ players, g.toPlayer.cards = []) (id : Id) :
    hand (w.addPlayers players) id = [] := by
  cases hp : (w.addPlayers players).tournamentPlayer? id with
  | none => exact hand_of_none hp
  | some p =>
      obtain ⟨g, hg, hget⟩ := newGame_get h hplayers (mem_keys_of_some hp)
      rw [hand_of_some hget, cards_entrant]
      exact hempty g hg

/-- The hands of a new game are dealt from its deck. -/
theorem deal_newGame (h : War.init fuel₀ random n = .done w)
    (hplayers : NewPlayers players)
    (hempty : ∀ g ∈ players, g.toPlayer.cards = []) {fuel : Nat}
    {s : War Id} (hdeal : dealCards fuel (w.addPlayers players) = .done s) :
    DealtFrom w.gameDeck.decks (seating players) (hand s) := by
  have hready := newGame_ready h hplayers
  obtain ⟨share, hdealt, hevery⟩ :=
    dealCards_robin (exists_inGame_of_two hready.two) hdeal
  rw [receivers_newGame h hplayers, (addPlayers_frame players w).1] at hevery
  intro j id hj
  rw [hdealt.hand_eq, hand_newGame h hplayers hempty]
  exact hevery j id hj

end NewGame

theorem seating_pos {players : List (GamePlayer Id)}
    (hplayers : NewPlayers players) : 0 < (seating players).length := by
  have htwo := hplayers.two
  simp only [seating]
  rw [List.length_insertionSort, List.length_map]
  omega

/-- **The deals of a new game**: the hands a game can start with are the fair
    shares of its sub-decks, other than those dealt from the sub-decks in the
    order in which they are created. -/
theorem deals_iff {n : Int} (hn : 0 < n) {players : List (GamePlayer Id)}
    (hplayers : NewPlayers players)
    (hempty : ∀ g ∈ players, g.toPlayer.cards = []) (hands : Id → List Card) :
    (∃ (fuel₀ : Nat) (random : Nat → Arrangement Card) (w : War Id)
        (fuel : Nat) (s : War Id),
      War.init fuel₀ random n = .done w ∧
        dealCards fuel (w.addPlayers players) = .done s ∧
        ∀ id ∈ seating players, hand s id = hands id) ↔
      FairShares (unshuffled n) (seating players) hands ∧
        ¬ DealtFrom (unshuffled n) (seating players) hands := by
  have hpos := seating_pos hplayers
  constructor
  · rintro ⟨fuel₀, random, w, fuel, s, hinit, hdeal, hhands⟩
    have hdealt : DealtFrom w.gameDeck.decks (seating players) hands :=
      (deal_newGame hinit hplayers hempty hdeal).congr
        (fun id hid => (hhands id hid).symm)
    obtain ⟨hperm, hne⟩ := (@init_deck_iff Id _ hn w.gameDeck.decks).mp
      ⟨fuel₀, random, w, hinit, rfl⟩
    refine ⟨(hdealt.fairShares hpos).of_perm hperm, ?_⟩
    intro hsame
    exact hne (hdealt.deck_unique hpos hsame)
  · rintro ⟨hfair, hother⟩
    obtain ⟨deck, hperm, hdealt⟩ := hfair.exists_dealtFrom hpos
    have hne : deck ≠ unshuffled n := by
      intro hsame
      rw [hsame] at hdealt
      exact hother hdealt
    obtain ⟨fuel₀, random, w, hinit, hdeck⟩ :=
      (@init_deck_iff Id _ hn deck).mpr ⟨hperm, hne⟩
    have htwo := (newGame_ready hinit hplayers).two
    obtain ⟨s, hdeal⟩ := dealCards_returns (exists_inGame_of_two htwo)
      (Nat.lt_succ_self _)
    refine ⟨fuel₀, random, w, _, s, hinit, hdeal, ?_⟩
    have hdealt' := deal_newGame hinit hplayers hempty hdeal
    rw [hdeck] at hdealt'
    exact hdealt'.hands_unique hdealt

/-- Of two players the second is dealt the cards at the even places. -/
def crossed (id : String) : List Card :=
  cardsAt ((List.range 26).map (if id = "B" then (2 * ·) else (2 * · + 1)))

theorem deals_iff_two :
    ∃ (fuel₀ : Nat) (random : Nat → Arrangement Card) (w : War String)
        (fuel : Nat) (s : War String),
      War.init fuel₀ random 1 = .done w ∧
        dealCards fuel (w.addPlayers twoSeats) = .done s ∧
        ∀ id ∈ seating twoSeats, hand s id = crossed id := by
  have hempty : ∀ g ∈ twoSeats, g.toPlayer.cards = [] := by decide
  have hseats : seating twoSeats = ["A", "B"] := by decide
  refine (deals_iff (by decide) newPlayers_two hempty crossed).mpr
    ⟨⟨?_, ?_⟩, ?_⟩
  · rw [hseats]
    intro j id hj
    cases j with
    | zero =>
        rw [← Option.some.inj hj]
        decide
    | succ j =>
        cases j with
        | zero =>
            rw [← Option.some.inj hj]
            decide
        | succ j => exact absurd hj (by simp)
  · rw [hseats]
    decide +kernel
  · -- the first card of the first hand is another one
    rw [hseats]
    intro h
    exact absurd (h 0 "A" rfl 0) (by decide)

end Deals
