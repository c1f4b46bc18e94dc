import CardCrucible.WarTurn

/-! # Comparisons — who is compared, with which cards, and who leads

    A round is a chain of comparisons.  A `Comparison` records one of them: the
    contestants, the piles they put down and the table as it is when the high
    card holders are determined.  `warComparisons` and `roundComparisons` read
    the chain off a run; they follow `war` and `startRound` call by call and
    nothing in the model depends on them.

    The two rank loops of `determineHighCardHolders` return exactly the
    contestants who lead the comparison. -/

namespace Comparisons

open Outcomes Arrangements Dictionaries CardModel DeckModel PlayerModel
open WarModel WarModel.War WarState WarTurn

/-- One comparison of a round. -/
structure Comparison (Id : Type) where
  contestants : List Id
  piles : Dictionary Id (List Card)
  table : War Id

variable {Id : Type} [LinearOrder Id]

/-- The card a contestant is compared by: the last of its pile, if it is still
    in the game. -/
def Comparison.facing (c : Comparison Id) (id : Id) : Option Card :=
  if inGame c.table id then (c.piles.getD id []).getLast? else none

/-- A contestant who is compared and whose rank nobody exceeds. -/
def Comparison.Leads (c : Comparison Id) (id : Id) : Prop :=
  id ∈ c.contestants ∧ ∃ card, c.facing id = some card ∧
    ∀ k ∈ c.contestants, ∀ d, c.facing k = some d → d.rank ≤ card.rank

/-- The comparisons of a call of `war`, the outermost first. -/
def warComparisons : Nat → Schedule Id → Nat → List Id → List Card → War Id →
    List (Comparison Id)
  | 0, _, _, _, _, _ => []
  | fuel + 1, o, depth, holders, prizeCards, s =>
      match warDraws holders prizeCards s with
      | .done (_, false, prizeCards, participants, s) =>
          ⟨holders, participants, s⟩ ::
            match s.determineHighCardHolders (o.warParticipants depth)
                participants false with
            | .done [_] => []
            | .done newHolders =>
                warComparisons fuel o (depth + 1) newHolders prizeCards s
            | _ => []
      | _ => []

/-- The comparisons of a round: of all who placed a card, then of each war. -/
def roundComparisons (fuel : Nat) (o : Schedule Id) (s : War Id) :
    List (Comparison Id) :=
  match s.placeCards with
  | .done (roundCards, cards, s) =>
      ⟨roundCards.keys, roundCards, s⟩ ::
        match s.determineHighCardHolders o.roundCards roundCards false with
        | .done [_] => []
        | .done holders => warComparisons fuel o 0 holders cards s
        | _ => []
  | _ => []

/-- The cards a player puts down in a chain of comparisons, in order. -/
def playedIn (cs : List (Comparison Id)) (id : Id) : List Card :=
  cs.flatMap (fun c => c.piles.getD id [])

@[simp] theorem playedIn_nil (id : Id) :
    playedIn ([] : List (Comparison Id)) id = [] := rfl

@[simp] theorem playedIn_cons (c : Comparison Id) (cs : List (Comparison Id))
    (id : Id) :
    playedIn (c :: cs) id = c.piles.getD id [] ++ playedIn cs id :=
  List.flatMap_cons

/-! ## The rank loops -/

/-- The card an entry is compared by. -/
def entryCard (s : War Id) (e : Id × List Card) : Option Card :=
  if inGame s e.1 then e.2.getLast? else none

/-- Every entry of a player in the game has a card. -/
def Comparable (s : War Id) (entries : List (Id × List Card)) : Prop :=
  ∀ e ∈ entries, inGame s e.1 = true → e.2 ≠ []

instance (s : War Id) (entries : List (Id × List Card)) :
    Decidable (Comparable s entries) :=
  inferInstanceAs (Decidable (∀ e ∈ entries, inGame s e.1 = true → e.2 ≠ []))

theorem entryCard_eq_some {s : War Id} {e : Id × List Card} {card : Card} :
    entryCard s e = some card ↔
      inGame s e.1 = true ∧ e.2.getLast? = some card := by
  simp only [entryCard]
  cases inGame s e.1 with
  | false => simp
  | true => simp

theorem entryCard_of_out {s : War Id} {e : Id × List Card}
    (h : inGame s e.1 = false) : entryCard s e = none := by
  simp only [entryCard]
  rw [h]
  rfl

/-- Of comparable entries, those in the game have a card to compare. -/
theorem Comparable.cases {s : War Id} {entries : List (Id × List Card)}
    (h : Comparable s entries) {e : Id × List Card} (he : e ∈ entries) :
    inGame s e.1 = false ∨ ∃ card, entryCard s e = some card := by
  cases hin : inGame s e.1 with
  | false => exact Or.inl rfl
  | true =>
      have hlast := List.getLast?_eq_some_getLast (h e he hin)
      exact Or.inr ⟨_, entryCard_eq_some.mpr ⟨hin, hlast⟩⟩

theorem Comparable.tail {s : War Id} {e : Id × List Card}
    {rest : List (Id × List Card)} (h : Comparable s (e :: rest)) :
    Comparable s rest :=
  fun f hf => h f (List.mem_cons_of_mem e hf)

/-- The first rank loop skips who is not in the game. -/
theorem lastCards_cons (s : War Id) (id : Id) (cards : List Card)
    (rest : List (Id × List Card)) :
    lastCards s ((id, cards) :: rest)
      = if inGame s id then
          match cards.getLast? with
          | some card => do
              let cards ← lastCards s rest
              return card :: cards
          | none => .trap "Index out of range"
        else lastCards s rest := by
  simp only [lastCards]
  cases hp : s.tournamentPlayer? id with
  | none => simp only [inGame_of_none hp, Bool.false_eq_true, if_false]
  | some p =>
      refine if_congr ?_ rfl rfl
      rw [inGame_of_some hp]

theorem lastCards_eq {s : War Id} :
    ∀ {entries : List (Id × List Card)}, Comparable s entries →
      lastCards s entries = .done (entries.filterMap (entryCard s)) := by
  intro entries
  induction entries with
  | nil => intro _; rfl
  | cons e rest ih =>
      intro hcmp
      rw [lastCards_cons, ih hcmp.tail]
      rcases hcmp.cases List.mem_cons_self with hout | ⟨card, hcard⟩
      · rw [List.filterMap_cons_none (entryCard_of_out hout), hout]
        exact if_neg Bool.false_ne_true
      · obtain ⟨hin, hlast⟩ := entryCard_eq_some.mp hcard
        rw [List.filterMap_cons_some hcard, if_pos hin]
        simp only [hlast, Outcome.done_bind]
        rfl

/-- Whether an entry is compared by a card of a given rank. -/
def hasRank (s : War Id) (r : Rank) (e : Id × List Card) : Bool :=
  match entryCard s e with
  | some card => decide (card.rank = r)
  | none => false

theorem hasRank_iff {s : War Id} {r : Rank} {e : Id × List Card} :
    hasRank s r e = true ↔ ∃ card, entryCard s e = some card ∧ card.rank = r := by
  simp only [hasRank]
  cases entryCard s e with
  | none => simp
  | some card => simp

/-- So does the second. -/
theorem rankHolders_cons (s : War Id) (r : Rank) (id : Id)
    (cards : List Card) (rest : List (Id × List Card)) :
    rankHolders s r ((id, cards) :: rest)
      = if inGame s id then
          match cards.getLast? with
          | some card => do
              let highCardHolders ← rankHolders s r rest
              return if card.rank = r then id :: highCardHolders
                     else highCardHolders
          | none => .trap "Index out of range"
        else rankHolders s r rest := by
  simp only [rankHolders]
  cases hp : s.tournamentPlayer? id with
  | none => simp only [inGame_of_none hp, Bool.false_eq_true, if_false]
  | some p =>
      refine if_congr ?_ rfl rfl
      rw [inGame_of_some hp]

theorem rankHolders_eq {s : War Id} (r : Rank) :
    ∀ {entries : List (Id × List Card)}, Comparable s entries →
      rankHolders s r entries
        = .done ((entries.filter (hasRank s r)).map Prod.fst) := by
  intro entries
  induction entries with
  | nil => intro _; rfl
  | cons e rest ih =>
      intro hcmp
      rw [rankHolders_cons, ih hcmp.tail]
      rcases hcmp.cases List.mem_cons_self with hout | ⟨card, hcard⟩
      · have hrank : ¬ hasRank s r e = true := by
          simp only [hasRank]
          rw [entryCard_of_out hout]
          exact Bool.false_ne_true
        rw [List.filter_cons_of_neg hrank, hout]
        exact if_neg Bool.false_ne_true
      · obtain ⟨hin, hlast⟩ := entryCard_eq_some.mp hcard
        rw [if_pos hin]
        simp only [hlast, Outcome.done_bind]
        by_cases hr : card.rank = r
        · rw [if_pos hr, List.filter_cons_of_pos
            (hasRank_iff.mpr ⟨card, hcard, hr⟩)]
          rfl
        · have hrank : ¬ hasRank s r e = true := by
            simp only [hasRank]
            rw [hcard]
            exact fun h => hr (of_decide_eq_true h)
          rw [if_neg hr, List.filter_cons_of_neg hrank]
          rfl

/-- The card of a recorded entry is the card its id faces with. -/
theorem facing_eq_entryCard {c : Comparison Id} {e : Id × List Card}
    (he : e ∈ c.piles.entries) : c.facing e.1 = entryCard c.table e := by
  have hget : c.piles.get? e.1 = some e.2 := Dictionary.get?_eq_some.mpr he
  simp only [Comparison.facing, entryCard, Dictionary.getD]
  rw [hget]
  rfl

/-- Whoever faces the others with a card has an entry. -/
theorem exists_entry_of_facing {c : Comparison Id} {id : Id} {card : Card}
    (h : c.facing id = some card) :
    ∃ e ∈ c.piles.entries, e.1 = id ∧ entryCard c.table e = some card := by
  cases hget : c.piles.get? id with
  | none =>
      simp only [Comparison.facing, Dictionary.getD] at h
      rw [hget] at h
      cases hin : inGame c.table id with
      | true => rw [hin] at h; simp at h
      | false => rw [hin] at h; simp at h
  | some pile =>
      have he : (id, pile) ∈ c.piles.entries := Dictionary.get?_eq_some.mp hget
      exact ⟨(id, pile), he, rfl, (facing_eq_entryCard he).symm.trans h⟩

/-- **The rank comparison is an arg-max**: in any iteration order it returns,
    without duplicates, exactly the contestants who lead, and there is one. -/
theorem determineHighCardHolders_spec (c : Comparison Id)
    (order : Arrangement (Id × List Card))
    (hkeys : ∀ id ∈ c.piles.keys, id ∈ c.contestants)
    (hcmp : Comparable c.table c.piles.entries)
    (hlive : ∃ id card, c.facing id = some card) :
    ∃ holders, determineHighCardHolders c.table order c.piles false
        = .done holders ∧
      holders.Nodup ∧ holders ≠ [] ∧ ∀ id, id ∈ holders ↔ c.Leads id := by
  have hmem : ∀ e, e ∈ order.arrange c.piles.entries
      ↔ e ∈ c.piles.entries := fun e => order.mem_arrange _ e
  have hcmp' : Comparable c.table (order.arrange c.piles.entries) :=
    fun e he => hcmp e ((hmem e).mp he)
  -- the cards compared are not empty, so their highest rank exists
  have hne : (order.arrange c.piles.entries).filterMap (entryCard c.table)
      ≠ [] := by
    obtain ⟨id, card, hface⟩ := hlive
    obtain ⟨e, he, -, hcard⟩ := exists_entry_of_facing hface
    exact List.ne_nil_of_mem
      (List.mem_filterMap.mpr ⟨e, (hmem e).mpr he, hcard⟩)
  obtain ⟨r, hr, ⟨top, htop, htopr⟩, hmax⟩ := determineHighestRank_spec hne
  obtain ⟨eTop, heTop, hcardTop⟩ := List.mem_filterMap.mp htop
  have hbound : ∀ k card, c.facing k = some card → card.rank ≤ r := by
    intro k card hk
    obtain ⟨e, he, -, hcard⟩ := exists_entry_of_facing hk
    exact hmax card (List.mem_filterMap.mpr ⟨e, (hmem e).mpr he, hcard⟩)
  have hleads : ∀ id, id ∈ ((order.arrange c.piles.entries).filter
      (hasRank c.table r)).map Prod.fst ↔ c.Leads id := by
    intro id
    constructor
    · intro hid
      obtain ⟨e, he, heq⟩ := List.mem_map.mp hid
      obtain ⟨heo, hrank⟩ := List.mem_filter.mp he
      have hec := (hmem e).mp heo
      obtain ⟨card, hcard, hcr⟩ := hasRank_iff.mp hrank
      rw [← heq]
      refine ⟨hkeys e.1 (List.mem_map_of_mem (f := Prod.fst) hec), card,
        (facing_eq_entryCard hec).trans hcard, ?_⟩
      intro k _ d hd
      rw [hcr]
      exact hbound k d hd
    · rintro ⟨-, card, hface, hle⟩
      obtain ⟨e, he, heq, hcard⟩ := exists_entry_of_facing hface
      have heTop' := (hmem eTop).mp heTop
      have hge : r ≤ card.rank := by
        rw [← htopr]
        refine hle eTop.1
          (hkeys _ (List.mem_map_of_mem (f := Prod.fst) heTop')) top ?_
        exact (facing_eq_entryCard heTop').trans hcardTop
      have hcr : card.rank = r := le_antisymm (hbound id card hface) hge
      exact List.mem_map.mpr ⟨e, List.mem_filter.mpr ⟨(hmem e).mpr he,
        hasRank_iff.mpr ⟨card, hcard, hcr⟩⟩, heq⟩
  refine ⟨_, ?_, ?_, ?_, hleads⟩
  · simp only [determineHighCardHolders]
    simp only [Bool.false_eq_true, if_false, lastCards_eq hcmp',
      Outcome.done_bind, hr, rankHolders_eq r hcmp']
  · have hnd := order.nodup_map_arrange Prod.fst c.piles.nodupKeys
    exact (List.filter_sublist.map Prod.fst).nodup hnd
  · refine List.ne_nil_of_mem (a := eTop.1) (List.mem_map_of_mem ?_)
    exact List.mem_filter.mpr ⟨heTop, hasRank_iff.mpr ⟨top, hcardTop, htopr⟩⟩

/-! ## Comparisons after a turn -/

/-- The card a player turns up when everybody puts down `need` cards. -/
def shows (s : War Id) (need : Nat) (id : Id) : Option Card :=
  (hand s id)[need - 1]?

theorem shows_isSome {s : War Id} {need : Nat} (hneed : 0 < need) {id : Id} :
    (∃ card, shows s need id = some card) ↔ need ≤ (hand s id).length := by
  simp only [shows]
  constructor
  · rintro ⟨card, h⟩
    obtain ⟨hlt, -⟩ := List.getElem?_eq_some_iff.mp h
    omega
  · intro h
    exact ⟨_, List.getElem?_eq_getElem (by omega)⟩

/-- The comparison of the turn recorded in `rc`. -/
def turnComparison (s : War Id) (need : Nat) (ids contestants : List Id)
    (rc : Dictionary Id (List Card)) : Comparison Id :=
  ⟨contestants, rc, turn need ids s⟩

/-- The entries of a turn are the piles, and nobody else has one. -/
structure Records (s : War Id) (need : Nat) (ids : List Id)
    (rc : Dictionary Id (List Card)) : Prop where
  pile : ∀ id ∈ ids, rc.getD id [] = pile s need id
  none : ∀ id, id ∉ ids → rc.getD id [] = []
  keys : ∀ id ∈ rc.keys, id ∈ ids
  entries : ∀ e ∈ rc.entries, e.2 = WarState.pile s need e.1

/-- What is recorded is determined by the ids. -/
theorem Records.entries_eq {s : War Id} {need : Nat} {ids : List Id}
    {rc : Dictionary Id (List Card)} (h : Records s need ids rc) :
    rc.entries = piles s need rc.keys := by
  simp only [piles, Dictionary.keys]
  rw [List.map_map]
  have hid : ∀ e ∈ rc.entries, (e.1, WarState.pile s need e.1) = e :=
    fun e he => Prod.ext rfl (h.entries e he).symm
  exact ((List.map_congr_left hid).trans (List.map_id _)).symm

/-- Leaving out empty piles or not makes no difference to what is recorded. -/
theorem records_of_entries {s : War Id} {need : Nat} {empties : Bool}
    {ids : List Id} {rc : Dictionary Id (List Card)}
    (h : rc.entries = piles s need (recordedIds s need empties ids)) :
    Records s need ids rc := by
  have hmem : ∀ e ∈ rc.entries, e.1 ∈ ids ∧ e.2 = pile s need e.1 := by
    intro e he
    rw [h] at he
    obtain ⟨id, hid, heq⟩ := List.mem_map.mp he
    rw [← heq]
    exact ⟨(List.mem_filter.mp hid).1, rfl⟩
  have hkeys : ∀ id ∈ rc.keys, id ∈ ids := by
    intro id hid
    obtain ⟨e, he, heq⟩ := List.mem_map.mp hid
    rw [← heq]
    exact (hmem e he).1
  refine ⟨?_, ?_, hkeys, fun e he => (hmem e he).2⟩
  · intro id hid
    by_cases hput : (empties || !(pile s need id).isEmpty) = true
    · have he : (id, pile s need id) ∈ rc.entries := by
        rw [h]
        exact List.mem_map.mpr
          ⟨id, List.mem_filter.mpr ⟨hid, hput⟩, rfl⟩
      simp only [Dictionary.getD]
      rw [Dictionary.get?_eq_some.mpr he]
      rfl
    · -- an empty pile that is not recorded
      have hempty : pile s need id = [] := by
        cases hpile : pile s need id with
        | nil => rfl
        | cons c cs =>
            rw [hpile] at hput
            exact absurd (Bool.or_true empties) hput
      rw [hempty]
      simp only [Dictionary.getD]
      cases hget : rc.get? id with
      | none => rfl
      | some v =>
          have he := Dictionary.get?_eq_some.mp hget
          have hv := (hmem _ he).2
          exact hv.trans hempty
  · intro id hid
    simp only [Dictionary.getD]
    rw [Dictionary.get?_eq_none.mpr (fun hk => hid (hkeys id hk))]
    rfl

/-- Whoever took the turn with enough cards faces with the card it shows. -/
theorem facing_turnComparison {s : War Id} {need : Nat}
    (contestants : List Id) (hneed : 0 < need)
    {ids : List Id} {rc : Dictionary Id (List Card)}
    (hrc : Records s need ids rc) (hin : ∀ id ∈ ids, inGame s id = true)
    {id : Id} (hid : id ∈ ids) :
    (turnComparison s need ids contestants rc).facing id
      = shows s need id := by
  show (if inGame (turn need ids s) id then
      (rc.getD id []).getLast? else none) = _
  by_cases hlen : need ≤ (hand s id).length
  · have hin' : inGame (turn need ids s) id = true :=
      (inGame_turn need ids s id).mpr ⟨hin id hid, fun _ => hlen⟩
    rw [if_pos hin', hrc.pile id hid]
    simp only [pile, shows]
    rw [List.getLast?_take, if_neg (by omega),
      List.getElem?_eq_getElem (by omega)]
    rfl
  · have hin' : ¬ inGame (turn need ids s) id = true := by
      intro h
      exact hlen (((inGame_turn need ids s id).mp h).2 hid)
    rw [if_neg hin']
    simp only [shows]
    rw [List.getElem?_eq_none (by omega)]

/-- Leading a turn: nobody who takes it shows a higher rank. -/
def LeadsTurn (s : War Id) (need : Nat) (ids : List Id) (id : Id) : Prop :=
  id ∈ ids ∧ ∃ card, shows s need id = some card ∧
    ∀ k ∈ ids, ∀ d, shows s need k = some d → d.rank ≤ card.rank

theorem leads_turnComparison {s : War Id} {need : Nat} (hneed : 0 < need)
    {ids : List Id} {rc : Dictionary Id (List Card)}
    (hrc : Records s need ids rc) (hin : ∀ id ∈ ids, inGame s id = true)
    (id : Id) :
    (turnComparison s need ids ids rc).Leads id ↔ LeadsTurn s need ids id := by
  have hface := fun k (hk : k ∈ ids) =>
    facing_turnComparison ids hneed hrc hin hk
  constructor
  · rintro ⟨hid, card, hcard, hle⟩
    refine ⟨hid, card, (hface id hid).symm.trans hcard, ?_⟩
    intro k hk d hd
    exact hle k hk d ((hface k hk).trans hd)
  · rintro ⟨hid, card, hcard, hle⟩
    refine ⟨hid, card, (hface id hid).trans hcard, ?_⟩
    intro k hk d hd
    exact hle k hk d ((hface k hk).symm.trans hd)

/-- The comparison after a turn returns who leads it, if anybody had enough
    cards. -/
theorem determineHighCardHolders_turn {s : War Id} {need : Nat}
    (hneed : 0 < need) {ids : List Id} {rc : Dictionary Id (List Card)}
    (hrc : Records s need ids rc) (hin : ∀ id ∈ ids, inGame s id = true)
    (hstand : ∃ id ∈ ids, need ≤ (hand s id).length)
    (order : Arrangement (Id × List Card)) :
    ∃ holders, determineHighCardHolders (turn need ids s) order rc false
        = .done holders ∧
      holders.Nodup ∧ holders ≠ [] ∧
      ∀ id, id ∈ holders ↔ LeadsTurn s need ids id := by
  have hcmp : Comparable (turn need ids s) rc.entries := by
    intro e he hin'
    have hid : e.1 ∈ ids := hrc.keys e.1 (List.mem_map_of_mem (f := Prod.fst) he)
    have hlen := ((inGame_turn need ids s e.1).mp hin').2 hid
    rw [hrc.entries e he]
    intro hnil
    have : (pile s need e.1).length = 0 := by rw [hnil]; rfl
    simp only [pile] at this
    rw [List.length_take] at this
    omega
  have hlive : ∃ id card,
      (turnComparison s need ids ids rc).facing id = some card := by
    obtain ⟨id, hid, hlen⟩ := hstand
    obtain ⟨card, hcard⟩ := (shows_isSome hneed).mpr hlen
    exact ⟨id, card, (facing_turnComparison ids hneed hrc hin hid).trans hcard⟩
  obtain ⟨holders, hdone, hnd, hne, hmem⟩ := determineHighCardHolders_spec
    (turnComparison s need ids ids rc) order hrc.keys hcmp hlive
  exact ⟨holders, hdone, hnd, hne, fun id =>
    (hmem id).trans (leads_turnComparison hneed hrc hin id)⟩

end Comparisons
