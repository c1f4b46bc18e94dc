import CardCrucible.Games

/-! # Verdicts — the decisions of a round, on any table

    A round decides who holds the highest card and whether the game is over.
    Both are loops over a dictionary that skip eliminated players, and a game
    can only bring some tables before them.  Here they are taken by themselves,
    on tables with any piles and any elimination flags.

    The first is right on all of them.  The second leaves a game running when
    everybody has been eliminated, and the next round traps. -/

namespace Verdicts

open Outcomes Arrangements Dictionaries CardModel DeckModel PlayerModel
open WarModel WarModel.War WarState WarTurn Comparisons Rounds GameStatus Games

variable {Id : Type} [LinearOrder Id]

/-! ## High card holders -/

/-- The last card listed for a player. -/
def lastListed (roundCards : Dictionary Id (List Card)) (id : Id) :
    Option Card := (roundCards.get? id).bind List.getLast?

/-- A player in the game whose last listed card no other player in the game
    outranks. -/
def HoldsHighCard (s : War Id) (roundCards : Dictionary Id (List Card))
    (id : Id) : Prop :=
  inGame s id = true ∧ ∃ card, lastListed roundCards id = some card ∧
    ∀ k c, inGame s k = true → lastListed roundCards k = some c →
      c.rank ≤ card.rank

/-- All those listed in a comparison. -/
def listed (s : War Id) (roundCards : Dictionary Id (List Card)) :
    Comparison Id := ⟨roundCards.keys, roundCards, s⟩

theorem facing_listed (s : War Id) (roundCards : Dictionary Id (List Card))
    (id : Id) :
    (listed s roundCards).facing id
      = if inGame s id then lastListed roundCards id else none := by
  simp only [Comparison.facing, listed, lastListed, Dictionary.getD]
  cases roundCards.get? id with
  | none => rfl
  | some cards => rfl

theorem facing_listed_eq_some {s : War Id}
    {roundCards : Dictionary Id (List Card)} {id : Id} {card : Card} :
    (listed s roundCards).facing id = some card ↔
      inGame s id = true ∧ lastListed roundCards id = some card := by
  rw [facing_listed]
  cases inGame s id with
  | false => simp
  | true => simp

/-- Only those listed have a last card. -/
theorem mem_keys_of_lastListed {roundCards : Dictionary Id (List Card)}
    {id : Id} {card : Card} (h : lastListed roundCards id = some card) :
    id ∈ roundCards.keys := by
  obtain ⟨cards, hget, -⟩ := Option.bind_eq_some_iff.mp h
  exact Dictionary.mem_keys.mpr ⟨cards, hget⟩

/-- To lead those listed is to hold a high card. -/
theorem leads_listed_iff {s : War Id} {roundCards : Dictionary Id (List Card)}
    {id : Id} :
    (listed s roundCards).Leads id ↔ HoldsHighCard s roundCards id := by
  constructor
  · rintro ⟨-, card, hface, hmax⟩
    obtain ⟨hin, hlast⟩ := facing_listed_eq_some.mp hface
    refine ⟨hin, card, hlast, ?_⟩
    intro k c hk hc
    exact hmax k (mem_keys_of_lastListed hc) c
      (facing_listed_eq_some.mpr ⟨hk, hc⟩)
  · rintro ⟨hin, card, hlast, hmax⟩
    refine ⟨mem_keys_of_lastListed hlast, card,
      facing_listed_eq_some.mpr ⟨hin, hlast⟩, ?_⟩
    intro k _ c hface
    obtain ⟨hk, hc⟩ := facing_listed_eq_some.mp hface
    exact hmax k c hk hc

/-- **High card holders are the exact arg-max**, in any iteration order, if a
    player in the game is listed and none of them without a card. -/
theorem high_card_holders (s : War Id)
    (roundCards : Dictionary Id (List Card))
    (order : Arrangement (Id × List Card))
    (hlive : ∃ id ∈ roundCards.keys, inGame s id = true)
    (hcards : Comparable s roundCards.entries) :
    ∃ holders, s.determineHighCardHolders order roundCards false
        = .done holders ∧
      holders.Nodup ∧ holders ≠ [] ∧
      ∀ id, id ∈ holders ↔ HoldsHighCard s roundCards id := by
  have hface : ∃ id card, (listed s roundCards).facing id = some card := by
    obtain ⟨id, hid, hin⟩ := hlive
    obtain ⟨cards, hget⟩ := Dictionary.mem_keys.mp hid
    have hne : cards ≠ [] :=
      hcards (id, cards) (Dictionary.get?_eq_some.mp hget) hin
    have hlast : lastListed roundCards id = some (cards.getLast hne) := by
      simp only [lastListed]
      rw [hget]
      exact List.getLast?_eq_some_getLast hne
    exact ⟨id, _, facing_listed_eq_some.mpr ⟨hin, hlast⟩⟩
  obtain ⟨holders, hdone, hnd, hne, hmem⟩ := determineHighCardHolders_spec
    (listed s roundCards) order (fun _ h => h) hcards hface
  exact ⟨holders, hdone, hnd, hne,
    fun id => (hmem id).trans leads_listed_iff⟩

/-- A table with some of its players eliminated. -/
def tableWithout (out : List String) (hands : List (String × List Card)) :
    War String :=
  { table hands with
    players := (table hands).players.mapValues (fun id g =>
      if id ∈ out then g.mapTournament (fun p => p.setIsEliminated true)
      else g) }

/-- Two players hold an ace; who has been eliminated lists no card. -/
def acesListed : Dictionary String (List Card) :=
  (((Dictionary.empty.set "A" []).set "B" [⟨.clubs, .two⟩, ⟨.clubs, .ace⟩]).set
    "C" [⟨.hearts, .ace⟩]).set "D" [⟨.spades, .ace⟩, ⟨.spades, .king⟩]

theorem high_card_holders_aces :
    ∃ holders, determineHighCardHolders
        (tableWithout ["A"] [("A", []), ("B", []), ("C", []), ("D", [])])
        Arrangement.backwards acesListed false = .done holders ∧
      holders.Nodup ∧ holders ≠ [] ∧
      ∀ id, id ∈ holders ↔ HoldsHighCard
        (tableWithout ["A"] [("A", []), ("B", []), ("C", []), ("D", [])])
        acesListed id :=
  high_card_holders _ acesListed Arrangement.backwards ⟨"B", by decide⟩
    (by decide)

/-! ## Game over -/

/-- **The game is over when at most one player is left, unless nobody is.** -/
theorem game_over_iff {s : War Id} (hplayers : s.players.keys ≠ [])
    (hrunning : s.gameover = false)
    (order : Arrangement (Id × GamePlayer Id)) :
    ((updateGameStatus order s).gameover = true ↔
      (survivors s).length ≤ 1) ↔ ∃ id, inGame s id = true := by
  have hover : (updateGameStatus order s).gameover = true ↔
      (survivors s).length = 1 := by
    rw [updateGameStatus_eq hplayers order]
    show (s.gameover || decide _) = true ↔ _
    rw [hrunning, Bool.false_or, decide_eq_true_iff]
  have hsome : 0 < (survivors s).length ↔ ∃ id, inGame s id = true := by
    rw [List.length_pos_iff_exists_mem]
    exact exists_congr (fun id => mem_survivors)
  rw [hover, ← hsome]
  omega

theorem game_over_iff_two :
    (updateGameStatus Arrangement.backwards
        (tableWithout ["B"] [("A", []), ("B", [])])).gameover = true ↔
      (survivors (tableWithout ["B"] [("A", []), ("B", [])])).length ≤ 1 :=
  (game_over_iff (s := tableWithout ["B"] [("A", []), ("B", [])]) (by decide)
    (by decide) Arrangement.backwards).mpr ⟨"A", by decide⟩

/-- Both of two players are eliminated, and the game is not over. -/
theorem nobody_left_not_over :
    (tableWithout ["A", "B"] [("A", []), ("B", [])]).players.keys ≠ [] ∧
      (tableWithout ["A", "B"] [("A", []), ("B", [])]).gameover = false ∧
      (survivors (tableWithout ["A", "B"] [("A", []), ("B", [])])).length = 0 ∧
      (updateGameStatus Arrangement.keep
        (tableWithout ["A", "B"] [("A", []), ("B", [])])).gameover = false := by
  decide

/-- In a game somebody is always left, so there the test is exact. -/
theorem gameover_iff_of_reaches {s₀ s : War Id} (h : Reaches s₀ s)
    (hready : Ready s₀) :
    s.gameover = true ↔ (survivors s).length ≤ 1 := by
  obtain ⟨id, hin⟩ := h.exists_inGame hready
  have hpos := List.length_pos_of_mem (mem_survivors.mpr hin)
  rw [h.gameover_iff hready]
  omega

/-- When everybody has been eliminated, the game goes on to a round that
    traps. -/
theorem everybody_out {s : War Id} (hwf : WellFormed s)
    (hplayers : s.players.keys ≠ []) (hout : ∀ id, inGame s id = false)
    (order : Arrangement (Id × GamePlayer Id)) (fuel : Nat)
    (o : Schedule Id) :
    updateGameStatus order s = s ∧
      startRound fuel o s = .trap
        "An empty array does not possess a highest ranked card" := by
  constructor
  · have hnone : survivors s = [] := by
      rw [List.eq_nil_iff_forall_not_mem]
      intro id hid
      exact Bool.false_ne_true ((hout id).symm.trans (mem_survivors.mp hid))
    rw [updateGameStatus_eq hplayers order, hnone]
    show { s with gameover := s.gameover || false } = s
    rw [Bool.or_false]
  · refine startRound_of_not_live hwf ?_ fuel o
    rintro ⟨id, hin, -⟩
    exact Bool.false_ne_true ((hout id).symm.trans hin)

end Verdicts
