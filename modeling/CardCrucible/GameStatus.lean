import CardCrucible.Rounds

/-! # Game status — when a round ends the game

    `updateGameStatus` counts the players who are not eliminated and stops
    counting at the second.  In a game with players it sets `gameover` exactly
    when one player is left, in whatever order it runs over the dictionary. -/

namespace GameStatus

open Outcomes Arrangements Dictionaries CardModel DeckModel PlayerModel
open WarModel WarModel.War WarState

variable {Id : Type} [LinearOrder Id]

/-- The players who are still in the game. -/
def survivors (s : War Id) : List Id := s.players.keys.filter (inGame s)

theorem mem_survivors {s : War Id} {id : Id} :
    id ∈ survivors s ↔ inGame s id = true :=
  mem_filter_inGame (fun _ h => h)

theorem nodup_survivors (s : War Id) : (survivors s).Nodup :=
  s.players.nodup_keys.filter _

/-- Of at least two survivors one is in the game. -/
theorem exists_inGame_of_two {s : War Id} (htwo : 2 ≤ (survivors s).length) :
    ∃ id, inGame s id = true := by
  obtain ⟨id, hid⟩ := List.exists_mem_of_length_pos
    (show 0 < (survivors s).length by omega)
  exact ⟨id, mem_survivors.mp hid⟩

/-- Fewer players in the game, fewer survivors. -/
theorem length_survivors_le {s t : War Id}
    (h : ∀ id, inGame t id = true → inGame s id = true) :
    (survivors t).length ≤ (survivors s).length := by
  refine (nodup_survivors t).length_le_of_subset ?_
  intro id hid
  exact mem_survivors.mpr (h id (mem_survivors.mp hid))

/-- Whether an entry counts. -/
def counts (e : Id × GamePlayer Id) : Bool :=
  match e.2.asTournamentPlayer with
  | some player => player.isNotEliminated
  | none => false

omit [LinearOrder Id] in
theorem countNotEliminated_eq (entries : List (Id × GamePlayer Id)) :
    ∀ n, n ≤ 1 → countNotEliminated entries n
      = if 1 < n + entries.countP counts then none
        else some (n + entries.countP counts) := by
  induction entries with
  | nil =>
      intro n hn
      rw [List.countP_nil, if_neg (by omega)]
      rfl
  | cons e rest ih =>
      intro n hn
      have hstep : countNotEliminated (e :: rest) n
          = if 1 < (if counts e then n + 1 else n) then none
            else countNotEliminated rest (if counts e then n + 1 else n) := by
        obtain ⟨id, g⟩ := e
        cases g with
        | player p => rfl
        | tournament p => rfl
      rw [hstep, List.countP_cons]
      cases hc : counts e with
      | false =>
          rw [if_neg Bool.false_ne_true, if_neg Bool.false_ne_true,
            if_neg (by omega), ih n hn, Nat.add_zero]
      | true =>
          rw [if_pos rfl, if_pos rfl]
          -- the second player counted ends the loop
          by_cases h1 : 1 < n + 1
          · rw [if_pos h1, if_pos (by omega)]
          · rw [if_neg h1, ih (n + 1) (by omega),
              show n + 1 + rest.countP counts
                = n + (rest.countP counts + 1) by omega]

/-- The entries counted are the survivors. -/
theorem countP_counts (order : Arrangement (Id × GamePlayer Id))
    (s : War Id) :
    (order.arrange s.players.entries).countP counts
      = (survivors s).length := by
  simp only [survivors]
  rw [(order.perm _).countP_eq, ← List.countP_eq_length_filter]
  show _ = List.countP (inGame s) (s.players.entries.map Prod.fst)
  rw [List.countP_map]
  refine List.countP_congr ?_
  intro e he
  have hget : s.players.get? e.1 = some e.2 := Dictionary.get?_eq_some.mpr he
  have hval : inGame s e.1 = counts e := by
    simp only [inGame, tournamentPlayer?, counts]
    rw [hget]
    rfl
  show counts e = true ↔ inGame s e.1 = true
  rw [hval]

/-- **The game is over when one player is left.** -/
theorem updateGameStatus_eq {s : War Id} (hplayers : s.players.keys ≠ [])
    (order : Arrangement (Id × GamePlayer Id)) :
    updateGameStatus order s = { s with
      gameover := s.gameover || decide ((survivors s).length = 1) } := by
  have hnum : 1 ≤ s.numPlayers := by
    have := List.length_pos_iff.mpr hplayers
    rw [Dictionary.length_keys] at this
    exact this
  have hle : (survivors s).length ≤ s.numPlayers := by
    show _ ≤ s.players.count
    rw [← Dictionary.length_keys]
    exact List.length_filter_le _ _
  simp only [updateGameStatus]
  rw [countNotEliminated_eq _ 0 (by omega), countP_counts, Nat.zero_add]
  by_cases h1 : 1 < (survivors s).length
  · rw [if_pos h1, decide_eq_false (by omega), Bool.or_false]
  · rw [if_neg h1]
    by_cases hone : (survivors s).length = 1
    · simp only [hone, true_or, if_true, decide_true, Bool.or_true]
    · -- no survivor is not as many as there are players
      have hzero : ¬ ((survivors s).length = 1
          ∨ (survivors s).length = s.numPlayers) := by omega
      simp only [if_neg hzero, decide_eq_false hone, Bool.or_false]

omit [LinearOrder Id] in
/-- The update touches nothing but the flag. -/
theorem updateGameStatus_frame (order : Arrangement (Id × GamePlayer Id))
    (s : War Id) : ∃ b, updateGameStatus order s = { s with gameover := b } := by
  simp only [updateGameStatus]
  cases countNotEliminated (order.arrange s.players.entries) 0 with
  | none => exact ⟨s.gameover, rfl⟩
  | some n =>
      by_cases h : n = 1 ∨ n = s.numPlayers
      · exact ⟨true, if_pos h⟩
      · exact ⟨s.gameover, if_neg h⟩

omit [LinearOrder Id] in
theorem roundWinner_updateGameStatus
    (order : Arrangement (Id × GamePlayer Id)) (s : War Id) :
    (updateGameStatus order s).roundWinner = s.roundWinner := by
  obtain ⟨b, hb⟩ := updateGameStatus_frame order s
  rw [hb]

theorem inGame_updateGameStatus (order : Arrangement (Id × GamePlayer Id))
    (s : War Id) (id : Id) :
    inGame (updateGameStatus order s) id = inGame s id := by
  obtain ⟨b, hb⟩ := updateGameStatus_frame order s
  rw [hb]
  rfl

theorem hand_updateGameStatus (order : Arrangement (Id × GamePlayer Id))
    (s : War Id) (id : Id) :
    hand (updateGameStatus order s) id = hand s id := by
  obtain ⟨b, hb⟩ := updateGameStatus_frame order s
  rw [hb]
  rfl

end GameStatus
