import CardCrucible.Lifecycle

/-! # Walkovers — games that are decided by the deal

    Nothing in the rules bounds the length of a game.  But if one player's
    cards outrank those of everybody else place by place, for as long as
    anybody else has a card, every round has a sole winner and the game is
    over after exactly one round more than the longest other hand has cards:
    that round finds the others without a card and eliminates them. -/

namespace Walkovers

open Outcomes Arrangements Dictionaries CardModel DeckModel PlayerModel
open WarModel WarModel.War WarState WarTurn Comparisons Spending Dealing
open Rounds GameStatus RoundLaws Conservation Games Lifecycle

variable {Id : Type} [LinearOrder Id]

/-- The next card of `w` outranks the next card of everybody else. -/
def Ahead (s : War Id) (w : Id) (card : Card) (rest : List Card) : Prop :=
  hand s w = card :: rest ∧
    ∀ id, id ≠ w → inGame s id = true →
      ∀ d, (hand s id)[0]? = some d → d.rank < card.rank

/-- Place by place `w` outranks everybody else, whose longest hand has `m`
    cards. -/
structure Walkover (s : War Id) (w : Id) (m : Nat) : Prop where
  stays : inGame s w = true
  nonempty : hand s w ≠ []
  beats : ∀ r < m, ∃ c, (hand s w)[r]? = some c ∧
    ∀ id, id ≠ w → inGame s id = true →
      ∀ d, (hand s id)[r]? = some d → d.rank < c.rank
  short : ∀ id, id ≠ w → inGame s id = true →
    (hand s id).length ≤ m
  longest : ∃ id, id ≠ w ∧ inGame s id = true ∧
    (hand s id).length = m

/-! ## A round with one player ahead -/

section Round

variable {s : War Id} {w : Id} {card : Card} {rest : List Card}

/-- Whoever is ahead leads alone. -/
theorem leads_iff_of_ahead (hin : inGame s w = true)
    (h : Ahead s w card rest) (id : Id) : LeadsRound s id ↔ id = w := by
  obtain ⟨hhand, hlow⟩ := h
  have hshow : shows s 1 w = some card := by
    simp only [shows]
    rw [hhand]
    rfl
  constructor
  · rintro ⟨hid, d, hd, hmax⟩
    by_contra hne
    have hlt := hlow id hne (mem_active.mp hid) d hd
    exact absurd (hmax w (mem_active.mpr hin) card hshow) (not_le.mpr hlt)
  · intro heq
    rw [heq]
    refine ⟨mem_active.mpr hin, card, hshow, ?_⟩
    intro k hk d hd
    by_cases hne : k = w
    · rw [hne] at hd
      rw [Option.some.inj (hshow.symm.trans hd)]
    · exact le_of_lt (hlow k hne (mem_active.mp hk) d hd)

/-- The table after a round with one player ahead. -/
def collected (s : War Id) (w : Id) : War Id :=
  { payOut w (placedCards s) (afterPlacing s) with roundWinner := some w }

/-- **A player who is ahead collects**, whatever the iteration orders, and the
    round needs no fuel. -/
theorem startRound_of_ahead (hwf : WellFormed s) (hin : inGame s w = true)
    (h : Ahead s w card rest) (fuel : Nat) (o : Schedule Id) :
    startRound fuel o s
      = .done ((collected s w).updateGameStatus o.players) := by
  have hlead := leads_iff_of_ahead hin h
  have hlive : Live s := ⟨w, hin, by rw [h.1]; simp⟩
  obtain ⟨rc, holders, -, hnd, hne, hholders, heq⟩ := startRound_eq hwf hlive o
  have hmem : ∀ id, id ∈ holders ↔ id = w :=
    fun id => (hholders id).trans (hlead id)
  have hsole : holders = [w] := by
    refine List.perm_singleton.mp ?_
    refine (List.perm_ext_iff_of_nodup hnd (List.nodup_singleton w)).mpr ?_
    intro id
    rw [hmem, List.mem_singleton]
  rw [(heq fuel).1, hsole, settleRound_sole hwf ((hlead w).mpr rfl)]
  rfl

theorem inGame_collected (h : Ahead s w card rest) (id : Id) :
    inGame (collected s w) id = true ↔
      inGame s id = true ∧ (id = w ∨ hand s id ≠ []) := by
  show inGame (payOut w _ (afterPlacing s)) id = true ↔ _
  rw [inGame_payOut]
  show inGame (turn 1 (active s) s) id = true ↔ _
  rw [inGame_turn]
  refine and_congr_right (fun hid => ?_)
  constructor
  · intro hlen
    have hpos := hlen (mem_active.mpr hid)
    refine Or.inr (fun hnil => ?_)
    rw [hnil] at hpos
    exact absurd hpos (by simp)
  · rintro (heq | hne) -
    · rw [heq, h.1]
      simp
    · exact List.length_pos_iff.mpr hne

theorem hand_collected_of_ne {id : Id} (hne : id ≠ w)
    (hid : inGame s id = true) :
    hand (collected s w) id = (hand s id).drop 1 := by
  show hand (payOut w _ (afterPlacing s)) id = _
  rw [hand_payOut_of_ne _ _ hne]
  show hand (turn 1 (active s) s) id = _
  rw [hand_turn, if_pos (mem_active.mpr hid)]

theorem hand_collected_self (hin : inGame s w = true)
    (h : Ahead s w card rest) :
    hand (collected s w) w = rest ++ placedCards s := by
  have hin' : inGame (afterPlacing s) w = true := by
    show inGame (turn 1 (active s) s) w = true
    rw [inGame_turn]
    refine ⟨hin, fun _ => ?_⟩
    rw [h.1]
    simp
  show hand (payOut w _ (afterPlacing s)) w = _
  rw [hand_payOut_self _ hin']
  show hand (turn 1 (active s) s) w ++ _ = _
  rw [hand_turn, if_pos (mem_active.mpr hin), h.1]
  rfl

/-- The winner's own card is among the cards placed. -/
theorem placedCards_ne_nil (hin : inGame s w = true)
    (h : Ahead s w card rest) : placedCards s ≠ [] := by
  have hmem : card ∈ placedCards s := by
    refine List.mem_flatMap.mpr ⟨w, mem_active.mpr hin, ?_⟩
    simp only [pile]
    rw [h.1]
    exact List.mem_cons_self
  exact List.ne_nil_of_mem hmem

end Round

/-! ## Walkovers -/

namespace Walkover

variable {s : War Id} {w : Id} {m : Nat}

/-- In a walkover `w` is ahead, in its last round as well. -/
theorem ahead (h : Walkover s w m) :
    ∃ card rest, Ahead s w card rest := by
  obtain ⟨card, rest, hhand⟩ := List.exists_cons_of_ne_nil h.nonempty
  refine ⟨card, rest, hhand, ?_⟩
  intro id hne hid d hd
  have hlen := h.short id hne hid
  have hpos := (List.getElem?_eq_some_iff.mp hd).1
  obtain ⟨c, hc, hlow⟩ := h.beats 0 (by omega)
  rw [hhand] at hc
  have hcard : card = c := Option.some.inj hc
  rw [hcard]
  exact hlow id hne hid d hd

/-- **A round of a walkover** leaves a walkover of one card less. -/
theorem next (h : Walkover s w (m + 1)) : Walkover (collected s w) w m := by
  obtain ⟨card, rest, hahead⟩ := h.ahead
  have hself := hand_collected_self h.stays hahead
  have hin := inGame_collected hahead
  refine ⟨(hin w).mpr ⟨h.stays, Or.inl rfl⟩, ?_, ?_, ?_, ?_⟩
  · rw [hself]
    exact List.append_ne_nil_of_right_ne_nil _
      (placedCards_ne_nil h.stays hahead)
  · intro r hr
    obtain ⟨c, hc, hlow⟩ := h.beats (r + 1) (by omega)
    refine ⟨c, ?_, ?_⟩
    · -- the cards won come after the cards that decide
      rw [hahead.1] at hc
      have hrest : rest[r]? = some c := hc
      rw [hself, List.getElem?_append_left
        (List.getElem?_eq_some_iff.mp hrest).1]
      exact hrest
    · intro id hne hid d hd
      have hids := ((hin id).mp hid).1
      rw [hand_collected_of_ne hne hids, List.getElem?_drop,
        Nat.add_comm] at hd
      exact hlow id hne hids d hd
  · intro id hne hid
    have hids := ((hin id).mp hid).1
    have hlen := h.short id hne hids
    rw [hand_collected_of_ne hne hids, List.length_drop]
    omega
  · obtain ⟨id, hne, hids, hlen⟩ := h.longest
    refine ⟨id, hne, ?_, ?_⟩
    · refine (hin id).mpr ⟨hids, Or.inr (fun hnil => ?_)⟩
      rw [hnil] at hlen
      simp at hlen
    · rw [hand_collected_of_ne hne hids, List.length_drop, hlen]
      rfl

/-- The last round finds nobody else with a card. -/
theorem sole (h : Walkover s w 0) (id : Id) :
    inGame (collected s w) id = true ↔ id = w := by
  obtain ⟨card, rest, hahead⟩ := h.ahead
  rw [inGame_collected hahead]
  constructor
  · rintro ⟨hid, heq | hne⟩
    · exact heq
    · by_contra hw
      have hlen := h.short id hw hid
      exact hne (List.length_eq_zero_iff.mp (by omega))
  · intro heq
    rw [heq]
    exact ⟨h.stays, Or.inl rfl⟩

/-- Until then the game is not over. -/
theorem not_sole (h : Walkover s w m) : (survivors s).length ≠ 1 := by
  intro hone
  obtain ⟨id, hne, hin, -⟩ := h.longest
  obtain ⟨k, hk⟩ := List.length_eq_one_iff.mp hone
  have hmem : ∀ j, inGame s j = true → j = k := by
    intro j hj
    have hin := mem_survivors.mpr hj
    rw [hk] at hin
    exact List.mem_singleton.mp hin
  exact hne ((hmem id hin).trans (hmem w h.stays).symm)

/-- What a round of a walkover comes to. -/
theorem round_eq (h : Walkover s w m) (hwf : WellFormed s) (fuel : Nat)
    (o : Schedule Id) :
    startRound fuel o s = .done { collected s w with
      gameover := s.gameover
        || decide ((survivors (collected s w)).length = 1) } := by
  obtain ⟨card, rest, hahead⟩ := h.ahead
  have hkeys : (collected s w).players.keys ≠ [] := by
    refine List.ne_nil_of_mem (a := w) ?_
    exact mem_keys_of_inGame
      ((inGame_collected hahead w).mpr ⟨h.stays, Or.inl rfl⟩)
  rw [startRound_of_ahead hwf h.stays hahead, updateGameStatus_eq hkeys]
  rfl

end Walkover

/-! ## The whole game -/

/-- A registered winner can be announced. -/
theorem announceWinner_of_inGame {s : War Id} {w : Id}
    (hw : s.roundWinner = some w) (hin : inGame s w = true) :
    s.announceWinner = .done () := by
  obtain ⟨v, hv⟩ := Dictionary.mem_keys.mp (mem_keys_of_inGame hin)
  simp only [announceWinner]
  simp only [hw, hv]

/-- One turn of the loop. -/
theorem gameLoop_succ {fuel : Nat} {os : Nat → Schedule Id} {s t : War Id}
    (hover : s.gameover = false) (hround : startRound fuel (os 0) s = .done t)
    (hann : t.announceWinner = .done ()) (rounds : Nat) :
    gameLoop fuel (rounds + 1) os s
      = gameLoop fuel rounds (fun n => os (n + 1)) t := by
  simp only [gameLoop, hover, Bool.false_eq_true, if_false, hround,
    Outcome.done_bind, hann]

/-- **The loop of a walkover** plays one round more than the longest other
    hand has cards. -/
theorem gameLoop_walkover {w : Id} (m : Nat) :
    ∀ {s : War Id}, WellFormed s → s.gameover = false → Walkover s w m →
      ∀ (fuel : Nat) (os : Nat → Schedule Id),
      ∃ t, playRounds fuel os (m + 1) s = .done t ∧
        t.roundWinner = some w ∧ (∀ id, inGame t id = true ↔ id = w) ∧
        gameLoop fuel (m + 2) os s = .done t ∧
        ∀ rounds, rounds < m + 2 → gameLoop fuel rounds os s = .outOfFuel := by
  induction m with
  | zero =>
      intro s hwf hover h fuel os
      have hround := h.round_eq hwf fuel (os 0)
      have hone : (survivors (collected s w)).length = 1 := by
        refine List.length_eq_one_iff.mpr ⟨w, List.perm_singleton.mp ?_⟩
        refine (List.perm_ext_iff_of_nodup (nodup_survivors _)
          (List.nodup_singleton w)).mpr ?_
        intro id
        rw [mem_survivors, h.sole, List.mem_singleton]
      rw [hover, decide_eq_true hone, Bool.false_or] at hround
      have hann := announceWinner_of_inGame (w := w)
        (s := { collected s w with gameover := true }) rfl
        ((h.sole w).mpr rfl)
      have hturn := gameLoop_succ hover hround hann
      refine ⟨_, hround, rfl, h.sole, hturn 1, ?_⟩
      intro rounds hrounds
      cases rounds with
      | zero => rfl
      | succ rounds =>
          have hzero : rounds = 0 := by omega
          rw [hturn, hzero]
          rfl
  | succ m ih =>
      intro s hwf hover h fuel os
      have hround := h.round_eq hwf fuel (os 0)
      have hnext := h.next
      rw [hover, decide_eq_false hnext.not_sole, Bool.false_or] at hround
      have hann := announceWinner_of_inGame (w := w)
        (s := { collected s w with gameover := false }) rfl hnext.stays
      have hwf' := wellFormed_startRound hwf hround
      obtain ⟨t, hplay, hwin, hsole, hloop, hless⟩ :=
        ih (s := { collected s w with gameover := false }) hwf' rfl
          ⟨hnext.stays, hnext.nonempty, hnext.beats, hnext.short,
            hnext.longest⟩ fuel (fun n => os (n + 1))
      have hturn := gameLoop_succ hover hround hann
      refine ⟨t, ?_, hwin, hsole, (hturn _).trans hloop, ?_⟩
      · rw [playRounds_succ, hround]
        exact hplay
      · intro rounds hrounds
        cases rounds with
        | zero => rfl
        | succ rounds => exact (hturn rounds).trans (hless rounds (by omega))

/-- **A walkover is over in time**: if the deal puts `w` ahead of everybody
    else place by place, and the longest other hand has `m` cards, the game
    plays exactly `m + 1` rounds, whatever the iteration orders; then `w` is
    announced and has all the cards of the game. -/
theorem startGame_walkover {s₀ d : War Id} (hready : Ready s₀) {fuel : Nat}
    (hdeal : dealCards fuel s₀ = .done d) {w : Id} {m : Nat}
    (h : Walkover d w m) (os : Nat → Schedule Id) :
    ∃ t p, t.tournamentPlayer? w = some p ∧
      startGame fuel (m + 2) os s₀
        = .done (t, "The game is over. The winner is " ++ p.name) ∧
      (hand t w : Multiset Card) = allCards s₀ ∧
      (∀ id, id ≠ w → hand t id = []) ∧
      ∀ rounds, rounds < m + 2 →
        startGame fuel rounds os s₀ = .outOfFuel := by
  have hreach : Reaches s₀ d := .dealt hdeal
  have hwf := hreach.wellFormed hready.wellFormed
  obtain ⟨t, hplay, hwin, hsole, hloop, hless⟩ :=
    gameLoop_walkover m hwf (hready.running_dealt hdeal) h fuel os
  have htwo : 1 < s₀.numPlayers := by
    have hlen : (survivors s₀).length ≤ s₀.players.keys.length :=
      List.length_filter_le _ _
    have hnum : s₀.players.keys.length = s₀.numPlayers :=
      s₀.players.length_keys
    have htwo := hready.two
    omega
  have hstart : ∀ rounds, startGame fuel rounds os s₀
      = (gameLoop fuel rounds os d >>= fun s =>
          s.announcement >>= fun line => .done (s, line)) := by
    intro rounds
    simp only [startGame]
    rw [if_pos htwo, hdeal]
    rfl
  have hreach' := playRounds_reaches hreach hplay
  have hsurv : survivors t = [w] := by
    refine List.perm_singleton.mp ?_
    refine (List.perm_ext_iff_of_nodup (nodup_survivors _)
      (List.nodup_singleton w)).mpr ?_
    intro id
    rw [mem_survivors, hsole, List.mem_singleton]
  obtain ⟨hall, hothers⟩ := hand_of_sole hready hreach' hsurv
  obtain ⟨p, hp, -⟩ := inGame_iff.mp ((hsole w).mpr rfl)
  have hget := (hreach'.wellFormed hready.wellFormed).get?_eq w
  rw [hp] at hget
  have hline : t.announcement
      = .done ("The game is over. The winner is " ++ p.name) := by
    simp only [announcement]
    simp only [hwin, hget, Option.map_some]
    rfl
  refine ⟨t, p, hp, ?_, hall, hothers, ?_⟩
  · rw [hstart, hloop, Outcome.done_bind, hline]
    rfl
  · intro rounds hrounds
    rw [hstart, hless rounds hrounds]
    rfl

/-- Two players who bring an ace and a three, with a king and a two to be
    dealt. -/
def walkoverTable : War String :=
  { Games.table [("A", cardsAt [48]), ("B", cardsAt [4])] with
    gameDeck := ⟨cardsAt [44, 0], AllowedNumSubDecks.wrap 1⟩ }

/-- The same players after the deal. -/
def walkoverDealt : War String :=
  Games.table [("A", cardsAt [48, 44]), ("B", cardsAt [4, 0])]

theorem walkover_dealt : Walkover walkoverDealt "A" 2 := by
  have hB : ∀ id, id ≠ "A" → inGame walkoverDealt id = true → id = "B" := by
    intro id hne hin
    have hmem : id ∈ ["A", "B"] := mem_keys_of_inGame hin
    rw [List.mem_cons, List.mem_singleton] at hmem
    exact hmem.resolve_left hne
  refine ⟨by decide, by decide, ?_, ?_, ⟨"B", by decide, by decide, by decide⟩⟩
  · intro r hr
    have hlow : ∀ r < 2, ∃ c ∈ cardsAt [48, 44],
        (hand walkoverDealt "A")[r]? = some c ∧
          ∀ d ∈ cardsAt [4, 0],
            (hand walkoverDealt "B")[r]? = some d → d.rank < c.rank := by
      decide
    obtain ⟨c, -, hc, hlow⟩ := hlow r hr
    refine ⟨c, hc, ?_⟩
    intro id hne hin d hd
    rw [hB id hne hin] at hd
    exact hlow d (List.mem_of_getElem? hd) hd
  · intro id hne hin
    rw [hB id hne hin]
    decide

theorem startGame_walkover_two :
    ∃ t p, t.tournamentPlayer? "A" = some p ∧
      startGame 5 4 (fun _ => inOrder) walkoverTable
        = .done (t, "The game is over. The winner is " ++ p.name) ∧
      (hand t "A" : Multiset Card) = allCards walkoverTable := by
  have hready : Ready walkoverTable :=
    ⟨by decide, by decide, by decide, rfl⟩
  have hdeal : dealCards 5 walkoverTable = .done walkoverDealt := by
    decide +kernel
  obtain ⟨t, p, hp, hline, hall, -, -⟩ :=
    startGame_walkover hready hdeal walkover_dealt (fun _ => inOrder)
  exact ⟨t, p, hp, hline, hall⟩

end Walkovers
