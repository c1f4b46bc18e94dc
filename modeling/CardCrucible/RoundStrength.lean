import CardCrucible.Strength

/-! # Round strength — the outcome of a round, told from the hands

    By induction on the run of a round: its winner is the one player of the
    greatest strength, it is drawn when several players share it, and a draw
    eliminates everybody who gives out against it.  When a draw leaves nobody
    the hands are in a `Stalemate`, and the redistribution has no end. -/

namespace RoundStrength

open Outcomes Arrangements Dictionaries CardModel DeckModel PlayerModel
open WarModel WarModel.War WarState WarTurn Comparisons WarRuns Spending
open Dealing Rounds GameStatus RoundLaws Ladders Strength

variable {Id : Type} [LinearOrder Id]

/-- Two players share the greatest strength. -/
def Drawn (s : War Id) : Prop :=
  ∃ a ∈ active s, ∃ b ∈ active s, a ≠ b ∧
    Tops (active s) (stakes s) a ∧ Tops (active s) (stakes s) b

/-- Two players share the greatest strength, and everybody else gives out
    against it. -/
def Stalemate (s : War Id) : Prop :=
  ∃ a ∈ active s, ∃ b ∈ active s, a ≠ b ∧
    Tops (active s) (stakes s) a ∧ Tops (active s) (stakes s) b ∧
    ∀ i ∈ active s, givesOut short (stakes s i) (stakes s a) = true

instance (s : War Id) : Decidable (Drawn s) :=
  inferInstanceAs (Decidable (∃ a ∈ active s, ∃ b ∈ active s, a ≠ b ∧
    Tops (active s) (stakes s) a ∧ Tops (active s) (stakes s) b))

instance (s : War Id) : Decidable (Stalemate s) :=
  inferInstanceAs (Decidable (∃ a ∈ active s, ∃ b ∈ active s, a ≠ b ∧
    Tops (active s) (stakes s) a ∧ Tops (active s) (stakes s) b ∧
    ∀ i ∈ active s, givesOut short (stakes s i) (stakes s a) = true))

/-! ## Wars -/

/-- Who wins or draws a war tops its ladder. -/
theorem war_tops {holders : List Id} {prizeCards : List Card} {s : War Id}
    {cs : List (Comparison Id)} {e : WarExit Id}
    (hrun : WarRun holders prizeCards s cs e) :
    (∃ w, e.thrown = none ∧ e.state.roundWinner = some w ∧
      ∀ id, Tops holders (warStakes s) id ↔ id = w) ∨
    (∃ ids, e.thrown = some (.draw ids) ∧
      ∀ id, Tops holders (warStakes s) id ↔ id ∈ ids) := by
  induction hrun with
  | @drawn holders prizeCards s hempty =>
      refine Or.inr ⟨holders, rfl, tops_of_nil ?_⟩
      intro k hk
      show warStrength (hand s k) = []
      rw [hempty k hk]
      rfl
  | @won holders prizeCards s rc w hrc hlead =>
      obtain ⟨g, hrung⟩ := rung_war s holders
      exact Or.inl ⟨w, rfl, rfl, hrung.tops_iff_eq hlead⟩
  | @again holders prizeCards s rc next cs e hrc hnd htwo hlead hrest ih =>
      obtain ⟨g, hrung⟩ := rung_war s holders
      have hne : ∃ k, k ∈ next := List.exists_mem_of_length_pos (by omega)
      have hstep := hrung.tops_iff hlead hne
      rcases ih with ⟨w, hnone, hw, htop⟩ | ⟨ids, hthrown, htop⟩
      · exact Or.inl ⟨w, hnone, hw, fun id => (hstep id).trans (htop id)⟩
      · exact Or.inr ⟨ids, hthrown, fun id => (hstep id).trans (htop id)⟩

/-- The players of a drawn war are the holders of the greatest strength. -/
theorem tops_of_draw {holders ids : List Id} {prizeCards : List Card}
    {s : War Id} {cs : List (Comparison Id)} {e : WarExit Id}
    (hrun : WarRun holders prizeCards s cs e)
    (hthrown : e.thrown = some (.draw ids)) (id : Id) :
    Tops holders (warStakes s) id ↔ id ∈ ids := by
  rcases war_tops hrun with ⟨w, hnone, -⟩ | ⟨ids', hthrown', htop⟩
  · rw [hnone] at hthrown
    simp at hthrown
  · rw [hthrown] at hthrown'
    rw [GameEvent.draw.inj (Option.some.inj hthrown')]
    exact htop id

/-- A war leaves whoever does not go on as the draws left it. -/
theorem inGame_of_notMem {holders : List Id} {prizeCards : List Card}
    {s : War Id} {cs : List (Comparison Id)} {e : WarExit Id}
    (hrun : WarRun holders prizeCards s cs e) (h : Holders s holders)
    {i : Id} (hi : i ∉ holders) : inGame e.state i = inGame s i := by
  obtain ⟨t, hwar⟩ := warSpent hrun h
  obtain ⟨-, hsame⟩ := hwar.spent.others i hi
  have ht : inGame t i = inGame s i := inGame_congr hsame
  rcases hwar.exit with ⟨w, -, -, -, hstate⟩ | ⟨ids, -, hstate⟩
  · rw [hstate, ← ht]
    exact inGame_payOut w e.prizeCards t i
  · rw [hstate, ← ht]
    rfl

/-- After the draws of a rung, a player who does not lead is out exactly when
    it gives out. -/
theorem out_of_rung {s : War Id} {need : Nat} {ids next : List Id}
    {f : Id → List Stake} {g : Card → Stake} (h : Rung s need ids f g)
    (hin : ∀ id ∈ ids, inGame s id = true)
    (hlead : ∀ id, id ∈ next ↔ LeadsTurn s need ids id) {i j : Id}
    (hi : i ∈ ids) (hni : i ∉ next) (hj : j ∈ next) :
    inGame (turn need ids s) i = false ↔
      givesOut short (f i) (f j) = true := by
  rw [h.givesOut_left hlead hi hni hj, ← Bool.not_eq_true,
    inGame_turn need ids s i]
  constructor
  · intro hnot
    exact not_le.mp (fun hle => hnot ⟨hin i hi, fun _ => hle⟩)
  · rintro hlt ⟨-, hle⟩
    exact absurd (hle hi) (not_le.mpr hlt)

/-- A drawn war eliminates exactly the holders who give out. -/
theorem war_left {holders : List Id} {prizeCards : List Card} {s : War Id}
    {cs : List (Comparison Id)} {e : WarExit Id}
    (hrun : WarRun holders prizeCards s cs e) :
    ∀ {ids : List Id}, Holders s holders → e.thrown = some (.draw ids) →
      ∀ i ∈ holders, ∀ j ∈ ids, inGame e.state i = false ↔
        givesOut short (warStakes s i) (warStakes s j) = true := by
  induction hrun with
  | @drawn holders prizeCards s hempty =>
      intro ids h he i hi j hj
      have hnil : warStakes s i = [] := by
        show warStrength (hand s i) = []
        rw [hempty i hi]
        rfl
      rw [hnil]
      have hout := isOut_turn_of_empty hi (h.inGame i hi) (hempty i hi)
      exact ⟨fun _ => rfl, fun _ => inGame_eq_false_of_isOut hout⟩
  | won hrc hlead => intro ids _ he; cases he
  | @again holders prizeCards s rc next cs e hrc hnd htwo hlead hrest ih =>
      intro ids h he i hi j hj
      have hnext := holders_next h hnd hlead
      obtain ⟨g, hrung⟩ := rung_war s holders
      have hjnext : j ∈ next := ((tops_of_draw hrest he j).mpr hj).1
      -- holders who go on meet again; the others are decided by this rung
      by_cases hinext : i ∈ next
      · rw [hrung.givesOut_next hlead hinext hjnext]
        exact ih hnext he i hinext j hj
      · rw [inGame_of_notMem hrest hnext hinext]
        exact out_of_rung hrung h.inGame hlead hi hinext hjnext

/-! ## Rounds -/

/-- The players of a drawn round are those of the greatest strength. -/
theorem draw_tops {s : War Id} {holders ids : List Id}
    {cs : List (Comparison Id)} {e : WarExit Id}
    (hlead : ∀ id, id ∈ holders ↔ LeadsRound s id)
    (hne : ∃ id, id ∈ holders)
    (hrun : WarRun holders (placedCards s) (afterPlacing s) cs e)
    (hthrown : e.thrown = some (.draw ids)) (id : Id) :
    Tops (active s) (stakes s) id ↔ id ∈ ids := by
  rw [(rung_round s).tops_iff hlead hne]
  exact tops_of_draw hrun hthrown id

/-- A drawn round eliminates exactly the players who give out. -/
theorem draw_left {s : War Id} {holders ids : List Id}
    {cs : List (Comparison Id)} {e : WarExit Id} (hnd : holders.Nodup)
    (hlead : ∀ id, id ∈ holders ↔ LeadsRound s id)
    (hrun : WarRun holders (placedCards s) (afterPlacing s) cs e)
    (hthrown : e.thrown = some (.draw ids))
    (hsub : ∀ id ∈ ids, id ∈ holders) {i j : Id} (hi : i ∈ active s)
    (hj : j ∈ ids) :
    inGame e.state i = false ↔
      givesOut short (stakes s i) (stakes s j) = true := by
  have hrung := rung_round s
  have hholders := holders_first hnd hlead
  by_cases hih : i ∈ holders
  · rw [hrung.givesOut_next hlead hih (hsub j hj)]
    exact war_left hrun hholders hthrown i hih j hj
  · rw [inGame_of_notMem hrun hholders hih]
    exact out_of_rung hrung (fun _ hk => mem_active.mp hk) hlead hi hih
      (hsub j hj)

omit [LinearOrder Id] in
/-- Two different members of a list without duplicates. -/
theorem exists_two {l : List Id} (hnd : l.Nodup) (htwo : 2 ≤ l.length) :
    ∃ a ∈ l, ∃ b ∈ l, a ≠ b := by
  obtain ⟨a, b, rest, rfl⟩ := exists_cons_cons htwo
  refine ⟨a, List.mem_cons_self, b,
    List.mem_cons_of_mem _ List.mem_cons_self, ?_⟩
  intro hab
  rw [hab] at hnd
  exact (List.nodup_cons.mp hnd).1 List.mem_cons_self

omit [LinearOrder Id] in
/-- A list of at least two has a member. -/
theorem exists_mem_of_two_le {l : List Id} (htwo : 2 ≤ l.length) :
    ∃ a, a ∈ l :=
  List.exists_mem_of_length_pos (by omega)

/-- Two of the players of a draw of the round share the greatest strength. -/
theorem two_tops_of_draw {s : War Id} {holders ids : List Id}
    {cs : List (Comparison Id)} {e : WarExit Id} (hnd : holders.Nodup)
    (htwo : 2 ≤ holders.length)
    (hlead : ∀ id, id ∈ holders ↔ LeadsRound s id)
    (hrun : WarRun holders (placedCards s) (afterPlacing s) cs e)
    (hthrown : e.thrown = some (.draw ids)) :
    ∃ a ∈ ids, ∃ b ∈ ids, a ≠ b ∧
      Tops (active s) (stakes s) a ∧ Tops (active s) (stakes s) b := by
  have hfacts := drawFacts hrun (holders_first hnd hlead) htwo hthrown
  have htop := draw_tops hlead (exists_mem_of_two_le htwo) hrun hthrown
  obtain ⟨a, ha, b, hb, hab⟩ := exists_two hfacts.nodup hfacts.two
  exact ⟨a, ha, b, hb, hab, (htop a).mpr ha, (htop b).mpr hb⟩

/-- A draw of the round is a draw of the hands before it. -/
theorem drawn_of_draw {s : War Id} {holders ids : List Id}
    {cs : List (Comparison Id)} {e : WarExit Id} (hnd : holders.Nodup)
    (htwo : 2 ≤ holders.length)
    (hlead : ∀ id, id ∈ holders ↔ LeadsRound s id)
    (hrun : WarRun holders (placedCards s) (afterPlacing s) cs e)
    (hthrown : e.thrown = some (.draw ids)) : Drawn s := by
  obtain ⟨a, -, b, -, hab, hta, htb⟩ :=
    two_tops_of_draw hnd htwo hlead hrun hthrown
  exact ⟨a, hta.1, b, htb.1, hab, hta, htb⟩

/-- A draw that leaves nobody is a stalemate of the hands before the round. -/
theorem stalemate_of_draw {s : War Id} {holders ids : List Id}
    {cs : List (Comparison Id)} {e : WarExit Id} (hnd : holders.Nodup)
    (htwo : 2 ≤ holders.length)
    (hlead : ∀ id, id ∈ holders ↔ LeadsRound s id)
    (hrun : WarRun holders (placedCards s) (afterPlacing s) cs e)
    (hthrown : e.thrown = some (.draw ids))
    (hnone : ∀ id, inGame e.state id = false) : Stalemate s := by
  have hfacts := drawFacts hrun (holders_first hnd hlead) htwo hthrown
  obtain ⟨a, ha, b, -, hab, hta, htb⟩ :=
    two_tops_of_draw hnd htwo hlead hrun hthrown
  exact ⟨a, hta.1, b, htb.1, hab, hta, htb, fun i hi =>
    (draw_left hnd hlead hrun hthrown hfacts.sub hi ha).mp (hnone i)⟩

/-- **Who wins a round**: the one player of the greatest strength, if only one
    has it; otherwise nobody does. -/
theorem round_tops {s s' : War Id} {cs : List (Comparison Id)}
    (hrun : RoundRun s cs s') :
    (∃ w, s'.roundWinner = some w ∧
      ∀ id, Tops (active s) (stakes s) id ↔ id = w) ∨
    (s'.roundWinner = none ∧ Drawn s) := by
  have hrung := rung_round s
  cases hrun with
  | @sole rc w hrc hlead =>
      exact Or.inl ⟨w, rfl, hrung.tops_iff_eq hlead⟩
  | @war rc holders cs e hrc hnd htwo hlead hrun hwon =>
      rcases war_tops hrun with ⟨w, -, hw, htop⟩ | ⟨ids, hthrown, -⟩
      · refine Or.inl ⟨w, hw, fun id => ?_⟩
        rw [hrung.tops_iff hlead ⟨w, ((htop w).mpr rfl).1⟩]
        exact htop id
      · rw [hwon] at hthrown
        simp at hthrown
  | @drawn rc holders ids cs e s' share hrc hnd htwo hlead hrun hthrown hleft
      hdealt =>
      refine Or.inr ⟨?_, drawn_of_draw hnd htwo hlead hrun hthrown⟩
      have hfacts := drawFacts hrun (holders_first hnd hlead) htwo hthrown
      rw [hdealt.state]
      exact hfacts.roundWinner

/-- One player cannot top alone and share the top. -/
theorem not_drawn_of_tops {s : War Id} {w : Id}
    (h : ∀ id, Tops (active s) (stakes s) id ↔ id = w) : ¬ Drawn s := by
  rintro ⟨a, -, b, -, hab, hta, htb⟩
  exact hab (((h a).mp hta).trans ((h b).mp htb).symm)

theorem Stalemate.drawn {s : War Id} (h : Stalemate s) : Drawn s := by
  obtain ⟨a, ha, b, hb, hab, hta, htb, -⟩ := h
  exact ⟨a, ha, b, hb, hab, hta, htb⟩

/-- A round that runs to its end does not start from a stalemate: a draw of it
    would leave nobody to deal the cards to. -/
theorem not_stalemate_of_run {s s' : War Id} {cs : List (Comparison Id)}
    (hrun : RoundRun s cs s') : ¬ Stalemate s := by
  intro hstale
  rcases round_tops hrun with ⟨w, -, htop⟩ | ⟨hnone, -⟩
  · exact not_drawn_of_tops htop hstale.drawn
  · cases hrun with
    | sole hrc hlead => simp at hnone
    | @war rc holders cs e hrc hnd htwo hlead hrun hwon =>
        rcases war_tops hrun with ⟨w, -, hw, -⟩ | ⟨ids, hthrown, -⟩
        · rw [hnone] at hw
          simp at hw
        · rw [hwon] at hthrown
          simp at hthrown
    | @drawn rc holders ids cs e s' share hrc hnd htwo hlead hrun hthrown
        hleft hdealt =>
        obtain ⟨a, -, b, -, -, hta, -, hall⟩ := hstale
        have hfacts := drawFacts hrun (holders_first hnd hlead) htwo hthrown
        have ha := (draw_tops hlead (exists_mem_of_two_le htwo) hrun hthrown
          a).mp hta
        -- whoever the draw leaves in the game has given out
        obtain ⟨i, hin⟩ := hleft
        have hi : i ∈ active s := by
          obtain ⟨t, hwar⟩ := warSpent hrun (holders_first hnd hlead)
          rw [hwar.of_thrown hthrown] at hin
          have hplaced := hwar.spent.inGame_of i hin
          exact mem_active.mpr
            ((inGame_turn 1 (active s) s i).mp hplaced).1
        have hout := (draw_left hnd hlead hrun hthrown hfacts.sub hi ha).mpr
          (hall i hi)
        rw [hin] at hout
        simp at hout

/-- **When a round returns**: exactly when the hands before it are not in a
    stalemate. -/
theorem returns_iff {s : War Id} (hwf : WellFormed s) (hlive : Live s)
    (o : Schedule Id) :
    (∃ fuel s', startRound fuel o s = .done s') ↔ ¬ Stalemate s := by
  constructor
  · rintro ⟨fuel, s', h⟩
    obtain ⟨t, hrun, -⟩ := startRound_inv hwf h
    exact not_stalemate_of_run hrun
  · intro hstale
    refine startRound_returns hwf hlive o ?_
    intro holders cs e ids hnd htwo hlead hrun hthrown
    by_contra hno
    refine hstale (stalemate_of_draw hnd htwo hlead hrun hthrown ?_)
    exact fun id => Bool.eq_false_iff.mpr (fun hin => hno ⟨id, hin⟩)

end RoundStrength
