import CardCrucible.Costs
import CardCrucible.Deals

/-! # The rules — War, told from the hands alone

    A position is who plays and what everybody holds.  In a round the player
    of the greatest strength wins: everybody puts down what its climb costs,
    the winner takes the pot in some order, and whoever gives out stops
    playing.  If several share the greatest strength, the pot is dealt to those
    who do not give out.  A game goes on until one player is left.

    There are no wars, no participants, no flags and no iteration orders in
    these rules.  The code follows them round by round, and returns from a
    round exactly if they allow one. -/

namespace Rules

open Outcomes Arrangements Dictionaries CardModel DeckModel PlayerModel
open WarModel WarModel.War WarState WarTurn Comparisons Spending Dealing
open Rounds GameStatus RoundLaws Games Ladders Climbs Strength RoundStrength
open RoundRobin Payout Costs Deals

variable {Id : Type}

/-- A position: who plays, by increasing id, and what everybody holds. -/
@[ext] structure Position (Id : Type) where
  playing : List Id
  hand : Id → List Card

namespace Position

/-- The stakes of a player. -/
def worth (T : Position Id) (p : Id) : List Stake := strength (T.hand p)

/-- A player of the greatest strength. -/
def Best (T : Position Id) (p : Id) : Prop := Tops T.playing T.worth p

/-- Whether a player gives out against the greatest strength. -/
def falls (T : Position Id) (t p : Id) : Bool :=
  givesOut short (T.worth p) (T.worth t)

/-- Those who do not. -/
def staying (T : Position Id) (t : Id) : List Id :=
  T.playing.filter (fun p => !T.falls t p)

variable [DecidableEq Id]

/-- The number of cards a player puts down. -/
def cost (T : Position Id) (t p : Id) : Nat :=
  if p ∈ T.playing then 1 + 2 * climb T.playing T.worth t p else 0

def put (T : Position Id) (t p : Id) : List Card :=
  (T.hand p).take (T.cost t p)

def kept (T : Position Id) (t p : Id) : List Card :=
  (T.hand p).drop (T.cost t p)

/-- The pot has what everybody puts down, in some order. -/
def IsPot (T : Position Id) (t : Id) (pot : List Card) : Prop :=
  pot.Perm (T.playing.flatMap (T.put t))

/-- A round, with its winner if there is one. -/
inductive Round (T : Position Id) : Option Id → Position Id → Prop where
  | won {w : Id} {pot : List Card} (hbest : ∀ p, T.Best p ↔ p = w)
      (hcard : T.hand w ≠ []) (hpot : T.IsPot w pot) :
      Round T (some w)
        ⟨T.playing.filter (fun p => decide (p = w) || !T.falls w p),
          fun p => T.kept w p ++ if p = w then pot else []⟩
  | drawn {t u : Id} {pot : List Card} {share : Id → List Card}
      (ht : T.Best t) (hu : T.Best u) (hne : t ≠ u) (hpot : T.IsPot t pot)
      (hleft : T.staying t ≠ [])
      (hdealt : DealtFrom pot (T.staying t) share)
      (hothers : ∀ p, p ∉ T.staying t → share p = []) :
      Round T none ⟨T.staying t, fun p => T.kept t p ++ share p⟩

/-- A game: rounds between two players or more, until one is left. -/
inductive Game : Position Id → Option Id → Position Id → Prop where
  | last {T T' : Position Id} {w : Option Id} (htwo : 2 ≤ T.playing.length)
      (hround : T.Round w T') (hone : T'.playing.length = 1) : Game T w T'
  | more {T T' T'' : Position Id} {v w : Option Id}
      (htwo : 2 ≤ T.playing.length) (hround : T.Round v T')
      (hrest : Game T' w T'') : Game T w T''

/-! ## The rules determine a round up to the order of the pot -/

section Determined

variable {T : Position Id} {t u v : Id}

/-- It does not matter which of those who share the top is looked at. -/
theorem put_of_shared (ht : T.Best t) (hu : T.Best u) (htu : t ≠ u)
    (hv : T.Best v) : T.cost v = T.cost t := by
  -- whoever it is, somebody else has the same worth
  have hshared : ∀ {a : Id}, T.Best a → ∃ b ∈ T.playing, b ≠ a ∧
      T.worth b = T.worth a := by
    intro a ha
    by_cases hta : t = a
    · rw [← hta]
      exact ⟨u, hu.1, htu.symm, hu.eq ht⟩
    · exact ⟨t, ht.1, hta, ht.eq ha⟩
  obtain ⟨b, hb, hbt, hbworth⟩ := hshared ht
  obtain ⟨c, hc, hcv, hcworth⟩ := hshared hv
  funext p
  simp only [cost]
  rw [climb_of_shared hb hbt hbworth, climb_of_shared hc hcv hcworth,
    hv.eq ht]

theorem length_pot {pot pot' : List Card} (hpot : T.IsPot t pot)
    (hpot' : T.IsPot t pot') : pot.length = pot'.length :=
  (hpot.trans hpot'.symm).length_eq

/-- **The order of the pot is all that is open**: two rounds from a position
    have the same winner, leave the same players and hands of the same sizes,
    and if one is won, the same hands but for the winner's. -/
theorem Round.determined {w w' : Option Id} {T₁ T₂ : Position Id}
    (h : T.Round w T₁) (h' : T.Round w' T₂) :
    w = w' ∧ T₁.playing = T₂.playing ∧
      ∀ p, (T₁.hand p).length = (T₂.hand p).length ∧
        (w ≠ none → w ≠ some p → T₁.hand p = T₂.hand p) := by
  cases h with
  | @won a pot hbest hcard hpot =>
      cases h' with
      | @won b pot' hbest' hcard' hpot' =>
          have hba := (hbest b).mp ((hbest' b).mpr rfl)
          subst hba
          refine ⟨rfl, rfl, fun p => ⟨?_, fun _ hne => ?_⟩⟩
          · show (T.kept b p ++ if p = b then pot else []).length
              = (T.kept b p ++ if p = b then pot' else []).length
            rw [List.length_append, List.length_append]
            by_cases hp : p = b
            · rw [if_pos hp, if_pos hp, length_pot hpot hpot']
            · rw [if_neg hp, if_neg hp]
          · have hp : ¬ p = b := fun heq => hne (by rw [heq])
            show (T.kept b p ++ if p = b then pot else [])
              = T.kept b p ++ if p = b then pot' else []
            rw [if_neg hp, if_neg hp]
      | @drawn t' u' pot' share' ht' hu' hne' hpot' hleft' hdealt' hothers' =>
          exact absurd (((hbest t').mp ht').trans ((hbest u').mp hu').symm)
            hne'
  | @drawn t u pot share ht hu hne hpot hleft hdealt hothers =>
      cases h' with
      | @won b pot' hbest' hcard' hpot' =>
          exact absurd (((hbest' t).mp ht).trans ((hbest' u).mp hu).symm) hne
      | @drawn t' u' pot' share' ht' hu' hne' hpot' hleft' hdealt' hothers' =>
          have hcost := put_of_shared ht hu hne ht'
          have hput : T.put t' = T.put t := by
            funext p
            simp only [put]
            rw [hcost]
          have hstay : T.staying t' = T.staying t := by
            simp only [staying, falls]
            rw [ht'.eq ht]
          have hpots : pot'.length = pot.length := by
            refine length_pot (T := T) (t := t) ?_ hpot
            simp only [IsPot] at hpot' ⊢
            rw [← hput]
            exact hpot'
          refine ⟨rfl, hstay.symm, fun p => ⟨?_, fun hn => absurd rfl hn⟩⟩
          show (T.kept t p ++ share p).length = (T.kept t' p ++ share' p).length
          simp only [kept]
          rw [hcost, List.length_append, List.length_append]
          congr 1
          by_cases hp : p ∈ T.staying t
          · obtain ⟨j, hj⟩ := List.mem_iff_getElem?.mp hp
            have hlt := (List.getElem?_eq_some_iff.mp hj).1
            rw [hstay] at hdealt'
            rw [length_eq_of_everyKth hlt (hdealt j p hj),
              length_eq_of_everyKth hlt (hdealt' j p hj), hpots]
          · rw [hothers p hp, hothers' p (by rw [hstay]; exact hp)]

end Determined

end Position

open Position

variable [LinearOrder Id]

/-- The position of a table. -/
def position (s : War Id) : Position Id := ⟨receivers s, hand s⟩

theorem mem_playing {s : War Id} {id : Id} :
    id ∈ (position s).playing ↔ inGame s id = true := mem_receivers

theorem mem_active_iff {s : War Id} (id : Id) :
    id ∈ active s ↔ id ∈ (position s).playing :=
  mem_active.trans mem_receivers.symm

theorem best_iff {s : War Id} {id : Id} :
    (position s).Best id ↔ Tops (active s) (stakes s) id := by
  simp only [Best, Tops]
  rw [← mem_active_iff]
  refine and_congr_right (fun _ => ?_)
  constructor
  · exact fun h k hk => h k ((mem_active_iff k).mp hk)
  · exact fun h k hk => h k ((mem_active_iff k).mpr hk)

theorem length_playing (s : War Id) :
    (position s).playing.length = (survivors s).length := by
  have hnd : (position s).playing.Nodup :=
    (receivers_sorted s).imp (fun h => ne_of_lt h)
  refine List.Perm.length_eq ?_
  refine (List.perm_ext_iff_of_nodup hnd (nodup_survivors s)).mpr ?_
  intro id
  rw [mem_playing, mem_survivors]

/-! ## A round follows the rules -/

section Round

variable {s s' t : War Id} {cs : List (Comparison Id)}
variable {prizeCards : List Card} {w : Id}

/-- What a player puts down is what its climb costs. -/
theorem playedIn_eq_put (hrun : RoundRun s cs s')
    (hspent : RoundSpent s cs s' t prizeCards)
    (hbest : (position s).Best w) (id : Id) :
    playedIn cs id = (position s).put w id := by
  have htop := best_iff.mp hbest
  by_cases hid : id ∈ active s
  · rw [round_costs hrun htop id hid]
    simp only [put, cost]
    rw [if_pos ((mem_active_iff id).mp hid),
      climb_congr mem_active_iff htop.1 hid (fun _ _ => rfl)]
    rfl
  · rw [(hspent.spent.others id hid).1]
    simp only [put, cost]
    rw [if_neg (fun h => hid ((mem_active_iff id).mpr h)), List.take_zero]

/-- The cards put down make up the pot. -/
theorem isPot_prizeCards (hrun : RoundRun s cs s')
    (hspent : RoundSpent s cs s' t prizeCards)
    (hbest : (position s).Best w) : (position s).IsPot w prizeCards := by
  have hput : (position s).put w = playedIn cs :=
    funext (fun id => (playedIn_eq_put hrun hspent hbest id).symm)
  have hnd : (position s).playing.Nodup :=
    (receivers_sorted s).imp (fun h => ne_of_lt h)
  have hsame : (position s).playing.toFinset = (active s).toFinset := by
    ext id
    rw [List.mem_toFinset, List.mem_toFinset, mem_active_iff]
  simp only [IsPot]
  rw [hput, ← Multiset.coe_eq_coe, hspent.prize, coe_flatMap hnd, hsame]

/-- What is left of a hand before the payout. -/
theorem hand_exit (hrun : RoundRun s cs s')
    (hspent : RoundSpent s cs s' t prizeCards)
    (hbest : (position s).Best w) (id : Id) :
    hand t id = (position s).kept w id := by
  have hput := playedIn_eq_put hrun hspent hbest id
  have hhand : hand s id = (position s).put w id ++ hand t id := by
    rw [← hput]
    exact hspent.spent.hand_eq id
  have hsplit : hand s id
      = (position s).put w id ++ (position s).kept w id :=
    (List.take_append_drop _ _).symm
  exact List.append_cancel_left (hhand.symm.trans hsplit)

/-- Who plays on. -/
theorem playing_eq (hrun : RoundRun s cs s')
    (hspent : RoundSpent s cs s' t prizeCards)
    (hbest : (position s).Best w) :
    (position s').playing = (position s).playing.filter
      (fun p => decide (s'.roundWinner = some p)
        || !(position s).falls w p) := by
  have htop := best_iff.mp hbest
  simp only [position, receivers]
  rw [hspent.keys_eq, List.filter_filter]
  refine List.filter_congr (fun id _ => ?_)
  cases hin : inGame s id with
  | false =>
      have hout : inGame s' id = false := by
        refine Bool.eq_false_iff.mpr (fun h => ?_)
        rw [hspent.inGame_of h] at hin
        cases hin
      rw [hout, Bool.and_false]
  | true =>
      have hleft := round_left hrun htop (mem_active.mpr hin)
      rw [Bool.and_true]
      by_cases hw : s'.roundWinner = some id
      · rw [decide_eq_true hw, Bool.true_or]
        refine Bool.eq_true_of_not_eq_false (fun h => ?_)
        exact (hleft.mp h).1 hw
      · rw [decide_eq_false hw, Bool.false_or]
        show inGame s' id = !givesOut short (stakes s id) (stakes s w)
        cases hgives : givesOut short (stakes s id) (stakes s w) with
        | true => exact hleft.mpr ⟨hw, hgives⟩
        | false =>
            refine Bool.eq_true_of_not_eq_false (fun h => ?_)
            rw [(hleft.mp h).2] at hgives
            cases hgives

/-- The position a won round leaves. -/
theorem position_won (hrun : RoundRun s cs s')
    (hspent : RoundSpent s cs s' t prizeCards)
    (hbest : (position s).Best w) (hw : s'.roundWinner = some w) :
    position s'
      = ⟨(position s).playing.filter
          (fun p => decide (p = w) || !(position s).falls w p),
        fun p => (position s).kept w p ++ if p = w then prizeCards else []⟩ := by
  obtain ⟨hin, hpaid⟩ := hspent.of_roundWinner hw
  refine Position.ext ?_ ?_
  · rw [playing_eq hrun hspent hbest, hw]
    refine List.filter_congr (fun p _ => ?_)
    congr 1
    rw [decide_eq_decide]
    exact ⟨fun h => (Option.some.inj h).symm, fun h => by rw [h]⟩
  · funext p
    show hand s' p
      = (position s).kept w p ++ if p = w then prizeCards else []
    rw [hpaid, ← hand_exit hrun hspent hbest]
    by_cases hp : p = w
    · rw [if_pos hp, hp]
      exact hand_payOut_self prizeCards hin
    · rw [if_neg hp, List.append_nil]
      exact hand_payOut_of_ne prizeCards t hp

/-- Those who stay after a drawn round. -/
theorem playing_drawn (hrun : RoundRun s cs s')
    (hspent : RoundSpent s cs s' t prizeCards)
    (hbest : (position s).Best w) (hnone : s'.roundWinner = none) :
    (position s').playing = (position s).staying w := by
  rw [playing_eq hrun hspent hbest, hnone]
  rfl

/-- The position a drawn round leaves, once the pot is dealt. -/
theorem position_drawn (hrun : RoundRun s cs s')
    (hspent : RoundSpent s cs s' t prizeCards)
    (hbest : (position s).Best w) (hnone : s'.roundWinner = none)
    {share : Id → List Card}
    (hdealt : Dealt (drawnTable t prizeCards) s' share []) :
    position s' = ⟨(position s).staying w,
      fun p => (position s).kept w p ++ share p⟩ := by
  refine Position.ext (playing_drawn hrun hspent hbest hnone)
    (funext fun p => ?_)
  show hand s' p = (position s).kept w p ++ share p
  rw [hdealt.hand_eq, ← hand_exit hrun hspent hbest]
  rfl

end Round

omit [LinearOrder Id] in
theorem worth_eq_nil_iff {T : Position Id} {p : Id} :
    T.worth p = [] ↔ T.hand p = [] := by
  simp only [worth]
  cases T.hand p with
  | nil => exact ⟨fun _ => rfl, fun _ => rfl⟩
  | cons c rest => exact ⟨(fun h => by cases h), (fun h => by cases h)⟩

omit [LinearOrder Id] in
/-- The greatest strength is that of a hand with cards, if there is one. -/
theorem hand_ne_nil_of_best {T : Position Id} {p w : Id} (hbest : T.Best w)
    (hp : p ∈ T.playing) (hcard : T.hand p ≠ []) : T.hand w ≠ [] := by
  intro hnil
  have hle := hbest.2 p hp
  rw [worth_eq_nil_iff.mpr hnil] at hle
  exact hcard (worth_eq_nil_iff.mp (le_antisymm hle (nil_le _)))

/-- **A round of the code is a round of the rules.** -/
theorem round_follows {s s' : War Id} (hwf : WellFormed s)
    (hdeck : s.gameDeck.decks = []) {fuel : Nat} {o : Schedule Id}
    (h : startRound fuel o s = .done s') :
    (position s).Round s'.roundWinner (position s') := by
  obtain ⟨s'', t, prizeCards, hrun, hspent, hdeal, hs'⟩ :=
    startRound_dealt hwf h
  have hlive : Live s := by
    by_contra hlive
    rw [startRound_of_not_live hwf hlive fuel o] at h
    cases h
  -- the update of the game status moves nothing
  obtain ⟨k, hk⟩ := hspent.exists_inGame
  have hpos : position s' = position s'' := by
    rw [hs', updateGameStatus_eq (List.ne_nil_of_mem (mem_keys_of_inGame hk))]
    rfl
  have hwin : s'.roundWinner = s''.roundWinner := by
    rw [hs', roundWinner_updateGameStatus]
  rw [hpos, hwin]
  rcases round_tops hrun with ⟨w, hw, htop⟩ | ⟨hnone, hdrawn⟩
  · have hbest : ∀ p, (position s).Best p ↔ p = w :=
      fun p => best_iff.trans (htop p)
    have hbestw := (hbest w).mpr rfl
    have hcard : (position s).hand w ≠ [] := by
      obtain ⟨id, hid, hne⟩ := hlive
      exact hand_ne_nil_of_best hbestw (mem_playing.mpr hid) hne
    rw [hw, position_won hrun hspent hbestw hw]
    exact .won hbest hcard (isPot_prizeCards hrun hspent hbestw)
  · obtain ⟨a, -, b, -, hab, hta, htb⟩ := hdrawn
    have hbest := best_iff.mpr hta
    have hempty : t.gameDeck.decks = [] := by
      rw [hspent.spent.gameDeck_eq]
      exact hdeck
    have hstay := playing_drawn hrun hspent hbest hnone
    have hin : inGame (drawnTable t prizeCards) k = true :=
      (hspent.inGame_exit k).symm.trans hk
    obtain ⟨share, hdealt, hevery⟩ := dealCards_robin ⟨k, hin⟩ (hdeal hnone)
    have hreceivers : receivers (drawnTable t prizeCards)
        = (position s).staying a :=
      (receivers_dealt hdealt).symm.trans hstay
    rw [hreceivers, decks_drawnTable hempty] at hevery
    rw [hnone, position_drawn hrun hspent hbest hnone hdealt]
    refine .drawn hbest (best_iff.mpr htb) hab
      (isPot_prizeCards hrun hspent hbest) ?_ hevery ?_
    · rw [← hstay]
      exact List.ne_nil_of_mem (mem_playing.mpr hk)
    · intro p hp
      refine hdealt.skip p (Bool.eq_false_iff.mpr (fun h => hp ?_))
      rw [← hreceivers]
      exact mem_receivers.mpr h

/-- **The code returns from a round exactly if the rules allow one.** -/
theorem returns_iff_round {s : War Id} (hwf : WellFormed s)
    (hdeck : s.gameDeck.decks = []) (o : Schedule Id) :
    (∃ fuel s', startRound fuel o s = .done s') ↔
      ∃ w T, (position s).Round w T := by
  constructor
  · rintro ⟨fuel, s', h⟩
    exact ⟨_, _, round_follows hwf hdeck h⟩
  · rintro ⟨w, T, hround⟩
    cases hround with
    | @won w pot hbest hcard hpot =>
        have hw := mem_playing.mp ((hbest w).mpr rfl).1
        refine (returns_iff hwf ⟨w, hw, hcard⟩ o).mpr (fun hstale => ?_)
        have htop : ∀ id, Tops (active s) (stakes s) id ↔ id = w :=
          fun id => best_iff.symm.trans (hbest id)
        exact not_drawn_of_tops htop hstale.drawn
    | @drawn t u pot share ht hu hne hpot hleft hdealt hothers =>
        obtain ⟨p, hp⟩ := List.exists_mem_of_ne_nil _ hleft
        obtain ⟨hplays, hfalls⟩ := List.mem_filter.mp hp
        have hstays : (position s).falls t p = false := by
          rw [Bool.not_eq_true'] at hfalls
          exact hfalls
        have hcard : hand s p ≠ [] := by
          intro hnil
          have hworth : (position s).worth p = [] := worth_eq_nil_iff.mpr hnil
          simp only [falls] at hstays
          rw [hworth] at hstays
          cases hstays
        have hin := mem_playing.mp hplays
        refine (returns_iff hwf ⟨p, hin, hcard⟩ o).mpr ?_
        rintro ⟨a, -, b, -, -, hta, -, hall⟩
        have hgives := hall p (mem_active.mpr hin)
        have hsame : (position s).worth t = stakes s a :=
          ht.eq (best_iff.mpr hta)
        simp only [falls] at hstays
        rw [hsame] at hstays
        rw [show givesOut short (stakes s p) (stakes s a) = false
          from hstays] at hgives
        cases hgives

/-! ## Games -/

/-- The loop of a game follows the rules until one player is left. -/
theorem gameLoop_follows {fuel : Nat} (rounds : Nat) :
    ∀ {os : Nat → Schedule Id} {s t : War Id}, WellFormed s →
      s.gameDeck.decks = [] → s.gameover = false →
      2 ≤ (survivors s).length → gameLoop fuel rounds os s = .done t →
      Game (position s) t.roundWinner (position t) := by
  induction rounds with
  | zero => intro os s t _ _ _ _ h; cases h
  | succ rounds ih =>
      intro os s t hwf hdeck hover htwo h
      simp only [gameLoop] at h
      rw [hover, if_neg Bool.false_ne_true] at h
      obtain ⟨u, hu, h⟩ := Outcome.bind_eq_done.mp h
      obtain ⟨-, -, h⟩ := Outcome.bind_eq_done.mp h
      have hround := round_follows hwf hdeck hu
      have hflag := gameover_startRound hwf hu
      rw [hover, Bool.false_or] at hflag
      rw [← length_playing] at htwo
      by_cases hone : (survivors u).length = 1
      · rw [decide_eq_true hone] at hflag
        -- the loop is left with the next look at the flag
        cases rounds with
        | zero => cases h
        | succ rounds =>
            simp only [gameLoop] at h
            rw [if_pos hflag] at h
            rw [← Outcome.done.inj h]
            exact .last htwo hround (by rw [length_playing]; exact hone)
      · rw [decide_eq_false hone] at hflag
        obtain ⟨k, hk⟩ := exists_inGame_startRound hwf hu
        have hpos : 0 < (survivors u).length :=
          List.length_pos_of_mem (mem_survivors.mpr hk)
        exact .more htwo hround (ih (wellFormed_startRound hwf hu)
          (decks_startRound hwf hdeck hu) hflag (by omega) h)

/-- **War follows its rules**: at every round boundary of a game the code
    returns from a round exactly if the rules allow one, and plays one of those
    they allow; all of these have the same winner, leave the same players and
    hands of the same sizes.  A game that ends is a game of the rules. -/
theorem war_follows_rules {s₀ : War Id} (hready : Ready s₀) :
    (∀ s, Reaches s₀ s → ∀ o : Schedule Id,
      ((∃ fuel s', startRound fuel o s = .done s') ↔
        ∃ w T, (position s).Round w T) ∧
      ∀ fuel s', startRound fuel o s = .done s' →
        (position s).Round s'.roundWinner (position s') ∧
          ∀ w T, (position s).Round w T →
            w = s'.roundWinner ∧ T.playing = (position s').playing ∧
            ∀ id, (T.hand id).length = (hand s' id).length) ∧
    ∀ fuel rounds os t line, startGame fuel rounds os s₀ = .done (t, line) →
      ∃ d, dealCards fuel s₀ = .done d ∧
        Game (position d) t.roundWinner (position t) ∧
        t.announcement = .done line := by
  constructor
  · intro s hreach o
    have hwf := hreach.wellFormed hready.wellFormed
    have hdeck := hreach.decks_eq hready.wellFormed
    refine ⟨returns_iff_round hwf hdeck o, fun fuel s' h => ?_⟩
    have hround := round_follows hwf hdeck h
    refine ⟨hround, fun w T hT => ?_⟩
    obtain ⟨hw, hplaying, hhands⟩ := hT.determined hround
    exact ⟨hw, hplaying, fun id => (hhands id).1⟩
  · intro fuel rounds os t line h
    simp only [startGame] at h
    by_cases htwo : 1 < s₀.numPlayers
    · rw [if_pos htwo] at h
      obtain ⟨d, hd, h⟩ := Outcome.bind_eq_done.mp h
      obtain ⟨t', hloop, h⟩ := Outcome.bind_eq_done.mp h
      obtain ⟨line', hline, h⟩ := Outcome.bind_eq_done.mp h
      obtain ⟨rfl, rfl⟩ := Prod.mk.inj (Outcome.done.inj h)
      have hreach : Reaches s₀ d := .dealt hd
      obtain ⟨share, hdealt⟩ := dealCards_dealt hd
      have hsame : (position d).playing = (position s₀).playing :=
        receivers_dealt hdealt
      have htwo' : 2 ≤ (survivors d).length := by
        rw [← length_playing, hsame, length_playing]
        exact hready.two
      refine ⟨d, hd, ?_, hline⟩
      exact gameLoop_follows rounds (hreach.wellFormed hready.wellFormed)
        (hreach.decks_eq hready.wellFormed) (hready.running_dealt hd) htwo'
        hloop
    · rw [if_neg htwo] at h
      cases h

theorem war_follows_rules_three :
    ∃ d t, dealCards 9 threeTable = .done d ∧
      Game (position d) (some "B") (position t) := by
  have hready : Ready threeTable := ⟨by decide, by decide, by decide, rfl⟩
  have hrun : ∃ r, startGame 9 5 (fun _ => inOrder) threeTable = .done r ∧
      r.1.roundWinner = some "B" := by decide +kernel
  obtain ⟨⟨t, line⟩, hdone, hw⟩ := hrun
  obtain ⟨d, hd, hgame, -⟩ := (war_follows_rules hready).2 _ _ _ _ _ hdone
  have hw' : t.roundWinner = some "B" := hw
  rw [hw'] at hgame
  exact ⟨d, t, hd, hgame⟩

end Rules
