import SimpleOrderbook.Trading
import SimpleOrderbook.AonBook

/-!
# Insertions as transitions

The insertion of an order is a sequence of `Step`s, up to the point where an exception leaves it.
-/
namespace SimpleOrderbook

open Hoare

/-- How an exception leaves an insertion: by a call inside of it that went wrong, or because a market
order ran out of liquidity. -/
inductive Leaves (c : Config) : Err → World → Prop where
  | undefined {w : World} : Leaves c .undefinedBehaviour w
  | failed {c' : Config} {F : Flight} {w : World} {err : Err} (hs : Steps c c')
      (hm : Moves c' (F, w)) (hgap : F.gap = none) (herr : err.expected = false) :
      Leaves c err w
  | refused {F : Flight} {w : World} {n r id : Nat} (hs : Steps c (F, w)) (hF : F.Calm)
      (hh : F.hands = [(id, r)]) : Leaves c (.liquidityException n r id) w

theorem Flight.Calm.hold {F : Flight} (h : F.Calm) (id sz : Nat) : (F.hold id sz).Calm :=
  ⟨h.gap, h.hit, h.acting, h.scan, h.detached, h.leaving, h.arriving⟩

section Steps
variable {c₀ : Config} {F : Flight} {w : World}

theorem Steps.fails (h : Steps c₀ (F, w)) (hF : F.Calm) {err : Err}
    (he : err.expected = false) : Leaves c₀ err w :=
  .failed h .refl hF.gap he

theorem Leaves.after {c : Config} {err : Err} (h : Leaves c err w) (hs : Steps c₀ c) :
    Leaves c₀ err w := by
  cases h with
  | undefined => exact .undefined
  | failed h hm hgap he => exact .failed (hs.trans h) hm hgap he
  | refused h hF hh => exact .refused (hs.trans h) hF hh

/-- Pulls and handlers within an insertion. -/
theorem Steps.lift {α : Type} {m : M α} {Q : α → World → Prop} (h : Steps c₀ (F, w))
    (hm : wp m Q (Fails Act (F, w)) w) : wp m Q (Leaves c₀) w := by
  refine hm.mono (fun _ _ hq => hq) ?_
  rintro err w' (rfl | ⟨he, F', h', hgap⟩)
  · exact .undefined
  · exact .failed h (.acts .refl h') hgap he

theorem Steps.trade (h0 : WellFormed c₀) {bidSide : Bool} {plev id size : Nat}
    (cb : OrderExecCbBndl) (h : Steps c₀ (F.hold id size, w)) (hF : F.Calm) (hcur : F.cur ≠ none)
    (hp : 0 < plev) (hpe : plev < w.end_) :
    wp (trade bidSide plev id size cb) (fun r w' => Steps c₀ (F.hold id r, w') ∧ r ≤ size ∧
      (r ≠ 0 → ¬ OnSide bidSide w'.toSob plev)) (Leaves c₀) w := by
  have hwp : wp (SimpleOrderbook.trade bidSide plev id size cb) (fun r w' =>
      Moves (F.hold id size, w) (F.hold id r, w') ∧ (r ≠ 0 → ¬ OnSide bidSide w'.toSob plev))
      (Fails Move (F.hold id size, w)) w :=
    Moves.trade (h.wellFormed h0).ambient cb .refl hF hp hpe
  have hm := hwp.run
  refine (hm.and (returns_trade size w)).mono (fun r w' ⟨⟨⟨h1, h2⟩, hrun⟩, hle⟩ => ?_) ?_
  · exact ⟨h.step (.trade bidSide plev id size r cb hF hp hpe hrun h1 hcur), hle, h2⟩
  · rintro err w' ⟨rfl | ⟨he, F', h', hgap⟩, -⟩
    · exact .undefined
    · exact .failed h h' hgap he

/-! ## All-or-none matching -/

/-- An AON is taken out of its chain to trade. -/
theorem Steps.aonPop (h : Steps c₀ (F, w)) (hF : F.Calm) (id : Nat) :
    wp (Chain.aonPop id) (fun b w' => Steps c₀ (F.hold b.id b.sz, w')) (Leaves c₀) w := by
  have hpop := Acts.aonPop (.refl (a := (F, w))) hF.gap (.of_hit_none hF.hit id)
  refine hpop.mono (fun b w' hq => h.acts hq.2) ?_
  rintro err w' (rfl | ⟨⟨i, rfl⟩, h' | ⟨-, sz, h'⟩⟩)
  · exact .undefined
  · exact .failed h (.acts .refl h') hF.gap rfl
  · exact .failed h (.acts .refl h') (F := F.hold id sz) hF.gap rfl

theorem aons_of_mem_overlapping {bidSide : Bool} {s : Sob} {p q : Nat} {b : AonBndl}
    (h : (q, b) ∈ Exec.Aon.overlapping bidSide s p) : s.aons bidSide q ≠ none := by
  unfold Exec.Aon.overlapping at h
  obtain ⟨q', -, h⟩ := List.mem_flatMap.mp h
  obtain ⟨b', hb, heq⟩ := List.mem_map.mp h
  cases heq
  intro hn
  rw [hn] at hb
  cases hb

theorem Steps.aon_inRange (h0 : WellFormed c₀) (h : Steps c₀ (F, w)) {bidSide : Bool} {p : Nat} :
    ∀ x ∈ (Exec.Aon.overlapping bidSide w.toSob p).reverse, 0 < x.1 ∧ x.1 < c₀.2.end_ := by
  rintro ⟨q, b⟩ hx
  have hend : w.end_ = c₀.2.end_ := congrArg Prod.snd h.grid_eq
  have := (h.wellFormed h0).aons bidSide q (aons_of_mem_overlapping (List.mem_reverse.mp hx))
  exact ⟨this.1, this.2.trans_eq hend⟩

theorem Steps.matchAonsPre (h0 : WellFormed c₀) (hF : F.Calm) (hcur : F.cur ≠ none) (isBuy : Bool)
    (e : OrderQueueElem) {p : Nat} (hp : c₀.2.HasLevel p) (l : List (Nat × AonBndl))
    (hl : ∀ x ∈ l, 0 < x.1 ∧ x.1 < c₀.2.end_) :
    ∀ {w : World} {rmndr : Nat}, Steps c₀ (F.hold e.id rmndr, w) →
      wp (matchAonsPre isBuy e p l rmndr) (fun r w' => Steps c₀ (F.hold e.id r, w') ∧ r ≤ rmndr)
        (Leaves c₀) w := by
  induction l with
  | nil => exact fun h => wp_pure ⟨h, le_rfl⟩
  | cons x rest ih =>
    intro w rmndr h
    obtain ⟨paon, aon⟩ := x
    obtain ⟨hpos, hlt⟩ := hl _ List.mem_cons_self
    have ih := @ih fun x hx => hl x (List.mem_cons_of_mem _ hx)
    unfold SimpleOrderbook.matchAonsPre
    refine wp.bind (wp_lookAhead (Q := fun _ w' => Steps c₀ (F.hold e.id rmndr, w'))
      (h.step (.act (.look ..)))) fun _ w h => wp_ite (fun _ => ?_) fun _ => ih h
    refine (h.aonPop (hF.hold e.id rmndr) aon.id).bind fun b w1 h1 => ?_
    have hend : w1.end_ = c₀.2.end_ := congrArg Prod.snd h1.grid_eq
    refine (h1.trade h0 b.cb (hF.hold e.id rmndr) hcur hpos (hend ▸ hlt)).bind fun r w2 ⟨h2, _⟩ => ?_
    refine wp_ite (fun _ => wp_throw (h2.fails ((hF.hold _ _).hold _ _) rfl)) fun hr => ?_
    have hmin : min r rmndr = r := Nat.min_eq_left (Nat.not_lt.mp hr)
    dsimp only
    rw [hmin]
    have hprint : wp (preTradePrint p r b e)
        (fun _ w' => Steps c₀ (F.hold e.id (rmndr - r), w')) (Leaves c₀) w2 := by
      unfold preTradePrint
      refine wp_ite (fun hpos => wp_getSob_bind (wp_record_bind (wp_tradeHasOccured ?_)))
        fun hz => wp_pure ?_
      · have hend2 : w2.end_ = c₀.2.end_ := congrArg Prod.snd h2.grid_eq
        have h3 := h2.step (.print p b.id e.id r rmndr r b.cb e.cb F.hands rfl hpos le_rfl
          (Nat.not_lt.mp hr) ⟨hp.1, hp.2.trans_eq hend2.symm⟩)
        rw [Nat.sub_self] at h3
        exact h3.step (.act (.drop b.id ((e.id, rmndr - r) :: F.hands) rfl))
      · obtain rfl : r = 0 := by omega
        exact h2.step (.act (.drop b.id ((e.id, rmndr) :: F.hands) rfl))
    refine hprint.bind fun _ w3 h3 => wp_ite (fun hz => wp_pure ?_) fun _ => ?_
    · rw [hz] at h3
      exact ⟨h3, Nat.zero_le _⟩
    · exact (ih h3).post fun r' w' ⟨h4, hle⟩ => ⟨h4, hle.trans (Nat.sub_le _ _)⟩

theorem Steps.matchAonOrdersPreTrade (h0 : WellFormed c₀) (hF : F.Calm) (hcur : F.cur ≠ none)
    (isBuy : Bool) (e : OrderQueueElem) {p : Nat} (hp : c₀.2.HasLevel p)
    (h : Steps c₀ (F.hold e.id e.sz, w)) : wp (matchAonOrdersPreTrade isBuy e p)
      (fun r w' => Steps c₀ (F.hold e.id r, w') ∧ r ≤ e.sz) (Leaves c₀) w :=
  wp_getSob_bind (Steps.matchAonsPre h0 hF hcur isBuy e hp _ (h.aon_inRange h0) h)

theorem Steps.matchAonsPost (h0 : WellFormed c₀) (hF : F.Calm) (hcur : F.cur ≠ none) (isBuy : Bool)
    (l : List (Nat × AonBndl)) (hl : ∀ x ∈ l, 0 < x.1 ∧ x.1 < c₀.2.end_) :
    ∀ {w : World}, Steps c₀ (F, w) →
      wp (matchAonsPost isBuy l) (fun _ w' => Steps c₀ (F, w')) (Leaves c₀) w := by
  induction l with
  | nil => exact fun h => wp_pure h
  | cons x rest ih =>
    intro w h
    obtain ⟨p, aon⟩ := x
    obtain ⟨hpos, hlt⟩ := hl _ List.mem_cons_self
    have ih := @ih fun x hx => hl x (List.mem_cons_of_mem _ hx)
    unfold SimpleOrderbook.matchAonsPost
    refine wp.bind (wp_lookAhead (Q := fun _ w' => Steps c₀ (F, w')) (h.step (.act (.look ..))))
      fun _ w h => wp_ite (fun _ => ?_) fun _ => ih h
    refine (h.aonPop hF aon.id).bind fun b w1 h1 => ?_
    have hend : w1.end_ = c₀.2.end_ := congrArg Prod.snd h1.grid_eq
    refine (h1.trade h0 b.cb hF hcur hpos (hend ▸ hlt)).bind fun r w2 ⟨h2, _⟩ => ?_
    refine wp_ite (fun _ => wp_throw (h2.fails (hF.hold _ _) rfl)) fun hz => ?_
    rw [not_not.mp hz] at h2
    exact ih (h2.step (.act (.drop b.id F.hands rfl)))

/-! ## Basic orders -/

/-- Order `e`, of which `filled` was filled, rests as `l`. -/
structure Placed (e : OrderQueueElem) (l : Leg) (filled : Nat) (w : World) : Prop where
  id : l.id = e.id
  limit : l.type = .limit → e.type = .limit ∧ (l.p : Int) = w.levelOf e.limit
  bound : ∀ c x, w.idCache e.id = some c → w.bndlAt c e.id = some x → x.sz ≤ l.sz →
    x.sz ≤ e.sz - filled
  filled_le : filled ≤ e.sz

/-- What the insertion of `e` leaves of flight `F`: all of it was filled, or a new leg rests. -/
def Routed (e : OrderQueueElem) (F : Flight) (filled : Nat) (F' : Flight) (w : World) : Prop :=
  ∃ legs, F' = { F with legs := legs } ∧ F.legs ⊆ legs ∧
    (filled = e.sz ∨ ∃ l ∈ legs, Placed e l filled w)

theorem Routed.all (e : OrderQueueElem) (F : Flight) (w : World) : Routed e F e.sz F w :=
  ⟨F.legs, rfl, fun _ h => h, .inl rfl⟩

theorem Routed.rests {e : OrderQueueElem} {F : Flight} {w : World} {l : Leg} {filled : Nat}
    (h : Placed e l filled w) : Routed e F filled { F with legs := l :: F.legs } w :=
  ⟨_, rfl, List.subset_cons_self _ _, .inr ⟨l, List.mem_cons_self, h⟩⟩

/-- The flight `F` with the order under insertion in hand, its id still to be used. -/
def Flight.holdNew (F : Flight) (id sz : Nat) : Flight := (F.give id).hold id sz

theorem Flight.holdNew_eq {F : Flight} (h : F.hands = []) (id sz : Nat) :
    F.holdNew id sz = { F.give id with hands := [(id, sz)] } := by
  unfold Flight.holdNew Flight.hold
  rw [show (F.give id).hands = [] from h]

theorem Flight.Calm.give {F : Flight} (h : F.Calm) (id : Nat) : (F.give id).Calm :=
  ⟨h.gap, h.hit, h.acting, h.scan, h.detached, h.leaving, h.arriving⟩

/-- Nothing is left of the order in hand. -/
theorem Steps.dropNew {id : Nat} (h : Steps c₀ (F.holdNew id 0, w)) (hcur : F.cur ≠ none) :
    Steps c₀ (F, w) :=
  (h.step (.act (.drop id F.hands rfl))).step (.forget id F.ids rfl hcur)

theorem levelOf_itop (s : Sob) {p : Nat} (hp : beg ≤ p) : s.levelOf (s.itop p) = p := by
  rw [s.itop_of_beg_le hp]
  unfold Sob.levelOf
  omega

theorem levelOf_of_grid {s s' : Sob} (h : s'.grid = s.grid) : s'.levelOf = s.levelOf := by
  have hb : s'.base = s.base := congrArg Prod.fst h
  unfold Sob.levelOf
  rw [hb]

/-- What is left of a limit order, as it rests. -/
def OrderQueueElem.remainder (e : OrderQueueElem) (passConditions : Bool) (rmndr : Nat) : LimitBndl :=
  { id := e.id, sz := rmndr, cb := e.cb, side := e.isBuy,
    condition := if passConditions then e.condition else .none,
    trigger := if passConditions then e.trigger else .none }

theorem OrderQueueElem.remainder_isAON {e : OrderQueueElem} {passConditions : Bool} {rmndr : Nat}
    (hpass : e.isAON → passConditions = true) :
    (e.remainder passConditions rmndr).isAON = true ↔ e.isAON = true := by
  unfold OrderBndl.isAON OrderQueueElem.isAON at *
  cases passConditions <;> simp_all [remainder]

/-- The remainder is pushed on the limit chain of its level, or on the AON chain if it is
all-or-none and the limit chain is no place for it. -/
theorem Steps.pushRemainder (hF : F.Calm) {buyLimit : Bool} {e : OrderQueueElem}
    {passConditions : Bool} {p rmndr : Nat} (hins : F.Inserts e) (hbuy : e.isBuy = buyLimit)
    (hpass : e.isAON → passConditions = true) (h : Steps c₀ (F.holdNew e.id rmndr, w))
    (hz : rmndr ≠ 0) (hle : rmndr ≤ e.sz) (hp : beg ≤ p) (hpe : p < w.end_)
    (hlevel : (p : Int) = w.levelOf e.limit)
    (hs : ¬ e.isAON → if buyLimit then p < w.ask else w.bid < p) :
    ∃ ty, Steps c₀ ({ F with legs := ⟨e.id, ty, p, rmndr⟩ :: F.legs },
      w.onSob fun s' => if e.isAON ∧ (Exec.Limit.isTradable (!buyLimit) w.toSob p ∨
        (w.limits p).empty) then Chain.aonPush buyLimit s' p (e.remainder passConditions rmndr)
        else Chain.limitPush buyLimit s' p (e.remainder passConditions rmndr)) := by
  let b := e.remainder passConditions rmndr
  have hrest : e.Rests b.toOrderBndl := by
    refine ⟨rfl, ?_, hle⟩
    cases passConditions
    · exact .inl rfl
    · exact .inr rfl
  have hAON : b.isAON ↔ e.isAON := e.remainder_isAON hpass
  by_cases hcond : e.isAON ∧ (Exec.Limit.isTradable (!buyLimit) w.toSob p ∨ (w.limits p).empty)
  · refine ⟨if buyLimit then .aonBuy else .aonSell, ?_⟩
    simp only [if_pos hcond]
    exact h.step (.pushAon buyLimit p b F.hands F.ids rfl rfl hz hp hpe hbuy rfl
      (hAON.mpr hcond.1) e hins hrest hbuy.symm hlevel)
  · refine ⟨.limit, ?_⟩
    simp only [if_neg hcond]
    refine h.step (.pushLimit buyLimit p b F.hands F.ids hF.gap rfl rfl hz hp hpe ?_ hbuy rfl
      (fun hb hn => hcond ⟨hAON.mp hb, .inr (by simp [hn])⟩) e hins hrest hbuy.symm hlevel)
    by_cases ha : e.isAON
    · have hnt : ¬ Exec.Limit.isTradable (!buyLimit) w.toSob p := fun ht => hcond ⟨ha, .inl ht⟩
      unfold Exec.Limit.isTradable at hnt
      cases buyLimit <;> simpa using hnt
    · exact hs ha

theorem Steps.restLimitOrder (h0 : WellFormed c₀) (hF : F.Calm) {buyLimit : Bool}
    {e : OrderQueueElem} {passConditions : Bool} {p rmndr : Nat} (hins : F.Inserts e)
    (hty : e.type = .limit)
    (hbuy : e.isBuy = buyLimit) (hpass : e.isAON → passConditions = true)
    (h : Steps c₀ (F.holdNew e.id rmndr, w)) (hz : rmndr ≠ 0) (hle : rmndr ≤ e.sz)
    (hp : beg ≤ p) (hpe : p < w.end_) (hlevel : (p : Int) = w.levelOf e.limit)
    (hs : ¬ e.isAON → if buyLimit then p < w.ask else w.bid < p) :
    wp (restLimitOrder buyLimit e passConditions p rmndr)
      (fun filled w' => ∃ F', Steps c₀ (F', w') ∧ Routed e F filled F' w') (Leaves c₀) w := by
  obtain ⟨ty, h1⟩ := h.pushRemainder hF hins hbuy hpass hz hle hp hpe hlevel hs
  let F1 : Flight := { F with legs := ⟨e.id, ty, p, rmndr⟩ :: F.legs }
  have hF1 : F1.Calm :=
    ⟨hF.gap, hF.hit, hF.acting, hF.scan, hF.detached, hF.leaving, hF.arriving⟩
  unfold SimpleOrderbook.restLimitOrder
  refine wp_getSob_bind (wp_modifySob_bind ?_)
  refine (wp_getSob_bind (Steps.matchAonsPost h0 hF1 hins.cur_ne buyLimit _ (h1.aon_inRange h0) h1)).bind
    fun _ w2 h2 => wp_getSob_bind ?_
  have hlevel2 : (p : Int) = w2.levelOf e.limit := by
    have hgrid : w2.grid = w.grid := (Steps.grid_eq h2).trans (Steps.grid_eq h).symm
    rw [levelOf_of_grid hgrid]
    exact hlevel
  split
  next hc =>
    refine wp_pure ⟨F1, h2, .rests ⟨rfl, fun _ => ⟨hty, hlevel2⟩, fun c x hc' => ?_, le_rfl⟩⟩
    rw [hc] at hc'
    cases hc'
  next c hc =>
    refine wp.bind (wp_deref (Q := fun x w' => w2.bndlAt c e.id = some x ∧ w' = w2)
      (fun x hx => ⟨hx, rfl⟩) fun _ => .undefined) ?_
    rintro x _ ⟨hx, rfl⟩
    refine wp_pure ⟨F1, h2, .rests ⟨rfl, fun _ => ⟨hty, hlevel2⟩, fun c' x' hc' hx' hle' => ?_,
      Nat.sub_le _ _⟩⟩
    obtain rfl : c = c' := Option.some.inj (hc.symm.trans hc')
    obtain rfl : x = x' := Option.some.inj (hx.symm.trans hx')
    have : x.sz ≤ rmndr := hle'
    omega

theorem Steps.insertLimitOrder (h0 : WellFormed c₀) (hF : F.Calm) {buyLimit : Bool}
    {e : OrderQueueElem} {passConditions : Bool} (hins : F.Inserts e) (hty : e.type = .limit)
    (hbuy : e.isBuy = buyLimit) (hpass : e.isAON → passConditions = true)
    (h : Steps c₀ (F.holdNew e.id e.sz, w)) :
    wp (insertLimitOrder buyLimit e passConditions)
      (fun filled w' => ∃ F', Steps c₀ (F', w') ∧ Routed e F filled F' w') (Leaves c₀) w := by
  unfold SimpleOrderbook.insertLimitOrder
  refine wp.bind (wp_ptoi (Q := fun p w' => beg ≤ p ∧ p < w.end_ ∧ (p : Int) = w.levelOf e.limit ∧
    w' = w) (fun p hp hpe hprice => ⟨hp, hpe, by rw [← hprice, levelOf_itop _ hp], rfl⟩) .undefined) ?_
  rintro p w ⟨hp, hpe, hlevel, rfl⟩
  have hend : w.end_ = c₀.2.end_ := congrArg Prod.snd (Steps.grid_eq h)
  refine (Steps.matchAonOrdersPreTrade h0 (hF.give e.id) hins.cur_ne buyLimit e ⟨hp, hend ▸ hpe⟩ h).bind
    fun rmndr w1 ⟨h1, hle⟩ => wp_ite (fun hz => wp_pure ⟨F, ?_, .all e F _⟩) fun hz => ?_
  · rw [hz] at h1
    exact h1.dropNew hins.cur_ne
  -- the levels and prices of the book are still those of `w`
  have hgrid : ∀ {G : Flight} {w' : World}, Steps c₀ (G, w') → w'.grid = w.grid := fun h' =>
    (Steps.grid_eq h').trans (Steps.grid_eq h).symm
  have hrest : ∀ {w' : World} {r : Nat}, Steps c₀ (F.holdNew e.id r, w') → r ≠ 0 → r ≤ e.sz →
      (¬ e.isAON → if buyLimit then p < w'.ask else w'.bid < p) →
      wp (SimpleOrderbook.restLimitOrder buyLimit e passConditions p r)
        (fun filled w' => ∃ F', Steps c₀ (F', w') ∧ Routed e F filled F' w') (Leaves c₀) w' :=
    fun h' hr hle' hs => h'.restLimitOrder h0 hF hins hty hbuy hpass hr hle' hp
      (hpe.trans_eq (congrArg Prod.snd (hgrid h')).symm)
      (by rw [levelOf_of_grid (hgrid h')]; exact hlevel) hs
  have hmay : wp (mayTrade buyLimit e p rmndr) (fun ok w' => Steps c₀ (F.holdNew e.id rmndr, w') ∧
      (¬ ok → ¬ e.isAON → Exec.Core.isTradable (!buyLimit) w'.toSob p = false)) (Leaves c₀) w1 :=
    wp_mayTrade (fun hno => ⟨h1, fun _ _ => hno⟩) (fun _ _ => ⟨h1, fun hok => absurd rfl hok⟩)
      fun _ ha => ⟨h1.step (.act (.look ..)), fun _ hno => absurd ha hno⟩
  refine hmay.bind fun ok w1 ⟨h1, hno⟩ => wp_ite (fun _ => ?_) fun hok => hrest h1 hz hle fun ha => ?_
  · have hpe1 : p < w1.end_ := hpe.trans_eq (congrArg Prod.snd (hgrid h1)).symm
    refine (Steps.trade h0 e.cb h1 (hF.give e.id) hins.cur_ne hp hpe1).bind fun r w2 ⟨h2, hr, hclear⟩ => ?_
    refine wp_ite (fun hz => wp_pure ⟨F, ?_, .all e F _⟩) fun hz =>
      hrest h2 hz (hr.trans hle) fun _ => ?_
    · rw [hz] at h2
      exact h2.dropNew hins.cur_ne
    · have hoff := hclear hz
      unfold OnSide at hoff
      cases buyLimit <;> simpa using hoff
  · have hnt := hno hok ha
    unfold Exec.Core.isTradable Exec.Core.begin_ at hnt
    cases buyLimit <;> simp at hnt ⊢ <;> omega

theorem Steps.insertMarketOrder (h0 : WellFormed c₀) (hF : F.Calm) (hcur : F.cur ≠ none)
    (hhands : F.hands = [])
    (buyMarket : Bool) {e : OrderQueueElem} (h : Steps c₀ (F.holdNew e.id e.sz, w)) :
    wp (insertMarketOrder buyMarket e) (fun _ w' => Steps c₀ (F, w')) (Leaves c₀) w := by
  unfold SimpleOrderbook.insertMarketOrder
  refine wp_getSob_bind ?_
  have hlevels : 1 < w.end_ := (h.wellFormed h0).levels
  have hrange : 0 < (if buyMarket then w.end_ - 1 else beg) ∧
      (if buyMarket then w.end_ - 1 else beg) < w.end_ := by
    unfold beg
    split <;> omega
  have hlevel : c₀.2.HasLevel (if buyMarket then w.end_ - 1 else beg) :=
    ⟨hrange.1, hrange.2.trans_eq (congrArg Prod.snd (Steps.grid_eq h))⟩
  refine (Steps.matchAonOrdersPreTrade h0 (hF.give e.id) hcur buyMarket e hlevel h).bind
    fun rmndr w1 ⟨h1, _⟩ => wp_ite (fun _ => ?_) fun hz => wp_pure ?_
  · have hend : w1.end_ = w.end_ :=
      congrArg Prod.snd ((Steps.grid_eq h1).trans (Steps.grid_eq h).symm)
    refine (Steps.trade h0 e.cb h1 (hF.give e.id) hcur hrange.1 (hrange.2.trans_eq hend.symm)).bind
      fun r w2 ⟨h2, _, _⟩ => wp_ite (fun _ => ?_) fun hz => wp_pure ?_
    · exact wp_throw (.refused h2 ((hF.give e.id).hold e.id r) (by
        change (e.id, r) :: F.hands = _
        rw [hhands]))
    · rw [not_not.mp hz] at h2
      exact h2.dropNew hcur
  · rw [not_not.mp hz] at h1
    exact h1.dropNew hcur

theorem Steps.insertStopOrder {buyStop : Bool} {e : OrderQueueElem} {passConditions : Bool}
    (hins : F.Inserts e) (hbuy : e.isBuy = buyStop) (hty : e.type ≠ .limit)
    (htrail : passConditions = true → ¬ e.condition.trails) (hleft : F.leaving = [])
    (h : Steps c₀ (F.holdNew e.id e.sz, w)) :
    wp (insertStopOrder buyStop e passConditions)
      (fun _ w' => ∃ F', Steps c₀ (F', w') ∧ Routed e F 0 F' w') (Leaves c₀) w := by
  unfold SimpleOrderbook.insertStopOrder
  refine wp.bind (wp_ptoi (Q := fun p w' => w.HasLevel p ∧ w' = w)
    (fun _ hp hpe _ => ⟨⟨hp, hpe⟩, rfl⟩) .undefined) ?_
  rintro p w ⟨hlevel, rfl⟩
  let b : StopBndl :=
    { id := e.id, sz := e.sz, cb := e.cb, isBuy := buyStop, limit := e.limit,
      condition := if passConditions then e.condition else .none,
      trigger := if passConditions then e.trigger else .none }
  have hrest : e.Rests b.toOrderBndl := by
    refine ⟨rfl, ?_, le_rfl⟩
    cases passConditions
    · exact .inl rfl
    · exact .inr rfl
  have hb : ¬ b.isActiveTrailing := by
    rw [OrderBndl.isActiveTrailing_iff]
    cases passConditions
    · simp [b, OrderCondition.trails]
    · exact htrail rfl
  exact wp_modifySob ⟨_, h.step (.pushStop p b F.hands F.ids rfl rfl (.inl rfl) e hins hrest rfl
    hbuy.symm hlevel (fun _ => hty) (fun ht => absurd ht hb) hleft), .rests ⟨rfl, fun h => by simp at h,
      fun _ _ _ _ hle => hle, Nat.zero_le _⟩⟩

/-- `_route_basic_order`. -/
theorem Steps.routeBasicOrder (h0 : WellFormed c₀) (hF : F.Calm) (hhands : F.hands = [])
    {e : OrderQueueElem} {passConditions : Bool} (hins : F.Inserts e)
    (hpass : e.isAON → passConditions = true) (htrail : passConditions = true → ¬ e.condition.trails)
    (h : Steps c₀ (F.holdNew e.id e.sz, w)) :
    wp (routeBasicOrder e passConditions)
      (fun filled w' => ∃ F', Steps c₀ (F', w') ∧ Routed e F filled F' w') (Leaves c₀) w := by
  unfold SimpleOrderbook.routeBasicOrder
  split
  next hty => exact h.insertLimitOrder h0 hF hins hty rfl hpass
  next => exact (h.insertMarketOrder h0 hF hins.cur_ne hhands _).bind fun _ _ h' =>
    wp_pure ⟨F, h', .all e F _⟩
  next hty => exact (h.insertStopOrder hins rfl (by simp [hty]) htrail hF.leaving).bind fun _ _ h' => wp_pure h'
  next hty => exact (h.insertStopOrder hins rfl (by simp [hty]) htrail hF.leaving).bind fun _ _ h' => wp_pure h'
  next => exact wp_throw (h.fails ((hF.give _).hold _ _) rfl)

/-- `_inject_basic_order`: if it reports no fill, something of the order rests. -/
theorem Steps.injectBasicOrder (h0 : WellFormed c₀) (hF : F.Calm) (hhands : F.hands = [])
    {e : OrderQueueElem} (hins : F.Inserts e) (hAON : ¬ e.isAON) (partialOk : Bool)
    (h : Steps c₀ (F.holdNew e.id e.sz, w)) :
    wp (injectBasicOrder e partialOk) (fun ok w' => ∃ F' filled, Steps c₀ (F', w') ∧
      Routed e F filled F' w' ∧ (ok = false → filled = e.sz → e.sz = 0)) (Leaves c₀) w := by
  unfold SimpleOrderbook.injectBasicOrder
  refine (h.routeBasicOrder h0 hF hhands hins (fun ha => absurd ha hAON) (by simp)).bind
    fun filled w' ⟨F', h', hr⟩ => wp_pure ⟨F', filled, h', hr, fun hok heq => ?_⟩
  subst heq
  simpa using hok

/-! ## Advanced orders -/

theorem lastId_of_bookView {s s' : Sob} (h : s'.bookView = s.bookView) : s'.lastId = s.lastId :=
  congrArg (·.2.1) h

theorem lastId_updateAt (s : Sob) (c : ChainIterWrap) (id : Nat) (g : OrderBndl → OrderBndl) :
    (s.updateAt c id g).lastId = s.lastId := by
  unfold Sob.updateAt; split <;> rfl

theorem Act.lastId_le {c c' : Config} (h : Act c c') : c.2.lastId ≤ c'.2.lastId := by
  cases h with
  | report => exact (lastId_of_bookView (bookView_report _ _ _ _ _ _ _)).ge
  | newId => exact Nat.le_succ _
  | @moveFront F w p b bs cw =>
    exact (lastId_of_bookView (bookView_copiedToAons w.toSob (decide (p < w.ask)) p b cw)).ge
  | @settle F w p =>
    obtain ⟨_, _, _, _, heq⟩ := Exec.Limit.adjustStateAfterPull_eq (decide (p ≤ w.bid)) w.toSob p
    simp only [World.onSob, heq]
    exact le_rfl
  | popAon => exact (lastId_of_bookView (bookView_erasedAon _ _ _ _)).ge
  | popStop => exact (lastId_of_bookView (bookView_erasedStop _ _ _)).ge
  | trailingErase => exact (lastId_of_bookView (bookView_trailing _ _ _).1).ge
  | grow | tell => exact (lastId_updateAt _ _ _ _).ge
  | @growBoth F w first second id1 id2 c1 c2 a msg cb id price sz =>
    rw [World.toSob_onSob, lastId_updateAt, lastId_of_bookView (bookView_report _ _ _ _ _ _ _),
      World.toSob_onSob, lastId_updateAt]
  | _ => exact le_rfl

theorem Move.lastId_le {c c' : Config} (h : Move c c') : c.2.lastId ≤ c'.2.lastId := by
  cases h with
  | act h => exact h.lastId_le
  | @fillAon F w bidSide plev id size cb b =>
    exact (lastId_of_bookView (bookView_traded w plev b.sz id b.id cb b.cb)).ge
  | @fillLastAon F w bidSide plev id size cb b =>
    rw [World.toSob_onSob, lastId_of_bookView (bookView_aonAdjust _ _ _).1]
    exact (lastId_of_bookView (bookView_traded w plev b.sz id b.id cb b.cb)).ge
  | freeAon =>
    rw [World.toSob_onSob, lastId_of_bookView (bookView_aonAdjust _ _ _).1]
    exact le_rfl
  | @moveHit F w h id size b c =>
    exact (lastId_of_bookView (bookView_copiedToAons w.toSob (decide (h.plev < w.ask)) h.plev b c)).ge
  | fill => exact (lastId_of_bookView (bookView_traded _ _ _ _ _ _ _)).ge
  | freeHit | wipeHit =>
    obtain ⟨_, _, _, _, heq⟩ := Exec.Core.findNewBestInside_eq _ _
    rw [World.toSob_onSob, heq]
    exact le_rfl
  | moveStop => exact (lastId_of_bookView (bookView_movedStop _ _ _ _)).ge
  | detach =>
    rw [World.toSob_onSob, lastId_of_bookView (bookView_stopAdjust _ _ _).2.2]
    exact le_rfl
  | eraseTriggered => exact (lastId_of_bookView (bookView_trailing _ _ _).1).ge
  | turn =>
    obtain ⟨_, _, h⟩ := World.turned_eq _ _ _ _ _
    rw [h]
  | _ => exact le_rfl

theorem Moves.lastId_le {c c' : Config} (h : Moves c c') : c.2.lastId ≤ c'.2.lastId := by
  induction h with
  | refl => exact le_rfl
  | tail _ h ih => exact ih.trans h.lastId_le

theorem Step.lastId_le {c c' : Config} (h : Step c c') : c.2.lastId ≤ c'.2.lastId := by
  cases h with
  | act h => exact h.lastId_le
  | trade bidSide plev id size r cb hF hp hpe hrun hm => exact hm.lastId_le
  | kill => exact (lastId_of_bookView (bookView_report _ _ _ _ _ _ _)).ge
  | print => exact (lastId_of_bookView (bookView_traded _ _ _ _ _ _ _)).ge
  | @pushLimit F w buy p b =>
    obtain ⟨_, h⟩ := (w.setLimits p ((w.limits p).push b)).cacheEmplace_eq b.id ⟨.limit, p⟩
    rw [World.toSob_onSob]
    unfold Chain.limitPush
    rw [h]
    cases buy <;> exact le_rfl
  | pushAon => exact (lastId_of_bookView (bookView_aonPush _ _ _ _)).ge
  | pushStop => exact (lastId_of_bookView (bookView_stopPush _ _ _)).ge
  | arm | tellEntry => exact (lastId_updateAt _ _ _ _).ge
  | link => exact ((lastId_updateAt _ _ _ _).trans (lastId_updateAt _ _ _ _)).ge
  | openLoss =>
    exact ((lastId_of_bookView (bookView_stopPush _ _ _)).trans (lastId_updateAt _ _ _ _)).ge
  | trailingInsert => exact (lastId_of_bookView (bookView_trailing _ _ _).2).ge
  | _ => exact le_rfl

theorem Steps.lastId_le {c c' : Config} (h : Steps c c') : c.2.lastId ≤ c'.2.lastId := by
  induction h with
  | refl => exact le_rfl
  | tail _ h ih => exact ih.trans h.lastId_le

/-- The flight `F` while order `e` is inserted, with what it opened so far. -/
def Flight.inserts (F : Flight) (e : OrderQueueElem) (legs : List Leg)
    (exits : Option (Nat × Nat)) : Flight :=
  { F with cur := some e, legs := legs, exits := exits }

theorem Flight.inserts_self (F : Flight) (e : OrderQueueElem) {legs : List Leg}
    {exits : Option (Nat × Nat)} : (F.inserts e legs exits).Inserts e :=
  ⟨e, rfl, .inl rfl⟩

theorem Flight.Calm.inserts {F : Flight} (h : F.Calm) (e : OrderQueueElem) (legs : List Leg)
    (exits : Option (Nat × Nat)) : (F.inserts e legs exits).Calm :=
  ⟨h.gap, h.hit, h.acting, h.scan, h.detached, h.leaving, h.arriving⟩

/-- Where the insertion of `e` ends. -/
def Inserted (c₀ : Config) (F : Flight) (e : OrderQueueElem) (w : World) : Prop :=
  ∃ legs exits, Steps c₀ (F.inserts e legs exits, w)

theorem wp_derefParams {Q : OrderParamaters → World → Prop} {o : Option OrderParamaters}
    (h : ∀ op, o = some op → Q op w) : wp (derefParams o) Q (Leaves c₀) w := by
  unfold derefParams
  split
  next op => exact wp_pure (h op rfl)
  next => exact wp_throw .undefined

theorem Routed.entry {e : OrderQueueElem} {F F' : Flight} {filled : Nat} {w : World}
    (h : Routed e F filled F' w) : filled ≤ e.sz ∧ ∃ legs, F' = { F with legs := legs } ∧
      (filled = e.sz ∨ ∃ l ∈ legs, l.id = e.id) := by
  obtain ⟨legs, rfl, -, hrest⟩ := h
  rcases hrest with rfl | ⟨l, hl, hplaced⟩
  · exact ⟨le_rfl, legs, rfl, .inl rfl⟩
  · exact ⟨hplaced.filled_le, legs, rfl, .inr ⟨l, hl, hplaced.id⟩⟩

theorem Flight.sizes_of_opens {F : Flight} {e : OrderQueueElem} {legs : List Leg} {filled : Nat}
    (h : e.opensExits filled) (hle : filled ≤ e.sz) : (F.inserts e legs none).Sizes filled := by
  refine .inr ⟨e, rfl, .inl ⟨fun hz => ?_, hle⟩⟩
  unfold OrderQueueElem.opensExits at h
  simp only [Bool.or_eq_true, Bool.and_eq_true, decide_eq_true_eq] at h
  omega

/-- What an entry order did not fill at once waits with its condition. -/
theorem Steps.armRemainder {e : OrderQueueElem} {legs : List Leg} {filled : Nat}
    {payload : Payload} (h : Steps c₀ (F.inserts e legs none, w)) (hF : F.Calm)
    (hopens : e.condition.opensExits) (hpay : payload.refs = [])
    (hpay' : ∀ op, payload ≠ .contingentPriceOrder op)
    (hrest : filled = e.sz ∨ ∃ l ∈ legs, l.id = e.id) :
    wp (armRemainder e filled payload) (fun _ w' => Inserted c₀ F e w') (Leaves c₀) w := by
  unfold SimpleOrderbook.armRemainder
  refine wp_ite (fun hne => ?_) fun _ => wp_pure ⟨legs, none, h⟩
  refine wp.bind (wp_idCacheAt (Q := fun c w' => w.idCache e.id = some c ∧ w' = w)
    (fun c hc => ⟨hc, rfl⟩) fun _ => h.fails (hF.inserts e legs none) rfl) ?_
  rintro c w ⟨hc, rfl⟩
  exact wp_modifySob ⟨legs, none, h.step (.arm e e.id c payload hF.gap rfl
    (fun _ => hrest.resolve_left hne) hc (.inr ⟨hopens, hpay, hpay'⟩) rfl)⟩

/-! ### The exits of an entry order -/

theorem bndlAt_of_files {s s' : Sob} (h : s'.files = s.files) : s'.bndlAt = s.bndlAt := by
  funext c id
  unfold Sob.bndlAt
  rw [limits_of_files h, stops_of_files h, aons_of_files h]

theorem Chain.findLimit_updateLimit {f : LimitBndl → LimitBndl} (hf : ∀ b, (f b).id = b.id)
    (l : List LimitBndl) (id : Nat) :
    findLimit (updateLimit f id l) id = (findLimit l id).map f := by
  unfold findLimit
  induction l with
  | nil => rfl
  | cons b l ih =>
    unfold updateLimit
    by_cases hb : b.id = id <;> simp [hb, hf, ih]

theorem Chain.findStop_updateStop {f : StopBndl → StopBndl} (hf : ∀ b, (f b).id = b.id)
    (l : List StopBndl) (id : Nat) :
    findStop (updateStop f id l) id = (findStop l id).map f := by
  unfold findStop
  induction l with
  | nil => rfl
  | cons b l ih =>
    unfold updateStop
    by_cases hb : b.id = id <;> simp [hb, hf, ih]

/-- What is read through a cache entry that was written through. -/
theorem bndlAt_updateAt {s : Sob} {c : ChainIterWrap} {id : Nat} {f : OrderBndl → OrderBndl}
    (hf : ∀ b, (f b).id = b.id) : (s.updateAt c id f).bndlAt c id = (s.bndlAt c id).map f := by
  have hlimit : ∀ cl : ChainManager LimitBndl, (Chain.findLimit (ChainManager.elems (cl.map
      (Chain.updateLimit (fun b => { b with toOrderBndl := f b.toOrderBndl }) id))) id).map
        (·.toOrderBndl) = ((Chain.findLimit cl.elems id).map (·.toOrderBndl)).map f := fun cl => by
    cases cl with
    | none => rfl
    | some l =>
      change (Chain.findLimit (Chain.updateLimit _ id l) id).map _ = _
      rw [Chain.findLimit_updateLimit (fun b => hf b.toOrderBndl), Option.map_map, Option.map_map]
      rfl
  have hstop : ∀ cl : ChainManager StopBndl, (Chain.findStop (ChainManager.elems (cl.map
      (Chain.updateStop (fun b => { b with toOrderBndl := f b.toOrderBndl }) id))) id).map
        (·.toOrderBndl) = ((Chain.findStop cl.elems id).map (·.toOrderBndl)).map f := fun cl => by
    cases cl with
    | none => rfl
    | some l =>
      change (Chain.findStop (Chain.updateStop _ id l) id).map _ = _
      rw [Chain.findStop_updateStop (fun b => hf b.toOrderBndl), Option.map_map, Option.map_map]
      rfl
  rcases c with ⟨ty, p⟩
  unfold Sob.updateAt Sob.bndlAt
  cases ty <;> dsimp only
  · rw [Sob.limits_setLimits, if_pos rfl]; exact hlimit _
  · rw [Sob.stops_setStops, if_pos rfl]; exact hstop _
  · rw [Sob.aons_setAons, if_pos ⟨rfl, rfl⟩]; exact hlimit _
  · rw [Sob.aons_setAons, if_pos ⟨rfl, rfl⟩]; exact hlimit _

/-- A pushed stop does not hide the orders of other ids. -/
theorem bndlAt_stopPush (s : Sob) (p : Nat) (b : StopBndl) (c : ChainIterWrap) {id : Nat}
    (hid : id ≠ b.id) : (Chain.stopPush s p b).bndlAt c id = s.bndlAt c id := by
  unfold Chain.stopPush
  rw [bndlAt_of_files (Exec.Stop.files_adjustStateAfterInsert _ _ _)]
  unfold Sob.bndlAt
  simp only [Sob.limits_cacheEmplace, Sob.stops_cacheEmplace, Sob.aons_cacheEmplace,
    Sob.limits_setStops, Sob.stops_setStops, Sob.aons_setStops]
  split
  · rfl
  · split
    next hp =>
      unfold Chain.findStop
      rw [hp, ChainManager.elems_push, List.find?_append]
      simp [hid.symm]
    next => rfl
  all_goals rfl

theorem idCache_stopPush (s : Sob) (p : Nat) (b : StopBndl) {id : Nat} (hid : id ≠ b.id) :
    (Chain.stopPush s p b).idCache id = s.idCache id := by
  unfold Chain.stopPush
  rw [cache_of_files (Exec.Stop.files_adjustStateAfterInsert _ _ _)]
  unfold Sob.cacheEmplace
  split
  · rfl
  · exact if_neg hid

theorem mem_stopPush (s : Sob) (p : Nat) (b : StopBndl) :
    b ∈ ((Chain.stopPush s p b).stops p).elems := by
  unfold Chain.stopPush
  rw [stops_of_files (Exec.Stop.files_adjustStateAfterInsert _ _ _), Sob.stops_cacheEmplace,
    Sob.stops_setStops, if_pos rfl, ChainManager.elems_push]
  exact List.mem_append_right _ (List.mem_singleton_self b)

theorem limits_stopPush (s : Sob) (p : Nat) (b : StopBndl) :
    (Chain.stopPush s p b).limits = s.limits :=
  limits_of_bookView (bookView_stopPush s p b)

theorem idCache_updateAt (s : Sob) (c : ChainIterWrap) (id : Nat) (f : OrderBndl → OrderBndl) :
    (s.updateAt c id f).idCache = s.idCache := by
  unfold Sob.updateAt; split <;> rfl

theorem limitIds_updateAt {s : Sob} {c : ChainIterWrap} {id : Nat} {f : OrderBndl → OrderBndl}
    (hf : ∀ b, (f b).id = b.id) : (s.updateAt c id f).limitIds = s.limitIds := by
  funext p
  unfold Sob.limitIds
  rw [elems_updateAt]
  split
  · exact Chain.map_updateLimit fun b => hf b.toOrderBndl
  · rfl

theorem files_insertedLeg (w : World) (id : Nat) (isBuy : Bool) (nticks : Nat) :
    ((w.log (.trailingStopInsert id isBuy nticks (w.itop w.last))).onSob
      (·.trailingInserted id isBuy)).files = w.files :=
  files_trailingInserted _ _ _

theorem wp_insertTrailingLeg {Q : Unit → World → Prop} {E : Err → World → Prop} {id : Nat}
    {isBuy : Bool} {nticks : Nat}
    (h : Q () ((w.log (.trailingStopInsert id isBuy nticks (w.itop w.last))).onSob
      (·.trailingInserted id isBuy))) : wp (insertTrailingLeg id isBuy nticks) Q E w := by
  unfold insertTrailingLeg trailingStopInsert
  refine wp_getSob_bind (wp_record_bind (wp_modifySob ?_))
  cases isBuy <;> exact h

/-- The entry order, if it still rests, is told of its exits. -/
theorem Steps.tellEntry {e : OrderQueueElem} {legs : List Leg} {exits : Option (Nat × Nat)}
    (h : Steps c₀ (F.inserts e legs exits, w)) (hF : F.Calm)
    (hcond : e.condition = .bracketActive ∨ e.condition = .trailingBracketActive ∨
      e.condition = .trailingStopActive) {parentId : Nat}
    {f : Payload → Option Payload} (hf : ∀ c b payload, w.idCache parentId = some c →
      w.bndlAt c parentId = some b → f b.payload = some payload →
        ((∃ first second ex, exits = some ex ∧ payload = .bracketOrders first second ex.1 ex.2) ∨
          ∃ params, ∃ l ∈ legs, l.type = .stop ∧ payload = .contingentNticksOrder params l.id) ∧
          ∀ p, parentId ∈ w.limitIds p → parentId ∉ payload.refs) :
    wp (tellEntry parentId f) (fun _ w' => Inserted c₀ F e w') (Leaves c₀) w := by
  unfold SimpleOrderbook.tellEntry
  refine wp_getSob_bind ?_
  split
  next => exact wp_pure ⟨legs, exits, h⟩
  next c hc =>
    refine wp.bind (wp_deref (Q := fun b w' => w.bndlAt c parentId = some b ∧ w' = w)
      (fun b hb => ⟨hb, rfl⟩) fun _ => .undefined) ?_
    rintro b w ⟨hb, rfl⟩
    split
    next => exact wp_throw .undefined
    next payload hpay =>
      obtain ⟨hp, hself⟩ := hf c b payload hc hb hpay
      exact wp_modifySob ⟨legs, exits, h.step (.tellEntry e parentId c payload hF.gap rfl hcond hc hp
        hself)⟩

/-- The loss leg of a bracket. -/
theorem Steps.insertLossLeg {e : OrderQueueElem} {cp1 : OrderParamaters} {l : Leg}
    {legs : List Leg} {p rmndr : Nat} (h0 : WellFormed c₀) (hF : F.Calm) (isTrailing : Bool)
    (hcond : e.condition = .bracketActive ∨ e.condition = .trailingBracketActive)
    (htrail : isTrailing = true ↔ e.condition = .trailingBracketActive)
    (h : Steps c₀ (F.inserts e legs none, w)) (hl : l ∈ legs) (hid : l.id = e.id)
    (hz : rmndr ≠ 0) (hbound : ∀ c x, w.idCache e.id = some c → w.bndlAt c e.id = some x →
      x.sz ≤ l.sz → x.sz ≤ rmndr)
    (hp : isTrailing = true → w.StopOffset cp1.isBuy cp1.stopNticks w.last p)
    (hlevel : w.HasLevel p) :
    wp (insertLossLeg isTrailing e cp1 p rmndr) (fun _ w' => Inserted c₀ F e w') (Leaves c₀) w := by
  unfold SimpleOrderbook.insertLossLeg
  rw [← hid] at hbound ⊢
  let id2 := w.lastId + 1
  let w1 := w.onSob fun s => { s with lastId := s.lastId + 1 }
  have h1 : Steps c₀ ((F.inserts e legs none).give id2, w1) := h.step (.act .newId)
  have hnew : ∀ q, id2 ∉ w1.limitIds q :=
    (h1.wellFormed h0).ambient.pending_new id2 (by simp [Sob.pending, Flight.give])
  refine wp_generateId_bind (wp.bind (wp_idCacheAt (Q := fun c w' => w1.idCache l.id = some c ∧
    w' = w1) (fun c hc => ⟨hc, rfl⟩) fun _ => h1.fails ((hF.inserts e legs none).give id2) rfl) ?_)
  rintro c _ ⟨hc, rfl⟩
  let b : StopBndl :=
    { id := id2, sz := rmndr, cb := e.cb, isBuy := cp1.isBuy, limit := cp1.limitPrice,
      condition := e.condition, trigger := e.trigger,
      payload := .linkedOrder ⟨l.id, true, if isTrailing then some cp1.stopNticks else none⟩ }
  let nticks1 := if isTrailing then some 0 else none
  let w2 := w1.onSob fun s => Chain.stopPush
    (s.armed c l.id e.condition e.trigger (.linkedOrder ⟨id2, false, nticks1⟩)) p b
  let F2 := F.inserts e [] (some (id2, l.id))
  have hb : b.isActiveTrailing ↔ isTrailing = true := by
    rw [OrderBndl.isActiveTrailing_iff, htrail]
    rcases hcond with hc | hc <;> simp [b, OrderCondition.trails, hc]
  -- a trailing stop is announced, and its id inserted after the push
  let arriving := if isTrailing then (id2, cp1.isBuy) :: F.arriving else F.arriving
  have h1 : Steps c₀ ({ (F.inserts e legs none).give id2 with arriving := arriving }, w1) := by
    cases isTrailing with
    | false => exact h1
    | true => exact h1.step (.announce id2 cp1.isBuy)
  have h2 : Steps c₀ ({ F2 with arriving := arriving }, w2) := by
    refine h1.step (.openLoss e l c p b nticks1 _ F.ids hF.gap rfl hl rfl hcond ⟨rfl, rfl⟩ hc
      ⟨hz, fun x hx => hbound c x hc hx⟩ rfl (fun n hn => ?_) hlevel (fun ht => ?_) hF.leaving)
    · cases isTrailing with
      | false => simp at hn
      | true => cases hn; exact hp rfl
    · simp [arriving, hb.mp ht, b]
  refine wp_modifySob_bind (wp_modifySob_bind ?_)
  refine wp.bind (R := fun _ w' => Steps c₀ (F2, w') ∧ w'.files = w2.files) (wp_ite (fun ht =>
    wp_insertTrailingLeg ⟨?_, files_insertedLeg _ _ _ _⟩) fun hf => wp_pure ⟨?_, rfl⟩) ?_
  · exact h2.step (.trailingInsert id2 cp1.isBuy cp1.stopNticks F.arriving (if_pos ht)
      ⟨p, b, mem_stopPush _ p b, rfl, rfl, hb.mpr ht⟩)
  · rwa [show arriving = F.arriving from if_neg hf] at h2
  rintro _ w3 ⟨h3, hf3⟩
  refine wp_getSob_bind (wp_pushExecCallback_bind ?_)
  let w4 := w3.report .triggerBracketOpenLoss e.cb e.parentId id2 (w3.itop p) rmndr
  have h4 : Steps c₀ (F2, w4) := h3.step (.act (.report ..))
  have hf4 : w4.files = w2.files := (files_report _ _ _ _ _ _ _).trans hf3
  refine h4.tellEntry hF (hcond.imp_right .inl) fun c' x payload hc' hx hpay => ?_
  split at hpay
  case h_2 => cases hpay
  next first second a1 a2 hentry =>
  cases hpay
  refine ⟨.inl ⟨first, second, _, rfl, rfl⟩, fun q hq hm => ?_⟩
  -- the entry is not the new stop, which is in no limit chain, nor the target, which is linked
  have hids : w4.limitIds q = w1.limitIds q := by
    have harm : (w1.armed c l.id e.condition e.trigger
        (.linkedOrder ⟨id2, false, nticks1⟩)).limitIds q = w1.limitIds q :=
      congrFun (limitIds_updateAt (f := fun b => { b with
        condition := e.condition, trigger := e.trigger
        payload := .linkedOrder ⟨id2, false, nticks1⟩ }) fun _ => rfl) q
    rw [← harm]
    unfold Sob.limitIds
    rw [limits_of_files hf4, World.toSob_onSob, limits_stopPush]
  have hne : e.parentId ≠ id2 := fun heq => hnew q (heq ▸ hids ▸ hq)
  have heq : e.parentId = l.id := by
    simp only [Payload.refs] at hm
    split at hm
    · cases hm
    · exact (List.mem_pair.mp hm).resolve_left hne
  have hne' : l.id ≠ b.id := heq ▸ hne
  rw [heq, cache_of_files hf4, World.toSob_onSob, idCache_stopPush _ _ _ hne', Sob.armed,
    idCache_updateAt, hc] at hc'
  cases hc'
  rw [heq, bndlAt_of_files hf4, World.toSob_onSob, bndlAt_stopPush _ _ _ _ hne', Sob.armed,
    bndlAt_updateAt (by simp)] at hx
  obtain ⟨y, -, rfl⟩ := Option.map_eq_some_iff.mp hx
  cases hentry

section Insert
variable {e : OrderQueueElem} (h0 : WellFormed c₀) (hF : F.Calm) (hhands : F.hands = [])
  (h : Steps c₀ ((F.inserts e [] none).holdNew e.id e.sz, w))
include h0 hF hhands h

theorem Steps.insertOTOOrder (hcond : e.condition = .oneTriggersOther) :
    wp (insertOTOOrder e) (fun _ w' => Inserted c₀ F e w') (Leaves c₀) w := by
  unfold SimpleOrderbook.insertOTOOrder
  have hAON : ¬ e.isAON := by simp [OrderQueueElem.isAON, hcond]
  refine wp.bind (wp_derefParams (Q := fun op w' => e.cparams1 = some op ∧ w' = w)
    fun op hop => ⟨hop, rfl⟩) ?_
  rintro op w ⟨hop, rfl⟩
  refine (h.injectBasicOrder h0 (hF.inserts e [] none) hhands (F.inserts_self e) hAON _).bind ?_
  rintro ok w1 ⟨_, filled, h1, ⟨legs, rfl, -, hrest⟩, hok⟩
  let F1 := F.inserts e legs none
  refine wp_ite (fun _ => ?_) fun hno => ?_
  · have hsz : F1.Sizes op.size := .inr ⟨e, rfl, .inr ⟨hcond, op, hop, rfl⟩⟩
    exact (h1.lift (Acts.execOTOOrder .refl hsz (.inr ⟨e, rfl, .inl hcond⟩) _ _)).post fun _ w2 h2 => ⟨legs, none, h1.acts h2⟩
  · refine wp.bind (wp_idCacheAt (Q := fun c w' => w1.idCache e.id = some c ∧ w' = w1)
      (fun c hc => ⟨hc, rfl⟩) fun _ => h1.fails (hF.inserts e legs none) rfl) ?_
    rintro c w1 ⟨hc, rfl⟩
    refine wp_modifySob ⟨legs, none, h1.step (.arm e e.id c _ hF.gap rfl (fun hz => ?_) hc
      (.inl ⟨hcond, op, hop, rfl⟩) rfl)⟩
    obtain ⟨l, hl, hplaced⟩ := hrest.resolve_left fun heq => hz (hok (by simpa using hno) heq)
    exact ⟨l, hl, hplaced.id⟩

theorem Steps.insertOCOOrder (hcond : e.condition = .oneCancelsOther) :
    wp (insertOCOOrder e) (fun _ w' => Inserted c₀ F e w') (Leaves c₀) w := by
  unfold SimpleOrderbook.insertOCOOrder
  have hAON : ¬ e.isAON := by simp [OrderQueueElem.isAON, hcond]
  have hid : e.id ≤ w.lastId := (h.wellFormed h0).ambient.pending_le e.id (by
    simp [Sob.pending, Flight.holdNew, Flight.give, Flight.hold])
  refine wp.bind (wp_derefParams (Q := fun op w' => e.cparams1 = some op ∧ w' = w)
    fun op hop => ⟨hop, rfl⟩) ?_
  rintro op w ⟨hop, rfl⟩
  refine ((Steps.injectBasicOrder (h.wellFormed h0) (hF.inserts e [] none) hhands (F.inserts_self e) hAON _ .refl).mono (fun _ _ hq => hq) fun _ _ he => he.after h).bind ?_
  rintro ok w1 ⟨_, filled, h1, ⟨legs, rfl, -, hrest⟩, hok⟩
  let F1 := F.inserts e legs none
  have hid1 : e.id ≤ w1.lastId := hid.trans (Steps.lastId_le h1)
  have h1 : Steps c₀ (F1, w1) := h.trans h1
  have hF1 : F1.Calm := hF.inserts e legs none
  refine wp_ite (fun _ => ?_) fun hno => wp_generateId_bind ?_
  · exact wp.bind (h1.lift (Acts.execOCOOrder .refl hF1.gap _ _ _ _ (.of_hit_none hF1.hit 0)))
      fun _ w2 h2 => wp_pure ⟨legs, none, h1.acts h2⟩
  let id2 := w1.lastId + 1
  let e2 : OrderQueueElem :=
    { type := op.getOrderType, isBuy := op.isBuy, limit := op.limitPrice, stop := op.stopPrice,
      sz := op.size, cb := e.cb, id := id2, condition := e.condition, trigger := e.trigger }
  have h2 : Steps c₀ (F1.holdNew id2 op.size, w1.onSob fun s => { s with lastId := s.lastId + 1 }) := by
    rw [Flight.holdNew_eq (F := F1) hhands]
    exact (h1.step (.act .newId)).step (.addLeg e op id2 F1.ids rfl hhands rfl hcond hop)
  refine (h2.injectBasicOrder (e := e2) h0 hF1 hhands ⟨e, rfl, .inr ⟨hcond, rfl, op, hop, rfl, rfl, rfl, rfl, rfl⟩⟩ hAON _).bind ?_
  rintro ok2 w3 ⟨_, filled2, h3, ⟨legs2, rfl, hsub, hrest2⟩, hok2⟩
  let F2 := F.inserts e legs2 none
  have h3 : Steps c₀ (F2, w3) := h3
  have hF2 : F2.Calm := hF.inserts e legs2 none
  refine wp_ite (fun _ => ?_) fun hno2 => ?_
  · exact wp.bind (h3.lift (Acts.execOCOOrder .refl hF2.gap _ _ _ _ (.of_hit_none hF2.hit e.id)))
      fun _ w4 h4 => wp_pure ⟨legs2, none, h3.acts h4⟩
  refine wp.bind (wp_idCacheAt (Q := fun c w' => w3.idCache e.id = some c ∧ w' = w3)
    (fun c hc => ⟨hc, rfl⟩) fun _ => h3.fails hF2 rfl) ?_
  rintro c1 w3 ⟨hc1, rfl⟩
  refine wp.bind (wp_idCacheAt (Q := fun c w' => w3.idCache id2 = some c ∧ w' = w3)
    (fun c hc => ⟨hc, rfl⟩) fun _ => h3.fails hF2 rfl) ?_
  rintro c2 w3 ⟨hc2, rfl⟩
  refine wp_modifySob_bind (wp_modifySob_bind (wp_pure ⟨[], none, ?_⟩))
  refine h3.step (.link e op e.id id2 c1 c2 hF.gap rfl hcond hop (fun hz => ?_) (fun hz => ?_) hc1 hc2
    (by omega))
  · obtain ⟨l, hl, hplaced⟩ := hrest.resolve_left fun heq => hz (hok (by simpa using hno) heq)
    refine ⟨l, hsub hl, hplaced.id, fun hty => ⟨(hplaced.limit hty).1, ?_⟩⟩
    have hgrid : w3.grid = w1.grid := (Steps.grid_eq h3).trans (Steps.grid_eq h1).symm
    rw [levelOf_of_grid hgrid]
    exact (hplaced.limit hty).2
  · obtain ⟨l, hl, hplaced⟩ := hrest2.resolve_left fun heq => hz (hok2 (by simpa using hno2) heq)
    exact ⟨l, hl, hplaced.id, hplaced.limit⟩

theorem Steps.insertBracketOrder (hopens : e.condition.opensExits) (isTrailing : Bool) :
    wp (insertBracketOrder isTrailing e) (fun _ w' => Inserted c₀ F e w') (Leaves c₀) w := by
  unfold SimpleOrderbook.insertBracketOrder
  refine wp.bind (wp_derefParams (Q := fun op w' => w' = w) fun op hop => rfl) ?_
  rintro cp1 w rfl
  refine wp.bind (wp_derefParams (Q := fun op w' => w' = w) fun op hop => rfl) ?_
  rintro cp2 w rfl
  refine (h.routeBasicOrder h0 (hF.inserts e [] none) hhands (F.inserts_self e) (fun _ => rfl)
    fun _ => hopens.not_trails).bind ?_
  rintro filled w1 ⟨_, h1, hr⟩
  obtain ⟨hle, legs, rfl, hrest⟩ := hr.entry
  have h1 : Steps c₀ (F.inserts e legs none, w1) := h1
  refine wp.bind (R := fun _ w' => Steps c₀ (F.inserts e legs none, w')) ?_ fun _ w2 h2 =>
    h2.armRemainder hF hopens (by simp [Payload.refs]) (by simp) hrest
  refine wp_ite (fun ho => ?_) fun _ => wp_pure h1
  exact (h1.lift (Acts.execBracketOrder .refl (Flight.sizes_of_opens ho hle) (.inr ⟨e, rfl, hopens⟩)
    (.inr ⟨e, rfl, .inr hopens⟩) hF.gap ..)).post fun _ _ h2 => h1.acts h2

theorem Steps.insertTrailingStopOrder (hopens : e.condition.opensExits) :
    wp (insertTrailingStopOrder e) (fun _ w' => Inserted c₀ F e w') (Leaves c₀) w := by
  unfold SimpleOrderbook.insertTrailingStopOrder
  refine wp.bind (wp_derefParams (Q := fun op w' => w' = w) fun op hop => rfl) ?_
  rintro cp1 w rfl
  refine (h.routeBasicOrder h0 (hF.inserts e [] none) hhands (F.inserts_self e) (fun _ => rfl)
    fun _ => hopens.not_trails).bind ?_
  rintro filled w1 ⟨_, h1, hr⟩
  obtain ⟨hle, legs, rfl, hrest⟩ := hr.entry
  have h1 : Steps c₀ (F.inserts e legs none, w1) := h1
  refine wp.bind (R := fun _ w' => Steps c₀ (F.inserts e legs none, w')) ?_ fun _ w2 h2 =>
    h2.armRemainder hF hopens (by simp [Payload.refs]) (by simp) hrest
  refine wp_ite (fun ho => ?_) fun _ => wp_pure h1
  exact (h1.lift (Acts.execTrailingStopOrder .refl (Flight.sizes_of_opens ho hle)
    (.inr ⟨e, rfl, hopens⟩) (.inr ⟨e, rfl, .inr hopens⟩) ..)).post fun _ _ h2 => h1.acts h2

/-- `_insert_FOK_order`. -/
theorem Steps.insertFOKOrder (hcond : e.condition = .fillOrKill) :
    wp (insertFOKOrder e) (fun _ w' => Inserted c₀ F e w') (Leaves c₀) w := by
  unfold SimpleOrderbook.insertFOKOrder
  have hAON : ¬ e.isAON := by simp [OrderQueueElem.isAON, hcond]
  refine wp.bind (wp_ptoi (Q := fun _ w' => w' = w) (fun _ _ _ _ => rfl) .undefined) ?_
  rintro p w rfl
  refine wp.bind (wp_lookAhead (Q := fun _ w' => Steps c₀ ((F.inserts e [] none).holdNew e.id e.sz, w'))
    (h.step (.act (.look ..)))) fun _ w h => wp_ite (fun _ => wp.discard ?_) fun _ =>
      wp_pushExecCallback ⟨[], none, ?_⟩
  · refine (h.routeBasicOrder h0 (hF.inserts e [] none) hhands (F.inserts_self e)
      (fun ha => absurd ha hAON) (by simp)).post ?_
    rintro filled w1 ⟨_, h1, legs, rfl, -, -⟩
    exact ⟨legs, none, h1⟩
  · exact (h.step (.kill e e.cb e.id e.sz e.limit F.hands rfl hcond rfl)).step
      (.forget e.id F.ids rfl (Option.some_ne_none e))

/-- `_insert_ALL_OR_NONE_order`, and every order without a condition. -/
theorem Steps.insertBasicOrder {passConditions : Bool} (hpass : e.isAON → passConditions = true)
    (htrail : passConditions = true → ¬ e.condition.trails) :
    wp (SimpleOrderbook.routeBasicOrder e passConditions) (fun _ w' => Inserted c₀ F e w')
      (Leaves c₀) w := by
  refine (h.routeBasicOrder h0 (hF.inserts e [] none) hhands (F.inserts_self e) hpass htrail).post ?_
  rintro filled w1 ⟨_, h1, legs, rfl, -, -⟩
  exact ⟨legs, none, h1⟩

theorem Steps.insertActiveBracketOrder (isTrailing : Bool)
    (hcond : e.condition = .bracketActive ∨ e.condition = .trailingBracketActive)
    (htrail : isTrailing = true ↔ e.condition = .trailingBracketActive) :
    wp (insertActiveBracketOrder isTrailing e) (fun _ w' => Inserted c₀ F e w') (Leaves c₀) w := by
  unfold SimpleOrderbook.insertActiveBracketOrder
  have hAON : ¬ e.isAON := by rcases hcond with hc | hc <;> simp [OrderQueueElem.isAON, hc]
  refine wp.bind (wp_derefParams (Q := fun op w' => w' = w) fun op hop => rfl) ?_
  rintro cp1 w rfl
  refine (h.routeBasicOrder h0 (hF.inserts e [] none) hhands (F.inserts_self e)
    (fun ha => absurd ha hAON) (by simp)).bind ?_
  rintro filled w1 ⟨_, h1, legs, rfl, -, hrest⟩
  have h1 : Steps c₀ (F.inserts e legs none, w1) := h1
  refine wp_ite (fun _ => wp_pushExecCallback ⟨legs, none, h1.step (.act (.report ..))⟩) fun hz =>
    wp_pushExecCallback_bind ?_
  obtain ⟨l, hl, hplaced⟩ := hrest.resolve_left fun heq => hz (by omega)
  let w2 := w1.report .triggerBracketOpenTarget e.cb e.parentId e.id e.limit (e.sz - filled)
  have h2 : Steps c₀ (F.inserts e legs none, w2) := h1.step (.act (.report ..))
  have hfiles : w2.files = w1.files := files_report _ _ _ _ _ _ _
  have hbound : ∀ c x, w2.idCache e.id = some c → w2.bndlAt c e.id = some x → x.sz ≤ l.sz →
      x.sz ≤ e.sz - filled := by
    rw [cache_of_files hfiles, bndlAt_of_files hfiles]
    exact hplaced.bound
  refine wp.bind (R := fun p w' => w' = w2 ∧
    (isTrailing = true → w2.StopOffset cp1.isBuy cp1.stopNticks w2.last p) ∧ w2.HasLevel p)
      (wp_ite (fun _ => ?_) fun hno => wp_ptoi (fun _ hp hpe _ =>
        ⟨rfl, fun ht => absurd ht hno, hp, hpe⟩) .undefined) ?_
  · unfold trailingStopPlevel
    refine wp_getSob_bind ((wp_plevelOffset w2 cp1.isBuy cp1.stopNticks w2.last).mono ?_ ?_)
    · exact fun p w' hq => ⟨hq.2, fun _ => hq.1.1, hq.1.2⟩
    · rintro _ _ (rfl | ⟨rfl, rfl⟩)
      · exact .undefined
      · exact h2.fails (hF.inserts e legs none) rfl
  · rintro p _ ⟨rfl, hp, hlevel⟩
    exact h2.insertLossLeg h0 hF isTrailing hcond htrail hl hplaced.id hz hbound hp hlevel

omit hhands in
theorem Steps.insertTrailingStopActiveOrder (hcond : e.condition = .trailingStopActive) :
    wp (insertTrailingStopActiveOrder e) (fun _ w' => Inserted c₀ F e w') (Leaves c₀) w := by
  unfold SimpleOrderbook.insertTrailingStopActiveOrder
  have hnew : ∀ q, e.id ∉ w.limitIds q := (h.wellFormed h0).ambient.pending_new e.id (by
    simp [Sob.pending, Flight.holdNew, Flight.give, Flight.hold])
  refine wp.bind (wp_derefParams (Q := fun op w' => w' = w) fun op hop => rfl) ?_
  rintro cp1 w rfl
  refine wp.bind (R := fun p w' =>
    (w.StopOffset cp1.isBuy cp1.stopNticks w.last p ∧ w.HasLevel p) ∧ w' = w) ?_ ?_
  · unfold trailingStopPlevel
    refine wp_getSob_bind ((wp_plevelOffset w cp1.isBuy cp1.stopNticks w.last).mono
      (fun _ _ hq => hq) ?_)
    rintro _ _ (rfl | ⟨rfl, rfl⟩)
    · exact .undefined
    · exact h.fails (((hF.inserts e [] none).give e.id).hold e.id e.sz) rfl
  rintro p w ⟨⟨hp, hlevel⟩, rfl⟩
  let b : StopBndl :=
    { id := e.id, sz := e.sz, cb := e.cb, isBuy := e.isBuy, limit := 0,
      condition := e.condition, trigger := e.trigger, payload := .nticks cp1.stopNticks }
  let l : Leg := ⟨e.id, .stop, p, e.sz⟩
  let arriving := (e.id, e.isBuy) :: F.arriving
  have h1 := (h.step (.announce e.id e.isBuy)).step (.pushStop p b F.hands F.ids rfl rfl
    (.inr ⟨_, rfl, ⟨e, rfl, hcond⟩, cp1.isBuy, hp⟩) e ⟨e, rfl, .inl rfl⟩ ⟨rfl, .inr rfl, le_rfl⟩
      rfl rfl hlevel (fun hc => by simp [hcond] at hc) (fun _ => List.mem_cons_self) hF.leaving)
  let w1 := w.onSob fun s => Chain.stopPush s p b
  have h1 : Steps c₀ ({ F.inserts e [l] none with arriving := arriving }, w1) := h1
  have h2 : Steps c₀ (F.inserts e [l] none, _) := h1.step (.trailingInsert e.id e.isBuy
    cp1.stopNticks F.arriving rfl ⟨p, b, mem_stopPush _ p b, rfl, rfl, by
      simp [OrderBndl.isActiveTrailing, OrderBndl.isActiveTrailingStop, b, hcond]⟩)
  refine wp_modifySob_bind (wp.bind (wp_insertTrailingLeg (Q := fun _ w' =>
    Steps c₀ (F.inserts e [l] none, w') ∧ w'.files = w1.files)
      ⟨h2, files_insertedLeg _ _ _ _⟩) ?_)
  rintro _ w2 ⟨h2, hf2⟩
  refine wp_getSob_bind (wp_pushExecCallback_bind ?_)
  let w3 := w2.report .triggerTrailingStopOpenLoss e.cb e.parentId e.id (w2.itop p) e.sz
  have h3 : Steps c₀ (F.inserts e [l] none, w3) := h2.step (.act (.report ..))
  have hf3 : w3.files = w1.files := (files_report _ _ _ _ _ _ _).trans hf2
  refine h3.tellEntry hF (.inr (.inr hcond)) fun c x payload _ _ hpay => ?_
  split at hpay
  case h_2 => cases hpay
  cases hpay
  refine ⟨.inr ⟨_, l, List.mem_singleton_self l, rfl, rfl⟩, fun q hq hm => ?_⟩
  have hids : w3.limitIds q = w.limitIds q := by
    unfold Sob.limitIds
    rw [limits_of_files hf3, World.toSob_onSob, limits_stopPush]
  simp only [Payload.refs] at hm
  split at hm
  · cases hm
  · exact hnew q (List.mem_singleton.mp hm ▸ hids ▸ hq)

/-- `_route_advanced_order`. -/
theorem Steps.routeAdvancedOrder :
    wp (routeAdvancedOrder e) (fun _ w' => Inserted c₀ F e w') (Leaves c₀) w := by
  unfold SimpleOrderbook.routeAdvancedOrder
  split
  next hc =>
    exact (h.insertActiveBracketOrder h0 hF hhands true (.inr hc) (by simp [hc])).bind
      fun _ _ h' => wp_pure h'
  next hc =>
    exact (h.insertActiveBracketOrder h0 hF hhands false (.inl hc) (by simp [hc])).bind
      fun _ _ h' => wp_pure h'
  next hc => exact h.insertOCOOrder h0 hF hhands hc
  next hc => exact (h.insertTrailingStopOrder h0 hF hhands (.inr (.inr hc))).bind fun _ _ h' => wp_pure h'
  next hc => exact (h.insertBracketOrder h0 hF hhands (.inr (.inl hc)) true).bind fun _ _ h' => wp_pure h'
  next hc => exact (h.insertBracketOrder h0 hF hhands (.inl hc) false).bind fun _ _ h' => wp_pure h'
  next hc => exact (h.insertOTOOrder h0 hF hhands hc).bind fun _ _ h' => wp_pure h'
  next hc => exact (h.insertFOKOrder h0 hF hhands hc).bind fun _ _ h' => wp_pure h'
  next hc => exact (h.insertTrailingStopActiveOrder h0 hF hc).bind fun _ _ h' => wp_pure h'
  next hc =>
    exact (wp.discard (h.insertBasicOrder h0 hF hhands (fun _ => rfl) fun _ => by
      simp [OrderCondition.trails, hc])).bind fun _ _ h' => wp_pure h'
  next => exact wp_throw (h.fails (((hF.inserts e [] none).give e.id).hold e.id e.sz) rfl)

end Insert

/-- A flight between two insertions. -/
structure Flight.Idle (F : Flight) : Prop extends F.Calm where
  hands : F.hands = []
  cur : F.cur = none
  legs : F.legs = []
  exits : F.exits = none

/-- `_insert_order`. -/
theorem Steps.insertOrder {e : OrderQueueElem} (h0 : WellFormed c₀) (hF : F.Idle)
    (h : Steps c₀ (F.give e.id, w))
    (hext : F.front = 0 → ∃ e', F.ext = some e' ∧ e = { e' with id := e.id })
    (hint : F.front ≠ 0 → ∃ e' queue, w.internalOrderQueue = e' :: queue ∧
      e = { e' with id := e.id })
    (hid : F.front ≠ 0 → ∀ e' ∈ w.internalOrderQueue.head?, e'.id ≠ 0 → e'.id = e.id) :
    wp (insertOrder e) (fun _ w' => Steps c₀ (F, w')) (Leaves c₀) w := by
  unfold SimpleOrderbook.insertOrder
  refine wp_record_bind ?_
  have hnew : e.id ∉ F.ids := fun hm =>
    (List.nodup_cons.mp (h.wellFormed h0).ambient.pending_nodup).1 (List.mem_append_left _ hm)
  have h1 : Steps c₀ ((F.inserts e [] none).holdNew e.id e.sz, w.log (.insertOrder e)) := by
    rw [Flight.holdNew_eq (F := F.inserts e [] none) hF.hands]
    exact h.step (.accept e F.ids rfl hF.hands hF.cur hext hint hid)
  have hdone : ∀ {w'}, Inserted c₀ F e w' → Steps c₀ (F, w') := fun {w'} ⟨legs, exits, h'⟩ => by
    have := h'.step (.finish hF.hands fun e' he => by cases he; exact hnew)
    rwa [show (F.inserts e legs exits).idle = F by
      unfold Flight.inserts Flight.idle
      rw [← hF.cur, ← hF.legs, ← hF.exits]] at this
  refine wp_ite (fun _ => ?_) fun hno => ?_
  · exact (h1.routeAdvancedOrder h0 hF.toCalm hF.hands).post fun _ _ h' => hdone h'
  · refine (wp.discard (h1.insertBasicOrder h0 hF.toCalm hF.hands (fun ha => ?_) (by simp))).bind
      fun _ _ h' => wp_pure (hdone h')
    unfold OrderQueueElem.isAON at ha
    simp [OrderQueueElem.isAdvanced, of_decide_eq_true ha] at hno

end Steps
end SimpleOrderbook
