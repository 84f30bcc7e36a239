import SimpleOrderbook.Runs
import SimpleOrderbook.Sweep

/-!
# Time and sales

The last price, the last size, the volume and the list of sales are kept apart and written by one
function, `_trade_has_occured`. A level is not the same pointer after the book has grown, and the
sales keep their prices.

## Main results

* `Run.market_data` — between the windows of a run they are those of the trades made so far.
-/
namespace SimpleOrderbook

/-! ## The queries -/

namespace Sob
variable (s : Sob)

/-- `last_price` -/
def lastPrice : Int := if beg ≤ s.last ∧ s.last < s.end_ then s.itop s.last else 0

/-- `min_price` -/
def minPrice : Int := s.itop beg

/-- `max_price` -/
def maxPrice : Int := s.itop (s.end_ - 1)

variable {s}

/-- What the source stores of a sale, less its time. -/
def saleOf (t : PriceTime.Trade Int) : Int × Nat := (t.price, t.size)

theorem HasLevel.price_le {p : Nat} (h : s.HasLevel p) :
    s.minPrice ≤ s.itop p ∧ s.itop p ≤ s.maxPrice := by
  unfold HasLevel at h
  unfold minPrice maxPrice itop
  unfold beg at *
  omega

end Sob

/-! ## What only a trade changes -/

/-- What `_trade_has_occured` writes, with the limits of the book. -/
def Sob.tape (s : Sob) : List (Int × Nat) × Nat × Nat × Nat × Int × Nat :=
  (s.timesales, s.lastSize, s.totalVolume, s.last, s.base, s.end_)

namespace Sob
variable (s : Sob)

theorem tape_settled (bidSide : Bool) (p : Nat) :
    (Exec.Limit.adjustStateAfterPull bidSide s p).tape = s.tape := by
  obtain ⟨_, _, _, _, h⟩ := Exec.Limit.adjustStateAfterPull_eq bidSide s p
  rw [h]
  rfl

theorem tape_aonAdjust (bidSide : Bool) (p : Nat) :
    (Exec.Aon.adjustStateAfterPull bidSide s p).tape = s.tape := by
  obtain ⟨_, _, _, _, h⟩ := Exec.Aon.adjustStateAfterPull_eq bidSide s p
  rw [h]
  rfl

theorem tape_triggered (buyStop : Bool) (p : Nat) :
    (Exec.Stop.adjustStateAfterTrigger buyStop s p).tape = s.tape := by
  obtain ⟨_, _, _, _, h⟩ := Exec.Stop.adjustStateAfterTrigger_eq buyStop s p
  rw [h]
  rfl

theorem tape_freeLimits (bidSide : Bool) (p : Nat) :
    (Exec.Core.findNewBestInside bidSide (s.setLimits p none)).tape = s.tape := by
  obtain ⟨_, _, _, _, h⟩ := Exec.Core.findNewBestInside_eq bidSide (s.setLimits p none)
  rw [h]
  rfl

theorem tape_erasedAon (isBuy : Bool) (p id : Nat) : (s.erasedAon isBuy p id).tape = s.tape := by
  unfold Sob.erasedAon
  dsimp only
  split
  · rw [tape_aonAdjust]
    rfl
  · rfl

theorem tape_erasedStop (p : Nat) (b : StopBndl) : (s.erasedStop p b).tape = s.tape := by
  obtain ⟨_, _, _, _, _, _, h⟩ := s.erasedStop_eq p b
  rw [h]
  rfl

theorem tape_copiedToAons (buyLimit : Bool) (p : Nat) (b : LimitBndl) (c : ChainIterWrap) :
    (s.copiedToAons buyLimit p b c).tape = s.tape := by
  unfold Sob.copiedToAons
  obtain ⟨_, _, _, _, h⟩ := Exec.Aon.adjustStateAfterInsert_eq buyLimit
    ((s.setAons true p ((s.aons true p).push b)).cacheInsert b.id
      ⟨if buyLimit then .aonBuy else .aonSell, c.p⟩) p
  rw [h]
  rfl

theorem tape_updateAt (c : ChainIterWrap) (id : Nat) (g : OrderBndl → OrderBndl) :
    (s.updateAt c id g).tape = s.tape := by
  unfold Sob.updateAt
  split <;> rfl

theorem tape_trailingErased (id : Nat) (isBuy : Bool) : (s.trailingErased id isBuy).tape = s.tape := by
  cases isBuy <;> rfl

theorem tape_trailingInserted (id : Nat) (isBuy : Bool) :
    (s.trailingInserted id isBuy).tape = s.tape := by
  cases isBuy <;> rfl

theorem tape_cacheEmplace (id : Nat) (c : ChainIterWrap) : (s.cacheEmplace id c).tape = s.tape := by
  unfold Sob.cacheEmplace
  split <;> rfl

theorem tape_limitPush (buy : Bool) (p : Nat) (b : LimitBndl) :
    (Chain.limitPush buy s p b).tape = s.tape :=
  (by cases buy <;> rfl : (Chain.limitPush buy s p b).tape = _).trans
    (tape_cacheEmplace (s.setLimits p ((s.limits p).push b)) b.id ⟨.limit, p⟩)

theorem tape_aonPush (buy : Bool) (p : Nat) (b : AonBndl) :
    (Chain.aonPush buy s p b).tape = s.tape :=
  (by cases buy <;> rfl : (Chain.aonPush buy s p b).tape = _).trans
    (tape_cacheEmplace (s.setAons buy p ((s.aons buy p).push b)) b.id
      ⟨if buy then .aonBuy else .aonSell, p⟩)

theorem tape_stopPush (p : Nat) (b : StopBndl) : (Chain.stopPush s p b).tape = s.tape := by
  unfold Chain.stopPush
  obtain ⟨_, _, _, _, h⟩ := Exec.Stop.adjustStateAfterInsert_eq b.isBuy
    ((s.setStops p ((s.stops p).push b)).cacheEmplace b.id ⟨.stop, p⟩) p
  rw [h]
  exact tape_cacheEmplace _ _ _

end Sob

/-! ## Trades are recorded -/

/-- No trade was made on the pad. -/
def World.TradedOnBook (w : World) : Prop :=
  ∀ price plev size id1 id2, .trade price plev size id1 id2 ∈ w.trace → beg ≤ plev

theorem World.TradedOnBook.log {w : World} {ev : Event} (h : w.TradedOnBook) (hev : ev.asTrade = none) :
    (w.log ev).TradedOnBook := by
  intro price plev size id1 id2 hm
  rcases List.mem_cons.mp hm with rfl | hm
  · cases hev
  · exact h _ _ _ _ _ hm

/-- Nothing is sold, or one trade is, at level `p`. -/
inductive World.Sells (w w' : World) : Prop where
  | nothing (htape : w'.tape = w.tape) (htrades : w'.trades = w.trades)
      (hon : w.TradedOnBook → w'.TradedOnBook)
  | one (p size id1 id2 : Nat) (hp : w.HasLevel p)
      (htape : w'.tape = (w.timesales ++ [(w.itop p, size)], size, asSize (w.totalVolume + size), p,
        w.base, w.end_))
      (htrades : w'.trades = w.trades ++ [⟨id1, id2, w.itop p, size⟩])
      (hon : w.TradedOnBook → w'.TradedOnBook)

section Sells
variable {w w' : World} {F F' : Flight}

theorem World.Sells.onSob {f : Sob → Sob} (h : w.Sells w') (hf : (f w'.toSob).tape = w'.tape) :
    w.Sells (w'.onSob f) := by
  cases h with
  | nothing htape htrades hon => exact .nothing (hf.trans htape) htrades hon
  | one p size id1 id2 hp htape htrades hon =>
    exact .one p size id1 id2 hp (hf.trans htape) htrades hon

theorem World.Sells.log {ev : Event} (h : w.Sells w') (hev : ev.asTrade = none) :
    w.Sells (w'.log ev) := by
  cases h with
  | nothing htape htrades hon =>
    exact .nothing htape ((trades_log w' hev).trans htrades) fun h => (hon h).log hev
  | one p size id1 id2 hp htape htrades hon =>
    exact .one p size id1 id2 hp htape ((trades_log w' hev).trans htrades) fun h => (hon h).log hev

theorem World.Sells.report (h : w.Sells w') (msg : CallbackMsg) (cb : OrderExecCbBndl) (id1 id2 : Nat)
    (price : Int) (sz : Nat) : w.Sells (w'.report msg cb id1 id2 price sz) := by
  have hlog : w.Sells (w'.log (.callback msg cb id1 id2 price sz)) := h.log rfl
  refine hlog.onSob ?_
  obtain ⟨_, _, heq⟩ := w'.pushDfrdCb_eq cb fun f => ⟨msg, f, id1, id2, price, sz⟩
  exact (congrArg Sob.tape heq).trans rfl

theorem World.Sells.refl (w : World) : w.Sells w := .nothing rfl rfl id

theorem World.Sells.of_log {ev : Event} (hev : ev.asTrade = none) (h : (w.log ev).Sells w') :
    w.Sells w' := by
  cases h with
  | nothing htape htrades hon =>
    exact .nothing htape (htrades.trans (trades_log w hev)) fun h => hon (h.log hev)
  | one p size id1 id2 hp htape htrades hon =>
    refine .one p size id1 id2 hp htape (htrades.trans ?_) fun h => hon (h.log hev)
    rw [trades_log w hev]
    rfl

theorem World.sells_traded (plev size id1 id2 : Nat) (cb1 cb2 : OrderExecCbBndl)
    (hp : w.HasLevel plev) : w.Sells (w.traded plev size id1 id2 cb1 cb2) := by
  obtain ⟨_, _, h⟩ := w.traded_eq plev size id1 id2 cb1 cb2
  rw [h]
  refine .one plev size id1 id2 hp rfl ?_ fun hon price q n i j hm => ?_
  · simp only [World.trades, List.reverse_cons, List.filterMap_append, List.append_assoc]
    rfl
  · rcases List.mem_cons.mp hm with heq | hm
    · cases heq
      exact hp.1
    · exact hon price q n i j (by simpa using hm)

theorem Act.sells (h : Act (F, w) (F', w')) : w.Sells w' := by
  cases h with
  | report => exact (World.Sells.refl _).report _ _ _ _ _ _
  | enqueue => exact ((World.Sells.refl _).log rfl).onSob rfl
  | pulled | missFront | pullEmptyStop | look => exact (World.Sells.refl _).log rfl
  | newId | popLimit => exact (World.Sells.refl _).onSob rfl
  | moveFront =>
    exact (((World.Sells.refl _).log rfl).onSob (Sob.tape_copiedToAons _ _ _ _ _)).onSob rfl
  | settle => exact (World.Sells.refl _).onSob (Sob.tape_settled _ _ _)
  | popAon => exact ((World.Sells.refl _).log rfl).onSob (Sob.tape_erasedAon _ _ _ _)
  | popStop => exact (World.Sells.refl _).onSob (Sob.tape_erasedStop _ _ _)
  | trailingErase => exact (World.Sells.refl _).onSob (Sob.tape_trailingErased _ _ _)
  | grow | tell => exact (World.Sells.refl _).onSob (Sob.tape_updateAt _ _ _ _)
  | growBoth =>
    exact (((World.Sells.refl _).onSob (Sob.tape_updateAt _ _ _ _)).report _ _ _ _ _ _).onSob
      (Sob.tape_updateAt _ _ _ _)
  | close | drop | lose => exact .refl _

theorem Move.sells (hw : WellFormed (F, w)) (h : Move (F, w) (F', w')) : w.Sells w' := by
  cases h with
  | act h => exact h.sells
  | call ev hev => exact (World.Sells.refl _).log (by cases ev <;> first | rfl | exact hev.elim)
  | fillAon bidSide plev id size cb b kept bs hands hh hl =>
    have hp : w.HasLevel plev := hw.aons bidSide plev (by rw [hl]; exact Option.some_ne_none _)
    exact ((World.sells_traded _ _ _ _ _ _ hp).log rfl).onSob rfl
  | fillLastAon bidSide plev id size cb b hands hh hl =>
    have hp : w.HasLevel plev := hw.aons bidSide plev (by rw [hl]; exact Option.some_ne_none _)
    exact ((World.sells_traded _ _ _ _ _ _ hp).log rfl).onSob (Sob.tape_aonAdjust _ _ _)
  | freeAon => exact (World.Sells.refl _).onSob (Sob.tape_aonAdjust _ _ _)
  | moveHit =>
    exact (((World.Sells.refl _).log rfl).onSob (Sob.tape_copiedToAons _ _ _ _ _)).onSob rfl
  | fill h id size cb b todo hands hh hhit htodo hl =>
    refine World.sells_traded _ _ _ _ _ _ (hw.ambient.inRange fun hn => ?_)
    rw [hn] at hl
    cases hl
  | retire => exact (((World.Sells.refl _).onSob rfl).log rfl).onSob rfl
  | freeHit | wipeHit => exact (World.Sells.refl _).onSob (Sob.tape_freeLimits _ _ _)
  | moveStop =>
    exact (((World.Sells.refl _).onSob (Sob.tape_erasedStop _ _ _)).report _ _ _ _ _ _).onSob
      (Sob.tape_stopPush _ _ _)
  | beginHit | beginScan | turnScan => exact (World.Sells.refl _).log rfl
  | detach => exact (World.Sells.refl _).onSob (Sob.tape_triggered _ _ _)
  | eraseTriggered => exact (World.Sells.refl _).onSob (Sob.tape_trailingErased _ _ _)
  | turn =>
    exact ((((World.Sells.refl _).log rfl).report _ _ _ _ _ _).log rfl).onSob rfl
  | rearm | reduce | eraseHit | endScan | endTrigger =>
    exact (World.Sells.refl _).onSob rfl
  | skip | missHit | beginTrigger | endDetached => exact .refl _

/-- A step that is no trade of `_trade`. -/
theorem Step.sells (h : Step (F, w) (F', w')) : w.Sells w' ∨ Moves (F, w) (F', w') := by
  cases h with
  | act h => exact .inl h.sells
  | trade _ _ _ _ _ _ _ _ _ _ hm => exact .inr hm
  | kill => exact .inl ((World.Sells.refl _).report _ _ _ _ _ _)
  | print _ _ _ _ _ _ _ _ _ _ _ _ _ hlevel =>
    exact .inl (.of_log rfl (World.sells_traded _ _ _ _ _ _ hlevel))
  | pushLimit => exact .inl ((World.Sells.refl _).onSob (Sob.tape_limitPush _ _ _ _))
  | pushAon => exact .inl ((World.Sells.refl _).onSob (Sob.tape_aonPush _ _ _ _))
  | pushStop => exact .inl ((World.Sells.refl _).onSob (Sob.tape_stopPush _ _ _))
  | arm | tellEntry => exact .inl ((World.Sells.refl _).onSob (Sob.tape_updateAt _ _ _ _))
  | link =>
    exact .inl ((World.Sells.refl _).onSob
      ((Sob.tape_updateAt _ _ _ _).trans (Sob.tape_updateAt _ _ _ _)))
  | openLoss =>
    exact .inl ((World.Sells.refl _).onSob
      ((Sob.tape_stopPush _ _ _).trans (Sob.tape_updateAt _ _ _ _)))
  | trailingInsert =>
    exact .inl (((World.Sells.refl _).log rfl).onSob (Sob.tape_trailingInserted _ _ _))
  | accept => exact .inl ((World.Sells.refl _).log rfl)
  | endOrder => exact .inl ((World.Sells.refl _).onSob rfl)
  | beginOrder | addLeg | finish | forget | announce => exact .inl (.refl _)

/-! ## The records of the trades -/

/-- What the queries tell is what was traded. -/
structure World.TapeRight (w : World) : Prop where
  sales : w.timesales = w.trades.map Sob.saleOf
  volume : w.totalVolume = asSize (w.trades.map (·.size)).sum
  untraded : w.trades = [] → w.last = 0 ∧ w.lastSize = 0
  last : ∀ t, w.trades.getLast? = some t →
    w.HasLevel w.last ∧ w.itop w.last = t.price ∧ w.lastSize = t.size
  range : ∀ t ∈ w.trades, w.minPrice ≤ t.price ∧ t.price ≤ w.maxPrice
  onBook : w.TradedOnBook

namespace World.TapeRight

theorem sells (h : w.TapeRight) (hs : w.Sells w') : w'.TapeRight := by
  cases hs with
  | nothing htape htrades hon =>
    simp only [Sob.tape, Prod.mk.injEq] at htape
    obtain ⟨hsales, hsize, hvolume, hlast, hbase, hend⟩ := htape
    have hitop : ∀ p, w'.itop p = w.itop p := fun p => by
      unfold Sob.itop
      rw [hbase]
    refine ⟨?_, ?_, ?_, ?_, ?_, hon h.onBook⟩ <;> rw [htrades]
    · exact hsales.trans h.sales
    · exact hvolume.trans h.volume
    · rw [hlast, hsize]
      exact h.untraded
    · rw [hlast, hsize]
      unfold Sob.HasLevel
      rw [hend]
      intro t ht
      rw [hitop]
      exact h.last t ht
    · unfold Sob.minPrice Sob.maxPrice
      rw [hend, hitop, hitop]
      exact h.range
  | one p size id1 id2 hp htape htrades hon =>
    simp only [Sob.tape, Prod.mk.injEq] at htape
    obtain ⟨hsales, hsize, hvolume, hlast, hbase, hend⟩ := htape
    have hitop : ∀ p, w'.itop p = w.itop p := fun p => by
      unfold Sob.itop
      rw [hbase]
    refine ⟨?_, ?_, fun hnil => ?_, fun t ht => ?_, fun t ht => ?_, hon h.onBook⟩
    · rw [hsales, h.sales, htrades, List.map_append]
      rfl
    · rw [hvolume, h.volume, htrades, List.map_append, List.sum_append, asSize_asSize_add]
      rfl
    · rw [htrades] at hnil
      exact absurd hnil (List.append_ne_nil_of_right_ne_nil _ (List.cons_ne_nil _ _))
    · rw [htrades, List.getLast?_append, List.getLast?_singleton] at ht
      cases Option.some.inj ht
      unfold Sob.HasLevel
      rw [hlast, hend, hitop]
      exact ⟨hp, rfl, hsize⟩
    · rw [htrades] at ht
      unfold Sob.minPrice Sob.maxPrice
      rw [hend, hitop, hitop]
      rcases List.mem_append.mp ht with ht | ht
      · exact h.range t ht
      · cases List.mem_singleton.mp ht
        exact hp.price_le

theorem moves {c c' : Config} (h : c.2.TapeRight) (hm : Moves c c') (hw : WellFormed c) :
    c'.2.TapeRight := by
  induction hm with
  | refl => exact h
  | tail hm hmove ih => exact ih.sells (Move.sells (Moves.wellFormed hm hw) hmove)

theorem steps {c c' : Config} (h : c.2.TapeRight) (hs : Steps c c') (hw : WellFormed c) :
    c'.2.TapeRight := by
  induction hs with
  | refl => exact h
  | tail hs hstep ih =>
    rcases Step.sells hstep with hsells | hm
    · exact ih.sells hsells
    · exact ih.moves hm (Steps.wellFormed hs hw)

/-- The levels move when the book grows below, and the prices stay. -/
theorem growBook (h : w.TapeRight) {base : Int} {incr : Nat} {atBeg : Bool}
    (hend : 1 < w.end_) (hbase : incr ≠ 0 → base = w.base - growOffset incr atBeg) :
    ({ w with toSob := SimpleOrderbook.growBook base incr atBeg w.toSob } : World).TapeRight := by
  by_cases hincr : incr = 0
  · unfold SimpleOrderbook.growBook
    rwa [if_pos hincr]
  have hoff : growOffset incr atBeg ≤ incr := growOffset_le
  have hnew : (SimpleOrderbook.growBook base incr atBeg w.toSob).base = w.base - growOffset incr atBeg := by
    rw [growBook_of_ne hincr, hbase hincr]
    rfl
  have hlimit : (SimpleOrderbook.growBook base incr atBeg w.toSob).end_ = w.end_ + incr :=
    end_growBook hincr
  have hlast : (SimpleOrderbook.growBook base incr atBeg w.toSob).last =
      if w.last = 0 then 0 else w.last + growOffset incr atBeg := by
    rw [growBook_of_ne hincr]
    rfl
  have hsales : (SimpleOrderbook.growBook base incr atBeg w.toSob).timesales = w.timesales ∧
      (SimpleOrderbook.growBook base incr atBeg w.toSob).totalVolume = w.totalVolume ∧
      (SimpleOrderbook.growBook base incr atBeg w.toSob).lastSize = w.lastSize := by
    rw [growBook_of_ne hincr]
    exact ⟨rfl, rfl, rfl⟩
  refine ⟨hsales.1.trans h.sales, hsales.2.1.trans h.volume, fun hnil => ?_, fun t ht => ?_,
    fun t ht => ?_, h.onBook⟩
  · obtain ⟨hzero, hsize⟩ := h.untraded hnil
    exact ⟨hlast.trans (if_pos hzero), hsales.2.2.trans hsize⟩
  · obtain ⟨⟨hlo, hhi⟩, hprice, hsize⟩ := h.last t ht
    rw [if_neg (Nat.ne_of_gt hlo)] at hlast
    refine ⟨⟨hlast ▸ hlo.trans (Nat.le_add_right _ _), ?_⟩, ?_, hsales.2.2.trans hsize⟩
    · rw [hlast, hlimit]
      exact Nat.add_lt_add_of_lt_of_le hhi hoff
    · rw [hlast, ← hprice, Sob.itop_of_beg_le _ (hlo.trans (Nat.le_add_right _ _)),
        Sob.itop_of_beg_le _ hlo, hnew]
      omega
  · obtain ⟨hmin, hmax⟩ := h.range t ht
    have hedge : beg ≤ w.end_ - 1 := Nat.le_sub_one_of_lt hend
    have hedge' : beg ≤ w.end_ + incr - 1 := hedge.trans (by omega)
    unfold Sob.minPrice at hmin ⊢
    unfold Sob.maxPrice at hmax ⊢
    rw [Sob.itop_of_beg_le _ le_rfl] at hmin ⊢
    rw [Sob.itop_of_beg_le _ hedge] at hmax
    rw [hlimit, Sob.itop_of_beg_le _ hedge', hnew]
    omega

theorem closes {r : Request} {o : Outcome} (h : w.TapeRight) (hc : Closes r w o w')
    (hw : ∀ qe, WellFormed (.opened qe, w)) : w'.TapeRight := by
  -- what the close of a window changes is no sale
  have hdrop : ∀ {v : World}, v.TapeRight → ∀ queue, World.TapeRight
      { v with internalOrderQueue := [], trace := .dropped queue :: v.trace } := fun {v} hv queue => by
    have hlog : v.Sells (v.log (.dropped queue)) := (World.Sells.refl v).log rfl
    exact hv.sells (hlog.onSob (f := fun s => { s with internalOrderQueue := [] }) rfl)
  cases hc with
  | refused => exact h
  | rejected => exact hdrop h _
  | grown f hact hs =>
    obtain ⟨base, incr, atBeg, hbase, rfl⟩ := Request.grow_eq hact hs
    exact h.growBook (hw none).levels hbase
  | @value qe _ _ v hqe hs hq cbs =>
    exact (h.steps hs (hw qe)).sells ((World.Sells.refl v).onSob
      (f := fun s => { s with callbacksSync := cbs }) rfl)
  | @left qe err v hqe hs herr =>
    have hv : v.TapeRight := by
      cases hs with
      | undefined => exact absurd rfl herr
      | failed hs hm => exact (h.steps hs (hw qe)).moves hm (Steps.wellFormed hs (hw qe))
      | refused hs => exact h.steps hs (hw qe)
    exact hdrop hv _

theorem initial (h : Initial w) : w.TapeRight := by
  obtain ⟨⟨base, incr, -, -, hw⟩, htrace⟩ := h
  have hnil : w.trades = [] := by
    unfold World.trades
    rw [htrace]
    rfl
  refine ⟨?_, ?_, fun _ => ?_, fun t ht => ?_, fun t ht => ?_, fun _ _ _ _ _ hm => ?_⟩
  · rw [hw, hnil]
    rfl
  · rw [hw, hnil]
    rfl
  · rw [hw]
    exact ⟨rfl, rfl⟩
  · rw [hnil] at ht
    cases ht
  · rw [hnil] at ht
    cases ht
  · rw [htrace] at hm
    cases hm

end World.TapeRight

end Sells

/-! ## The market data of a run -/

theorem Run.tapeRight {w₀ w : World} {rs : List (Request × Outcome)} (h0 : Initial w₀)
    (h : Run w₀ rs w) : w.TapeRight :=
  h.closes_inv h0 (.initial h0) fun hw _ ih hc => ih.closes hc hw

/-- In every run of orders of all types and growths of the book with prices on the book, whatever its
windows end in, the sales listed are the trades made so far in their order, the volume is what a
`size_t` keeps of their sum, the last price and the last size are those of the last one, or 0 before
the first one, and every sale is within the prices of the book. -/
theorem AddressedRun.market_data {w₀ w : World} {rs : List (Request × Outcome)} (h0 : Initial w₀)
    (h : AddressedRun w₀ rs w) (hoff : w.OnBook) : w.timesales = w.trades.map Sob.saleOf ∧
      w.totalVolume = asSize (w.timesales.map (·.2)).sum ∧
      w.lastPrice = (w.timesales.getLast?.map (·.1)).getD 0 ∧
      w.lastSize = (w.timesales.getLast?.map (·.2)).getD 0 ∧
      ∀ sale ∈ w.timesales, w.minPrice ≤ sale.1 ∧ sale.1 ≤ w.maxPrice := by
  have ht := (h.exact hoff).tapeRight h0
  have hlast : w.lastPrice = (w.trades.getLast?.map (·.price)).getD 0 ∧
      w.lastSize = (w.trades.getLast?.map (·.size)).getD 0 := by
    unfold Sob.lastPrice
    cases hl : w.trades.getLast? with
    | none =>
      obtain ⟨hzero, hsize⟩ := ht.untraded (List.getLast?_eq_none_iff.mp hl)
      rw [hzero]
      exact ⟨if_neg fun hp => absurd hp.1 (by decide), hsize⟩
    | some t =>
      obtain ⟨hlevel, hprice, hsize⟩ := ht.last t hl
      exact ⟨(if_pos hlevel).trans hprice, hsize⟩
  rw [ht.sales]
  refine ⟨rfl, ?_, ?_, ?_, fun sale hs => ?_⟩
  · rw [ht.volume, List.map_map]
    rfl
  · rw [hlast.1, List.getLast?_map, Option.map_map]
    rfl
  · rw [hlast.2, List.getLast?_map, Option.map_map]
    rfl
  · obtain ⟨t, hmem, rfl⟩ := List.mem_map.mp hs
    exact ht.range t hmem

/-- The book grows below between two sales. -/
theorem market_data_after_growth : ∃ rs w, AddressedRun (World.create 5 10) rs w ∧
    rs.map (·.1) = [.limit true 8 5, .limit false 7 2, .growBookBelow 2, .limit true 3 1,
      .market false 4] ∧
    w.timesales = [(8, 2), (8, 3), (3, 1)] ∧ (w.lastPrice, w.lastSize, w.totalVolume) = (3, 1, 6) ∧
      w.timesales = w.trades.map Sob.saleOf := by
  obtain ⟨rs, w, h, hoff, hrs, hw⟩ := AddressedRun.exists_of_exec 0
    [.limit true 8 5, .limit false 7 2, .growBookBelow 2, .limit true 3 1, .market false 4]
    (f := fun _ w => (w.timesales, w.lastPrice, w.lastSize, w.totalVolume))
    (v := ([(8, 2), (8, 3), (3, 1)], 3, 1, 6)) (w := World.create 5 10) (by decide +kernel)
  obtain ⟨hsales, hdata⟩ := Prod.mk.inj hw
  exact ⟨rs, w, h, hrs, hsales, hdata,
    (h.market_data (initial_create (by decide) (by decide)) hoff).1⟩

end SimpleOrderbook
