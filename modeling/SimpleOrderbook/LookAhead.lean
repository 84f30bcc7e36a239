import SimpleOrderbook.SweepTakes

/-!
# The look-ahead

After the sweep `_trade` moves the trailing stops and triggers stops. That changes nothing any more
for the order that swept, since stops only leave internal orders in the queue. So the look-ahead
agrees with the trade that follows it, unless its total overflows.
-/
namespace SimpleOrderbook

open Hoare

/-! ## After the sweep -/

/-- Stops `gone` were triggered. -/
structure Fired (gone : List Nat) (w w' : World) : Prop where
  limits : w'.limits = w.limits
  aons : w'.aons = w.aons
  cache : ∀ i, i ∉ gone → w'.idCache i = w.idCache i
  stops : ∀ p, w'.stops p = w.stops p ∨ w'.stops p = none
  window : (w'.lowBuyAon, w'.highBuyAon) = (w.lowBuyAon, w.highBuyAon)
  queue : ∃ new, w'.internalOrderQueue = w.internalOrderQueue ++ new ∧
    ∀ e ∈ new, e.condition = .none

/-- The chains of the stops that were triggered are gone. -/
def FiredAll (w w' : World) : Prop :=
  ∃ gone, Fired gone w w' ∧ ∀ i ∈ gone, ∃ p, w'.stops p = none ∧ ∃ e ∈ (w.stops p).elems, e.id = i

section Fired
variable {gone gone' : List Nat} {w w' w'' : World}

theorem Fired.trans (h : Fired gone w w') (h' : Fired gone' w' w'') : Fired (gone ++ gone') w w'' := by
  obtain ⟨new, hq, hn⟩ := h.queue
  obtain ⟨new', hq', hn'⟩ := h'.queue
  refine ⟨h'.limits.trans h.limits, h'.aons.trans h.aons, fun i hi => ?_, fun p => ?_,
    h'.window.trans h.window, new ++ new', by rw [hq', hq, List.append_assoc], fun e he => ?_⟩
  · rw [List.mem_append, not_or] at hi
    rw [h'.cache i hi.2, h.cache i hi.1]
  · rcases h'.stops p with hp | hp
    · rw [hp]
      exact h.stops p
    · exact .inr hp
  · exact (List.mem_append.mp he).elim (hn e) (hn' e)

theorem Fired.of_files (hf : w'.files = w.files)
    (hw : (w'.lowBuyAon, w'.highBuyAon) = (w.lowBuyAon, w.highBuyAon))
    (hq : w'.internalOrderQueue = w.internalOrderQueue) : Fired [] w w' :=
  ⟨limits_of_files hf, aons_of_files hf, fun i _ => by rw [cache_of_files hf],
    fun p => .inl (congrFun (stops_of_files hf) p), hw, [], by rw [hq, List.append_nil],
    fun e he => by cases he⟩

theorem Fired.report {msg : CallbackMsg} {cb : OrderExecCbBndl} {id1 id2 : Nat} {price : Int}
    {sz : Nat} : Fired [] w (w.report msg cb id1 id2 price sz) := by
  obtain ⟨_, _, hrep⟩ := w.report_eq msg cb id1 id2 price sz
  exact .of_files (files_report ..) (by rw [hrep]) (by rw [hrep])

theorem FiredAll.refl (w : World) : FiredAll w w :=
  ⟨[], .of_files rfl rfl rfl, fun i hi => by cases hi⟩

theorem FiredAll.trans (h : FiredAll w w') (h' : FiredAll w' w'') : FiredAll w w'' := by
  obtain ⟨gone, h1, hg⟩ := h
  obtain ⟨gone', h1', hg'⟩ := h'
  refine ⟨_, h1.trans h1', fun i hi => ?_⟩
  rcases List.mem_append.mp hi with hi | hi
  · obtain ⟨p, hp, he⟩ := hg i hi
    refine ⟨p, ?_, he⟩
    rcases h1'.stops p with hs | hs
    · rw [hs, hp]
    · exact hs
  · obtain ⟨p, hp, e, he, hid⟩ := hg' i hi
    refine ⟨p, hp, e, ?_, hid⟩
    rcases h1.stops p with hs | hs
    · rwa [hs] at he
    · rw [hs] at he
      cases he

end Fired

section Stops
variable {w w' : World} {buyStops : Bool} {plev : Nat} {e : StopBndl}

theorem Sob.Quiet.congr {s s' : Sob} (h : s.Quiet) (hs : s'.stops = s.stops)
    (ht : (s'.trailingBuyStops, s'.trailingSellStops) = (s.trailingBuyStops, s.trailingSellStops)) :
    s'.Quiet := by
  simp only [Prod.mk.injEq] at ht
  exact ⟨by rw [hs]; exact h.stops, by rw [ht.1, ht.2]; exact h.trailing⟩

theorem Sob.Quiet.report {w : World} (h : w.Quiet) {msg : CallbackMsg} {cb : OrderExecCbBndl}
    {id1 id2 : Nat} {price : Int} {sz : Nat} : (w.report msg cb id1 id2 price sz).Quiet := by
  obtain ⟨_, _, hrep⟩ := w.report_eq msg cb id1 id2 price sz
  exact h.congr (stops_of_files (files_report ..)) (by rw [hrep])

theorem cancelTriggered_unconditional (he : e.Unconditional) (w : World) :
    cancelTriggered e w = .ok e.toOrderBndl w := by
  unfold cancelTriggered
  rcases he with hnone | haon
  · rw [if_neg (by simp [OrderBndl.isAdvanced, hnone])]
    rfl
  · rw [if_pos (by simp [OrderBndl.isAdvanced, haon])]
    unfold handleAdvancedOrderCancel
    rw [haon]
    rfl

theorem triggeredOrder_unconditional (he : e.Unconditional) (idNew : Nat) (w : World) :
    ∃ order, order.condition = .none ∧ triggeredOrder e.toOrderBndl e idNew w = .ok order w := by
  have h1 : e.isTrailingStop = false := by
    rcases he with h | h <;> simp [OrderBndl.isTrailingStop, h]
  have h2 : e.isTrailingBracket = false := by
    rcases he with h | h <;> simp [OrderBndl.isTrailingBracket, h]
  unfold triggeredOrder
  rw [h1, h2]
  exact ⟨_, rfl, rfl⟩

theorem triggerTriggered_unconditional (he : e.Unconditional) (w : World) :
    triggerTriggered e.toOrderBndl e w = .ok () w := by
  unfold triggerTriggered
  rcases he with hnone | haon
  · rw [if_neg (by simp [OrderBndl.isAdvanced, hnone])]
    rfl
  · rw [if_pos (by simp [OrderBndl.isAdvanced, OrderBndl.isTrailingStop,
      OrderBndl.isTrailingBracket, haon])]
    unfold handleAdvancedOrderTrigger
    rw [haon]
    rfl

theorem wp_handleTriggeredStop_quiet (h : w.Quiet) (he : e.Unconditional) :
    wp (handleTriggeredStop buyStops plev e) (fun _ w' => w'.Quiet ∧ Fired [e.id] w w')
      (fun _ _ => False) w := by
  let w1 := w.onSob fun s => s.trailingErased e.id buyStops
  have hq1 : w1.Quiet := by
    obtain ⟨h1, h2⟩ := h.trailing
    refine h.congr (stops_of_files (files_trailingErased w.toSob e.id buyStops)) ?_
    cases buyStops <;> simp [w1, Sob.trailingErased, h1, h2]
  let w2 := (w1.onSob fun s => { s with lastId := s.lastId + 1 }).log
    (.stopTriggered e plev w1.last (w1.lastId + 1))
  let msg : CallbackMsg := if e.limit ≠ 0 then .stopToLimit else .stopToMarket
  let w3 := w2.report msg e.cb e.id (w1.lastId + 1) e.limit e.sz
  have hq2 : w2.Quiet := hq1.congr rfl rfl
  have hq3 : w3.Quiet := hq2.report
  have hf1 : Fired [] w w2 := by
    refine .of_files (files_trailingErased w.toSob e.id buyStops) ?_ ?_ <;> cases buyStops <;> rfl
  have hf3 : Fired [] w2 w3 := .report
  obtain ⟨order, hnone, horder⟩ := triggeredOrder_unconditional he (w1.lastId + 1) w3
  unfold handleTriggeredStop
  refine wp_modifySob_bind (wp_bind_ok (cancelTriggered_unconditional he w1) ?_)
  refine wp_generateId_bind (wp_getSob_bind (wp_record_bind (wp_pushExecCallback_bind ?_)))
  refine wp_bind_ok horder (wp_pushInternalOrder_bind (wp_bind_ok
    (triggerTriggered_unconditional he _) (wp_modifySob ?_)))
  refine ⟨⟨hq3.stops, hq3.trailing⟩, (hf1.trans hf3).trans ⟨rfl, rfl, fun i hi => ?_,
    fun _ => .inl rfl, rfl, [order], rfl, fun o ho => ?_⟩⟩
  · rw [World.toSob_onSob, Sob.idCache_cacheErase, if_neg (by simpa using hi)]
    rfl
  · rw [List.mem_singleton.mp ho, hnone]

theorem wp_handleTriggeredStopChain_quiet (h : w.Quiet) :
    wp (handleTriggeredStopChain buyStops plev) (fun _ w' => w'.Quiet ∧ FiredAll w w')
      (fun _ _ => False) w := by
  let w1 := w.onSob fun s =>
    Exec.Stop.adjustStateAfterTrigger buyStops (s.setStops plev none) plev
  obtain ⟨_, _, _, _, hadj⟩ := Exec.Stop.adjustStateAfterTrigger_eq buyStops
    (w.setStops plev none) plev
  have hfiles : w1.files = (w.setStops plev none).files :=
    Exec.Stop.files_adjustStateAfterTrigger ..
  have hstops : ∀ q, w1.stops q = if q = plev then none else w.stops q := fun q => by
    rw [← Sob.stops_setStops]
    exact congrFun (stops_of_files hfiles) q
  have hq1 : w1.Quiet := by
    refine ⟨fun q x hx => ?_, ?_⟩
    · rw [hstops] at hx
      split at hx
      next => cases hx
      next => exact h.stops q x hx
    · rw [show w1.toSob = _ from hadj]
      exact h.trailing
  have hf1 : Fired [] w w1 := by
    refine ⟨?_, ?_, fun i _ => ?_, fun p => ?_, ?_, [], ?_, fun e he => by cases he⟩
    · exact (limits_of_files hfiles).trans (funext fun q => Sob.limits_setStops ..)
    · exact (aons_of_files hfiles).trans (funext fun b => funext fun q => Sob.aons_setStops ..)
    · rw [cache_of_files hfiles]
      rfl
    · rw [hstops]
      split
      · exact .inr rfl
      · exact .inl rfl
    · rw [show w1.toSob = _ from hadj]
      rfl
    · rw [show w1.toSob = _ from hadj, List.append_nil]
      rfl
  unfold handleTriggeredStopChain
  refine wp_getSob_bind (wp_modifySob_bind ?_)
  refine (wp_forM (fun todo w' => w'.Quiet ∧ (∀ e ∈ todo, e ∈ (w.stops plev).elems) ∧
    ∃ gone, Fired gone w w' ∧ w'.stops plev = none ∧
      ∀ i ∈ gone, ∃ e ∈ (w.stops plev).elems, e.id = i)
    ⟨hq1, fun e he => he, [], hf1, (hstops plev).trans (if_pos rfl), fun i hi => by cases hi⟩
    fun e todo w2 hw => ?_).post fun _ w2 hw => ?_
  · obtain ⟨hq2, hsub, gone, hf2, hnone, hgone⟩ := hw
    have he := hsub e List.mem_cons_self
    refine (wp_handleTriggeredStop_quiet hq2 (h.stops plev e he)).post fun _ w3 ⟨hq3, hf3⟩ => ?_
    refine ⟨hq3, fun x hx => hsub x (List.mem_cons_of_mem _ hx), _, hf2.trans hf3, ?_, fun i hi => ?_⟩
    · rcases hf3.stops plev with hs | hs
      · rw [hs, hnone]
      · exact hs
    · rcases List.mem_append.mp hi with hi | hi
      · exact hgone i hi
      · exact ⟨e, he, (List.mem_singleton.mp hi).symm⟩
  · obtain ⟨hq2, -, gone, hf2, hnone, hgone⟩ := hw
    exact ⟨hq2, gone, hf2, fun i hi => ⟨plev, hnone, hgone i hi⟩⟩

theorem wp_triggerBuyStops_quiet (h : w.Quiet) (n p : Nat) :
    wp (triggerBuyStops n p) (fun _ w' => w'.Quiet ∧ FiredAll w w') (fun _ _ => False) w := by
  induction n generalizing w p with
  | zero => exact wp_pure ⟨h, .refl w⟩
  | succ n ih =>
    refine (wp_handleTriggeredStopChain_quiet h).bind fun _ _ h1 => ?_
    exact (ih h1.1 (p + 1)).post fun _ _ h2 => ⟨h2.1, h1.2.trans h2.2⟩

theorem wp_triggerSellStops_quiet (h : w.Quiet) (n p : Nat) :
    wp (triggerSellStops n p) (fun _ w' => w'.Quiet ∧ FiredAll w w') (fun _ _ => False) w := by
  induction n generalizing w p with
  | zero => exact wp_pure ⟨h, .refl w⟩
  | succ n ih =>
    refine (wp_handleTriggeredStopChain_quiet h).bind fun _ _ h1 => ?_
    exact (ih h1.1 (p - 1)).post fun _ _ h2 => ⟨h2.1, h1.2.trans h2.2⟩

theorem FiredAll.log (w : World) (ev : Event) : FiredAll w (w.log ev) :=
  ⟨[], .of_files rfl rfl rfl, fun i hi => by cases hi⟩

theorem wp_checkForStops_quiet (h : w.Quiet) :
    wp checkForStops (fun _ w' => w'.Quiet ∧ FiredAll w w') (fun _ _ => False) w := by
  unfold checkForStops
  refine wp_getSob_bind (wp_ite (fun _ => ?_) fun _ => wp_pure ⟨h, .refl w⟩)
  unfold lookForTriggeredStops
  have hlog : (w.log (.lookForTriggeredStops w.toSob)).Quiet := h
  have hf0 : FiredAll w (w.log (.lookForTriggeredStops w.toSob)) := .log w _
  refine wp_getSob_bind (wp_record_bind ((wp_triggerBuyStops_quiet hlog _ _).bind fun _ w1 h1 =>
    wp_getSob_bind (wp_record_bind
      ((wp_triggerSellStops_quiet (w := w1.log (.lookForSellStops w1.toSob)) h1.1 _ _).bind
        fun _ w2 h2 => wp_modifySob ?_))))
  obtain ⟨gone, hf, hgone⟩ := ((hf0.trans h1.2).trans (.log w1 _)).trans h2.2
  exact ⟨h2.1.congr rfl rfl, gone, ⟨hf.limits, hf.aons, hf.cache, hf.stops, hf.window, hf.queue⟩, hgone⟩

end Stops

/-! ## The look-ahead and the sweep -/

/-- What the look-ahead is asked of: the limit book is not crossed, the cached windows cover the
chains, no order has a condition other than being all-or-none, and every order is in the cache. -/
structure Sob.Scannable (s : Sob) : Prop where
  ordered : s.limitView.Ordered
  covered : ∀ bidSide, s.AonsCovered bidSide
  quiet : s.Quiet
  listed : ∀ bidSide q, s.Listed bidSide q

/-- The orders a scan up to level `plev` meets. -/
def Sob.scanned (s : Sob) (bidSide : Bool) (plev : Nat) : List (Nat × Bool) :=
  (Exec.Core.levels bidSide s plev).flatMap (fillableAt bidSide s)

section LookAhead
variable {w : World} {bidSide : Bool} {plev id size : Nat} {cb : OrderExecCbBndl}

/-- `_trade` returns what is left after the orders of the scan. -/
theorem wp_trade_take (h : w.Scannable) (h1 : 0 < plev) :
    wp (trade bidSide plev id size cb) (fun r _ => r = takeOrders (w.scanned bidSide plev) size)
      (fun _ _ => False) w := by
  unfold trade
  refine wp_getSob_bind (wp_record_bind ?_)
  unfold Sob.scanned
  rw [Exec.Core.levels_eq_scan]
  refine (wp_sweep_take (w := w.log (.tradeCall w.toSob bidSide plev id size))
    ⟨h.ordered, h.covered bidSide, h.quiet, fun q _ => h.listed bidSide q⟩ h1
    (fun q _ hq => fillableAt_of_outside (h.covered bidSide) (.inr hq)) le_rfl).bind ?_
  rintro ⟨r, high, low⟩ w1 ⟨hr, hq1⟩
  refine (wp_adjustTrailingStops_rest (Q := fun _ w' => w'.Quiet) (fun _ _ _ hq => hq)
    (fun _ hq => hq.trailing) hq1).bind fun _ w2 hq2 => ?_
  exact (wp_checkForStops_quiet hq2).bind fun _ _ _ => wp_pure hr

theorem exists_trade_take (h : w.Scannable) (h1 : 0 < plev) :
    ∃ w', trade bidSide plev id size cb w = .ok (takeOrders (w.scanned bidSide plev) size) w' := by
  have hrun := @wp_trade_take w bidSide plev id size cb h h1
  cases ht : trade bidSide plev id size cb w with
  | error err w' => exact (hrun.error ht).elim
  | ok r w' => exact ⟨w', by rw [← hrun.ok ht]⟩

/-- `_limit_is_fillable` says yes exactly if the sweep fills the whole size, and otherwise what the
sweep finds. -/
def AgreesWithTrade (isBuy : Bool) (w : World) (p id sz : Nat) (cb : OrderExecCbBndl) : Prop :=
  ∃ r w', trade (!isBuy) p id sz cb w = .ok r w' ∧
    ((limitIsFillable isBuy w.toSob p sz false).1 = true ↔ r = 0) ∧
    ((limitIsFillable isBuy w.toSob p sz false).1 = false →
      r = sz - (limitIsFillable isBuy w.toSob p sz false).2)

/-- Look-ahead and sweep agree exactly if no total of the look-ahead overflows, or what is left of the
total and the orders behind are as much as the size again. -/
theorem limitIsFillable_agrees_iff {isBuy : Bool} {p sz : Nat} (h : w.Scannable) (hp : beg ≤ p)
    (hpos : 0 < sz) (hsz : sz < 2 ^ 64) : AgreesWithTrade isBuy w p id sz cb ↔
      ∀ front e back, w.scanned (!isBuy) p = front ++ e :: back → Overflows sz front e →
        sz ≤ asSize (sz - takeOrders front sz + e.1) ∨
          (checkElems sz false back (asSize (sz - takeOrders front sz + e.1))).1 = true := by
  rw [← counts_iff hpos hsz]
  obtain ⟨w', ht⟩ := @exists_trade_take w (!isBuy) p id sz cb h hp
  constructor
  · rintro ⟨r', w'', heq, hagrees⟩
    cases ht.symm.trans heq
    exact hagrees
  · exact fun hc => ⟨_, w', ht, hc⟩

end LookAhead

/-! ## Two books -/

/-- What makes a book scannable, of one level. -/
def Sob.ScannableAt (s : Sob) (p : Nat) : Prop :=
  (s.limits p ≠ none → 0 < p ∧
    (s.lowBuyLimit ≤ p ∧ p ≤ s.bid ∨ s.ask ≤ p ∧ p ≤ s.highSellLimit)) ∧
  s.limits p ≠ some [] ∧ (s.limitIds p).Nodup ∧ s.stops p = none ∧
  (∀ b ∈ (s.limits p).elems, (if b.side then p ≤ s.bid else s.ask ≤ p) ∧
    (b.condition = .none ∨ b.condition = .allOrNone) ∧ s.idCache b.id = some ⟨.limit, p⟩) ∧
  ∀ bidSide, (s.aons bidSide p ≠ none → Exec.Aon.inWindow bidSide s p = true) ∧
    ∀ b ∈ (s.aons bidSide p).elems, s.idCache b.id = some ⟨if bidSide then .aonBuy else .aonSell, p⟩

instance (s : Sob) (p : Nat) : Decidable (s.ScannableAt p) := inferInstanceAs (Decidable (_ ∧ _))

theorem Sob.Scannable.of_levels {s : Sob} (hbest : s.bid < s.ask ∧ s.ask ≤ s.end_)
    (htrailing : s.trailingBuyStops = [] ∧ s.trailingSellStops = [])
    (hout : ∀ p, s.end_ ≤ p → s.book p = {}) (h : ∀ p < s.end_, s.ScannableAt p) : s.Scannable := by
  have hall : ∀ p, s.ScannableAt p := fun p => by
    rcases lt_or_ge p s.end_ with hp | hp
    · exact h p hp
    · have hb := hout p hp
      have haons : ∀ bidSide, s.aons bidSide p = none := fun bidSide => by
        unfold Sob.aons
        rw [hb]
        cases bidSide <;> rfl
      unfold Sob.ScannableAt Sob.limitIds Sob.limits Sob.stops
      simp [hb, haons]
  refine ⟨⟨hbest.1, hbest.2, fun p hp => ((hall p).1 hp).2, fun p b hb => ((hall p).2.2.2.2.1 b hb).1,
    fun p => (hall p).2.1, ?_, fun p hp => congrArg Level.limits (hout p hp)⟩,
    fun bidSide p => ((hall p).2.2.2.2.2 bidSide).1, ⟨fun p e he => ?_, htrailing⟩,
    fun bidSide p => ⟨fun b hb => ((hall p).2.2.2.2.1 b hb).2.1, (hall p).2.2.1,
      fun b hb => ((hall p).2.2.2.2.1 b hb).2.2, fun b hb => ?_⟩⟩
  · by_contra hne
    exact absurd ((hall 0).1 hne).1 (lt_irrefl 0)
  · rw [(hall p).2.2.2.1] at he
    cases he
  · exact ⟨_, ((hall p).2.2.2.2.2 bidSide).2 b hb, rfl, by cases bidSide <;> simp⟩

/-- Two sells of 3 and 4 at two levels, an AON of 2 in front of them and one of 5 between them that
is too large for what the first two leave of 8. -/
theorem limitIsFillable_agrees_around_aon :
    let front : Level :=
      { limits := some [⟨{ id := 1, sz := 3 }, false⟩,
          ⟨{ id := 2, sz := 5, condition := .allOrNone }, false⟩],
        aonSells := some [⟨{ id := 3, sz := 2, condition := .allOrNone }, false⟩] }
    let back : Level := { limits := some [⟨{ id := 4, sz := 4 }, false⟩] }
    let s : Sob :=
      { Sob.init 0 8 with
        book := fun p => if p = 2 then front else if p = 3 then back else {}
        ask := 2, highSellLimit := 3, lowSellAon := 2, highSellAon := 2
        idCache := fun i => if i = 1 ∨ i = 2 then some ⟨.limit, 2⟩ else
          if i = 3 then some ⟨.aonSell, 2⟩ else if i = 4 then some ⟨.limit, 3⟩ else none }
    let w : World := { toSob := s, sentinelSz := fun _ => 0 }
    limitIsFillable true s 2 8 false = (false, 5) ∧ AgreesWithTrade true w 2 9 8 {} ∧
      limitIsFillable true s 3 8 false = (true, 9) ∧ AgreesWithTrade true w 3 9 8 {} := by
  intro front back s w
  have hscan : w.Scannable := by
    refine .of_levels (by decide) ⟨rfl, rfl⟩ (fun p hp => ?_) (by decide +kernel)
    have hp : 9 ≤ p := hp
    change (if p = 2 then front else if p = 3 then back else {}) = {}
    rw [if_neg (by omega), if_neg (by omega)]
  refine ⟨by decide, (limitIsFillable_agrees_iff hscan (by decide) (by decide) (by decide)).mpr ?_,
    by decide, (limitIsFillable_agrees_iff hscan (by decide) (by decide) (by decide)).mpr ?_⟩
  · exact fun front e back heq hover => absurd hover (not_overflows_of_sum (by decide) heq)
  · exact fun front e back heq hover => absurd hover (not_overflows_of_sum (by decide) heq)

/-- The sizes of two sells add up to `2 ^ 64`, so the look-ahead finds nothing, and the sweep fills a
buy of any size. -/
theorem not_limitIsFillable_agrees :
    let front : Level := { limits := some [⟨{ id := 1, sz := 2 ^ 63 }, false⟩] }
    let back : Level := { limits := some [⟨{ id := 2, sz := 2 ^ 63 }, false⟩] }
    let s : Sob :=
      { Sob.init 1 20 with
        book := fun p => if p = 11 then front else if p = 12 then back else {}
        ask := 11, highSellLimit := 12
        idCache := fun i => if i = 1 then some ⟨.limit, 11⟩ else
          if i = 2 then some ⟨.limit, 12⟩ else none }
    let w : World := { toSob := s, sentinelSz := fun _ => 0 }
    w.Scannable ∧ limitIsFillable true s 12 (2 ^ 64 - 1) false = (false, 0) ∧
      (∃ w', trade false 12 3 (2 ^ 64 - 1) {} w = .ok 0 w') ∧
      ¬ AgreesWithTrade true w 12 3 (2 ^ 64 - 1) {} := by
  intro front back s w
  have hscan : w.Scannable := by
    refine .of_levels (by decide) ⟨rfl, rfl⟩ (fun p hp => ?_) (by decide +kernel)
    have hp : 21 ≤ p := hp
    change (if p = 11 then front else if p = 12 then back else {}) = {}
    rw [if_neg (by omega), if_neg (by omega)]
  have hlook : limitIsFillable true s 12 (2 ^ 64 - 1) false = (false, 0) := by decide +kernel
  have hzero : takeOrders (w.scanned false 12) (2 ^ 64 - 1) = 0 := by decide +kernel
  obtain ⟨w', ht⟩ := @exists_trade_take w false 12 3 (2 ^ 64 - 1) {} hscan (by decide)
  rw [hzero] at ht
  refine ⟨hscan, hlook, ⟨w', ht⟩, ?_⟩
  rintro ⟨r', w'', heq, hyes, -⟩
  cases ht.symm.trans heq
  have hno := hyes.mpr rfl
  rw [show limitIsFillable true w.toSob 12 (2 ^ 64 - 1) false = (false, 0) from hlook] at hno
  cases hno

end SimpleOrderbook
