import SimpleOrderbook.Agreement
import SimpleOrderbook.Recording

/-!
# Addresses

How far pointers are followed matters in one function of the engine, `_ptoi`, and in the checks of a
new order. While all prices come to levels of the book that are their own, the engine with addresses
of 64 bits runs like the one whose addresses have no bound.
-/
namespace SimpleOrderbook

open Hoare

theorem Grows.keeps {α : Type} {m : M α} {P : Event → Prop} (hm : Grows m) :
    Keeps (World.Recorded P) m := Records.keeps hm P

theorem Grows.agrees {α : Type} {m : M α} {P : Event → Prop} (hm : Grows m) :
    Agrees (World.Recorded P) m m := .refl hm.keeps

/-! ## Programs -/

section Programs
variable {ptr : Pointers} {P : Event → Prop}
  (hptoi : ∀ price, Agrees (World.Recorded P) (@ptoi ptr price) (@ptoi .exact price))
include hptoi

theorem agrees_insertLimitOrder (buyLimit : Bool) (e : OrderQueueElem) (passConditions : Bool) :
    Agrees (World.Recorded P) (@insertLimitOrder ptr buyLimit e passConditions)
      (@insertLimitOrder .exact buyLimit e passConditions) :=
  .bind (hptoi _) fun _ => .bind (grows_matchAonOrdersPreTrade ..).agrees fun _ => .ite (.pure _)
    (.bind (grows_mayTrade ..).agrees fun _ => .ite (.bind (grows_trade ..).agrees fun _ =>
      .ite (.pure _) (grows_restLimitOrder ..).agrees) (grows_restLimitOrder ..).agrees)

theorem agrees_insertStopOrder (buyStop : Bool) (e : OrderQueueElem) (passConditions : Bool) :
    Agrees (World.Recorded P) (@insertStopOrder ptr buyStop e passConditions)
      (@insertStopOrder .exact buyStop e passConditions) :=
  .bind (hptoi _) fun _ => Grows.agrees (.modifySob _)

theorem agrees_routeBasicOrder (e : OrderQueueElem) (passConditions : Bool) :
    Agrees (World.Recorded P) (@routeBasicOrder ptr e passConditions)
      (@routeBasicOrder .exact e passConditions) := by
  unfold routeBasicOrder
  split
  · exact agrees_insertLimitOrder hptoi ..
  · exact .bind (grows_insertMarketOrder ..).agrees fun _ => .pure _
  · exact .bind (agrees_insertStopOrder hptoi ..) fun _ => .pure _
  · exact .bind (agrees_insertStopOrder hptoi ..) fun _ => .pure _
  · exact .throw _

theorem agrees_injectBasicOrder (e : OrderQueueElem) (partialOk : Bool) :
    Agrees (World.Recorded P) (@injectBasicOrder ptr e partialOk)
      (@injectBasicOrder .exact e partialOk) :=
  .bind (agrees_routeBasicOrder hptoi ..) fun _ => .pure _

theorem agrees_insertOTOOrder (e : OrderQueueElem) :
    Agrees (World.Recorded P) (@insertOTOOrder ptr e) (@insertOTOOrder .exact e) :=
  .bind (grows_derefParams _).agrees fun _ => .bind (agrees_injectBasicOrder hptoi ..) fun _ =>
    .ite (Grows.agrees (records_execOTOOrder ..)) (.bind (grows_idCacheAt _).agrees fun _ =>
      (grows_armOrder ..).agrees)

theorem agrees_insertOCOOrder (e : OrderQueueElem) :
    Agrees (World.Recorded P) (@insertOCOOrder ptr e) (@insertOCOOrder .exact e) := by
  refine .bind (grows_derefParams _).agrees fun _ => .bind (agrees_injectBasicOrder hptoi ..) fun _ =>
    .ite (.bind (Grows.agrees (records_execOCOOrder ..)) fun _ => .pure _) ?_
  refine .bind (Grows.agrees records_generateId) fun _ =>
    .bind (agrees_injectBasicOrder hptoi ..) fun _ =>
      .ite (.bind (Grows.agrees (records_execOCOOrder ..)) fun _ => .pure _) ?_
  exact .bind (grows_idCacheAt _).agrees fun _ => .bind (grows_idCacheAt _).agrees fun _ =>
    .bind (grows_armOrder ..).agrees fun _ => .bind (grows_armOrder ..).agrees fun _ => .pure _

theorem agrees_insertBracketOrder (isTrailing : Bool) (e : OrderQueueElem) :
    Agrees (World.Recorded P) (@insertBracketOrder ptr isTrailing e)
      (@insertBracketOrder .exact isTrailing e) :=
  .bind (grows_derefParams _).agrees fun _ => .bind (grows_derefParams _).agrees fun _ =>
    .bind (agrees_routeBasicOrder hptoi ..) fun _ =>
      .bind (.ite (Grows.agrees (records_execBracketOrder ..)) (.pure _)) fun _ =>
        (grows_armRemainder ..).agrees

theorem agrees_insertActiveBracketOrder (isTrailing : Bool) (e : OrderQueueElem) :
    Agrees (World.Recorded P) (@insertActiveBracketOrder ptr isTrailing e)
      (@insertActiveBracketOrder .exact isTrailing e) :=
  .bind (grows_derefParams _).agrees fun _ => .bind (agrees_routeBasicOrder hptoi ..) fun _ =>
    .ite (Grows.agrees (records_pushExecCallback ..)) (.bind (Grows.agrees (records_pushExecCallback ..))
      fun _ => .bind (.ite (grows_trailingStopPlevel ..).agrees (hptoi _)) fun _ =>
        (grows_insertLossLeg ..).agrees)

theorem agrees_insertTrailingStopOrder (e : OrderQueueElem) :
    Agrees (World.Recorded P) (@insertTrailingStopOrder ptr e) (@insertTrailingStopOrder .exact e) :=
  .bind (grows_derefParams _).agrees fun _ => .bind (agrees_routeBasicOrder hptoi ..) fun _ =>
    .bind (.ite (Grows.agrees (records_execTrailingStopOrder ..)) (.pure _)) fun _ =>
      (grows_armRemainder ..).agrees

theorem agrees_insertFOKOrder (e : OrderQueueElem) :
    Agrees (World.Recorded P) (@insertFOKOrder ptr e) (@insertFOKOrder .exact e) :=
  .bind (hptoi _) fun _ => .bind (Grows.agrees (records_lookAhead ..)) fun _ =>
    .ite (.discard (agrees_routeBasicOrder hptoi ..)) (Grows.agrees (records_pushExecCallback ..))

theorem agrees_routeAdvancedOrder (e : OrderQueueElem) :
    Agrees (World.Recorded P) (@routeAdvancedOrder ptr e) (@routeAdvancedOrder .exact e) := by
  unfold routeAdvancedOrder
  split
  · exact .bind (agrees_insertActiveBracketOrder hptoi ..) fun _ => .pure _
  · exact .bind (agrees_insertActiveBracketOrder hptoi ..) fun _ => .pure _
  · exact agrees_insertOCOOrder hptoi e
  · exact .bind (agrees_insertTrailingStopOrder hptoi e) fun _ => .pure _
  · exact .bind (agrees_insertBracketOrder hptoi ..) fun _ => .pure _
  · exact .bind (agrees_insertBracketOrder hptoi ..) fun _ => .pure _
  · exact .bind (agrees_insertOTOOrder hptoi e) fun _ => .pure _
  · exact .bind (agrees_insertFOKOrder hptoi e) fun _ => .pure _
  · exact .bind (grows_insertTrailingStopActiveOrder e).agrees fun _ => .pure _
  · exact .bind (.discard (agrees_routeBasicOrder hptoi ..)) fun _ => .pure _
  · exact .throw _

theorem agrees_insertOrder (e : OrderQueueElem) :
    Agrees (World.Recorded P) (@insertOrder ptr e) (@insertOrder .exact e) :=
  .bind (Grows.agrees (.event trivial)) fun _ => .ite (agrees_routeAdvancedOrder hptoi e)
    (.bind (.discard (agrees_routeBasicOrder hptoi ..)) fun _ => .pure _)

theorem agrees_insertExternalOrder (qe : OrderQueueElem) :
    Agrees (World.Recorded P) (@insertExternalOrder ptr qe) (@insertExternalOrder .exact qe) :=
  .bind (Grows.agrees records_generateId) fun _ => agrees_insertOrder hptoi _

theorem agrees_drainInternalOrders (fuel : Nat) :
    Agrees (World.Recorded P) (@drainInternalOrders ptr fuel) (@drainInternalOrders .exact fuel) := by
  induction fuel with
  | zero => exact .bind (Grows.agrees .getSob) fun _ => .ite (.pure _) (.pure _)
  | succ fuel ih =>
    refine .bind (Grows.agrees .getSob) fun s => ?_
    split
    · exact .pure _
    · exact .bind (.ite (Grows.agrees records_generateId) (.pure _)) fun _ =>
        .bind (.discard (agrees_insertOrder hptoi _)) fun _ =>
          .bind (Grows.agrees (.modifySob _)) fun _ => ih

end Programs

/-! ## `_ptoi` -/

/-- A price that is not on the book. -/
def Event.IsOffBook (ev : Event) : Prop := ∃ s price, ev = .offBook s price

theorem ptoi_apply [Pointers] (price : Int) (w : World) : ptoi price w =
    if (if Pointers.pad then beg - 1 else beg : Int) ≤ w.indexOf price ∧ w.indexOf price < w.end_ then
      .ok (w.indexOf price).toNat (if (beg : Int) ≤ w.indexOf price ∧
        w.indexOf price = w.levelOf price then w else w.log (.offBook w.toSob price))
    else .error .undefinedBehaviour w := by
  unfold ptoi
  change (ite _ _ _ : M Nat) w = _
  by_cases hin : (if Pointers.pad then beg - 1 else beg : Int) ≤ w.indexOf price ∧
      w.indexOf price < w.end_
  · rw [if_pos hin, if_pos hin]
    by_cases hown : (beg : Int) ≤ w.indexOf price ∧ w.indexOf price = w.levelOf price
    · rw [if_pos hown, if_pos hown]
      rfl
    · rw [if_neg hown, if_neg hown]
      rfl
  · rw [if_neg hin, if_neg hin]
    rfl

theorem grows_ptoi [Pointers] (price : Int) : Grows (ptoi price) :=
  .bind .getSob fun _ => .ite (.bind (.ite (.pure _) (.event trivial)) fun _ => .pure _) (.throw _)

theorem agrees_ptoi (price : Int) :
    Agrees (World.Recorded Event.IsOffBook) (@ptoi .machine price) (@ptoi .exact price) := by
  refine ⟨(@grows_ptoi .machine price).keeps, fun w => ?_⟩
  have hmachine : @Sob.indexOf .machine w.toSob price = w.levelOf price % 2 ^ 59 := rfl
  have hexact : @Sob.indexOf .exact w.toSob price = w.levelOf price := rfl
  unfold wp
  rw [@ptoi_apply .machine, @ptoi_apply .exact, hmachine, hexact, show @Pointers.pad .machine = true from rfl,
    show @Pointers.pad .exact = false from rfl, if_pos rfl, if_neg Bool.false_ne_true]
  by_cases hown : (beg : Int) ≤ w.levelOf price % 2 ^ 59 ∧ w.levelOf price % 2 ^ 59 = w.levelOf price
  · -- both read the price at its own level
    left
    have hbeg : (beg : Int) ≤ w.levelOf price := hown.2 ▸ hown.1
    have hpad : (beg : Int) - 1 ≤ w.levelOf price := by omega
    rw [hown.2]
    simp [hbeg, hpad]
  · by_cases hin : (beg : Int) - 1 ≤ w.levelOf price % 2 ^ 59 ∧ w.levelOf price % 2 ^ 59 < w.end_
    · right
      rw [if_pos hin, if_neg hown]
      exact ⟨_, List.mem_cons_self, _, _, rfl⟩
    · -- a price on the book is not larger than its address
      left
      have hout : ¬ ((beg : Int) ≤ w.levelOf price ∧ w.levelOf price < w.end_) := by
        unfold beg at hin ⊢
        omega
      rw [if_neg hin, if_neg hout]

theorem keeps_drainInternalOrders {P : Event → Prop} (fuel : Nat) :
    Keeps (World.Recorded P) (drainInternalOrders fuel) :=
  (agrees_drainInternalOrders (fun price => (grows_ptoi price).agrees) fuel).keeps

/-! ## The checks of a new order -/

/-- The price is one of the book. -/
def Sob.isOnBook (s : Sob) (price : Int) : Bool :=
  (beg : Int) ≤ s.levelOf price ∧ s.levelOf price < s.end_

/-- If the price is admitted, or is one of the book, it is addressed at its own level. -/
def Sob.Addresses [Pointers] (s : Sob) (price : Int) : Prop :=
  s.isValidPrice price = true ∨ s.isOnBook price = true → s.indexOf price = s.levelOf price

/-- The prices of a leg that `_build_price_params` checks. -/
def OrderParamaters.prices (op : OrderParamaters) : List Int :=
  match op.getOrderType with
  | .stopLimit => [op.stopPrice, op.limitPrice]
  | .limit => [op.limitPrice]
  | .stop => [op.stopPrice]
  | .market | .null => []

/-- The prices of a ticket that `_build_advanced_params` checks. -/
def AdvancedOrderTicket.prices (aot : AdvancedOrderTicket) : List Int :=
  match aot.condition with
  | .bracket => (aot.order1.map (·.prices)).getD [] ++ (aot.order2.map (·.prices)).getD []
  | .oneTriggersOther | .oneCancelsOther => (aot.order1.map (·.prices)).getD []
  | _ => []

/-- The prices that are checked before the order is inserted. -/
def ExternalOrderQueueElem.prices (ee : ExternalOrderQueueElem) : List Int :=
  match ee.type with
  | .limit => ee.limit :: ee.aot.prices
  | .stopLimit => ee.limit :: ee.stop :: ee.aot.prices
  | .stop => ee.stop :: ee.aot.prices
  | .market => ee.aot.prices
  | .null => []

/-- A request whose prices are addressed at their own levels. -/
def Request.Addressed [Pointers] (r : Request) (s : Sob) : Prop :=
  match r.action with
  | .ok (.external ee) => ∀ price ∈ ee.prices, s.Addresses price
  | _ => True

instance {ptr : Pointers} (s : Sob) (price : Int) : Decidable (@Sob.Addresses ptr s price) :=
  inferInstanceAs (Decidable (_ → _))

instance {ptr : Pointers} (r : Request) (s : Sob) : Decidable (@Request.Addressed ptr r s) :=
  match h : r.action with
  | .ok (.external ee) =>
    decidable_of_iff (∀ price ∈ ee.prices, @Sob.Addresses ptr s price)
      (by unfold Request.Addressed; rw [h])
  | .ok (.grow _) => isTrue (by unfold Request.Addressed; rw [h]; trivial)
  | .error _ => isTrue (by unfold Request.Addressed; rw [h]; trivial)

theorem Request.Addressed.price [Pointers] {r : Request} {s : Sob} {ee : ExternalOrderQueueElem}
    (h : r.Addressed s) (ha : r.action = .ok (.external ee)) : ∀ price ∈ ee.prices, s.Addresses price := by
  unfold Request.Addressed at h
  rwa [ha] at h

section Checks
variable {s : Sob} {price : Int}

/-- Admitted prices are those of the book. -/
theorem Sob.Addresses.valid [Pointers] (h : s.Addresses price) :
    s.isValidPrice price = s.isOnBook price := by
  by_cases hv : s.isValidPrice price = true ∨ s.isOnBook price = true
  · unfold Sob.isValidPrice
    rw [h hv]
    rfl
  · rw [not_or, Bool.not_eq_true, Bool.not_eq_true] at hv
    exact hv.1.trans hv.2.symm

theorem tickPriceOrThrow_addressed (h : @Sob.Addresses .machine s price) (msg : String) :
    @tickPriceOrThrow .machine s price msg = @tickPriceOrThrow .exact s price msg := by
  have hv : @Sob.isValidPrice .machine s price = @Sob.isValidPrice .exact s price :=
    @Sob.Addresses.valid s price .machine h
  unfold tickPriceOrThrow
  rw [hv]

/-- What comes after a price was admitted may use its level. -/
theorem tickPriceOrThrow_bind {α : Type} {msg : String} {f g : Int → Except Err α}
    (h : @Sob.Addresses .machine s price)
    (hfg : @Sob.indexOf .machine s price = s.levelOf price → f price = g price) :
    (@tickPriceOrThrow .machine s price msg >>= f) = (@tickPriceOrThrow .exact s price msg >>= g) := by
  rw [tickPriceOrThrow_addressed h]
  unfold tickPriceOrThrow
  split
  next hv => exact hfg (h (.inr hv))
  next => rfl

theorem buildPriceParams_addressed {size : Nat} {order : Option OrderParamaters}
    (h : ∀ price ∈ (order.map (·.prices)).getD [], @Sob.Addresses .machine s price) :
    @buildPriceParams .machine s size order = @buildPriceParams .exact s size order := by
  unfold buildPriceParams
  split
  next => rfl
  next =>
    cases order with
    | none => rfl
    | some op =>
      simp only [orderOrThrow, pure_bind]
      simp only [Option.map_some, Option.getD_some, OrderParamaters.prices] at h
      split <;> rename_i hty <;> simp only [hty] at h
      · rw [tickPriceOrThrow_addressed (h _ (by simp)), tickPriceOrThrow_addressed (h _ (by simp))]
      · rw [tickPriceOrThrow_addressed (h _ (by simp))]
      · rw [tickPriceOrThrow_addressed (h _ (by simp))]
      · rfl
      · rfl

theorem buildAdvancedParams_addressed {buy : Bool} {size : Nat} {aot : AdvancedOrderTicket}
    (h : ∀ price ∈ aot.prices, @Sob.Addresses .machine s price) :
    @buildAdvancedParams .machine s buy size aot = @buildAdvancedParams .exact s buy size aot := by
  unfold buildAdvancedParams
  unfold AdvancedOrderTicket.prices at h
  split <;> rename_i hc <;> simp only [hc] at h
  case h_3 =>
    rw [buildPriceParams_addressed fun price hp => h price (List.mem_append_left _ hp),
      buildPriceParams_addressed fun price hp => h price (List.mem_append_right _ hp)]
  case h_4 | h_5 =>
    cases ho : aot.order1 with
    | none => rfl
    | some op =>
      rw [ho] at h
      simp only [orderOrThrow, pure_bind]
      rw [buildPriceParams_addressed h]
  all_goals rfl

theorem checkNticks_addressed {limit : Int} (h : @Sob.indexOf .machine s limit = s.levelOf limit)
    (above : Bool) (nticks : Nat) :
    @checkNticks .machine s above limit nticks = @checkNticks .exact s above limit nticks := by
  unfold checkNticks
  rw [show @Sob.indexOf .exact s limit = @Sob.indexOf .machine s limit from h.symm]

theorem checkTrailing_addressed {isBuy : Bool} {condition : OrderCondition} {bases : List Int}
    {cp1 cp2 : Option OrderParamaters}
    (h : ∀ price ∈ bases, @Sob.indexOf .machine s price = s.levelOf price) :
    @checkTrailing .machine s isBuy condition bases cp1 cp2 =
      @checkTrailing .exact s isBuy condition bases cp1 cp2 := by
  have hforM : ∀ (above : Bool) (f : Except Err Nat),
      (bases.forM fun price => f >>= @checkNticks .machine s above price) =
        bases.forM fun price => f >>= @checkNticks .exact s above price := by
    intro above f
    induction bases with
    | nil => rfl
    | cons price bases ih =>
      have hhead : @checkNticks .machine s above price = @checkNticks .exact s above price :=
        funext (checkNticks_addressed (h price List.mem_cons_self) above)
      have htail := ih fun price hp => h price (List.mem_cons_of_mem _ hp)
      change (f >>= _) >>= (fun _ => bases.forM _) = (f >>= _) >>= fun _ => bases.forM _
      rw [hhead, htail]
  have h1 := hforM isBuy (orderOrThrow cp2 >>= fun op => pure op.limitNticks)
  have h2 := hforM (!isBuy) (orderOrThrow cp1 >>= fun op => pure op.stopNticks)
  simp only [bind_assoc, pure_bind] at h1 h2
  unfold checkTrailing
  rw [h1, h2]

theorem checkLimitTicket_addressed {isBuy : Bool} {condition : OrderCondition} {limit : Int}
    {cp1 cp2 : Option OrderParamaters} (h : @Sob.indexOf .machine s limit = s.levelOf limit) :
    @checkLimitTicket .machine s isBuy condition limit cp1 cp2 =
      @checkLimitTicket .exact s isBuy condition limit cp1 cp2 := by
  unfold checkLimitTicket
  split
  · rfl
  · rfl
  · exact checkTrailing_addressed fun price hp => List.mem_singleton.mp hp ▸ h

theorem orderQueueElem_addressed {ee : ExternalOrderQueueElem}
    (h : ∀ price ∈ ee.prices, @Sob.Addresses .machine s price) (hstop : ee.type = .stop → ee.limit = 0) :
    @orderQueueElem .machine s ee = @orderQueueElem .exact s ee := by
  unfold orderQueueElem
  unfold ExternalOrderQueueElem.prices at h
  cases hty : ee.type with
  | null => rfl
  | market =>
    rw [hty] at h
    simp only [buildAdvancedParams_addressed h]
  | limit =>
    rw [hty] at h
    have hticket := fun price hp => h price (List.mem_cons_of_mem _ hp)
    refine tickPriceOrThrow_bind (h _ List.mem_cons_self) fun hindex => ?_
    simp only [buildAdvancedParams_addressed hticket, checkLimitTicket_addressed hindex]
  | stop =>
    rw [hty] at h
    have hticket := fun price hp => h price (List.mem_cons_of_mem _ hp)
    refine tickPriceOrThrow_bind (h _ List.mem_cons_self) fun hindex => ?_
    rw [hstop hty]
    have hbases : ∀ price ∈ [ee.stop], @Sob.indexOf .machine s price = s.levelOf price :=
      fun price hp => List.mem_singleton.mp hp ▸ hindex
    simp only [buildAdvancedParams_addressed hticket, ne_eq, not_true_eq_false, if_false,
      checkTrailing_addressed hbases]
  | stopLimit =>
    rw [hty] at h
    have hticket := fun price hp => h price (List.mem_cons_of_mem _ (List.mem_cons_of_mem _ hp))
    refine tickPriceOrThrow_bind (h _ List.mem_cons_self) fun hlimit =>
      tickPriceOrThrow_bind (h _ (List.mem_cons_of_mem _ List.mem_cons_self)) fun hindex => ?_
    have hbases : ∀ price ∈ (if ee.limit ≠ 0 then [ee.limit, ee.stop] else [ee.stop]),
        @Sob.indexOf .machine s price = s.levelOf price := by
      intro price hp
      split at hp
      · rcases List.mem_cons.mp hp with rfl | hp
        · exact hlimit
        · exact List.mem_singleton.mp hp ▸ hindex
      · exact List.mem_singleton.mp hp ▸ hindex
    simp only [buildAdvancedParams_addressed hticket, checkTrailing_addressed hbases]

end Checks

/-! ## Windows -/

section Window
variable {w w' : World} {ee : ExternalOrderQueueElem}

theorem agrees_insertAndDrain (qe : OrderQueueElem) (fuel : Nat) :
    Agrees (World.Recorded Event.IsOffBook)
      (do
        let ret ← @insertExternalOrder .machine qe
        return (← @drainInternalOrders .machine fuel).map fun _ => ret)
      (do
        let ret ← @insertExternalOrder .exact qe
        return (← @drainInternalOrders .exact fuel).map fun _ => ret) :=
  .bind (agrees_insertExternalOrder agrees_ptoi qe) fun _ =>
    .bind (agrees_drainInternalOrders agrees_ptoi fuel) fun _ => .pure _

/-- The window of an external order, given what its checks say. -/
theorem executeExternalOrder_eq [Pointers] (fuel : Nat) (ee : ExternalOrderQueueElem) (w : World) :
    executeExternalOrder fuel ee w = (if ee.id ≠ 0 ∧ ee.type = .null then do
        if ← pullOrder ee.id then return (← drainInternalOrders fuel).map fun _ => 1 else return some 0
      else match orderQueueElem w.toSob ee with
        | .error err => throw err
        | .ok qe =>
          if ee.id ≠ 0 then do
            if ← pullOrder ee.id then
              let ret ← insertExternalOrder qe
              return (← drainInternalOrders fuel).map fun _ => ret
            else return some 0
          else do
            let ret ← insertExternalOrder qe
            return (← drainInternalOrders fuel).map fun _ => ret : M (Option Nat)) w := by
  unfold executeExternalOrder
  split
  · rfl
  · rfl

theorem executeExternalOrder_agrees
    (hcheck : @orderQueueElem .machine w.toSob ee = @orderQueueElem .exact w.toSob ee) (fuel : Nat) :
    @executeExternalOrder .machine fuel ee w = @executeExternalOrder .exact fuel ee w ∨
      wp (@executeExternalOrder .machine fuel ee) (fun _ => World.Recorded Event.IsOffBook)
        (fun _ => World.Recorded Event.IsOffBook) w := by
  unfold wp
  rw [@executeExternalOrder_eq .machine, @executeExternalOrder_eq .exact, hcheck]
  refine Agrees.run (.ite ?_ ?_) w
  · exact .bind (Grows.agrees (records_pullOrder _)) fun _ =>
      .ite (.bind (agrees_drainInternalOrders agrees_ptoi fuel) fun _ => .pure _) (.pure _)
  · split
    · exact .throw _
    · exact .ite (.bind (Grows.agrees (records_pullOrder _)) fun _ =>
        .ite (agrees_insertAndDrain ..) (.pure _)) (agrees_insertAndDrain ..)

theorem keeps_executeExternalOrder (fuel : Nat) (ee : ExternalOrderQueueElem) :
    Keeps (World.Recorded Event.IsOffBook) (@executeExternalOrder .machine fuel ee) := by
  have hins := fun qe => (agrees_insertAndDrain qe fuel).keeps
  have hpull : Keeps (World.Recorded Event.IsOffBook) (pullOrder ee.id) :=
    Grows.keeps (records_pullOrder _)
  refine .ite (fun _ => ?_) fun _ => ?_
  · exact hpull.bind fun _ => .ite (fun _ =>
      (agrees_drainInternalOrders agrees_ptoi fuel).keeps.bind fun _ => .pure _) fun _ => .pure _
  · refine (Grows.keeps .getSob).bind fun s => ?_
    split
    · exact .throw _
    · exact .ite (fun _ => hpull.bind fun _ => .ite (fun _ => hins _) fun _ => .pure _) fun _ => hins _

/-- What was recorded until an execution ended is still recorded when its window closes. -/
theorem dispatched {fuel : Nat} {o : Outcome}
    (h : wp (@executeExternalOrder .machine fuel ee) (fun _ => World.Recorded Event.IsOffBook)
      (fun _ => World.Recorded Event.IsOffBook) w)
    (hd : @dispatchExternalOrder .machine fuel ee w = some (o, w')) : w'.Recorded Event.IsOffBook := by
  unfold dispatchExternalOrder at hd
  split at hd
  next => cases hd
  next ret w1 hm =>
    have hw1 := h.ok hm
    split at hd <;> cases hd <;> exact hw1
  next => cases hd
  next err w1 _ hm =>
    obtain ⟨ev, hev, hoff⟩ := h.error hm
    cases hd
    exact ⟨ev, List.mem_cons_of_mem _ hev, hoff⟩

theorem Request.stop_limit {r : Request} (h : r.action = .ok (.external ee)) (hty : ee.type = .stop) :
    ee.limit = 0 := by
  have hzero : ∀ limit, stopOrderType limit = .stop → limit = 0 := fun limit hty => by
    by_contra hne
    rw [stopOrderType, if_pos hne] at hty
    cases hty
  cases r with
  | insertStopOrder buy stop limit size cb advanced =>
    obtain ⟨_, -, h⟩ := Except.bind_ok h
    obtain ⟨_, -, h⟩ := Except.bind_ok h
    cases h
    exact hzero limit hty
  | replaceWithStopOrder id buy stop limit size cb advanced =>
    obtain ⟨_, -, h⟩ := Except.bind_ok h
    obtain ⟨_, -, h⟩ := Except.bind_ok h
    cases h
    exact hzero limit hty
  | growBookAbove | growBookBelow => cases h
  | _ =>
    repeat obtain ⟨_, -, h⟩ := Except.bind_ok h
    cases h
    cases hty

/-- A window with addresses of 64 bits, in which no price off the book was followed, is one of the
engine without them. -/
theorem Window.exact {r : Request} {o : Outcome} (h : @Window .machine r w o w')
    (haddr : @Request.Addressed .machine r w.toSob) (hoff : ¬ w'.Recorded Event.IsOffBook) :
    @Window .exact r w o w' := by
  obtain ⟨fuel, h⟩ := h
  refine ⟨fuel, ?_⟩
  unfold Request.exec at h ⊢
  cases hact : r.action with
  | error err => simpa [hact] using h
  | ok action =>
    cases action with
    | grow f => simpa [hact] using h
    | external ee =>
      rw [hact] at h
      have hrun := executeExternalOrder_agrees (w := w)
        (orderQueueElem_addressed (@Request.Addressed.price .machine _ _ _ haddr hact)
          (Request.stop_limit hact)) fuel
      rcases hrun with heq | hbad
      · change @dispatchExternalOrder .machine fuel ee w = some (o, w') at h
        change @dispatchExternalOrder .exact fuel ee w = some (o, w')
        unfold dispatchExternalOrder at h ⊢
        rwa [← heq]
      · exact absurd (dispatched hbad h) hoff

theorem Window.keeps {r : Request} {o : Outcome} (h : @Window .machine r w o w')
    (hoff : w.Recorded Event.IsOffBook) : w'.Recorded Event.IsOffBook := by
  obtain ⟨fuel, h⟩ := h
  unfold Request.exec at h
  split at h
  next => cases h; exact hoff
  next ee _ => exact dispatched ((keeps_executeExternalOrder fuel ee).run w hoff) h
  next f _ =>
    split at h <;> cases h
    · exact hoff
    · exact hoff

end Window

/-! ## Runs -/

/-- A run with addresses of 64 bits. -/
abbrev MachineRun (w₀ : World) : List (Request × Outcome) → World → Prop := @Run .machine w₀

/-- A run with addresses of 64 bits, each request with prices that are addressed at their own levels. -/
inductive AddressedRun (w₀ : World) : List (Request × Outcome) → World → Prop where
  | nil : AddressedRun w₀ [] w₀
  | snoc {rs : List (Request × Outcome)} {w w' : World} {r : Request} {o : Outcome} :
      AddressedRun w₀ rs w → @Request.Addressed .machine r w.toSob → @Window .machine r w o w' →
        AddressedRun w₀ (rs ++ [(r, o)]) w'

theorem AddressedRun.run {w₀ w : World} {rs : List (Request × Outcome)} (h : AddressedRun w₀ rs w) :
    MachineRun w₀ rs w := by
  induction h with
  | nil => exact @Run.nil .machine _
  | snoc _ _ hw ih => exact @Run.snoc .machine _ _ _ _ _ _ ih hw

/-- No price off the book was followed. -/
def World.OnBook (w : World) : Prop := ∀ s price, .offBook s price ∉ w.trace

theorem World.OnBook.not_recorded {w : World} (h : w.OnBook) : ¬ w.Recorded Event.IsOffBook := by
  rintro ⟨_, hm, s, price, rfl⟩
  exact h s price hm

/-- With addresses of 64 bits and without: the same runs, as long as prices are on the book. What is shown
of every `Run` holds of these. -/
theorem AddressedRun.exact {w₀ w : World} {rs : List (Request × Outcome)} (h : AddressedRun w₀ rs w)
    (hoff : w.OnBook) : Run w₀ rs w := by
  replace hoff := hoff.not_recorded
  induction h with
  | nil => exact .nil
  | snoc _ haddr hw ih => exact .snoc (ih fun h => hoff (hw.keeps h)) (hw.exact haddr hoff)

/-! ## Runs can be computed -/

/-- `execAll` with addresses of 64 bits, for requests with prices that are addressed at their own
levels. -/
def execAddressed (fuel : Nat) : List Request → World → Option (List (Request × Outcome) × World)
  | [], w => some ([], w)
  | r :: rs, w => do
    if @Request.Addressed .machine r w.toSob then
      let (o, w) ← @Request.exec .machine fuel r w
      let (os, w) ← execAddressed fuel rs w
      return ((r, o) :: os, w)
    else none

/-- Whether a price off the book was followed. -/
def World.offBook (w : World) : Bool :=
  w.trace.any fun | .offBook .. => true | _ => false

theorem World.OnBook.of_offBook {w : World} (h : w.offBook = false) : w.OnBook := fun s price hm => by
  have := List.any_eq_false.mp h _ hm
  exact this rfl

theorem AddressedRun.trans {w₀ w w' : World} {rs rs' : List (Request × Outcome)}
    (h : AddressedRun w₀ rs w) (h' : AddressedRun w rs' w') : AddressedRun w₀ (rs ++ rs') w' := by
  induction h' with
  | nil => rwa [List.append_nil]
  | snoc _ ha hw ih => rw [← List.append_assoc]; exact ih.snoc ha hw

/-- There is a run of the requests that stays on the book, and its end is observed by `f` to be `v`. -/
theorem AddressedRun.exists_of_exec {α : Type} {f : List Outcome → World → α} {v : α} (fuel : Nat)
    (requests : List Request) {w : World}
    (h : (execAddressed fuel requests w).map (fun c => (c.2.offBook, f (c.1.map (·.2)) c.2)) =
      some (false, v)) :
    ∃ rs w', AddressedRun w rs w' ∧ w'.OnBook ∧ rs.map (·.1) = requests ∧ f (rs.map (·.2)) w' = v := by
  have hrun : ∀ (requests : List Request) {w w' : World} {rs : List (Request × Outcome)},
      execAddressed fuel requests w = some (rs, w') →
        AddressedRun w rs w' ∧ rs.map (·.1) = requests := by
    intro requests
    induction requests with
    | nil => intro w w' rs h; cases h; exact ⟨.nil, rfl⟩
    | cons r requests ih =>
      intro w w' rs h
      unfold execAddressed at h
      split at h
      next haddr =>
        simp only [Option.bind_eq_bind, Option.bind_eq_some_iff] at h
        obtain ⟨⟨o, w1⟩, h1, ⟨os, w2⟩, h2, heq⟩ := h
        cases heq
        obtain ⟨hrest, hmap⟩ := ih h2
        exact ⟨(AddressedRun.nil.snoc haddr ⟨fuel, h1⟩).trans hrest, by rw [List.map_cons, hmap]⟩
      next => cases h
  obtain ⟨⟨rs, w'⟩, he, hv⟩ := Option.map_eq_some_iff.mp h
  obtain ⟨hoff, hv⟩ := Prod.mk.inj hv
  exact ⟨rs, w', (hrun requests he).1, .of_offBook hoff, (hrun requests he).2, hv⟩

end SimpleOrderbook
