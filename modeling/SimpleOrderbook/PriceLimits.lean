import SimpleOrderbook.Sweep
import SimpleOrderbook.Tape
import SimpleOrderbook.Terms

/-!
# Limits are kept

No order trades at a price worse than its limit, and the order that is hit trades at its limit. Every
function of the engine keeps `Priced`; a trade does as the levels it sweeps are inside of the limit of
the order that comes in.

## Main results

* `Run.price_protected` — over every run.
-/
namespace SimpleOrderbook

open Hoare

/-! ## Updates of the book -/

section Thins
variable (s : Sob)

/-- The stops are not among the orders a trade is made with. -/
theorem thins_setStops (p : Nat) (c : ChainManager StopBndl) : Thins s (s.setStops p c) := by
  refine ⟨rfl, fun q k hk => ?_, fun buys q k hk => ?_, rfl, rfl⟩
  · rcases hk with hk | ⟨buys, hk⟩
    · unfold Sob.InLimits at hk
      rw [Sob.limits_setStops] at hk
      exact .inl hk
    · unfold Sob.InAons at hk
      rw [Sob.aons_setStops] at hk
      exact .inr ⟨buys, hk⟩
  · unfold Sob.InAons at hk
    rwa [Sob.aons_setStops] at hk

theorem thins_stopPush (p : Nat) (b : StopBndl) : Thins s (Chain.stopPush s p b) := by
  have ha : Admits s (Chain.stopPush s p b) .stop p b.id true := .stopPush b true
  have hv := bookView_stopPush s p b
  refine ⟨ha.base, fun q k hk => ?_, fun buys q k hk => ?_, lastId_of_bookView hv,
    queue_of_bookView hv⟩
  · exact (ha.lies hk).resolve_right fun hstop => hstop.1 rfl
  · refine (ha.aons buys q k hk).resolve_right fun hstop => ?_
    cases buys <;> cases hstop.1

theorem thins_updateAt (c : ChainIterWrap) (id : Nat) {g : OrderBndl → OrderBndl}
    (hg : ∀ b, (g b).id = b.id) : Thins s (s.updateAt c id g) :=
  (Drifts.updateAt hg c id).thins (lastId_updateAt s c id g) (queue_updateAt s c id g)

theorem thins_updateLimit (p id : Nat) {g : LimitBndl → LimitBndl}
    (hg : ∀ b, (g b).id = b.id ∧ (g b).side = b.side) : Thins s (s.updateLimit p id g) :=
  (Drifts.updateLimit hg p id).thins rfl rfl

end Thins

/-! ## Pulls -/

section Engine
variable {T : Terms}

theorem Priced.rests_limits {w : World} (h : Priced T w) {p : Nat} {x : LimitBndl}
    (hx : x ∈ (w.limits p).elems) : T.Rests p (x.id, x.side) := h.rests p _ (.inl ⟨x, hx, rfl⟩)

theorem Priced.rests_aons {w : World} (h : Priced T w) {buys : Bool} {p : Nat} {x : AonBndl}
    (hx : x ∈ (w.aons buys p).elems) :
    T.Rests p (x.id, x.side) ∧ RightSide w.trace buys (x.id, x.side) :=
  ⟨h.rests p _ (.inr ⟨buys, x, hx, rfl⟩), h.aons buys p _ ⟨x, hx, rfl⟩⟩

theorem keeps_setLimits {p : Nat} {f : Sob → ChainManager LimitBndl}
    (hf : ∀ w, Priced T w → ∀ x ∈ (f w.toSob).elems, T.Rests p (x.id, x.side)) :
    Keeps (Priced T) (modifySob fun s => s.setLimits p (f s)) :=
  ⟨fun w h => wp_modifySob (h.setLimits (hf w h))⟩

theorem keeps_moveFrontAons (p n : Nat) : Keeps (Priced T) (Chain.moveFrontAons p n) := by
  induction n generalizing T with
  | zero => exact .pure _
  | succ n ih =>
    refine keeps_getSob_bind fun w h => ?_
    split
    · exact .pure _
    · exact .throw _
    next b bs hl =>
      have hb : b ∈ (w.limits p).elems := by simp [hl]
      refine .ite (fun _ => .bind (keeps_copyBndlToAonChain (h.rests_limits hb)) fun _ =>
        .bind (keeps_setLimits fun w' h' x hx => ?_) fun _ => ih) fun _ => .pure _
      rw [ChainManager.elems_ofList] at hx
      exact h'.rests_limits (List.mem_of_mem_tail hx)

theorem keeps_limitPop (id : Nat) :
    ∀ w, Priced T w → wp (Chain.limitPop id) (fun b w' => b.id = id ∧ Priced T w')
      (fun _ => Priced T) w := by
  intro w h
  unfold Chain.limitPop
  refine ((keeps_fromCache id).run w h).bind fun c w h => wp_getSob_bind ?_
  dsimp only
  split
  · exact wp_throw h
  next b hb =>
    have herase : ∀ x ∈ (ChainManager.ofList (Chain.eraseLimit (w.limits c.p).elems id)).elems,
        T.Rests c.p (x.id, x.side) := fun x hx => by
      rw [ChainManager.elems_ofList] at hx
      exact h.rests_limits ((Chain.eraseLimit_sublist _ _).subset hx)
    have h1 := (h.setLimits herase).thins (f := (·.cacheErase id)) (still_cacheErase _ id).thins
    refine wp_modifySob_bind (((keeps_moveFrontAons c.p _).run _ h1).bind fun _ w h => ?_)
    refine wp_getSob_bind (wp_ite (fun _ => ?_) fun _ => wp_pure ⟨(Chain.findLimit_mem hb).2, h⟩)
    exact wp_modifySob_bind (wp_pure ⟨(Chain.findLimit_mem hb).2, h.thins (still_limitPulled _ _ _).thins⟩)

theorem keeps_stopPop (id : Nat) : Keeps (Priced T) (Chain.stopPop id) := by
  refine .bind (keeps_fromCache id) fun c => keeps_getSob_bind fun w h => ?_
  dsimp only
  split
  · exact .throw _
  · refine .bind (keeps_modifySob fun s => (thins_setStops s _ _).trans (still_cacheErase _ id).thins)
      fun _ => .bind keeps_getSob fun _ => .ite (fun _ => ?_) fun _ => .pure _
    exact .bind (keeps_modifySob fun s => (still_stopPulled s _ _).thins) fun _ => .pure _

theorem keeps_aonPop (id : Nat) :
    ∀ w, Priced T w → wp (Chain.aonPop id) (fun b w' => b.id = id ∧ Priced T w')
      (fun _ => Priced T) w := by
  intro w h
  unfold Chain.aonPop
  refine ((keeps_fromCache id).run w h).bind fun c w h => ?_
  refine wp_ite (fun _ => keeps_limitPop id w h) fun _ => wp_ite (fun _ => wp_throw h) fun _ => ?_
  refine wp_getSob_bind ?_
  dsimp only
  split
  · exact wp_throw h
  next b hb =>
    have hid := (Chain.findLimit_mem hb).2
    have h1 := h.unrecorded (.popAon w.toSob (decide (c.type = .aonBuy)) c.p id) trivial
    refine wp_getSob_bind (wp_record_bind (wp_modifySob_bind ?_))
    have herase : ∀ x ∈ (ChainManager.ofList (Chain.eraseLimit
        (w.aons (decide (c.type = .aonBuy)) c.p).elems id)).elems, T.Rests c.p (x.id, x.side) ∧
          RightSide (w.log (.popAon w.toSob (decide (c.type = .aonBuy)) c.p id)).trace
            (decide (c.type = .aonBuy)) (x.id, x.side) := fun x hx => by
      rw [ChainManager.elems_ofList] at hx
      exact h1.rests_aons ((Chain.eraseLimit_sublist _ _).subset hx)
    have h2 := (h1.setAons herase).thins (f := (·.cacheErase id)) (still_cacheErase _ id).thins
    refine wp_getSob_bind (wp_ite (fun _ => ?_) fun _ => wp_pure ⟨hid, h2⟩)
    exact wp_modifySob_bind (wp_pure ⟨hid, h2.thins (still_aonPulled _ _ _).thins⟩)

theorem keeps_finishPull {f : OrderBndl → M Unit} (hf : ∀ b, Keeps (Priced T) (f b))
    (b : OrderBndl) : Keeps (Priced T) (finishPull f b) :=
  .ite (fun _ => .pure _) fun _ => .bind (keeps_record trivial) fun _ =>
    .bind (keeps_pushExecCallback ..) fun _ => .bind (hf b) fun _ => .pure _

theorem keeps_pullOrderWith {f : OrderBndl → M Unit} (hf : ∀ b, Keeps (Priced T) (f b)) (id : Nat) :
    Keeps (Priced T) (pullOrderWith f id) := by
  refine .bind keeps_getSob fun s => ?_
  split
  · exact .pure _
  refine .tryCatch ?_ fun err => ?_
  · have haon : Keeps (Priced T) (do
        let b ← Chain.aonPop id
        finishPull (fun _ => return ()) b.toOrderBndl) :=
      .bind_of (keeps_aonPop id) fun b _ => keeps_finishPull (fun _ => .pure _) _
    split
    · exact .bind_of (keeps_limitPop id) fun b _ => keeps_finishPull hf _
    · refine .bind (keeps_stopPop id) fun b => .bind (keeps_finishPull hf _) fun _ =>
        .ite (fun _ => ?_) fun _ => .bind (keeps_record trivial) fun _ => .pure _
      exact .bind (keeps_modifySob fun s => (still_trailing s id b.isBuy).1.thins) fun _ => .pure _
    · exact haon
    · exact haon
  · split
    · exact .pure _
    · exact .throw _

theorem keeps_pullUnlinked (id : Nat) : Keeps (Priced T) (pullUnlinked id) :=
  keeps_pullOrderWith (fun _ => .pure _) id

theorem keeps_pullOrder (id : Nat) : Keeps (Priced T) (pullOrder id) := by
  refine keeps_pullOrderWith (fun b => .ite (fun _ => ?_) fun _ => .pure _) id
  split
  · exact .discard (keeps_pullUnlinked _)
  · exact .throw _

/-! ## Handlers -/

theorem keeps_plevelOffset (isStop buy : Bool) (nticks start : Nat) :
    Keeps (Priced T) (plevelOffset isStop buy nticks start) := by
  refine .bind keeps_getSob fun _ => .ite (fun _ => .throw _) fun _ => .ite (fun _ => ?_) fun _ => ?_
  · exact .ite (fun _ => .throw _) fun _ => .pure _
  · exact .ite (fun _ => .throw _) fun _ => .pure _

theorem keeps_execOTOOrder (op : OrderParamaters) (cb : OrderExecCbBndl) (id : Nat) :
    Keeps (Priced T) (execOTOOrder op cb id) :=
  keeps_generateId_bind fun _ => .bind (keeps_pushExecCallback ..) fun _ => .last rfl

theorem keeps_execOCOOrder (condition : OrderCondition) (cb : OrderExecCbBndl)
    (idOld idNew idPull : Nat) : Keeps (Priced T) (execOCOOrder condition cb idOld idNew idPull) := by
  refine .bind ?_ fun _ => .ite (fun _ => .discard (keeps_pullUnlinked idPull)) fun _ => .pure _
  unfold reportOCO
  split
  · exact keeps_pushExecCallback ..
  · exact keeps_pushExecCallback ..
  · exact keeps_pushExecCallback ..
  · exact .throw _

theorem keeps_execBracketOrder (isTrailing : Bool) (op1 op2 : OrderParamaters) (sz : Nat)
    (cb : OrderExecCbBndl) (trigger : ConditionTrigger) (id : Nat) :
    Keeps (Priced T) (execBracketOrder isTrailing op1 op2 sz cb trigger id) := by
  refine keeps_generateId_bind fun _ => .bind (keeps_pushExecCallback ..) fun _ =>
    .bind (.ite (fun _ => ?_) fun _ => .pure _) fun _ => .last rfl
  exact .bind (.bind keeps_getSob fun _ => keeps_plevelOffset ..) fun _ =>
    .bind keeps_getSob fun _ => .pure _

theorem keeps_execTrailingStopOrder (op : OrderParamaters) (sz : Nat) (cb : OrderExecCbBndl)
    (trigger : ConditionTrigger) (id : Nat) :
    Keeps (Priced T) (execTrailingStopOrder op sz cb trigger id) :=
  keeps_generateId_bind fun _ => .bind (keeps_pushExecCallback ..) fun _ => .last rfl

theorem keeps_handleOTO (b : OrderBndl) (id : Nat) : Keeps (Priced T) (handleOTO b id) := by
  unfold handleOTO
  split
  · exact .bind (keeps_execOTOOrder ..) fun _ => .pure _
  · exact .throw _

theorem keeps_handleOCO (b : OrderBndl) (id : Nat) : Keeps (Priced T) (handleOCO b id) := by
  unfold handleOCO
  split
  · exact .bind (keeps_execOCOOrder ..) fun _ => .pure _
  · exact .throw _

theorem keeps_growLeg (msg : CallbackMsg) (id : Nat) (c : ChainIterWrap) (sz : Nat) :
    Keeps (Priced T) (growLeg msg id c sz) :=
  .bind (keeps_modifySob fun s => thins_updateAt s c id fun _ => rfl) fun _ =>
    .bind (keeps_deref c id) fun _ => .bind keeps_getSob fun _ => keeps_pushExecCallback ..

theorem keeps_handleBracket (isTrailing : Bool) (b : OrderBndl) (id sz : Nat) :
    Keeps (Priced T) (handleBracket isTrailing b id sz) := by
  unfold handleBracket
  split
  · refine .bind (.bind keeps_getSob fun s => ?_) fun _ => .pure _
    split
    · exact .bind (keeps_growLeg ..) fun _ => keeps_growLeg ..
    · exact keeps_execBracketOrder ..
  · exact .throw _

theorem keeps_handleActiveBracket (b : OrderBndl) (sz : Nat) :
    Keeps (Priced T) (handleActiveBracket b sz) := by
  unfold handleActiveBracket
  split
  · refine .ite (fun _ => .pure _) fun _ => .bind (keeps_fromCache _) fun c =>
      .bind (keeps_modifySob fun s => thins_updateAt s c _ fun _ => rfl) fun _ => ?_
    exact .bind (keeps_deref ..) fun _ => .bind keeps_getSob fun _ =>
      .bind (keeps_pushExecCallback ..) fun _ => .pure _
  · exact .throw _

theorem keeps_handleTrailingStop (b : OrderBndl) (id sz : Nat) :
    Keeps (Priced T) (handleTrailingStop b id sz) := by
  unfold handleTrailingStop
  split
  · refine .bind (.bind keeps_getSob fun s => ?_) fun _ => .pure _
    split
    · exact keeps_growLeg ..
    · exact keeps_execTrailingStopOrder ..
  · exact .throw _

theorem keeps_handleAdvancedOrderTrigger (b : OrderBndl) (id sz : Nat) :
    Keeps (Priced T) (handleAdvancedOrderTrigger b id sz) := by
  unfold handleAdvancedOrderTrigger
  split
  · exact .pure _
  · exact .pure _
  · exact .bind (keeps_pushExecCallback ..) fun _ => .pure _
  · exact keeps_handleActiveBracket b sz
  · exact keeps_handleActiveBracket b sz
  · exact keeps_handleOTO b id
  · exact keeps_handleBracket true b id sz
  · exact keeps_handleBracket false b id sz
  · exact keeps_handleTrailingStop b id sz
  · exact .throw _
  · exact .throw _

theorem keeps_handleAdvancedOrderCancel (b : OrderBndl) (id sz : Nat) :
    Keeps (Priced T) (handleAdvancedOrderCancel b id sz) := by
  unfold handleAdvancedOrderCancel
  have hOCO : Keeps (Priced T) (do return (true, ← handleOCO b id)) :=
    .bind (keeps_handleOCO b id) fun _ => .pure _
  split
  case h_7 | h_8 => exact .ite (fun _ => .pure _) fun _ => hOCO
  case h_9 => exact hOCO
  case h_10 | h_11 => exact .throw _
  all_goals exact .pure _

theorem keeps_handleAdvancedOrder (b : OrderBndl) (id sz : Nat) :
    Keeps (Priced T) (handleAdvancedOrder b id sz) :=
  .bind (keeps_handleAdvancedOrderCancel b id sz) fun _ =>
    .ite (fun _ => .pure _) fun _ => keeps_handleAdvancedOrderTrigger _ id sz

/-! ## Trades -/

/-- Who rests at a level trades at its price. -/
theorem Terms.Rests.makes {p : Nat} {k : Nat × Bool} (h : T.Rests p k) : T.Makes k.1 (T.price p) :=
  h.mono fun _ he => he.1

section Trades
variable {bidSide : Bool} {plev id : Nat} {cb : OrderExecCbBndl}

theorem keeps_hitAonChain (htake : T.Takes T.past id (T.price plev)) (l : List AonBndl) :
    ∀ (kept : List AonBndl) (size : Nat), (∀ b ∈ kept ++ l, T.Rests plev (b.id, b.side) ∧
      RightSide T.past bidSide (b.id, b.side)) →
      Keeps (Priced T) (hitAonChain bidSide plev id cb kept l size) := by
  induction l with
  | nil => exact fun _ _ _ => .pure _
  | cons b bs ih =>
    intro kept size hall
    have hb := (hall b (by simp)).1
    have hrest : ∀ x ∈ kept ++ bs, T.Rests plev (x.id, x.side) ∧
        RightSide T.past bidSide (x.id, x.side) := fun x hx => hall x (by
      rcases List.mem_append.mp hx with hx | hx <;> simp [hx])
    refine .ite (fun _ => .pure _) fun _ => .ite (fun _ => ?_) fun _ => ih _ _ (by simpa using hall)
    refine .bind (keeps_tradeHasOccured _ _ htake hb.makes) fun _ => .bind (keeps_record trivial)
      fun _ => .bind ⟨fun w h => wp_modifySob ?_⟩ fun _ => ih _ _ hrest
    refine (h.thins (f := (·.cacheErase b.id)) (still_cacheErase _ _).thins).setAons fun x hx => ?_
    obtain ⟨hr, hside⟩ := hrest x hx
    exact ⟨hr, hside.later h.past⟩

theorem keeps_handleFill (b : LimitBndl) (amount : Nat) :
    Keeps (Priced T) (handleFill plev b amount) :=
  .ite (fun _ => .bind (keeps_handleAdvancedOrder ..) fun _ =>
    keeps_modifySob fun s => thins_updateLimit s _ _ fun _ => ⟨rfl, rfl⟩) fun _ => .pure _

theorem keeps_hitOrder (htake : T.Takes T.past id (T.price plev)) {b : LimitBndl}
    (hb : T.Rests plev (b.id, b.side)) (size : Nat) :
    Keeps (Priced T) (hitOrder plev id cb b size) := by
  refine .ite (fun _ => .bind (keeps_copyBndlToAonChain hb) fun _ => .bind
    (keeps_modifySob fun s => thins_updateLimit s _ _ fun _ => ⟨rfl, rfl⟩) fun _ => .pure _) fun _ => ?_
  refine .bind (keeps_tradeHasOccured _ _ htake hb.makes) fun _ => .bind (keeps_handleFill ..) fun _ =>
    .bind (keeps_modifySob fun s => thins_updateLimit s _ _ fun _ => ⟨rfl, rfl⟩) fun _ =>
      .bind keeps_getSob fun s => ?_
  split
  · exact .throw _
  · exact .ite (fun _ => .bind (keeps_record trivial) fun _ =>
      .bind (keeps_modifySob fun s => (still_cacheErase s _).thins) fun _ => .pure _) fun _ => .pure _

theorem keeps_hitOrders (ids : List Nat) : ∀ {T : Terms}, T.Takes T.past id (T.price plev) →
    ∀ (pos : Option Nat) (size : Nat), Keeps (Priced T) (hitOrders plev id cb ids pos size) := by
  induction ids with
  | nil => exact fun _ _ _ => .pure _
  | cons i ids ih =>
    intro T htake pos size
    refine .ite (fun _ => .pure _) fun _ => keeps_getSob_bind fun w h => ?_
    have htake' : (T.since w.trace).Takes w.trace id (T.price plev) := htake.later h.past
    split
    · exact ih htake' pos size
    next b hb =>
      have hr := h.rests_limits (Chain.findLimit_mem hb).1
      exact .bind (keeps_hitOrder htake' hr size) fun _ => ih htake' _ _

theorem eraseVisited_subset (pos : Nat) (l : List LimitBndl) : eraseVisited pos l ⊆ l := by
  have hsub : l.dropWhile (·.id ≠ pos) ⊆ l := List.dropWhile_sublist _ |>.subset
  unfold eraseVisited
  split
  · exact List.nil_subset _
  next b bs hl =>
    rw [hl] at hsub
    split
    · exact fun x hx => hsub (List.mem_cons_of_mem _ hx)
    · exact hsub

theorem keeps_hitChain (htake : T.Takes T.past id (T.price plev)) (size : Nat) :
    Keeps (Priced T) (hitChain plev id size cb) := by
  refine .bind keeps_getSob fun s => .bind (keeps_record trivial) fun _ =>
    .bind (keeps_hitOrders _ htake _ _) fun r => keeps_getSob_bind fun w h => ?_
  split
  next pos l _ hl =>
    refine .bind keeps_getSob fun _ => .bind (keeps_record trivial) fun _ =>
      .bind (keeps_setLimits fun w' h' x hx => ?_) fun _ => .pure _
    exact h.rests_limits (by rw [hl]; exact eraseVisited_subset pos l hx)
  · refine .bind ⟨fun w h => wp_get h⟩ fun w' => .ite (fun _ => ?_) fun _ => .pure _
    exact .bind (keeps_setLimits fun _ _ x hx => by cases hx) fun _ => .pure _
  · exact .throw _

theorem keeps_tradeAons {p : Nat} (htake : T.Takes T.past id (T.price p)) (size : Nat) :
    Keeps (Priced T) (tradeAons bidSide p id cb size) := by
  refine keeps_getSob_bind fun w h => .ite (fun _ => ?_) fun _ => .pure _
  have htake' : (T.since w.trace).Takes w.trace id (T.price p) := htake.later h.past
  split
  · exact .pure _
  next l hl =>
    refine .bind (keeps_record trivial) fun _ => .bind (keeps_hitAonChain htake' l [] _ fun b hb => ?_)
      fun r => .ite (fun _ => ?_) fun _ => .pure _
    · exact h.rests_aons (by rw [hl]; exact hb)
    · refine .bind ⟨fun w h => wp_modifySob ?_⟩ fun _ => .pure _
      exact (h.setAons (c := none) fun x hx => by cases hx).thins
        (f := fun s => Exec.Aon.adjustStateAfterPull bidSide s p) (still_aonPulled _ _ _).thins

theorem keeps_tradeLimits {p : Nat} (htake : T.Takes T.past id (T.price p)) (size : Nat) :
    Keeps (Priced T) (tradeLimits bidSide p id cb size) := by
  refine .bind keeps_getSob fun s => .ite (fun _ => ?_) fun _ => .pure _
  split
  · exact .pure _
  · refine .bind (keeps_hitChain htake size) fun r => .ite (fun _ => ?_) fun _ => .pure _
    refine .bind ⟨fun w h => wp_modifySob ?_⟩ fun _ => .pure _
    exact (h.setLimits (c := none) fun x hx => by cases hx).thins
      (f := fun s => Exec.Core.findNewBestInside bidSide s) (still_findNewBestInside _ _).thins

/-- The levels of a sweep are inside of `plev`. -/
theorem keeps_sweep {endp : Nat}
    (htake : ∀ p, Exec.Core.insideOf bidSide p plev = true → T.Takes T.past id (T.price p)) (n : Nat) :
    ∀ p size high low, Keeps (Priced T) (sweep bidSide plev endp id cb n p size high low) := by
  induction n with
  | zero => exact fun _ _ _ _ => .pure _
  | succ n ih =>
    intro p size high low
    refine .ite (fun hin => ?_) fun _ => .pure _
    have hp := htake p hin.2.1
    exact .bind (keeps_tradeAons hp size) fun _ => .bind (keeps_tradeLimits hp _) fun _ =>
      .bind keeps_getSob fun _ => ih _ _ _ _

end Trades

/-! ### Trailing and triggered stops -/

theorem keeps_trailingStopAdjust (id : Nat) (buyStop : Bool) (p : Nat) :
    Keeps (Priced T) (trailingStopAdjust id buyStop p) := by
  refine .bind (keeps_stopPop id) fun b => .bind ?_ fun _ => .bind (keeps_plevelOffset ..) fun pAdj =>
    .bind keeps_getSob fun _ => .bind (keeps_pushExecCallback ..) fun _ =>
      keeps_modifySob fun s => thins_stopPush s pAdj b
  unfold trailingNticks
  split
  · exact .pure _
  · exact .pure _
  · exact .throw _

theorem keeps_trailingStopsAdjust (buyStops : Bool) (p : Nat) :
    Keeps (Priced T) (trailingStopsAdjust buyStops p) :=
  .bind keeps_getSob fun _ => .bind (keeps_record trivial) fun _ =>
    .forM fun id _ => keeps_trailingStopAdjust id buyStops p

theorem keeps_adjustTrailingStops (oldLast high low : Nat) :
    Keeps (Priced T) (adjustTrailingStops oldLast high low) :=
  .bind (.ite (fun _ => keeps_trailingStopsAdjust ..) fun _ => .pure _) fun _ =>
    .ite (fun _ => keeps_trailingStopsAdjust ..) fun _ => .pure _

theorem keeps_handleTriggeredStop (buyStops : Bool) (plev : Nat) (e : StopBndl) :
    Keeps (Priced T) (handleTriggeredStop buyStops plev e) := by
  refine .bind (keeps_modifySob fun s => (still_trailing s e.id buyStops).1.thins) fun _ =>
    .bind (.ite (fun _ => .bind (keeps_handleAdvancedOrderCancel ..) fun _ => .pure _) fun _ => .pure _)
      fun b => keeps_generateId_bind fun idNew => .bind keeps_getSob fun _ =>
        .bind (keeps_record trivial) fun _ => .bind (keeps_pushExecCallback ..) fun _ => ?_
  refine .bind_of (R := fun order => order.id = idNew) (fun w h =>
    wp_triggeredOrder (fun _ hid _ _ => ⟨hid, h⟩) h) fun order hid => .push hid ?_
  exact .bind (.ite (fun _ => .discard (keeps_handleAdvancedOrderTrigger ..)) fun _ => .pure _) fun _ =>
    keeps_modifySob fun s => (still_cacheErase s _).thins

theorem keeps_handleTriggeredStopChain (buyStops : Bool) (plev : Nat) :
    Keeps (Priced T) (handleTriggeredStopChain buyStops plev) :=
  .bind keeps_getSob fun _ => .bind
    (keeps_modifySob fun s => (thins_setStops s plev none).trans (still_stopTriggered _ buyStops plev).thins)
    fun _ => .forM fun e _ => keeps_handleTriggeredStop buyStops plev e

theorem keeps_triggerBuyStops (n : Nat) : ∀ p, Keeps (Priced T) (triggerBuyStops n p) := by
  induction n with
  | zero => exact fun _ => .pure _
  | succ n ih => exact fun p => .bind (keeps_handleTriggeredStopChain true p) fun _ => ih _

theorem keeps_triggerSellStops (n : Nat) : ∀ p, Keeps (Priced T) (triggerSellStops n p) := by
  induction n with
  | zero => exact fun _ => .pure _
  | succ n ih => exact fun p => .bind (keeps_handleTriggeredStopChain false p) fun _ => ih _

theorem keeps_checkForStops : Keeps (Priced T) checkForStops := by
  refine .bind keeps_getSob fun _ => .ite (fun _ => ?_) fun _ => .pure _
  exact .bind keeps_getSob fun _ => .bind (keeps_record trivial) fun _ =>
    .bind (keeps_triggerBuyStops ..) fun _ => .bind keeps_getSob fun _ =>
      .bind (keeps_record trivial) fun _ => .bind (keeps_triggerSellStops ..) fun _ =>
        keeps_modifySob fun _ => Still.thins ⟨rfl, rfl, rfl, rfl⟩

theorem keeps_trade {bidSide : Bool} {plev id : Nat} {cb : OrderExecCbBndl}
    (htake : ∀ p, Exec.Core.insideOf bidSide p plev = true → T.Takes T.past id (T.price p))
    (size : Nat) : Keeps (Priced T) (trade bidSide plev id size cb) :=
  .bind keeps_getSob fun _ => .bind (keeps_record trivial) fun _ => .bind (keeps_sweep htake ..) fun _ =>
    .bind (keeps_adjustTrailingStops ..) fun _ => .bind keeps_checkForStops fun _ => .pure _

/-! ## Insertions -/

theorem Priced.price_mono {w : World} (h : Priced T w) : ∀ p q, p ≤ q → T.price p ≤ T.price q := by
  intro p q hpq
  rw [← h.price p, ← h.price q]
  omega

/-- An order may trade at any level inside of its own. -/
theorem Terms.Rests.takes (hmono : ∀ p q, p ≤ q → T.price p ≤ T.price q) {p q : Nat} {k : Nat × Bool} (h : T.Rests p k)
    (hq : Exec.Core.insideOf (!k.2) q p = true) : T.Each k.1 fun e => e.Allows (T.price q) := by
  refine h.mono fun e he => ?_
  obtain ⟨hlimit, hside⟩ := he
  unfold OrderQueueElem.Allows
  rw [← hside, ← hlimit]
  unfold Exec.Core.insideOf at hq
  cases hk : k.2 with
  | true =>
    have : q ≤ p := by simpa [hk] using hq
    simpa using hmono _ _ this
  | false =>
    have : p ≤ q := by simpa [hk] using hq
    simpa using hmono _ _ this

/-- The resting AON may trade at any level inside of its own, and `p` is one. -/
def Terms.Meets (T : Terms) (isBuy : Bool) (p : Nat) (x : Nat × AonBndl) : Prop :=
  (∀ q, Exec.Core.insideOf isBuy q x.1 = true → T.Takes T.past x.2.id (T.price q)) ∧
    Exec.Core.insideOf isBuy p x.1 = true

theorem Priced.meets {w : World} (h : Priced T w) {isBuy : Bool} {p : Nat} {x : Nat × AonBndl}
    (hx : x ∈ Exec.Aon.overlapping (!isBuy) w.toSob p) : (T.since w.trace).Meets isBuy p x := by
  unfold Exec.Aon.overlapping at hx
  obtain ⟨q', hq', hx⟩ := List.mem_flatMap.mp hx
  obtain ⟨b, hb, rfl⟩ := List.mem_map.mp hx
  obtain ⟨hr, hside⟩ := h.rests_aons hb
  refine ⟨fun q hq => ?_, ?_⟩
  · rcases hside with hside | hcopied
    · have hq : Exec.Core.insideOf (!b.side) q q' = true := by
        rw [show b.side = !isBuy from hside, Bool.not_not]
        exact hq
      exact (hr.takes h.price_mono hq).mono fun _ he => .inl he
    · exact hr.mono fun e he => .inr ⟨he.2.symm.trans hcopied.1, hcopied.2⟩
  · obtain ⟨i, hi, rfl⟩ := List.mem_map.mp hq'
    unfold Exec.Core.insideOf
    cases isBuy
    · exact decide_eq_true (by simp)
    · exact decide_eq_true (by simp)

theorem keeps_preTradePrint {p : Nat} (size : Nat) {b : AonBndl} {e : OrderQueueElem}
    (htake : T.Takes T.past b.id (T.price p)) (hmake : T.Makes e.id (T.price p)) :
    Keeps (Priced T) (preTradePrint p size b e) :=
  .ite (fun _ => .bind keeps_getSob fun _ => .bind (keeps_record trivial) fun _ =>
    keeps_tradeHasOccured _ _ htake hmake) fun _ => .pure _

theorem keeps_lookAhead (isBuy : Bool) (p sz : Nat) (allowPartial : Bool) (rmndr : Nat) :
    Keeps (Priced T) (lookAhead isBuy p sz allowPartial rmndr) :=
  .bind keeps_getSob fun _ => .bind (keeps_record trivial) fun _ => .pure _

theorem keeps_matchAonsPre (isBuy : Bool) {e : OrderQueueElem} {p : Nat}
    (hmake : T.Makes e.id (T.price p)) (l : List (Nat × AonBndl)) (hl : ∀ x ∈ l, T.Meets isBuy p x) :
    ∀ rmndr, Keeps (Priced T) (matchAonsPre isBuy e p l rmndr) := by
  induction l with
  | nil => exact fun _ => .pure _
  | cons x rest ih =>
    intro rmndr
    obtain ⟨paon, aon⟩ := x
    obtain ⟨htake, hin⟩ := hl _ List.mem_cons_self
    have ih := ih fun x hx => hl x (List.mem_cons_of_mem _ hx)
    refine .bind (keeps_lookAhead ..) fun _ => .ite (fun _ => ?_) fun _ => ih _
    refine .bind_of (keeps_aonPop aon.id) fun b hid => .bind (keeps_trade (hid ▸ htake) _) fun r =>
      .ite (fun _ => .throw _) fun _ => .bind (keeps_preTradePrint _ (hid ▸ htake p hin) hmake)
        fun _ => .ite (fun _ => .pure _) fun _ => ih _

theorem keeps_matchAonOrdersPreTrade (isBuy : Bool) {e : OrderQueueElem} {p : Nat}
    (hmake : T.Makes e.id (T.price p)) : Keeps (Priced T) (matchAonOrdersPreTrade isBuy e p) :=
  keeps_getSob_bind fun w h => keeps_matchAonsPre (T := T.since w.trace) isBuy hmake _
    (fun _ hx => h.meets (List.mem_reverse.mp hx)) _

theorem keeps_matchAonsPost (isBuy : Bool) {p : Nat} (l : List (Nat × AonBndl))
    (hl : ∀ x ∈ l, T.Meets isBuy p x) : Keeps (Priced T) (matchAonsPost isBuy l) := by
  induction l with
  | nil => exact .pure _
  | cons x rest ih =>
    obtain ⟨paon, aon⟩ := x
    have htake := (hl _ List.mem_cons_self).1
    have ih := ih fun x hx => hl x (List.mem_cons_of_mem _ hx)
    refine .bind (keeps_lookAhead ..) fun _ => .ite (fun _ => ?_) fun _ => ih
    exact .bind_of (keeps_aonPop aon.id) fun b hid => .bind (keeps_trade (hid ▸ htake) _) fun r =>
      .ite (fun _ => .throw _) fun _ => ih

theorem keeps_matchAonOrdersPostTrade (isBuy : Bool) (p : Nat) :
    Keeps (Priced T) (matchAonOrdersPostTrade isBuy p) :=
  keeps_getSob_bind fun w h => keeps_matchAonsPost (T := T.since w.trace) isBuy _
    fun _ hx => h.meets (List.mem_reverse.mp hx)

section Orders
variable {e : OrderQueueElem} {p : Nat}

theorem keeps_restLimitOrder (hr : T.Rests p (e.id, e.isBuy)) (passConditions : Bool) (rmndr : Nat) :
    Keeps (Priced T) (restLimitOrder e.isBuy e passConditions p rmndr) := by
  refine .bind keeps_getSob fun s => .bind ⟨fun w h => wp_modifySob ?_⟩ fun _ =>
    .bind (keeps_matchAonOrdersPostTrade ..) fun _ => .bind keeps_getSob fun s' => ?_
  · let b : LimitBndl :=
      { id := e.id, sz := rmndr, cb := e.cb, side := e.isBuy,
        condition := if passConditions then e.condition else .none,
        trigger := if passConditions then e.trigger else .none }
    split
    · have hv := bookView_aonPush w.toSob e.isBuy p b
      exact h.admits (.aonPush b) hr (lastId_of_bookView hv) (queue_of_bookView hv)
    · have hq := waiting_limitPush w.toSob e.isBuy p b
      exact h.admits (.limitPush e.isBuy b) hr hq.1 hq.2
  · split
    · exact .pure _
    · exact .bind (keeps_deref ..) fun _ => .pure _

theorem keeps_insertLimitOrder (ho : T.Owns e) (passConditions : Bool) :
    Keeps (Priced T) (insertLimitOrder e.isBuy e passConditions) := by
  refine .assuming fun w₀ h₀ => .bind_of (R := fun p => T.price p = e.limit) (fun w h =>
    wp_ptoi (fun p hon _ hp => ⟨(h.price p).symm.trans ((w.itop_of_beg_le hon).symm.trans hp), h⟩) h)
      fun p hp => ?_
  have hr : T.Rests p (e.id, e.isBuy) := ho.mono fun e' he => ⟨hp.trans he.2.1.symm, he.2.2.symm⟩
  have htake : ∀ q, Exec.Core.insideOf (!e.isBuy) q p = true → T.Takes T.past e.id (T.price q) :=
    fun q hq => (hr.takes h₀.price_mono hq).mono fun _ he => .inl he
  refine .bind (keeps_matchAonOrdersPreTrade _ hr.makes) fun rmndr => .ite (fun _ => .pure _) fun _ =>
    .bind (.bind keeps_getSob fun _ => .ite (fun _ => .ite (fun _ =>
      .bind (keeps_lookAhead ..) fun _ => .pure _) fun _ => .pure _) fun _ => .pure _) fun ok =>
        .ite (fun _ => ?_) fun _ => keeps_restLimitOrder hr ..
  exact .bind (keeps_trade htake _) fun _ => .ite (fun _ => .pure _) fun _ => keeps_restLimitOrder hr ..

/-- An order that is no limit order may trade anywhere. -/
theorem Terms.Owns.any (ho : T.Owns e) (hty : e.type ≠ .limit) (P : OrderQueueElem → Prop) :
    T.Each e.id P := ho.mono fun _ he => absurd he.1 hty

theorem keeps_insertMarketOrder (ho : T.Owns e) (hty : e.type ≠ .limit) (buyMarket : Bool) :
    Keeps (Priced T) (insertMarketOrder buyMarket e) := by
  refine .bind keeps_getSob fun s => .bind (keeps_matchAonOrdersPreTrade _ (ho.any hty _)) fun _ =>
    .ite (fun _ => ?_) fun _ => .pure _
  exact .bind (keeps_trade (fun q _ => ho.any hty _) _) fun _ =>
    .ite (fun _ => .throw _) fun _ => .pure _

theorem keeps_ptoi (price : Int) : Keeps (Priced T) (ptoi price) :=
  ⟨fun _ h => wp_ptoi (fun _ _ _ _ => h) h⟩

theorem keeps_routeBasicOrder (ho : T.Owns e) (passConditions : Bool) :
    Keeps (Priced T) (routeBasicOrder e passConditions) := by
  have hstop : Keeps (Priced T) (do
      insertStopOrder e.isBuy e passConditions
      return 0) :=
    .bind (.bind (keeps_ptoi _) fun p => keeps_modifySob fun s => thins_stopPush s p _) fun _ => .pure _
  unfold routeBasicOrder
  split
  · exact keeps_insertLimitOrder ho passConditions
  next hty => exact .bind (keeps_insertMarketOrder ho (by simp [hty]) _) fun _ => .pure _
  · exact hstop
  · exact hstop
  · exact .throw _

theorem keeps_injectBasicOrder (ho : T.Owns e) (partialOk : Bool) :
    Keeps (Priced T) (injectBasicOrder e partialOk) :=
  .bind (keeps_routeBasicOrder ho _) fun _ => .pure _

/-! ### Advanced orders -/

theorem keeps_armOrder (c : ChainIterWrap) (id : Nat) (condition : OrderCondition)
    (trigger : ConditionTrigger) (payload : Payload) :
    Keeps (Priced T) (armOrder c id condition trigger payload) :=
  keeps_modifySob fun s => thins_updateAt s c id fun _ => rfl

theorem keeps_derefParams (o : Option OrderParamaters) : Keeps (Priced T) (derefParams o) := by
  unfold derefParams
  split
  · exact .pure _
  · exact .throw _

theorem keeps_insertOTOOrder (ho : T.Owns e) : Keeps (Priced T) (insertOTOOrder e) := by
  refine .bind (keeps_derefParams _) fun cp1 => .bind (keeps_injectBasicOrder ho _) fun filled =>
    .ite (fun _ => keeps_execOTOOrder ..) fun _ => ?_
  exact .bind (keeps_idCacheAt _) fun _ => keeps_armOrder ..

theorem keeps_armRemainder (filled : Nat) (payload : Payload) :
    Keeps (Priced T) (armRemainder e filled payload) :=
  .ite (fun _ => .bind (keeps_idCacheAt _) fun _ => keeps_armOrder ..) fun _ => .pure _

theorem keeps_insertBracketOrder (isTrailing : Bool) (ho : T.Owns e) :
    Keeps (Priced T) (insertBracketOrder isTrailing e) :=
  .bind (keeps_derefParams _) fun _ => .bind (keeps_derefParams _) fun _ =>
    .bind (keeps_routeBasicOrder ho _) fun _ =>
      .bind (.ite (fun _ => keeps_execBracketOrder ..) fun _ => .pure _) fun _ => keeps_armRemainder ..

theorem keeps_tellEntry (parentId : Nat) (f : Payload → Option Payload) :
    Keeps (Priced T) (tellEntry parentId f) := by
  refine .bind keeps_getSob fun s => ?_
  split
  · exact .pure _
  · refine .bind (keeps_deref ..) fun b => ?_
    split
    · exact .throw _
    · exact keeps_modifySob fun s => thins_updateAt s _ _ fun _ => rfl

theorem keeps_insertTrailingLeg (id : Nat) (isBuy : Bool) (nticks : Nat) :
    Keeps (Priced T) (insertTrailingLeg id isBuy nticks) :=
  .bind keeps_getSob fun _ => .bind (keeps_record trivial) fun _ =>
    keeps_modifySob fun s => (still_trailing s id isBuy).2.thins

/-- An id that goes to a stop is of no use here. -/
theorem keeps_generateId : Keeps (Priced T) generateId := ⟨fun _ h => h.generated.ungive⟩

theorem keeps_insertLossLeg (isTrailing : Bool) (cp1 : OrderParamaters) (rmndr : Nat) :
    Keeps (Priced T) (insertLossLeg isTrailing e cp1 p rmndr) :=
  .bind keeps_generateId fun _ => .bind (keeps_idCacheAt _) fun _ => .bind (keeps_armOrder ..) fun _ =>
    .bind (keeps_modifySob fun s => thins_stopPush s _ _) fun _ =>
      .bind (.ite (fun _ => keeps_insertTrailingLeg ..) fun _ => .pure _) fun _ =>
        .bind keeps_getSob fun _ => .bind (keeps_pushExecCallback ..) fun _ => keeps_tellEntry ..

theorem keeps_trailingStopPlevel (buyStop : Bool) (nticks : Nat) :
    Keeps (Priced T) (trailingStopPlevel buyStop nticks) :=
  .bind keeps_getSob fun _ => keeps_plevelOffset ..

theorem keeps_insertActiveBracketOrder (isTrailing : Bool) (ho : T.Owns e) :
    Keeps (Priced T) (insertActiveBracketOrder isTrailing e) :=
  .bind (keeps_derefParams _) fun _ => .bind (keeps_routeBasicOrder ho _) fun _ =>
    .ite (fun _ => keeps_pushExecCallback ..) fun _ => .bind (keeps_pushExecCallback ..) fun _ =>
      .bind (.ite (fun _ => keeps_trailingStopPlevel ..) fun _ => keeps_ptoi _) fun _ =>
        keeps_insertLossLeg ..

theorem keeps_insertTrailingStopOrder (ho : T.Owns e) :
    Keeps (Priced T) (insertTrailingStopOrder e) :=
  .bind (keeps_derefParams _) fun _ => .bind (keeps_routeBasicOrder ho _) fun _ =>
    .bind (.ite (fun _ => keeps_execTrailingStopOrder ..) fun _ => .pure _) fun _ =>
      keeps_armRemainder ..

theorem keeps_insertTrailingStopActiveOrder : Keeps (Priced T) (insertTrailingStopActiveOrder e) :=
  .bind (keeps_derefParams _) fun _ => .bind (keeps_trailingStopPlevel ..) fun _ =>
    .bind (keeps_modifySob fun s => thins_stopPush s _ _) fun _ =>
      .bind (keeps_insertTrailingLeg ..) fun _ => .bind keeps_getSob fun _ =>
        .bind (keeps_pushExecCallback ..) fun _ => keeps_tellEntry ..

theorem keeps_insertFOKOrder (ho : T.Owns e) : Keeps (Priced T) (insertFOKOrder e) :=
  .bind (keeps_ptoi _) fun _ => .bind (keeps_lookAhead ..) fun _ =>
    .ite (fun _ => .discard (keeps_routeBasicOrder ho _)) fun _ => keeps_pushExecCallback ..

/-- Between the steps of an insertion, with the order under insertion still queued or not. -/
def PricedIn (front : Option Nat) (w : World) : Prop := ∃ T : Terms, T.front = front ∧ Priced T w

/-- The program inserts orders under ids it generates. -/
structure Adds {α : Type} (T : Terms) (m : M α) : Prop where
  run : ∀ w, Priced T w → wp m (fun _ => PricedIn T.front) (fun _ => PricedIn T.front) w

namespace Adds
variable {α β : Type}

theorem of_keeps {m : M α} (h : Keeps (Priced T) m) : Adds T m :=
  ⟨fun w hw => (h.run w hw).mono (fun _ _ h' => ⟨T, rfl, h'⟩) fun _ _ h' => ⟨T, rfl, h'⟩⟩

theorem bind {m : M β} {f : β → M α} (hm : Keeps (Priced T) m) (hf : ∀ a, Adds T (f a)) :
    Adds T (m >>= f) :=
  ⟨fun w h => ((hm.run w h).mono (fun _ _ h' => h') fun _ _ h' => ⟨T, rfl, h'⟩).bind
    fun a w' h' => (hf a).run w' h'⟩

theorem ite {c : Prop} [Decidable c] {m m' : M α} (hm : Adds T m) (hm' : Adds T m') :
    Adds T (if c then m else m') :=
  ⟨fun w h => wp_ite (fun _ => hm.run w h) fun _ => hm'.run w h⟩

/-- The new order goes by the id that was generated. -/
theorem generateId {f : Nat → M α}
    (hf : ∀ id, (∀ e : OrderQueueElem, e.id = id → (T.take id).Owns e) → Keeps (Priced (T.take id)) (f id)) :
    Adds T (generateId >>= f) := by
  refine ⟨fun w h => wp_generateId_bind ?_⟩
  have hg := h.generated
  have hnew : ¬ T.known (w.lastId + 1) := (hg.ids.spare _ (.inr rfl)).2.1
  have hkeeps := hf (w.lastId + 1) fun e he => he ▸ Terms.owns_take (he ▸ hnew)
  exact (hkeeps.run _ hg.taken).mono (fun _ _ h' => ⟨T.take (w.lastId + 1), rfl, h'⟩)
    fun _ _ h' => ⟨T.take (w.lastId + 1), rfl, h'⟩

end Adds

theorem adds_insertOCOOrder (ho : T.Owns e) : Adds T (insertOCOOrder e) := by
  refine .bind (keeps_derefParams _) fun cp1 => .bind (keeps_injectBasicOrder ho _) fun filled => .ite ?_ ?_
  · exact .of_keeps (.bind (keeps_execOCOOrder ..) fun _ => .pure _)
  · refine .generateId fun id2 ho2 => .bind (keeps_injectBasicOrder (ho2 _ rfl) _) fun filled2 =>
      .ite (fun _ => .bind (keeps_execOCOOrder ..) fun _ => .pure _) fun _ => ?_
    exact .bind (keeps_idCacheAt _) fun _ => .bind (keeps_idCacheAt _) fun _ =>
      .bind (keeps_armOrder ..) fun _ => .bind (keeps_armOrder ..) fun _ => .pure _

theorem adds_routeAdvancedOrder (ho : T.Owns e) : Adds T (routeAdvancedOrder e) := by
  have hid : ∀ {m : M Unit}, Keeps (Priced T) m → Adds T (m >>= fun _ => pure e.id) :=
    fun hm => .of_keeps (.bind hm fun _ => .pure _)
  unfold routeAdvancedOrder
  split
  · exact hid (keeps_insertActiveBracketOrder true ho)
  · exact hid (keeps_insertActiveBracketOrder false ho)
  · exact adds_insertOCOOrder ho
  · exact hid (keeps_insertTrailingStopOrder ho)
  · exact hid (keeps_insertBracketOrder true ho)
  · exact hid (keeps_insertBracketOrder false ho)
  · exact hid (keeps_insertOTOOrder ho)
  · exact hid (keeps_insertFOKOrder ho)
  · exact hid keeps_insertTrailingStopActiveOrder
  · exact hid (.discard (keeps_routeBasicOrder ho _))
  · exact .of_keeps (.throw _)

/-- An order nothing is known of is inserted. -/
theorem wp_insertOrder {w : World} {front : Option Nat} (h : Priced T w) (hnew : ¬ T.known e.id)
    (hids : Numbers (T.accept e front) w.lastId w.queuedIds) :
    wp (insertOrder e) (fun _ => PricedIn front) (fun _ => PricedIn front) w := by
  have ho := Terms.owns_accept hnew front
  refine wp_record_bind (Adds.run (T := T.accept e front) ?_ _ (h.acceptance hnew hids))
  exact .ite (adds_routeAdvancedOrder ho)
    (.of_keeps (.bind (.discard (keeps_routeBasicOrder ho _)) fun _ => .pure _))

end Orders

/-! ## Windows -/

theorem PricedIn.keeps {α : Type} {m : M α} (front : Option Nat) (h : ∀ T, Keeps (Priced T) m) :
    Keeps (PricedIn front) m :=
  ⟨fun w ⟨T, hT, hp⟩ => ((h T).run w hp).mono (fun _ _ h' => ⟨T, hT, h'⟩) fun _ _ h' => ⟨T, hT, h'⟩⟩

section Windows
variable {w w' : World}

theorem PricedIn.dequeued {front : Option Nat} (h : PricedIn front w) : PricedIn none
    (w.onSob fun s => { s with internalOrderQueue := s.internalOrderQueue.tail }) := by
  obtain ⟨T, -, h⟩ := h
  exact ⟨T.idle, rfl, h.dequeued⟩

/-- An order is inserted under a new id. -/
theorem PricedIn.insertNew (h : PricedIn none w) (qe : OrderQueueElem) :
    wp (insertOrder { qe with id := w.lastId + 1 }) (fun _ => PricedIn none) (fun _ => PricedIn none)
      (w.onSob fun s => { s with lastId := s.lastId + 1 }) := by
  obtain ⟨T, hT, h⟩ := h
  have hg := h.generated
  obtain ⟨hle, hnew, hn⟩ := hg.ids.spare _ (.inr rfl)
  refine wp_insertOrder hg hnew ?_
  refine hg.ids.acceptance hle (fun hm => absurd hm hn) (fun i hi => ?_) fun _ hi => by cases hi
  exact absurd (hT.symm.trans hi) (by simp)

/-- The order at the front of the queue is inserted. -/
theorem PricedIn.insertFront (h : PricedIn none w) {ie : OrderQueueElem} {rest : List OrderQueueElem}
    (hq : w.internalOrderQueue = ie :: rest) :
    wp (insertOrder ie) (fun _ => PricedIn (some ie.id)) (fun _ => PricedIn (some ie.id)) w := by
  obtain ⟨T, hT, h⟩ := h
  have hids : w.queuedIds = ie.id :: rest.map (·.id) := by
    unfold Sob.queuedIds
    rw [hq]
    rfl
  have hm : ie.id ∈ w.queuedIds := hids ▸ List.mem_cons_self
  have hold : ∀ i, T.front = some i → some ie.id = some i := fun i hi =>
    absurd (hT.symm.trans hi) (by simp)
  refine wp_insertOrder h (fun hk => ?_) (h.ids.acceptance (h.ids.queued_le _ hm) (fun _ => rfl) hold ?_)
  · exact absurd (hT.symm.trans ((h.ids.known _ hk).2 hm)) (by simp)
  · intro i hi
    rw [hids, ← hi]
    rfl

theorem wp_drainInternalOrders (fuel : Nat) : ∀ {w : World}, PricedIn none w →
    wp (drainInternalOrders fuel) (fun _ => PricedIn none) (fun _ w' => ∃ front, PricedIn front w') w := by
  induction fuel with
  | zero => exact fun h => wp_getSob_bind (wp_ite (fun _ => wp_pure h) fun _ => wp_pure h)
  | succ fuel ih =>
    intro w h
    unfold drainInternalOrders
    refine wp_getSob_bind ?_
    split
    · exact wp_pure h
    next ie rest hq =>
      have hrest : ∀ {front : Option Nat} {e : OrderQueueElem} {w : World},
          wp (insertOrder e) (fun _ => PricedIn front) (fun _ => PricedIn front) w →
          wp (do
            discard (insertOrder e)
            modifySob fun s => { s with internalOrderQueue := s.internalOrderQueue.tail }
            drainInternalOrders fuel) (fun _ => PricedIn none)
              (fun _ w' => ∃ front, PricedIn front w') w := fun {front e w} hins =>
        ((wp.discard (Q := fun _ => PricedIn front) hins).mono (fun _ _ h' => h')
          fun _ _ h' => ⟨_, h'⟩).bind fun _ _ h' => wp_modifySob_bind (ih h'.dequeued)
      by_cases hid : ie.id = 0
      · rw [if_pos hid]
        exact wp_generateId_bind (hrest (h.insertNew ie))
      · rw [if_neg hid]
        have hpure : (pure ie.id : M Nat) w = .ok ie.id w := rfl
        exact wp_bind_ok hpure (hrest (h.insertFront hq))

theorem wp_executeExternalOrder_priced (fuel : Nat) (ee : ExternalOrderQueueElem) (h : PricedIn none w) :
    wp (executeExternalOrder fuel ee) (fun _ => PricedIn none)
      (fun _ w' => ∃ front, PricedIn front w') w := by
  have hpull : ∀ {w : World}, PricedIn none w → wp (pullOrder ee.id) (fun _ => PricedIn none)
      (fun _ w' => ∃ front, PricedIn front w') w := fun {w} h =>
    ((PricedIn.keeps none fun T => keeps_pullOrder ee.id).run w h).mono (fun _ _ h' => h')
      fun _ _ h' => ⟨none, h'⟩
  have hdrain : ∀ {ret : Nat} {w : World}, PricedIn none w →
      wp (do return (← drainInternalOrders fuel).map fun _ => ret) (fun _ => PricedIn none)
        (fun _ w' => ∃ front, PricedIn front w') w := fun h =>
    (wp_drainInternalOrders fuel h).bind fun _ _ h' => wp_pure h'
  have hinsert : ∀ {qe : OrderQueueElem} {w : World}, PricedIn none w →
      wp (do
        let ret ← insertExternalOrder qe
        return (← drainInternalOrders fuel).map fun _ => ret) (fun _ => PricedIn none)
        (fun _ w' => ∃ front, PricedIn front w') w := fun {qe w} h =>
    wp.bind (wp_generateId_bind ((h.insertNew qe).mono (fun _ _ h' => h') fun _ _ h' => ⟨none, h'⟩))
      fun _ _ h' => hdrain h'
  unfold executeExternalOrder
  refine wp_ite (fun _ => ?_) fun _ => wp_getSob_bind ?_
  · exact (hpull h).bind fun _ _ h' => wp_ite (fun _ => hdrain h') fun _ => wp_pure h'
  · split
    · exact wp_throw ⟨none, h⟩
    · refine wp_ite (fun _ => ?_) fun _ => hinsert h
      exact (hpull h).bind fun _ _ h' => wp_ite (fun _ => hinsert h') fun _ => wp_pure h'

theorem Window.pricedIn {r : Request} {o : Outcome} (hw : Window r w o w') (h : PricedIn none w) :
    PricedIn none w' := by
  obtain ⟨fuel, hw⟩ := hw
  unfold Request.exec at hw
  split at hw
  · cases hw
    exact h
  next ee ha =>
    have hwp := wp_executeExternalOrder_priced fuel ee h
    unfold dispatchExternalOrder at hw
    split at hw
    · cases hw
    next ret w1 hm =>
      have h1 : PricedIn none w1 := hwp.ok hm
      split at hw
      · cases hw
        obtain ⟨T, hT, h1⟩ := h1
        exact ⟨T, hT, h1.thins (f := fun s => { s with callbacksSync := [] }) (Still.thins ⟨rfl, rfl, rfl, rfl⟩)⟩
      · cases hw
        exact h1
    · cases hw
    next err w1 _ hm =>
      cases hw
      obtain ⟨front, T, -, h1⟩ := hwp.error hm
      exact ⟨T.idle, rfl, h1.dropped _⟩
  next f ha =>
    split at hw
    · cases hw
      exact h
    next s hs =>
      cases hw
      obtain ⟨T, hT, h⟩ := h
      obtain ⟨base, incr, atBeg, hbase, rfl⟩ := Request.grow_eq ha hs
      obtain ⟨T', hT', h'⟩ := h.growBook hbase
      exact ⟨T', hT'.trans hT, h'⟩

theorem Run.pricedIn {w₀ : World} {rs : List (Request × Outcome)} (h0 : Initial w₀)
    (h : Run w₀ rs w) : PricedIn none w := by
  induction h with
  | nil => exact h0.priced
  | snoc _ hw ih => exact hw.pricedIn ih

/-- Over every run with prices on the book, whatever its windows end in and however the book grows: an
accepted limit order that is hit trades at its limit, and one that comes in, or an all-or-none order
that is taken up to trade, at its limit or a better price, unless it is a sell order that was copied to
the AON chains. -/
theorem AddressedRun.price_protected {w₀ : World} {rs : List (Request × Outcome)} (h0 : Initial w₀)
    (hrun : AddressedRun w₀ rs w) (hoff : w.OnBook) {price : Int} {plev size id1 id2 : Nat}
    (ht : .trade price plev size id1 id2 ∈ w.trace) {e : OrderQueueElem}
    (he : .insertOrder e ∈ w.trace) (hl : e.type = .limit) :
    (e.id = id2 → price = e.limit) ∧
      (e.id = id1 → e.Allows price ∨ e.isBuy = false ∧ SellCopied w.trace e.id) := by
  have h := hrun.exact hoff
  obtain ⟨T, -, hp⟩ := h.pricedIn h0
  obtain ⟨htake, hmake⟩ := hp.traded price plev size id1 id2 ht
    ((h.tapeRight h0).onBook price plev size id1 id2 ht)
  have he := hp.accepted e he
  refine ⟨hmake.2 e he hl, fun hid => ?_⟩
  subst hid
  exact htake.2 e he hl rfl

end Windows

end Engine

/-- A sell order at 7 meets an all-or-none order at 9, which is taken up and trades at 7. -/
theorem price_protected_sell : ∃ rs w e aon plev, AddressedRun (World.create 1 20) rs w ∧
    rs.map (·.1) = [.limit true 8 5, .limit true 9 10 { condition := .allOrNone }, .limit false 7 20] ∧
    .insertOrder e ∈ w.trace ∧ .insertOrder aon ∈ w.trace ∧ aon.condition = .allOrNone ∧
    .trade 7 plev 10 aon.id e.id ∈ w.trace ∧ 7 = e.limit ∧ aon.Allows 7 := by
  obtain ⟨rs, w, h, hoff, hrs, hw⟩ := AddressedRun.exists_of_exec 0
    [.limit true 8 5, .limit true 9 10 { condition := .allOrNone }, .limit false 7 20]
    (f := fun _ w => (w.trades, w.trace.any fun ev => ev.accepts fun e => e.id = 3 ∧ e.type = .limit,
      w.trace.any fun ev => ev.accepts fun e =>
        e.id = 2 ∧ e.type = .limit ∧ e.isBuy = true ∧ e.condition = .allOrNone))
    (v := ([⟨2, 3, 7, 10⟩, ⟨3, 1, 8, 5⟩], true, true)) (w := World.create 1 20) (by decide +kernel)
  obtain ⟨htrades, hsell, haon⟩ : _ ∧ _ ∧ _ := by simpa only [Prod.mk.injEq] using hw
  obtain ⟨plev, ht⟩ : ∃ plev, .trade 7 plev 10 2 3 ∈ w.trace := by
    have hm : (⟨2, 3, 7, 10⟩ : PriceTime.Trade Int) ∈ w.trades := htrades ▸ List.mem_cons_self
    obtain ⟨ev, hm, hev⟩ := List.mem_filterMap.mp hm
    cases ev with
    | trade =>
      cases hev
      exact ⟨_, List.mem_reverse.mp hm⟩
    | _ => cases hev
  have h0 : Initial (World.create 1 20) := initial_create (by decide) (by decide)
  obtain ⟨ev, hm, hev⟩ := List.any_eq_true.mp hsell
  obtain ⟨ev', hm', hev'⟩ := List.any_eq_true.mp haon
  cases ev with
  | insertOrder e =>
    cases ev' with
    | insertOrder aon =>
      obtain ⟨hid, hty⟩ : e.id = 3 ∧ e.type = .limit := of_decide_eq_true hev
      obtain ⟨hid', hty', hbuy, hc⟩ := of_decide_eq_true hev'
      have hallows := ((h.price_protected h0 hoff ht hm' hty').2 hid').resolve_right (by simp [hbuy])
      exact ⟨rs, w, e, aon, plev, h, hrs, hm, hm', hc, by rw [hid, hid']; exact ht,
        (h.price_protected h0 hoff ht hm hty).1 hid, hallows⟩
    | _ => cases hev'
  | _ => cases hev

end SimpleOrderbook
