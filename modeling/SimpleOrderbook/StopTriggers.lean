import SimpleOrderbook.Runs

/-!
# Triggered stops

The stops of both sides share one chain per level, and the scan of either side takes a chain whole.
A stop is only turned into an order when the last trade reached it, as long as no scan begins with
a stop in the way of the other side.
-/
namespace SimpleOrderbook

/-- Level `p` holds a stop of the side. -/
def Sob.HasStop (s : Sob) (buy : Bool) (p : Nat) : Prop := ∃ b ∈ (s.stops p).elems, b.isBuy = buy

/-- No stop that the last trade has not reached rests where the scan of the other side looks. -/
structure Sob.StopsApart (s : Sob) : Prop where
  sells : ∀ p < s.last, s.lowBuyStop ≤ p → ¬ s.HasStop false p
  buys : ∀ p ≤ s.highSellStop, s.last < p → ¬ s.HasStop true p

instance (s : Sob) (buy : Bool) (p : Nat) : Decidable (s.HasStop buy p) :=
  inferInstanceAs (Decidable (∃ b ∈ (s.stops p).elems, b.isBuy = buy))

instance (s : Sob) : Decidable s.StopsApart :=
  decidable_of_iff ((∀ p < s.last, s.lowBuyStop ≤ p → ¬ s.HasStop false p) ∧
    ∀ p ≤ s.highSellStop, s.last < p → ¬ s.HasStop true p)
    ⟨fun h => ⟨h.1, h.2⟩, fun h => ⟨h.sells, h.buys⟩⟩

/-- A last trade at level `last` is at or through stop `e` at level `plev`, on the stop's side. -/
def StopBndl.ReachedBy (e : StopBndl) (plev last : Nat) : Prop :=
  if e.isBuy then plev ≤ last else last ≤ plev

instance (e : StopBndl) (plev last : Nat) : Decidable (e.ReachedBy plev last) :=
  inferInstanceAs (Decidable (if e.isBuy then plev ≤ last else last ≤ plev))

/-- Every scan of the trace began with the stops apart. -/
def ScansApart (trace : List Event) : Prop :=
  ∀ s, Event.lookForTriggeredStops s ∈ trace → s.StopsApart

/-- Every stop that became an order was reached. -/
def TriggersSound (trace : List Event) : Prop :=
  ∀ e plev last id, Event.stopTriggered e plev last id ∈ trace → e.ReachedBy plev last

/-- The events the two properties are about. -/
def Event.OfScan : Event → Bool
  | .lookForTriggeredStops _ | .stopTriggered .. => true
  | _ => false

/-! ## What a scan finds -/

/-- The stops of `s'` are stops of `s`, and the sell stops look no further. -/
structure StopsShrink (s s' : Sob) : Prop where
  last : s'.last = s.last
  high : s'.highSellStop ≤ s.highSellStop
  stops : ∀ buy p, s'.HasStop buy p → s.HasStop buy p

section Shrink
variable {s s' s'' : Sob}

theorem StopsShrink.refl (s : Sob) : StopsShrink s s := ⟨rfl, le_rfl, fun _ _ h => h⟩

theorem StopsShrink.trans (h : StopsShrink s s') (h' : StopsShrink s' s'') : StopsShrink s s'' :=
  ⟨h'.last.trans h.last, h'.high.trans h.high, fun buy p hp => h.stops buy p (h'.stops buy p hp)⟩

theorem StopsShrink.of_stops (hlast : s'.last = s.last) (hhigh : s'.highSellStop = s.highSellStop)
    (hstops : s'.stops = s.stops) : StopsShrink s s' :=
  ⟨hlast, hhigh.le, fun _ _ ⟨b, hb, hbuy⟩ => ⟨b, hstops ▸ hb, hbuy⟩⟩

theorem highSellStop_adjustAfterPull (buy : Bool) (s : Sob) (p : Nat) :
    (Exec.Stop.adjustStateAfterPull buy s p).highSellStop ≤ s.highSellStop := by
  unfold Exec.Stop.adjustStateAfterPull
  cases buy
  · rw [if_neg Bool.false_ne_true]
    split
    · exact Nat.zero_le _
    · split
      · exact Nat.sub_le _ _
      · split <;> exact le_rfl
  · rw [if_pos rfl]
    split
    · exact le_rfl
    · split
      · exact le_rfl
      · split <;> exact le_rfl

theorem StopsShrink.erasedStop (s : Sob) (p : Nat) (b : StopBndl) :
    StopsShrink s (s.erasedStop p b) := by
  refine ⟨?_, ?_, ?_⟩
  · obtain ⟨_, _, _, _, _, _, h⟩ := s.erasedStop_eq p b
    rw [h]
  · unfold Sob.erasedStop
    dsimp only
    split
    · exact highSellStop_adjustAfterPull _ _ _
    · exact le_rfl
  · rintro buy q ⟨x, hx, hbuy⟩
    rw [stops_erasedStop] at hx
    split at hx
    next heq =>
      rw [ChainManager.elems_ofList] at hx
      exact ⟨x, heq ▸ List.eraseP_sublist.subset hx, hbuy⟩
    next => exact ⟨x, hx, hbuy⟩

theorem Chain.mem_updateStop {l : List StopBndl} {f : StopBndl → StopBndl} {id : Nat} {b : StopBndl}
    (h : b ∈ Chain.updateStop f id l) : ∃ b' ∈ l, b = b' ∨ b'.id = id ∧ b = f b' := by
  induction l with
  | nil => cases h
  | cons x xs ih =>
    unfold Chain.updateStop at h
    split at h
    next hid =>
      rcases List.mem_cons.mp h with rfl | h
      · exact ⟨x, by simp, .inr ⟨hid, rfl⟩⟩
      · exact ⟨b, by simp [h], .inl rfl⟩
    next =>
      rcases List.mem_cons.mp h with rfl | h
      · exact ⟨b, by simp, .inl rfl⟩
      · obtain ⟨b', hb', heq⟩ := ih h
        exact ⟨b', by simp [hb'], heq⟩

theorem StopsShrink.updateAt (s : Sob) (c : ChainIterWrap) (id : Nat) (g : OrderBndl → OrderBndl) :
    StopsShrink s (s.updateAt c id g) := by
  refine ⟨?_, ?_, ?_⟩
  · unfold Sob.updateAt; split <;> rfl
  · unfold Sob.updateAt; split <;> exact le_rfl
  · rintro buy q ⟨x, hx, hbuy⟩
    rw [stops_updateAt] at hx
    split at hx
    next heq =>
      cases hl : s.stops q with
      | none => rw [hl] at hx; cases hx
      | some l =>
        rw [hl] at hx
        obtain ⟨x', hx', rfl | ⟨-, rfl⟩⟩ := Chain.mem_updateStop hx
        · exact ⟨x, by rwa [hl], hbuy⟩
        · exact ⟨x', by rwa [hl], hbuy⟩
    next => exact ⟨x, hx, hbuy⟩

theorem StopsShrink.copiedToAons (s : Sob) (buyLimit : Bool) (p : Nat) (b : LimitBndl)
    (c : ChainIterWrap) : StopsShrink s (s.copiedToAons buyLimit p b c) := by
  have hstops : (s.copiedToAons buyLimit p b c).stops = s.stops := by
    funext q
    unfold Sob.copiedToAons
    rw [stops_of_files (Exec.Aon.files_adjustStateAfterInsert _ _ _)]
    exact Sob.stops_setAons ..
  obtain ⟨_, _, _, _, h⟩ := Exec.Aon.adjustStateAfterInsert_eq buyLimit
    ((s.setAons true p ((s.aons true p).push b)).cacheInsert b.id
      ⟨if buyLimit then .aonBuy else .aonSell, c.p⟩) p
  refine .of_stops ?_ ?_ hstops <;>
  · unfold Sob.copiedToAons
    rw [h]
    rfl

theorem StopsShrink.updateLimit (s : Sob) (p id : Nat) (f : LimitBndl → LimitBndl) :
    StopsShrink s (s.updateLimit p id f) :=
  .of_stops rfl rfl (by funext q; exact Sob.stops_setLimits ..)

theorem StopsShrink.trailingErased (s : Sob) (id : Nat) (isBuy : Bool) :
    StopsShrink s (s.trailingErased id isBuy) := by
  cases isBuy <;> exact .of_stops rfl rfl rfl

theorem StopsShrink.freeLimits (s : Sob) (bidSide : Bool) (p : Nat) :
    StopsShrink s (Exec.Core.findNewBestInside bidSide (s.setLimits p none)) := by
  obtain ⟨_, _, _, _, h⟩ := Exec.Core.findNewBestInside_eq bidSide (s.setLimits p none)
  rw [h]
  exact .of_stops rfl rfl (by funext q; exact Sob.stops_setLimits ..)

end Shrink

section Scan
variable {c c' : Config}

/-- What pulls and handlers do to the stops, and what they record. -/
structure ActQuiet (c c' : Config) : Prop where
  scan : c'.1.scan = c.1.scan
  detached : c'.1.detached = c.1.detached
  trace : c'.2.trace.filter Event.OfScan = c.2.trace.filter Event.OfScan
  stops : StopsShrink c.2.toSob c'.2.toSob

theorem StopsShrink.report (w : World) (msg : CallbackMsg) (cb : OrderExecCbBndl) (id1 id2 : Nat)
    (price : Int) (sz : Nat) : StopsShrink w.toSob (w.report msg cb id1 id2 price sz).toSob := by
  obtain ⟨_, _, h⟩ := w.report_eq msg cb id1 id2 price sz
  rw [h]
  exact .of_stops rfl rfl rfl

theorem Act.quiet (h : Act c c') : ActQuiet c c' := by
  cases h with
  | report => exact ⟨rfl, rfl, by rw [trace_report]; rfl, .report _ _ _ _ _ _ _⟩
  | popLimit => exact ⟨rfl, rfl, rfl, .of_stops rfl rfl (by funext q; simp [Sob.erasedLimit])⟩
  | @moveFront F w p b bs cw =>
    exact ⟨rfl, rfl, rfl, (StopsShrink.copiedToAons w.toSob _ p b cw).trans
      (.of_stops rfl rfl (by funext q; exact Sob.stops_setLimits ..))⟩
  | @settle F w p =>
    refine ⟨rfl, rfl, rfl, ?_⟩
    obtain ⟨_, _, _, _, h⟩ := Exec.Limit.adjustStateAfterPull_eq (decide (p ≤ w.bid)) w.toSob p
    rw [World.toSob_onSob, h]
    exact .of_stops rfl rfl rfl
  | @popAon F w id cw isBuy =>
    refine ⟨rfl, rfl, rfl, ?_⟩
    rw [World.toSob_onSob, World.toSob_log]
    unfold Sob.erasedAon
    dsimp only
    split
    · obtain ⟨_, _, _, _, h⟩ := Exec.Aon.adjustStateAfterPull_eq isBuy ((w.setAons isBuy cw.p
        (ChainManager.ofList (Chain.eraseLimit (w.aons isBuy cw.p).elems id))).cacheErase id) cw.p
      rw [h]
      exact .of_stops rfl rfl (by funext q; exact Sob.stops_setAons ..)
    · exact .of_stops rfl rfl (by funext q; exact Sob.stops_setAons ..)
  | popStop => exact ⟨rfl, rfl, rfl, .erasedStop _ _ _⟩
  | trailingErase => exact ⟨rfl, rfl, rfl, .trailingErased _ _ _⟩
  | pullEmptyStop | look => exact ⟨rfl, rfl, rfl, .of_stops rfl rfl rfl⟩
  | grow => exact ⟨rfl, rfl, rfl, .updateAt _ _ _ _⟩
  | @growBoth F w first second id1 id2 c1 c2 a msg cb id price sz =>
    refine ⟨rfl, rfl, ?_, ?_⟩
    · rw [World.trace_onSob, trace_report]
      rfl
    · have h1 : StopsShrink w.toSob (w.updateAt c1 id1 (incrSize a.amount)) := .updateAt _ _ _ _
      have h2 := StopsShrink.report (w.onSob (·.updateAt c1 id1 (incrSize a.amount))) msg cb id id
        price sz
      exact (h1.trans h2).trans (.updateAt _ _ _ _)
  | tell => exact ⟨rfl, rfl, rfl, .updateAt _ _ _ _⟩
  | _ => exact ⟨rfl, rfl, rfl, .of_stops rfl rfl rfl⟩

/-! ## Scans are sound -/

/-- Where a scan stands in a trace whose scans all began with the stops apart. -/
structure Scan.Sound (sc : Scan) (w : World) : Prop where
  apart : sc.start.StopsApart
  last : w.last = sc.start.last
  stops : ∀ buy p, w.HasStop buy p → sc.start.HasStop buy p
  ahead : sc.turn = none → w.highSellStop ≤ sc.start.highSellStop
  turned : ∀ s, sc.turn = some s →
    s.last = sc.start.last ∧ s.highSellStop ≤ sc.start.highSellStop

/-- Every stop of the chain taken out was reached. -/
def Detached.Sound (d : Detached) (last : Nat) : Prop := ∀ e ∈ d.todo, e.ReachedBy d.plev last

structure ScanInv (c : Config) : Prop where
  triggers : TriggersSound c.2.trace
  scan : ∀ sc, c.1.scan = some sc → sc.Sound c.2
  detached : ∀ d, c.1.detached = some d → (∃ sc, c.1.scan = some sc) ∧ d.Sound c.2.last

theorem TriggersSound.of_filter {l l' : List Event}
    (h : l'.filter Event.OfScan = l.filter Event.OfScan) (ht : TriggersSound l) :
    TriggersSound l' :=
  fun e p last id hm => ht e p last id
    (List.mem_of_mem_filter (h ▸ List.mem_filter.mpr ⟨hm, rfl⟩))

theorem Scan.Sound.shrink {sc : Scan} {w w' : World} (h : sc.Sound w)
    (hs : StopsShrink w.toSob w'.toSob) : sc.Sound w' :=
  ⟨h.apart, hs.last.trans h.last, fun buy p hp => h.stops buy p (hs.stops buy p hp),
    fun ht => hs.high.trans (h.ahead ht), h.turned⟩

theorem ScanInv.quiet (h : ScanInv c) (hq : ActQuiet c c') : ScanInv c' := by
  refine ⟨h.triggers.of_filter hq.trace, fun sc hsc => ?_, fun d hd => ?_⟩
  · exact (h.scan sc (hq.scan ▸ hsc)).shrink hq.stops
  · have := h.detached d (hq.detached ▸ hd)
    rwa [hq.scan, hq.stops.last]

/-- A trace that grew by events of no scan. -/
theorem ScanInv.move (h : ScanInv c) (hscan : c'.1.scan = c.1.scan)
    (hdet : c'.1.detached = c.1.detached)
    (htrace : c'.2.trace.filter Event.OfScan = c.2.trace.filter Event.OfScan)
    (hnone : c.1.scan = none ∨ StopsShrink c.2.toSob c'.2.toSob) : ScanInv c' := by
  rcases hnone with hnone | hs
  · refine ⟨h.triggers.of_filter htrace, fun sc hsc => ?_, fun d hd => ?_⟩
    · rw [hscan, hnone] at hsc
      cases hsc
    · obtain ⟨⟨sc, hsc⟩, -⟩ := h.detached d (hdet ▸ hd)
      rw [hnone] at hsc
      cases hsc
  · exact h.quiet ⟨hscan, hdet, htrace, hs⟩

/-- A stop of a chain that a scan takes was reached, whatever its side. -/
theorem Scan.Sound.reached {sc : Scan} {w : World} (h : sc.Sound w) {buyStops : Bool} {plev : Nat}
    (hbuy : buyStops = true → sc.start.lowBuyStop ≤ plev ∧ plev ≤ sc.start.last)
    (hsell : buyStops = false → ∃ s, sc.turn = some s ∧ s.last ≤ plev ∧ plev ≤ s.highSellStop)
    {e : StopBndl} (he : e ∈ (w.stops plev).elems) : e.ReachedBy plev w.last := by
  have hin := h.stops e.isBuy plev ⟨e, he, rfl⟩
  have hlast := h.last
  unfold StopBndl.ReachedBy
  cases hside : e.isBuy
  · rw [if_neg Bool.false_ne_true]
    rw [hside] at hin
    cases buyStops
    · obtain ⟨s, hs, hle, -⟩ := hsell rfl
      exact ((hlast.trans (h.turned s hs).1.symm).trans_le hle)
    · exact hlast.trans_le (not_lt.mp fun hlt => h.apart.sells plev hlt (hbuy rfl).1 hin)
  · rw [if_pos rfl]
    rw [hside] at hin
    cases buyStops
    · obtain ⟨s, hs, -, hle⟩ := hsell rfl
      refine le_trans (not_lt.mp fun hlt => ?_) hlast.ge
      exact h.apart.buys plev (hle.trans (h.turned s hs).2) hlt hin
    · exact (hbuy rfl).2.trans_eq hlast.symm

theorem Move.scanInv (h : Move c c') (hi : ScanInv c) (ha : ScansApart c'.2.trace) :
    ScanInv c' := by
  cases h with
  | act h => exact hi.quiet h.quiet
  | call ev hev =>
    refine hi.move rfl rfl ?_ (.inr (.of_stops rfl rfl rfl))
    cases ev <;> first | rfl | exact hev.elim
  | fillAon _ _ _ _ _ _ _ _ _ _ _ _ _ _ hscan =>
    exact hi.move rfl rfl (by simp [trace_traded, Event.OfScan]) (.inl hscan)
  | fillLastAon _ _ _ _ _ _ _ _ _ _ _ hscan =>
    exact hi.move rfl rfl (by simp [trace_traded, Event.OfScan]) (.inl hscan)
  | fill _ _ _ _ _ _ _ _ _ _ _ _ _ _ hscan =>
    exact hi.move rfl rfl (by simp [trace_traded, Event.OfScan]) (.inl hscan)
  | moveStop _ _ _ _ _ _ _ _ _ _ _ hscan =>
    exact hi.move rfl rfl (by simp [World.movedStop, trace_report, Event.OfScan]) (.inl hscan)
  | @beginScan F w hscan hneed =>
    refine ⟨fun e p last id hm => hi.triggers e p last id (by simpa using hm), fun sc hsc => ?_, fun d hd => ?_⟩
    · cases hsc
      exact ⟨ha _ (List.mem_cons_self ..), rfl, fun _ _ h => h, fun _ => le_rfl,
        fun s hs => by cases hs⟩
    · obtain ⟨⟨sc, hsc⟩, -⟩ := hi.detached d hd
      exact absurd (hscan.symm.trans hsc) (by simp)
  | @turnScan F w sc hscan hturn =>
    have hs := hi.scan sc hscan
    refine ⟨fun e p last id hm => hi.triggers e p last id (by simpa using hm), fun sc' hsc => ?_,
      fun d hd => ⟨⟨_, rfl⟩, (hi.detached d hd).2⟩⟩
    cases hsc
    refine ⟨hs.apart, hs.last, hs.stops, fun h => (by cases h), fun s h => ?_⟩
    cases h
    exact ⟨hs.last, hs.ahead hturn⟩
  | @endScan F w hdet =>
    exact ⟨hi.triggers, fun sc hsc => (by cases hsc), fun d hd => absurd (hdet.symm.trans hd)
      (by simp)⟩
  | @detach F w buyStops plev sc hscan hdet hbuy hsell =>
    have hs := hi.scan sc hscan
    have hlast : (Exec.Stop.adjustStateAfterTrigger buyStops (w.setStops plev none) plev).last =
        w.last := by
      obtain ⟨_, _, _, _, heq⟩ := Exec.Stop.adjustStateAfterTrigger_eq buyStops
        (w.setStops plev none) plev
      rw [heq]
      rfl
    refine ⟨hi.triggers, fun sc' hsc' => ?_, fun d hd => ⟨⟨sc, hscan⟩, ?_⟩⟩
    · cases hscan.symm.trans hsc'
      refine ⟨hs.apart, hlast.trans hs.last, fun buy p ⟨x, hx, hxbuy⟩ => hs.stops buy p ?_,
        fun ht => ?_, hs.turned⟩
      · rw [World.toSob_onSob, stops_of_files (Exec.Stop.files_adjustStateAfterTrigger _ _ _),
          Sob.stops_setStops] at hx
        split at hx
        · cases hx
        · exact ⟨x, hx, hxbuy⟩
      · cases buyStops
        · obtain ⟨s, hs, -⟩ := hsell rfl
          rw [ht] at hs
          cases hs
        · refine le_trans (le_of_eq ?_) (hs.ahead ht)
          rw [World.toSob_onSob]
          unfold Exec.Stop.adjustStateAfterTrigger
          rw [if_pos rfl]
          split <;> rfl
    · cases hd
      intro e he
      rw [World.toSob_onSob, hlast]
      exact hs.reached hbuy hsell he
  | @turn F w d e todo order ids msg hdet htodo hturn hids hsz hgen =>
    obtain ⟨_, _, heq⟩ := w.turned_eq msg e d.plev order
    have hd := hi.detached d hdet
    have hsh : StopsShrink w.toSob (w.turned msg e d.plev order).toSob := by
      rw [heq]
      exact .of_stops rfl rfl rfl
    refine ⟨fun e' p last id hm => ?_, fun sc hsc => (hi.scan sc hsc).shrink hsh, fun d' hd' => ?_⟩
    · rw [heq] at hm
      simp only [List.mem_cons, reduceCtorEq, false_or] at hm
      rcases hm with hm | hm
      · cases hm
        exact hd.2 e (by rw [htodo]; simp)
      · exact hi.triggers e' p last id hm
    · cases hd'
      refine ⟨hd.1, fun e' he' => ?_⟩
      rw [hsh.last]
      exact hd.2 e' (by rw [htodo]; exact List.mem_cons_of_mem _ he')
  | endTrigger d id hdet hturn =>
    refine ⟨hi.triggers, fun sc hsc => (hi.scan sc hsc).shrink (.of_stops rfl rfl rfl),
      fun d' hd' => ?_⟩
    cases hd'
    exact hi.detached d hdet
  | endDetached => exact ⟨hi.triggers, hi.scan, fun d hd => by cases hd⟩
  | @freeAon F w bidSide plev =>
    refine hi.move rfl rfl rfl (.inr ?_)
    obtain ⟨_, _, _, _, h⟩ := Exec.Aon.adjustStateAfterPull_eq bidSide
      (w.setAons bidSide plev none) plev
    rw [World.toSob_onSob, h]
    exact .of_stops rfl rfl (by funext q; exact Sob.stops_setAons ..)
  | @moveHit F w h id size b cw =>
    have hcopy : StopsShrink w.toSob (w.copiedToAons (decide (h.plev < w.ask)) h.plev b cw) :=
      .copiedToAons _ _ _ _ _
    exact hi.move rfl rfl rfl (.inr (hcopy.trans (.updateLimit _ _ _ _)))
  | rearm => exact hi.move rfl rfl rfl (.inr (.updateLimit _ _ _ _))
  | reduce => exact hi.move rfl rfl rfl (.inr (.updateLimit _ _ _ _))
  | @retire F w h a =>
    refine hi.move rfl rfl rfl (.inr ((StopsShrink.updateLimit w.toSob h.plev a.bndl.id fun x =>
      { x with sz := x.sz - a.amount }).trans (.of_stops rfl rfl rfl)))
  | @eraseHit F w h =>
    exact hi.move rfl rfl rfl (.inr (.of_stops rfl rfl (by funext q; exact Sob.stops_setLimits ..)))
  | eraseTriggered => exact hi.move rfl rfl rfl (.inr (.trailingErased _ _ _))
  | freeHit bidSide h => exact hi.move rfl rfl rfl (.inr (.freeLimits _ bidSide h.plev))
  | wipeHit bidSide h => exact hi.move rfl rfl rfl (.inr (.freeLimits _ bidSide h.plev))
  | _ => exact hi.move rfl rfl rfl (.inr (.of_stops rfl rfl rfl))

theorem ScansApart.of_suffix {l l' : List Event} (h : ScansApart l') (hs : l <:+ l') :
    ScansApart l :=
  fun s hm => h s (hs.subset hm)

theorem Moves.scanInv (h : Moves c c') (hi : ScanInv c) (ha : ScansApart c'.2.trace) :
    ScanInv c' := by
  induction h with
  | refl => exact hi
  | tail _ h ih => exact h.scanInv (ih (ha.of_suffix h.trace_suffix)) ha

/-- Between two trades no scan is under way. -/
theorem Step.scanInv (h : Step c c') (hi : ScanInv c) (hscan : c.1.scan = none)
    (ha : ScansApart c'.2.trace) : ScanInv c' ∧ c'.1.scan = none := by
  cases h with
  | act h =>
    have hq := h.quiet
    exact ⟨hi.quiet hq, hq.scan.trans hscan⟩
  | trade bidSide plev id size r cb hF hp hpe hrun hm => exact ⟨Moves.scanInv hm hi ha, hscan⟩
  | kill => exact ⟨hi.move rfl rfl (by rw [trace_report]; rfl) (.inl hscan), hscan⟩
  | print => exact ⟨hi.move rfl rfl (by rw [trace_traded]; rfl) (.inl hscan), hscan⟩
  | _ => exact ⟨hi.move rfl rfl rfl (.inl hscan), hscan⟩

theorem Steps.scanInv (h : Steps c c') (hi : ScanInv c) (hscan : c.1.scan = none)
    (ha : ScansApart c'.2.trace) : ScanInv c' ∧ c'.1.scan = none := by
  induction h with
  | refl => exact ⟨hi, hscan⟩
  | tail _ h ih =>
    obtain ⟨hi, hscan⟩ := ih (ha.of_suffix h.trace_suffix)
    exact h.scanInv hi hscan ha

theorem ScanInv.opened {w : World} (h : TriggersSound w.trace) (qe : Option OrderQueueElem) :
    ScanInv (.opened qe, w) :=
  ⟨h, fun _ hsc => (by cases hsc), fun _ hd => by cases hd⟩

theorem Closes.triggersSound {r : Request} {w w' : World} {o : Outcome} (h : Closes r w o w')
    (ht : TriggersSound w.trace) (ha : ScansApart w'.trace) : TriggersSound w'.trace := by
  have hdrop : ∀ {l : List Event} {queue : List OrderQueueElem}, TriggersSound l →
      TriggersSound (.dropped queue :: l) := fun h e p last id hm => h e p last id (by simpa using hm)
  cases h with
  | refused => exact ht
  | rejected => exact hdrop ht
  | grown => exact ht
  | value _ hs => exact (Steps.scanInv hs (.opened ht _) rfl ha).1.triggers
  | left _ hs herr =>
    have ha' := ha.of_suffix (List.suffix_cons _ _)
    refine hdrop ?_
    cases hs with
    | undefined => exact absurd rfl herr
    | failed hs hm =>
      have hi := (Steps.scanInv hs (.opened ht _) rfl (ha'.of_suffix (Moves.trace_suffix hm))).1
      exact (Moves.scanInv hm hi ha').triggers
    | refused hs => exact (Steps.scanInv hs (.opened ht _) rfl ha').1.triggers

end Scan

/-! ## Runs -/

/-- In a run whose scans all begin with the stops apart, a stop becomes an order only when the last
trade is at or through its level on its own side. -/
theorem Run.triggers_sound {w₀ w : World} {rs : List (Request × Outcome)} (h0 : Initial w₀)
    (h : Run w₀ rs w) (ha : ∀ s, Event.lookForTriggeredStops s ∈ w.trace → s.StopsApart) :
    ∀ e plev last id, Event.stopTriggered e plev last id ∈ w.trace → e.ReachedBy plev last := by
  refine h.closes_inv (P := fun w => ScansApart w.trace → TriggersSound w.trace) h0 ?_ ?_ ha
  · intro _ e p last id hm
    rw [h0.trace_nil] at hm
    cases hm
  · intro r w o w' _ _ hP hc ha'
    exact hc.triggersSound (hP (ha'.of_suffix hc.trace_suffix)) ha'

/-- A scan that begins with the stops apart, and any other call. -/
def Event.IsApart : Event → Bool
  | .lookForTriggeredStops s => decide s.StopsApart
  | _ => true

/-- A stop at level `plev` becomes order `idNew`. -/
def Event.triggers (plev last idNew : Nat) : Event → Bool
  | .stopTriggered _ plev' last' id => decide ((plev', last', id) = (plev, last, idNew))
  | _ => false

/-- A buy stop is triggered, and a sell stop stays below. -/
theorem buy_stop_triggered_at_last : ∃ rs w, Run (World.create 88 20) rs w ∧
    rs.map (·.1) = [.limit true 90 5, .limit false 103 6, .stop true 102 1, .stop false 95 1,
      .market true 5] ∧ ∃ e, Event.stopTriggered e 15 16 6 ∈ w.trace ∧ e.ReachedBy 15 16 := by
  obtain ⟨rs, w, h, hrs, hw⟩ := Run.exists_of_execAll 4
    [.limit true 90 5, .limit false 103 6, .stop true 102 1, .stop false 95 1, .market true 5]
    (w := World.create 88 20) (v := (true, true))
    (f := fun _ w => (w.trace.all Event.IsApart, w.trace.any (·.triggers 15 16 6)))
    (by decide +kernel)
  obtain ⟨hall, hany⟩ := Prod.mk.inj hw
  have hapart : ∀ s, Event.lookForTriggeredStops s ∈ w.trace → s.StopsApart := fun s hs =>
    of_decide_eq_true (List.all_eq_true.mp hall _ hs)
  obtain ⟨ev, hev, hun⟩ := List.any_eq_true.mp hany
  cases ev with
  | stopTriggered e plev last id =>
    cases of_decide_eq_true hun
    exact ⟨rs, w, h, hrs, e, hev,
      h.triggers_sound (initial_create (by decide) (by decide)) hapart e 15 16 6 hev⟩
  | _ => cases hun

/-- A stop that became an order too early. -/
def Event.IsUnreached : Event → Bool
  | .stopTriggered e plev last _ => !decide (e.ReachedBy plev last)
  | _ => false

/-- A sell stop at the level of a buy stop is taken with it by a first trade above both. -/
theorem sell_stop_triggered_above : ∃ rs w, Run (World.create 88 20) rs w ∧
    rs.map (·.1) = [.limit true 90 5, .limit false 103 6, .stop true 102 1,
      .stop false 102 1, .market true 5] ∧
      ∃ e plev last id, Event.stopTriggered e plev last id ∈ w.trace ∧
        ¬ e.ReachedBy plev last := by
  obtain ⟨rs, w, h, hrs, hw⟩ := Run.exists_of_execAll 4
    [.limit true 90 5, .limit false 103 6, .stop true 102 1, .stop false 102 1, .market true 5]
    (f := fun _ w => w.trace.any Event.IsUnreached) (v := true) (w := World.create 88 20)
    (by decide +kernel)
  obtain ⟨ev, hev, hun⟩ := List.any_eq_true.mp hw
  cases ev with
  | stopTriggered e plev last id =>
    exact ⟨rs, w, h, hrs, e, plev, last, id, hev, by simpa [Event.IsUnreached] using hun⟩
  | _ => cases hun

end SimpleOrderbook
