import SimpleOrderbook.AonWindows
import SimpleOrderbook.Balance
import SimpleOrderbook.Conservation

/-!
# The cache and the chains hold the same orders

At a window end an order is cached if and only if it is in a chain, it is in one, at the level and of
the kind its entry names, and something is left of it. A chain is allocated for the first order of its level and freed
with its last one, so no level has a chain without orders, also in the middle of a window.

## Main results

* `Run.chains_full` — chains are allocated for orders only, in every run.
* `Run.cache_matches_chains` — the cache and the chains hold the same orders, as long as no limit chain
  is hit with nothing to trade.
-/
namespace SimpleOrderbook

/-! ## Chains are freed when they are empty -/

/-- A chain of stops or of AONs that is allocated has orders. -/
structure Sob.ChainsFull (s : Sob) : Prop where
  stops : ∀ p, s.stops p ≠ some []
  aons : s.AonsFull

theorem ChainManager.ofList_ne_empty {α : Type} (l : List α) : ofList l ≠ some [] := by
  cases l <;> simp [ofList]

theorem ChainManager.push_ne_empty {α : Type} (c : ChainManager α) (b : α) : push c b ≠ some [] := by
  simp [push]

theorem Chain.updateStop_eq_nil {f : StopBndl → StopBndl} {id : Nat} {l : List StopBndl}
    (h : updateStop f id l = []) : l = [] := by
  cases l with
  | nil => rfl
  | cons b bs =>
    unfold updateStop at h
    split at h <;> cases h

namespace Sob.ChainsFull
variable {s s' : Sob} {p : Nat} {buys : Bool}

theorem of_eq (h : s.ChainsFull) (hs : s'.stops = s.stops) (ha : s'.aons = s.aons) : s'.ChainsFull :=
  ⟨hs ▸ h.stops, fun buys q => ha ▸ h.aons buys q⟩

theorem of_files (h : s.ChainsFull) (hf : s'.files = s.files) : s'.ChainsFull :=
  h.of_eq (stops_of_files hf) (aons_of_files hf)

theorem setLimits (h : s.ChainsFull) (p : Nat) (c : ChainManager LimitBndl) :
    (s.setLimits p c).ChainsFull :=
  h.of_eq (funext fun _ => Sob.stops_setLimits ..)
    (funext fun _ => funext fun _ => Sob.aons_setLimits ..)

theorem setStops (h : s.ChainsFull) (p : Nat) {c : ChainManager StopBndl} (hc : c ≠ some []) :
    (s.setStops p c).ChainsFull := by
  refine ⟨fun q hq => ?_, fun buys q hq => h.aons buys q ?_⟩
  · rw [Sob.stops_setStops] at hq
    split at hq
    · exact hc hq
    · exact h.stops q hq
  · rwa [Sob.aons_setStops] at hq

theorem setAons (h : s.ChainsFull) (buys : Bool) (p : Nat) {c : ChainManager AonBndl}
    (hc : c ≠ some []) : (s.setAons buys p c).ChainsFull := by
  refine ⟨fun q hq => h.stops q ?_, fun buys' q hq => ?_⟩
  · rwa [Sob.stops_setAons] at hq
  · rw [Sob.aons_setAons] at hq
    split at hq
    · exact hc hq
    · exact h.aons buys' q hq

theorem cacheErase (h : s.ChainsFull) (id : Nat) : (s.cacheErase id).ChainsFull := h.of_eq rfl rfl

theorem cacheInsert (h : s.ChainsFull) (id : Nat) (c : ChainIterWrap) :
    (s.cacheInsert id c).ChainsFull :=
  h.of_eq rfl rfl

theorem cacheEmplace (h : s.ChainsFull) (id : Nat) (c : ChainIterWrap) :
    (s.cacheEmplace id c).ChainsFull :=
  h.of_eq (funext fun _ => by rw [Sob.stops_cacheEmplace]) (Sob.aons_cacheEmplace ..)

theorem updateAt (h : s.ChainsFull) (c : ChainIterWrap) (id : Nat) (g : OrderBndl → OrderBndl) :
    (s.updateAt c id g).ChainsFull := by
  refine ⟨fun q hq => ?_, fun buys q hq => ?_⟩
  · rw [stops_updateAt] at hq
    split at hq
    · obtain ⟨l, hl, hn⟩ := Option.map_eq_some_iff.mp hq
      exact h.stops q (Chain.updateStop_eq_nil hn ▸ hl)
    · exact h.stops q hq
  · rw [aons_updateAt] at hq
    by_cases hc : c.type = (if buys then .aonBuy else .aonSell) ∧ q = c.p
    · rw [if_pos hc] at hq
      obtain ⟨l, hl, hn⟩ := Option.map_eq_some_iff.mp hq
      exact h.aons buys q (Chain.updateLimit_eq_nil.mp hn ▸ hl)
    · rw [if_neg hc] at hq
      exact h.aons buys q hq

theorem armed (h : s.ChainsFull) (c : ChainIterWrap) (id : Nat) (condition : OrderCondition)
    (trigger : ConditionTrigger) (payload : Payload) :
    (s.armed c id condition trigger payload).ChainsFull :=
  h.updateAt _ _ _

theorem copiedToAons (h : s.ChainsFull) (buyLimit : Bool) (p : Nat) (b : LimitBndl)
    (c : ChainIterWrap) : (s.copiedToAons buyLimit p b c).ChainsFull :=
  ((h.setAons true p (ChainManager.push_ne_empty _ b)).cacheInsert b.id
    ⟨if buyLimit then .aonBuy else .aonSell, c.p⟩).of_files (Exec.Aon.files_adjustStateAfterInsert _ _ _)

theorem erasedAon (h : s.ChainsFull) (isBuy : Bool) (p id : Nat) :
    (s.erasedAon isBuy p id).ChainsFull := by
  have hset := (h.setAons isBuy p (ChainManager.ofList_ne_empty
    (Chain.eraseLimit (s.aons isBuy p).elems id))).cacheErase id
  unfold Sob.erasedAon
  dsimp only
  split
  · exact hset.of_files (Exec.Aon.files_adjustStateAfterPull _ _ _)
  · exact hset

theorem erasedStop (h : s.ChainsFull) (p : Nat) (b : StopBndl) : (s.erasedStop p b).ChainsFull := by
  have hset := (h.setStops p (ChainManager.ofList_ne_empty
    (Chain.eraseStop (s.stops p).elems b.id))).cacheErase b.id
  unfold Sob.erasedStop
  dsimp only
  split
  · exact hset.of_files (Exec.Stop.files_adjustStateAfterPull _ _ _)
  · exact hset

theorem limitPush (h : s.ChainsFull) (buy : Bool) (p : Nat) (b : LimitBndl) :
    (Chain.limitPush buy s p b).ChainsFull :=
  ((h.setLimits p _).cacheEmplace b.id _).of_files (Exec.Limit.files_adjustStateAfterInsert _ _ _)

theorem aonPush (h : s.ChainsFull) (buy : Bool) (p : Nat) (b : AonBndl) :
    (Chain.aonPush buy s p b).ChainsFull :=
  ((h.setAons buy p (ChainManager.push_ne_empty _ b)).cacheEmplace b.id _).of_files
    (Exec.Aon.files_adjustStateAfterInsert _ _ _)

theorem stopPush (h : s.ChainsFull) (p : Nat) (b : StopBndl) : (Chain.stopPush s p b).ChainsFull :=
  ((h.setStops p (ChainManager.push_ne_empty _ b)).cacheEmplace b.id _).of_files
    (Exec.Stop.files_adjustStateAfterInsert _ _ _)

theorem freedAon (h : s.ChainsFull) (buys : Bool) (p : Nat) :
    (Exec.Aon.adjustStateAfterPull buys (s.setAons buys p none) p).ChainsFull :=
  (h.setAons buys p (by simp)).of_files (Exec.Aon.files_adjustStateAfterPull _ _ _)

theorem freedLimits (h : s.ChainsFull) (bidSide : Bool) (p : Nat) :
    (Exec.Core.findNewBestInside bidSide (s.setLimits p none)).ChainsFull :=
  (h.setLimits p none).of_files (Exec.Core.files_findNewBestInside _ _)

end Sob.ChainsFull

/-! ### The transitions -/

theorem Act.chainsFull {c c' : Config} (h : Act c c') (hf : c.2.ChainsFull) : c'.2.ChainsFull := by
  cases h with
  | report => exact hf.of_files (files_report _ _ _ _ _ _ _)
  | popLimit => exact (hf.setLimits _ _).cacheErase _
  | @moveFront F w p b bs c =>
    exact (Sob.ChainsFull.copiedToAons (s := w.toSob) hf _ p b c).setLimits _ _
  | settle => exact hf.of_files (Exec.Limit.files_adjustStateAfterPull _ _ _)
  | @popAon F w => exact Sob.ChainsFull.erasedAon (s := w.toSob) hf _ _ _
  | @popStop F w => exact Sob.ChainsFull.erasedStop (s := w.toSob) hf _ _
  | trailingErase => exact hf.of_files (files_trailingErased _ _ _)
  | grow | tell => exact hf.updateAt _ _ _
  | @growBoth F w first second id1 id2 c1 c2 a msg cb id price sz =>
    let w1 := w.onSob (·.updateAt c1 id1 (incrSize a.amount))
    have h1 : w1.ChainsFull := hf.updateAt _ _ _
    have h2 : (w1.report msg cb id id price sz).ChainsFull := h1.of_files (files_report _ _ _ _ _ _ _)
    exact h2.updateAt _ _ _
  | _ => exact hf.of_eq rfl rfl

theorem Move.chainsFull {c c' : Config} (h : Move c c') (hf : c.2.ChainsFull) : c'.2.ChainsFull := by
  cases h with
  | act h => exact h.chainsFull hf
  | @fillAon F w bidSide plev id size cb b kept bs hands hh hl hne =>
    have htr : (w.traded plev b.sz id b.id cb b.cb).ChainsFull := hf.of_files (files_traded _ _ _ _ _ _ _)
    exact (htr.cacheErase b.id).setAons bidSide plev (by simpa using hne)
  | @fillLastAon F w bidSide plev id size cb b =>
    have htr : (w.traded plev b.sz id b.id cb b.cb).ChainsFull := hf.of_files (files_traded _ _ _ _ _ _ _)
    exact (htr.cacheErase b.id).freedAon bidSide plev
  | freeAon => exact hf.freedAon _ _
  | @moveHit F w H id size b c =>
    exact (Sob.ChainsFull.copiedToAons (s := w.toSob) hf _ H.plev b c).setLimits _ _
  | fill => exact hf.of_files (files_traded _ _ _ _ _ _ _)
  | rearm | reduce | eraseHit => exact hf.setLimits _ _
  | retire => exact (hf.setLimits _ _).cacheErase _
  | freeHit | wipeHit => exact hf.freedLimits _ _
  | @moveStop F w buyStops p id c b nticks pAdj =>
    have h1 : (w.onSob (·.erasedStop c.p b)).ChainsFull := hf.erasedStop c.p b
    exact (h1.of_files (files_report _ _ _ _ _ _ _)).stopPush pAdj b
  | detach =>
    exact (hf.setStops _ (by simp)).of_files (Exec.Stop.files_adjustStateAfterTrigger _ _ _)
  | eraseTriggered => exact hf.of_files (files_trailingErased _ _ _)
  | turn => exact hf.of_files (files_turned _ _ _ _ _)
  | endTrigger => exact hf.cacheErase _
  | _ => exact hf.of_eq rfl rfl

theorem Step.chainsFull {c c' : Config} (h : Step c c') (hf : c.2.ChainsFull)
    (hmoves : Moves c c' → c'.2.ChainsFull) : c'.2.ChainsFull := by
  cases h with
  | act h => exact h.chainsFull hf
  | trade bidSide plev id size r cb hF hp hpe hrun hm => exact hmoves hm
  | kill => exact hf.of_files (files_report _ _ _ _ _ _ _)
  | print => exact hf.of_files (files_traded _ _ _ _ _ _ _)
  | pushLimit => exact hf.limitPush _ _ _
  | pushAon => exact hf.aonPush _ _ _
  | pushStop => exact hf.stopPush _ _
  | arm => exact hf.armed _ _ _ _ _
  | link => exact (hf.armed _ _ _ _ _).armed _ _ _ _ _
  | openLoss => exact (hf.armed _ _ _ _ _).stopPush _ _
  | @tellEntry F w e id c payload => exact hf.updateAt c id fun b => { b with payload := payload }
  | trailingInsert => exact hf.of_files (files_trailingInserted _ _ _)
  | _ => exact hf.of_eq rfl rfl

namespace Sob.ChainsFull
variable {w w' : World}

theorem growBook {s : Sob} (h : s.ChainsFull) {base : Int} {incr : Nat} (atBeg : Bool) (hincr : incr ≠ 0) :
    (growBook base incr atBeg s).ChainsFull := by
  refine ⟨fun p hp => ?_, fun buys p hp => ?_⟩
  · rw [stops_growBook hincr] at hp
    split at hp
    · cases hp
    · exact h.stops _ hp
  · rw [aons_growBook hincr] at hp
    split at hp
    · cases hp
    · exact h.aons _ _ hp

theorem close (h : w.ChainsFull) (hc : w.ClosesTo w') : w'.ChainsFull := by
  obtain ⟨⟨cbs, queue, hs⟩, -⟩ := hc
  rw [hs]
  exact h.of_eq rfl rfl

theorem kept : Kept fun c => c.2.ChainsFull where
  move _ hm h := hm.chainsFull h
  step _ _ hs h htrade := hs.chainsFull h htrade
  grow _ hincr h := h.growBook _ hincr
  close h hc := h.close hc

end Sob.ChainsFull

/-- At every window end a chain is allocated if and only if it has orders. -/
theorem Run.chains_full {w₀ w : World} {rs : List (Request × Outcome)} (h0 : Initial w₀)
    (h : Run w₀ rs w) : (∀ p, w.limits p ≠ none ↔ (w.limits p).elems ≠ []) ∧
      (∀ p, w.stops p ≠ none ↔ (w.stops p).elems ≠ []) ∧
      ∀ buys p, w.aons buys p ≠ none ↔ (w.aons buys p).elems ≠ [] := by
  have hiff : ∀ {α : Type} {c : ChainManager α}, c ≠ some [] → (c ≠ none ↔ c.elems ≠ []) :=
    fun {α c} hc => by
      cases c with
      | none => simp
      | some l => simpa using hc
  have hfull : w.ChainsFull := by
    refine Sob.ChainsFull.kept.run (fun _ h hc => h.close hc) h0 (fun _ => ?_) h none
    obtain ⟨⟨base, incr, -, -, hw⟩, -⟩ := h0
    rw [hw]
    exact ⟨fun p hp => (by cases hp), fun buys p hp => by cases buys <;> cases hp⟩
  exact ⟨fun p => hiff ((h.limitInv h0).nonempty p), fun p => hiff (hfull.stops p),
    fun buys p => hiff (hfull.aons buys p)⟩

/-! ## The orders of the cache -/

/-- The orders of level `p` in its chains of one kind. The two AON chains are of one. -/
def Sob.ordersOf (s : Sob) (k : Kind) (p : Nat) : List OrderBndl :=
  match k with
  | .limit => (s.limits p).elems.map (·.toOrderBndl)
  | .stop => (s.stops p).elems.map (·.toOrderBndl)
  | .aon => ((s.aons true p).elems ++ (s.aons false p).elems).map (·.toOrderBndl)

theorem Sob.ordersOf_eq (s : Sob) (k : Kind) (p : Nat) : s.ordersOf k p = s.contents {} (k, p) := by
  cases k <;> simp [ordersOf, contents, Flight.spentAt, Flight.triggering]

/-- The cache and the chains hold the same orders. -/
structure Sob.CacheMatches (s : Sob) : Prop where
  /-- A cached id is that of one element of the book, at the level of its entry and in a chain of the
  kind the entry names. -/
  once : ∀ id c, s.idCache id = some c → ∀ k p, ((s.ordersOf k p).filter (·.id = id)).length =
    if k = c.type.kind ∧ p = c.p then 1 else 0
  cached : ∀ k p, ∀ b ∈ s.ordersOf k p, s.idCache b.id ≠ none
  sized : ∀ k p, ∀ b ∈ s.ordersOf k p, 0 < b.sz
  limits : ∀ p, s.limits p ≠ none ↔ (s.limits p).elems ≠ []
  stops : ∀ p, s.stops p ≠ none ↔ (s.stops p).elems ≠ []
  aons : ∀ buys p, s.aons buys p ≠ none ↔ (s.aons buys p).elems ≠ []

/-- In a run of orders of all types in which every request ends as its author could expect and no
limit chain is hit with nothing to trade, the cache and the chains hold the same orders at every
window end. -/
theorem Run.cache_matches_chains {w₀ w : World} {rs : List (Request × Outcome)} (h0 : Initial w₀)
    (h : Run w₀ rs w) (ho : ∀ ro ∈ rs, ro.2.Expected) (hzero : w.NoEmptyHit) : w.CacheMatches := by
  have hi := (h.tidy h0 ho hzero).filed
  have hB := h.balanced h0 ho hzero none
  obtain ⟨hlimits, hstops, haons⟩ := h.chains_full h0
  have hres : ∀ {k p b}, b ∈ w.ordersOf k p → Resident {} w (k, p) b := fun hb => by
    rwa [Sob.ordersOf_eq] at hb
  refine ⟨fun id c hc k p => ?_, fun k p b hb => ?_, fun k p b hb => ?_, hlimits, hstops, haons⟩
  · obtain ⟨b, hres, rfl⟩ := (hi.resident hc).resolve_right fun ⟨d, hd, _⟩ => by cases hd
    rw [Sob.ordersOf_eq, hres.filter_contents hi]
    simp only [Prod.mk.injEq]
    split <;> rfl
  · obtain ⟨c, hc, -⟩ := (hres hb).cached hi
    rw [hc]
    exact Option.some_ne_none c
  · exact Nat.pos_of_ne_zero (hB.sized _ b (hres hb))

instance (o : Outcome) : Decidable o.Expected :=
  match o with
  | .value .. => .isTrue trivial
  | .exception err => inferInstanceAs (Decidable (err.expected = true))

/-- A ticket for a bracket around level 5. -/
def AdvancedOrderTicket.around5 : AdvancedOrderTicket :=
  { condition := .bracket, trigger := .fillPartial, order1 := some (.byPrice false 0 0 3)
    order2 := some (.byPrice false 0 8 0) }

/-- A market order finds nobody. Then an entry order is filled twice, and its target trades in part:
target and stop are left with 5 each. -/
theorem cache_matches_after_bracket : ∃ rs w, Run (World.create 1 20) rs w ∧
    rs.map (·.1) = [.market true 2, .limit true 5 9 .around5, .market false 4, .market false 2,
      .limit true 8 1] ∧
    (w.ordersAt 3).map (·.sz) = [5] ∧ (w.ordersAt 5).map (·.sz) = [3] ∧
      (w.ordersAt 8).map (·.sz) = [5] ∧ w.CacheMatches := by
  obtain ⟨rs, w, h, hrs, hw⟩ := Run.exists_of_execAll 6
    [.market true 2, .limit true 5 9 .around5, .market false 4, .market false 2, .limit true 8 1]
    (f := fun os w => (decide (∀ o ∈ os, o.Expected), w.trace.all fun ev => ! ev.isEmptyHit,
      (w.ordersAt 3).map (·.sz), (w.ordersAt 5).map (·.sz), (w.ordersAt 8).map (·.sz)))
    (v := (true, true, [5], [3], [5])) (w := World.create 1 20) (by decide +kernel)
  obtain ⟨hall, hzero, h3, h5, h8⟩ : _ ∧ _ ∧ _ ∧ _ ∧ _ := by simpa only [Prod.mk.injEq] using hw
  exact ⟨rs, w, h, hrs, h3, h5, h8, h.cache_matches_chains (initial_create (by decide) (by decide))
    (fun ro hro => of_decide_eq_true hall ro.2 (List.mem_map_of_mem hro))
    (World.noEmptyHit_of_all hzero)⟩

/-- An AON takes all of a market order, the limit chain of its level is hit with nothing to trade, and
the order in it is cached and nowhere in the book. -/
theorem cached_nowhere_after_empty_hit : ∃ rs w,
    Run { World.create 1 20 with sentinelSz := fun _ => 1 } rs w ∧
      rs.map (·.1) = [.limit true 5 4 { condition := .allOrNone }, .limit true 5 6,
        .market false 4] ∧ (∀ ro ∈ rs, ro.2.Expected) ∧ ¬ w.CacheMatches := by
  obtain ⟨rs, w, h, hrs, hw⟩ := Run.exists_of_execAll 0
    [.limit true 5 4 { condition := .allOrNone }, .limit true 5 6, .market false 4]
    (f := fun os w => (decide (∀ o ∈ os, o.Expected), w.idCache 2, w.ordersOf .limit 5))
    (v := (true, some ⟨.limit, 5⟩, []))
    (w := { World.create 1 20 with sentinelSz := fun _ => 1 }) (by decide +kernel)
  obtain ⟨hall, hcache, hnone⟩ : _ ∧ _ ∧ _ := by simpa only [Prod.mk.injEq] using hw
  refine ⟨rs, w, h, hrs,
    fun ro hro => of_decide_eq_true hall ro.2 (List.mem_map_of_mem hro), fun hm => ?_⟩
  have := hm.once 2 _ hcache .limit 5
  simp [hnone, IType.kind] at this

/-! ## Targets and their stops -/

/-- A limit or AON order of the book that is linked to exit `i` of its bracket. -/
def Sob.Target (s : Sob) (b : OrderBndl) (i : Nat) : Prop :=
  b.ExitOf i ∧ ∃ p, (∃ x ∈ (s.limits p).elems, x.toOrderBndl = b) ∨
    ∃ buys, ∃ x ∈ (s.aons buys p).elems, x.toOrderBndl = b

theorem Sob.Target.resident {w : World} {b : OrderBndl} {i : Nat} (h : w.Target b i) :
    ∃ q, Resident {} w q b ∧ q.1 ≠ .stop ∧ Flight.Exit {} q b i := by
  obtain ⟨hi, p, ⟨x, hx, rfl⟩ | ⟨buys, x, hx, rfl⟩⟩ := h
  · exact ⟨(.limit, p), resident_limit.mpr ⟨x, hx, List.not_mem_nil, rfl⟩, nofun, .inl hi⟩
  · exact ⟨(.aon, p), resident_aon.mpr ⟨buys, x, hx, rfl⟩, nofun, .inl hi⟩

/-- A target of a bracket and its stop, in a run in which every request ends as its author could
expect and no limit chain is hit with nothing to trade: the order the target is linked to rests as a
stop or not at all, it never has less than the target, and no other target is linked to it. -/
theorem Run.target_covered {w₀ w : World} {rs : List (Request × Outcome)} (h0 : Initial w₀)
    (h : Run w₀ rs w) (ho : ∀ ro ∈ rs, ro.2.Expected) (hzero : w.NoEmptyHit) {b : OrderBndl} {i : Nat}
    (hb : w.Target b i) : (∀ c, w.idCache i = some c → c.type = .stop) ∧
      (∀ p, ∀ y ∈ (w.stops p).elems, y.id = i → b.sz ≤ y.sz) ∧
        ∀ b', w.Target b' i → b' = b := by
  have hi := (h.tidy h0 ho hzero).filed
  have hB := h.balanced h0 ho hzero none
  obtain ⟨q, hq, hne, hx⟩ := hb.resident
  refine ⟨fun c hc => ?_, fun p y hy hid => ?_, fun b' hb' => ?_⟩
  · obtain ⟨y, hy, hid⟩ := (hi.resident hc).resolve_right fun ⟨d, hd, _⟩ => by cases hd
    have hk := (hB.pairs.stop q b i hq hne hx).stop _ y hy hid
    cases ht : c.type with
    | stop => rfl
    | limit | aonBuy | aonSell => simp [ht, IType.kind] at hk
  · have hle := hB.pairs.le q b i hq hne hx p y hy hid
    rwa [Flight.told_of_none rfl] at hle
  · obtain ⟨q', hq', hne', hx'⟩ := hb'.resident
    exact (hq'.unique hi hq (hB.pairs.one q' b' q b i hq' hq hne' hne hx' hx)).2

/-- The exits of a bracket, after the target traded in part. -/
theorem target_covered_after_bracket : ∃ rs w b i, Run (World.create 1 20) rs w ∧
    rs.map (·.1) = [.limit true 5 9 .around5, .market false 4, .market false 2, .limit true 8 1] ∧
    w.Target b i ∧ (b.id, b.sz, i) = (3, 5, 4) ∧ (w.stops 3).elems.map (fun y => (y.id, y.sz)) = [(4, 5)] ∧
      (∀ c, w.idCache i = some c → c.type = .stop) ∧
      (∀ p, ∀ y ∈ (w.stops p).elems, y.id = i → b.sz ≤ y.sz) ∧ ∀ b', w.Target b' i → b' = b := by
  obtain ⟨rs, w, h, hrs, hw⟩ := Run.exists_of_execAll 6
    [.limit true 5 9 .around5, .market false 4, .market false 2, .limit true 8 1]
    (f := fun os w => (decide (∀ o ∈ os, o.Expected), w.trace.all fun ev => ! ev.isEmptyHit,
      (w.limits 8).elems, (w.stops 3).elems.map (fun y => (y.id, y.sz))))
    (v := (true, true, [⟨⟨3, 5, {}, .bracketActive, .fillPartial, .linkedOrder ⟨4, false, none⟩⟩,
      false⟩], [(4, 5)])) (w := World.create 1 20) (by decide +kernel)
  obtain ⟨hall, hzero, h8, h3⟩ : _ ∧ _ ∧ _ ∧ _ := by simpa only [Prod.mk.injEq] using hw
  have ht : w.Target ⟨3, 5, {}, .bracketActive, .fillPartial, .linkedOrder ⟨4, false, none⟩⟩ 4 := by
    refine ⟨⟨.inl rfl, _, rfl, rfl⟩, 8, .inl ⟨_, h8 ▸ List.mem_singleton_self _, rfl⟩⟩
  exact ⟨rs, w, _, _, h, hrs, ht, rfl, h3,
    h.target_covered (initial_create (by decide) (by decide))
      (fun ro hro => of_decide_eq_true hall ro.2 (List.mem_map_of_mem hro))
      (World.noEmptyHit_of_all hzero) ht⟩

end SimpleOrderbook
