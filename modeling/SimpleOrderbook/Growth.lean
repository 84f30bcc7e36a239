import SimpleOrderbook.Levels
import SimpleOrderbook.Shelf
import SimpleOrderbook.StopTriggers

/-!
# Growing the book

What `_grow_book` does to a book that a run has left: every chain keeps its price, the new levels are
empty, and the cached pointers and the cache follow.

## Main results

* `Run.stopsInRange` — stops rest at levels of the book only.
* `Run.grow_invisible` — a request to grow changes nothing that an order could see.
-/
namespace SimpleOrderbook

/-! ## Where stops rest -/

def StopsInRange (s : Sob) : Prop := ∀ p, s.stops p ≠ none → s.HasLevel p

section Stops
variable {F : Flight} {w : World}

theorem stops_stopPush_ne_none {s : Sob} {p q : Nat} {b : StopBndl}
    (h : (Chain.stopPush s p b).stops q ≠ none) : s.stops q ≠ none ∨ q = p := by
  unfold Chain.stopPush at h
  rw [stops_of_files (Exec.Stop.files_adjustStateAfterInsert _ _ _), Sob.stops_cacheEmplace,
    Sob.stops_setStops] at h
  split at h
  next heq => exact .inr heq
  next => exact .inl h

theorem Move.stops {c c' : Config} (h : Move c c') {p : Nat} (hp : c'.2.stops p ≠ none) :
    c.2.stops p ≠ none ∨ c.2.HasLevel p := by
  cases h with
  | act h => exact .inl (h.stops hp)
  | fillAon =>
    rw [World.toSob_onSob, Sob.stops_setAons, Sob.stops_cacheErase, World.toSob_log,
      stops_of_files (files_traded _ _ _ _ _ _ _)] at hp
    exact .inl hp
  | fillLastAon =>
    rw [World.toSob_onSob, stops_of_files (Exec.Aon.files_adjustStateAfterPull _ _ _),
      Sob.stops_setAons, Sob.stops_cacheErase, World.toSob_log,
      stops_of_files (files_traded _ _ _ _ _ _ _)] at hp
    exact .inl hp
  | freeAon =>
    rw [World.toSob_onSob, stops_of_files (Exec.Aon.files_adjustStateAfterPull _ _ _),
      Sob.stops_setAons] at hp
    exact .inl hp
  | moveHit =>
    unfold Sob.copiedToAons Sob.updateLimit at hp
    simp only [World.toSob_onSob, World.toSob_log, Sob.stops_setLimits] at hp
    rw [stops_of_files (Exec.Aon.files_adjustStateAfterInsert _ _ _), Sob.stops_cacheInsert,
      Sob.stops_setAons] at hp
    exact .inl hp
  | fill =>
    rw [stops_of_files (files_traded _ _ _ _ _ _ _)] at hp
    exact .inl hp
  | rearm | reduce | retire =>
    left
    simpa [Sob.reduced, Sob.updateLimit] using hp
  | eraseHit => exact .inl (by simpa using hp)
  | freeHit | wipeHit =>
    rw [World.toSob_onSob, stops_of_files (Exec.Core.files_findNewBestInside _ _)] at hp
    exact .inl (by simpa using hp)
  | moveStop buyStops q id cw b nticks pAdj hc hb hn hoff hscan hlevel =>
    unfold World.movedStop at hp
    rw [World.toSob_onSob] at hp
    rcases stops_stopPush_ne_none hp with hp | rfl
    · rw [stops_of_files (files_report _ _ _ _ _ _ _), World.toSob_onSob] at hp
      exact .inl (stops_erasedStop_ne_none hb hp)
    · exact .inr hlevel
  | @detach F w buyStops plev =>
    rw [World.toSob_onSob, stops_of_files (Exec.Stop.files_adjustStateAfterTrigger _ _ _),
      Sob.stops_setStops] at hp
    split at hp
    next => exact absurd rfl hp
    next => exact .inl hp
  | eraseTriggered =>
    rw [World.toSob_onSob, stops_of_files (files_trailingErased _ _ _)] at hp
    exact .inl hp
  | turn =>
    rw [stops_of_files (files_turned _ _ _ _ _)] at hp
    exact .inl hp
  | endTrigger =>
    rw [World.toSob_onSob, Sob.stops_cacheErase] at hp
    exact .inl hp
  | _ => exact .inl hp

theorem StopsInRange.next {s s' : Sob} (h : StopsInRange s) (hgrid : s'.grid = s.grid)
    (hstops : ∀ {p}, s'.stops p ≠ none → s.stops p ≠ none ∨ s.HasLevel p) : StopsInRange s' := by
  have hend : s'.end_ = s.end_ := congrArg Prod.snd hgrid
  intro p hp
  unfold Sob.HasLevel at *
  rw [hend]
  exact (hstops hp).elim (h p) id

theorem Moves.stopsInRange {c c' : Config} (h : Moves c c') (hr : StopsInRange c.2.toSob) :
    StopsInRange c'.2.toSob := by
  induction h with
  | refl => exact hr
  | tail _ h ih => exact ih.next h.shrinks.grid_eq h.stops

theorem Step.stopsInRange {c c' : Config} (h : Step c c') (hr : StopsInRange c.2.toSob) :
    StopsInRange c'.2.toSob := by
  have hof : (∀ {p}, c'.2.stops p ≠ none → c.2.stops p ≠ none ∨ c.2.HasLevel p) →
      StopsInRange c'.2.toSob := hr.next h.grid_eq
  cases h with
  | act h => exact hof fun hp => .inl (h.stops hp)
  | trade bidSide plev id size r cb hF hp hpe hrun hm => exact Moves.stopsInRange hm hr
  | kill => exact hof fun hp => .inl (by rwa [stops_of_files (files_report _ _ _ _ _ _ _)] at hp)
  | print => exact hof fun hp => .inl (by rwa [stops_of_files (files_traded _ _ _ _ _ _ _)] at hp)
  | pushLimit =>
    refine hof fun hp => .inl ?_
    unfold Chain.limitPush at hp
    rw [World.toSob_onSob, stops_of_files (Exec.Limit.files_adjustStateAfterInsert _ _ _)] at hp
    simpa using hp
  | pushAon =>
    refine hof fun hp => .inl ?_
    unfold Chain.aonPush at hp
    rw [World.toSob_onSob, stops_of_files (Exec.Aon.files_adjustStateAfterInsert _ _ _)] at hp
    simpa using hp
  | pushStop p b hands ids hh hids hpay e hins hb hsz hbuy hlevel =>
    refine hof fun hp => (stops_stopPush_ne_none hp).imp_right fun heq => ?_
    exact heq ▸ hlevel
  | arm | tellEntry => exact hof fun hp => .inl (stops_updateAt_ne_none hp)
  | link => exact hof fun hp => .inl (stops_updateAt_ne_none (stops_updateAt_ne_none hp))
  | openLoss e l c p b nticks1 nticks2 ids hgap he hl hids hcond hb hc hsz hpay hp' hlevel =>
    refine hof fun hp => (stops_stopPush_ne_none hp).imp stops_updateAt_ne_none fun heq => ?_
    exact heq ▸ hlevel
  | trailingInsert =>
    exact hof fun hp => .inl (by
      rwa [World.toSob_onSob, stops_of_files (files_trailingInserted _ _ _)] at hp)
  | _ => exact hr

theorem Steps.stopsInRange {c c' : Config} (h : Steps c c') (hr : StopsInRange c.2.toSob) :
    StopsInRange c'.2.toSob := by
  induction h with
  | refl => exact hr
  | tail _ h ih => exact h.stopsInRange ih

/-- Stops move with their levels. -/
theorem stops_growBook {s : Sob} {base : Int} {incr : Nat} {atBeg : Bool} (hincr : incr ≠ 0)
    (p : Nat) : (growBook base incr atBeg s).stops p =
      if p < growOffset incr atBeg then none else s.stops (p - growOffset incr atBeg) := by
  rw [growBook_of_ne hincr]
  unfold Sob.stops resetInternalPointers
  dsimp only
  split <;> rfl

theorem StopsInRange.growBook {s : Sob} (h : StopsInRange s) (base : Int) (incr : Nat)
    (atBeg : Bool) : StopsInRange (growBook base incr atBeg s) := by
  by_cases hincr : incr = 0
  · unfold SimpleOrderbook.growBook
    rwa [if_pos hincr]
  intro p hp
  have hoff : growOffset incr atBeg ≤ incr := growOffset_le
  rw [stops_growBook hincr] at hp
  split at hp
  · exact absurd rfl hp
  · have hold := h _ hp
    unfold Sob.HasLevel at hold ⊢
    rw [end_growBook hincr]
    omega

theorem Closes.stopsInRange {r : Request} {o : Outcome} {w' : World} (h : Closes r w o w')
    (hi : StopsInRange w.toSob) : StopsInRange w'.toSob := by
  cases h with
  | refused => exact hi
  | rejected => exact hi
  | grown f hact hs =>
    obtain ⟨base, incr, atBeg, -, rfl⟩ := Request.grow_eq hact hs
    exact hi.growBook base incr atBeg
  | value hqe hs hq' cbs hcbs => exact Steps.stopsInRange hs hi
  | left hqe hs herr =>
    cases hs with
    | undefined => exact absurd rfl herr
    | failed hs hm _ _ => exact Moves.stopsInRange hm (Steps.stopsInRange hs hi)
    | refused hs _ _ => exact Steps.stopsInRange hs hi

end Stops

theorem Run.stopsInRange {w₀ w : World} {rs : List (Request × Outcome)} (h0 : Initial w₀)
    (h : Run w₀ rs w) : StopsInRange w.toSob := by
  refine h.closes_inv h0 (P := fun w => StopsInRange w.toSob) ?_ fun _ _ hi hc => hc.stopsInRange hi
  obtain ⟨⟨base, incr, -, -, hw⟩, -⟩ := h0
  rw [hw]
  exact fun p hp => absurd rfl hp

/-! ## Levels, pointers and cache after a growth -/

/-- The pointers whose sentinel is the level below `_beg`. -/
def Sob.lows (s : Sob) : List Nat :=
  [s.bid, s.highSellLimit, s.highBuyStop, s.highSellStop, s.highBuyAon, s.highSellAon]

/-- The pointers whose sentinel is `_end`. -/
def Sob.highs (s : Sob) : List Nat :=
  [s.ask, s.lowBuyLimit, s.lowBuyStop, s.lowSellStop, s.lowBuyAon, s.lowSellAon]

/-- `p'` in `s'` is the sentinel if `p` was it in `s`, and a level of the same price if `p` was a
level. -/
structure Sob.Follows (s s' : Sob) (sentinel sentinel' p p' : Nat) : Prop where
  empty : p = sentinel → p' = sentinel'
  level : s.HasLevel p → s'.HasLevel p' ∧ s'.itop p' = s.itop p

/-- `s'` is `s` with more levels, `off` of them in front. -/
structure Sob.Grown (s s' : Sob) (off : Nat) : Prop where
  base : s'.base + off = s.base
  itop : ∀ p, beg ≤ p → s'.itop (p + off) = s.itop p
  level : ∀ p, s.HasLevel p → s'.HasLevel (p + off)
  old : ∀ p, s'.book (p + off) = s.book p
  added : ∀ p, s'.HasLevel p → (∀ q, s.HasLevel q → p ≠ q + off) → s'.book p = {}
  lows : List.Forall₂ (s.Follows s' (beg - 1) (beg - 1)) s.lows s'.lows
  highs : List.Forall₂ (s.Follows s' s.end_ s'.end_) s.highs s'.highs
  last : (s.last = 0 → s'.last = 0) ∧ (s.last ≠ 0 → s'.last ≠ 0 ∧ s'.itop s'.last = s.itop s.last)
  cache : ∀ id, s'.idCache id = (s.idCache id).map fun c => { c with p := c.p + off }
  trailing : s'.trailingBuyStops = s.trailingBuyStops ∧
    s'.trailingSellStops = s.trailingSellStops

section Grow
variable {s : Sob} {base : Int} {incr : Nat} {atBeg : Bool}

theorem Sob.Grown.refl (s : Sob) : s.Grown s 0 where
  base := Int.add_zero _
  itop _ _ := rfl
  level _ hp := hp
  old _ := rfl
  added p hp hno := absurd rfl (hno p hp)
  lows := List.forall₂_same.mpr fun _ _ => ⟨id, fun hp => ⟨hp, rfl⟩⟩
  highs := List.forall₂_same.mpr fun _ _ => ⟨id, fun hp => ⟨hp, rfl⟩⟩
  last := ⟨id, fun hp => ⟨hp, rfl⟩⟩
  cache id := by
    cases s.idCache id <;> rfl
  trailing := ⟨rfl, rfl⟩

/-- Levels off the book, the padding in front of it among them, hold nothing. -/
theorem book_eq_empty (hlimit : LimitInv s.limitView) (haons : AonsInRange s)
    (hstops : StopsInRange s) {p : Nat} (hp : ¬ s.HasLevel p) : s.book p = {} := by
  have hlim : s.limits p = none := by
    rcases Nat.eq_zero_or_pos p with rfl | hpos
    · exact hlimit.pad
    · exact hlimit.top p (by
        unfold Sob.HasLevel beg at hp
        change s.end_ ≤ p
        omega)
  have hstop : s.stops p = none := by
    by_contra hne
    exact hp (hstops p hne)
  have haon (buys : Bool) : s.aons buys p = none := by
    by_contra hne
    exact hp (haons buys p hne)
  have hb := haon true
  have hs := haon false
  unfold Sob.limits Sob.stops Sob.aons Level.aonChain at *
  cases hl : s.book p with
  | mk limits stops aonBuys aonSells =>
    rw [hl] at hlim hstop hb hs
    dsimp only at hlim hstop
    rw [hlim, hstop, show aonBuys = none from hb, show aonSells = none from hs]

theorem growBook_grown (hincr : incr ≠ 0) (hbase : base = s.base - growOffset incr atBeg)
    (hlimit : LimitInv s.limitView) (haons : AonsInRange s) (hstops : StopsInRange s) :
    s.Grown (growBook base incr atBeg s) (growOffset incr atBeg) := by
  have hoff : growOffset incr atBeg ≤ incr := growOffset_le
  have hbook (p : Nat) : (growBook base incr atBeg s).book p =
      if p < growOffset incr atBeg then {} else s.book (p - growOffset incr atBeg) := by
    rw [growBook_of_ne hincr]
    rfl
  have hshift (p : Nat) : (growBook base incr atBeg s).book (p + growOffset incr atBeg)
      = s.book p := by
    rw [hbook, if_neg (by omega), Nat.add_sub_cancel]
  have hnew : (growBook base incr atBeg s).base + growOffset incr atBeg = s.base := by
    rw [TickBook.growBook_base hincr]
    omega
  have hitop (p : Nat) (hp : beg ≤ p) :
      (growBook base incr atBeg s).itop (p + growOffset incr atBeg) = s.itop p := by
    rw [Sob.itop_of_beg_le _ (hp.trans (Nat.le_add_right ..)), Sob.itop_of_beg_le _ hp]
    omega
  have hlevel (p : Nat) (hp : s.HasLevel p) :
      (growBook base incr atBeg s).HasLevel (p + growOffset incr atBeg) := by
    unfold Sob.HasLevel at hp ⊢
    rw [end_growBook hincr]
    omega
  have hlow (p : Nat) : s.Follows (growBook base incr atBeg s) (beg - 1) (beg - 1) p
      (if p = 0 then 0 else p + growOffset incr atBeg) := by
    refine ⟨fun h => if_pos h, fun hp => ?_⟩
    have : p ≠ 0 := Nat.ne_of_gt hp.1
    rw [if_neg this]
    exact ⟨hlevel p hp, hitop p hp.1⟩
  have hhigh (p : Nat) : s.Follows (growBook base incr atBeg s) s.end_
      (growBook base incr atBeg s).end_ p
      (if p = s.end_ then s.end_ + incr else p + growOffset incr atBeg) := by
    refine ⟨fun h => by rw [if_pos h, end_growBook hincr], fun hp => ?_⟩
    have : p ≠ s.end_ := Nat.ne_of_lt hp.2
    rw [if_neg this]
    exact ⟨hlevel p hp, hitop p hp.1⟩
  refine ⟨hnew, hitop, hlevel, hshift, fun p hp hno => ?_, ?_, ?_, ?_, fun id => ?_, ?_⟩
  · rw [hbook]
    split
    next => rfl
    next hge =>
      refine book_eq_empty hlimit haons hstops fun hq => hno _ hq ?_
      omega
  · rw [show (growBook base incr atBeg s).lows = s.lows.map fun p =>
      if p = 0 then 0 else p + growOffset incr atBeg by rw [growBook_of_ne hincr]; rfl]
    exact List.forall₂_map_right_iff.mpr (List.forall₂_same.mpr fun p _ => hlow p)
  · rw [show (growBook base incr atBeg s).highs = s.highs.map fun p =>
      if p = s.end_ then s.end_ + incr else p + growOffset incr atBeg by
        rw [growBook_of_ne hincr]; rfl]
    exact List.forall₂_map_right_iff.mpr (List.forall₂_same.mpr fun p _ => hhigh p)
  · have hlast : (growBook base incr atBeg s).last =
        if s.last = 0 then 0 else s.last + growOffset incr atBeg := by
      rw [growBook_of_ne hincr]
      rfl
    rw [hlast]
    refine ⟨fun h => if_pos h, fun h => ?_⟩
    rw [if_neg h]
    exact ⟨by omega, hitop s.last (Nat.pos_of_ne_zero ‹_›)⟩
  · rw [growBook_of_ne hincr]
    rfl
  · rw [growBook_of_ne hincr]
    exact ⟨rfl, rfl⟩

/-! ## The same with addresses -/

/-- A level takes `size` bytes; the vector had its first level at address `old` and has it at `new`,
which is another address if the vector was reallocated. -/
structure Layout where
  size : Int
  old : Int
  new : Int

namespace Layout
variable (L : Layout)

def before (p : Nat) : Int := L.old + L.size * p
def after (p : Nat) : Int := L.new + L.size * p

/-- The `offset` that `_grow_book` computes, in bytes. -/
def offset (s s' : Sob) (atBeg : Bool) : Int :=
  if atBeg then L.after s'.end_ - L.before s.end_ else L.after beg - L.before beg

/-- `reset_low` -/
def resetLow (offset ptr : Int) : Int :=
  if ptr = L.before beg - L.size then L.after beg - L.size else ptr + offset

/-- `reset_high` -/
def resetHigh (s s' : Sob) (offset ptr : Int) : Int :=
  if ptr = L.before s.end_ then L.after s'.end_ else ptr + offset

/-- `_reset_internal_pointers` writes the addresses of the levels that the pointers of `s'` are. -/
structure Resets (s s' : Sob) (atBeg : Bool) : Prop where
  lows : s'.lows.map L.after = s.lows.map fun p => L.resetLow (L.offset s s' atBeg) (L.before p)
  highs : s'.highs.map L.after =
    s.highs.map fun p => L.resetHigh s s' (L.offset s s' atBeg) (L.before p)
  last : s.last ≠ 0 → L.after s'.last = L.before s.last + L.offset s s' atBeg
  cache : ∀ id, (s'.idCache id).map (fun c => L.after c.p) =
    (s.idCache id).map fun c => L.before c.p + L.offset s s' atBeg

theorem before_inj (hsize : L.size ≠ 0) {p q : Nat} : L.before p = L.before q ↔ p = q := by
  unfold before
  rw [Int.add_right_inj, Int.mul_eq_mul_left_iff hsize, Int.ofNat_inj]

theorem before_add_offset (s : Sob) (base : Int) (atBeg : Bool) (hincr : incr ≠ 0) (p : Nat) :
    L.before p + L.offset s (growBook base incr atBeg s) atBeg
      = L.after (p + growOffset incr atBeg) := by
  unfold offset before after growOffset
  rw [end_growBook hincr]
  cases atBeg <;> simp <;> ring

theorem resets_growBook (hsize : L.size ≠ 0) (hincr : incr ≠ 0) :
    L.Resets s (growBook base incr atBeg s) atBeg := by
  have hadd := L.before_add_offset s base atBeg hincr
  have hpad : L.before beg - L.size = L.before 0 := by
    unfold before beg
    simp
  have hpad' : L.after beg - L.size = L.after 0 := by
    unfold after beg
    simp
  refine ⟨?_, ?_, fun hlast => ?_, fun id => ?_⟩
  · rw [show (growBook base incr atBeg s).lows = s.lows.map fun p =>
      if p = 0 then 0 else p + growOffset incr atBeg by rw [growBook_of_ne hincr]; rfl,
      List.map_map]
    refine List.map_congr_left fun p _ => ?_
    unfold resetLow
    rw [hpad, hpad', hadd]
    simp only [L.before_inj hsize, Function.comp_apply]
    split <;> rfl
  · rw [show (growBook base incr atBeg s).highs = s.highs.map fun p =>
      if p = s.end_ then s.end_ + incr else p + growOffset incr atBeg by
        rw [growBook_of_ne hincr]; rfl, List.map_map]
    refine List.map_congr_left fun p _ => ?_
    unfold resetHigh
    rw [hadd, end_growBook hincr]
    simp only [L.before_inj hsize, Function.comp_apply]
    split <;> rfl
  · rw [hadd, growBook_of_ne hincr]
    change L.after (if s.last = 0 then 0 else s.last + growOffset incr atBeg) = _
    rw [if_neg hlast]
  · rw [growBook_of_ne hincr]
    change ((s.idCache id).map fun c => { c with p := c.p + growOffset incr atBeg }).map _ = _
    rw [Option.map_map]
    refine Option.map_congr fun c _ => ?_
    rw [Function.comp_apply, ← growBook_of_ne hincr, hadd]

end Layout
end Grow

/-! ## Growing in a run -/

/-- The ids of the orders at a level. -/
def Level.ids (l : Level) : List Nat :=
  l.limits.elems.map (·.id) ++ l.stops.elems.map (·.id) ++ l.aonBuys.elems.map (·.id) ++
    l.aonSells.elems.map (·.id)

/-- Every cache entry names the level that holds its order. -/
def Sob.CacheRight (s : Sob) : Prop := ∀ id c, s.idCache id = some c → id ∈ (s.book c.p).ids

theorem Sob.Grown.cacheRight {s s' : Sob} {off : Nat} (h : s.Grown s' off) (hs : s.CacheRight) :
    s'.CacheRight := by
  intro id c hc
  rw [h.cache] at hc
  obtain ⟨c, hold, rfl⟩ := Option.map_eq_some_iff.mp hc
  exact (h.old c.p).symm ▸ hs id c hold

theorem Tidy.cacheRight {w : World} (h : Tidy w) : w.CacheRight := by
  intro id c hc
  have hm : id ∈ w.drawer {} (c.type.kind, c.p) :=
    h.filed.cabinet.mem_iff.mpr (congrArg (Option.map _) hc)
  unfold Level.ids
  simp only [List.mem_append]
  cases hk : c.type.kind with
  | limit =>
    rw [hk] at hm
    exact .inl (.inl (.inl (List.mem_filter.mp hm).1))
  | stop =>
    rw [hk] at hm
    have hm : id ∈ w.stopIds c.p ++ [] := hm
    rw [List.append_nil] at hm
    exact .inl (.inl (.inr hm))
  | aon =>
    rw [hk] at hm
    exact (List.mem_append.mp hm).elim (fun h => .inl (.inr h)) .inr

def Request.Grows (r : Request) : Prop :=
  ∃ price, r = .growBookAbove price ∨ r = .growBookBelow price

/-- A request to grow the book does so, by nothing if it ends in an exception. -/
theorem Window.grows {r : Request} {o : Outcome} {w w' : World} (h : Window r w o w')
    (hr : r.Grows) : ∃ base incr atBeg, (incr ≠ 0 → base = w.base - growOffset incr atBeg) ∧
      w'.toSob = growBook base incr atBeg w.toSob := by
  obtain ⟨fuel, hx⟩ := h
  obtain ⟨f, hact⟩ : ∃ f, r.action = .ok (.grow f) := by
    obtain ⟨price, rfl | rfl⟩ := hr <;> exact ⟨_, rfl⟩
  unfold Request.exec at hx
  rw [hact] at hx
  dsimp only at hx
  cases hf : f w.toSob with
  | error err =>
    rw [hf] at hx
    obtain ⟨-, rfl⟩ := Prod.mk.inj (Option.some.inj hx)
    exact ⟨0, 0, false, fun h => absurd rfl h, rfl⟩
  | ok s =>
    rw [hf] at hx
    obtain ⟨-, rfl⟩ := Prod.mk.inj (Option.some.inj hx)
    exact Request.grow_eq hact hf

/-- In every state a run reaches, a request to grow the book leaves every chain at its price, adds empty
levels, and moves every cached pointer, the last level and every cache entry with its level or, if it
was the sentinel, to the new one. So do the byte offsets, wherever the vector is. The limit book is as
it should be, and the cache is if it was, which it is while windows end as they should. -/
theorem Run.grow_invisible {w₀ w w' : World} {rs : List (Request × Outcome)} (h0 : Initial w₀)
    (h : Run w₀ rs w) {r : Request} {o : Outcome} (hr : r.Grows) (hw : Window r w o w') :
    ∃ incr atBeg, w'.end_ = w.end_ + incr ∧ w.Grown w'.toSob (growOffset incr atBeg) ∧
      (∀ L : Layout, L.size ≠ 0 → incr ≠ 0 → L.Resets w.toSob w'.toSob atBeg) ∧
      w'.Uncrossed ∧ (w.CacheRight → w'.CacheRight) ∧
      ((∀ ro ∈ rs, ro.2.Expected) → w.NoEmptyHit → w'.CacheRight) := by
  obtain ⟨base, incr, atBeg, hbase, hw'⟩ := hw.grows hr
  have hgrown : w'.end_ = w.end_ + incr ∧ w.Grown w'.toSob (growOffset incr atBeg) := by
    rw [hw']
    by_cases hincr : incr = 0
    · have hoff : growOffset incr atBeg = 0 := by
        unfold growOffset
        split <;> omega
      unfold growBook
      rw [if_pos hincr, hoff]
      exact ⟨hincr ▸ rfl, .refl _⟩
    · exact ⟨end_growBook hincr, growBook_grown hincr (hbase hincr) (h.limitInv h0)
        ((h.wellFormed h0).1 none).aons (h.stopsInRange h0)⟩
  refine ⟨incr, atBeg, hgrown.1, hgrown.2, fun L hsize hincr => ?_, ((h.snoc hw).limitInv h0).uncrossed,
    hgrown.2.cacheRight, fun ho hzero => hgrown.2.cacheRight (h.tidy h0 ho hzero).cacheRight⟩
  rw [hw']
  exact L.resets_growBook hsize hincr

/-- A book with a resting order and a stop grows below. -/
theorem grow_invisible_below : ∃ rs w w', Run (World.create 5 10) rs w ∧
    rs.map (·.1) = [.limit true 8 3, .stop true 12 2] ∧
    Window (.growBookBelow 2) w (.value 0 []) w' ∧ (w.bid, w.lowBuyStop, w.ask) = (4, 8, 11) ∧
    (w'.bid, w'.lowBuyStop, w'.ask) = (7, 11, 14) ∧ ∃ off, w.Grown w'.toSob off := by
  obtain ⟨rs, w, h, hrs, hw⟩ := Run.exists_of_execAll 0 [.limit true 8 3, .stop true 12 2]
    (f := fun _ w => (w.base, w.end_, w.bid, w.lowBuyStop, w.ask)) (v := (5, 11, 4, 8, 11))
    (w := World.create 5 10) (by decide +kernel)
  simp only [Prod.mk.injEq] at hw
  obtain ⟨hbase, hend, hbid, hstop, hask⟩ := hw
  let w' : World := { w with toSob := growBook 2 3 true w.toSob }
  have hwin : Window (.growBookBelow 2) w (.value 0 []) w' := by
    have hgrow : growBookBelow 2 w.toSob = .ok (growBook 2 3 true w.toSob) := by
      unfold growBookBelow
      rw [hbase]
      rfl
    refine ⟨0, ?_⟩
    unfold Request.exec
    rw [show Request.action (.growBookBelow 2) = .ok (.grow (growBookBelow 2)) from rfl]
    dsimp only
    rw [hgrow]
  obtain ⟨incr, atBeg, -, hgrown, -⟩ := Run.grow_invisible (initial_create (by decide) (by decide)) h
    ⟨2, .inr rfl⟩ hwin
  refine ⟨rs, w, w', h, hrs, hwin, by rw [hbid, hstop, hask], ?_, _, hgrown⟩
  change ((if w.bid = 0 then 0 else w.bid + 3), (if w.lowBuyStop = w.end_ then w.end_ + 3 else
    w.lowBuyStop + 3), if w.ask = w.end_ then w.end_ + 3 else w.ask + 3) = _
  rw [hbid, hstop, hask, hend]
  rfl

end SimpleOrderbook
