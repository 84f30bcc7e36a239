import SimpleOrderbook.Hoare
import SimpleOrderbook.Run

/-!
# What the basic steps of the engine change

Weakest preconditions of the steps every function is composed of, and the frame of the updates of
the book: which chains, cache entries and cached pointers each of them leaves alone.
-/
namespace SimpleOrderbook

open Hoare

namespace World
variable (w : World)

def onSob (f : Sob → Sob) : World := { w with toSob := f w.toSob }

def log (ev : Event) : World := { w with trace := ev :: w.trace }

@[simp] theorem toSob_onSob (f : Sob → Sob) : (w.onSob f).toSob = f w.toSob := rfl

@[simp] theorem toSob_log (ev : Event) : (w.log ev).toSob = w.toSob := rfl

@[simp] theorem trace_onSob (f : Sob → Sob) : (w.onSob f).trace = w.trace := rfl

@[simp] theorem trace_log (ev : Event) : (w.log ev).trace = ev :: w.trace := rfl

end World

/-- A monadic check that passed. -/
theorem Except.bind_ok {ε α β : Type} {x : Except ε α} {f : α → Except ε β} {b : β}
    (h : (x >>= f) = .ok b) : ∃ a, x = .ok a ∧ f a = .ok b := by
  cases x with
  | error e => cases h
  | ok a => exact ⟨a, rfl, h⟩

section Steps
variable {α β : Type} {Q : α → World → Prop} {E : Err → World → Prop} {w : World}

theorem wp_getSob {Q : Sob → World → Prop} (h : Q w.toSob w) : wp getSob Q E w := h

theorem wp_modifySob {Q : Unit → World → Prop} {f : Sob → Sob}
    (h : Q () (w.onSob f)) : wp (modifySob f) Q E w := h

theorem wp_record {Q : Unit → World → Prop} {ev : Event}
    (h : Q () (w.log ev)) : wp (record ev) Q E w := h

theorem wp_getSob_bind {f : Sob → M α} (h : wp (f w.toSob) Q E w) : wp (getSob >>= f) Q E w := h

theorem wp_modifySob_bind {f : Sob → Sob} {g : Unit → M α}
    (h : wp (g ()) Q E (w.onSob f)) : wp (modifySob f >>= g) Q E w := h

theorem wp_record_bind {ev : Event} {g : Unit → M α}
    (h : wp (g ()) Q E (w.log ev)) : wp (record ev >>= g) Q E w := h

theorem wp_fromCache {Q : ChainIterWrap → World → Prop} {id : Nat}
    (h : ∀ c, w.idCache id = some c → Q c w)
    (hn : w.idCache id = none → E (.orderNotInCache id) w) : wp (fromCache id) Q E w := by
  unfold fromCache
  refine wp_getSob_bind ?_
  split
  next c hc => exact wp_pure (h c hc)
  next hc => exact wp_throw (hn hc)

theorem wp_idCacheAt {Q : ChainIterWrap → World → Prop} {id : Nat}
    (h : ∀ c, w.idCache id = some c → Q c w)
    (hn : w.idCache id = none → E .outOfRange w) : wp (idCacheAt id) Q E w := by
  unfold idCacheAt
  refine wp_getSob_bind ?_
  split
  next c hc => exact wp_pure (h c hc)
  next hc => exact wp_throw (hn hc)

theorem wp_deref {Q : OrderBndl → World → Prop} {c : ChainIterWrap} {id : Nat}
    (h : ∀ b, w.bndlAt c id = some b → Q b w)
    (hn : w.bndlAt c id = none → E .undefinedBehaviour w) : wp (deref c id) Q E w := by
  unfold deref
  refine wp_getSob_bind ?_
  split
  next b hb => exact wp_pure (h b hb)
  next hb => exact wp_throw (hn hb)

theorem Sob.itop_of_beg_le (s : Sob) {p : Nat} (hp : beg ≤ p) : s.itop p = s.base + ((p : Int) - beg) := by
  unfold Sob.itop
  rw [if_neg (not_lt.mpr hp)]

theorem Sob.level_of_valid {s : Sob} {price : Int} (hv : s.isValidPrice price = true) :
    beg ≤ (s.levelOf price).toNat ∧ (s.levelOf price).toNat < s.end_ ∧
      s.itop (s.levelOf price).toNat = price := by
  have hv : (beg : Int) ≤ s.levelOf price ∧ s.levelOf price < s.end_ := of_decide_eq_true hv
  have hp : beg ≤ (s.levelOf price).toNat := by omega
  refine ⟨hp, by omega, ?_⟩
  rw [s.itop_of_beg_le hp]
  unfold Sob.levelOf at hv ⊢
  omega

theorem wp_ptoi {Q : Nat → World → Prop} {price : Int}
    (h : ∀ p, beg ≤ p → p < w.end_ → w.itop p = price → Q p w)
    (hn : E .undefinedBehaviour w) : wp (ptoi price) Q E w := by
  unfold ptoi
  refine wp_getSob_bind (wp_ite (fun hv => ?_) fun _ => wp_throw hn)
  have hv : (beg : Int) ≤ w.levelOf price ∧ w.levelOf price < w.end_ := hv
  obtain ⟨h1, h2, h3⟩ := Sob.level_of_valid (decide_eq_true hv)
  have hindex : w.indexOf price = w.levelOf price := rfl
  rw [hindex, if_pos ⟨hv.1, rfl⟩]
  exact wp_pure (h _ h1 h2 h3)

theorem wp_lookAhead {Q : Bool × Nat → World → Prop} {isBuy allowPartial : Bool} {p sz rmndr : Nat}
    (h : Q (limitIsFillable isBuy w.toSob p sz allowPartial)
      (w.log (.lookAhead w.toSob isBuy p sz rmndr))) :
    wp (lookAhead isBuy p sz allowPartial rmndr) Q E w :=
  wp_getSob_bind (wp_record_bind (wp_pure h))

theorem wp_mayTrade {Q : Bool → World → Prop} {buyLimit : Bool} {e : OrderQueueElem} {p rmndr : Nat}
    (hno : Exec.Core.isTradable (!buyLimit) w.toSob p = false → Q false w)
    (hyes : Exec.Core.isTradable (!buyLimit) w.toSob p = true → e.isAON = false → Q true w)
    (hAON : Exec.Core.isTradable (!buyLimit) w.toSob p = true → e.isAON = true →
      Q (limitIsFillable buyLimit w.toSob p rmndr false).1
        (w.log (.lookAhead w.toSob buyLimit p rmndr 0))) :
    wp (mayTrade buyLimit e p rmndr) Q E w := by
  refine wp_getSob_bind (wp_ite (fun ht => wp_ite (fun ha => ?_) fun ha => ?_) fun ht => ?_)
  · refine wp.bind (wp_lookAhead (Q := fun r w' => r = limitIsFillable buyLimit w.toSob p rmndr false ∧
      w' = w.log (.lookAhead w.toSob buyLimit p rmndr 0)) ⟨rfl, rfl⟩) ?_
    rintro _ _ ⟨rfl, rfl⟩
    exact wp_pure (hAON ht ha)
  · exact wp_pure (hyes ht (Bool.eq_false_iff.mpr ha))
  · exact wp_pure (hno (Bool.eq_false_iff.mpr ht))

end Steps

namespace Sob
variable (s : Sob) (p q : Nat)

/-! ## Chains -/

section Chains
variable (cl : ChainManager LimitBndl) (cs : ChainManager StopBndl) (buys buys' : Bool)

@[simp] theorem limits_setLimits :
    (s.setLimits p cl).limits q = if q = p then cl else s.limits q := by
  by_cases h : q = p <;> simp [limits, setLimits, setLevel, h]

@[simp] theorem limits_setStops : (s.setStops p cs).limits q = s.limits q := by
  by_cases h : q = p <;> simp [limits, setStops, setLevel, h]

@[simp] theorem limits_setAons : (s.setAons buys p cl).limits q = s.limits q := by
  by_cases h : q = p <;> cases buys <;> simp [limits, setAons, setLevel, Level.setAonChain, h]

@[simp] theorem stops_setLimits : (s.setLimits p cl).stops q = s.stops q := by
  by_cases h : q = p <;> simp [stops, setLimits, setLevel, h]

@[simp] theorem stops_setStops :
    (s.setStops p cs).stops q = if q = p then cs else s.stops q := by
  by_cases h : q = p <;> simp [stops, setStops, setLevel, h]

@[simp] theorem stops_setAons : (s.setAons buys p cl).stops q = s.stops q := by
  by_cases h : q = p <;> cases buys <;> simp [stops, setAons, setLevel, Level.setAonChain, h]

@[simp] theorem aons_setLimits : (s.setLimits p cl).aons buys q = s.aons buys q := by
  by_cases h : q = p <;> simp [aons, setLimits, setLevel, Level.aonChain, h]

@[simp] theorem aons_setStops : (s.setStops p cs).aons buys q = s.aons buys q := by
  by_cases h : q = p <;> simp [aons, setStops, setLevel, Level.aonChain, h]

@[simp] theorem aons_setAons : (s.setAons buys p cl).aons buys' q =
    if q = p ∧ buys' = buys then cl else s.aons buys' q := by
  by_cases h : q = p <;> cases buys <;> cases buys' <;>
    simp [aons, setAons, setLevel, Level.aonChain, Level.setAonChain, h]

theorem setLimits_setLimits (cl' : ChainManager LimitBndl) :
    (s.setLimits p cl).setLimits p cl' = s.setLimits p cl' := by
  unfold setLimits setLevel
  congr 1
  funext q
  by_cases h : q = p <;> simp [h]

theorem setAons_setAons (cl' : ChainManager AonBndl) :
    (s.setAons buys p cl).setAons buys p cl' = s.setAons buys p cl' := by
  unfold setAons setLevel
  congr 1
  funext q
  by_cases h : q = p <;> cases buys <;> simp [h, Level.setAonChain]

theorem setAons_aons : s.setAons buys p (s.aons buys p) = s := by
  unfold setAons setLevel aons
  congr 1
  funext q
  by_cases h : q = p <;> cases buys <;> simp [h, Level.setAonChain, Level.aonChain]

theorem setLimits_limits : s.setLimits p (s.limits p) = s := by
  unfold setLimits setLevel limits
  congr 1
  funext q
  by_cases h : q = p <;> simp [h]

end Chains

/-! ## The cache -/

section Cache
variable (id : Nat) (c : ChainIterWrap) (cl : ChainManager LimitBndl) (cs : ChainManager StopBndl)

@[simp] theorem limits_cacheErase : (s.cacheErase id).limits = s.limits := rfl
@[simp] theorem stops_cacheErase : (s.cacheErase id).stops = s.stops := rfl
@[simp] theorem aons_cacheErase : (s.cacheErase id).aons = s.aons := rfl
@[simp] theorem limits_cacheInsert : (s.cacheInsert id c).limits = s.limits := rfl
@[simp] theorem stops_cacheInsert : (s.cacheInsert id c).stops = s.stops := rfl
@[simp] theorem aons_cacheInsert : (s.cacheInsert id c).aons = s.aons := rfl
@[simp] theorem idCache_setLimits : (s.setLimits p cl).idCache = s.idCache := rfl
@[simp] theorem idCache_setStops : (s.setStops p cs).idCache = s.idCache := rfl
@[simp] theorem idCache_setAons (buys : Bool) : (s.setAons buys p cl).idCache = s.idCache := rfl

@[simp] theorem limits_cacheEmplace : (s.cacheEmplace id c).limits = s.limits := by
  unfold cacheEmplace; split <;> rfl

@[simp] theorem stops_cacheEmplace : (s.cacheEmplace id c).stops = s.stops := by
  unfold cacheEmplace; split <;> rfl

@[simp] theorem aons_cacheEmplace : (s.cacheEmplace id c).aons = s.aons := by
  unfold cacheEmplace; split <;> rfl

theorem idCache_cacheErase (i : Nat) :
    (s.cacheErase id).idCache i = if i = id then none else s.idCache i := rfl

theorem idCache_cacheInsert (i : Nat) :
    (s.cacheInsert id c).idCache i = if i = id then some c else s.idCache i := rfl

theorem idCache_cacheEmplace (h : s.idCache id = none) (i : Nat) :
    (s.cacheEmplace id c).idCache i = if i = id then some c else s.idCache i := by
  unfold cacheEmplace; rw [h]; rfl

end Cache

/-! ## Limit chains behind the cache -/

section UpdateAt
variable {s p} {f : OrderBndl → OrderBndl}

theorem limits_updateAt (c : ChainIterWrap) (id : Nat) :
    (s.updateAt c id f).limits q =
      if c.type = .limit ∧ q = c.p then
        (s.limits q).map (Chain.updateLimit (fun b => { b with toOrderBndl := f b.toOrderBndl }) id)
      else s.limits q := by
  unfold updateAt
  rcases c with ⟨ty, cp⟩
  cases ty <;> simp
  by_cases h : q = cp <;> simp [h]

theorem elems_updateLimit (id : Nat) (g : LimitBndl → LimitBndl) :
    ((s.updateLimit p id g).limits q).elems =
      if q = p then Chain.updateLimit g id (s.limits q).elems else (s.limits q).elems := by
  unfold updateLimit
  by_cases h : q = p
  · subst h
    cases hl : s.limits q <;> simp [Chain.updateLimit]
  · simp [h]

end UpdateAt
end Sob

/-! ## Pointer adjustments change nothing but pointers -/

namespace Exec
variable (bidSide : Bool) (s : Sob) (p : Nat)

theorem Core.findNewBestInside_eq : ∃ bid ask low high, Core.findNewBestInside bidSide s =
    { s with bid := bid, ask := ask, lowBuyLimit := low, highSellLimit := high } := by
  unfold Core.findNewBestInside Core.jumpToNonemptyChain
  cases bidSide
  · simp only [Bool.false_eq_true, if_false]
    split
    · exact ⟨_, _, _, _, rfl⟩
    · split <;> exact ⟨_, _, _, _, rfl⟩
  · simp only [if_true]
    split
    · exact ⟨_, _, _, _, rfl⟩
    · split <;> exact ⟨_, _, _, _, rfl⟩

theorem Limit.adjustStateAfterPull_eq : ∃ bid ask low high,
    Limit.adjustStateAfterPull bidSide s p =
      { s with bid := bid, ask := ask, lowBuyLimit := low, highSellLimit := high } := by
  have hfind : ∀ (b : Bool) (c : Prop) [Decidable c] (t : Sob),
      (∃ bid ask low high,
        t = { s with bid := bid, ask := ask, lowBuyLimit := low, highSellLimit := high }) →
      ∃ bid ask low high, (if c then Core.findNewBestInside b t else t) =
        { s with bid := bid, ask := ask, lowBuyLimit := low, highSellLimit := high } := by
    rintro b c _ t ⟨bid, ask, low, high, rfl⟩
    split
    · obtain ⟨bid', ask', low', high', h⟩ := Core.findNewBestInside_eq b
        { s with bid := bid, ask := ask, lowBuyLimit := low, highSellLimit := high }
      exact ⟨bid', ask', low', high', h⟩
    · exact ⟨bid, ask, low, high, rfl⟩
  unfold Limit.adjustStateAfterPull
  cases bidSide
  · simp only [Bool.false_eq_true, if_false]
    refine hfind _ _ _ ?_
    split <;> exact ⟨_, _, _, _, rfl⟩
  · simp only [if_true]
    refine hfind _ _ _ ?_
    split <;> exact ⟨_, _, _, _, rfl⟩

theorem Aon.adjustStateAfterInsert_eq : ∃ lb hb ls hs, Aon.adjustStateAfterInsert bidSide s p =
    { s with lowBuyAon := lb, highBuyAon := hb, lowSellAon := ls, highSellAon := hs } := by
  unfold Aon.adjustStateAfterInsert
  cases bidSide <;> exact ⟨_, _, _, _, rfl⟩

theorem Aon.adjustStateAfterPull_eq : ∃ lb hb ls hs, Aon.adjustStateAfterPull bidSide s p =
    { s with lowBuyAon := lb, highBuyAon := hb, lowSellAon := ls, highSellAon := hs } := by
  unfold Aon.adjustStateAfterPull
  cases bidSide
  · simp only [Bool.false_eq_true, if_false]
    repeat' split
    all_goals exact ⟨_, _, _, _, rfl⟩
  · simp only [if_true]
    repeat' split
    all_goals exact ⟨_, _, _, _, rfl⟩

theorem Stop.adjustStateAfterInsert_eq : ∃ lb hb ls hs, Stop.adjustStateAfterInsert bidSide s p =
    { s with lowBuyStop := lb, highBuyStop := hb, lowSellStop := ls, highSellStop := hs } := by
  unfold Stop.adjustStateAfterInsert
  cases bidSide <;> exact ⟨_, _, _, _, rfl⟩

theorem Stop.adjustStateAfterPull_eq : ∃ lb hb ls hs, Stop.adjustStateAfterPull bidSide s p =
    { s with lowBuyStop := lb, highBuyStop := hb, lowSellStop := ls, highSellStop := hs } := by
  unfold Stop.adjustStateAfterPull
  cases bidSide
  · simp only [Bool.false_eq_true, if_false]
    repeat' split
    all_goals exact ⟨_, _, _, _, rfl⟩
  · simp only [if_true]
    repeat' split
    all_goals exact ⟨_, _, _, _, rfl⟩

theorem Stop.adjustStateAfterTrigger_eq : ∃ lb hb ls hs,
    Stop.adjustStateAfterTrigger bidSide s p =
      { s with lowBuyStop := lb, highBuyStop := hb, lowSellStop := ls, highSellStop := hs } := by
  unfold Stop.adjustStateAfterTrigger
  cases bidSide
  · simp only [Bool.false_eq_true, if_false]
    split <;> exact ⟨_, _, _, _, rfl⟩
  · simp only [if_true]
    split <;> exact ⟨_, _, _, _, rfl⟩

end Exec

/-! ## Chains and cache -/

/-- The chains of all levels and the cache. -/
def Sob.files (s : Sob) : (Nat → Level) × (Nat → Option ChainIterWrap) := (s.book, s.idCache)

section Files
variable {s s' : Sob}

theorem limits_of_files (h : s'.files = s.files) : s'.limits = s.limits := by
  have hb : s'.book = s.book := congrArg Prod.fst h
  unfold Sob.limits
  rw [hb]

theorem stops_of_files (h : s'.files = s.files) : s'.stops = s.stops := by
  have hb : s'.book = s.book := congrArg Prod.fst h
  unfold Sob.stops
  rw [hb]

theorem aons_of_files (h : s'.files = s.files) : s'.aons = s.aons := by
  have hb : s'.book = s.book := congrArg Prod.fst h
  unfold Sob.aons
  rw [hb]

theorem cache_of_files (h : s'.files = s.files) : s'.idCache = s.idCache :=
  congrArg Prod.snd h

namespace Exec
variable (b : Bool) (s : Sob) (p : Nat)

theorem Core.files_findNewBestInside : (Core.findNewBestInside b s).files = s.files := by
  obtain ⟨_, _, _, _, h⟩ := Core.findNewBestInside_eq b s
  rw [h]; rfl

theorem Limit.files_adjustStateAfterPull : (Limit.adjustStateAfterPull b s p).files = s.files := by
  obtain ⟨_, _, _, _, h⟩ := Limit.adjustStateAfterPull_eq b s p
  rw [h]; rfl

theorem Limit.files_adjustStateAfterInsert :
    (Limit.adjustStateAfterInsert b s p).files = s.files := by
  cases b <;> rfl

theorem Aon.files_adjustStateAfterPull : (Aon.adjustStateAfterPull b s p).files = s.files := by
  obtain ⟨_, _, _, _, h⟩ := Aon.adjustStateAfterPull_eq b s p
  rw [h]; rfl

theorem Aon.files_adjustStateAfterInsert :
    (Aon.adjustStateAfterInsert b s p).files = s.files := by
  cases b <;> rfl

theorem Stop.files_adjustStateAfterPull : (Stop.adjustStateAfterPull b s p).files = s.files := by
  obtain ⟨_, _, _, _, h⟩ := Stop.adjustStateAfterPull_eq b s p
  rw [h]; rfl

theorem Stop.files_adjustStateAfterInsert :
    (Stop.adjustStateAfterInsert b s p).files = s.files := by
  cases b <;> rfl

theorem Stop.files_adjustStateAfterTrigger :
    (Stop.adjustStateAfterTrigger b s p).files = s.files := by
  obtain ⟨_, _, _, _, h⟩ := Stop.adjustStateAfterTrigger_eq b s p
  rw [h]; rfl

end Exec
end Files

theorem Sob.cacheEmplace_eq (s : Sob) (id : Nat) (c : ChainIterWrap) :
    ∃ cache, s.cacheEmplace id c = { s with idCache := cache } := by
  unfold Sob.cacheEmplace
  split <;> exact ⟨_, rfl⟩

namespace Chain
variable {f : LimitBndl → LimitBndl} {id : Nat} {l : List LimitBndl}

/-! ## Elements by id -/

theorem updateLimit_eq_map (hn : (l.map (·.id)).Nodup) :
    updateLimit f id l = l.map fun b => if b.id = id then f b else b := by
  induction l with
  | nil => rfl
  | cons b bs ih =>
    simp only [List.map_cons, List.nodup_cons, List.mem_map, not_exists, not_and] at hn
    unfold updateLimit
    split
    next hb =>
      have hrest : bs.map (fun b => if b.id = id then f b else b) = bs.map fun b => b :=
        List.map_congr_left fun c hc => by
          simp only [ite_eq_right_iff]
          exact fun hci => absurd (hci.trans hb.symm) (hn.1 c hc)
      simp [hb, hrest]
    next hb => simp [hb, ih hn.2]

theorem mem_updateLimit {b : LimitBndl} (h : b ∈ updateLimit f id l) :
    b ∈ l ∨ ∃ b' ∈ l, b'.id = id ∧ b = f b' := by
  induction l with
  | nil => exact .inl h
  | cons c cs ih =>
    unfold updateLimit at h
    split at h
    next hc =>
      rcases List.mem_cons.mp h with rfl | h
      · exact .inr ⟨c, List.mem_cons_self, hc, rfl⟩
      · exact .inl (List.mem_cons_of_mem _ h)
    next =>
      rcases List.mem_cons.mp h with rfl | h
      · exact .inl List.mem_cons_self
      · rcases ih h with h | ⟨b', hb', h'⟩
        · exact .inl (List.mem_cons_of_mem _ h)
        · exact .inr ⟨b', List.mem_cons_of_mem _ hb', h'⟩

/-- With distinct ids, the element with the rewritten id is the rewritten one. -/
theorem mem_updateLimit_self (hn : (l.map (·.id)).Nodup) {b : LimitBndl}
    (h : b ∈ updateLimit f id l) (hb : b.id = id) : ∃ b' ∈ l, b'.id = id ∧ b = f b' := by
  rw [updateLimit_eq_map hn] at h
  obtain ⟨b', hb', rfl⟩ := List.mem_map.mp h
  by_cases hid : b'.id = id
  · exact ⟨b', hb', hid, by simp [hid]⟩
  · simp only [hid, if_false] at hb

/-- A field the update leaves alone. -/
theorem map_updateLimit {β : Type} {g : LimitBndl → β} (hg : ∀ b, g (f b) = g b) :
    (updateLimit f id l).map g = l.map g := by
  induction l with
  | nil => rfl
  | cons b bs ih => unfold updateLimit; split <;> simp [hg, ih]

theorem updateLimit_eq_nil : updateLimit f id l = [] ↔ l = [] := by
  cases l with
  | nil => exact Iff.rfl
  | cons b bs => unfold updateLimit; split <;> simp

theorem findLimit_mem {b : LimitBndl} (h : findLimit l id = some b) : b ∈ l ∧ b.id = id :=
  ⟨List.mem_of_find?_eq_some h, by simpa using List.find?_some h⟩

/-- An element is found by its id if that occurs once. -/
theorem find?_of_mem {α : Type} (f : α → Nat) {l : List α} (hn : (l.map f).Nodup) {b : α}
    (hb : b ∈ l) : l.find? (fun x => f x = f b) = some b := by
  induction l with
  | nil => cases hb
  | cons x l ih =>
    rw [List.map_cons, List.nodup_cons] at hn
    rcases List.mem_cons.mp hb with rfl | hb
    · exact List.find?_cons_of_pos (by simp)
    · have hne : f x ≠ f b := fun heq => hn.1 (heq ▸ List.mem_map_of_mem hb)
      rw [List.find?_cons_of_neg (by simpa using hne)]
      exact ih hn.2 hb

theorem findLimit_of_mem {l : List LimitBndl} (hn : (l.map (·.id)).Nodup) {b : LimitBndl}
    (hb : b ∈ l) : findLimit l b.id = some b :=
  find?_of_mem (fun x : LimitBndl => x.id) hn hb

theorem findStop_of_mem {l : List StopBndl} (hn : (l.map (·.id)).Nodup) {b : StopBndl}
    (hb : b ∈ l) : findStop l b.id = some b :=
  find?_of_mem (fun x : StopBndl => x.id) hn hb

theorem findLimit_eq_none (h : findLimit l id = none) : id ∉ l.map (·.id) := by
  intro hm
  obtain ⟨b, hb, rfl⟩ := List.mem_map.mp hm
  exact absurd (List.find?_eq_none.mp h b hb) (by simp)

theorem findStop_id {l : List StopBndl} {b : StopBndl} (h : findStop l id = some b) :
    b.id = id := by
  simpa using List.find?_some h

theorem eraseLimit_sublist (l : List LimitBndl) (id : Nat) : (eraseLimit l id).Sublist l :=
  List.eraseP_sublist

end Chain
end SimpleOrderbook
