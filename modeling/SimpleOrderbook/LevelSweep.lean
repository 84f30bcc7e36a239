import SimpleOrderbook.Scan
import SimpleOrderbook.AonBook

/-!
# One level of a sweep

A sweep hits the AON chain of a level and then its limit chain. Orders are filled, freed and passed
over; those that are all-or-none and too large go from the limit chain to the AON chain. What is left
of the size is what `takeOrders` says, and the other levels stay as they were.

## Main definitions

* `Met` — what a level that is swept leaves alone.
* `AonsHit`, `LimitsHit` — the AON chain and the limit chain of a level after it was hit.
-/
namespace SimpleOrderbook

open Hoare

/-! ## What a level that is swept leaves alone -/

/-- The orders `gone` of level `p` traded, left the book or went to the AON chain of the level. -/
structure Met (bidSide : Bool) (p : Nat) (gone : List Nat) (w w' : World) : Prop where
  limits : ∀ q, q ≠ p → w'.limits q = w.limits q
  aons : ∀ q, q ≠ p → ∀ buys, w'.aons buys q = w.aons buys q
  cache : ∀ i, i ∉ gone → w'.idCache i = w.idCache i
  inside : (w'.bid, w'.ask, w'.lowBuyLimit, w'.highSellLimit, w'.end_) =
    (w.bid, w.ask, w.lowBuyLimit, w.highSellLimit, w.end_)
  stops : w'.stops = w.stops
  trailing : (w'.trailingBuyStops, w'.trailingSellStops) = (w.trailingBuyStops, w.trailingSellStops)
  covered : w.AonsCovered bidSide → w'.AonsCovered bidSide
  window : if bidSide then (w'.lowSellAon, w'.highSellAon) = (w.lowSellAon, w.highSellAon)
    else (w'.lowBuyAon, w'.highBuyAon) = (w.lowBuyAon, w.highBuyAon)
  queue : w'.internalOrderQueue = w.internalOrderQueue

namespace Met
variable {bidSide : Bool} {p : Nat} {gone gone' : List Nat} {w w' w'' : World}

theorem refl (w : World) : Met bidSide p [] w w :=
  ⟨fun _ _ => rfl, fun _ _ _ => rfl, fun _ _ => rfl, rfl, rfl, rfl, fun h => h,
    by cases bidSide <;> rfl, rfl⟩

theorem trans (h : Met bidSide p gone w w') (h' : Met bidSide p gone' w' w'') :
    Met bidSide p (gone ++ gone') w w'' := by
  refine ⟨fun q hq => (h'.limits q hq).trans (h.limits q hq),
    fun q hq buys => (h'.aons q hq buys).trans (h.aons q hq buys), fun i hi => ?_,
    h'.inside.trans h.inside, h'.stops.trans h.stops, h'.trailing.trans h.trailing,
    fun hc => h'.covered (h.covered hc), ?_, h'.queue.trans h.queue⟩
  · rw [List.mem_append, not_or] at hi
    rw [h'.cache i hi.2, h.cache i hi.1]
  · have hwin := h.window
    have hwin' := h'.window
    cases bidSide
    · exact hwin'.trans hwin
    · exact hwin'.trans hwin

/-- Nothing but the record of calls, the callbacks and the last trade changed. -/
theorem of_files (hf : w'.files = w.files)
    (hin : (w'.bid, w'.ask, w'.lowBuyLimit, w'.highSellLimit, w'.end_) =
      (w.bid, w.ask, w.lowBuyLimit, w.highSellLimit, w.end_))
    (ht : (w'.trailingBuyStops, w'.trailingSellStops) = (w.trailingBuyStops, w.trailingSellStops))
    (hw : (w'.lowBuyAon, w'.highBuyAon, w'.lowSellAon, w'.highSellAon) =
      (w.lowBuyAon, w.highBuyAon, w.lowSellAon, w.highSellAon))
    (hqu : w'.internalOrderQueue = w.internalOrderQueue) : Met bidSide p [] w w' := by
  simp only [Prod.mk.injEq] at hw
  obtain ⟨h1, h2, h3, h4⟩ := hw
  refine ⟨fun q _ => congrFun (limits_of_files hf) q, fun q _ _ => by rw [aons_of_files hf],
    fun i _ => by rw [cache_of_files hf], hin, stops_of_files hf, ht, fun hc q hq => ?_, ?_, hqu⟩
  · rw [aons_of_files hf] at hq
    have := hc q hq
    unfold Exec.Aon.inWindow at this ⊢
    rwa [h1, h2, h3, h4]
  · rw [h1, h2, h3, h4]
    cases bidSide <;> rfl

theorem log (w : World) (ev : Event) : Met bidSide p [] w (w.log ev) := of_files rfl rfl rfl rfl rfl

theorem traded (w : World) (n id i : Nat) (cb cb' : OrderExecCbBndl) :
    Met bidSide p [] w (w.traded p n id i cb cb') := by
  obtain ⟨_, _, h⟩ := w.traded_eq p n id i cb cb'
  exact of_files (by rw [h]; rfl) (by rw [h]) (by rw [h]) (by rw [h]) (by rw [h])

theorem cacheErase (w : World) (i : Nat) : Met bidSide p [i] w (w.onSob (·.cacheErase i)) := by
  refine ⟨fun _ _ => rfl, fun _ _ _ => rfl, fun j hj => ?_, rfl, rfl, rfl, fun hc => hc,
    by cases bidSide <;> rfl, rfl⟩
  rw [World.toSob_onSob, Sob.idCache_cacheErase, if_neg (by simpa using hj)]

theorem setLimits (w : World) (c : ChainManager LimitBndl) :
    Met bidSide p [] w (w.onSob (·.setLimits p c)) := by
  refine ⟨fun q hq => (Sob.limits_setLimits ..).trans (if_neg hq),
    fun q _ _ => Sob.aons_setLimits .., fun _ _ => rfl, rfl, funext fun q => Sob.stops_setLimits ..,
    rfl, fun hc q hq => ?_, by cases bidSide <;> rfl, rfl⟩
  rw [World.toSob_onSob, Sob.aons_setLimits] at hq
  exact hc q hq

/-- The AON chain of level `p` is rewritten; being there, it is in the window. -/
theorem setAons (h : w.aons bidSide p ≠ none) (c : ChainManager AonBndl) :
    Met bidSide p [] w (w.onSob (·.setAons bidSide p c)) := by
  refine ⟨fun q _ => Sob.limits_setAons .., fun q hq buys => ?_, fun _ _ => rfl, rfl,
    funext fun q => Sob.stops_setAons .., rfl, fun hc q hq => ?_,
    by cases bidSide <;> rfl, rfl⟩
  · rw [World.toSob_onSob, Sob.aons_setAons, if_neg fun h => hq h.1]
  · rw [World.toSob_onSob, Sob.aons_setAons] at hq
    split at hq
    next heq => exact heq.1 ▸ hc p h
    next => exact hc q hq

theorem aonPull (w : World) :
    Met bidSide p [] w (w.onSob fun s => Exec.Aon.adjustStateAfterPull bidSide s p) := by
  have hf : (w.onSob fun s => Exec.Aon.adjustStateAfterPull bidSide s p).files = w.files :=
    Exec.Aon.files_adjustStateAfterPull ..
  obtain ⟨_, _, _, _, heq⟩ := Exec.Aon.adjustStateAfterPull_eq bidSide w.toSob p
  refine ⟨fun q _ => congrFun (limits_of_files hf) q, fun q _ _ => by rw [aons_of_files hf],
    fun i _ => by rw [cache_of_files hf], ?_, stops_of_files hf, ?_,
    fun hc => hc.adjustStateAfterPull p, ?_, by rw [World.toSob_onSob, heq]⟩
  · rw [World.toSob_onSob, heq]
  · rw [World.toSob_onSob, heq]
  · cases bidSide <;> simp only [World.toSob_onSob, Exec.Aon.adjustStateAfterPull, if_true,
      Bool.false_eq_true, if_false] <;> split_ifs <;> rfl

/-- An order of the limit chain that is too large is copied; the window of its side then reaches
to it, whichever chain it was pushed on. -/
theorem copied (w : World) (b : LimitBndl) (c : ChainIterWrap) :
    Met bidSide p [b.id] w (w.onSob (·.copiedToAons bidSide p b c)) := by
  have hbv := bookView_copiedToAons w.toSob bidSide p b c
  have haons : ∀ q buys, (w.copiedToAons bidSide p b c).aons buys q = if q = p ∧ buys = true then
      (w.aons true p).push b else w.aons buys q := fun q buys => aons_copiedToAons
  refine ⟨fun q _ => congrFun (limits_of_bookView hbv) q, fun q hq buys => ?_, fun i hi => ?_, ?_, ?_,
    ?_, fun hc q hq => ?_, by cases bidSide <;> rfl, congrArg (·.2.2.1) hbv⟩
  · exact (haons q buys).trans (if_neg fun h => hq h.1)
  · rw [World.toSob_onSob]
    unfold Sob.copiedToAons
    rw [cache_of_files (Exec.Aon.files_adjustStateAfterInsert ..), Sob.idCache_cacheInsert,
      if_neg (by simpa using hi)]
    rfl
  · have hv : (w.copiedToAons bidSide p b c).limitView = w.limitView := congrArg (·.1) hbv
    simp only [Sob.limitView, LimitView.mk.injEq] at hv
    obtain ⟨-, h1, h2, h3, h4, h5⟩ := hv
    simp only [World.toSob_onSob, h1, h2, h3, h4, h5]
  · rw [World.toSob_onSob]
    unfold Sob.copiedToAons
    rw [stops_of_files (Exec.Aon.files_adjustStateAfterInsert ..)]
    exact funext fun q => Sob.stops_setAons ..
  · cases bidSide <;> rfl
  · rw [World.toSob_onSob, haons] at hq
    cases bidSide with
    | true =>
      have hwin : q = p ∨ w.lowBuyAon ≤ q ∧ q ≤ w.highBuyAon := by
        by_cases hqp : q = p
        · exact .inl hqp
        · rw [if_neg fun h => hqp h.1] at hq
          exact .inr (by simpa [Exec.Aon.inWindow] using hc q hq)
      simp only [World.toSob_onSob, Sob.copiedToAons, Exec.Aon.adjustStateAfterInsert,
        Exec.Aon.inWindow, if_true, decide_eq_true_eq]
      change min p w.lowBuyAon ≤ q ∧ q ≤ max p w.highBuyAon
      omega
    | false =>
      rw [if_neg (by simp)] at hq
      have hwin : q ≤ w.highSellAon ∧ w.lowSellAon ≤ q := by
        simpa [Exec.Aon.inWindow] using hc q hq
      simp only [World.toSob_onSob, Sob.copiedToAons, Exec.Aon.adjustStateAfterInsert,
        Exec.Aon.inWindow, Bool.false_eq_true, if_false, decide_eq_true_eq]
      change q ≤ max p w.highSellAon ∧ min p w.lowSellAon ≤ q
      omega

end Met

/-! ## One level -/

/-- A limit order without conditions, or an all-or-none order. -/
def OrderBndl.Unconditional (b : OrderBndl) : Prop := b.condition = .none ∨ b.condition = .allOrNone

/-- What the scan reads of an order in an AON chain, and of one in a limit chain. -/
def LimitBndl.aonEntry (b : LimitBndl) : Nat × Bool := (b.sz, true)
def LimitBndl.limitEntry (b : LimitBndl) : Nat × Bool := (b.sz, b.isAON)

/-- What a hit of size `n` leaves of the orders of a limit chain where they stand. -/
def Chain.hitLeft : List LimitBndl → Nat → List LimitBndl
  | [], _ => []
  | b :: bs, n =>
    if n = 0 then b :: bs
    else if b.isAON ∧ n < b.sz then hitLeft bs n
    else if n < b.sz then { b with sz := b.sz - n } :: bs
    else hitLeft bs (n - b.sz)

/-- The orders it moves to the AON chain: those that are too large. -/
def Chain.hitMoved : List LimitBndl → Nat → List AonBndl
  | [], _ => []
  | b :: bs, n =>
    if n = 0 then []
    else if b.isAON ∧ n < b.sz then b :: hitMoved bs n
    else if n < b.sz then []
    else hitMoved bs (n - b.sz)

namespace Chain
variable {b : LimitBndl} {l : List LimitBndl} {n : Nat}

theorem takeOrders_limitEntry : takeOrders [b.limitEntry] n =
    if b.isAON ∧ n < b.sz then n else n - b.sz := rfl

@[simp] theorem hitLeft_zero : hitLeft l 0 = l := by cases l <;> simp [hitLeft]

@[simp] theorem hitMoved_zero : hitMoved l 0 = [] := by cases l <;> simp [hitMoved]

/-- The first order is hit by the whole size, the others by what it leaves of it. -/
theorem hitLeft_cons : hitLeft (b :: l) n =
    hitLeft [b] n ++ hitLeft l (takeOrders [b.limitEntry] n) := by
  rw [takeOrders_limitEntry]
  simp only [hitLeft]
  by_cases h0 : n = 0
  · simp [h0]
  rw [if_neg h0, if_neg h0]
  by_cases haon : b.isAON = true ∧ n < b.sz
  · rw [if_pos haon, if_pos haon, if_pos haon]
    rfl
  rw [if_neg haon, if_neg haon, if_neg haon]
  by_cases hlt : n < b.sz
  · rw [if_pos hlt, if_pos hlt, Nat.sub_eq_zero_of_le hlt.le, hitLeft_zero]
    rfl
  · rw [if_neg hlt, if_neg hlt]
    rfl

theorem hitMoved_cons : hitMoved (b :: l) n =
    hitMoved [b] n ++ hitMoved l (takeOrders [b.limitEntry] n) := by
  rw [takeOrders_limitEntry]
  simp only [hitMoved]
  by_cases h0 : n = 0
  · simp [h0]
  rw [if_neg h0, if_neg h0]
  by_cases haon : b.isAON = true ∧ n < b.sz
  · rw [if_pos haon, if_pos haon, if_pos haon]
    rfl
  rw [if_neg haon, if_neg haon, if_neg haon]
  by_cases hlt : n < b.sz
  · rw [if_pos hlt, if_pos hlt, Nat.sub_eq_zero_of_le hlt.le, hitMoved_zero]
    rfl
  · rw [if_neg hlt, if_neg hlt]
    rfl

theorem hitLeft_ids (l : List LimitBndl) (n : Nat) :
    ((hitLeft l n).map (·.id)).Sublist (l.map (·.id)) := by
  induction l generalizing n with
  | nil => exact .slnil
  | cons b l ih =>
    simp only [hitLeft]
    split
    · exact .refl _
    · split
      · exact (ih n).cons _
      · split
        · exact .refl _
        · exact (ih _).cons _

/-- A hit that is not used up leaves nothing. -/
theorem hitLeft_of_take (h : takeOrders (l.map LimitBndl.limitEntry) n ≠ 0) : hitLeft l n = [] := by
  induction l generalizing n with
  | nil => rfl
  | cons b l ih =>
    have h0 : takeOrders [b.limitEntry] n ≠ 0 := fun h0 => h <| by
      rw [List.map_cons, ← List.singleton_append, takeOrders_append, h0, takeOrders_zero]
    rw [List.map_cons, ← List.singleton_append, takeOrders_append] at h
    rw [hitLeft_cons, ih h, List.append_nil]
    by_cases haon : b.isAON = true ∧ n < b.sz
    · simp [hitLeft, haon, show n ≠ 0 by rintro rfl; exact h0 takeOrders_zero]
    · rw [takeOrders_limitEntry, if_neg haon] at h0
      simp [hitLeft, show n ≠ 0 by omega, show ¬ n < b.sz by omega]

end Chain

/-- The AON chain of level `p` was hit: the orders `gone` left it. -/
structure AonsHit (bidSide : Bool) (p : Nat) (gone : List Nat) (w w' : World) : Prop where
  met : Met bidSide p gone w w'
  limits : w'.limits = w.limits
  sublist : (w'.aons bidSide p).elems.Sublist (w.aons bidSide p).elems
  other : w'.aons (!bidSide) p = w.aons (!bidSide) p
  spared : ((w.aons bidSide p).elems.map (·.id)).Nodup →
    ∀ b ∈ (w'.aons bidSide p).elems, b.id ∉ gone
  gone_sub : ∀ i ∈ gone, i ∈ (w.aons bidSide p).elems.map (·.id)
  same : w.aons bidSide p = none → w' = w

/-- The orders `moved` of level `p` went from the limit chain to the AON chain. -/
structure Moved (bidSide : Bool) (p : Nat) (moved : List AonBndl) (w w' : World) : Prop where
  buys : (w'.aons true p).elems = (w.aons true p).elems ++ moved
  sells : w'.aons false p = w.aons false p
  same : moved = [] → w'.aons true p = w.aons true p
  cache : ∀ b ∈ moved, w'.idCache b.id = some ⟨if bidSide then .aonBuy else .aonSell, p⟩

section Level
variable {bidSide : Bool} {p id size : Nat} {cb : OrderExecCbBndl} {w : World}

theorem AonsHit.refl (w : World) : AonsHit bidSide p [] w w :=
  ⟨.refl w, rfl, .refl _, rfl, fun _ _ _ => List.not_mem_nil, fun i hi => (by cases hi), fun _ => rfl⟩

theorem AonsHit.trans {gone gone' : List Nat} {w' w'' : World} (h : AonsHit bidSide p gone w w')
    (h' : AonsHit bidSide p gone' w' w'') : AonsHit bidSide p (gone ++ gone') w w'' := by
  refine ⟨h.met.trans h'.met, h'.limits.trans h.limits, h'.sublist.trans h.sublist,
    h'.other.trans h.other, fun hn b hb hm => ?_, fun i hi => ?_, fun hn => ?_⟩
  · rcases List.mem_append.mp hm with hm | hm
    · exact h.spared hn b (h'.sublist.subset hb) hm
    · exact h'.spared (hn.sublist (h.sublist.map _)) b hb hm
  · rcases List.mem_append.mp hi with hi | hi
    · exact h.gone_sub i hi
    · exact (h.sublist.map _).subset (h'.gone_sub i hi)
  · obtain rfl := h.same hn
    exact h'.same hn

theorem Moved.of_aons {w' : World} (h : ∀ buys, w'.aons buys p = w.aons buys p) :
    Moved bidSide p [] w w' :=
  ⟨by rw [h, List.append_nil], h false, fun _ => h true, fun b hb => by cases hb⟩

theorem Moved.trans {moved moved' : List AonBndl} {w' w'' : World}
    (h : Moved bidSide p moved w w') (h' : Moved bidSide p moved' w' w'')
    (hc : ∀ b ∈ moved, w''.idCache b.id = w'.idCache b.id) :
    Moved bidSide p (moved ++ moved') w w'' := by
  refine ⟨by rw [h'.buys, h.buys, List.append_assoc], h'.sells.trans h.sells, fun hn => ?_, fun b hb => ?_⟩
  · obtain ⟨rfl, rfl⟩ := List.append_eq_nil_iff.mp hn
    exact (h'.same rfl).trans (h.same rfl)
  rcases List.mem_append.mp hb with hb | hb
  · rw [hc b hb, h.cache b hb]
  · exact h'.cache b hb

/-- An order of an AON chain trades in full. -/
theorem AonsHit.filled {kept l : List AonBndl} {b : AonBndl} (id : Nat) (cb : OrderExecCbBndl)
    (hl : w.aons bidSide p = some (kept ++ b :: l)) :
    AonsHit bidSide p [b.id] w (((w.traded p b.sz id b.id cb b.cb).log (.filled b.id)).onSob
      fun s => (s.cacheErase b.id).setAons bidSide p (some (kept ++ l))) := by
  -- the order leaves the cache, then the chain
  let w1 := (w.traded p b.sz id b.id cb b.cb).log (.filled b.id)
  let w2 := w1.onSob (·.cacheErase b.id)
  have hfiles : w1.files = w.files := files_traded ..
  have hl2 : w2.aons bidSide p ≠ none := by
    change w1.aons bidSide p ≠ none
    simp [aons_of_files hfiles, hl]
  have hmet : Met bidSide p ([] ++ [] ++ [b.id] ++ []) w
      (w2.onSob (·.setAons bidSide p (some (kept ++ l)))) :=
    (((Met.traded w b.sz id b.id cb b.cb).trans (.log _ _)).trans (.cacheErase w1 b.id)).trans
      (.setAons hl2 _)
  have haons : ∀ buys, (w2.setAons bidSide p (some (kept ++ l))).aons buys p =
      if buys = bidSide then some (kept ++ l) else w.aons buys p := by
    intro buys
    rw [Sob.aons_setAons]
    simp only [true_and]
    split
    · rfl
    · exact congrFun (congrFun (aons_of_files hfiles) buys) p
  refine ⟨hmet, ?_, ?_, ?_, fun hn x hx => ?_, fun i hi => ?_, fun hn => by cases hl.symm.trans hn⟩
  · funext q
    exact (Sob.limits_setAons ..).trans (congrFun (limits_of_files hfiles) q)
  · change ((w2.setAons bidSide p (some (kept ++ l))).aons bidSide p).elems.Sublist _
    rw [haons, if_pos rfl, hl]
    exact (List.Sublist.refl kept).append (List.sublist_cons_self b l)
  · exact (haons _).trans (if_neg (by simp))
  · have hx : x ∈ ((w2.setAons bidSide p (some (kept ++ l))).aons bidSide p).elems := hx
    rw [haons, if_pos rfl, ChainManager.elems_some] at hx
    rw [hl, ChainManager.elems_some] at hn
    have hperm : ((b :: (kept ++ l)).map (·.id)).Nodup :=
      (List.perm_middle.map _).nodup_iff.mp hn
    rw [List.mem_singleton]
    intro hid
    have hm : x.id ∈ (kept ++ l).map (·.id) := List.mem_map_of_mem hx
    rw [hid] at hm
    exact (List.nodup_cons.mp hperm).1 hm
  · rw [hl, List.mem_singleton.mp hi]
    exact List.mem_map_of_mem (by simp)

/-- The loop of `_hit_aon_chain`, behind the orders `kept` that were passed over. -/
theorem wp_hitAonChain_take (kept : List AonBndl) {l : List AonBndl}
    (hl : w.aons bidSide p = some (kept ++ l)) :
    wp (hitAonChain bidSide p id cb kept l size) (fun r w' =>
      r.1 = takeOrders (l.map LimitBndl.aonEntry) size ∧ w'.aons bidSide p ≠ none ∧
      ∃ gone, AonsHit bidSide p gone w w') (fun _ _ => False) w := by
  induction l generalizing w kept size with
  | nil => exact wp_pure ⟨rfl, by simp [hl], [], .refl w⟩
  | cons b l ih =>
    unfold hitAonChain
    refine wp_ite (fun h0 => ?_) fun h0 => wp_ite (fun hfit => ?_) fun hbig => ?_
    · subst h0
      rw [takeOrders_zero]
      exact wp_pure ⟨rfl, by simp [hl], [], .refl w⟩
    · refine wp_tradeHasOccured_bind (wp_record_bind (wp_modifySob_bind ?_))
      have hhit := AonsHit.filled id cb hl
      refine (ih kept ((Sob.aons_setAons ..).trans (if_pos ⟨rfl, rfl⟩))).post ?_
      rintro r w' ⟨hr, hsome, gone, hgone⟩
      refine ⟨?_, hsome, [b.id] ++ gone, hhit.trans hgone⟩
      rw [List.map_cons]
      exact hr.trans (if_neg fun h => absurd h.2 (by omega)).symm
    · have hl1 : w.aons bidSide p = some ((kept ++ [b]) ++ l) := by rw [hl, List.append_assoc]; rfl
      refine (ih _ hl1).post ?_
      rintro r w' ⟨hr, hsome, gone, hgone⟩
      refine ⟨?_, hsome, gone, hgone⟩
      rw [List.map_cons]
      exact hr.trans (if_pos ⟨rfl, by omega⟩).symm

theorem AonsHit.log (h : w.aons bidSide p ≠ none) (ev : Event) : AonsHit bidSide p [] w (w.log ev) :=
  ⟨.log w ev, rfl, .refl _, rfl, fun _ _ _ => List.not_mem_nil, fun i hi => (by cases hi),
    fun hn => absurd hn h⟩

/-- An AON chain is freed, and the window follows. -/
theorem AonsHit.freed (h : w.aons bidSide p ≠ none) : AonsHit bidSide p [] w (w.onSob fun s =>
    Exec.Aon.adjustStateAfterPull bidSide (s.setAons bidSide p none) p) := by
  have hfiles := Exec.Aon.files_adjustStateAfterPull bidSide (w.setAons bidSide p none) p
  have haons : ∀ buys, (Exec.Aon.adjustStateAfterPull bidSide (w.setAons bidSide p none) p).aons
      buys p = if buys = bidSide then none else w.aons buys p := fun buys => by
    rw [aons_of_files hfiles, Sob.aons_setAons]
    simp
  have hmet : Met bidSide p ([] ++ []) w ((w.onSob (·.setAons bidSide p none)).onSob fun s =>
      Exec.Aon.adjustStateAfterPull bidSide s p) := (Met.setAons h none).trans (.aonPull _)
  refine ⟨hmet, ?_, ?_, ?_, fun _ _ _ => List.not_mem_nil, fun i hi => (by cases hi),
    fun hn => absurd hn h⟩ <;> rw [World.toSob_onSob]
  · rw [limits_of_files hfiles]
    exact funext fun q => Sob.limits_setAons ..
  · rw [haons, if_pos rfl]
    exact List.nil_sublist _
  · rw [haons, if_neg (by simp)]

/-- The AON chain of a level. -/
theorem wp_tradeAons_take (hc : w.AonsCovered bidSide) :
    wp (tradeAons bidSide p id cb size) (fun r w' =>
      r = takeOrders ((w.aons bidSide p).elems.map LimitBndl.aonEntry) size ∧
      ∃ gone, AonsHit bidSide p gone w w') (fun _ _ => False) w := by
  have hnone : w.aons bidSide p = none → wp (pure size : M Nat) (fun r w' =>
      r = takeOrders ((w.aons bidSide p).elems.map LimitBndl.aonEntry) size ∧
      ∃ gone, AonsHit bidSide p gone w w') (fun _ _ => False) w := fun hn =>
    wp_pure ⟨by rw [hn]; rfl, [], .refl w⟩
  unfold tradeAons
  refine wp_getSob_bind (wp_ite (fun _ => ?_) fun hout => hnone ?_)
  · cases hl : w.aons bidSide p with
    | none =>
      rw [hl] at hnone
      exact hnone rfl
    | some l =>
      have hlog := AonsHit.log (fun hn => by cases hl.symm.trans hn)
        (.hitAonChain w.toSob bidSide p size)
      refine wp_record_bind ((wp_hitAonChain_take [] (w := w.log _) hl).bind ?_)
      rintro ⟨r, all⟩ w1 ⟨hr, hsome, gone, hhit⟩
      have hgone := hlog.trans hhit
      exact wp_ite (fun _ => wp_modifySob_bind (wp_pure ⟨hr, _, hgone.trans (.freed hsome)⟩))
        fun _ => wp_pure ⟨hr, gone, hgone⟩
  · by_contra hsome
    exact hout (hc p hsome)

/-- The handlers do nothing for an order without conditions or an all-or-none one. -/
theorem wp_handleFill_unconditional {Q : Unit → World → Prop} {E : Err → World → Prop}
    {b : LimitBndl} {done todo : List LimitBndl} {amount : Nat}
    (hl : w.limits p = some (done ++ b :: todo)) (hdone : ∀ x ∈ done, x.id ≠ b.id)
    (hb : b.Unconditional) (h : Q () w) : wp (handleFill p b amount) Q E w := by
  rcases hb with hnone | haon
  · exact wp_handleFill_basic hnone h
  unfold handleFill
  refine wp_ite (fun _ => ?_) fun _ => wp_pure h
  have hsame : handleAdvancedOrder b.toOrderBndl b.id amount w = .ok b.toOrderBndl w := by
    have hcancel : handleAdvancedOrderCancel b.toOrderBndl b.id amount =
        pure (false, b.toOrderBndl) := by
      unfold handleAdvancedOrderCancel
      rw [haon]
    have htrigger : handleAdvancedOrderTrigger b.toOrderBndl b.id amount = pure b.toOrderBndl := by
      unfold handleAdvancedOrderTrigger
      rw [haon]
    unfold handleAdvancedOrder
    rw [hcancel, pure_bind]
    exact congrFun htrigger w
  refine wp_bind_ok hsame (wp_modifySob ?_)
  -- writing the bundle back changes nothing
  have hset : ∀ f : LimitBndl → LimitBndl, f b = b → w.updateLimit p b.id f = w.toSob := by
    intro f hf
    unfold Sob.updateLimit
    rw [hl, Option.map_some, updateLimit_append hdone, hf, ← hl, Sob.setLimits_limits]
  have hw : (w.onSob fun s => s.updateLimit p b.id fun x => { x with
      condition := b.condition, trigger := b.trigger, payload := b.payload }) = w :=
    congrArg (fun t : Sob => ({ w with toSob := t } : World)) (hset _ rfl)
  rwa [hw]

/-- One order of the loop of `_hit_chain`: if the incoming order has something left, nothing is
left of this one where it stands. -/
theorem wp_hitOrder_take {b : LimitBndl} {done todo : List LimitBndl}
    (hl : w.limits p = some (done ++ b :: todo)) (hdone : ∀ x ∈ done, x.id ≠ b.id)
    (hb : b.Unconditional) (hcache : w.idCache b.id = some ⟨.limit, p⟩) (h0 : size ≠ 0)
    (hside : decide (p < w.ask) = bidSide) : wp (hitOrder p id cb b size) (fun r w' =>
      r = takeOrders [b.limitEntry] size ∧ Moved bidSide p (Chain.hitMoved [b] size) w w' ∧
      ∃ b' : LimitBndl, b'.id = b.id ∧ (r ≠ 0 → b'.sz = 0) ∧
        (if b'.sz = 0 then [] else [b']) = Chain.hitLeft [b] size ∧
        w'.limits p = some (done ++ b' :: todo) ∧
        Met bidSide p (if b'.sz = 0 then [b.id] else []) w w') (fun _ _ => False) w := by
  -- what the chain becomes when the order is rewritten
  have hset : ∀ (w1 : World) (f : LimitBndl → LimitBndl), w1.limits p = some (done ++ b :: todo) →
      (w1.onSob fun s => s.updateLimit p b.id f) =
        w1.onSob (·.setLimits p (some (done ++ f b :: todo))) := by
    intro w1 f h1
    have hu : w1.updateLimit p b.id f = w1.setLimits p (some (done ++ f b :: todo)) := by
      unfold Sob.updateLimit
      rw [h1, Option.map_some, updateLimit_append hdone]
    exact congrArg (fun t : Sob => ({ w1 with toSob := t } : World)) hu
  unfold hitOrder
  refine wp_ite (fun hbig => ?_) fun hfit => ?_
  · refine ((wp_copyBndlToAonChain w p b).mono (fun _ _ hq => hq) fun _ _ he => by
      cases hcache.symm.trans he.2.1).bind ?_
    rintro _ _ ⟨c, hc, rfl⟩
    cases hcache.symm.trans hc
    rw [hside]
    let w1 := (w.log (.copyBndlToAonChain w.toSob p b bidSide)).onSob
      (·.copiedToAons bidSide p b ⟨.limit, p⟩)
    have hl1 : w1.limits p = some (done ++ b :: todo) :=
      (congrFun (limits_of_bookView (bookView_copiedToAons _ _ _ _ _)) p).trans hl
    have haons : ∀ buys, w1.aons buys p =
        if p = p ∧ buys = true then (w.aons true p).push b else w.aons buys p := fun _ =>
      aons_copiedToAons
    refine wp_modifySob_bind (wp_pure ⟨(if_pos hbig).symm, ?_, { b with sz := 0 }, rfl,
      fun _ => rfl, ?_, ?_⟩)
    · rw [Chain.hitMoved, if_neg h0, if_pos hbig, hset _ _ hl1]
      refine ⟨?_, ?_, fun hn => (by cases hn), fun x hx => ?_⟩
      · rw [World.toSob_onSob, Sob.aons_setLimits, haons, if_pos ⟨rfl, rfl⟩]
        exact ChainManager.elems_push _ _
      · rw [World.toSob_onSob, Sob.aons_setLimits, haons, if_neg (by simp)]
      · rw [List.mem_singleton.mp hx]
        change (w.copiedToAons bidSide p b ⟨.limit, p⟩).idCache b.id = _
        unfold Sob.copiedToAons
        rw [cache_of_files (Exec.Aon.files_adjustStateAfterInsert ..), Sob.idCache_cacheInsert,
          if_pos rfl]
    · rw [Chain.hitLeft, if_neg h0, if_pos hbig]
      rfl
    · rw [hset _ _ hl1]
      exact ⟨(Sob.limits_setLimits ..).trans (if_pos rfl),
        ((Met.log w _).trans (.copied _ b ⟨.limit, p⟩)).trans (.setLimits _ _)⟩
  · refine wp_tradeHasOccured_bind ?_
    let amount := min size b.sz
    let w2 := w.traded p amount id b.id cb b.cb
    have hfiles : w2.files = w.files := files_traded ..
    have h1 : w2.limits p = some (done ++ b :: todo) := by rw [limits_of_files hfiles, hl]
    refine (wp_handleFill_unconditional (Q := fun _ w' => w' = w2) h1 hdone hb rfl).bind ?_
    rintro _ _ rfl
    refine wp_modifySob_bind (wp_getSob_bind ?_)
    rw [hset w2 _ h1]
    let b' : LimitBndl := { b with sz := b.sz - amount }
    let w3 := w2.onSob (·.setLimits p (some (done ++ b' :: todo)))
    have h3 : w3.limits p = some (done ++ b' :: todo) := (Sob.limits_setLimits ..).trans (if_pos rfl)
    have hfind : Chain.findLimit (w3.limits p).elems b.id = some b' := by
      rw [h3]
      exact findLimit_append (b := b') hdone
    have hmet3 : Met bidSide p ([] ++ []) w w3 :=
      (Met.traded w amount id b.id cb b.cb).trans (.setLimits w2 _)
    have hmoved : ∀ w' : World, w'.aons = w3.aons →
        Moved bidSide p (Chain.hitMoved [b] size) w w' := fun w' ha => by
      rw [show Chain.hitMoved [b] size = [] by
        simp only [Chain.hitMoved, if_neg h0, if_neg hfit, ite_self]]
      refine .of_aons fun buys => ?_
      rw [ha, ← aons_of_files hfiles]
      exact Sob.aons_setLimits ..
    have hr : size - amount = takeOrders [b.limitEntry] size := by
      rw [Chain.takeOrders_limitEntry, if_neg hfit]
      simp only [amount]
      omega
    have hspent : size - amount ≠ 0 → b'.sz = 0 := fun h => by
      simp only [b', amount] at h ⊢
      omega
    have hleft : (if b'.sz = 0 then [] else [b']) = Chain.hitLeft [b] size := by
      simp only [Chain.hitLeft, if_neg h0, if_neg hfit]
      by_cases hlt : size < b.sz
      · rw [if_pos hlt, if_neg (by simp only [b', amount]; omega)]
        simp only [b', amount, Nat.min_eq_left hlt.le]
      · rw [if_neg hlt, if_pos (by simp only [b', amount]; omega)]
    split
    next hnone => cases hnone.symm.trans hfind
    next x hx =>
      obtain rfl : b' = x := Option.some.inj (hfind.symm.trans hx)
      refine wp_ite (fun hz => ?_) fun hz => wp_pure ⟨hr, hmoved _ rfl, b', rfl, hspent, hleft, h3, ?_⟩
      · refine wp_record_bind (wp_modifySob_bind (wp_pure
          ⟨hr, hmoved _ rfl, b', rfl, hspent, hleft, h3, ?_⟩))
        rw [if_pos hz]
        exact (hmet3.trans (.log _ _)).trans (.cacheErase _ b.id)
      · rw [if_neg hz]
        exact hmet3

/-- The loop over the orders `todo` still to visit. If the incoming order has something left at
the end, the bulk erase that follows leaves nothing in the chain. -/
theorem wp_hitOrders_take (done : List LimitBndl) {todo : List LimitBndl} {pos : Option Nat}
    (hl : w.limits p = some (done ++ todo)) (hnodup : ((done ++ todo).map (·.id)).Nodup)
    (huncond : ∀ b ∈ todo, b.Unconditional)
    (hcache : ∀ b ∈ todo, w.idCache b.id = some ⟨.limit, p⟩)
    (hside : decide (p < w.ask) = bidSide)
    (hpos : todo = [] → size ≠ 0 → ∃ q, pos = some q ∧ eraseVisited q done = []) :
    wp (hitOrders p id cb (todo.map (·.id)) pos size) (fun r w' =>
      r.1 = takeOrders (todo.map LimitBndl.limitEntry) size ∧
      (∃ l, w'.limits p = some l ∧ (size = 0 → r.2 = pos ∧ l = done ++ todo) ∧
        (size ≠ 0 → ∃ q, r.2 = some q ∧ eraseVisited q l = Chain.hitLeft todo size)) ∧
      Moved bidSide p (Chain.hitMoved todo size) w w' ∧ ∃ gone, Met bidSide p gone w w' ∧
        ∀ i ∈ gone, i ∈ todo.map (·.id) ∧ i ∉ (Chain.hitLeft todo size).map (·.id))
      (fun _ _ => False) w := by
  induction todo generalizing w done pos size with
  | nil =>
    rw [List.append_nil] at hl
    refine wp_pure ⟨rfl, ⟨done, hl, fun _ => ⟨rfl, by simp⟩, fun h => hpos rfl h⟩,
      .of_aons fun _ => rfl, [], .refl w, fun i hi => by cases hi⟩
  | cons b todo ih =>
    rw [List.map_append, List.nodup_append] at hnodup
    obtain ⟨hnd, hnt, hdisj⟩ := hnodup
    have hdone : ∀ x ∈ done, x.id ≠ b.id := fun x hx =>
      hdisj x.id (List.mem_map_of_mem hx) b.id List.mem_cons_self
    have hb : b.id ∉ todo.map (·.id) := (List.nodup_cons.mp hnt).1
    unfold hitOrders
    refine wp_ite (fun h0 => ?_) fun h0 => wp_getSob_bind ?_
    · subst h0
      rw [takeOrders_zero, Chain.hitMoved_zero]
      exact wp_pure ⟨rfl, ⟨_, hl, fun _ => ⟨rfl, rfl⟩, fun h => absurd rfl h⟩,
        .of_aons fun _ => rfl, [], .refl w, fun i hi => by cases hi⟩
    rw [hl, ChainManager.elems_some, findLimit_append hdone]
    refine (wp_hitOrder_take hl hdone (huncond b List.mem_cons_self) (hcache b List.mem_cons_self)
      h0 hside).bind ?_
    rintro size' w1 ⟨hr, hmoved, b', hid, hspent, hleft, hl1, hmet⟩
    have hl1' : w1.limits p = some ((done ++ [b']) ++ todo) := by rw [hl1, List.append_assoc]; rfl
    have hnodup' : (((done ++ [b']) ++ todo).map (·.id)).Nodup := by
      rw [List.append_assoc, List.map_append, List.nodup_append]
      refine ⟨hnd, ?_, ?_⟩ <;> simp only [List.singleton_append, List.map_cons, hid]
      · exact hnt
      · exact hdisj
    have hsub : ∀ i ∈ (if b'.sz = 0 then [b.id] else []), i = b.id ∧ b'.sz = 0 := fun i hi => by
      split at hi
      next hz => exact ⟨List.mem_singleton.mp hi, hz⟩
      next => cases hi
    have hcache' : ∀ x ∈ todo, w1.idCache x.id = some ⟨.limit, p⟩ := fun x hx => by
      rw [hmet.cache x.id fun hm => hb ((hsub _ hm).1 ▸ List.mem_map_of_mem hx)]
      exact hcache x (List.mem_cons_of_mem _ hx)
    have hside' : decide (p < w1.ask) = bidSide := by
      have hask : w1.ask = w.ask := congrArg (·.2.1) hmet.inside
      rwa [hask]
    have herase : ∀ l, eraseVisited b'.id (done ++ b' :: l) =
        (if b'.sz = 0 then [] else [b']) ++ l := fun l => by
      rw [eraseVisited_append fun x hx => hid ▸ hdone x hx]
      split <;> rfl
    refine (ih _ hl1' hnodup' (fun x hx => huncond x (List.mem_cons_of_mem _ hx)) hcache' hside'
      fun _ h => ⟨b.id, rfl, ?_⟩).post ?_
    · rw [← hid, herase, if_pos (hspent h)]
      rfl
    · rintro r w' ⟨hr', ⟨l, hl', hz, hnz⟩, hmoved', gone, hmet', hsub'⟩
      have hleft' : Chain.hitLeft (b :: todo) size =
          (if b'.sz = 0 then [] else [b']) ++ Chain.hitLeft todo size' := by
        rw [Chain.hitLeft_cons, ← hleft, hr]
      have hmoved0 : ∀ x ∈ Chain.hitMoved [b] size, x.id = b.id := fun x hx => by
        simp only [Chain.hitMoved] at hx
        split at hx
        · cases hx
        · split at hx
          · rw [List.mem_singleton.mp hx]
          · split at hx <;> cases hx
      refine ⟨?_, ⟨l, hl', fun h => absurd h h0, fun _ => ?_⟩, ?_, _, hmet.trans hmet', fun i hi => ?_⟩
      · rw [hr', hr, List.map_cons, ← takeOrders_append]
        rfl
      · rw [hleft']
        by_cases hs : size' = 0
        · obtain ⟨hpos', rfl⟩ := hz hs
          refine ⟨b.id, hpos', ?_⟩
          rw [← hid, List.append_assoc, List.singleton_append, herase, hs, Chain.hitLeft_zero]
        · obtain ⟨q, hq, he⟩ := hnz hs
          exact ⟨q, hq, by rw [if_pos (hspent hs), he]; rfl⟩
      · rw [Chain.hitMoved_cons, ← hr]
        refine hmoved.trans hmoved' fun x hx => hmet'.cache _ fun hm => hb ?_
        rw [← hmoved0 x hx]
        exact (hsub' _ hm).1
      · rw [hleft', List.map_cons, List.mem_cons, List.map_append, List.mem_append, not_or]
        rcases List.mem_append.mp hi with hi | hi
        · obtain ⟨rfl, hz⟩ := hsub i hi
          rw [if_pos hz]
          refine ⟨.inl rfl, List.not_mem_nil, fun hm => hb ?_⟩
          exact (Chain.hitLeft_ids todo size').subset hm
        · refine ⟨.inr (hsub' i hi).1, fun hm => hb ?_, (hsub' i hi).2⟩
          split at hm
          · cases hm
          · obtain rfl : i = b'.id := by simpa using hm
            exact hid ▸ (hsub' _ hi).1

/-- `_hit_chain` of a chain of such orders. With nothing left of the incoming order on entry it
does what the memory in front of the list decides: the chain stays as it is, or it is lost. -/
theorem wp_hitChain_take {l : List LimitBndl} (hl : w.limits p = some l) (hne : l ≠ [])
    (hnodup : (l.map (·.id)).Nodup) (huncond : ∀ b ∈ l, b.Unconditional)
    (hcache : ∀ b ∈ l, w.idCache b.id = some ⟨.limit, p⟩) (hside : decide (p < w.ask) = bidSide) :
    wp (hitChain p id size cb) (fun r w' => r.1 = takeOrders (l.map LimitBndl.limitEntry) size ∧
      (r.1 ≠ 0 → r.2 = true) ∧ Moved bidSide p (Chain.hitMoved l size) w w' ∧
      (∃ l', w'.limits p = some l' ∧ r.2 = l'.isEmpty ∧
        (l' = Chain.hitLeft l size ∨ size = 0 ∧ l' = [])) ∧
      ∃ gone, Met bidSide p gone w w' ∧
        ∀ i ∈ gone, i ∈ l.map (·.id) ∧ i ∉ (Chain.hitLeft l size).map (·.id))
      (fun _ _ => False) w := by
  unfold hitChain
  refine wp_getSob_bind (wp_record_bind ?_)
  rw [hl, ChainManager.elems_some]
  have hl' : (w.log (.hitChain w.toSob p size)).limits p = some ([] ++ l) := hl
  refine (wp_hitOrders_take [] hl' hnodup huncond hcache hside fun h => absurd h hne).bind ?_
  rintro ⟨r, pos⟩ w1 ⟨hr, ⟨l1, hl1, hz, hnz⟩, hmoved, gone, hmet, hsub⟩
  refine wp_getSob_bind ?_
  rw [hl1]
  have hset : ∀ c, Moved bidSide p (Chain.hitMoved l size) w (w1.onSob (·.setLimits p c)) := fun c =>
    ⟨(congrArg ChainManager.elems (Sob.aons_setLimits ..)).trans hmoved.buys,
      (Sob.aons_setLimits ..).trans hmoved.sells,
      fun hn => (Sob.aons_setLimits ..).trans (hmoved.same hn), hmoved.cache⟩
  have hmet1 : ∀ c, Met bidSide p ([] ++ gone ++ []) w (w1.onSob (·.setLimits p c)) := fun c =>
    ((Met.log w _).trans hmet).trans (.setLimits w1 c)
  have hset2 : ∀ ev c, Moved bidSide p (Chain.hitMoved l size) w
      ((w1.log ev).onSob (·.setLimits p c)) := fun _ c =>
    ⟨(hset c).buys, (hset c).sells, (hset c).same, (hset c).cache⟩
  have hmet2 : ∀ ev c, Met bidSide p ([] ++ gone ++ []) w ((w1.log ev).onSob (·.setLimits p c)) :=
    fun ev c => ((Met.log w _).trans hmet).trans ((Met.log w1 ev).trans (.setLimits _ c))
  have hsub1 : ∀ i ∈ [] ++ gone ++ [], i ∈ l.map (·.id) ∧ i ∉ (Chain.hitLeft l size).map (·.id) :=
    fun i hi => hsub i (by simpa using hi)
  have hlim : ∀ c, (w1.onSob (·.setLimits p c)).limits p = c := fun c =>
    (Sob.limits_setLimits ..).trans (if_pos rfl)
  by_cases h0 : size = 0
  · obtain ⟨rfl, rfl⟩ := hz h0
    subst h0
    have hr0 : r = 0 := hr.trans takeOrders_zero
    refine wp.bind (wp_get (Q := fun _ w' => w' = w1) rfl) ?_
    rintro v _ rfl
    refine wp_ite (fun _ => wp_modifySob_bind (wp_pure ⟨hr, fun h => absurd hr0 h, hset _,
      ⟨[], hlim _, rfl, .inr ⟨rfl, rfl⟩⟩, _, hmet1 _, hsub1⟩)) fun _ =>
      wp_pure ⟨hr, fun h => absurd hr0 h, ⟨hmoved.buys, hmoved.sells, hmoved.same, hmoved.cache⟩,
        ⟨l1, hl1, rfl, .inl Chain.hitLeft_zero.symm⟩, gone,
        (Met.log w _).trans hmet, hsub⟩
  · obtain ⟨q, rfl, he⟩ := hnz h0
    refine wp_getSob_bind (wp_record_bind (wp_modifySob_bind (wp_pure ⟨hr, fun h => ?_, hset2 _ _,
      ⟨_, hlim _, rfl, .inl he⟩, _, hmet2 _ _, hsub1⟩)))
    rw [he, Chain.hitLeft_of_take (hr ▸ h)]
    rfl

/-- The limit chain of level `p` was hit with size `n`. -/
structure LimitsHit (bidSide : Bool) (p n : Nat) (w w' : World) : Prop where
  left : (w'.limits p).elems = (w.limits p).elems ∨
    (w'.limits p).elems = Chain.hitLeft (w.limits p).elems n ∨ (w'.limits p).elems = []
  moved : w'.aons = w.aons ∧ w'.idCache = w.idCache ∨ decide (p < w.ask) = bidSide ∧
    Moved bidSide p (Chain.hitMoved (w.limits p).elems n) w w' ∧
    ∀ b ∈ (w'.limits p).elems, w'.idCache b.id = w.idCache b.id

/-- The limit chain of a level: if it is used up, it is freed and a new best price is searched. -/
theorem wp_tradeLimits_take (hne : w.limits p ≠ some []) (hnodup : (w.limitIds p).Nodup)
    (huncond : ∀ b ∈ (w.limits p).elems, b.Unconditional)
    (hcache : ∀ b ∈ (w.limits p).elems, w.idCache b.id = some ⟨.limit, p⟩)
    (hside : Exec.Limit.inWindow bidSide w.toSob p = true → decide (p < w.ask) = bidSide) :
    wp (tradeLimits bidSide p id cb size) (fun r w' =>
      r = takeOrders (if Exec.Limit.inWindow bidSide w.toSob p then
        (w.limits p).elems.map LimitBndl.limitEntry else []) size ∧ LimitsHit bidSide p size w w' ∧
      ∃ gone w1, Met bidSide p gone w w1 ∧ (∀ i ∈ gone, i ∈ w.limitIds p) ∧
        (w' = w ∨ w' = w1 ∧ r = 0 ∨ w' = w1.onSob fun s =>
          Exec.Core.findNewBestInside bidSide (s.setLimits p none))) (fun _ _ => False) w := by
  have hsame : LimitsHit bidSide p size w w := ⟨.inl rfl, .inl ⟨rfl, rfl⟩⟩
  unfold tradeLimits
  refine wp_getSob_bind (wp_ite (fun hwin => ?_) fun hwin => ?_)
  · rw [if_pos hwin]
    cases hl : w.limits p with
    | none => exact wp_pure ⟨rfl, hsame, [], w, .refl w, fun i hi => (by cases hi), .inl rfl⟩
    | some l =>
      have hids : w.limitIds p = l.map (·.id) := by
        unfold Sob.limitIds
        rw [hl]
        rfl
      rw [hl] at hne huncond hcache
      refine (wp_hitChain_take hl (fun h => hne (congrArg some h)) (hids ▸ hnodup) huncond hcache
        (hside hwin)).bind ?_
      rintro ⟨r, all⟩ w1 ⟨hr, hall, hmoved, ⟨l', hl', hemp, hleft⟩, gone, hmet, hsub⟩
      have hgone : ∀ i ∈ gone, i ∈ w.limitIds p := fun i hi => hids ▸ (hsub i hi).1
      refine wp_ite (fun hyes => wp_modifySob_bind (wp_pure
        ⟨hr, ⟨.inr (.inr ?_), .inr ⟨hside hwin, ?_, ?_⟩⟩, gone, w1, hmet, hgone, .inr (.inr rfl)⟩))
        fun hno => wp_pure ⟨hr, ⟨?_, .inr ⟨hside hwin, ?_, fun b hb => ?_⟩⟩, gone, w1, hmet, hgone,
          .inr (.inl ⟨rfl, ?_⟩)⟩
      · rw [World.toSob_onSob, limits_of_files (Exec.Core.files_findNewBestInside ..),
          Sob.limits_setLimits, if_pos rfl]
        rfl
      · rw [hl]
        refine ⟨?_, ?_, fun hn => ?_, fun b hb => ?_⟩ <;> rw [World.toSob_onSob]
        · rw [aons_of_files (Exec.Core.files_findNewBestInside ..), Sob.aons_setLimits]
          exact hmoved.buys
        · rw [aons_of_files (Exec.Core.files_findNewBestInside ..), Sob.aons_setLimits]
          exact hmoved.sells
        · rw [aons_of_files (Exec.Core.files_findNewBestInside ..), Sob.aons_setLimits]
          exact hmoved.same hn
        · rw [cache_of_files (Exec.Core.files_findNewBestInside ..)]
          exact hmoved.cache b hb
      · intro b hb
        rw [World.toSob_onSob, limits_of_files (Exec.Core.files_findNewBestInside ..),
          Sob.limits_setLimits, if_pos rfl] at hb
        cases hb
      · rw [hl', hl]
        rcases hleft with rfl | ⟨-, rfl⟩
        · exact .inr (.inl rfl)
        · exact .inr (.inr rfl)
      · rw [hl]
        exact hmoved
      · refine hmet.cache _ fun hm => (hsub _ hm).2 ?_
        rw [hl', ChainManager.elems_some] at hb
        rcases hleft with rfl | ⟨-, rfl⟩
        · exact List.mem_map_of_mem hb
        · cases hb
      · by_contra h
        exact hno (hall h)
  · rw [if_neg hwin]
    exact wp_pure ⟨rfl, hsame, [], w, .refl w, fun i hi => (by cases hi), .inl rfl⟩

end Level

end SimpleOrderbook
