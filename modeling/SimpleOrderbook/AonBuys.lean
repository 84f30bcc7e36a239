import Mathlib.Algebra.Order.BigOperators.Group.List
import Mathlib.Algebra.Order.Group.Nat
import SimpleOrderbook.LookAhead

/-!
# Books whose all-or-none orders are buys

As long as all all-or-none orders are buys, a trade only takes sells away, and no order comes to rest
in it. What a look-ahead for a buy counts are the sells at its level and below, all of them.

## Main definitions

* `Sob.Arranged` — a book of orders without conditions, or buys that are all-or-none.
* `Sob.sellsTo` — the size of the sells at a level and below.
* `Relieved` — what trades, pulls and the matching of all-or-none orders may do.
-/
namespace SimpleOrderbook

open Hoare

/-! ## The orders in question -/

/-- The size of the sell orders of a chain. -/
def Chain.sells (l : List LimitBndl) : Nat := ((l.filter fun b => !b.side).map (·.sz)).sum

/-- The size of the sell limit orders that rest at level `p` and below. -/
def Sob.sellsTo (s : Sob) (p : Nat) : Nat :=
  ((List.range (p + 1)).map fun q => Chain.sells (s.limits q).elems).sum

/-- An all-or-none order rests in one of the AON chains of its level or in the limit chain. -/
def Sob.RestsAon (s : Sob) (p : Nat) (b : LimitBndl) : Prop :=
  (∃ buys, b ∈ (s.aons buys p).elems) ∨ b ∈ (s.limits p).elems ∧ b.isAON = true

/-- A book of orders without conditions, or buys that are all-or-none, each of them cached. -/
structure Sob.Arranged (s : Sob) : Prop where
  sells : ∀ p, s.aons false p = none
  buys : ∀ p, ∀ b ∈ (s.limits p).elems, b.isAON = true → b.side = true
  covered : s.AonsCovered true
  quiet : s.Quiet
  unconditional : ∀ p, ∀ b ∈ (s.limits p).elems, b.Unconditional
  nodup : ∀ p, (s.limitIds p).Nodup
  aonNodup : ∀ p, ((s.aons true p).elems.map (·.id)).Nodup
  stopNodup : ∀ p, ((s.stops p).elems.map (·.id)).Nodup
  limits : ∀ p, ∀ b ∈ (s.limits p).elems, s.idCache b.id = some ⟨.limit, p⟩
  aons : ∀ p, ∀ b ∈ (s.aons true p).elems, s.idCache b.id = some ⟨.aonBuy, p⟩
  stops : ∀ p, ∀ e ∈ (s.stops p).elems, s.idCache e.id = some ⟨.stop, p⟩

/-- Sells were taken away and no all-or-none order came to rest. -/
structure Eased (s s' : Sob) : Prop where
  sells : ∀ p, Chain.sells (s'.limits p).elems ≤ Chain.sells (s.limits p).elems
  rests : ∀ p b, s'.RestsAon p b → s.RestsAon p b

namespace Chain
variable {b : LimitBndl} {l l' : List LimitBndl} {n : Nat}

@[simp] theorem sells_nil : sells [] = 0 := rfl

theorem sells_cons : sells (b :: l) = (if b.side then 0 else b.sz) + sells l := by
  unfold sells
  cases hs : b.side <;> simp [hs]

theorem sells_append : sells (l ++ l') = sells l + sells l' := by
  simp [sells]

theorem sells_sublist (h : l'.Sublist l) : sells l' ≤ sells l :=
  ((h.filter _).map _).sum_le_sum fun _ _ => Nat.zero_le _

theorem sells_hitLeft (l : List LimitBndl) (n : Nat) : sells (hitLeft l n) ≤ sells l := by
  induction l generalizing n with
  | nil => exact le_rfl
  | cons b l ih =>
    simp only [hitLeft]
    split
    · exact le_rfl
    · split
      · exact (ih n).trans (sells_sublist (List.sublist_cons_self b l))
      · split
        · rw [sells_cons, sells_cons]
          dsimp only
          split <;> omega
        · exact (ih _).trans (sells_sublist (List.sublist_cons_self b l))

/-- What stays in the chain stays as it was, but for the size of an order that is not
all-or-none. -/
theorem mem_hitLeft (h : b ∈ hitLeft l n) : ∃ x ∈ l, b.id = x.id ∧ b.side = x.side ∧
    b.condition = x.condition ∧ (b.isAON = true → b = x) := by
  induction l generalizing n with
  | nil => cases h
  | cons x l ih =>
    simp only [hitLeft] at h
    have hself : ∀ {y}, y ∈ x :: l → ∃ z ∈ x :: l, y.id = z.id ∧ y.side = z.side ∧
        y.condition = z.condition ∧ (y.isAON = true → y = z) := fun hy =>
      ⟨_, hy, rfl, rfl, rfl, fun _ => rfl⟩
    have htail : ∀ {m}, b ∈ hitLeft l m → ∃ z ∈ x :: l, b.id = z.id ∧ b.side = z.side ∧
        b.condition = z.condition ∧ (b.isAON = true → b = z) := fun hb => by
      obtain ⟨z, hz, hrest⟩ := ih hb
      exact ⟨z, List.mem_cons_of_mem _ hz, hrest⟩
    split at h
    · exact hself h
    · split at h
      · exact htail h
      · next haon =>
        split at h
        · next hlt =>
          rcases List.mem_cons.mp h with rfl | hb
          · exact ⟨x, List.mem_cons_self, rfl, rfl, rfl, fun hA => absurd ⟨hA, hlt⟩ haon⟩
          · exact hself (List.mem_cons_of_mem _ hb)
        · exact htail h

theorem hitMoved_sublist (l : List LimitBndl) (n : Nat) : (hitMoved l n).Sublist l := by
  induction l generalizing n with
  | nil => exact .slnil
  | cons b l ih =>
    simp only [hitMoved]
    split
    · exact List.nil_sublist _
    · split
      · exact (ih n).cons_cons b
      · split
        · exact List.nil_sublist _
        · exact (ih _).cons b

theorem isAON_of_mem_hitMoved (h : b ∈ hitMoved l n) : b.isAON = true := by
  induction l generalizing n with
  | nil => cases h
  | cons x l ih =>
    simp only [hitMoved] at h
    split at h
    · cases h
    · split at h
      · next haon =>
        rcases List.mem_cons.mp h with rfl | hb
        · exact haon.1
        · exact ih hb
      · split at h
        · cases h
        · exact ih h

end Chain

section Eased
variable {s s' s'' : Sob} {p : Nat}

theorem Eased.refl (s : Sob) : Eased s s := ⟨fun _ => le_rfl, fun _ _ h => h⟩

theorem Eased.trans (h : Eased s s') (h' : Eased s' s'') : Eased s s'' :=
  ⟨fun p => (h'.sells p).trans (h.sells p), fun p b hb => h.rests p b (h'.rests p b hb)⟩

theorem Eased.of_chains (hl : s'.limits = s.limits) (ha : s'.aons = s.aons) : Eased s s' := by
  refine ⟨fun p => by rw [hl], fun p b hb => ?_⟩
  unfold Sob.RestsAon at hb ⊢
  rwa [hl, ha] at hb

theorem Eased.sellsTo_le (h : Eased s s') (p : Nat) : s'.sellsTo p ≤ s.sellsTo p :=
  List.sum_le_sum fun q _ => h.sells q

theorem Sob.sellsTo_congr (h : ∀ q ≤ p, Chain.sells (s'.limits q).elems =
    Chain.sells (s.limits q).elems) : s'.sellsTo p = s.sellsTo p := by
  unfold Sob.sellsTo
  congr 1
  refine List.map_congr_left fun q hq => h q ?_
  have := List.mem_range.mp hq
  omega

end Eased

/-! ## A level that is swept -/

namespace Sob.Arranged
variable {s : Sob} {bidSide : Bool} {p n : Nat} {gone : List Nat} {w w' : World}

theorem listed (h : s.Arranged) (bidSide : Bool) (q : Nat) : s.Listed bidSide q := by
  refine ⟨h.unconditional q, h.nodup q, h.limits q, fun b hb => ?_⟩
  cases bidSide with
  | true => exact ⟨_, h.aons q b hb, rfl, by simp⟩
  | false =>
    rw [h.sells q] at hb
    cases hb

theorem coversSells (h : s.Arranged) : s.AonsCovered false := fun p hp => absurd (h.sells p) hp

theorem covers (h : s.Arranged) (bidSide : Bool) : s.AonsCovered bidSide := by
  cases bidSide
  · exact h.coversSells
  · exact h.covered

theorem ready (h : s.Arranged) (ho : s.limitView.Ordered) (bidSide : Bool) (p : Nat) :
    s.Ready bidSide p := ⟨ho, h.covers bidSide, h.quiet, fun q _ => h.listed bidSide q⟩

theorem scannable (h : s.Arranged) (ho : s.limitView.Ordered) : s.Scannable :=
  ⟨ho, h.covers, h.quiet, h.listed⟩

theorem aonsHit (h : w.Arranged) (hh : AonsHit bidSide p gone w w') :
    w'.Arranged ∧ Eased w.toSob w'.toSob ∧ (bidSide = false → w' = w) := by
  cases bidSide with
  | false =>
    obtain rfl := hh.same (h.sells p)
    exact ⟨h, .refl _, fun _ => rfl⟩
  | true =>
    -- the orders that are gone were those of this AON chain
    have hgone : ∀ i c, w.idCache i = some c → c ≠ ⟨.aonBuy, p⟩ → w'.idCache i = some c := by
      intro i c hc hne
      rw [hh.met.cache i, hc]
      intro hi
      obtain ⟨b, hb, rfl⟩ := List.mem_map.mp (hh.gone_sub i hi)
      exact hne (Option.some.inj (hc.symm.trans (h.aons p b hb)))
    have haons : ∀ q, (w'.aons true q).elems.Sublist (w.aons true q).elems := fun q => by
      by_cases hq : q = p
      · subst hq
        exact hh.sublist
      · rw [hh.met.aons q hq]
    have hsells : ∀ q, w'.aons false q = w.aons false q := fun q => by
      by_cases hq : q = p
      · subst hq
        exact hh.other
      · exact hh.met.aons q hq false
    refine ⟨⟨fun q => (hsells q).trans (h.sells q), ?_, hh.met.covered h.covered,
      hh.met.passed.quiet h.quiet, ?_, ?_, fun q => (h.aonNodup q).sublist ((haons q).map _),
      by rw [hh.met.stops]; exact h.stopNodup, ?_, fun q b hb => ?_, ?_⟩,
      ⟨fun q => by rw [hh.limits], fun q b hb => ?_⟩, fun hf => by cases hf⟩
    · rw [hh.limits]
      exact h.buys
    · rw [hh.limits]
      exact h.unconditional
    · unfold Sob.limitIds
      rw [hh.limits]
      exact h.nodup
    · rw [hh.limits]
      exact fun q b hb => hgone _ _ (h.limits q b hb) (by simp)
    · have hc := h.aons q b ((haons q).subset hb)
      by_cases hq : q = p
      · subst hq
        rw [hh.met.cache _ (hh.spared (h.aonNodup q) b hb), hc]
      · exact hgone _ _ hc (by simp [hq])
    · rw [hh.met.stops]
      exact fun q e he => hgone _ _ (h.stops q e he) (by simp)
    · unfold Sob.RestsAon at hb ⊢
      rw [hh.limits] at hb
      refine hb.imp_left fun ⟨buys, hb⟩ => ⟨buys, ?_⟩
      cases buys
      · rwa [hsells] at hb
      · exact (haons q).subset hb

/-- The limit chain of a level was hit. The orders that went to the AON chain are buys, and so they
were on the side of the bids. -/
theorem limitsHit (h : w.Arranged) (ho : w.limitView.Ordered) (hh : LimitsHit bidSide p n w w')
    (hm : Passed bidSide p gone w w') (hgone : ∀ i ∈ gone, i ∈ w.limitIds p) :
    w'.Arranged ∧ Eased w.toSob w'.toSob ∧ (bidSide = false → w'.aons = w.aons) := by
  have hkept : ∀ i c, w.idCache i = some c → c ≠ ⟨.limit, p⟩ → w'.idCache i = some c := by
    intro i c hc hne
    rw [hm.cache i, hc]
    intro hi
    obtain ⟨b, hb, rfl⟩ := List.mem_map.mp (hgone i hi)
    exact hne (Option.some.inj (hc.symm.trans (h.limits p b hb)))
  -- what stays in the limit chain
  have hleft : ∀ b ∈ (w'.limits p).elems, ∃ x ∈ (w.limits p).elems, b.id = x.id ∧ b.side = x.side ∧
      b.condition = x.condition ∧ (b.isAON = true → b = x) := fun b hb => by
    rcases hh.left with he | he | he
    · exact ⟨b, he ▸ hb, rfl, rfl, rfl, fun _ => rfl⟩
    · rw [he] at hb
      exact Chain.mem_hitLeft hb
    · rw [he] at hb
      cases hb
  have hids : (w'.limitIds p).Sublist (w.limitIds p) := by
    unfold Sob.limitIds
    rcases hh.left with he | he | he
    · rw [he]
    · rw [he]
      exact Chain.hitLeft_ids _ _
    · rw [he]
      exact List.nil_sublist _
  -- and what goes to the AON chain
  obtain ⟨moved, hbuys, hsells, hmoved, hsame, htag⟩ : ∃ moved : List AonBndl,
      (w'.aons true p).elems = (w.aons true p).elems ++ moved ∧ w'.aons false p = w.aons false p ∧
      moved.Sublist (w.limits p).elems ∧ (bidSide = false → w'.aons true p = w.aons true p) ∧
      ∀ b ∈ moved, b.isAON = true ∧ w'.idCache b.id = some ⟨.aonBuy, p⟩ := by
    rcases hh.moved with ⟨ha, -⟩ | ⟨hside, hmv, -⟩
    · exact ⟨[], by rw [ha, List.append_nil], by rw [ha], List.nil_sublist _, fun _ => by rw [ha],
        fun b hb => by cases hb⟩
    · have hAON : ∀ b ∈ Chain.hitMoved (w.limits p).elems n, bidSide = true := fun b hb => by
        have hmem := (Chain.hitMoved_sublist _ _).subset hb
        have hbuy := h.buys p b hmem (Chain.isAON_of_mem_hitMoved hb)
        have hle : p ≤ w.bid := by simpa [hbuy, Sob.limitView] using ho.side p b hmem
        have hlt : w.bid < w.ask := ho.bid_lt_ask
        rw [← hside, decide_eq_true_eq]
        omega
      refine ⟨_, hmv.buys, hmv.sells, Chain.hitMoved_sublist _ _, fun hf => hmv.same ?_,
        fun b hb => ⟨Chain.isAON_of_mem_hitMoved hb, ?_⟩⟩
      · refine List.eq_nil_iff_forall_not_mem.mpr fun b hb => ?_
        cases hf.symm.trans (hAON b hb)
      · rw [hmv.cache b hb, hAON b hb]
        rfl
  have hlimits : ∀ q, (∀ P : LimitBndl → Prop, (∀ b ∈ (w.limits q).elems, P b) → (∀ b x : LimitBndl,
      b.id = x.id → b.side = x.side → b.condition = x.condition → P x → P b) →
        ∀ b ∈ (w'.limits q).elems, P b) := fun q P hP hcongr b hb => by
    by_cases hq : q = p
    · subst hq
      obtain ⟨x, hx, h1, h2, h3, -⟩ := hleft b hb
      exact hcongr b x h1 h2 h3 (hP x hx)
    · rw [hm.limits q hq] at hb
      exact hP b hb
  have hrests : ∀ q b, w'.RestsAon q b → w.RestsAon q b := fun q b hb => by
    by_cases hq : q = p
    · subst hq
      rcases hb with ⟨buys, hb⟩ | ⟨hb, hA⟩
      · cases buys with
        | false => exact .inl ⟨false, hsells ▸ hb⟩
        | true =>
          rw [hbuys, List.mem_append] at hb
          exact hb.elim (fun hb => .inl ⟨true, hb⟩) fun hb =>
            .inr ⟨hmoved.subset hb, (htag b hb).1⟩
      · obtain ⟨x, hx, -, -, -, heq⟩ := hleft b hb
        obtain rfl := heq hA
        exact .inr ⟨hx, hA⟩
    · unfold Sob.RestsAon at hb ⊢
      rw [hm.limits q hq] at hb
      rcases hb with hb | hb
      · obtain ⟨buys, hb⟩ := hb
        exact .inl ⟨buys, hm.aons q hq buys ▸ hb⟩
      · exact .inr hb
  refine ⟨⟨fun q => ?_, fun q => hlimits q _ (h.buys q) fun b x _ h2 h3 hx hA => ?_, ?_,
    hm.quiet h.quiet, fun q => hlimits q _ (h.unconditional q) fun b x _ _ h3 hx => ?_, fun q => ?_,
    fun q => ?_, by rw [hm.stops]; exact h.stopNodup, fun q b hb => ?_, fun q b hb => ?_, ?_⟩,
    ⟨fun q => ?_, hrests⟩, fun hf => ?_⟩
  · by_cases hq : q = p
    · subst hq
      exact hsells.trans (h.sells q)
    · exact (hm.aons q hq false).trans (h.sells q)
  · rw [h2]
    refine hx ?_
    unfold OrderBndl.isAON at hA ⊢
    rwa [← h3]
  · cases bidSide with
    | true => exact hm.covered h.covered
    | false =>
      have hwin := hm.window
      simp only [Bool.false_eq_true, if_false, Prod.mk.injEq] at hwin
      intro q hq
      have hold : w.aons true q ≠ none := by
        by_cases hqp : q = p
        · subst hqp
          rwa [hsame rfl] at hq
        · rwa [hm.aons q hqp] at hq
      have := h.covered q hold
      unfold Exec.Aon.inWindow at this ⊢
      simpa only [if_true, hwin.1, hwin.2] using this
  · unfold OrderBndl.Unconditional at hx ⊢
    rwa [h3]
  · by_cases hq : q = p
    · subst hq
      exact (h.nodup q).sublist hids
    · unfold Sob.limitIds
      rw [hm.limits q hq]
      exact h.nodup q
  · by_cases hq : q = p
    · subst hq
      rw [hbuys, List.map_append, List.nodup_append]
      refine ⟨h.aonNodup q, (h.nodup q).sublist (hmoved.map _), fun i hi j hj hij => ?_⟩
      obtain ⟨x, hx, rfl⟩ := List.mem_map.mp hi
      obtain ⟨y, hy, rfl⟩ := List.mem_map.mp hj
      have hcx := h.aons q x hx
      rw [hij, h.limits q y (hmoved.subset hy)] at hcx
      cases hcx
    · rw [hm.aons q hq]
      exact h.aonNodup q
  · by_cases hq : q = p
    · subst hq
      obtain ⟨x, hx, hid, -⟩ := hleft b hb
      have hc : w'.idCache b.id = w.idCache b.id := by
        rcases hh.moved with ⟨-, hc⟩ | ⟨-, -, hc⟩
        · rw [hc]
        · exact hc b hb
      rw [hc, hid]
      exact h.limits q x hx
    · rw [hm.limits q hq] at hb
      exact hkept _ _ (h.limits q b hb) (by simp [hq])
  · by_cases hq : q = p
    · subst hq
      rw [hbuys, List.mem_append] at hb
      exact hb.elim (fun hb => hkept _ _ (h.aons q b hb) (by simp)) fun hb => (htag b hb).2
    · rw [hm.aons q hq] at hb
      exact hkept _ _ (h.aons q b hb) (by simp)
  · rw [hm.stops]
    exact fun q e he => hkept _ _ (h.stops q e he) (by simp)
  · by_cases hq : q = p
    · subst hq
      rcases hh.left with he | he | he
      · rw [he]
      · rw [he]
        exact Chain.sells_hitLeft _ _
      · rw [he]
        exact Nat.zero_le _
    · rw [hm.limits q hq]
  · funext buys q
    by_cases hq : q = p
    · subst hq
      cases buys
      · exact hsells
      · exact hsame hf
    · exact hm.aons q hq buys

end Sob.Arranged

/-! ## A trade -/

/-- What matching, pulls and trades may do: nothing comes to rest, and the orders that are queued
have no condition. -/
structure Relieved (w w' : World) : Prop where
  arranged : w'.Arranged
  eased : Eased w.toSob w'.toSob
  queue : ∃ new, w'.internalOrderQueue = w.internalOrderQueue ++ new ∧ ∀ e ∈ new, e.condition = .none

/-- A sweep of the asks leaves the AON buys alone. -/
structure Clears (bidSide : Bool) (w w' : World) : Prop extends Relieved w w' where
  aons : bidSide = false → w'.aons = w.aons

section Trade
variable {bidSide : Bool} {p plev id size : Nat} {cb : OrderExecCbBndl} {w w' w'' : World}

theorem Relieved.of_queue (h : w'.Arranged) (he : Eased w.toSob w'.toSob)
    (hq : w'.internalOrderQueue = w.internalOrderQueue) : Relieved w w' :=
  ⟨h, he, [], by rw [hq, List.append_nil], fun e he => by cases he⟩

theorem Relieved.refl (h : w.Arranged) : Relieved w w := .of_queue h (.refl _) rfl

theorem Relieved.trans (h : Relieved w w') (h' : Relieved w' w'') : Relieved w w'' := by
  obtain ⟨new, hq, hn⟩ := h.queue
  obtain ⟨new', hq', hn'⟩ := h'.queue
  refine ⟨h'.arranged, h.eased.trans h'.eased, new ++ new', by rw [hq', hq, List.append_assoc],
    fun e he => ?_⟩
  exact (List.mem_append.mp he).elim (hn e) (hn' e)

theorem Clears.refl (h : w.Arranged) : Clears bidSide w w := ⟨.refl h, fun _ => rfl⟩

theorem Clears.trans (h : Clears bidSide w w') (h' : Clears bidSide w' w'') : Clears bidSide w w'' :=
  ⟨h.toRelieved.trans h'.toRelieved, fun hf => (h'.aons hf).trans (h.aons hf)⟩

/-- Nothing but the record of calls, the callbacks and the trailing stops changed. -/
theorem Sob.Arranged.of_files {s s' : Sob} (h : s.Arranged) (hf : s'.files = s.files)
    (hq : s'.Quiet) (hw : (s'.lowBuyAon, s'.highBuyAon) = (s.lowBuyAon, s.highBuyAon)) :
    s'.Arranged := by
  have hl := limits_of_files hf
  have ha := aons_of_files hf
  have hs := stops_of_files hf
  have hc := cache_of_files hf
  have hnodup := h.nodup
  simp only [Prod.mk.injEq] at hw
  unfold Sob.limitIds at hnodup
  refine ⟨by rw [ha]; exact h.sells, by rw [hl]; exact h.buys, fun p hp => ?_, hq,
    by rw [hl]; exact h.unconditional, by unfold Sob.limitIds; rwa [hl],
    by rw [ha]; exact h.aonNodup, by rw [hs]; exact h.stopNodup, by rw [hl, hc]; exact h.limits,
    by rw [ha, hc]; exact h.aons, by rw [hs, hc]; exact h.stops⟩
  rw [ha] at hp
  have := h.covered p hp
  unfold Exec.Aon.inWindow at this ⊢
  simpa only [if_true, hw.1, hw.2] using this

theorem wp_level_arranged (h : w.Arranged) (ho : w.limitView.Ordered) :
    wp (tradeAons bidSide p id cb size >>= tradeLimits bidSide p id cb) (fun r w' =>
      Clears bidSide w w' ∧ (r ≠ 0 → w'.limitView.Ordered)) (fun _ _ => False) w := by
  suffices hswept : wp (tradeAons bidSide p id cb size >>= tradeLimits bidSide p id cb)
      (fun _ w' => Clears bidSide w w') (fun _ _ => False) w from
    (hswept.and (wp_level_take (h.ready ho bidSide p))).mono
      (fun _ _ hq => ⟨hq.1, fun h0 => (hq.2.2.2 h0).1⟩) fun _ _ he => he.1
  refine (wp_tradeAons_take (h.covers bidSide)).bind ?_
  rintro n w1 ⟨-, gone1, hhit⟩
  obtain ⟨h1, heased1, hsame1⟩ := h.aonsHit hhit
  have hv : w1.limitView = w.limitView := by
    have hin := hhit.met.inside
    simp only [Prod.mk.injEq] at hin
    obtain ⟨e1, e2, e3, e4, e5⟩ := hin
    unfold Sob.limitView
    rw [hhit.limits, e1, e2, e3, e4, e5]
  have ho1 : w1.limitView.Ordered := hv ▸ ho
  have hside : Exec.Limit.inWindow bidSide w1.toSob p = true → decide (p < w1.ask) = bidSide := by
    have hlt : w1.bid < w1.ask := ho1.bid_lt_ask
    intro hwin
    cases bidSide <;> simp [Exec.Limit.inWindow] at hwin ⊢ <;> omega
  refine (wp_tradeLimits_take (ho1.nonempty p) (h1.nodup p) (h1.unconditional p) (h1.limits p)
    hside).post ?_
  rintro r w2 ⟨-, hlim, gone2, w3, hmet, hsub, hw2⟩
  obtain ⟨gone, hpassed, hgone⟩ : ∃ gone, Passed bidSide p gone w1 w2 ∧
      ∀ i ∈ gone, i ∈ w1.limitIds p := by
    rcases hw2 with rfl | ⟨rfl, -⟩ | rfl
    · exact ⟨[], (Met.refl _).passed, fun i hi => by cases hi⟩
    · exact ⟨gone2, hmet.passed, hsub⟩
    · exact ⟨gone2, hmet.freed, hsub⟩
  obtain ⟨h2, heased2, hsame2⟩ := h1.limitsHit ho1 hlim hpassed hgone
  refine ⟨.of_queue h2 (heased1.trans heased2) (hpassed.queue.trans hhit.met.queue), fun hf => ?_⟩
  rw [hsame2 hf, hsame1 hf]

theorem wp_sweep_arranged {endp n high low : Nat} (h : w.Arranged) (ho : w.limitView.Ordered) :
    wp (sweep bidSide plev endp id cb n p size high low) (fun _ w' => Clears bidSide w w')
      (fun _ _ => False) w := by
  induction n generalizing w p size high low with
  | zero => exact wp_pure (.refl h)
  | succ n ih =>
    unfold sweep
    refine wp_ite (fun _ => ?_) fun _ => wp_pure (.refl h)
    suffices hlevel : wp ((tradeAons bidSide p id cb size >>= tradeLimits bidSide p id cb) >>=
        fun size => do
          let s ← getSob
          let high' := if s.last > high then s.last else high
          let low' := if s.last > high then low else if s.last < low then s.last else low
          sweep bidSide plev endp id cb n (Exec.Core.nextOrJump bidSide s p) size high' low')
        (fun _ w' => Clears bidSide w w') (fun _ _ => False) w by
      rwa [bind_assoc] at hlevel
    refine (wp_level_arranged h ho).bind ?_
    rintro r w1 ⟨h1, ho1⟩
    refine wp_getSob_bind ?_
    by_cases h0 : r = 0
    · rw [h0]
      exact wp_sweep_zero h1
    · exact (ih h1.arranged (ho1 h0)).post fun _ _ h2 => h1.trans h2

/-- Stops that were triggered left the cache with their chain. -/
theorem Sob.Arranged.fired (h : w.Arranged) (hq : w'.Quiet) (hf : FiredAll w w') :
    Clears bidSide w w' := by
  obtain ⟨gone, hf, hgone⟩ := hf
  have hstop : ∀ i ∈ gone, ∃ p, w'.stops p = none ∧ w.idCache i = some ⟨.stop, p⟩ := fun i hi => by
    obtain ⟨p, hp, e, he, rfl⟩ := hgone i hi
    exact ⟨p, hp, h.stops p e he⟩
  have hkept : ∀ i c, w.idCache i = some c → c.type ≠ .stop → w'.idCache i = some c := by
    intro i c hc hty
    rw [hf.cache i, hc]
    intro hi
    obtain ⟨p, -, hp⟩ := hstop i hi
    cases hc.symm.trans hp
    exact hty rfl
  have hwin := hf.window
  simp only [Prod.mk.injEq] at hwin
  have hnodup := h.nodup
  unfold Sob.limitIds at hnodup
  refine ⟨⟨⟨?_, ?_, fun p hp => ?_, hq, ?_, ?_, ?_, fun p => ?_, ?_, ?_, fun p e he => ?_⟩,
    .of_chains hf.limits hf.aons, hf.queue⟩, fun _ => hf.aons⟩
  · rw [hf.aons]
    exact h.sells
  · rw [hf.limits]
    exact h.buys
  · rw [hf.aons] at hp
    have := h.covered p hp
    unfold Exec.Aon.inWindow at this ⊢
    simpa only [if_true, hwin.1, hwin.2] using this
  · rw [hf.limits]
    exact h.unconditional
  · unfold Sob.limitIds
    rwa [hf.limits]
  · rw [hf.aons]
    exact h.aonNodup
  · rcases hf.stops p with hs | hs
    · rw [hs]
      exact h.stopNodup p
    · rw [hs]
      exact List.nodup_nil
  · rw [hf.limits]
    exact fun p b hb => hkept _ _ (h.limits p b hb) (by simp)
  · rw [hf.aons]
    exact fun p b hb => hkept _ _ (h.aons p b hb) (by simp)
  · rcases hf.stops p with hs | hs
    · have hs' := hs
      rw [hs] at he
      rw [hf.cache, h.stops p e he]
      intro hi
      obtain ⟨q, hq, hc⟩ := hstop _ hi
      cases hc.symm.trans (h.stops p e he)
      rw [hs'] at hq
      rw [hq] at he
      cases he
    · rw [hs] at he
      cases he

theorem wp_trade_arranged (h : w.Arranged) (ho : w.limitView.Ordered) :
    wp (trade bidSide plev id size cb) (fun _ w' => Clears bidSide w w') (fun _ _ => False) w := by
  unfold trade
  refine wp_getSob_bind (wp_record_bind ?_)
  refine (wp_sweep_arranged (w := w.log (.tradeCall w.toSob bidSide plev id size))
    (h.of_files rfl ⟨h.quiet.stops, h.quiet.trailing⟩ rfl) ho).bind fun _ w1 h1 => ?_
  have h1 : Clears bidSide w w1 := ⟨⟨h1.arranged, h1.eased, h1.queue⟩, h1.aons⟩
  refine (wp_adjustTrailingStops_rest (Q := fun _ w' => Clears bidSide w w')
    (fun _ _ _ hq => ⟨⟨hq.arranged.of_files rfl
      ⟨hq.arranged.quiet.stops, hq.arranged.quiet.trailing⟩ rfl, hq.eased, hq.queue⟩, hq.aons⟩)
    (fun _ hq => hq.arranged.quiet.trailing) h1).bind fun _ w2 h2 => ?_
  exact (wp_checkForStops_quiet h2.arranged.quiet).bind fun _ w3 h3 =>
    wp_pure (h2.trans (h2.arranged.fired h3.1 h3.2))

end Trade

/-! ## What the look-ahead of a buy counts -/

theorem takeOrders_plain {es : List (Nat × Bool)} {n : Nat} (h : ∀ e ∈ es, e.2 = false) :
    takeOrders es n = n - (es.map Prod.fst).sum := by
  induction es generalizing n with
  | nil => rfl
  | cons e es ih =>
    obtain ⟨sz, isAon⟩ := e
    obtain rfl : isAon = false := h _ List.mem_cons_self
    simp only [takeOrders, Bool.false_eq_true, false_and, if_false, List.map_cons, List.sum_cons]
    rw [ih fun e he => h e (List.mem_cons_of_mem _ he), Nat.sub_sub]

namespace Sob.Arranged
variable {s : Sob} {p q n : Nat}

theorem fillableAt_sells (h : s.Arranged) (ho : s.limitView.Ordered) (q : Nat) :
    ((fillableAt false s q).map Prod.fst).sum = Chain.sells (s.limits q).elems ∧
      ∀ e ∈ fillableAt false s q, e.2 = false := by
  -- the limit chain of a level is all sells, or all buys
  have hsells : ∀ l : List LimitBndl, (∀ b ∈ l, b.side = false) →
      ((l.map fun b : LimitBndl => (b.sz, b.isAON)).map Prod.fst).sum = Chain.sells l := by
    intro l hl
    induction l with
    | nil => rfl
    | cons b l ih =>
      rw [Chain.sells_cons, hl b List.mem_cons_self, List.map_cons, List.map_cons, List.sum_cons,
        ih fun x hx => hl x (List.mem_cons_of_mem _ hx)]
      rfl
  have hbuys : ∀ l : List LimitBndl, (∀ b ∈ l, b.side = true) → Chain.sells l = 0 := by
    intro l hl
    induction l with
    | nil => rfl
    | cons b l ih =>
      rw [Chain.sells_cons, hl b List.mem_cons_self, ih fun x hx => hl x (List.mem_cons_of_mem _ hx)]
      rfl
  have hside : ∀ b ∈ (s.limits q).elems, if b.side then q ≤ s.bid else s.ask ≤ q := ho.side q
  have hlt : s.bid < s.ask := ho.bid_lt_ask
  unfold fillableAt
  rw [h.sells q]
  by_cases hnone : s.limits q = none
  · rw [hnone]
    simp
  rw [ho.inWindow hnone]
  by_cases hq : s.bid < q
  · have hsell : ∀ b ∈ (s.limits q).elems, b.side = false := fun b hb => by
      by_contra hs
      have := hside b hb
      rw [if_pos (by simpa using hs)] at this
      omega
    simp only [Bool.false_eq_true, if_false, hq, decide_true, if_true, ChainManager.elems_none,
      List.map_nil, List.nil_append]
    refine ⟨hsells _ hsell, fun e he => ?_⟩
    obtain ⟨b, hb, rfl⟩ := List.mem_map.mp he
    by_contra hA
    have := h.buys q b hb (by simpa using hA)
    rw [hsell b hb] at this
    cases this
  · have hbuy : ∀ b ∈ (s.limits q).elems, b.side = true := fun b hb => by
      by_contra hs
      have := hside b hb
      rw [if_neg hs] at this
      omega
    simp [hq, hbuys _ hbuy]

/-- A buy at level `p` meets the sells at `p` and below, all of them. -/
theorem takeOrders_sells (h : s.Arranged) (ho : s.limitView.Ordered) (hp : 0 < p) :
    takeOrders (s.scanned false p) n = n - s.sellsTo p := by
  unfold Sob.scanned
  have hscan : Exec.Core.scan false 0 p = List.range (p + 1) := by
    simp [Exec.Core.scan, Exec.Core.distance]
  have hall : (Exec.Core.levels false s p).flatMap (fillableAt false s) =
      (List.range (p + 1)).flatMap (fillableAt false s) := by
    rw [Exec.Core.levels_eq_scan, ← hscan]
    refine (Exec.Core.flatMap_scan_skip hp (by simp [Exec.Core.insideOf]) fun q _ hq _ => ?_).symm
    exact fillableAt_of_outside h.coversSells (.inl hq)
  rw [hall, takeOrders_plain fun e he => ?_]
  · unfold Sob.sellsTo
    rw [List.map_flatMap, List.flatMap_def, List.sum_flatten, List.map_map]
    congr 2
    exact List.map_congr_left fun q _ => (h.fillableAt_sells ho q).1
  · obtain ⟨q, -, hq⟩ := List.mem_flatMap.mp he
    exact (h.fillableAt_sells ho q).2 e hq

/-- Without an overflow the look-ahead of a buy says no exactly if the sells are too few. -/
theorem limitIsFillable_sells (h : s.Arranged) (ho : s.limitView.Ordered) (hp : 0 < p)
    (hc : Counts n (s.scanned false p)) :
    (limitIsFillable true s p n false).1 = true ↔ n ≤ s.sellsTo p := by
  have hyes := hc.1
  rw [h.takeOrders_sells ho hp] at hyes
  exact hyes.trans Nat.sub_eq_zero_iff_le

/-- Sells that are too few cannot overflow the total of a look-ahead, which counts them all. -/
theorem limitIsFillable_few (h : s.Arranged) (ho : s.limitView.Ordered) (hp : 0 < p)
    (hn : n < 2 ^ 64) (hfew : s.sellsTo p < n) :
    limitIsFillable true s p n false = (false, s.sellsTo p) := by
  have hpos : 0 < n := by omega
  have hleft : takeOrders (s.scanned false p) n = n - s.sellsTo p := h.takeOrders_sells ho hp
  have hc : Counts n (s.scanned false p) := counts_of_not_overflows hpos hn fun front e back heq hover => by
    rw [heq, hover.takeOrders_eq_zero hn back] at hleft
    omega
  have hno : (limitIsFillable true s p n false).1 = false := Bool.eq_false_iff.mpr fun hyes => by
    have := (h.limitIsFillable_sells ho hp hc).mp hyes
    omega
  have hle : (limitIsFillable true s p n false).2 = s.sellsTo p := by
    have hcount : takeOrders (s.scanned false p) n = n - (limitIsFillable true s p n false).2 := hc.2 hno
    omega
  exact Prod.ext hno hle

end Sob.Arranged

end SimpleOrderbook
