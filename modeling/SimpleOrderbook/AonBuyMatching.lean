import SimpleOrderbook.AonBuyPulls
import SimpleOrderbook.Refinement

/-!
# New orders around all-or-none buys

A new sell is matched against the all-or-none buys before it trades and after it came to rest. The
first match may pass one over, the second goes over every AON at the level of the sell and above, from
the farthest inwards, and fills each that the sells cover.

## Main definitions

* `Sob.Uncovered` — no resting all-or-none buy could be filled.
* `Accepts` — what the insertion of an order may do.
-/
namespace SimpleOrderbook

open Hoare

/-! ## All-or-none matching -/

/-- No resting AON buy could be filled, and its size is one of a `size_t`. -/
def Sob.Uncovered (s : Sob) : Prop := ∀ p b, s.RestsAon p b → s.sellsTo p < b.sz ∧ b.sz < 2 ^ 64

theorem Eased.uncovered {s s' : Sob} (h : Eased s s') (hs : s.Uncovered) : s'.Uncovered :=
  fun p b hb => ⟨(h.sellsTo_le p).trans_lt (hs p b (h.rests p b hb)).1, (hs p b (h.rests p b hb)).2⟩

/-- A look-ahead whose total overflows. -/
def Event.Overflowing : Event → Prop
  | .lookAhead s isBuy p sz _ =>
    ∃ front e back, s.scanned (!isBuy) p = front ++ e :: back ∧ Overflows sz front e
  | _ => False

/-- The total of a look-ahead overflowed. -/
abbrev World.Overflowed : World → Prop := World.Recorded Event.Overflowing

/-- What a look-ahead meets is the size of a `size_t`. -/
def Event.fits : Event → Bool
  | .lookAhead s isBuy p _ _ => ((s.scanned (!isBuy) p).map Prod.fst).sum < 2 ^ 64
  | _ => true

theorem World.not_overflowed {w : World} (h : w.trace.all Event.fits = true) : ¬ w.Overflowed := by
  rintro ⟨ev, hev, hover⟩
  have hfits := List.all_eq_true.mp h ev hev
  cases ev with
  | lookAhead s isBuy p sz rmndr =>
    obtain ⟨front, e, back, heq, hover⟩ := hover
    exact not_overflows_of_sum (of_decide_eq_true hfits) heq hover
  | _ => exact hover

/-- The AON buy `b` was taken out of its chain. -/
structure Taken (b : AonBndl) (w w' : World) : Prop extends Relieved w w' where
  gone : ∀ q x, w'.RestsAon q x → x.id ≠ b.id
  others : ∀ q, ∀ x ∈ (w.aons true q).elems, x.id ≠ b.id → x ∈ (w'.aons true q).elems

section Matching
variable {c₀ : Config} {F : Flight} {w w' w'' : World} {p : Nat} {b : AonBndl}

theorem Taken.clears (h : Taken b w w') (h' : Clears false w' w'') : Taken b w w'' :=
  ⟨h.toRelieved.trans h'.toRelieved, fun q x hx => h.gone q x (h'.eased.rests q x hx),
    fun q x hx hid => by rw [h'.aons rfl]; exact h.others q x hx hid⟩

theorem Taken.relieved (h : Taken b w w') (h' : Relieved w' w'') (ha : w''.aons = w'.aons) :
    Taken b w w'' :=
  ⟨h.toRelieved.trans h', fun q x hx => h.gone q x (h'.eased.rests q x hx),
    fun q x hx hid => by rw [ha]; exact h.others q x hx hid⟩

theorem Sob.Arranged.taken (h : w.Arranged) (hb : b ∈ (w.aons true p).elems) :
    Taken b w ((w.log (.popAon w.toSob true p b.id)).onSob (·.erasedAon true p b.id)) := by
  have hc := h.aons p b hb
  obtain ⟨h1, heased⟩ := h.erasedAon hc
  have hbv := bookView_erasedAon w.toSob true p b.id
  refine ⟨.of_queue h1 heased (congrArg (·.2.2.1) hbv), fun q x hx hid => ?_, fun q x hx hid => ?_⟩
  · -- an order that rests keeps its cache entry, and `b` lost its own
    have hnone : (w.erasedAon true p b.id).idCache x.id = none :=
      (idCache_erasedAon ..).trans (if_pos hid)
    rcases hx with ⟨buys, hx⟩ | ⟨hx, -⟩
    · cases buys with
      | false =>
        have hx : x ∈ ((w.erasedAon true p b.id).aons false q).elems := hx
        rw [h1.sells] at hx
        cases hx
      | true => cases hnone.symm.trans (h1.aons q x hx)
    · cases hnone.symm.trans (h1.limits q x hx)
  · rw [World.toSob_onSob, aons_erasedAon]
    split
    next hq =>
      obtain ⟨rfl, -⟩ := hq
      rw [ChainManager.elems_ofList]
      exact (List.mem_eraseP_of_neg (by simpa using hid)).mpr hx
    next => exact hx

theorem Steps.popAonBuy (h : Steps c₀ (F, w)) (hF : F.Calm) (ha : w.Arranged)
    (hb : b ∈ (w.aons true p).elems) :
    wp (Chain.aonPop b.id) (fun x w' => b = x ∧ Steps c₀ (F.hold b.id b.sz, w') ∧ Taken b w w' ∧
      w'.limits = w.limits) (fun _ _ => False) w := by
  refine ((wp_aonPop_arranged ha (ha.aons p b hb)).and (h.aonPop hF b.id)).mono ?_
    fun _ _ he => he.1.2 b hb rfl
  rintro x _ ⟨⟨hx, hid, rfl⟩, hs⟩
  obtain rfl : x = b := List.inj_on_of_nodup_map (ha.aonNodup p) hx hb hid
  exact ⟨rfl, hs, ha.taken hb, limits_of_bookView (bookView_erasedAon w.toSob true p x.id)⟩

/-- A buy that is swept against the asks is left with what the sells do not fill. -/
theorem Steps.tradeBuy (h0 : WellFormed c₀) {id size : Nat} (cb : OrderExecCbBndl)
    (h : Steps c₀ (F.hold id size, w)) (hF : F.Calm) (hcur : F.cur ≠ none) (ha : w.Arranged)
    (hp : 0 < p) (hpe : p < w.end_) :
    wp (SimpleOrderbook.trade false p id size cb) (fun r w' => r = size - w.sellsTo p ∧
      Steps c₀ (F.hold id r, w') ∧ Clears false w w' ∧ (r ≠ 0 → ¬ OnSide false w'.toSob p)) (fun _ _ => False) w := by
  have ho : w.limitView.Ordered := ((h.wellFormed h0).ambient.limitInv (F := F.hold id size) hF.gap).toOrdered
  refine (((wp_trade_take (ha.scannable ho) hp).and (wp_trade_arranged ha ho)).and
    (Steps.trade h0 cb h hF hcur hp hpe)).mono ?_ fun _ _ he => he.1.1
  rintro r w' ⟨⟨hr, hcl⟩, hs, -, hoff⟩
  exact ⟨hr.trans (ha.takeOrders_sells ho hp), hs, hcl, hoff⟩

theorem Steps.lookAhead_arranged {isBuy : Bool} {q sz rmndr : Nat} {E : Err → World → Prop}
    (h : Steps c₀ (F, w)) (ha : w.Arranged) : wp (lookAhead isBuy q sz false rmndr) (fun r w' =>
      r = limitIsFillable isBuy w'.toSob q sz false ∧ w'.toSob = w.toSob ∧ Steps c₀ (F, w') ∧
      Relieved w w' ∧ .lookAhead w'.toSob isBuy q sz rmndr ∈ w'.trace) E w :=
  wp_lookAhead ⟨rfl, rfl, h.step (.act (.look ..)), .log ha _, List.mem_cons_self⟩

/-- The pre-match of a sell: the order has more than an AON lacks, or the AON is passed over. What it
lacks is counted right, because the sells alone do not fill it. -/
theorem Steps.matchAonsPre_arranged (h0 : WellFormed c₀) (hF : F.Calm) (hcur : F.cur ≠ none)
    {e : OrderQueueElem} (hA : e.isAON = false) {p : Nat} (hp : c₀.2.HasLevel p) (l : List (Nat × AonBndl))
    (hl : ∀ x ∈ l, 0 < x.1 ∧ x.1 < c₀.2.end_) (hn : (l.map fun x => x.2.id).Nodup) :
    ∀ {w : World} {rmndr : Nat}, Steps c₀ (F.hold e.id rmndr, w) → w.Arranged → w.Uncovered →
      (∀ x ∈ l, x.2 ∈ (w.aons true x.1).elems) →
      wp (SimpleOrderbook.matchAonsPre false e p l rmndr)
        (fun r w' => Steps c₀ (F.hold e.id r, w') ∧ Relieved w w') (fun _ _ => False) w := by
  induction l with
  | nil => exact fun h ha _ _ => wp_pure ⟨h, .refl ha⟩
  | cons x rest ih =>
    intro w rmndr h ha hunc hmem
    obtain ⟨paon, aon⟩ := x
    obtain ⟨hpos, hlt⟩ : 0 < paon ∧ paon < c₀.2.end_ := hl _ List.mem_cons_self
    rw [List.map_cons, List.nodup_cons] at hn
    have ih := @ih (fun x hx => hl x (List.mem_cons_of_mem _ hx)) hn.2
    have hb : aon ∈ (w.aons true paon).elems := hmem _ List.mem_cons_self
    obtain ⟨hsells, hfit⟩ := hunc paon aon (.inl ⟨true, hb⟩)
    unfold SimpleOrderbook.matchAonsPre
    refine (h.lookAhead_arranged ha).bind ?_
    rintro _ w0 ⟨rfl, hs, h, hlog, -⟩
    have ha := hlog.arranged
    rw [← hs] at hunc hmem hb hsells
    have ho : w0.limitView.Ordered :=
      ((h.wellFormed h0).ambient.limitInv (F := F.hold e.id rmndr) hF.gap).toOrdered
    have hlook := ha.limitIsFillable_few ho hpos hfit hsells
    refine wp.post (Q := fun r w' => Steps c₀ (F.hold e.id r, w') ∧ Relieved w0 w') ?_
      fun _ _ hq => ⟨hq.1, hlog.trans hq.2⟩
    refine wp_ite (fun hcond => ?_) fun _ =>
      ih h ha hunc fun x hx => hmem x (List.mem_cons_of_mem _ hx)
    have hmore : aon.sz < rmndr + w0.sellsTo paon := by
      refine lt_of_lt_of_le ?_ (asSize_le _)
      simpa only [Bool.not_false, hlook, hA, Bool.false_eq_true, false_and, false_or,
        not_false_eq_true, true_and] using hcond
    refine (h.popAonBuy (hF.hold e.id rmndr) ha hb).bind ?_
    rintro _ w1 ⟨rfl, h1, ht, hlim⟩
    have hsame : w1.sellsTo paon = w0.sellsTo paon := Sob.sellsTo_congr fun q _ => by rw [hlim]
    have hend : w1.end_ = c₀.2.end_ := congrArg Prod.snd h1.grid_eq
    refine (h1.tradeBuy h0 aon.cb (hF.hold e.id rmndr) hcur ht.arranged hpos (hend ▸ hlt)).bind ?_
    rintro r w2 ⟨hr, h2, hcl, -⟩
    have hle : r ≤ rmndr := by omega
    have ht2 := ht.clears hcl
    refine wp_ite (fun hbig => absurd hbig (by omega)) fun _ => ?_
    dsimp only
    rw [Nat.min_eq_left hle]
    have hprint : wp (preTradePrint p r aon e) (fun _ w' => Steps c₀ (F.hold e.id (rmndr - r), w') ∧
        Taken aon w0 w') (fun _ _ => False) w2 := by
      unfold preTradePrint
      refine wp_ite (fun hpos => wp_getSob_bind (wp_record_bind (wp_tradeHasOccured ⟨?_, ?_⟩)))
        fun hz => wp_pure ⟨?_, ht2⟩
      · have hend2 : w2.end_ = c₀.2.end_ := congrArg Prod.snd h2.grid_eq
        have h3 := h2.step (.print p aon.id e.id r rmndr r aon.cb e.cb F.hands rfl hpos le_rfl hle
          ⟨hp.1, hp.2.trans_eq hend2.symm⟩)
        rw [Nat.sub_self] at h3
        exact h3.step (.act (.drop aon.id ((e.id, rmndr - r) :: F.hands) rfl))
      · have hlog := Relieved.log ht2.arranged (.preTradePrint w2.toSob p)
        refine ht2.relieved (hlog.trans (.traded hlog.arranged r aon.id e.id aon.cb e.cb)) ?_
        exact aons_of_files (files_traded ..)
      · obtain rfl : r = 0 := by omega
        exact h2.step (.act (.drop aon.id ((e.id, rmndr) :: F.hands) rfl))
    refine hprint.bind fun _ w3 h3 => ?_
    obtain ⟨h3, ht3⟩ := h3
    refine wp_ite (fun hz => wp_pure ⟨?_, ht3.toRelieved⟩) fun _ => ?_
    · rwa [hz] at h3
    · refine (ih h3 ht3.arranged (ht3.eased.uncovered hunc) fun x hx => ?_).post
        fun r' w' h4 => ⟨h4.1, ht3.toRelieved.trans h4.2⟩
      refine ht3.others _ _ (hmem x (List.mem_cons_of_mem _ hx)) fun hid => hn.1 ?_
      rw [← hid]
      exact List.mem_map_of_mem hx

/-- Without an overflow the look-ahead of a buy says no exactly if the sells are too few. -/
theorem Sob.Arranged.fillable_iff {q sz rmndr : Nat} (ha : w.Arranged) (ho : w.limitView.Ordered)
    (hq : 0 < q) (hpos : 0 < sz) (hsz : sz < 2 ^ 64)
    (h : ¬ Event.Overflowing (.lookAhead w.toSob true q sz rmndr)) :
    (limitIsFillable true w.toSob q sz false).1 = true ↔ sz ≤ w.sellsTo q :=
  ha.limitIsFillable_sells ho hq (counts_of_not_overflows hpos hsz fun front e back heq hover =>
    h ⟨front, e, back, heq, hover⟩)

/-- The post-match of a sell that came to rest: an AON that can be filled is filled in full, and the
others cannot be filled any more by what the sells lose to it. -/
theorem Steps.matchAonsPost_arranged (h0 : WellFormed c₀) (hF : F.Calm) (hcur : F.cur ≠ none)
    (l : List (Nat × AonBndl))
    (hl : ∀ x ∈ l, 0 < x.1 ∧ x.1 < c₀.2.end_ ∧ 0 < x.2.sz) (hn : (l.map fun x => x.2.id).Nodup) :
    ∀ {w : World}, Steps c₀ (F, w) → w.Arranged → (∀ x ∈ l, x.2 ∈ (w.aons true x.1).elems) →
      (∀ q b, w.RestsAon q b → (w.sellsTo q < b.sz ∨ (q, b) ∈ l) ∧ b.sz < 2 ^ 64) →
      Unless World.Overflowed (SimpleOrderbook.matchAonsPost false l)
        (fun _ w' => Relieved w w' ∧ w'.Uncovered) (fun _ _ => False) w := by
  induction l with
  | nil =>
    exact fun _ ha _ hopen => .of_wp (wp_pure ⟨.refl ha, fun q b hb =>
      (hopen q b hb).imp_left fun h => h.resolve_right List.not_mem_nil⟩)
  | cons x rest ih =>
    intro w h ha hmem hopen
    obtain ⟨q, aon⟩ := x
    obtain ⟨hpos, hlt, hsz⟩ : 0 < q ∧ q < c₀.2.end_ ∧ 0 < aon.sz := hl _ List.mem_cons_self
    rw [List.map_cons, List.nodup_cons] at hn
    have ih := @ih (fun x hx => hl x (List.mem_cons_of_mem _ hx)) hn.2
    have hb : aon ∈ (w.aons true q).elems := hmem _ List.mem_cons_self
    unfold SimpleOrderbook.matchAonsPost
    refine wp.bind (h.lookAhead_arranged ha) ?_
    rintro _ w0 ⟨rfl, hs, h, hlog, hrec⟩
    have ha := hlog.arranged
    rw [← hs] at hopen hmem hb
    by_cases hover : Event.Overflowing (.lookAhead w0.toSob true q aon.sz 0)
    · exact Unless.of_bad (Grows.keeps (.ite (.bind (records_aonPop _) fun _ => .bind (grows_trade ..)
        fun _ => .ite (.throw _) (grows_matchAonsPost ..)) (grows_matchAonsPost ..))) ⟨_, hrec, hover⟩
    have ho : w0.limitView.Ordered := ((h.wellFormed h0).ambient.limitInv hF.gap).toOrdered
    have hyes := ha.fillable_iff ho hpos hsz (hopen q aon (.inl ⟨true, hb⟩)).2 hover
    refine Unless.post (Q := fun _ w' => Relieved w0 w' ∧ w'.Uncovered) ?_
      fun _ _ hq => ⟨hlog.trans hq.1, hq.2⟩
    refine wp_ite (fun hcond => ?_) fun hcond => ?_
    · have hfill : aon.sz ≤ w0.sellsTo q := hyes.mp hcond
      refine (h.popAonBuy hF ha hb).returns.bind ?_
      rintro _ w1 ⟨rfl, h1, ht, hlim⟩
      have hsame : w1.sellsTo q = w0.sellsTo q := Sob.sellsTo_congr fun q _ => by rw [hlim]
      have hend : w1.end_ = c₀.2.end_ := congrArg Prod.snd h1.grid_eq
      refine (h1.tradeBuy h0 aon.cb hF hcur ht.arranged hpos (hend ▸ hlt)).returns.bind ?_
      rintro r w2 ⟨hr, h2, hcl, -⟩
      obtain rfl : r = 0 := by omega
      have ht2 := ht.clears hcl
      refine wp_ite (fun hne => absurd rfl hne) fun _ => ?_
      refine Unless.post (ih (h2.step (.act (.drop aon.id F.hands rfl))) ht2.arranged (fun x hx => ?_)
        fun q' b hb' => ?_) fun _ w' h3 => ⟨ht2.toRelieved.trans h3.1, h3.2⟩
      · refine ht2.others _ _ (hmem x (List.mem_cons_of_mem _ hx)) fun hid => hn.1 ?_
        rw [← hid]
        exact List.mem_map_of_mem hx
      · refine (hopen q' b (ht2.eased.rests q' b hb')).imp_left fun h => h.imp
          (fun hlt => (ht2.eased.sellsTo_le q').trans_lt hlt) fun hin => ?_
        rcases List.mem_cons.mp hin with heq | hin
        · cases heq
          exact absurd rfl (ht2.gone q aon hb')
        · exact hin
    · have hfew : w0.sellsTo q < aon.sz := not_le.mp fun hle => hcond (hyes.mpr hle)
      refine ih h ha (fun x hx => hmem x (List.mem_cons_of_mem _ hx)) fun q' b hb' => ?_
      obtain ⟨hlt | hin, hfit⟩ := hopen q' b hb'
      · exact ⟨.inl hlt, hfit⟩
      · rcases List.mem_cons.mp hin with heq | hin
        · cases heq
          exact ⟨.inl hfew, hfit⟩
        · exact ⟨.inr hin, hfit⟩

end Matching

/-! ## Orders that come to rest -/

/-- A chain stays as it is, or order `id` with cache entry `c` is pushed on it. -/
def Gains {α : Type} (ident : α → Nat) (P : α → Prop) (id : Nat) (here : Prop) (l l' : List α) : Prop :=
  l' = l ∨ here ∧ ∃ x, l' = l ++ [x] ∧ ident x = id ∧ P x

section Gains
variable {α : Type} {ident : α → Nat} {P : α → Prop} {id : Nat} {here : Prop} {l l' : List α}

theorem Gains.mem (h : Gains ident P id here l l') {x : α} (hx : x ∈ l') :
    x ∈ l ∨ here ∧ ident x = id ∧ P x := by
  rcases h with rfl | ⟨hh, y, rfl, hid, hy⟩
  · exact .inl hx
  · rcases List.mem_append.mp hx with hx | hx
    · exact .inl hx
    · obtain rfl := List.mem_singleton.mp hx
      exact .inr ⟨hh, hid, hy⟩

theorem Gains.nodup (h : Gains ident P id here l l') (hn : (l.map ident).Nodup)
    (hnew : ∀ x ∈ l, ident x ≠ id) : (l'.map ident).Nodup := by
  rcases h with rfl | ⟨-, y, rfl, rfl, -⟩
  · exact hn
  · rw [List.map_append, List.nodup_append]
    refine ⟨hn, by simp, fun i hi j hj => ?_⟩
    obtain ⟨x, hx, rfl⟩ := List.mem_map.mp hi
    obtain rfl := List.mem_singleton.mp hj
    exact hnew x hx

end Gains

namespace Sob.Arranged
variable {s s' : Sob} {p id : Nat} {c : ChainIterWrap}

/-- Order `id`, which is new, is pushed on a chain. -/
theorem gained (h : s.Arranged) (hid : s.idCache id = none) (hself : s'.idCache id = some c)
    (hc : ∀ j, j ≠ id → s'.idCache j = s.idCache j)
    (hl : ∀ q, Gains (·.id) (fun b : LimitBndl => b.Unconditional ∧ (b.isAON = true → b.side = true)) id
      (c = ⟨.limit, q⟩) (s.limits q).elems (s'.limits q).elems)
    (ha : ∀ q, Gains (·.id) (fun _ : AonBndl => True) id (c = ⟨.aonBuy, q⟩) (s.aons true q).elems
      (s'.aons true q).elems)
    (hs : ∀ q, Gains (·.id) (fun e : StopBndl => e.Unconditional) id (c = ⟨.stop, q⟩) (s.stops q).elems
      (s'.stops q).elems)
    (hsells : ∀ q, s'.aons false q = none) (hcov : s'.AonsCovered true)
    (ht : (s'.trailingBuyStops, s'.trailingSellStops) = (s.trailingBuyStops, s.trailingSellStops)) :
    s'.Arranged := by
  simp only [Prod.mk.injEq] at ht
  have hne : ∀ {j d}, s.idCache j = some d → j ≠ id := fun hj heq => by
    rw [heq, hid] at hj
    cases hj
  have hold : ∀ {j d}, s.idCache j = some d → s'.idCache j = some d := fun hj => by
    rw [hc _ (hne hj), hj]
  refine ⟨hsells, fun q b hb => ?_, hcov, ⟨fun q e he => ?_, by rw [ht.1, ht.2]; exact h.quiet.trailing⟩,
    fun q b hb => ?_, fun q => (hl q).nodup (h.nodup q) fun b hb => hne (h.limits q b hb),
    fun q => (ha q).nodup (h.aonNodup q) fun b hb => hne (h.aons q b hb),
    fun q => (hs q).nodup (h.stopNodup q) fun e he => hne (h.stops q e he), fun q b hb => ?_,
    fun q b hb => ?_, fun q e he => ?_⟩
  · exact ((hl q).mem hb).elim (h.buys q b) fun hb => hb.2.2.2
  · exact ((hs q).mem he).elim (h.quiet.stops q e) fun he => he.2.2
  · exact ((hl q).mem hb).elim (h.unconditional q b) fun hb => hb.2.2.1
  · rcases (hl q).mem hb with hb | ⟨rfl, rfl, -⟩
    · exact hold (h.limits q b hb)
    · exact hself
  · rcases (ha q).mem hb with hb | ⟨rfl, rfl, -⟩
    · exact hold (h.aons q b hb)
    · exact hself
  · rcases (hs q).mem he with he | ⟨rfl, rfl, -⟩
    · exact hold (h.stops q e he)
    · exact hself

theorem limitPush (h : s.Arranged) {buy : Bool} {b : LimitBndl} (hid : s.idCache b.id = none)
    (hb : b.Unconditional) (hA : b.isAON = true → b.side = true) :
    (Chain.limitPush buy s p b).Arranged := by
  have hothers := others_limitPush s buy p b
  simp only [Sob.others, Prod.mk.injEq] at hothers
  obtain ⟨-, -, haons, hstops, -, ⟨hw1, hw2, -, -⟩, ht, -⟩ := hothers
  refine h.gained hid (idCache_limitPush_self hid) (fun j hj => idCache_limitPush s buy p b hj)
    (fun q => ?_) (fun q => .inl (by rw [haons])) (fun q => .inl (by rw [hstops]))
    (fun q => by rw [haons]; exact h.sells q) (fun q hq => ?_) (by rw [ht.1, ht.2])
  · rw [limits_limitPush]
    split
    next hq =>
      subst hq
      exact .inr ⟨rfl, b, ChainManager.elems_push _ _, rfl, hb, hA⟩
    next => exact .inl rfl
  · rw [haons] at hq
    have := h.covered q hq
    unfold Exec.Aon.inWindow at this ⊢
    simpa only [if_true, hw1, hw2] using this

theorem aons_aonPush (s : Sob) (buy : Bool) (p : Nat) (b : AonBndl) (buys : Bool) (q : Nat) :
    (Chain.aonPush buy s p b).aons buys q =
      if q = p ∧ buys = buy then (s.aons buy p).push b else s.aons buys q := by
  unfold Chain.aonPush
  rw [aons_of_files (Exec.Aon.files_adjustStateAfterInsert _ _ _), Sob.aons_cacheEmplace,
    Sob.aons_setAons]

theorem aonPush (h : s.Arranged) {b : AonBndl} (hid : s.idCache b.id = none) :
    (Chain.aonPush true s p b).Arranged := by
  let s1 := (s.setAons true p ((s.aons true p).push b)).cacheEmplace b.id ⟨.aonBuy, p⟩
  obtain ⟨_, h1⟩ := (s.setAons true p ((s.aons true p).push b)).cacheEmplace_eq b.id ⟨.aonBuy, p⟩
  have hlimits : (Chain.aonPush true s p b).limits = s.limits :=
    limits_of_bookView (bookView_aonPush s true p b)
  have hself : (Chain.aonPush true s p b).idCache b.id = some ⟨.aonBuy, p⟩ :=
    idCache_aonPush_self hid
  have hpush : Chain.aonPush true s p b = Exec.Aon.adjustStateAfterInsert true s1 p := rfl
  refine h.gained hid hself (fun j hj => idCache_aonPush s true p b hj)
    (fun q => .inl (by rw [hlimits])) (fun q => ?_) (fun q => .inl ?_) (fun q => ?_) (fun q hq => ?_) ?_
  · rw [aons_aonPush]
    split
    next hq =>
      obtain ⟨rfl, -⟩ := hq
      exact .inr ⟨rfl, b, ChainManager.elems_push _ _, rfl, trivial⟩
    next => exact .inl rfl
  · unfold Chain.aonPush
    rw [stops_of_files (Exec.Aon.files_adjustStateAfterInsert _ _ _), Sob.stops_cacheEmplace,
      Sob.stops_setAons]
  · rw [aons_aonPush, if_neg (by simp)]
    exact h.sells q
  · have hwin : q = p ∨ s.lowBuyAon ≤ q ∧ q ≤ s.highBuyAon := by
      by_cases hqp : q = p
      · exact .inl hqp
      · rw [aons_aonPush, if_neg fun hh => hqp hh.1] at hq
        exact .inr (by simpa [Exec.Aon.inWindow] using h.covered q hq)
    rw [hpush, show s1 = _ from h1]
    simp only [Exec.Aon.adjustStateAfterInsert, Exec.Aon.inWindow, if_true, decide_eq_true_eq]
    change min p s.lowBuyAon ≤ q ∧ q ≤ max p s.highBuyAon
    omega
  · rw [hpush, show s1 = _ from h1]
    rfl

theorem stopPush (h : s.Arranged) {e : StopBndl} (hid : s.idCache e.id = none)
    (he : e.Unconditional) : (Chain.stopPush s p e).Arranged ∧ Eased s (Chain.stopPush s p e) := by
  have hlimits := limits_stopPush s p e
  have hfiles := Exec.Stop.files_adjustStateAfterInsert e.isBuy
    ((s.setStops p ((s.stops p).push e)).cacheEmplace e.id ⟨.stop, p⟩) p
  have haons : (Chain.stopPush s p e).aons = s.aons := by
    unfold Chain.stopPush
    rw [aons_of_files hfiles]
    funext buys q
    rw [Sob.aons_cacheEmplace, Sob.aons_setStops]
  obtain ⟨_, h1⟩ := (s.setStops p ((s.stops p).push e)).cacheEmplace_eq e.id ⟨.stop, p⟩
  refine ⟨h.gained hid (idCache_stopPush_self p hid) (fun j hj => idCache_stopPush s p e hj)
    (fun q => .inl (by rw [hlimits])) (fun q => .inl (by rw [haons])) (fun q => ?_)
    (fun q => by rw [haons]; exact h.sells q) (fun q hq => ?_) ?_, .of_chains hlimits haons⟩
  · unfold Chain.stopPush
    rw [stops_of_files hfiles, Sob.stops_cacheEmplace, Sob.stops_setStops]
    split
    next hq =>
      subst hq
      exact .inr ⟨rfl, e, ChainManager.elems_push _ _, rfl, he⟩
    next => exact .inl rfl
  · rw [haons] at hq
    have := h.covered q hq
    unfold Chain.stopPush
    simp only [h1, Exec.Stop.adjustStateAfterInsert]
    cases e.isBuy <;> exact this
  · unfold Chain.stopPush
    simp only [h1, Exec.Stop.adjustStateAfterInsert]
    cases e.isBuy <;> rfl

end Sob.Arranged

/-! ## The AONs a match goes over -/

section Overlapping
variable {s : Sob} {p q : Nat} {b : AonBndl}

theorem Sob.Arranged.overlapping_sells (h : s.Arranged) : Exec.Aon.overlapping false s p = [] := by
  unfold Exec.Aon.overlapping
  refine List.flatMap_eq_nil_iff.mpr fun q _ => ?_
  rw [h.sells q]
  rfl

theorem Sob.Arranged.mem_overlapping (h : s.Arranged) :
    (q, b) ∈ Exec.Aon.overlapping true s p ↔ p ≤ q ∧ b ∈ (s.aons true q).elems := by
  unfold Exec.Aon.overlapping Exec.Aon.overlapping.distance
  simp only [if_true, List.mem_flatMap, List.mem_map, List.mem_range]
  constructor
  · rintro ⟨_, ⟨i, -, rfl⟩, b', hb, heq⟩
    cases heq
    exact ⟨Nat.le_add_right p i, hb⟩
  · rintro ⟨hpq, hb⟩
    have hwin := h.covered q fun hn => by rw [hn] at hb; cases hb
    simp only [Exec.Aon.inWindow, if_true, decide_eq_true_eq] at hwin
    exact ⟨q, ⟨q - p, by omega, by omega⟩, b, hb, rfl⟩

theorem Sob.Arranged.nodup_overlapping (h : s.Arranged) :
    ((Exec.Aon.overlapping true s p).map fun x => x.2.id).Nodup := by
  unfold Exec.Aon.overlapping
  simp only [if_true]
  rw [List.map_flatMap, List.nodup_flatMap]
  refine ⟨fun q _ => ?_, ?_⟩
  · rw [List.map_map]
    exact h.aonNodup q
  · -- an order is cached at its level
    rw [List.pairwise_map]
    refine (List.nodup_range).imp fun {i j} hij => List.disjoint_left.mpr fun id hi hj => hij ?_
    simp only [List.map_map] at hi hj
    obtain ⟨x, hx, rfl⟩ := List.mem_map.mp hi
    obtain ⟨y, hy, hid⟩ := List.mem_map.mp hj
    have hcx := h.aons _ x hx
    have hcy := h.aons _ y hy
    simp only [Function.comp_apply] at hid
    rw [hid, hcx] at hcy
    have hlevel : p + i = p + j := congrArg ChainIterWrap.p (Option.some.inj hcy)
    omega

end Overlapping

/-! ## Basic orders -/

theorem Steps.fresh {c c' : Config} (h : Steps c c') (ha : Ambient c.1 c.2) (hf : Fresh c.1 c.2) :
    Fresh c'.1 c'.2 := by
  induction h with
  | refl => exact hf
  | tail h h' ih => exact h'.fresh (Steps.ambient h ha) ih

/-- An order without a condition, or an all-or-none buy with the size of a `size_t`. -/
def OrderQueueElem.Admissible (e : OrderQueueElem) : Prop :=
  e.condition = .none ∨ e.condition = .allOrNone ∧ e.isBuy = true ∧ e.sz < 2 ^ 64

/-- What the insertion of an order may do. -/
structure Accepts (w w' : World) : Prop where
  arranged : w'.Arranged
  uncovered : w'.Uncovered
  queue : ∃ new, w'.internalOrderQueue = w.internalOrderQueue ++ new ∧ ∀ e ∈ new, e.condition = .none

theorem Relieved.accepts {w w' : World} (h : Relieved w w') (hu : w'.Uncovered) : Accepts w w' :=
  ⟨h.arranged, hu, h.queue⟩

theorem Relieved.then {w w' w'' : World} (h : Relieved w w') (h' : Accepts w' w'') : Accepts w w'' := by
  obtain ⟨new, hq, hn⟩ := h.queue
  obtain ⟨new', hq', hn'⟩ := h'.queue
  refine ⟨h'.arranged, h'.uncovered, new ++ new', by rw [hq', hq, List.append_assoc], fun e he => ?_⟩
  exact (List.mem_append.mp he).elim (hn e) (hn' e)

section Basic
variable {c₀ : Config} {F : Flight} {w w' : World} {p : Nat} {e : OrderQueueElem}

/-- The id of the order under insertion is new. -/
theorem Steps.idCache_new (h0 : WellFormed c₀) (hf : Fresh c₀.1 c₀.2) {r : Nat}
    (h : Steps c₀ (F.holdNew e.id r, w)) : w.idCache e.id = none := by
  by_contra hc
  exact (h.fresh h0.ambient hf).not_knows rfl (.inr (.inr hc))

/-- A buy comes to rest. It is the only order that does, and if it is all-or-none the sells do not
fill it. -/
theorem Sob.Arranged.restBuy (h : w.Arranged) (hu : w.Uncovered) {b : LimitBndl}
    (hid : w.idCache b.id = none) (hb : b.Unconditional) (hside : b.side = true) (c : Prop) [Decidable c]
    (hroom : b.isAON = true → w.sellsTo p < b.sz ∧ b.sz < 2 ^ 64) (hcA : c → b.isAON = true) :
    Accepts w (w.onSob fun s => if c then Chain.aonPush true s p b else Chain.limitPush true s p b) := by
  by_cases hc : c
  · simp only [if_pos hc]
    have hbv := bookView_aonPush w.toSob true p b
    have hlimits : (Chain.aonPush true w.toSob p b).limits = w.limits := limits_of_bookView hbv
    refine ⟨h.aonPush hid, fun q x hx => ?_, [], ?_, fun e he => by cases he⟩
    · have hsells : (Chain.aonPush true w.toSob p b).sellsTo q = w.sellsTo q :=
        Sob.sellsTo_congr fun q _ => by rw [hlimits]
      rw [World.toSob_onSob, hsells]
      rcases hx with ⟨buys, hx⟩ | ⟨hx, hA⟩
      · rw [World.toSob_onSob, Sob.Arranged.aons_aonPush] at hx
        split at hx
        next hq =>
          obtain ⟨rfl, rfl⟩ := hq
          rw [ChainManager.elems_push] at hx
          rcases List.mem_append.mp hx with hx | hx
          · exact hu q x (.inl ⟨true, hx⟩)
          · rw [List.mem_singleton.mp hx]
            exact hroom (hcA hc)
        next => exact hu q x (.inl ⟨buys, hx⟩)
      · rw [World.toSob_onSob, hlimits] at hx
        exact hu q x (.inr ⟨hx, hA⟩)
    · rw [List.append_nil]
      exact congrArg (·.2.2.1) hbv
  · simp only [if_neg hc]
    have hothers := others_limitPush w.toSob true p b
    simp only [Sob.others, Prod.mk.injEq] at hothers
    obtain ⟨-, -, haons, -, -, -, -, hq, -⟩ := hothers
    have h1 : (Chain.limitPush true w.toSob p b).Arranged := h.limitPush hid hb fun _ => hside
    refine ⟨h1, fun q x hx => ?_, [], ?_, fun e he => by cases he⟩
    · have hsells : (Chain.limitPush true w.toSob p b).sellsTo q = w.sellsTo q := by
        refine Sob.sellsTo_congr fun q _ => ?_
        rw [limits_limitPush]
        split
        next hq =>
          subst hq
          rw [ChainManager.elems_push, Chain.sells_append, Chain.sells_cons, hside]
          rfl
        next => rfl
      rw [World.toSob_onSob, hsells]
      rcases hx with ⟨buys, hx⟩ | ⟨hx, hA⟩
      · rw [World.toSob_onSob, haons] at hx
        exact hu q x (.inl ⟨buys, hx⟩)
      · rw [World.toSob_onSob, limits_limitPush] at hx
        split at hx
        next hq =>
          subst hq
          rw [ChainManager.elems_push] at hx
          rcases List.mem_append.mp hx with hx | hx
          · exact hu q x (.inr ⟨hx, hA⟩)
          · obtain rfl := List.mem_singleton.mp hx
            exact hroom hA
        next => exact hu q x (.inr ⟨hx, hA⟩)
    · rw [List.append_nil]
      exact hq

/-- A sell comes to rest, and the AONs at its level and above are matched against it. Those below
do not meet it, and in a limit chain there is none any more. -/
theorem Steps.restSell (h0 : WellFormed c₀) (hF : F.Calm) (hcur : F.cur ≠ none) {b : LimitBndl}
    (ha : w.Arranged)
    (ho : w.limitView.Ordered) (hu : w.Uncovered) (hid : w.idCache b.id = none)
    (hb : b.condition = .none) (hp : w.bid < p)
    (h : Steps c₀ (F, w.onSob fun s => Chain.limitPush false s p b)) :
    Unless World.Overflowed (matchAonOrdersPostTrade false p) (fun _ w' => Accepts w w')
      (fun _ _ => False) (w.onSob fun s => Chain.limitPush false s p b) := by
  let w1 := w.onSob fun s => Chain.limitPush false s p b
  have hA : ¬ b.isAON = true := by simp [OrderBndl.isAON, hb]
  have ha1 : w1.Arranged := by
    have h1 : (Chain.limitPush false w.toSob p b).Arranged :=
      ha.limitPush hid (.inl hb) fun hA' => absurd hA' hA
    exact h1
  have hothers := others_limitPush w.toSob false p b
  simp only [Sob.others, Prod.mk.injEq] at hothers
  obtain ⟨-, -, haons, -, -, -, -, hq, -⟩ := hothers
  have hrests : ∀ q x, w1.RestsAon q x → w.RestsAon q x := fun q x hx => by
    rcases hx with ⟨buys, hx⟩ | ⟨hx, hxA⟩
    · rw [World.toSob_onSob, haons] at hx
      exact .inl ⟨buys, hx⟩
    · rw [World.toSob_onSob, limits_limitPush] at hx
      split at hx
      next hqp =>
        subst hqp
        rw [ChainManager.elems_push] at hx
        rcases List.mem_append.mp hx with hx | hx
        · exact .inr ⟨hx, hxA⟩
        · rw [List.mem_singleton.mp hx] at hxA
          exact absurd hxA hA
      next => exact .inr ⟨hx, hxA⟩
  unfold SimpleOrderbook.matchAonOrdersPostTrade
  refine wp_getSob_bind ?_
  refine Unless.post (Steps.matchAonsPost_arranged h0 hF hcur _ (fun x hx => ?_) ?_ h ha1 (fun x hx => ?_)
    fun q x hx => ?_) fun _ w2 h2 => ?_
  · obtain ⟨q, x⟩ := x
    have hr := h.aon_inRange h0 _ hx
    have hmem := ha1.mem_overlapping.mp (List.mem_reverse.mp hx)
    have := hu q x (hrests q x (.inl ⟨true, hmem.2⟩))
    exact ⟨hr.1, hr.2, by dsimp only; omega⟩
  · rw [List.map_reverse, List.nodup_reverse]
    exact ha1.nodup_overlapping
  · exact (ha1.mem_overlapping.mp (List.mem_reverse.mp hx)).2
  · have hold := hrests q x hx
    refine ⟨?_, (hu q x hold).2⟩
    by_cases hqp : q < p
    · refine .inl ?_
      have hsame : w1.sellsTo q = w.sellsTo q := Sob.sellsTo_congr fun r hr => by
        rw [World.toSob_onSob, limits_limitPush, if_neg (by omega)]
      rw [hsame]
      exact (hu q x hold).1
    · refine .inr (List.mem_reverse.mpr (ha1.mem_overlapping.mpr ⟨by omega, ?_⟩))
      rcases hx with ⟨buys, hx⟩ | ⟨-, hxA⟩
      · cases buys with
        | false =>
          rw [ha1.sells] at hx
          cases hx
        | true => exact hx
      · rcases hold with ⟨buys, hold⟩ | ⟨hold, -⟩
        · cases buys with
          | false =>
            rw [ha.sells] at hold
            cases hold
          | true =>
            rw [World.toSob_onSob, haons]
            exact hold
        · have hle : q ≤ w.bid := by
            simpa [ha.buys q x hold hxA, Sob.limitView] using ho.side q x hold
          omega
  · obtain ⟨hre, hun⟩ := h2
    obtain ⟨new, hq2, hn⟩ := hre.queue
    refine ⟨hre.arranged, hun, new, ?_, hn⟩
    rw [hq2]
    exact congrArg (· ++ new) hq

theorem Steps.restLimitOrder_arranged (h0 : WellFormed c₀) (hf : Fresh c₀.1 c₀.2) (hF : F.Calm)
    {passConditions : Bool} {rmndr : Nat} (hins : F.Inserts e) (he : e.Admissible)
    (hpass : e.isAON → passConditions = true) (h : Steps c₀ (F.holdNew e.id rmndr, w))
    (ha : w.Arranged) (hu : w.Uncovered) (hz : rmndr ≠ 0) (hle : rmndr ≤ e.sz) (hp : beg ≤ p)
    (hpe : p < w.end_) (hlevel : (p : Int) = w.levelOf e.limit)
    (hs : ¬ e.isAON → if e.isBuy then p < w.ask else w.bid < p)
    (hroom : e.isAON → w.sellsTo p < rmndr) :
    Unless World.Overflowed (SimpleOrderbook.restLimitOrder e.isBuy e passConditions p rmndr)
      (fun _ w' => Accepts w w') NoState w := by
  have hid := h.idCache_new h0 hf
  have ho : w.limitView.Ordered := ((h.wellFormed h0).ambient.limitInv
    (F := F.holdNew e.id rmndr) hF.gap).toOrdered
  obtain ⟨ty, h1⟩ := h.pushRemainder hF hins rfl hpass hz hle hp hpe hlevel hs
  let b := e.remainder passConditions rmndr
  have hbA : b.isAON = true ↔ e.isAON = true := e.remainder_isAON hpass
  have hsize : e.isAON = true → rmndr < 2 ^ 64 := fun hA => by
    rcases he with hc | ⟨-, -, hsz⟩
    · simp [OrderQueueElem.isAON, hc] at hA
    · omega
  have hpost : Unless World.Overflowed (matchAonOrdersPostTrade e.isBuy p)
      (fun _ w' => Accepts w w') NoState (w.onSob fun s' => if e.isAON ∧ (Exec.Limit.isTradable (!e.isBuy) w.toSob p ∨
        (w.limits p).empty) then Chain.aonPush e.isBuy s' p b
        else Chain.limitPush e.isBuy s' p b) := by
    have hbside : b.side = e.isBuy := rfl
    obtain hside | hside : e.isBuy = true ∨ e.isBuy = false := by cases e.isBuy <;> simp
    · rw [hside] at h1 hbside ⊢
      have hb : b.Unconditional := by
        cases passConditions with
        | false => exact .inl rfl
        | true => exact he.imp (fun hc => hc) fun hc => hc.1
      have hacc := ha.restBuy (p := p) hu hid hb hbside
        (e.isAON ∧ (Exec.Limit.isTradable (!true) w.toSob p ∨ (w.limits p).empty))
        (fun hA => ⟨hroom (hbA.mp hA), hsize (hbA.mp hA)⟩) fun hc => hbA.mpr hc.1
      unfold matchAonOrdersPostTrade
      refine wp_getSob_bind ?_
      rw [Bool.not_true] at hacc ⊢
      rw [hacc.arranged.overlapping_sells]
      exact wp_pure (.inr hacc)
    · rw [hside] at h1 hs ⊢
      have hcond : e.condition = .none := he.resolve_right fun hc => by
        rw [hside] at hc
        cases hc.2.1
      have hnA : ¬ e.isAON = true := by simp [OrderQueueElem.isAON, hcond]
      have hb : b.condition = .none := by cases passConditions <;> [rfl; exact hcond]
      have hno : ∀ c : Prop, ¬ (e.isAON ∧ c) := fun c hc => hnA hc.1
      simp only [if_neg (hno _)] at h1 ⊢
      have hF1 : ({ F with legs := ⟨e.id, ty, p, rmndr⟩ :: F.legs } : Flight).Calm :=
        ⟨hF.gap, hF.hit, hF.acting, hF.scan, hF.detached, hF.leaving, hF.arriving⟩
      refine Unless.mono (Steps.restSell h0 hF1 hins.cur_ne ha ho hu hid hb ?_ h1) (fun _ _ hq => hq)
        fun _ _ hf => hf.elim
      simpa using hs hnA
  unfold SimpleOrderbook.restLimitOrder
  refine wp_getSob_bind (wp_modifySob_bind (wp.bind hpost fun _ w2 h2 => wp_getSob_bind ?_))
  -- the size filled is read from the cache, which changes nothing
  split
  next => exact wp_pure h2
  next c _ =>
    exact wp.bind (wp_deref (Q := fun _ w' => w'.Overflowed ∨ Accepts w w') (fun _ _ => h2)
      fun _ => .inr rfl) fun _ _ hacc => wp_pure hacc

theorem Steps.matchAonOrdersPreTrade_arranged (h0 : WellFormed c₀) (hF : F.Calm)
    (hcur : F.cur ≠ none) (he : e.Admissible) (hp : c₀.2.HasLevel p)
    (h : Steps c₀ (F.hold e.id e.sz, w)) (ha : w.Arranged) (hu : w.Uncovered) :
    wp (SimpleOrderbook.matchAonOrdersPreTrade e.isBuy e p)
      (fun r w' => Steps c₀ (F.hold e.id r, w') ∧ r ≤ e.sz ∧ Relieved w w' ∧
        (e.isBuy = true → r = e.sz ∧ w' = w)) (fun _ _ => False) w := by
  suffices hpre : wp (SimpleOrderbook.matchAonOrdersPreTrade e.isBuy e p) (fun r w' => Relieved w w' ∧
      (e.isBuy = true → r = e.sz ∧ w' = w)) (fun _ _ => False) w from
    (hpre.and (Steps.matchAonOrdersPreTrade h0 hF hcur e.isBuy e hp h)).mono
      (fun _ _ hq => ⟨hq.2.1, hq.2.2, hq.1.1, hq.1.2⟩) fun _ _ hf => hf.1
  unfold SimpleOrderbook.matchAonOrdersPreTrade
  refine wp_getSob_bind ?_
  obtain hside | hside : e.isBuy = true ∨ e.isBuy = false := by cases e.isBuy <;> simp
  · rw [hside, Bool.not_true, ha.overlapping_sells]
    exact wp_pure ⟨.refl ha, fun _ => ⟨rfl, rfl⟩⟩
  · have hA : e.isAON = false := by
      rcases he with hc | ⟨-, hbuy⟩
      · simp [OrderQueueElem.isAON, hc]
      · cases hside.symm.trans hbuy.1
    rw [hside, Bool.not_false]
    refine (Steps.matchAonsPre_arranged h0 hF hcur hA hp _ (h.aon_inRange h0) ?_ h ha hu fun x hx => ?_).post
      fun _ _ hq => ⟨hq.2, fun hf => by cases hf⟩
    · rw [List.map_reverse, List.nodup_reverse]
      exact ha.nodup_overlapping
    · exact (ha.mem_overlapping.mp (List.mem_reverse.mp hx)).2

/-- With no ask at its level or below, a buy finds no sells. -/
theorem Sob.Arranged.sellsTo_eq_zero {s : Sob} (ha : s.Arranged) (ho : s.limitView.Ordered)
    (hp : 0 < p) (hn : ¬ Exec.Core.isTradable false s p = true) : s.sellsTo p = 0 := by
  have hlevels : Exec.Core.levels false s p = [] := by
    rw [Exec.Core.levels_eq_scan]
    refine Exec.Core.scan_nil (Bool.eq_false_iff.mpr fun h => hn ?_)
    simpa [Exec.Core.insideOf, Exec.Core.isTradable] using h
  have htake := ha.takeOrders_sells ho hp (n := s.sellsTo p)
  unfold Sob.scanned at htake
  rw [hlevels, Nat.sub_self] at htake
  exact htake

/-- An all-or-none buy trades exactly if the sells fill it. -/
theorem Steps.mayTrade_arranged (h0 : WellFormed c₀) (hF : F.Calm) (he : e.Admissible) {rmndr : Nat}
    (hp : 0 < p) (hz : rmndr ≠ 0) (hle : rmndr ≤ e.sz) (h : Steps c₀ (F.hold e.id rmndr, w))
    (ha : w.Arranged) : Unless World.Overflowed (mayTrade e.isBuy e p rmndr) (fun ok w' =>
      Steps c₀ (F.hold e.id rmndr, w') ∧ Relieved w w' ∧
      (ok = true → e.isAON → rmndr ≤ w'.sellsTo p) ∧
      (ok = false → (¬ e.isAON → if e.isBuy then p < w'.ask else w'.bid < p) ∧
        (e.isAON → w'.sellsTo p < rmndr))) NoState w := by
  have ho : w.limitView.Ordered := ((h.wellFormed h0).ambient.limitInv
    (F := F.hold e.id rmndr) hF.gap).toOrdered
  have hAON : e.isAON = true → e.isBuy = true ∧ rmndr < 2 ^ 64 := fun hA => by
    rcases he with hc | ⟨-, hbuy, hsz⟩
    · simp [OrderQueueElem.isAON, hc] at hA
    · exact ⟨hbuy, by omega⟩
  refine wp_mayTrade (fun hno => .inr ⟨h, .refl ha, fun heq => (by cases heq), fun _ => ⟨fun _ => ?_, fun hA => ?_⟩⟩)
    (fun _ hA => .inr ⟨h, .refl ha, fun _ hA' => ?_, fun heq => by cases heq⟩) fun _ hA => ?_
  · unfold Exec.Core.isTradable Exec.Core.begin_ at hno
    cases hb : e.isBuy <;> simp [hb] at hno ⊢ <;> omega
  · rw [(hAON hA).1, Bool.not_true] at hno
    rw [ha.sellsTo_eq_zero ho hp (Bool.eq_false_iff.mp hno)]
    exact Nat.pos_of_ne_zero hz
  · cases hA.symm.trans hA'
  · obtain ⟨hbuy, hsz⟩ := hAON hA
    rw [hbuy]
    by_cases hover : Event.Overflowing (.lookAhead w.toSob true p rmndr 0)
    · exact .inl ⟨_, List.mem_cons_self, hover⟩
    · have hyes := ha.fillable_iff ho hp (Nat.pos_of_ne_zero hz) hsz hover
      refine .inr ⟨h.step (.act (.look ..)), .log ha _, fun hok _ => hyes.mp hok,
        fun hno => ⟨fun hA' => absurd hA hA', fun _ => not_le.mp fun hle => ?_⟩⟩
      exact Bool.false_ne_true (hno.symm.trans (hyes.mpr hle))

theorem Steps.insertLimitOrder_arranged (h0 : WellFormed c₀) (hf : Fresh c₀.1 c₀.2) (hF : F.Calm)
    {passConditions : Bool} (hins : F.Inserts e) (he : e.Admissible)
    (hpass : e.isAON → passConditions = true) (h : Steps c₀ (F.holdNew e.id e.sz, w))
    (ha : w.Arranged) (hu : w.Uncovered) :
    Unless World.Overflowed (SimpleOrderbook.insertLimitOrder e.isBuy e passConditions)
      (fun _ w' => Accepts w w') NoState w := by
  unfold SimpleOrderbook.insertLimitOrder
  refine wp.bind (wp_ptoi (Q := fun p w' => beg ≤ p ∧ p < w.end_ ∧ (p : Int) = w.levelOf e.limit ∧
    w' = w) (fun p hp hpe hprice => ⟨hp, hpe, by rw [← hprice, levelOf_itop _ hp], rfl⟩) (.inr rfl)) ?_
  rintro p w ⟨hp, hpe, hlevel, rfl⟩
  have hend : w.end_ = c₀.2.end_ := congrArg Prod.snd (Steps.grid_eq h)
  refine (Steps.matchAonOrdersPreTrade_arranged h0 (hF.give e.id) hins.cur_ne he
    ⟨hp, hend ▸ hpe⟩ h ha hu).returns.bind ?_
  rintro rmndr w1 ⟨h1, hle, hre1, -⟩
  refine wp_ite (fun _ => wp_pure (.inr (hre1.accepts (hre1.eased.uncovered hu)))) fun hz => ?_
  have hgrid : ∀ {G : Flight} {v : World}, Steps c₀ (G, v) → v.grid = w.grid := fun h' =>
    (Steps.grid_eq h').trans (Steps.grid_eq h).symm
  have hrest : ∀ {v : World} {r : Nat}, Steps c₀ (F.holdNew e.id r, v) → Relieved w v → r ≠ 0 →
      r ≤ e.sz → (¬ e.isAON → if e.isBuy then p < v.ask else v.bid < p) →
      (e.isAON → v.sellsTo p < r) →
      Unless World.Overflowed (SimpleOrderbook.restLimitOrder e.isBuy e passConditions p r)
        (fun _ w' => Accepts w w') NoState v := fun h' hre hr hle' hs hroom =>
    (Steps.restLimitOrder_arranged h0 hf hF hins he hpass h' hre.arranged (hre.eased.uncovered hu) hr
      hle' hp (hpe.trans_eq (congrArg Prod.snd (hgrid h')).symm)
      (by rw [levelOf_of_grid (hgrid h')]; exact hlevel) hs hroom).post fun _ _ hacc => hre.then hacc
  have hAbuy : e.isAON = true → e.isBuy = true := fun hA => by
    rcases he with hc | hc
    · simp [OrderQueueElem.isAON, hc] at hA
    · exact hc.2.1
  refine (Steps.mayTrade_arranged h0 (hF.give e.id) he hp hz hle h1 hre1.arranged).bind
    (fun _ => Grows.keeps (.ite (.bind (grows_trade ..) fun _ => .ite (.pure _)
      (grows_restLimitOrder ..)) (grows_restLimitOrder ..))) ?_
  rintro ok w2 ⟨h2, hre2, hyes, hno⟩
  have hre2 := hre1.trans hre2
  refine wp_ite (fun hok => ?_) fun hok => ?_
  · have ho2 : w2.limitView.Ordered := ((h2.wellFormed h0).ambient.limitInv
      (F := F.holdNew e.id rmndr) hF.gap).toOrdered
    have hpe2 : p < w2.end_ := hpe.trans_eq (congrArg Prod.snd (hgrid h2)).symm
    have htrade : wp (SimpleOrderbook.trade (!e.isBuy) p e.id rmndr e.cb) (fun r w' =>
        Steps c₀ (F.holdNew e.id r, w') ∧ r ≤ rmndr ∧ Relieved w2 w' ∧
        (r ≠ 0 → ¬ OnSide (!e.isBuy) w'.toSob p) ∧ (e.isAON → r = 0)) (fun _ _ => False) w2 := by
      have hall := ((@wp_trade_take w2 (!e.isBuy) p e.id rmndr e.cb (hre2.arranged.scannable ho2)
        hp).and (wp_trade_arranged hre2.arranged ho2)).and
          (Steps.trade h0 e.cb h2 (hF.give e.id) hins.cur_ne hp hpe2)
      refine hall.mono ?_ fun _ _ hf => hf.1.1
      rintro r w3 ⟨⟨hr, hcl⟩, hs3, hrle, hoff⟩
      refine ⟨hs3, hrle, hcl.toRelieved, hoff, fun hA => ?_⟩
      rw [hAbuy hA, Bool.not_true, hre2.arranged.takeOrders_sells ho2 hp] at hr
      have := hyes hok hA
      omega
    refine htrade.returns.bind ?_
    rintro r w3 ⟨h3, hrle, hre3, hoff, hA0⟩
    have hre := hre2.trans hre3
    refine wp_ite (fun _ => wp_pure (.inr (hre.accepts (hre.eased.uncovered hu)))) fun hz3 =>
      hrest h3 hre hz3 (hrle.trans hle) (fun _ => ?_) fun hA => absurd (hA0 hA) hz3
    have hoff := hoff hz3
    unfold OnSide at hoff
    cases hb : e.isBuy <;> simpa [hb] using hoff
  · obtain ⟨hs, hroom⟩ := hno (Bool.eq_false_iff.mpr hok)
    exact hrest h2 hre2 hz hle hs hroom

/-- An exception leaves a book behind that is still in order. -/
def LeavesOrder (w : World) (err : Err) (w' : World) : Prop :=
  err = .undefinedBehaviour ∨ Accepts w w'

theorem NoState.leavesOrder {err : Err} (h : NoState err w') : LeavesOrder w err w' := .inl h

theorem Steps.insertMarketOrder_arranged (h0 : WellFormed c₀) (hF : F.Calm) (hcur : F.cur ≠ none)
    (he : e.Admissible) (h : Steps c₀ (F.holdNew e.id e.sz, w)) (ha : w.Arranged) (hu : w.Uncovered) :
    wp (SimpleOrderbook.insertMarketOrder e.isBuy e) (fun _ w' => Accepts w w') (LeavesOrder w) w := by
  unfold SimpleOrderbook.insertMarketOrder
  refine wp_getSob_bind ?_
  have hlevels : 1 < w.end_ := (h.wellFormed h0).levels
  have hend : w.end_ = c₀.2.end_ := congrArg Prod.snd (Steps.grid_eq h)
  have hrange : c₀.2.HasLevel (if e.isBuy then w.end_ - 1 else beg) := by
    unfold Sob.HasLevel beg
    split <;> omega
  refine (Steps.matchAonOrdersPreTrade_arranged h0 (hF.give e.id) hcur he hrange h ha hu).returns.bind ?_
  rintro rmndr w1 ⟨h1, -, hre1, -⟩
  have ho1 : w1.limitView.Ordered := ((h1.wellFormed h0).ambient.limitInv
    (F := F.holdNew e.id rmndr) hF.gap).toOrdered
  refine wp_ite (fun _ => ?_) fun _ => wp_pure (hre1.accepts (hre1.eased.uncovered hu))
  refine (wp_trade_arranged hre1.arranged ho1).returns.bind fun r w2 hcl => ?_
  have hre := hre1.trans hcl.toRelieved
  have hacc := hre.accepts (hre.eased.uncovered hu)
  exact wp_ite (fun _ => wp_throw (.inr hacc)) fun _ => wp_pure hacc

theorem Steps.insertStopOrder_arranged (h0 : WellFormed c₀) (hf : Fresh c₀.1 c₀.2)
    (he : e.Admissible) (passConditions : Bool) (h : Steps c₀ (F.holdNew e.id e.sz, w))
    (ha : w.Arranged) (hu : w.Uncovered) :
    wp (SimpleOrderbook.insertStopOrder e.isBuy e passConditions) (fun _ w' => Accepts w w') NoState w := by
  have hid := h.idCache_new h0 hf
  unfold SimpleOrderbook.insertStopOrder
  refine wp.bind (wp_ptoi (Q := fun _ w' => w' = w) (fun _ _ _ _ => rfl) rfl) ?_
  rintro p w ⟨rfl⟩
  refine wp_modifySob ?_
  let b : StopBndl :=
    { id := e.id, sz := e.sz, cb := e.cb, isBuy := e.isBuy, limit := e.limit,
      condition := if passConditions then e.condition else .none,
      trigger := if passConditions then e.trigger else .none }
  have hb : b.Unconditional := by
    cases passConditions with
    | false => exact .inl rfl
    | true => exact he.imp (fun hc => hc) fun hc => hc.1
  obtain ⟨h1, heased⟩ := ha.stopPush (p := p) (e := b) hid hb
  have hre : Relieved w (w.onSob fun s => Chain.stopPush s p b) :=
    .of_queue h1 heased (congrArg (·.2.2.1) (bookView_stopPush w.toSob p b))
  exact hre.accepts (heased.uncovered hu)

theorem Steps.routeBasicOrder_arranged (h0 : WellFormed c₀) (hf : Fresh c₀.1 c₀.2) (hF : F.Calm)
    {passConditions : Bool} (hins : F.Inserts e) (he : e.Admissible)
    (hpass : e.isAON → passConditions = true) (h : Steps c₀ (F.holdNew e.id e.sz, w))
    (ha : w.Arranged) (hu : w.Uncovered) :
    Unless World.Overflowed (SimpleOrderbook.routeBasicOrder e passConditions)
      (fun _ w' => Accepts w w') (LeavesOrder w) w := by
  have hstop : wp (SimpleOrderbook.insertStopOrder e.isBuy e passConditions >>= fun _ => pure 0)
      (fun (_ : Nat) w' => Accepts w w') (LeavesOrder w) w :=
    ((Steps.insertStopOrder_arranged h0 hf he passConditions h ha hu).mono (fun _ _ hq => hq)
      fun _ _ hn => NoState.leavesOrder hn).bind fun _ _ hacc => wp_pure hacc
  unfold SimpleOrderbook.routeBasicOrder
  split
  next =>
    exact (Steps.insertLimitOrder_arranged h0 hf hF hins he hpass h ha hu).mono
      (fun _ _ hq => hq) fun _ _ hn => NoState.leavesOrder hn
  next =>
    exact .of_wp ((Steps.insertMarketOrder_arranged h0 hF hins.cur_ne he h ha hu).bind fun _ _ hacc => wp_pure hacc)
  next => exact .of_wp hstop
  next => exact .of_wp hstop
  next => exact wp_throw (.inr (.inr ((Relieved.refl ha).accepts hu)))

/-- `_insert_order` of an order without a condition or an AON buy. -/
theorem Steps.insertOrder_arranged (h0 : WellFormed c₀) (hf : Fresh c₀.1 c₀.2) (hF : F.Idle)
    (he : e.Admissible) (h : Steps c₀ (F.give e.id, w))
    (hext : F.front = 0 → ∃ e', F.ext = some e' ∧ e = { e' with id := e.id })
    (hint : F.front ≠ 0 → ∃ e' queue, w.internalOrderQueue = e' :: queue ∧ e = { e' with id := e.id })
    (hid : F.front ≠ 0 → ∀ e' ∈ w.internalOrderQueue.head?, e'.id ≠ 0 → e'.id = e.id)
    (ha : w.Arranged) (hu : w.Uncovered) :
    Unless World.Overflowed (SimpleOrderbook.insertOrder e)
      (fun _ w' => Steps c₀ (F, w') ∧ Accepts w w') (LeavesOrder w) w := by
  suffices hacc : Unless World.Overflowed (SimpleOrderbook.insertOrder e) (fun _ w' => Accepts w w')
      (LeavesOrder w) w from
    ((Steps.insertOrder h0 hF h hext hint hid).and hacc).mono
      (fun _ _ hq => hq.2.imp_right fun hacc => ⟨hq.1, hacc⟩) fun _ _ hq => hq.2
  unfold SimpleOrderbook.insertOrder
  refine wp_record_bind ?_
  have hlog := Relieved.log ha (.insertOrder e)
  have h1 : Steps c₀ ((F.inserts e [] none).holdNew e.id e.sz, w.log (.insertOrder e)) := by
    rw [Flight.holdNew_eq (F := F.inserts e [] none) hF.hands]
    exact h.step (.accept e F.ids rfl hF.hands hF.cur hext hint hid)
  have hF1 : (F.inserts e [] none).Calm := hF.toCalm.inserts e [] none
  have hins : (F.inserts e [] none).Inserts e := ⟨e, rfl, .inl rfl⟩
  have hroute : ∀ pass : Bool, (e.isAON → pass = true) →
      Unless World.Overflowed (SimpleOrderbook.routeBasicOrder e pass) (fun _ w' => Accepts w w')
        (LeavesOrder w) (w.log (.insertOrder e)) := fun pass hpass =>
    (Steps.routeBasicOrder_arranged h0 hf hF1 hins he hpass h1 hlog.arranged hu).mono
      (fun _ _ hacc => hlog.then hacc) fun _ _ hq => hq.imp_right fun hacc => hlog.then hacc
  refine wp_ite (fun hadv => ?_) fun hno => ?_
  · have hc : e.condition = .allOrNone := by
      rcases he with hc | hc
      · simp [OrderQueueElem.isAdvanced, hc] at hadv
      · exact hc.1
    unfold SimpleOrderbook.routeAdvancedOrder SimpleOrderbook.insertAllOrNoneOrder
    rw [hc]
    exact (wp.discard (hroute true fun _ => rfl)).bind fun _ _ hacc => wp_pure hacc
  · refine (wp.discard (hroute false fun hA => ?_)).bind fun _ _ hacc => wp_pure hacc
    unfold OrderQueueElem.isAON at hA
    simp [OrderQueueElem.isAdvanced, of_decide_eq_true hA] at hno

end Basic

end SimpleOrderbook
