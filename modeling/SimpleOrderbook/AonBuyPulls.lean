import SimpleOrderbook.AonBuys
import SimpleOrderbook.AonSides

/-!
# Pulls around all-or-none buys

An order that is pulled leaves its chain and the cache. The all-or-none orders that come to the front
of a limit chain then go to the AON chain of their level, where they rest as they did before.
-/
namespace SimpleOrderbook

open Hoare

/-! ## Orders that are taken out -/

namespace Chain

/-- An id that occurs once is gone when it is erased. -/
theorem ne_of_mem_eraseP {α : Type} (f : α → Nat) {l : List α} (hn : (l.map f).Nodup) {id : Nat} :
    ∀ x ∈ l.eraseP (fun x => f x = id), f x ≠ id := by
  induction l with
  | nil => exact fun x hx => by cases hx
  | cons y l ih =>
    rw [List.map_cons, List.nodup_cons] at hn
    intro x hx
    by_cases hy : f y = id
    · rw [List.eraseP_cons_of_pos (by simpa using hy)] at hx
      exact fun hid => hn.1 (hy.trans hid.symm ▸ List.mem_map_of_mem hx)
    · rw [List.eraseP_cons_of_neg (by simpa using hy)] at hx
      rcases List.mem_cons.mp hx with rfl | hx
      · exact hy
      · exact ih hn.2 x hx

end Chain

namespace Sob.Arranged
variable {s s' : Sob} {p id : Nat} {c : ChainIterWrap}

/-- Order `id` left the chains and the cache. -/
theorem erased (h : s.Arranged) (id : Nat) (hc : ∀ j, j ≠ id → s'.idCache j = s.idCache j)
    (hl : ∀ q, (s'.limits q).elems.Sublist (s.limits q).elems ∧ ∀ b ∈ (s'.limits q).elems, b.id ≠ id)
    (ha : ∀ q, (s'.aons true q).elems.Sublist (s.aons true q).elems ∧
      ∀ b ∈ (s'.aons true q).elems, b.id ≠ id)
    (hs : ∀ q, (s'.stops q).elems.Sublist (s.stops q).elems ∧ ∀ e ∈ (s'.stops q).elems, e.id ≠ id)
    (hsells : ∀ q, s'.aons false q = none) (hcov : s'.AonsCovered true)
    (ht : (s'.trailingBuyStops, s'.trailingSellStops) = (s.trailingBuyStops, s.trailingSellStops)) :
    s'.Arranged ∧ Eased s s' := by
  simp only [Prod.mk.injEq] at ht
  refine ⟨⟨hsells, fun q b hb => h.buys q b ((hl q).1.subset hb), hcov,
    ⟨fun q e he => h.quiet.stops q e ((hs q).1.subset he), by rw [ht.1, ht.2]; exact h.quiet.trailing⟩,
    fun q b hb => h.unconditional q b ((hl q).1.subset hb),
    fun q => (h.nodup q).sublist ((hl q).1.map _), fun q => (h.aonNodup q).sublist ((ha q).1.map _),
    fun q => (h.stopNodup q).sublist ((hs q).1.map _), fun q b hb => ?_, fun q b hb => ?_,
    fun q e he => ?_⟩, ⟨fun q => Chain.sells_sublist (hl q).1, fun q b hb => ?_⟩⟩
  · rw [hc _ ((hl q).2 b hb)]
    exact h.limits q b ((hl q).1.subset hb)
  · rw [hc _ ((ha q).2 b hb)]
    exact h.aons q b ((ha q).1.subset hb)
  · rw [hc _ ((hs q).2 e he)]
    exact h.stops q e ((hs q).1.subset he)
  · rcases hb with ⟨buys, hb⟩ | ⟨hb, hA⟩
    · cases buys with
      | false =>
        rw [hsells] at hb
        cases hb
      | true => exact .inl ⟨true, (ha q).1.subset hb⟩
    · exact .inr ⟨(hl q).1.subset hb, hA⟩

/-- An order is in the chain its cache entry says, and in no other. -/
theorem apart (h : s.Arranged) (hc : s.idCache id = some c) :
    (∀ q, c ≠ ⟨.limit, q⟩ → ∀ b ∈ (s.limits q).elems, b.id ≠ id) ∧
      (∀ q, c ≠ ⟨.aonBuy, q⟩ → ∀ b ∈ (s.aons true q).elems, b.id ≠ id) ∧
        ∀ q, c ≠ ⟨.stop, q⟩ → ∀ e ∈ (s.stops q).elems, e.id ≠ id := by
  refine ⟨fun q hne b hb hid => ?_, fun q hne b hb hid => ?_, fun q hne b hb hid => ?_⟩
  · exact hne (Option.some.inj (hc.symm.trans (hid ▸ h.limits q b hb)))
  · exact hne (Option.some.inj (hc.symm.trans (hid ▸ h.aons q b hb)))
  · exact hne (Option.some.inj (hc.symm.trans (hid ▸ h.stops q b hb)))

theorem erasedLimit (h : s.Arranged) (hc : s.idCache id = some ⟨.limit, p⟩) :
    (s.erasedLimit p id).Arranged ∧ Eased s (s.erasedLimit p id) := by
  obtain ⟨-, haons, hstops⟩ := h.apart hc
  refine h.erased id (fun j hj => (idCache_erasedLimit ..).trans (if_neg hj)) (fun q => ?_)
    (fun q => ?_) (fun q => ?_) (fun q => (Sob.aons_setLimits ..).trans (h.sells q))
    (fun q hq => h.covered q (by simpa [Sob.erasedLimit, Sob.aons_setLimits] using hq)) rfl
  · change ((s.setLimits p _).limits q).elems.Sublist _ ∧ ∀ b ∈ ((s.setLimits p _).limits q).elems, _
    rw [Sob.limits_setLimits]
    split
    next hq =>
      subst hq
      rw [ChainManager.elems_ofList]
      exact ⟨Chain.eraseLimit_sublist _ _, Chain.ne_of_mem_eraseP _ (h.nodup q)⟩
    next hq => exact ⟨.refl _, (h.apart hc).1 q (by simpa using fun h => hq h.symm)⟩
  · rw [show (s.erasedLimit p id).aons true q = s.aons true q from Sob.aons_setLimits ..]
    exact ⟨.refl _, haons q (by simp)⟩
  · rw [show (s.erasedLimit p id).stops q = s.stops q from Sob.stops_setLimits ..]
    exact ⟨.refl _, hstops q (by simp)⟩

theorem erasedAon (h : s.Arranged) (hc : s.idCache id = some ⟨.aonBuy, p⟩) :
    (s.erasedAon true p id).Arranged ∧ Eased s (s.erasedAon true p id) := by
  obtain ⟨hlims, -, hstops⟩ := h.apart hc
  have hlimits : (s.erasedAon true p id).limits = s.limits :=
    limits_of_bookView (bookView_erasedAon s true p id)
  refine h.erased id (fun j hj => (idCache_erasedAon ..).trans (if_neg hj)) (fun q => ?_)
    (fun q => ?_) (fun q => ?_) (fun q => ?_) ?_ ?_
  · rw [hlimits]
    exact ⟨.refl _, hlims q (by simp)⟩
  · rw [aons_erasedAon]
    split
    next hq =>
      obtain ⟨rfl, -⟩ := hq
      rw [ChainManager.elems_ofList]
      exact ⟨Chain.eraseLimit_sublist _ _, Chain.ne_of_mem_eraseP _ (h.aonNodup q)⟩
    next hq => exact ⟨.refl _, (h.apart hc).2.1 q (by simpa using fun h => hq ⟨h.symm, rfl⟩)⟩
  · rw [stops_erasedAon]
    exact ⟨.refl _, hstops q (by simp)⟩
  · rw [aons_erasedAon, if_neg (by simp)]
    exact h.sells q
  · have hcov : ((s.setAons true p (ChainManager.ofList (Chain.eraseLimit (s.aons true p).elems id))).cacheErase
        id).AonsCovered true := fun q hq => by
      change (s.setAons true p _).aons true q ≠ none at hq
      refine h.covered q fun hn => hq ?_
      rw [Sob.aons_setAons]
      split
      next heq =>
        obtain ⟨rfl, -⟩ := heq
        rw [hn]
        rfl
      next => exact hn
    unfold Sob.erasedAon
    dsimp only
    split
    · exact hcov.adjustStateAfterPull p
    · exact hcov
  · unfold Sob.erasedAon
    dsimp only
    split
    · obtain ⟨_, _, _, _, heq⟩ := Exec.Aon.adjustStateAfterPull_eq true ((s.setAons true p
        (ChainManager.ofList (Chain.eraseLimit (s.aons true p).elems id))).cacheErase id) p
      rw [heq]
      rfl
    · rfl

theorem erasedStop (h : s.Arranged) {e : StopBndl} (hc : s.idCache e.id = some ⟨.stop, p⟩) :
    (s.erasedStop p e).Arranged ∧ Eased s (s.erasedStop p e) := by
  obtain ⟨hlims, haons, -⟩ := h.apart hc
  have hlimits : (s.erasedStop p e).limits = s.limits :=
    limits_of_bookView (bookView_erasedStop s p e)
  obtain ⟨_, _, _, _, _, _, heq⟩ := s.erasedStop_eq p e
  refine h.erased e.id (fun j hj => (idCache_erasedStop ..).trans (if_neg hj)) (fun q => ?_)
    (fun q => ?_) (fun q => ?_) (fun q => ?_) (fun q hq => ?_) ?_
  · rw [hlimits]
    exact ⟨.refl _, hlims q (by simp)⟩
  · rw [aons_erasedStop]
    exact ⟨.refl _, haons q (by simp)⟩
  · rw [stops_erasedStop]
    split
    next hq =>
      subst hq
      rw [ChainManager.elems_ofList]
      exact ⟨List.eraseP_sublist, Chain.ne_of_mem_eraseP _ (h.stopNodup q)⟩
    next hq => exact ⟨.refl _, (h.apart hc).2.2 q (by simpa using fun h => hq h.symm)⟩
  · rw [aons_erasedStop]
    exact h.sells q
  · rw [aons_erasedStop] at hq
    rw [heq]
    exact h.covered q hq
  · rw [heq]

end Sob.Arranged

/-! ## Pops and pulls -/

section Pops
variable {w w' : World} {p id : Nat}

/-- An AON at the front of a limit chain goes to the AON chain of its level. -/
theorem Relieved.relocated (h : w.Arranged) {b : LimitBndl} {bs : List LimitBndl}
    (hl : w.limits p = some (b :: bs)) (hA : b.isAON = true) :
    Relieved w ((w.onSob (·.copiedToAons true p b ⟨.limit, p⟩)).onSob
      (·.setLimits p (ChainManager.ofList bs))) := by
  let w1 := w.onSob (·.copiedToAons true p b ⟨.limit, p⟩)
  let w2 := w1.onSob (·.setLimits p (ChainManager.ofList bs))
  have hmet : Met true p ([b.id] ++ []) w w2 := (Met.copied w b _).trans (.setLimits w1 _)
  have hlim : w2.limits p = ChainManager.ofList bs := (Sob.limits_setLimits ..).trans (if_pos rfl)
  have haons : ∀ buys, w2.aons buys p = if p = p ∧ buys = true then (w.aons true p).push b
      else w.aons buys p := fun buys => by
    rw [show w2.aons buys p = (w.copiedToAons true p b ⟨.limit, p⟩).aons buys p from
      Sob.aons_setLimits ..]
    exact aons_copiedToAons
  have hbuys : (w2.aons true p).elems = (w.aons true p).elems ++ [b] := by
    rw [haons, if_pos ⟨rfl, rfl⟩]
    exact ChainManager.elems_push _ _
  have hcache : ∀ j, w2.idCache j = if j = b.id then some ⟨.aonBuy, p⟩ else w.idCache j :=
    idCache_copiedToAons w.toSob true p b _
  have hmem : b ∈ (w.limits p).elems := by rw [hl]; exact List.mem_cons_self
  have hkept : ∀ i c, w.idCache i = some c → c ≠ ⟨.limit, p⟩ → w2.idCache i = some c := by
    intro i c hc hne
    rw [hcache, if_neg, hc]
    rintro rfl
    exact hne (Option.some.inj (hc.symm.trans (h.limits p b hmem)))
  have hsub : ∀ q, (w2.limits q).elems.Sublist (w.limits q).elems := fun q => by
    by_cases hq : q = p
    · subst hq
      rw [hlim, hl, ChainManager.elems_ofList]
      exact List.sublist_cons_self b bs
    · rw [hmet.limits q hq]
  have hsells : ∀ q, w2.aons false q = none := fun q => by
    by_cases hq : q = p
    · subst hq
      rw [haons, if_neg (by simp)]
      exact h.sells q
    · exact (hmet.aons q hq false).trans (h.sells q)
  have hnodup := h.nodup p
  unfold Sob.limitIds at hnodup
  rw [hl, ChainManager.elems_some, List.map_cons, List.nodup_cons] at hnodup
  refine .of_queue ⟨hsells, fun q x hx => h.buys q x ((hsub q).subset hx), hmet.covered h.covered,
    hmet.passed.quiet h.quiet, fun q x hx => h.unconditional q x ((hsub q).subset hx),
    fun q => (h.nodup q).sublist ((hsub q).map _), fun q => ?_, by rw [hmet.stops]; exact h.stopNodup,
    fun q x hx => ?_, fun q x hx => ?_, fun q e he => ?_⟩
    ⟨fun q => Chain.sells_sublist (hsub q), fun q x hx => ?_⟩ hmet.queue
  · by_cases hq : q = p
    · subst hq
      rw [hbuys, List.map_append, List.nodup_append]
      refine ⟨h.aonNodup q, by simp, fun i hi j hj hij => ?_⟩
      obtain ⟨x, hx, rfl⟩ := List.mem_map.mp hi
      obtain rfl := List.mem_singleton.mp hj
      cases (hij ▸ h.aons q x hx).symm.trans (h.limits q b hmem)
    · rw [hmet.aons q hq]
      exact h.aonNodup q
  · have hc := h.limits q x ((hsub q).subset hx)
    by_cases hq : q = p
    · subst hq
      rw [hcache, if_neg, hc]
      rw [hlim, ChainManager.elems_ofList] at hx
      exact fun hid => hnodup.1 (hid ▸ List.mem_map_of_mem hx)
    · exact hkept _ _ hc (by simp [hq])
  · by_cases hq : q = p
    · subst hq
      rw [hbuys, List.mem_append] at hx
      rcases hx with hx | hx
      · exact hkept _ _ (h.aons q x hx) (by simp)
      · rw [List.mem_singleton.mp hx, hcache, if_pos rfl]
    · rw [hmet.aons q hq] at hx
      exact hkept _ _ (h.aons q x hx) (by simp)
  · rw [hmet.stops] at he
    exact hkept _ _ (h.stops q e he) (by simp)
  · rcases hx with ⟨buys, hx⟩ | ⟨hx, hxA⟩
    · cases buys with
      | false =>
        have hx : x ∈ (w2.aons false q).elems := hx
        rw [hsells] at hx
        cases hx
      | true =>
        by_cases hq : q = p
        · subst hq
          have hx : x ∈ (w2.aons true q).elems := hx
          rw [hbuys, List.mem_append] at hx
          rcases hx with hx | hx
          · exact .inl ⟨true, hx⟩
          · obtain rfl := List.mem_singleton.mp hx
            exact .inr ⟨hmem, hA⟩
        · exact .inl ⟨true, hmet.aons q hq true ▸ hx⟩
    · exact .inr ⟨(hsub q).subset hx, hxA⟩

theorem wp_moveFrontAons_arranged (n : Nat) (h : w.Arranged)
    (hside : ∀ b ∈ (w.limits p).elems, b.isAON = true → p < w.ask) :
    wp (Chain.moveFrontAons p n) (fun _ w' => Relieved w w') NoState w := by
  induction n generalizing w with
  | zero => exact wp_pure (.refl h)
  | succ n ih =>
    unfold Chain.moveFrontAons
    refine wp_getSob_bind ?_
    split
    next => exact wp_pure (.refl h)
    next => exact wp_throw rfl
    next b bs hl =>
      refine wp_ite (fun hA => ?_) fun _ => wp_pure (.refl h)
      have hmem : b ∈ (w.limits p).elems := by rw [hl]; exact List.mem_cons_self
      have hc := h.limits p b hmem
      have hask : decide (p < w.ask) = true := decide_eq_true (hside b hmem hA)
      refine ((wp_copyBndlToAonChain w p b).mono (fun _ _ hq => hq) fun _ _ he => by
        cases hc.symm.trans he.2.1).bind ?_
      rintro _ _ ⟨c, hc', rfl⟩
      cases hc.symm.trans hc'
      rw [hask]
      let w0 := w.log (.copyBndlToAonChain w.toSob p b true)
      have h0 : w0.Arranged := h.of_files rfl ⟨h.quiet.stops, h.quiet.trailing⟩ rfl
      have hl0 : w0.limits p = some (b :: bs) := hl
      have h1 := Relieved.relocated h0 hl0 hA
      have hlim : (w0.copiedToAons true p b ⟨.limit, p⟩).limits p = some (b :: bs) :=
        (congrFun (limits_of_bookView (bookView_copiedToAons _ _ _ _ _)) p).trans hl
      have hset : ((w0.onSob (·.copiedToAons true p b ⟨.limit, p⟩)).onSob fun s =>
          s.setLimits p (ChainManager.ofList (s.limits p).elems.tail)) =
          (w0.onSob (·.copiedToAons true p b ⟨.limit, p⟩)).onSob
            (·.setLimits p (ChainManager.ofList bs)) := by
        simp only [World.onSob, hlim]
        rfl
      refine wp_modifySob_bind ?_
      rw [hset]
      refine (ih h1.arranged fun x hx hxA => ?_).post fun _ w2 h2 => ?_
      · exact hside b hmem hA
      · exact ⟨h2.arranged, h1.eased.trans h2.eased, (h1.trans h2).queue⟩

theorem wp_limitPop_arranged (h : w.Arranged) (ho : w.limitView.Ordered)
    (hc : w.idCache id = some ⟨.limit, p⟩) :
    wp (Chain.limitPop id) (fun b w' => b.Unconditional ∧ Relieved w w') NoState w := by
  unfold Chain.limitPop
  refine wp.bind (wp_fromCache (Q := fun c w' => w.idCache id = some c ∧ w' = w)
    (fun c hc => ⟨hc, rfl⟩) fun hn => by cases hc.symm.trans hn) ?_
  rintro c w ⟨hc', rfl⟩
  cases hc.symm.trans hc'
  refine wp_getSob_bind ?_
  dsimp only
  split
  next => exact wp_throw rfl
  next b hb =>
    have hmem := (Chain.findLimit_mem hb).1
    have huncond := h.unconditional p b hmem
    obtain ⟨h1, heased⟩ := h.erasedLimit hc
    have hside : ∀ x ∈ ((w.erasedLimit p id).limits p).elems, x.isAON = true → p < w.ask := by
      intro x hx hxA
      have hx : x ∈ (w.limits p).elems := by
        have hx : x ∈ ((w.setLimits p (ChainManager.ofList
            (Chain.eraseLimit (w.limits p).elems id))).limits p).elems := hx
        rw [Sob.limits_setLimits, if_pos rfl, ChainManager.elems_ofList] at hx
        exact (Chain.eraseLimit_sublist _ _).subset hx
      have hle : p ≤ w.bid := by simpa [h.buys p x hx hxA, Sob.limitView] using ho.side p x hx
      have hlt : w.bid < w.ask := ho.bid_lt_ask
      omega
    refine wp_modifySob_bind ((wp_moveFrontAons_arranged (w := w.onSob (·.erasedLimit p id)) _ h1
      hside).bind fun _ w1 h2 => ?_)
    have h2 : Relieved w w1 := ⟨h2.arranged, heased.trans h2.eased, h2.queue⟩
    refine wp_getSob_bind (wp_ite (fun _ => wp_modifySob_bind (wp_pure ⟨huncond, ?_⟩))
      fun _ => wp_pure ⟨huncond, h2⟩)
    obtain ⟨_, _, _, _, heq⟩ := Exec.Limit.adjustStateAfterPull_eq (decide (p ≤ w1.bid)) w1.toSob p
    have h3 : Relieved w1 (w1.onSob fun s =>
        Exec.Limit.adjustStateAfterPull (decide (p ≤ s.bid)) s p) := by
      have hfiles : (w1.onSob fun s => Exec.Limit.adjustStateAfterPull (decide (p ≤ s.bid)) s p).files =
          w1.files := by
        rw [World.toSob_onSob, heq]
        rfl
      refine .of_queue (h2.arranged.of_files hfiles ⟨?_, ?_⟩ ?_)
        (.of_chains (limits_of_files hfiles) (aons_of_files hfiles)) ?_ <;> rw [World.toSob_onSob, heq]
      · exact h2.arranged.quiet.stops
      · exact h2.arranged.quiet.trailing
    exact h2.trans h3

/-- `chain<aon_chain_type>::pop` of an order that rests in an AON chain. -/
theorem wp_aonPop_arranged (h : w.Arranged) (hc : w.idCache id = some ⟨.aonBuy, p⟩) :
    wp (Chain.aonPop id) (fun b w' => b ∈ (w.aons true p).elems ∧ b.id = id ∧
      w' = (w.log (.popAon w.toSob true p id)).onSob (·.erasedAon true p id)) (fun err _ => err = .undefinedBehaviour ∧
        ∀ b ∈ (w.aons true p).elems, b.id ≠ id) w := by
  unfold Chain.aonPop
  refine wp.bind (wp_fromCache (Q := fun c w' => w.idCache id = some c ∧ w' = w)
    (fun c hc => ⟨hc, rfl⟩) fun hn => by cases hc.symm.trans hn) ?_
  rintro c _ ⟨hc', rfl⟩
  cases hc.symm.trans hc'
  refine wp_ite (fun hty => by cases hty) fun _ => wp_ite (fun hty => by cases hty) fun _ =>
    wp_getSob_bind ?_
  dsimp only
  split
  next hn =>
    refine wp_throw ⟨rfl, fun b hb hid => Chain.findLimit_eq_none hn ?_⟩
    exact hid ▸ List.mem_map_of_mem hb
  next b hb =>
    obtain ⟨hmem, hid⟩ := Chain.findLimit_mem hb
    refine wp_getSob_bind (wp_record_bind (wp_modifySob_bind (wp_getSob_bind (wp_ite (fun he =>
      wp_modifySob_bind (wp_pure ⟨hmem, hid, ?_⟩)) fun he => wp_pure ⟨hmem, hid, ?_⟩)))) <;>
    · simp only [World.onSob, World.toSob_log, decide_true] at he
      simp only [World.onSob, World.toSob_log, Sob.erasedAon, he, decide_true, if_true, if_false, Bool.false_eq_true]

theorem Relieved.log (h : w.Arranged) (ev : Event) : Relieved w (w.log ev) :=
  .of_queue (h.of_files rfl ⟨h.quiet.stops, h.quiet.trailing⟩ rfl) (.refl _) rfl

theorem Relieved.report (h : w.Arranged) {msg : CallbackMsg} {cb : OrderExecCbBndl}
    {id1 id2 : Nat} {price : Int} {sz : Nat} :
    Relieved w (w.report msg cb id1 id2 price sz) := by
  obtain ⟨_, _, hrep⟩ := w.report_eq msg cb id1 id2 price sz
  have hfiles : (w.report msg cb id1 id2 price sz).files = w.files := files_report ..
  exact .of_queue (h.of_files hfiles h.quiet.report (by rw [hrep]))
    (.of_chains (limits_of_files hfiles) (aons_of_files hfiles)) (by rw [hrep])

theorem Relieved.traded (h : w.Arranged) (size idbuy idsell : Nat) (cbbuy cbsell : OrderExecCbBndl) :
    Relieved w (w.traded p size idbuy idsell cbbuy cbsell) := by
  obtain ⟨_, _, htr⟩ := w.traded_eq p size idbuy idsell cbbuy cbsell
  have hfiles : (w.traded p size idbuy idsell cbbuy cbsell).files = w.files := files_traded ..
  exact .of_queue (h.of_files hfiles (h.quiet.congr (stops_of_files hfiles) (by rw [htr]))
    (by rw [htr])) (.of_chains (limits_of_files hfiles) (aons_of_files hfiles)) (by rw [htr])

theorem Relieved.trailingErased (h : w.Arranged) (id : Nat) (isBuy : Bool) :
    Relieved w (w.onSob (·.trailingErased id isBuy)) := by
  have hf := files_trailingErased w.toSob id isBuy
  obtain ⟨h1, h2⟩ := h.quiet.trailing
  refine .of_queue (h.of_files hf (h.quiet.congr (stops_of_files hf) ?_) ?_)
    (.of_chains (limits_of_files hf) (aons_of_files hf)) ?_ <;> cases isBuy
  · simp [Sob.trailingErased, h2]
  · simp [Sob.trailingErased, h1]
  all_goals rfl

theorem pullLinkedOrder_unconditional {b : OrderBndl} (hb : b.Unconditional) :
    pullLinkedOrder b = pure () := by
  unfold pullLinkedOrder
  rw [if_neg]
  rcases hb with h | h <;>
    simp [OrderBndl.shouldPullLinked, OrderBndl.isOCO, OrderBndl.isActiveBracket,
      OrderBndl.isActiveTrailingBracket, h]

theorem wp_finishPull_arranged (h : w.Arranged) {pullLinked : OrderBndl → M Unit} {b : OrderBndl}
    (hb : pullLinked b = pure ()) :
    wp (finishPull pullLinked b) (fun _ w' => Relieved w w') NoState w := by
  unfold finishPull
  refine wp_ite (fun _ => wp_pure (.refl h)) fun _ => wp_record_bind (wp_pushExecCallback_bind ?_)
  rw [hb]
  have h1 := Relieved.log h (.pulled b.id b.sz)
  exact wp_pure (h1.trans (.report h1.arranged))

theorem wp_pullOrder_arranged (h : w.Arranged) (ho : w.limitView.Ordered) (id : Nat) :
    wp (pullOrder id) (fun _ w' => Relieved w w') NoState w := by
  unfold pullOrder pullOrderWith
  refine wp_getSob_bind ?_
  split
  next => exact wp_pure (.refl h)
  next c hc =>
    refine wp.tryCatch (E := fun err w' => err = .undefinedBehaviour ∨
      (∃ i, err = .orderNotInCache i) ∧ Relieved w w') ?_ fun err w1 he => ?_
    · obtain ⟨ty, p⟩ := c
      split
      next hty =>
        obtain rfl : ty = .limit := hty
        refine ((wp_limitPop_arranged h ho hc).mono (fun _ _ hq => hq) fun _ _ he => .inl he).bind
          fun b w1 ⟨hb, h1⟩ => ?_
        exact (wp_finishPull_arranged h1.arranged (pullLinkedOrder_unconditional hb)).mono
          (fun _ _ h2 => h1.trans h2) fun _ _ he => .inl he
      next hty =>
        obtain rfl : ty = .stop := hty
        refine ((wp_stopPop w id).mono (fun _ _ hq => hq) ?_).bind ?_
        · rintro err _ (he | ⟨rfl, -, rfl⟩)
          · exact .inl he
          · exact .inr ⟨⟨_, rfl⟩, .refl h⟩
        · rintro e _ ⟨c', hc', he, rfl⟩
          cases hc.symm.trans hc'
          obtain rfl := Chain.findStop_id he
          obtain ⟨h1, heased⟩ := h.erasedStop hc
          have h1 : Relieved w (w.onSob (·.erasedStop p e)) := .of_queue h1 heased
            (congrArg (·.2.2.1) (bookView_erasedStop w.toSob p e))
          have hunc := h.quiet.stops p e (Chain.findStop_mem he)
          refine ((wp_finishPull_arranged h1.arranged (pullLinkedOrder_unconditional hunc)).mono
            (fun _ _ h2 => h1.trans h2) fun _ _ he => .inl he).bind fun ok w2 h2 =>
              wp_ite (fun _ => wp_modifySob_bind (wp_pure ?_)) fun _ => wp_record_bind (wp_pure ?_)
          · exact h2.trans (.trailingErased h2.arranged e.id e.isBuy)
          · exact h2.trans (.log h2.arranged _)
      next hty =>
        obtain rfl : ty = .aonBuy := hty
        refine ((wp_aonPop_arranged h hc).mono (fun _ _ hq => hq) fun _ _ he => .inl he.1).bind ?_
        rintro b _ ⟨hb, rfl, rfl⟩
        obtain ⟨h1, heased⟩ := h.erasedAon hc
        have h1 : Relieved w ((w.log (.popAon w.toSob true p b.id)).onSob
            (·.erasedAon true p b.id)) := .of_queue h1 heased
          (congrArg (·.2.2.1) (bookView_erasedAon w.toSob true p b.id))
        exact (wp_finishPull_arranged h1.arranged rfl).mono (fun _ _ h2 => h1.trans h2)
          fun _ _ he => .inl he
      next hty =>
        -- the chains of the AON sells are all empty
        obtain rfl : ty = .aonSell := hty
        refine wp.bind (R := fun _ _ => False) ?_ fun _ _ hf => hf.elim
        unfold Chain.aonPop
        refine wp.bind (wp_fromCache (Q := fun c w' => w.idCache id = some c ∧ w' = w)
          (fun c hc => ⟨hc, rfl⟩) fun hn => by cases hc.symm.trans hn) ?_
        rintro c w ⟨hc', rfl⟩
        cases hc.symm.trans hc'
        refine wp_ite (fun hty => by cases hty) fun _ => wp_ite (fun hty => by cases hty) fun _ =>
          wp_getSob_bind ?_
        have hnone : w.aons false p = none := h.sells p
        simp only [reduceCtorEq, decide_false, hnone]
        exact wp_throw (.inl rfl)
    · split
      next => exact wp_pure (he.resolve_left (by simp)).2
      next hne =>
        refine wp_throw (he.resolve_right ?_)
        rintro ⟨⟨i, hi⟩, -⟩
        exact hne i hi

end Pops

end SimpleOrderbook
