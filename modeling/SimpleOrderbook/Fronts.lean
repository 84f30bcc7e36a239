import SimpleOrderbook.Resident

/-!
# The front of a limit chain

`_hit_chain` and `chain<limit_chain_type>::pop` mean the first order of a limit chain never to be
all-or-none, so that what rests behind it is found. A pop moves such an order away, unless it gives
up on one that is not in the cache. A hit does not, when it ends exactly at the end of the order in
front of it.

## Main results

* `Fronts` — what is known of the all-or-none orders of the limit chains, also while one is hit.
* `Run.fronts_plain` — no chain begins with an all-or-none order, in runs where no hit ends like that.
-/
namespace SimpleOrderbook

/-- The first order of every limit chain has another condition than all-or-none. -/
def Sob.FrontsPlain (s : Sob) : Prop := ∀ p b bs, s.limits p = some (b :: bs) → b.isAON = false

/-- Nothing is left of order `pos`, and the order behind it in the chain is all-or-none. -/
def Sob.ExposesAON (s : Sob) (plev pos : Nat) : Prop :=
  ∃ done b x rest, (s.limits plev).elems = done ++ b :: x :: rest ∧ b.id = pos ∧ b.sz = 0 ∧
    x.isAON = true

/-- No hit ended at the end of an order with an all-or-none order behind it, and no pop gave up on
an all-or-none order. -/
structure World.NoneExposed (w : World) : Prop where
  hits : ∀ s plev pos, .hitChainEnd s plev pos ∈ w.trace → ¬ s.ExposesAON plev pos
  pops : ∀ s p b buyLimit, .copyBndlToAonChain s p b buyLimit ∈ w.trace → s.idCache b.id ≠ none

theorem World.NoneExposed.of_suffix {w w' : World} (h : w'.NoneExposed) (ht : w.trace <:+ w'.trace) :
    w.NoneExposed :=
  ⟨fun s plev pos hm => h.hits s plev pos (ht.subset hm),
    fun s p b buyLimit hm => h.pops s p b buyLimit (ht.subset hm)⟩

/-! ## Marks -/

/-- The orders of a limit chain, each with whether it is all-or-none. -/
def Sob.marks (s : Sob) (p : Nat) : List (Nat × Bool) :=
  (s.limits p).elems.map fun b => (b.id, b.isAON)

/-- The first order of the chain of level `p`, if there is one, is not all-or-none. -/
def Sob.FrontPlain (s : Sob) (p : Nat) : Prop := ∀ x, (s.marks p).head? = some x → x.2 = false

section Marks
variable {s s' : Sob} {p q id : Nat}

theorem Sob.frontsPlain_iff : s.FrontsPlain ↔ ∀ p, s.FrontPlain p := by
  unfold Sob.FrontsPlain Sob.FrontPlain Sob.marks
  refine forall_congr' fun p => ?_
  cases hl : s.limits p with
  | none => simp
  | some l =>
    cases l with
    | nil => simp
    | cons b bs =>
      constructor
      · rintro h x hx
        cases hx
        exact h b bs rfl
      · rintro h b' bs' heq
        cases heq
        exact h _ rfl

theorem marks_of_limits (h : s'.limits = s.limits) (p : Nat) : s'.marks p = s.marks p := by
  unfold Sob.marks
  rw [h]

theorem mem_marks {b : LimitBndl} (hb : b ∈ (s.limits p).elems) : (b.id, b.isAON) ∈ s.marks p :=
  List.mem_map_of_mem hb

/-- Another bundle with the same condition is put in place of one of the chain. -/
theorem marks_updateLimit {f : LimitBndl → LimitBndl}
    (hf : ∀ b ∈ (s.limits p).elems, b.id = id → ((f b).id, (f b).isAON) = (b.id, b.isAON)) :
    (s.updateLimit p id f).marks q = s.marks q := by
  unfold Sob.marks
  rw [Sob.elems_updateLimit]
  split
  next hq =>
    subst hq
    generalize (s.limits q).elems = l at hf
    induction l with
    | nil => rfl
    | cons b bs ih =>
      unfold Chain.updateLimit
      split
      next hid => rw [List.map_cons, List.map_cons, hf b List.mem_cons_self hid]
      next => rw [List.map_cons, List.map_cons, ih fun x hx => hf x (List.mem_cons_of_mem _ hx)]
  next => rfl

/-- The order in front keeps being no all-or-none order. -/
theorem FrontPlain.updateAt {c : ChainIterWrap} {g : OrderBndl → OrderBndl}
    (hg : ∀ b, (g b).isAON = true → b.isAON = true) (h : s.FrontPlain p) :
    (s.updateAt c id g).FrontPlain p := by
  intro x hx
  unfold Sob.FrontPlain at h
  unfold Sob.marks at hx h
  rw [elems_updateAt] at hx
  split at hx
  next =>
    cases hl : (s.limits p).elems with
    | nil => rw [hl] at hx; cases hx
    | cons b bs =>
      have hb : b.isAON = false := h (b.id, b.isAON) (by rw [hl]; rfl)
      rw [hl] at hx
      unfold Chain.updateLimit at hx
      split at hx
      · cases hx
        exact Bool.eq_false_iff.mpr fun hA => by simp [hg b.toOrderBndl hA] at hb
      · cases hx
        exact hb
  next => exact h x hx

theorem FrontPlain.congr (h : s.FrontPlain p) (hm : s'.marks p = s.marks p) : s'.FrontPlain p :=
  fun x hx => h x (hm ▸ hx)

/-- Pulls and handlers add no order to a chain and make none all-or-none. -/
theorem Act.marks_subset {c c' : Config} (h : Act c c') (p : Nat) :
    ∀ x ∈ c'.2.marks p, x ∈ c.2.marks p := by
  intro x hx
  unfold Sob.marks at hx ⊢
  rcases h.elems with hsub | ⟨a, -, hres⟩
  · exact ((hsub p).map _).subset hx
  · rwa [(hres p).map_eq fun _ _ => rfl] at hx

end Marks

theorem OrderBndl.Settled.isAON_eq {b b' : OrderBndl} (h : b.Settled b') : b'.isAON = b.isAON := by
  cases h with
  | disarmed hA => exact hA.symm
  | _ => rfl

/-! ## In the middle of a hit -/

/-- `_hit_chain` finds no all-or-none order at the front of any chain. -/
def Event.HitsPlain : Event → Prop
  | .hitChain s _ _ => s.FrontsPlain
  | _ => True

/-- No chain begins with an all-or-none order, but for one that an order was just popped from. Of
the orders a hit has passed, only the one that acts may still be all-or-none. -/
structure Fronts (c : Config) : Prop where
  front : ∀ p, c.1.gap ≠ some p → c.2.FrontPlain p
  acting : ∀ h a, c.1.hit = some h → c.1.acting = some a →
    ∀ x ∈ c.2.marks h.plev, x.1 = a.bndl.id → x.2 = a.bndl.isAON
  passed : ∀ h, c.1.hit = some h → ∀ x ∈ c.2.marks h.plev, x.1 ∈ h.done → x.1 ∉ h.spent →
    x.2 = true → ∃ a, c.1.acting = some a ∧ a.bndl.id = x.1
  calls : ∀ ev ∈ c.2.trace, ev.HitsPlain

namespace Fronts
variable {c c' : Config} {F F' : Flight} {w w' : World}

theorem calls_of_news (h : Fronts c) {trace : List Event} (hn : News c trace) :
    ∀ ev ∈ trace, ev.HitsPlain := by
  intro ev hm
  rcases hn ev hm with hm | hev
  · exact h.calls ev hm
  cases ev with
  | hitChain s p n =>
    obtain ⟨rfl, hgap⟩ := hev s rfl
    have hgap : c.1.gap = none := hgap
    exact Sob.frontsPlain_iff.mpr fun q => h.front q (by simp [hgap])
  | _ => trivial

/-- The limit chains stay as they are. -/
theorem same (h : Fronts c) (hn : News c c'.2.trace) (hm : ∀ p, c'.2.marks p = c.2.marks p)
    (hgap : c'.1.gap = c.1.gap) (hhit : c'.1.hit = c.1.hit) (hact : c'.1.acting = c.1.acting) :
    Fronts c' := by
  refine ⟨fun p hp => FrontPlain.congr (h.front p (hgap ▸ hp)) (hm p), fun H a hH ha x hx => ?_,
    fun H hH x hx => ?_, h.calls_of_news hn⟩
  · exact h.acting H a (hhit ▸ hH) (hact ▸ ha) x (hm H.plev ▸ hx)
  · rw [hact]
    exact h.passed H (hhit ▸ hH) x (hm H.plev ▸ hx)

theorem act_front (h : Fronts c) (ha : Act c c') (hexp : c'.2.NoneExposed) (p : Nat)
    (hp : c'.1.gap ≠ some p) : c'.2.FrontPlain p := by
  cases ha with
  | report => exact FrontPlain.congr (h.front p hp) (marks_of_limits (limits_of_files (files_report ..)) p)
  | @popLimit F w id cw b hgap =>
    have hne : p ≠ cw.p := fun heq => hp (by rw [heq])
    refine FrontPlain.congr (h.front p (by simp [hgap])) ?_
    unfold Sob.marks
    simp [Sob.erasedLimit, hne]
  | @moveFront F w q b bs cw hgap hl hb hc =>
    have hne : p ≠ q := fun heq => hp (heq ▸ hgap)
    refine FrontPlain.congr (h.front p hp) ?_
    unfold Sob.marks
    rw [World.toSob_onSob, Sob.limits_setLimits, if_neg hne, World.toSob_onSob,
      limits_of_bookView (bookView_copiedToAons _ _ _ _ _)]
    rfl
  | @missFront F w q b bs hgap hl hb hc =>
    exact absurd hc (hexp.pops w.toSob q b (decide (q < w.ask)) List.mem_cons_self)
  | @settle F w q hgap hl =>
    have hlim := limits_of_files (Exec.Limit.files_adjustStateAfterPull (decide (q ≤ w.bid)) w.toSob q)
    by_cases heq : p = q
    · subst heq
      intro x hx
      unfold Sob.marks at hx
      rw [World.toSob_onSob, hlim, hl] at hx
      cases hx
    · refine FrontPlain.congr (h.front p fun hq => heq (Option.some.inj (hq.symm.trans hgap))) ?_
      exact marks_of_limits hlim p
  | @close F w q hgap hl hfront =>
    by_cases heq : p = q
    · subst heq
      intro x hx
      obtain ⟨l, hl'⟩ := Option.ne_none_iff_exists'.mp hl
      unfold Sob.marks at hx
      rw [hl'] at hx
      cases l with
      | nil => cases hx
      | cons b bs =>
        cases hx
        exact hfront b bs hl'
    · exact h.front p fun hq => heq (Option.some.inj (hq.symm.trans hgap))
  | popAon => exact FrontPlain.congr (h.front p hp) (marks_of_limits (limits_of_bookView (bookView_erasedAon ..)) p)
  | popStop => exact FrontPlain.congr (h.front p hp) (marks_of_limits (limits_of_bookView (bookView_erasedStop ..)) p)
  | trailingErase =>
    exact FrontPlain.congr (h.front p hp) (marks_of_limits (limits_of_files (files_trailingErased ..)) p)
  | grow | tell => exact FrontPlain.updateAt (fun _ hA => hA) (h.front p hp)
  | growBoth =>
    refine FrontPlain.updateAt (fun _ hA => hA) (FrontPlain.congr ?_
      (marks_of_limits (limits_of_files (files_report ..)) p))
    exact FrontPlain.updateAt (fun _ hA => hA) (h.front p hp)
  | _ => exact h.front p hp

theorem act (h : Fronts c) (ha : Act c c') (hexp : c'.2.NoneExposed) : Fronts c' := by
  have hhit := ha.flight.1
  refine ⟨h.act_front ha hexp, fun H a hH ha' x hx hid => ?_, fun H hH x hx hdone hspent hA => ?_,
    h.calls_of_news ha.news⟩
  · obtain ⟨a0, ha0, heq⟩ := ha.acting_bndl ha'
    rw [heq] at hid ⊢
    exact h.acting H a0 (hhit ▸ hH) ha0 x (ha.marks_subset _ x hx) hid
  · obtain ⟨⟨b, n, told⟩, ha0, hid⟩ :=
      h.passed H (hhit ▸ hH) x (ha.marks_subset _ x hx) hdone hspent hA
    obtain ⟨told', ha'⟩ := ha.acting ha0
    exact ⟨_, ha', hid⟩

/-- `h.plev` is not hit any more, and its chain begins with no all-or-none order. -/
theorem endHit (h : Fronts c) (hn : News c c'.2.trace) (hhit : c'.1.hit = none)
    (hgap : c'.1.gap = c.1.gap) {p : Nat} (hp : c'.2.FrontPlain p)
    (hm : ∀ q, q ≠ p → c'.2.marks q = c.2.marks q) : Fronts c' := by
  refine ⟨fun q hq => ?_, fun H a hH => by simp [hhit] at hH, fun H hH => by simp [hhit] at hH,
    h.calls_of_news hn⟩
  by_cases heq : q = p
  · exact heq ▸ hp
  · exact FrontPlain.congr (h.front q (hgap ▸ hq)) (hm q heq)

theorem frontPlain_of_none {s : Sob} {p : Nat} (h : s.limits p = none) : s.FrontPlain p := by
  intro x hx
  unfold Sob.marks at hx
  rw [h] at hx
  cases hx

/-- Behind the last order visited there is none, or one that the next request finds in front. -/
theorem eraseVisited_front (h : Fronts (F, w)) {H : Hit} {pos : Nat} {l : List LimitBndl}
    (hhit : F.hit = some H) (hact : F.acting = none) (hpos : H.done.getLast? = some pos)
    (hl : w.limits H.plev = some l)
    (hspent : eraseVisited pos l = l.filter (·.id ∉ H.spent))
    (hexp : ¬ w.ExposesAON H.plev pos) {b : LimitBndl} (hb : (eraseVisited pos l).head? = some b) :
    b.isAON = false := by
  have hmem : b ∈ eraseVisited pos l := List.mem_of_head? hb
  have hlive : b.id ∉ H.spent := by
    rw [hspent] at hmem
    simpa using (List.mem_filter.mp hmem).2
  unfold eraseVisited at hb
  cases hd : l.dropWhile (·.id ≠ pos) with
  | nil => rw [hd] at hb; cases hb
  | cons y ys =>
    have hy : y.id = pos := by
      have := List.head_dropWhile_not (fun z : LimitBndl => decide (z.id ≠ pos))
        (show l.dropWhile (·.id ≠ pos) ≠ [] by rw [hd]; exact List.cons_ne_nil _ _)
      simpa only [hd, List.head_cons, decide_eq_false_iff_not, not_not] using this
    have hsplit : l = l.takeWhile (·.id ≠ pos) ++ y :: ys := by
      rw [← hd, List.takeWhile_append_dropWhile]
    rw [hd] at hb
    dsimp only at hb
    split at hb
    next hz =>
      -- the hit ended at the end of `pos`
      cases ys with
      | nil => cases hb
      | cons z zs =>
        cases hb
        refine Bool.eq_false_iff.mpr fun hA => hexp
          ⟨l.takeWhile (·.id ≠ pos), y, b, zs, ?_, hy, hz, hA⟩
        rw [hl]
        exact hsplit
    next hz =>
      cases hb
      -- order `pos` was visited, and something is left of it
      refine Bool.eq_false_iff.mpr fun hA => ?_
      have hm : b ∈ (w.limits H.plev).elems := by
        rw [hl, ChainManager.elems_some, hsplit]
        simp
      have hdone : b.id ∈ H.done := hy ▸ List.mem_of_getLast? hpos
      obtain ⟨a, ha, -⟩ := h.passed H hhit _ (mem_marks hm) hdone hlive hA
      exact absurd (hact.symm.trans ha) (by simp)

theorem move (h : Fronts c) (hw : WellFormed c) (hm : Move c c')
    (hexp : c'.2.NoneExposed) : Fronts c' := by
  have hn := hm.news
  cases hm with
  | act ha => exact h.act ha hexp
  | call => exact h.same hn (fun _ => rfl) rfl rfl rfl
  | fillAon bidSide plev id size cb b kept bs =>
    refine h.same hn (marks_of_limits (limits_of_bookView ((bookView_setAons _ _ _ _).trans ?_)))
      rfl rfl rfl
    exact bookView_traded _ plev b.sz id b.id cb b.cb
  | fillLastAon bidSide plev id size cb b =>
    refine h.same hn (marks_of_limits (limits_of_bookView ((bookView_aonAdjust _ _ _).1.trans
      ((bookView_setAons _ _ _ _).trans ?_)))) rfl rfl rfl
    exact bookView_traded _ plev b.sz id b.id cb b.cb
  | freeAon =>
    refine h.same hn (marks_of_limits ?_) rfl rfl rfl
    exact limits_of_bookView ((bookView_aonAdjust _ _ _).1.trans (bookView_setAons _ _ _ _))
  | @beginHit F w plev id size hands hh hgap hhit hact hl =>
    refine ⟨h.front, fun H a hH ha => ?_, fun H hH x hx hd => ?_, h.calls_of_news hn⟩
    · exact absurd (hact.symm.trans ha) (by simp)
    · cases hH
      cases hd
  | @skip F w H i todo hhit htodo hl =>
    refine ⟨h.front, fun H' a hH ha => ?_, fun H' hH => ?_, h.calls_of_news hn⟩ <;> cases hH
    · exact h.acting H a hhit ha
    · exact h.passed H hhit
  | @moveHit F w H id size b cw todo hands hgap hact hh hhit htodo hl hsize hb hsz hnew hc =>
    have hmarks : ∀ q, ((w.copiedToAons (decide (H.plev < w.ask)) H.plev b cw).updateLimit H.plev b.id
        fun x => { x with sz := 0 }).marks q = w.marks q := fun q => by
      rw [marks_updateLimit (f := fun x : LimitBndl => { x with sz := 0 }) fun _ _ _ => rfl]
      exact marks_of_limits (limits_of_bookView (bookView_copiedToAons _ _ _ _ _)) q
    refine ⟨fun q hq => FrontPlain.congr (h.front q hq) (hmarks q), fun H' a hH ha => ?_,
      fun H' hH x hx hd hs hA => ?_, h.calls_of_news hn⟩
    · exact absurd (hact.symm.trans ha) (by simp)
    · cases hH
      rcases List.mem_append.mp hd with hd | hd
      · exact h.passed H hhit x (hmarks _ ▸ hx) hd (fun hs' => hs (List.mem_cons_of_mem _ hs')) hA
      · exact absurd (List.mem_singleton.mp hd ▸ List.mem_cons_self) hs
  | @fill F w H id size cb b todo hands hh hhit htodo hl hsize hb hact hscan =>
    have hmarks : ∀ q, (w.traded H.plev (min size b.sz) id b.id cb b.cb).marks q = w.marks q :=
      marks_of_limits (limits_of_files (files_traded ..))
    refine ⟨fun q hq => FrontPlain.congr (h.front q hq) (hmarks q), fun H' a hH ha x hx hid => ?_,
      fun H' hH x hx hd hs hA => ?_, h.calls_of_news hn⟩
    · cases hH
      cases ha
      obtain ⟨y, hy, rfl⟩ := List.mem_map.mp (hmarks _ ▸ hx)
      obtain ⟨hbm, -⟩ := Chain.findLimit_mem hl
      obtain rfl : y = b := List.inj_on_of_nodup_map (hw.ambient.nodup H.plev) hy hbm hid
      rfl
    · cases hH
      rcases List.mem_append.mp hd with hd | hd
      · obtain ⟨a, ha, -⟩ := h.passed H hhit x (hmarks _ ▸ hx) hd hs hA
        exact absurd (hact.symm.trans ha) (by simp)
      · exact ⟨_, rfl, (List.mem_singleton.mp hd).symm⟩
  | @rearm F w H a b' hgap hhit ha hb =>
    refine h.same hn (fun q => marks_updateLimit fun x hx hid => ?_) rfl rfl rfl
    have hmark := h.acting H a hhit ha _ (mem_marks hx) hid
    exact Prod.ext rfl (hb.isAON_eq.trans hmark.symm)
  | @reduce F w H a x hgap hhit ha hx hsz hAON =>
    have hmarks : ∀ q, (w.reduced H.plev a.bndl.id a.amount).marks q = w.marks q := fun q =>
      marks_updateLimit fun _ _ _ => rfl
    refine ⟨fun q hq => FrontPlain.congr (h.front q hq) (hmarks q), fun H' a' hH ha' => (by cases ha'),
      fun H' hH y hy hd hs hA => ?_, h.calls_of_news hn⟩
    have hy := hmarks _ ▸ hy
    obtain ⟨a', ha', hid⟩ := h.passed H' hH y hy hd hs hA
    obtain rfl : a = a' := Option.some.inj (ha.symm.trans ha')
    have := h.acting H' a hH ha y hy hid.symm
    rw [hAON, hA] at this
    cases this
  | @retire F w H a x hgap hhit ha hx hsz hnew =>
    have hmarks : ∀ q, (w.reduced H.plev a.bndl.id a.amount).marks q = w.marks q := fun q =>
      marks_updateLimit fun _ _ _ => rfl
    refine ⟨fun q hq => FrontPlain.congr (h.front q hq) (hmarks q), fun H' a' hH ha' => (by cases ha'),
      fun H' hH y hy hd hs hA => ?_, h.calls_of_news hn⟩
    cases hH
    obtain ⟨a', ha', hid⟩ := h.passed H hhit y (hmarks _ ▸ hy) hd
      (fun hs' => hs (List.mem_cons_of_mem _ hs')) hA
    obtain rfl : a = a' := Option.some.inj (ha.symm.trans ha')
    exact absurd (hid ▸ List.mem_cons_self) hs
  | @eraseHit F w H pos l hgap hact hhit hpos hl hspent hne hend =>
    obtain ⟨trace, htrace⟩ := hend
    have hnot := hexp.hits w.toSob H.plev pos (by
      change _ ∈ w.trace
      rw [htrace]
      exact List.mem_cons_self)
    refine h.endHit hn rfl rfl (p := H.plev) (fun x hx => ?_) fun q hq => ?_
    · unfold Sob.marks at hx
      rw [World.toSob_onSob, Sob.limits_setLimits, if_pos rfl, ChainManager.elems_some,
        List.head?_map] at hx
      obtain ⟨b, hb, rfl⟩ := Option.map_eq_some_iff.mp hx
      exact h.eraseVisited_front hhit hact hpos hl hspent hnot hb
    · unfold Sob.marks
      rw [World.toSob_onSob, Sob.limits_setLimits, if_neg hq]
  | @freeHit F w bidSide H =>
    refine h.endHit hn rfl rfl (p := H.plev) (frontPlain_of_none ?_) fun q hq => ?_
    · rw [World.toSob_onSob, limits_of_files (Exec.Core.files_findNewBestInside _ _),
        Sob.limits_setLimits, if_pos rfl]
    · unfold Sob.marks
      rw [World.toSob_onSob, limits_of_files (Exec.Core.files_findNewBestInside _ _),
        Sob.limits_setLimits, if_neg hq]
  | @wipeHit F w bidSide H =>
    refine h.endHit hn rfl rfl (p := H.plev) (frontPlain_of_none ?_) fun q hq => ?_
    · rw [World.toSob_onSob, limits_of_files (Exec.Core.files_findNewBestInside _ _),
        Sob.limits_setLimits, if_pos rfl]
    · unfold Sob.marks
      rw [World.toSob_onSob, limits_of_files (Exec.Core.files_findNewBestInside _ _),
        Sob.limits_setLimits, if_neg hq]
  | missHit =>
    exact ⟨h.front, fun H a hH => (by cases hH), fun H hH => (by cases hH), h.calls_of_news hn⟩
  | moveStop => exact h.same hn (marks_of_limits (limits_of_bookView (bookView_movedStop ..))) rfl rfl rfl
  | detach =>
    exact h.same hn (marks_of_limits (limits_of_bookView
      ((bookView_stopAdjust _ _ _).2.2.trans (bookView_setStops _ _ _)))) rfl rfl rfl
  | @beginTrigger F w d e todo hdet htodo hact hhit =>
    exact ⟨h.front, fun H a hH => absurd (hhit.symm.trans hH) (by simp),
      fun H hH => absurd (hhit.symm.trans hH) (by simp), h.calls_of_news hn⟩
  | @endTrigger F w d id hdet hturn hhit =>
    exact ⟨h.front, fun H a hH => absurd (hhit.symm.trans hH) (by simp),
      fun H hH => absurd (hhit.symm.trans hH) (by simp), h.calls_of_news hn⟩
  | eraseTriggered =>
    exact h.same hn (marks_of_limits (limits_of_files (files_trailingErased ..))) rfl rfl rfl
  | turn => exact h.same hn (marks_of_limits (limits_of_files (files_turned ..))) rfl rfl rfl
  | _ => exact h.same hn (fun _ => rfl) rfl rfl rfl

theorem step (h : Fronts c) (hw : WellFormed c) (hnt : c.1.NoTrade) (hs : Step c c')
    (hexp : c'.2.NoneExposed) (htrade : Moves c c' → Fronts c') : Fronts c' := by
  -- between trades only the fronts matter
  have hfront : News c c'.2.trace → c'.1.hit = none → (∀ p, c'.1.gap ≠ some p → c'.2.FrontPlain p) →
      Fronts c' := fun hn hhit hf =>
    ⟨hf, fun H a hH => by simp [hhit] at hH, fun H hH => by simp [hhit] at hH, h.calls_of_news hn⟩
  have harm : ∀ {s : Sob} {cw : ChainIterWrap} {id : Nat} {cond : OrderCondition}
      {trig : ConditionTrigger} {pay : Payload} {p : Nat}, cond ≠ .allOrNone → s.FrontPlain p →
      (s.armed cw id cond trig pay).FrontPlain p := fun hcond hp =>
    FrontPlain.updateAt (fun b hA => absurd (of_decide_eq_true hA) hcond) hp
  cases hs with
  | act ha => exact h.act ha hexp
  | trade bidSide plev id size r cb hF hp hpe hrun hm => exact htrade hm
  | @kill F w e cb id sz price =>
    refine h.same ?_ (marks_of_limits (limits_of_files (files_report ..))) rfl rfl rfl
    rw [trace_report]
    exact (News.refl (F, w)).cons_none rfl
  | @print F w p id1 id2 sz1 sz2 n cb1 cb2 =>
    refine h.same ?_ (marks_of_limits (limits_of_files (files_traded ..))) rfl rfl rfl
    rw [trace_traded]
    exact ((((News.refl (F, w)).cons ⟨rfl, by exact trivial⟩).cons_none rfl).cons_none rfl).cons_none rfl
  | @accept F w e =>
    exact h.same ((News.refl (F, w)).cons_none rfl) (fun _ => rfl) rfl rfl rfl
  | @pushLimit F w buy p b hands ids hgap hh hids hsz hp hpe hs hside hpay hAON =>
    refine hfront (.refl (F, w)) hnt.hit fun q hq => ?_
    have hold := h.front q hq
    by_cases hqp : q = p
    · subst hqp
      intro x hx
      unfold Sob.FrontPlain at hold
      unfold Sob.marks at hx hold
      rw [World.toSob_onSob, limits_limitPush, if_pos rfl, ChainManager.elems_push] at hx
      cases hl : w.limits q with
      | none =>
        rw [hl] at hx
        cases hx
        exact Bool.eq_false_iff.mpr fun hA => hAON hA hl
      | some l =>
        -- the new order goes behind the ones that rest
        have hne : w.limits q ≠ some [] := (hw.ambient.limitInv hgap).nonempty q
        cases l with
        | nil => exact absurd hl hne
        | cons y ys =>
          rw [hl] at hx hold
          cases hx
          exact hold _ rfl
    · refine FrontPlain.congr hold ?_
      unfold Sob.marks
      rw [World.toSob_onSob, limits_limitPush, if_neg hqp]
  | @pushAon F w buy p b =>
    exact h.same (.refl (F, w)) (marks_of_limits (limits_of_bookView (bookView_aonPush ..))) rfl rfl rfl
  | @pushStop F w p b =>
    exact h.same (.refl (F, w)) (marks_of_limits (limits_stopPush ..)) rfl rfl rfl
  | @arm F w e id cw payload hgap he hl hc hcond =>
    refine hfront (.refl (F, w)) hnt.hit fun q hq => harm ?_ (h.front q hq)
    rcases hcond with ⟨hc, -⟩ | ⟨hc | hc | hc, -⟩ <;> rw [hc] <;> exact fun h => by cases h
  | @link F w e op id1 id2 c1 c2 hgap he hcond =>
    have hne : e.condition ≠ .allOrNone := by rw [hcond]; exact fun h => by cases h
    exact hfront (.refl (F, w)) hnt.hit fun q hq => harm hne (harm hne (h.front q hq))
  | @openLoss F w e l cw p b nticks1 nticks2 ids hgap he hl hids hcond =>
    have hne : e.condition ≠ .allOrNone := by
      rcases hcond with hc | hc <;> rw [hc] <;> exact fun h => by cases h
    refine hfront (.refl (F, w)) hnt.hit fun q hq => ?_
    exact FrontPlain.congr (harm hne (h.front q hq)) (marks_of_limits (limits_stopPush ..) q)
  | @announce F w => exact h.same (.refl (F, w)) (fun _ => rfl) rfl rfl rfl
  | @trailingInsert F w id isBuy nticks =>
    exact h.same ((News.refl (F, w)).cons_none rfl)
      (marks_of_limits (limits_of_files (files_trailingInserted ..))) rfl rfl rfl
  | @tellEntry F w e id cw payload =>
    exact hfront (.refl (F, w)) hnt.hit fun q hq => FrontPlain.updateAt (fun _ hA => hA) (h.front q hq)
  | @beginOrder F w => exact h.same (.refl (F, w)) (fun _ => rfl) rfl rfl rfl
  | @endOrder F w => exact h.same (.refl (F, w)) (fun _ => rfl) rfl rfl rfl
  | @addLeg F w => exact h.same (.refl (F, w)) (fun _ => rfl) rfl rfl rfl
  | @finish F w => exact h.same (.refl (F, w)) (fun _ => rfl) rfl rfl rfl
  | @forget F w => exact h.same (.refl (F, w)) (fun _ => rfl) rfl rfl rfl

theorem grow {qe : Option OrderQueueElem} {base : Int} {incr : Nat} {atBeg : Bool}
    (h : Fronts (.opened qe, w)) (hincr : incr ≠ 0) :
    Fronts (.opened qe, { w with toSob := growBook base incr atBeg w.toSob }) := by
  refine ⟨fun p _ x hx => ?_, fun H a hH => (by cases hH), fun H hH => (by cases hH), h.calls⟩
  have hlim : (growBook base incr atBeg w.toSob).limits p =
      if p < growOffset incr atBeg then none else w.limits (p - growOffset incr atBeg) := by
    rw [growBook_of_ne hincr]
    unfold Sob.limits resetInternalPointers
    dsimp only
    split <;> rfl
  unfold Sob.marks at hx
  rw [hlim] at hx
  split at hx
  · cases hx
  · exact h.front _ (fun hg => by cases hg) x hx

theorem close {qe qe' : Option OrderQueueElem} (h : Fronts (.opened qe, w)) (hc : w.ClosesTo w') :
    Fronts (.opened qe', w') := by
  obtain ⟨⟨cbs, queue, hs⟩, ht⟩ := hc
  refine ⟨fun p hp => ?_, fun H a hH => (by cases hH), fun H hH => (by cases hH), fun ev hm => ?_⟩
  · change w'.toSob.FrontPlain p
    rw [hs]
    exact h.front p hp
  · rcases ht with ht | ⟨dropped, ht⟩
    · exact h.calls ev (ht ▸ hm)
    · rw [ht] at hm
      rcases List.mem_cons.mp hm with rfl | hm
      · trivial
      · exact h.calls ev hm

theorem initial (h : Initial w) (qe : Option OrderQueueElem) : Fronts (.opened qe, w) := by
  obtain ⟨⟨base, incr, -, -, hw⟩, htrace⟩ := h
  refine ⟨fun p _ => frontPlain_of_none ?_, fun H a hH => (by cases hH), fun H hH => (by cases hH),
    fun ev hm => ?_⟩
  · rw [hw]
    rfl
  · rw [htrace] at hm
    cases hm

theorem kept : Kept fun c => c.2.NoneExposed → Fronts c where
  move hw hm h hexp := (h (hexp.of_suffix hm.trace_suffix)).move hw hm hexp
  step hw hnt hs h htrade hexp :=
    (h (hexp.of_suffix hs.trace_suffix)).step hw hnt hs hexp fun hm => htrade hm hexp
  grow _ hincr h hexp := (h ⟨hexp.hits, hexp.pops⟩).grow hincr
  close h hc hexp := (h (hexp.of_suffix hc.trace_suffix)).close hc

end Fronts

/-! ## Runs -/

/-- In a run without exceptions no limit chain begins with an all-or-none order, neither at the end
of a window nor when `_hit_chain` is called, if no hit ended at the end of an order with one behind
it and no pop gave up on one that is not in the cache. -/
theorem Run.fronts_plain {w₀ w : World} {rs : List (Request × Outcome)} (h0 : Initial w₀)
    (h : Run w₀ rs w) (hv : ∀ x ∈ rs, x.2.isValue = true)
    (hhits : ∀ s plev pos, .hitChainEnd s plev pos ∈ w.trace → ¬ s.ExposesAON plev pos)
    (hpops : ∀ s p b buyLimit, .copyBndlToAonChain s p b buyLimit ∈ w.trace →
      s.idCache b.id ≠ none) :
    w.FrontsPlain ∧ ∀ s p n, .hitChain s p n ∈ w.trace → s.FrontsPlain := by
  have hf : Fronts (.opened none, w) :=
    Fronts.kept.run_value h0 (fun qe _ => .initial h0 qe) h hv none ⟨hhits, hpops⟩
  exact ⟨Sob.frontsPlain_iff.mpr fun p => hf.front p fun hg => (by cases hg),
    fun s p n hm => hf.calls _ hm⟩

/-- A hit that left something of its last order or met no all-or-none order, and a pop that found the
order in the cache. -/
def Event.LeavesFront : Event → Bool
  | .hitChainEnd s plev pos => (s.limits plev).elems.all (fun b => decide (b.id = pos → b.sz ≠ 0)) ||
      (s.limits plev).elems.all fun b => ! b.isAON
  | .copyBndlToAonChain s _ b _ => (s.idCache b.id).isSome
  | _ => true

theorem Sob.not_exposesAON {s : Sob} {plev pos : Nat} (h : Event.LeavesFront (.hitChainEnd s plev pos)) :
    ¬ s.ExposesAON plev pos := by
  rintro ⟨done, b, x, rest, hl, hid, hz, hA⟩
  have hb : b ∈ (s.limits plev).elems := by simp [hl]
  have hx : x ∈ (s.limits plev).elems := by simp [hl]
  rcases (Bool.or_eq_true _ _).mp h with h | h
  · exact of_decide_eq_true (List.all_eq_true.mp h b hb) hid hz
  · simpa [hA] using List.all_eq_true.mp h x hx

/-- Part of the order in front is filled and the rest pulled, and the AON behind it is moved away. -/
theorem fronts_plain_after_pull : ∃ rs w, Run (World.create 1 20) rs w ∧
    rs.map (·.1) = [.limit true 5 3, .limit true 5 10 { condition := .allOrNone }, .limit true 5 4,
      .market false 2, .pullOrder 1 .synchronous] ∧
    (w.limits 5).elems.map (·.id) = [3] ∧ (w.aons true 5).elems.map (·.id) = [2] ∧
    w.FrontsPlain ∧ ∀ s p n, .hitChain s p n ∈ w.trace → s.FrontsPlain := by
  obtain ⟨rs, w, h, hrs, hw⟩ := Run.exists_of_execAll 0
    [.limit true 5 3, .limit true 5 10 { condition := .allOrNone }, .limit true 5 4,
      .market false 2, .pullOrder 1 .synchronous]
    (f := fun os w => (os.all Outcome.isValue, w.trace.all Event.LeavesFront,
      (w.limits 5).elems.map (·.id), (w.aons true 5).elems.map (·.id)))
    (v := (true, true, [3], [2])) (w := World.create 1 20) (by decide +kernel)
  obtain ⟨hall, hfront, hlim, haons⟩ : _ ∧ _ ∧ _ ∧ _ := by simpa only [Prod.mk.injEq] using hw
  have hev := List.all_eq_true.mp hfront
  exact ⟨rs, w, h, hrs, hlim, haons, h.fronts_plain (initial_create (by decide) (by decide))
    (fun x hx => List.all_eq_true.mp hall x.2 (List.mem_map_of_mem hx))
    (fun s plev pos hm => Sob.not_exposesAON (hev _ hm))
    fun s p b buyLimit hm => Option.isSome_iff_ne_none.mp (hev _ hm)⟩

/-- A market order that takes all of the first order leaves the all-or-none order behind it in front,
and at the next hit it is there. -/
theorem aon_left_at_front : ∃ rs w, Run (World.create 1 20) rs w ∧
    rs.map (·.1) = [.limit true 5 3, .limit true 5 10 { condition := .allOrNone },
      .market false 3] ∧ (∀ ro ∈ rs, ro.2.isValue) ∧ ¬ w.FrontsPlain := by
  obtain ⟨rs, w, h, hrs, hw⟩ := Run.exists_of_execAll 0
    [.limit true 5 3, .limit true 5 10 { condition := .allOrNone }, .market false 3]
    (f := fun os w => (os.all Outcome.isValue, ((w.limits 5).elems.head?.map (·.isAON))))
    (v := (true, some true)) (w := World.create 1 20) (by decide +kernel)
  obtain ⟨hall, hhead⟩ := Prod.mk.inj hw
  refine ⟨rs, w, h, hrs, fun ro hro => List.all_eq_true.mp hall ro.2 (List.mem_map_of_mem hro),
    fun hf => ?_⟩
  obtain ⟨b, hb, hA⟩ := Option.map_eq_some_iff.mp hhead
  cases hl : w.limits 5 with
  | none => rw [hl] at hb; cases hb
  | some l =>
    cases l with
    | nil => rw [hl] at hb; cases hb
    | cons x xs =>
      rw [hl] at hb
      cases hb
      rw [hf 5 b xs hl] at hA
      cases hA

end SimpleOrderbook
