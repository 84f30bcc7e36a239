import SimpleOrderbook.Links

/-!
# Chains and cache between windows

Between two windows every cached order is in one chain, at the level its cache entry names, and the
other way round, as long as no limit chain was hit with nothing to trade and no window was left in
the middle of a call that walks a chain.
-/
namespace SimpleOrderbook

/-- No limit chain was hit with nothing to trade. -/
def World.NoEmptyHit (w : World) : Prop := ∀ s p, .hitChain s p 0 ∉ w.trace

/-- A limit chain was hit with nothing to trade. -/
def Event.isEmptyHit : Event → Bool
  | .hitChain _ _ size => size = 0
  | _ => false

theorem World.noEmptyHit_of_all {w : World} (h : w.trace.all fun ev => ! ev.isEmptyHit) :
    w.NoEmptyHit := fun s p hm => by
  have := List.all_eq_true.mp h _ hm
  simp [Event.isEmptyHit] at this

/-- A window that closes as the request's author could expect. -/
def Outcome.Expected : Outcome → Prop
  | .value .. => True
  | .exception err => err.expected

theorem Outcome.expected_of_isValue {o : Outcome} (h : o.isValue) : o.Expected := by
  cases o with
  | value => trivial
  | exception => cases h

theorem World.NoEmptyHit.of_suffix {w w' : World} (h : w'.NoEmptyHit) (ht : w.trace <:+ w'.trace) :
    w.NoEmptyHit := fun s p hm => h s p (ht.subset hm)

/-- Cache, chains and links in the middle of a window. -/
structure Sorted (c : Config) : Prop where
  shelved : Shelved c.1 c.2
  links : Links c.1 c.2

theorem Step.sorted {c c' : Config} (h : Step c c') (ha : Ambient c.1 c.2) (hi : Sorted c)
    (hzero : c'.2.NoEmptyHit) : Sorted c' :=
  ⟨h.shelved hi.shelved ha (fun _ hm => (Moves.links hm hi.links).linksApart) hzero,
    h.links hi.links ha hi.shelved⟩

theorem Steps.sorted {c c' : Config} (h : Steps c c') (ha : Ambient c.1 c.2) (hi : Sorted c)
    (hzero : c'.2.NoEmptyHit) : Sorted c' := by
  induction h with
  | refl => exact hi
  | tail h h' ih => exact h'.sorted (Steps.ambient h ha) (ih (hzero.of_suffix h'.trace_suffix)) hzero

/-! ## The order of a request -/

theorem checkOrderSize_ok {size : Nat} {u : Unit} (h : checkOrderSize size = .ok u) : size ≠ 0 := by
  rintro rfl
  cases h

/-- An order a client inserts has a size. -/
theorem Request.size_ne_zero {r : Request} {ee : ExternalOrderQueueElem}
    (h : r.action = .ok (.external ee)) (hty : ee.type ≠ .null) : ee.sz ≠ 0 := by
  cases r with
  | insertLimitOrder | insertMarketOrder | insertStopOrder =>
    obtain ⟨_, hsz, h⟩ := Except.bind_ok h
    repeat obtain ⟨_, -, h⟩ := Except.bind_ok h
    cases h
    exact checkOrderSize_ok hsz
  | replaceWithLimitOrder | replaceWithMarketOrder | replaceWithStopOrder =>
    obtain ⟨_, hsz, h⟩ := Except.bind_ok h
    repeat obtain ⟨_, -, h⟩ := Except.bind_ok h
    cases h
    exact checkOrderSize_ok (Except.bind_ok hsz).choose_spec.1
  | pullOrder =>
    obtain ⟨_, -, h⟩ := Except.bind_ok h
    cases h
    exact absurd rfl hty
  | growBookAbove | growBookBelow => cases h

theorem buildPriceParams_ok {s : Sob} {size : Nat} {order : Option OrderParamaters}
    {op : OrderParamaters} (h : buildPriceParams s size order = .ok op) : op.size ≠ 0 := by
  unfold buildPriceParams at h
  split at h
  · cases h
  next hsz =>
    obtain ⟨o, -, h⟩ := Except.bind_ok h
    split at h
    all_goals
      repeat obtain ⟨_, -, h⟩ := Except.bind_ok h
      cases h
    all_goals exact hsz

/-- The order a one-cancels-other or one-triggers-other ticket holds has a size. -/
theorem buildAdvancedParams_ok {s : Sob} {buy : Bool} {size : Nat} {aot : AdvancedOrderTicket}
    {cp1 cp2 : Option OrderParamaters} (h : buildAdvancedParams s buy size aot = .ok (cp1, cp2))
    (hc : aot.condition = .oneCancelsOther ∨ aot.condition = .oneTriggersOther) :
    ∃ op, cp1 = some op ∧ op.size ≠ 0 := by
  unfold buildAdvancedParams at h
  rcases hc with hc | hc <;> rw [hc] at h <;> dsimp only at h
  all_goals
    obtain ⟨o, -, h⟩ := Except.bind_ok h
    obtain ⟨pp1, hpp, h⟩ := Except.bind_ok h
    cases h
    exact ⟨pp1, rfl, buildPriceParams_ok hpp⟩

theorem checkLimitOrder_ok {buy : Bool} {limit : Int} {op : OrderParamaters} {oc : OrderCondition}
    {u : Unit} (h : checkLimitOrder buy limit (some op) oc = .ok u)
    (hty : op.getOrderType = .limit) : limit ≠ op.limitPrice := by
  obtain ⟨o, ho, h⟩ := Except.bind_ok h
  cases ho
  split at h
  · cases h
  · rw [hty] at h
    dsimp only at h
    split at h
    · cases h
    · split at h
      · cases h
      · split at h
        · cases h
        next hne => exact fun heq => hne heq.symm

/-- What is checked of an order before it is inserted. -/
structure OrderQueueElem.Valid (e : OrderQueueElem) : Prop where
  sz : e.sz ≠ 0
  checked : e.Checked
  order1 : e.condition = .oneCancelsOther ∨ e.condition = .oneTriggersOther →
    ∀ op, e.cparams1 = some op → op.size ≠ 0
  inactive : e.condition ≠ .trailingBracketActive

/-- A client opens the exits of an order by a ticket, and never as orders of their own. -/
theorem orderQueueElem_inactive {s : Sob} {ee : ExternalOrderQueueElem} {e : OrderQueueElem}
    (h : orderQueueElem s ee = .ok e) : e.condition ≠ .trailingBracketActive := by
  have hadv : ∀ {cps}, buildAdvancedParams s ee.isBuy ee.sz ee.aot = .ok cps →
      ee.aot.condition ≠ .trailingBracketActive := fun hb hc => by
    unfold buildAdvancedParams at hb
    rw [hc] at hb
    cases hb
  unfold orderQueueElem at h
  dsimp only at h
  split at h
  · split at h
    · obtain ⟨⟨cp1, cp2⟩, hb, h⟩ := Except.bind_ok h
      cases h
      exact hadv hb
    next hnone =>
      cases h
      exact fun hc => hnone (by simp [show ee.aot.condition = _ from hc])
  · obtain ⟨limit, -, h⟩ := Except.bind_ok h
    split at h
    · obtain ⟨⟨cp1, cp2⟩, hb, h⟩ := Except.bind_ok h
      obtain ⟨_, -, h⟩ := Except.bind_ok h
      cases h
      exact hadv hb
    next hnone =>
      cases h
      exact fun hc => hnone (by simp [show ee.aot.condition = _ from hc])
  iterate 2
    · obtain ⟨limit, -, h⟩ := Except.bind_ok h
      obtain ⟨stop, -, h⟩ := Except.bind_ok h
      split at h
      · obtain ⟨⟨cp1, cp2⟩, hb, h⟩ := Except.bind_ok h
        obtain ⟨o, -, h⟩ := Except.bind_ok h
        split at h
        · cases h
        · obtain ⟨_, -, h⟩ := Except.bind_ok h
          cases h
          exact hadv hb
      next hnone =>
        cases h
        exact fun hc => hnone (by simp [show ee.aot.condition = _ from hc])
  · cases h

theorem orderQueueElem_ok {s : Sob} {ee : ExternalOrderQueueElem} {e : OrderQueueElem}
    (h : orderQueueElem s ee = .ok e) (hsz : ee.type ≠ .null → ee.sz ≠ 0) : e.Valid := by
  suffices e.sz ≠ 0 ∧ (e.condition = .oneCancelsOther ∨ e.condition = .oneTriggersOther →
      ∀ op, e.cparams1 = some op → op.size ≠ 0) ∧ (e.condition = .oneCancelsOther →
        ∀ op, e.cparams1 = some op → e.type = .limit → op.getOrderType = .limit →
          e.limit ≠ op.limitPrice) from
    ⟨this.1, fun hc => ⟨this.1, fun op hop => ⟨this.2.1 (.inl hc) op hop, this.2.2 hc op hop⟩⟩,
      this.2.1, orderQueueElem_inactive h⟩
  unfold orderQueueElem at h
  dsimp only at h
  split at h
  next hty =>
    split at h
    · obtain ⟨⟨cp1, cp2⟩, hb, h⟩ := Except.bind_ok h
      cases h
      refine ⟨hsz (by simp [hty]), fun hc op hop => ?_, fun hc op hop hlim => ?_⟩
      · obtain ⟨op', rfl, hne⟩ := buildAdvancedParams_ok hb hc
        cases hop
        exact hne
      · exact absurd (hlim.symm.trans hty) (by simp)
    next hadv =>
      cases h
      have hnone : ee.aot.condition = .none := not_not.mp hadv
      refine ⟨hsz (by simp [hty]), fun hc => ?_, fun hc => ?_⟩ <;> simp [hnone] at hc
  next hty =>
    obtain ⟨limit, hl, h⟩ := Except.bind_ok h
    split at h
    · obtain ⟨⟨cp1, cp2⟩, hb, h⟩ := Except.bind_ok h
      obtain ⟨_, hck, h⟩ := Except.bind_ok h
      cases h
      refine ⟨hsz (by simp [hty]), fun hc op hop => ?_, fun hc op hop hlim hlim' => ?_⟩
      · obtain ⟨op', rfl, hne⟩ := buildAdvancedParams_ok hb hc
        cases hop
        exact hne
      · cases hop
        have hlimit : limit = ee.limit := by
          unfold tickPriceOrThrow at hl
          split at hl
          · cases hl; rfl
          · cases hl
        unfold checkLimitTicket at hck
        rw [show ee.aot.condition = .oneCancelsOther from hc] at hck
        exact hlimit ▸ checkLimitOrder_ok hck hlim'
    next hadv =>
      cases h
      have hnone : ee.aot.condition = .none := not_not.mp hadv
      refine ⟨hsz (by simp [hty]), fun hc => ?_, fun hc => ?_⟩ <;> simp [hnone] at hc
  iterate 2
    next hty =>
      obtain ⟨limit, -, h⟩ := Except.bind_ok h
      obtain ⟨stop, -, h⟩ := Except.bind_ok h
      split at h
      · obtain ⟨⟨cp1, cp2⟩, hb, h⟩ := Except.bind_ok h
        obtain ⟨o, -, h⟩ := Except.bind_ok h
        split at h
        · cases h
        · obtain ⟨_, -, h⟩ := Except.bind_ok h
          cases h
          refine ⟨hsz (by simp [hty]), fun hc op hop => ?_, fun hc op hop hlim => ?_⟩
          · obtain ⟨op', rfl, hne⟩ := buildAdvancedParams_ok hb hc
            cases hop
            exact hne
          · exact absurd (hlim.symm.trans hty) (by simp)
      next hadv =>
        cases h
        have hnone : ee.aot.condition = .none := not_not.mp hadv
        refine ⟨hsz (by simp [hty]), fun hc => ?_, fun hc => ?_⟩ <;> simp [hnone] at hc
  · cases h

theorem Request.Opens.valid {r : Request} {s : Sob} {qe : Option OrderQueueElem}
    (h : r.Opens s qe) : ∀ e, qe = some e → e.Valid := fun e he => by
  obtain ⟨ee, hact, hok⟩ := h e he
  exact orderQueueElem_ok hok (Request.size_ne_zero hact)

/-! ## Between windows -/

section Between
variable {w w' : World}

/-- Cache, chains and links between two windows. -/
structure Tidy (w : World) : Prop where
  filed : Filed {} w
  elems : ∀ p, ∀ b ∈ (w.limits p).elems, ∀ link, b.payload = .linkedOrder link →
    Apart {} w p link.id

theorem Tidy.sorted (h : Tidy w) (hq : w.internalOrderQueue = []) {o : Option OrderQueueElem}
    (hqe : ∀ e, o = some e → e.Valid) : Sorted (.opened o, w) := by
  have hcab : w.cabinet (.opened o) = w.cabinet {} := rfl
  have hpend : w.pending (.opened o) = w.pending {} := rfl
  refine ⟨⟨⟨hcab ▸ h.filed.cabinet, hpend ▸ h.filed.known, fun _ _ hg => by cases hg⟩, rfl, rfl⟩,
    ⟨fun p b hb link hl => ?_, fun _ _ _ hh => (by cases hh), fun _ hl => (by cases hl), ?_,
      fun _ hc => (by cases hc), fun e he => (hqe e he).checked⟩⟩
  · obtain ⟨hle, hk, hc⟩ := h.elems p b hb link hl
    exact ⟨hle, hpend ▸ hk, hc⟩
  · rw [hq]
    exact fun _ he => by cases he

/-- At the end of a window, nothing under way refers to the chains. -/
theorem Sorted.tidy {F : Flight} (h : Sorted (F, w)) (hsob : w'.book = w.book ∧
    w'.idCache = w.idCache ∧ w'.lastId = w.lastId)
    (hq : w'.internalOrderQueue = []) : Tidy w' := by
  obtain ⟨hbook, hcache, hlast⟩ := hsob
  have hfiles : w'.files = w.files := Prod.ext hbook hcache
  have hpend : w'.pending {} = [] := by simp [Sob.pending, hq]
  refine ⟨⟨?_, fun id hid => ?_, fun _ _ hg => by cases hg⟩, fun p b hb link hl => ?_⟩
  · rw [cabinet_of_files (G := {}) (F := F) hfiles]
    · exact h.shelved.cabinet
    · exact Flight.spentAt_congr h.shelved.hit.symm
    · exact Flight.detachedAt_congr h.shelved.detached.symm
  · refine ⟨hlast ▸ (h.shelved.known id (hcache ▸ hid)).1, ?_⟩
    rw [hpend]
    exact List.not_mem_nil
  · have ha := h.links.elems p b (by rwa [limits_of_files hfiles] at hb) link hl
    refine ⟨hlast ▸ ha.le, ?_, hcache ▸ ha.cache⟩
    rw [hpend]
    exact List.not_mem_nil

/-- Growing the book moves every drawer alike. -/
theorem Tidy.growBook (h : Tidy w) (base : Int) (incr : Nat) (atBeg : Bool) :
    Tidy { w with toSob := growBook base incr atBeg w.toSob } := by
  by_cases hincr : incr = 0
  · unfold SimpleOrderbook.growBook
    rw [if_pos hincr]
    exact h
  let off := growOffset incr atBeg
  let s' := SimpleOrderbook.growBook base incr atBeg w.toSob
  have hbook : ∀ p, s'.book p = if p < off then {} else w.book (p - off) := fun p => by
    change (SimpleOrderbook.growBook base incr atBeg w.toSob).book p = _
    rw [growBook_of_ne hincr]
    rfl
  have hcache : ∀ id, s'.idCache id = (w.idCache id).map fun c => { c with p := c.p + off } :=
    fun id => by
      change (SimpleOrderbook.growBook base incr atBeg w.toSob).idCache id = _
      rw [growBook_of_ne hincr]
      rfl
  have hlast : s'.lastId = w.lastId := by
    change (SimpleOrderbook.growBook base incr atBeg w.toSob).lastId = _
    rw [growBook_of_ne hincr]
    rfl
  have hpend : s'.pending {} = w.pending {} := by
    change (SimpleOrderbook.growBook base incr atBeg w.toSob).pending {} = _
    rw [growBook_of_ne hincr]
    rfl
  have hdrawer : ∀ k p, s'.drawer {} (k, p) = if p < off then [] else w.drawer {} (k, p - off) :=
    fun k p => by
      unfold Sob.drawer
      cases k <;> simp only [Sob.limitIds, Sob.stopIds, Sob.aonIds, Sob.limits, Sob.stops,
        Sob.aons, hbook] <;> split <;> rfl
  have hinj : Function.Injective fun k : Kind × Nat => (k.1, k.2 + off) := by
    rintro ⟨k, p⟩ ⟨k', p'⟩ heq
    simp only [Prod.mk.injEq, Nat.add_right_cancel_iff] at heq
    exact Prod.ext heq.1 heq.2
  refine ⟨⟨h.filed.cabinet.rename hinj (fun q => ?_) (fun q hq => ?_) fun j => ?_,
    fun id hid => ?_, fun _ _ hg => by cases hg⟩, fun p b hb link hl => ?_⟩
  · change (s'.drawer {} (q.1, q.2 + off)).Perm _
    rw [hdrawer, if_neg (by omega), Nat.add_sub_cancel]
    exact .refl _
  · change s'.drawer {} (q.1, q.2) = []
    rw [hdrawer]
    split
    · rfl
    next hlt => exact absurd (by simp [Nat.sub_add_cancel (not_lt.mp hlt)]) (hq (q.1, q.2 - off))
  · change (s'.idCache j).map _ = ((w.idCache j).map _).map _
    rw [hcache]
    cases w.idCache j <;> rfl
  · have hid' : w.idCache id ≠ none := fun hn => hid ((hcache id).trans (by rw [hn]; rfl))
    obtain ⟨hle, hk⟩ := h.filed.known id hid'
    exact ⟨hle.trans_eq hlast.symm, fun hm => hk (hpend ▸ hm)⟩
  · change b ∈ (s'.book p).limits.elems at hb
    rw [hbook] at hb
    split at hb
    · cases hb
    next hlt =>
      obtain ⟨hle, hk, hc⟩ := h.elems (p - off) b hb link hl
      refine ⟨hle.trans_eq hlast.symm, fun hm => hk (hpend ▸ hm), fun hc' => ?_⟩
      obtain ⟨⟨ty, q⟩, hcq, heq⟩ := Option.map_eq_some_iff.mp ((hcache link.id).symm.trans hc')
      simp only [ChainIterWrap.mk.injEq] at heq
      obtain ⟨rfl, rfl⟩ := heq
      exact hc (by rw [hcq, Nat.add_sub_cancel])

theorem Closes.tidy {r : Request} {o : Outcome} (h : Closes r w o w')
    (hw : ∀ qe, WellFormed (.opened qe, w)) (hq : w.internalOrderQueue = [])
    (ho : o.Expected) (hi : Tidy w) (hzero : w'.NoEmptyHit) : Tidy w' := by
  cases h with
  | refused => exact hi
  | rejected ee hee =>
    have hs := hi.sorted hq (o := none) fun _ he => by cases he
    exact hs.tidy ⟨rfl, rfl, rfl⟩ rfl
  | grown f hact hs =>
    obtain ⟨base, incr, atBeg, -, rfl⟩ := Request.grow_eq hact hs
    exact hi.growBook base incr atBeg
  | value hqe hs hq' =>
    exact (hs.sorted (hw _).ambient (hi.sorted hq hqe.valid) hzero).tidy ⟨rfl, rfl, rfl⟩ hq'
  | left hqe hs herr =>
    have hs0 := hi.sorted hq hqe.valid
    cases hs with
    | undefined => exact absurd rfl herr
    | failed _ _ _ he => exact absurd ho (by simp [Outcome.Expected, he])
    | refused hs hF hh =>
      refine (hs.sorted (hw _).ambient hs0 ?_).tidy ⟨rfl, rfl, rfl⟩ rfl
      exact World.NoEmptyHit.of_suffix hzero (List.suffix_cons _ _)

/-- The cache and the chains agree after every window of a run. -/
theorem Run.tidy {w₀ : World} {rs : List (Request × Outcome)} (h0 : Initial w₀)
    (h : Run w₀ rs w) (ho : ∀ ro ∈ rs, ro.2.Expected) (hzero : w.NoEmptyHit) : Tidy w := by
  induction h with
  | nil =>
    obtain ⟨⟨base, incr, -, -, hw⟩, -⟩ := h0
    refine ⟨⟨fun k id => ?_, fun id hid => absurd ?_ hid, fun _ _ hg => by cases hg⟩,
      fun p b hb => absurd hb ?_⟩
    · obtain ⟨k, p⟩ := k
      cases k <;> simp [Sob.cabinet, Sob.drawer, Sob.limitIds, Sob.stopIds, Sob.aonIds, Sob.limits,
        Sob.stops, Sob.aons, hw, Sob.init, Level.aonChain, Flight.detachedAt]
    · rw [hw]
      rfl
    · rw [hw]
      exact List.not_mem_nil
  | @snoc rs w w' r o hr hw ih =>
    obtain ⟨hwf, hq⟩ := hr.wellFormed h0
    have hc := hw.closes hwf hq
    exact hc.tidy hwf hq (ho (r, o) (by simp)) (ih (fun ro hro => ho ro (by simp [hro]))
      (hzero.of_suffix hc.trace_suffix)) hzero

end Between
/-! ## Invariants of the transitions of a tidy book -/

/-- `P` is an invariant of the transitions as long as chains and cache agree. -/
structure KeptFiled (P : Config → Prop) : Prop where
  move : ∀ {c c'}, WellFormed c → Filed c.1 c.2 → Move c c' → P c → P c'
  /-- A step that is a trade is made of moves. -/
  step : ∀ {c c'}, WellFormed c → Sorted c → c.1.NoTrade → (∀ e, c.1.ext = some e → e.Valid) →
    Step c c' → P c → (Moves c c' → P c') → P c'
  grow : ∀ {qe w base incr atBeg}, WellFormed (.opened qe, w) → incr ≠ 0 → P (.opened qe, w) →
    P (.opened qe, { w with toSob := growBook base incr atBeg w.toSob })
  close : ∀ {qe qe' w w'}, P (.opened qe, w) → w.ClosesTo w' → w'.internalOrderQueue = [] →
    P (.opened qe', w')

theorem Step.ext_eq {c c' : Config} (h : Step c c') : c'.1.ext = c.1.ext := by
  cases h with
  | act h => exact h.sameInsertion.ext
  | _ => rfl

namespace KeptFiled
variable {P : Config → Prop} {c c' : Config} {w₀ w : World} {rs : List (Request × Outcome)}

theorem moves (hP : KeptFiled P) (h : Moves c c') (hw : WellFormed c) (hf : Filed c.1 c.2)
    (hl : Links c.1 c.2) (hzero : c'.2.NoEmptyHit) (hc : P c) : P c' := by
  induction h with
  | refl => exact hc
  | tail hm h ih =>
    have hzero' := hzero.of_suffix h.trace_suffix
    have hf' := Moves.filed hm hf (fun _ hd => (Moves.links hd hl).linksApart) hzero'
    exact hP.move (Moves.wellFormed hm hw) hf' h (ih hzero')

theorem steps (hP : KeptFiled P) (h : Steps c c') (hw : WellFormed c) (hs : Sorted c)
    (hn : c.1.NoTrade) (hext : ∀ e, c.1.ext = some e → e.Valid) (hzero : c'.2.NoEmptyHit)
    (hc : P c) : P c' := by
  suffices c'.1.NoTrade ∧ c'.1.ext = c.1.ext ∧ P c' from this.2.2
  induction h with
  | refl => exact ⟨hn, rfl, hc⟩
  | tail hst h ih =>
    have hzero' := hzero.of_suffix h.trace_suffix
    obtain ⟨hn', hext', hc'⟩ := ih hzero'
    have hw' := Steps.wellFormed hst hw
    have hs' := Steps.sorted hst hw.ambient hs hzero'
    refine ⟨h.noTrade hn', h.ext_eq.trans hext', ?_⟩
    exact hP.step hw' hs' hn' (hext' ▸ hext) h hc' fun hm =>
      hP.moves hm hw' hs'.shelved.toFiled hs'.links hzero hc'

/-- What a window leaves, however it ends: `P` holds up to where it was left. -/
theorem window (hP : KeptFiled P) {r : Request} {o : Outcome} {w' : World} (h : Closes r w o w')
    (hw : ∀ qe, WellFormed (.opened qe, w)) (hq : w.internalOrderQueue = []) (ht : Tidy w)
    (hzero : w'.NoEmptyHit) (hc : ∀ qe, P (.opened qe, w)) :
    ∃ F w1, P (F, w1) ∧ w1.ClosesTo w' ∧ (o.Expected → F.Calm) ∧
      (o.isValue = true → ∃ qe, F = .opened qe ∧ w'.internalOrderQueue = []) := by
  have hcalm : ∀ qe, (Flight.opened qe).Calm := fun qe => (Flight.idle_opened qe).toCalm
  cases h with
  | refused => exact ⟨_, w, hc none, .refl w, fun _ => hcalm none, fun ho => by cases ho⟩
  | rejected =>
    exact ⟨_, w, hc none, ⟨⟨_, _, rfl⟩, .inr ⟨_, rfl⟩⟩, fun _ => hcalm none, fun ho => by cases ho⟩
  | grown f hact hs =>
    obtain ⟨base, incr, atBeg, -, rfl⟩ := Request.grow_eq hact hs
    refine ⟨_, _, ?_, .refl _, fun _ => hcalm none, fun _ => ⟨none, rfl, ?_⟩⟩
    · by_cases hincr : incr = 0
      · rw [show growBook base incr atBeg w.toSob = w.toSob from if_pos hincr]
        exact hc none
      · exact hP.grow (hw none) hincr (hc none)
    · change (growBook base incr atBeg w.toSob).internalOrderQueue = []
      unfold growBook
      split <;> exact hq
  | @value qe _ _ w' hqe hs hq' =>
    exact ⟨.opened qe, w', hP.steps hs (hw qe) (ht.sorted hq hqe.valid) (.opened qe) hqe.valid hzero
      (hc qe), ⟨⟨_, _, rfl⟩, .inl rfl⟩, fun _ => hcalm qe, fun _ => ⟨qe, rfl, hq'⟩⟩
  | @left qe err w' hqe hs herr =>
    have hzero' : w'.NoEmptyHit := World.NoEmptyHit.of_suffix hzero (List.suffix_cons _ _)
    have hs0 := ht.sorted hq hqe.valid
    have hdrop : w'.ClosesTo { w' with
        internalOrderQueue := [], trace := .dropped w'.internalOrderQueue :: w'.trace } :=
      ⟨⟨_, _, rfl⟩, .inr ⟨_, rfl⟩⟩
    cases hs with
    | undefined => exact absurd rfl herr
    | @failed c' F _ _ hs hm _ he =>
      have hzero1 := hzero'.of_suffix (Moves.trace_suffix hm)
      have hs1 := Steps.sorted hs (hw qe).ambient hs0 hzero1
      refine ⟨F, w', hP.moves hm (Steps.wellFormed hs (hw qe)) hs1.shelved.toFiled hs1.links hzero' ?_,
        hdrop, fun ho => absurd ho (by simp [Outcome.Expected, he]), fun ho => by cases ho⟩
      exact hP.steps hs (hw qe) hs0 (.opened qe) hqe.valid hzero1 (hc qe)
    | @refused F _ _ _ _ hs hF =>
      exact ⟨F, w', hP.steps hs (hw qe) hs0 (.opened qe) hqe.valid hzero' (hc qe), hdrop, fun _ => hF,
        fun ho => by cases ho⟩

/-- A run in which no request ends in an exception. -/
theorem run_value (hP : KeptFiled P) (h0 : Initial w₀) (hinit : ∀ qe, P (.opened qe, w₀))
    (h : Run w₀ rs w) (hv : ∀ x ∈ rs, x.2.isValue = true) (hzero : w.NoEmptyHit) :
    ∀ qe, P (.opened qe, w) := by
  induction h with
  | nil => exact hinit
  | @snoc rs w w' r o hr hwin ih =>
    obtain ⟨hwf, hq⟩ := hr.wellFormed h0
    have hclose := hwin.closes hwf hq
    have hzero' := hzero.of_suffix hclose.trace_suffix
    have hv' : ∀ x ∈ rs, x.2.isValue = true := fun x hx => hv x (by simp [hx])
    have htidy := hr.tidy h0 (fun ro hro => Outcome.expected_of_isValue (hv' ro hro)) hzero'
    obtain ⟨F, w1, hp, hto, -, hval⟩ := hP.window hclose hwf hq htidy hzero (ih hv' hzero')
    obtain ⟨qe, rfl, hq'⟩ := hval (hv (r, o) (by simp))
    exact fun qe' => hP.close hp hto hq'

/-- A run in which every request ends as its author could expect, with the rule for what a window
leaves that was left by an exception. -/
theorem run_expected (hP : KeptFiled P)
    (hleft : ∀ {F qe' w w'}, F.Calm → P (F, w) → w.ClosesTo w' → w'.internalOrderQueue = [] →
      P (.opened qe', w')) (h0 : Initial w₀) (hinit : ∀ qe, P (.opened qe, w₀))
    (h : Run w₀ rs w) (ho : ∀ x ∈ rs, x.2.Expected) (hzero : w.NoEmptyHit) :
    ∀ qe, P (.opened qe, w) := by
  induction h with
  | nil => exact hinit
  | @snoc rs w w' r o hr hwin ih =>
    obtain ⟨hwf, hq⟩ := hr.wellFormed h0
    obtain ⟨-, hq'⟩ := (hr.snoc hwin).wellFormed h0
    have hclose := hwin.closes hwf hq
    have hzero' := hzero.of_suffix hclose.trace_suffix
    have ho' : ∀ x ∈ rs, x.2.Expected := fun x hx => ho x (by simp [hx])
    obtain ⟨F, w1, hp, hto, hcalm, -⟩ := hP.window hclose hwf hq (hr.tidy h0 ho' hzero') hzero
      (ih ho' hzero')
    exact fun qe' => hleft (hcalm (ho (r, o) (by simp))) hp hto hq'

/-- The window after a run without exceptions. -/
theorem next (hP : KeptFiled P) (h0 : Initial w₀) (hinit : ∀ qe, P (.opened qe, w₀))
    (h : Run w₀ rs w) (hv : ∀ x ∈ rs, x.2.isValue = true) {r : Request} {o : Outcome} {w' : World}
    (hwin : Window r w o w') (hzero : w'.NoEmptyHit) : ∃ F w1, P (F, w1) ∧ w1.ClosesTo w' := by
  obtain ⟨hwf, hq⟩ := h.wellFormed h0
  have hclose := hwin.closes hwf hq
  have hzero' := hzero.of_suffix hclose.trace_suffix
  have htidy := h.tidy h0 (fun ro hro => Outcome.expected_of_isValue (hv ro hro)) hzero'
  obtain ⟨F, w1, hp, hto, -, -⟩ := hP.window hclose hwf hq htidy hzero
    (hP.run_value h0 hinit h hv hzero')
  exact ⟨F, w1, hp, hto⟩

end KeptFiled
end SimpleOrderbook
