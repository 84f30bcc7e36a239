import SimpleOrderbook.BookInv

/-!
# Pulls and condition handlers as transitions

What pulls and handlers do is a sequence of `Act`s, also when they leave by an exception.
-/
namespace SimpleOrderbook

open Hoare

/-- The exceptions a request may end in by design; the others mean that a call inside the engine
went wrong. -/
def Err.expected : Err → Bool
  | .invalidArgument _ | .liquidityException .. => true
  | _ => false

/-- How an exception is left: with the transitions made so far, unless there is no state left to
speak of. -/
def Fails (R : Config → Config → Prop) (c : Config) (err : Err) (w : World) : Prop :=
  err = .undefinedBehaviour ∨
    err.expected = false ∧ ∃ F, Relation.ReflTransGen R c (F, w) ∧ F.gap = none

section Acts
variable {c₀ : Config} {F : Flight} {w : World}

theorem Fails.of_acts (h : Acts c₀ (F, w)) (hgap : F.gap = none) {err : Err}
    (he : err.expected = false) : Fails Act c₀ err w :=
  .inr ⟨he, F, h, hgap⟩

/-! ## Basic calls -/

theorem pushExecCallback_apply (msg : CallbackMsg) (cb : OrderExecCbBndl) (id1 id2 : Nat)
    (price : Int) (sz : Nat) (w : World) :
    pushExecCallback msg cb id1 id2 price sz w = .ok () (w.report msg cb id1 id2 price sz) := by
  rcases cb with ⟨_ | f, _ | _⟩ <;> rfl

theorem wp_pushExecCallback {Q : Unit → World → Prop} {E : Err → World → Prop}
    {msg : CallbackMsg} {cb : OrderExecCbBndl} {id1 id2 : Nat} {price : Int} {sz : Nat}
    (h : Q () (w.report msg cb id1 id2 price sz)) :
    wp (pushExecCallback msg cb id1 id2 price sz) Q E w := by
  unfold wp
  rw [pushExecCallback_apply]
  exact h

theorem wp_pushExecCallback_bind {α : Type} {Q : α → World → Prop} {E : Err → World → Prop}
    {msg : CallbackMsg} {cb : OrderExecCbBndl} {id1 id2 : Nat} {price : Int} {sz : Nat}
    {f : Unit → M α} (h : wp (f ()) Q E (w.report msg cb id1 id2 price sz)) :
    wp (pushExecCallback msg cb id1 id2 price sz >>= f) Q E w :=
  wp_bind_ok (pushExecCallback_apply msg cb id1 id2 price sz w) h

theorem wp_generateId_bind {α : Type} {Q : α → World → Prop} {E : Err → World → Prop}
    {f : Nat → M α}
    (h : wp (f (w.lastId + 1)) Q E (w.onSob fun s => { s with lastId := s.lastId + 1 })) :
    wp (generateId >>= f) Q E w :=
  wp_bind_ok (a := w.lastId + 1) rfl h

theorem wp_pushInternalOrder_bind {α : Type} {Q : α → World → Prop} {E : Err → World → Prop}
    {e : OrderQueueElem} {f : Unit → M α}
    (h : wp (f ()) Q E ((w.log (.pushInternalOrder e)).onSob fun s =>
      { s with internalOrderQueue := s.internalOrderQueue ++ [e] })) :
    wp (pushInternalOrder e >>= f) Q E w :=
  wp_bind_ok (a := ()) rfl h

/-! ## Popping an order -/

/-- `_id_cache` has no entry for an AON that is now at the front of a chain. -/
def FrontLost (w : World) : Prop :=
  ∃ p b bs, w.limits p = some (b :: bs) ∧ b.isAON ∧ w.idCache b.id = none

theorem wp_copyBndlToAonChainSide (w : World) (buyLimit : Bool) (p : Nat) (b : LimitBndl) :
    wp (Chain.copyBndlToAonChainSide buyLimit p b)
      (fun _ w' => ∃ c, w.idCache b.id = some c ∧ w' =
        (w.log (.copyBndlToAonChain w.toSob p b buyLimit)).onSob (·.copiedToAons buyLimit p b c))
      (fun err w' => err = .orderNotInCache b.id ∧ w.idCache b.id = none ∧
        w' = w.log (.copyBndlToAonChain w.toSob p b buyLimit)) w := by
  unfold Chain.copyBndlToAonChainSide
  refine wp_getSob_bind (wp_record_bind ?_)
  refine wp.bind (wp_fromCache (Q := fun c w' => w.idCache b.id = some c ∧ w' = w.log
    (.copyBndlToAonChain w.toSob p b buyLimit)) (fun c hc => ⟨hc, rfl⟩) fun hc => ⟨rfl, hc, rfl⟩) ?_
  rintro c _ ⟨hc, rfl⟩
  exact wp_modifySob ⟨c, hc, rfl⟩

theorem wp_copyBndlToAonChain (w : World) (p : Nat) (b : LimitBndl) :
    wp (Chain.copyBndlToAonChain p b)
      (fun _ w' => ∃ c, w.idCache b.id = some c ∧ w' =
        (w.log (.copyBndlToAonChain w.toSob p b (decide (p < w.ask)))).onSob
          (·.copiedToAons (decide (p < w.ask)) p b c))
      (fun err w' => err = .orderNotInCache b.id ∧ w.idCache b.id = none ∧
        w' = w.log (.copyBndlToAonChain w.toSob p b (decide (p < w.ask)))) w :=
  wp_getSob_bind (wp_copyBndlToAonChainSide w _ p b)

/-- No AON is at the front of the chain. -/
def Sob.FrontAt (s : Sob) (p : Nat) : Prop := ∀ b bs, s.limits p = some (b :: bs) → b.isAON = false

/-- `n` steps move all AONs from the front of a chain of `n` orders. -/
theorem Acts.moveFrontAons {p : Nat} (h : Acts c₀ (F, w)) (hgap : F.gap = some p) (n : Nat)
    (hn : (w.limits p).elems.length ≤ n) :
    wp (Chain.moveFrontAons p n) (fun _ w' => Acts c₀ (F, w') ∧ w'.FrontAt p) (fun err w' =>
      err = .undefinedBehaviour ∨ (∃ id, err = .orderNotInCache id) ∧ FrontLost w' ∧
        Acts c₀ ({ F with gap := none }, w')) w := by
  induction n generalizing w with
  | zero =>
    refine wp_pure ⟨h, fun b bs hl => ?_⟩
    rw [hl] at hn
    cases hn
  | succ n ih =>
    unfold Chain.moveFrontAons
    refine wp_getSob_bind ?_
    split
    next hl => exact wp_pure ⟨h, fun b bs hl' => by rw [hl] at hl'; cases hl'⟩
    next => exact wp_throw (.inl rfl)
    next b bs hl =>
      refine wp_ite (fun hb => ?_) fun hb => wp_pure ⟨h, fun b' bs' hl' => ?_⟩
      swap
      · rw [hl] at hl'
        cases hl'
        simpa using hb
      refine ((wp_copyBndlToAonChain w p b).mono (fun _ _ hq => hq) ?_).bind ?_
      · rintro _ _ ⟨rfl, hc, rfl⟩
        exact .inr ⟨⟨_, rfl⟩, ⟨p, b, bs, hl, hb, hc⟩, h.act (.missFront p b bs hgap hl hb hc)⟩
      · rintro _ _ ⟨c, hc, rfl⟩
        have hl' : (w.copiedToAons (decide (p < w.ask)) p b c).limits p = some (b :: bs) :=
          (congrFun (limits_of_bookView (bookView_copiedToAons _ _ _ _ _)) p).trans hl
        have hmove := Act.moveFront p b bs c hgap hl hb hc
        refine wp_modifySob_bind (ih (h.act ?_) ?_)
        · simpa [World.onSob, World.log, hl'] using hmove
        · rw [hl] at hn
          simpa [World.onSob, World.log, hl', ChainManager.elems_ofList] using hn

theorem Acts.limitPop (h : Acts c₀ (F, w)) (hgap : F.gap = none) {id : Nat}
    (hpull : F.MayPull id) (hty : ∀ c, w.idCache id = some c → c.type = .limit) :
    wp (Chain.limitPop id) (fun b w' => b.id = id ∧ Acts c₀ (F.hold b.id b.sz, w'))
      (fun err w' => err = .undefinedBehaviour ∨ (∃ id, err = .orderNotInCache id) ∧
        (Acts c₀ (F, w') ∨ FrontLost w' ∧ ∃ sz, Acts c₀ (F.hold id sz, w'))) w := by
  unfold Chain.limitPop
  refine wp.bind (wp_fromCache (Q := fun c w' => w.idCache id = some c ∧ w' = w)
    (fun c hc => ⟨hc, rfl⟩) fun _ => .inr ⟨⟨_, rfl⟩, .inl h⟩) ?_
  rintro c w ⟨hc, rfl⟩
  refine wp_getSob_bind ?_
  dsimp only
  split
  next => exact wp_throw (.inl rfl)
  next b hb =>
    obtain ⟨-, hid⟩ := Chain.findLimit_mem hb
    have hpop := h.act (Act.popLimit id c b hgap hpull hc (hty c hc) hb)
    have hback : ∀ {G : Flight}, G = { F.hold b.id b.sz with gap := some c.p } →
        ({ G with gap := none } : Flight) = F.hold b.id b.sz := by
      rintro _ rfl
      rw [← hgap]
      rfl
    have hlen : ((w.onSob (·.erasedLimit c.p id)).limits c.p).elems.length ≤
        (w.limits c.p).elems.length := by
      simp only [World.onSob, Sob.erasedLimit, Sob.limits_cacheErase, Sob.limits_setLimits, if_true,
        ChainManager.elems_ofList]
      exact List.eraseP_sublist.length_le
    refine wp_modifySob_bind ?_
    refine ((Acts.moveFrontAons hpop rfl _ hlen).mono (fun _ _ hq => hq) fun err w' he => ?_).bind ?_
    · rcases he with he | ⟨hid', hlost, hacts⟩
      · exact .inl he
      · refine .inr ⟨hid', .inr ⟨hlost, b.sz, ?_⟩⟩
        rw [← hid, ← hback rfl]
        exact hacts
    · rintro _ w' ⟨hacts, hfront⟩
      refine wp_getSob_bind (wp_ite (fun he => wp_modifySob_bind (wp_pure ⟨hid, ?_⟩))
        fun he => wp_pure ⟨hid, ?_⟩)
      · have := hacts.act (Act.settle c.p rfl (Option.isNone_iff_eq_none.mp he))
        rwa [hback rfl] at this
      · have := hacts.act (Act.close c.p rfl (fun hn => he (by simp [hn])) hfront)
        rwa [hback rfl] at this

theorem Acts.aonPop (h : Acts c₀ (F, w)) (hgap : F.gap = none) {id : Nat}
    (hpull : F.MayPull id) :
    wp (Chain.aonPop id) (fun b w' => b.id = id ∧ Acts c₀ (F.hold b.id b.sz, w'))
      (fun err w' => err = .undefinedBehaviour ∨ (∃ id, err = .orderNotInCache id) ∧
        (Acts c₀ (F, w') ∨ FrontLost w' ∧ ∃ sz, Acts c₀ (F.hold id sz, w'))) w := by
  unfold Chain.aonPop
  refine wp.bind (wp_fromCache (Q := fun c w' => w.idCache id = some c ∧ w' = w)
    (fun c hc => ⟨hc, rfl⟩) fun _ => .inr ⟨⟨_, rfl⟩, .inl h⟩) ?_
  rintro c _ ⟨hc, rfl⟩
  refine wp_ite (fun hty => ?_) fun hlim => wp_ite (fun _ => wp_throw (.inl rfl)) fun hstop => ?_
  · exact h.limitPop hgap hpull fun c' hc' => by rw [hc] at hc'; cases hc'; exact hty
  · have hty : c.type = if decide (c.type = .aonBuy) then .aonBuy else .aonSell := by
      cases hct : c.type <;> simp_all
    refine wp_getSob_bind ?_
    dsimp only
    generalize decide (c.type = .aonBuy) = isBuy at hty ⊢
    split
    next => exact wp_throw (.inl rfl)
    next b hb =>
      obtain ⟨-, hid⟩ := Chain.findLimit_mem hb
      have hpop := h.act (Act.popAon id c isBuy b hc hty hb)
      refine wp_getSob_bind (wp_record_bind (wp_modifySob_bind (wp_getSob_bind (wp_ite
        (fun he => wp_modifySob_bind (wp_pure ⟨hid, ?_⟩)) fun he => wp_pure ⟨hid, ?_⟩)))) <;>
      · simp only [World.onSob, World.log] at he
        simpa only [World.onSob, World.log, Sob.erasedAon, he, if_true, if_false, Bool.false_eq_true] using hpop

theorem wp_stopPop (w : World) (id : Nat) :
    wp (Chain.stopPop id) (fun b w' => ∃ c, w.idCache id = some c ∧
        Chain.findStop (w.stops c.p).elems id = some b ∧ w' = w.onSob (·.erasedStop c.p b))
      (fun err w' => err = .undefinedBehaviour ∨
        err = .orderNotInCache id ∧ w.idCache id = none ∧ w' = w) w := by
  unfold Chain.stopPop
  refine wp.bind (wp_fromCache (Q := fun c w' => w.idCache id = some c ∧ w' = w)
    (fun c hc => ⟨hc, rfl⟩) fun hn => .inr ⟨rfl, hn, rfl⟩) ?_
  rintro c _ ⟨hc, rfl⟩
  refine wp_getSob_bind ?_
  dsimp only
  split
  next => exact wp_throw (.inl rfl)
  next b hb =>
    have hid := Chain.findStop_id hb
    refine wp_modifySob_bind (wp_getSob_bind (wp_ite (fun he => wp_modifySob_bind
      (wp_pure ⟨c, hc, hb, ?_⟩)) fun he => wp_pure ⟨c, hc, hb, ?_⟩)) <;>
    · simp only [World.onSob] at he
      simp only [World.onSob, Sob.erasedStop, hid, he, if_true, if_false, Bool.false_eq_true]

/-! ## Pulling an order -/

/-- Pulls catch every exception of their own. -/
def NoState (err : Err) (_ : World) : Prop := err = .undefinedBehaviour

theorem NoState.fails {R : Config → Config → Prop} {c : Config} {err : Err} (h : NoState err w) :
    Fails R c err w :=
  .inl h

theorem Acts.finishPull {pullLinked : OrderBndl → M Unit} {b : OrderBndl}
    (h : Acts c₀ (F.hold b.id b.sz, w))
    (hlinked : ∀ w, Acts c₀ (F, w) → wp (pullLinked b) (fun _ w' => Acts c₀ (F, w')) NoState w) :
    wp (finishPull pullLinked b) (fun ok w' => Acts c₀ (F, w') ∧ (ok = false → b.sz = 0))
      NoState w := by
  unfold SimpleOrderbook.finishPull
  refine wp_ite (fun hz => wp_pure ⟨?_, fun _ => hz⟩) fun hz =>
    wp_record_bind (wp_pushExecCallback_bind ?_)
  · rw [hz] at h
    exact h.act (.drop b.id F.hands rfl)
  · have h1 := (h.act (.pulled b.id b.sz F.hands rfl hz)).act (.report .cancel b.cb b.id b.id 0 0)
    exact (hlinked _ h1).bind fun _ w2 h2 => wp_pure ⟨h2, by simp⟩

theorem Acts.pullOrderWith {pullLinked : OrderBndl → M Unit} (h : Acts c₀ (F, w))
    (hgap : F.gap = none)
    (hlinked : ∀ b w l, Acts c₀ ({ F with leaving := l }, w) →
      wp (pullLinked b) (fun _ w' => Acts c₀ ({ F with leaving := l }, w')) NoState w)
    {id : Nat} (hpull : F.MayPull id) :
    wp (pullOrderWith pullLinked id) (fun _ w' => Acts c₀ (F, w')) NoState w := by
  have hnone : ∀ (_ : OrderBndl) (w : World), Acts c₀ (F, w) →
      wp (pure () : M Unit) (fun _ w' => Acts c₀ (F, w')) NoState w := fun _ _ h => wp_pure h
  unfold SimpleOrderbook.pullOrderWith
  refine wp_getSob_bind ?_
  split
  next => exact wp_pure h
  next c hc =>
    -- what a pop leaves when it throws, before the exception is caught
    refine wp.tryCatch (E := fun err w' => err = .undefinedBehaviour ∨
      (∃ id, err = .orderNotInCache id) ∧ Acts c₀ (F, w')) ?_ fun err w1 he => ?_
    · have hlost : ∀ (err : Err) (w' : World), (err = .undefinedBehaviour ∨
          (∃ id, err = .orderNotInCache id) ∧
            (Acts c₀ (F, w') ∨ FrontLost w' ∧ ∃ sz, Acts c₀ (F.hold id sz, w'))) →
          err = .undefinedBehaviour ∨ (∃ id, err = .orderNotInCache id) ∧ Acts c₀ (F, w') := by
        rintro err w' (he | ⟨hid, h' | ⟨⟨p, b, bs, hl, hb, hc⟩, sz, h'⟩⟩)
        · exact .inl he
        · exact .inr ⟨hid, h'⟩
        · exact .inr ⟨hid, h'.act (.lose id sz p F.hands b bs rfl hl hb hc hpull)⟩
      split
      next hty =>
        refine ((h.limitPop hgap hpull fun c' hc' => ?_).mono (fun _ _ hq => hq) hlost).bind
          fun b w1 h1 => (h1.2.finishPull fun w => hlinked b.toOrderBndl w F.leaving).mono
            (fun _ _ h2 => h2.1) fun _ _ he => .inl he
        rw [hc] at hc'; cases hc'; exact hty
      next hty =>
        refine ((wp_stopPop w id).mono (fun _ _ hq => hq) ?_).bind ?_
        · rintro err _ (he | ⟨rfl, -, rfl⟩)
          · exact .inl he
          · exact .inr ⟨⟨_, rfl⟩, h⟩
        · rintro b _ ⟨c', hc', hb, rfl⟩
          have hid : b.id = id := Chain.findStop_id hb
          have h1 : Acts c₀ (({ F with leaving := b :: F.leaving } : Flight).hold b.id b.sz, _) :=
            h.act (.popStop id c' b hc' hb)
          refine ((h1.finishPull fun w => hlinked b.toOrderBndl w (b :: F.leaving)).mono
            (fun _ _ h2 => h2) fun _ _ he => .inl he).bind
              fun ok w2 h2 => wp_ite (fun _ => ?_) fun hok => ?_
          · exact wp_modifySob_bind (wp_pure (hid ▸ h2.1.act (.trailingErase b F.leaving rfl)))
          · exact wp_record_bind (wp_pure (hid ▸ h2.1.act
              (.pullEmptyStop b F.leaving rfl (h2.2 (by simpa using hok)))))
      all_goals
        exact ((h.aonPop hgap hpull).mono (fun _ _ hq => hq) hlost).bind
          fun b w1 h1 => (h1.2.finishPull (hnone b.toOrderBndl)).mono (fun _ _ h2 => h2.1)
            fun _ _ he => .inl he
    · split
      next => exact wp_pure (he.resolve_left (by simp)).2
      next hne =>
        refine wp_throw (he.resolve_right ?_)
        rintro ⟨⟨i, hi⟩, -⟩
        exact hne i hi

theorem Acts.pullUnlinked (h : Acts c₀ (F, w)) (hgap : F.gap = none) {id : Nat}
    (hpull : F.MayPull id) :
    wp (pullUnlinked id) (fun _ w' => Acts c₀ (F, w')) NoState w :=
  h.pullOrderWith hgap (fun _ _ _ h => wp_pure h) hpull

theorem Acts.pullOrder (h : Acts c₀ (F, w)) (hgap : F.gap = none) (hhit : F.hit = none)
    (id : Nat) : wp (pullOrder id) (fun _ w' => Acts c₀ (F, w')) NoState w := by
  refine h.pullOrderWith hgap (fun b w l h => ?_) (.of_hit_none hhit id)
  unfold pullLinkedOrder
  refine wp_ite (fun _ => ?_) fun _ => wp_pure h
  split
  next link _ => exact (h.pullUnlinked hgap (.of_hit_none hhit link.id)).discard
  next => exact wp_throw rfl

/-! ## Executing the second half of an advanced order -/

theorem Acts.enqueueNew {Q : Unit → World → Prop} {E : Err → World → Prop} {id : Nat}
    {e : OrderQueueElem} (h : Acts c₀ (F.give id, w)) (hid : e.id = id) (hgen : F.Generates e)
    (hfires : F.Fires) (hQ : ∀ w', Acts c₀ (F, w') → Q () w') : wp (pushInternalOrder e) Q E w :=
  wp_record_bind (wp_modifySob (hQ _ (h.act (.enqueue e F.ids (by rw [hid]; rfl)
    ⟨hgen.size, hgen.condition, hgen.type, hgen.opensExits⟩ hfires))))

theorem Acts.execOTOOrder (h : Acts c₀ (F, w)) {op : OrderParamaters} (hsz : F.Sizes op.size)
    (hfires : F.Fires) (cb : OrderExecCbBndl) (id : Nat) :
    wp (execOTOOrder op cb id) (fun _ w' => Acts c₀ (F, w')) (Fails Act c₀) w := by
  unfold SimpleOrderbook.execOTOOrder
  refine wp_generateId_bind (wp_pushExecCallback_bind ?_)
  refine ((h.act .newId).act (.report ..)).enqueueNew rfl ⟨hsz, ?_, ?_, ?_⟩ hfires fun _ h => h
  all_goals simp

theorem Acts.execOCOOrder (h : Acts c₀ (F, w)) (hgap : F.gap = none) (condition : OrderCondition)
    (cb : OrderExecCbBndl) (idOld idNew : Nat) {idPull : Nat} (hpull : F.MayPull idPull) :
    wp (execOCOOrder condition cb idOld idNew idPull) (fun _ w' => Acts c₀ (F, w'))
      (Fails Act c₀) w := by
  unfold SimpleOrderbook.execOCOOrder
  refine wp.bind (R := fun _ w' => Acts c₀ (F, w')) ?_ fun _ w h => wp_ite (fun _ =>
    ((h.pullUnlinked hgap hpull).mono (fun _ _ hq => hq) fun _ _ he => he.fails).discard)
    fun _ => wp_pure h
  unfold reportOCO
  cases condition
  case oneCancelsOther | bracketActive | trailingBracketActive =>
    exact wp_pushExecCallback (h.act (.report ..))
  all_goals exact wp_throw (.of_acts h hgap rfl)

theorem Acts.bracketLimit (h : Acts c₀ (F, w)) (hgap : F.gap = none) (isTrailing : Bool)
    (op : OrderParamaters) :
    wp (bracketLimit isTrailing op) (fun _ w' => Acts c₀ (F, w')) (Fails Act c₀) w := by
  unfold SimpleOrderbook.bracketLimit trailingLimitPlevel plevelOffset
  have hthrow : Fails Act c₀ .derivedPriceException w := .of_acts h hgap rfl
  refine wp_ite (fun _ => ?_) fun _ => wp_pure h
  refine wp.bind (R := fun _ w' => Acts c₀ (F, w')) ?_ fun p w h => wp_getSob_bind (wp_pure h)
  refine wp_getSob_bind (wp_getSob_bind (wp_ite (fun _ => wp_throw (.inl rfl)) fun _ => ?_))
  exact wp_ite (fun _ => wp_ite (fun _ => wp_throw hthrow) fun _ => wp_pure h)
    fun _ => wp_ite (fun _ => wp_throw hthrow) fun _ => wp_pure h

section Exits
variable {sz : Nat} (h : Acts c₀ (F, w)) (hsz : F.Sizes sz) (hopens : F.OpensExits)
  (hfires : F.Fires)
include h hsz hopens hfires

theorem Acts.execBracketOrder (hgap : F.gap = none) (isTrailing : Bool)
    (op1 op2 : OrderParamaters) (cb : OrderExecCbBndl) (trigger : ConditionTrigger)
    (id : Nat) : wp (execBracketOrder isTrailing op1 op2 sz cb trigger id)
      (fun _ w' => Acts c₀ (F, w')) (Fails Act c₀) w := by
  unfold SimpleOrderbook.execBracketOrder
  refine wp_generateId_bind (wp_pushExecCallback_bind ?_)
  have h1 := (h.act .newId).act (.report .triggerBracketOpen cb id (w.lastId + 1) 0 0)
  refine (h1.bracketLimit (F := F.give (w.lastId + 1)) hgap isTrailing op2).bind fun limit w2 h2 => ?_
  refine h2.enqueueNew rfl ⟨hsz, ?_, fun _ => rfl, fun _ => hopens⟩ hfires
    fun _ h => h
  cases isTrailing <;> simp

theorem Acts.execTrailingStopOrder (op : OrderParamaters) (cb : OrderExecCbBndl)
    (trigger : ConditionTrigger) (id : Nat) : wp (execTrailingStopOrder op sz cb trigger id)
      (fun _ w' => Acts c₀ (F, w')) (Fails Act c₀) w := by
  unfold SimpleOrderbook.execTrailingStopOrder
  refine wp_generateId_bind (wp_pushExecCallback_bind ?_)
  refine ((h.act .newId).act (.report ..)).enqueueNew rfl ⟨hsz, ?_, ?_, fun _ => hopens⟩ hfires
    fun _ h => h
  all_goals simp

end Exits

/-! ## Handlers -/

theorem wp_growLeg (w : World) (msg : CallbackMsg) (id : Nat) (c : ChainIterWrap) (sz : Nat) :
    wp (growLeg msg id c sz) (fun _ w' => ∃ cb i price n, w' =
      (w.onSob (·.updateAt c id (incrSize sz))).report msg cb i i price n) NoState w := by
  unfold growLeg
  refine wp_modifySob_bind ?_
  refine wp.bind (wp_deref (Q := fun _ w' => w' = w.onSob (·.updateAt c id (incrSize sz)))
    (fun _ _ => rfl) fun _ => rfl) ?_
  rintro leg _ rfl
  exact wp_getSob_bind (wp_pushExecCallback ⟨_, _, _, _, rfl⟩)

section Handle
variable {b : OrderBndl} {sz : Nat} (h : Acts c₀ (F.runs b sz false, w))
include h

theorem Acts.handleOTO (hAON : b.isAON = false) (id : Nat) :
    wp (handleOTO b id) (fun b' w' => Acts c₀ (F.runs b sz false, w') ∧ b.Settled b')
      (Fails Act c₀) w := by
  unfold SimpleOrderbook.handleOTO
  split
  next op hp =>
    have hsz : (F.runs b sz false).Sizes op.size := .inl ⟨_, rfl, .inr ⟨op, hp, rfl⟩⟩
    exact (h.execOTOOrder hsz (.inl ⟨_, rfl, by simp [hp]⟩) _ _).bind fun _ w h => wp_pure ⟨h, .disarmed hAON⟩
  next => exact wp_throw (.inl rfl)

variable (hgap : F.gap = none)
include hgap

theorem Acts.handleOCO (hAON : b.isAON = false) (id : Nat) :
    wp (handleOCO b id) (fun b' w' => Acts c₀ (F.runs b sz false, w') ∧ b.Settled b' ∧
      b'.condition = .none) (Fails Act c₀) w := by
  unfold SimpleOrderbook.handleOCO
  split
  next link hp =>
    have hpull : (F.runs b sz false).MayPull link.id := fun _ _ => ⟨_, link, rfl, hp, rfl⟩
    exact (h.execOCOOrder hgap _ _ _ _ hpull).bind fun _ w h => wp_pure ⟨h, .disarmed hAON, rfl⟩
  next => exact wp_throw (.inl rfl)

theorem Acts.growOrOpenBracket (hopens : b.condition.opensExits) (isTrailing : Bool)
    {first second first' second' : OrderParamaters} {active1 active2 : Nat}
    (hp : b.payload = .bracketOrders first second active1 active2) (cb : OrderExecCbBndl)
    (id : Nat) :
    wp (growOrOpenBracket isTrailing first' second' active1 active2 sz cb id)
      (fun _ w' => Acts c₀ (F.runs b sz false, w')) (Fails Act c₀) w := by
  unfold SimpleOrderbook.growOrOpenBracket
  refine wp_getSob_bind ?_
  split
  next c1 c2 h1 h2 =>
    have hne : active1 ≠ 0 := fun hz => by simp [hz] at h1
    rw [if_pos hne] at h1 h2
    refine ((wp_growLeg ..).mono (fun _ _ hq => hq) fun _ _ he => he.fails).bind ?_
    rintro _ _ ⟨cb1, i1, price1, n1, rfl⟩
    refine (wp_growLeg ..).mono ?_ fun _ _ he => he.fails
    rintro _ _ ⟨cb2, i2, price2, n2, rfl⟩
    exact (h.act (Act.growBoth first second active1 active2 c1 c2 ⟨b, sz, false⟩ _ cb1 i1 price1 n1
      hgap rfl hp hne h1 h2)).act (.report ..)
  next =>
    have hfires : (F.runs b sz false).Fires := .inl ⟨_, rfl, by simp [hp]⟩
    exact h.execBracketOrder (.inl ⟨_, rfl, .inl rfl⟩) (.inl ⟨_, rfl, hopens⟩) hfires hgap ..

theorem Acts.handleBracket (hopens : b.condition.opensExits) (isTrailing : Bool) (id : Nat) :
    wp (handleBracket isTrailing b id sz) (fun b' w' => Acts c₀ (F.runs b sz false, w') ∧
      b.Settled b') (Fails Act c₀) w := by
  unfold SimpleOrderbook.handleBracket
  split
  next first second active1 active2 hp =>
    refine (h.growOrOpenBracket hgap hopens isTrailing hp _ _).bind fun _ w h => wp_pure ⟨h, ?_⟩
    split
    · exact .spent
    · exact .bracket hp
  next => exact wp_throw (.inl rfl)

theorem Acts.handleTrailingStop (hopens : b.condition.opensExits) (id : Nat) :
    wp (handleTrailingStop b id sz) (fun b' w' => Acts c₀ (F.runs b sz false, w') ∧
      b.Settled b') (Fails Act c₀) w := by
  unfold SimpleOrderbook.handleTrailingStop
  split
  next params active hp =>
    refine wp.bind (R := fun _ w' => Acts c₀ (F.runs b sz false, w')) ?_ fun _ w h =>
      wp_pure ⟨h, by split <;> [exact .spent; exact .nticks hp]⟩
    unfold growOrOpenTrailingStop
    refine wp_getSob_bind ?_
    split
    next c hc =>
      have hne : active ≠ 0 := fun hz => by simp [hz] at hc
      rw [if_pos hne] at hc
      refine (wp_growLeg ..).mono ?_ fun _ _ he => he.fails
      rintro _ _ ⟨cb, i, price, n, rfl⟩
      exact (h.act (Act.grow params active c ⟨b, sz, false⟩ hgap rfl hp hne hc)).act (.report ..)
    next =>
      have hfires : (F.runs b sz false).Fires := .inl ⟨_, rfl, by simp [hp]⟩
      exact h.execTrailingStopOrder (.inl ⟨_, rfl, .inl rfl⟩) (.inl ⟨_, rfl, hopens⟩) hfires ..
  next => exact wp_throw (.inl rfl)

theorem Acts.handleActiveBracket
    (hcond : b.isActiveBracket ∨ b.isActiveTrailingBracket) :
    wp (handleActiveBracket b sz) (fun b' w' => (∃ told, Acts c₀ (F.runs b sz told, w')) ∧
      b.Settled b') (Fails Act c₀) w := by
  unfold SimpleOrderbook.handleActiveBracket
  split
  next link hp =>
    refine wp_ite (fun _ => wp_pure ⟨⟨_, h⟩, .same⟩) fun hsz => ?_
    refine wp.bind (wp_fromCache (Q := fun c w' => w.idCache link.id = some c ∧ w' = w)
      (fun c hc => ⟨hc, rfl⟩) fun _ => .of_acts h hgap rfl) ?_
    rintro c _ ⟨hc, rfl⟩
    have h1 := h.act (Act.tell link c ⟨b, sz, false⟩ hgap rfl hp hcond rfl hsz hc)
    refine wp_modifySob_bind (wp.bind (wp_deref (Q := fun _ w' => Acts c₀ (F.runs b sz true, w'))
      (fun _ _ => h1) fun _ => .inl rfl) fun other w2 h2 => wp_getSob_bind ?_)
    exact wp_pushExecCallback_bind (wp_pure ⟨⟨_, h2.act (.report ..)⟩, .same⟩)
  next => exact wp_throw (.inl rfl)

theorem Acts.handleAdvancedOrderTrigger (id : Nat) :
    wp (handleAdvancedOrderTrigger b id sz) (fun b' w' =>
      (∃ told, Acts c₀ (F.runs b sz told, w')) ∧ b.Settled b') (Fails Act c₀) w := by
  unfold SimpleOrderbook.handleAdvancedOrderTrigger
  split
  next => exact wp_pure ⟨⟨_, h⟩, .same⟩
  next => exact wp_pure ⟨⟨_, h⟩, .same⟩
  next => exact wp_pushExecCallback_bind (wp_pure ⟨⟨_, h.act (.report ..)⟩, .same⟩)
  next hc => exact h.handleActiveBracket hgap (.inr (by simp [OrderBndl.isActiveTrailingBracket, hc]))
  next hc => exact h.handleActiveBracket hgap (.inl (by simp [OrderBndl.isActiveBracket, hc]))
  next hc => exact (h.handleOTO (by simp [OrderBndl.isAON, hc]) id).post fun _ _ hq => ⟨⟨_, hq.1⟩, hq.2⟩
  next hc => exact (h.handleBracket hgap (.inr (.inl hc)) true id).post fun _ _ hq => ⟨⟨_, hq.1⟩, hq.2⟩
  next hc => exact (h.handleBracket hgap (.inl hc) false id).post fun _ _ hq => ⟨⟨_, hq.1⟩, hq.2⟩
  next hc => exact (h.handleTrailingStop hgap (.inr (.inr hc)) id).post fun _ _ hq => ⟨⟨_, hq.1⟩, hq.2⟩
  next => exact wp_throw (.of_acts h hgap rfl)
  next => exact wp_throw (.of_acts h hgap rfl)

/-- The cancel conditions either leave the bundle alone or disarm it. -/
theorem Acts.handleAdvancedOrderCancel (id : Nat) :
    wp (handleAdvancedOrderCancel b id sz) (fun r w' => Acts c₀ (F.runs b sz false, w') ∧
      b.Settled r.2 ∧ if r.1 then r.2.condition = .none else r.2 = b) (Fails Act c₀) w := by
  have hoco : b.isAON = false → wp (do return (true, ← SimpleOrderbook.handleOCO b id)) (fun r w' =>
      Acts c₀ (F.runs b sz false, w') ∧ b.Settled r.2 ∧
        if r.1 then r.2.condition = .none else r.2 = b) (Fails Act c₀) w := fun hAON =>
    (h.handleOCO hgap hAON id).bind fun _ w hq => wp_pure hq
  unfold SimpleOrderbook.handleAdvancedOrderCancel
  split
  case h_7 hc | h_8 hc =>
    exact wp_ite (fun _ => wp_pure ⟨h, .same, rfl⟩) fun _ => hoco (by simp [OrderBndl.isAON, hc])
  case h_9 hc => exact hoco (by simp [OrderBndl.isAON, hc])
  case h_10 | h_11 => exact wp_throw (.of_acts h hgap rfl)
  all_goals exact wp_pure ⟨h, .same, rfl⟩

theorem Acts.handleAdvancedOrder (id : Nat) :
    wp (handleAdvancedOrder b id sz) (fun b' w' =>
      (∃ told, Acts c₀ (F.runs b sz told, w')) ∧ b.Settled b') (Fails Act c₀) w := by
  unfold SimpleOrderbook.handleAdvancedOrder
  refine (h.handleAdvancedOrderCancel hgap id).bind ?_
  rintro ⟨cancelled, b'⟩ w1 ⟨h1, hset, hb⟩
  refine wp_ite (fun _ => wp_pure ⟨⟨_, h1⟩, hset⟩) fun hc => ?_
  rw [if_neg hc] at hb
  exact hb ▸ h1.handleAdvancedOrderTrigger hgap id

end Handle
end Acts
end SimpleOrderbook
