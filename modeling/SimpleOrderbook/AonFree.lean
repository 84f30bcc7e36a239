import SimpleOrderbook.Conservation
import SimpleOrderbook.Recording

/-!
# Books without all-or-none orders

Without an AON among the requests none rests in either kind of chain, and then no limit chain is
hit with nothing left to trade: only the AON chain of a level, which is hit before, could take all
that is left of an order in the middle of a level.
-/
namespace SimpleOrderbook

open Hoare

/-! ## No order is all-or-none -/

/-- No order of the book, under way or queued is all-or-none. -/
structure AonFree (F : Flight) (w : World) : Prop where
  aons : ∀ buys p, w.aons buys p = none
  limits : ∀ p, ∀ b ∈ (w.limits p).elems, b.condition ≠ .allOrNone
  acting : ∀ H a, F.hit = some H → F.acting = some a → a.bndl.condition ≠ .allOrNone
  queue : ∀ e ∈ w.internalOrderQueue, e.condition ≠ .allOrNone
  cur : ∀ e, F.cur = some e → e.condition ≠ .allOrNone
  ext : ∀ e, F.ext = some e → e.condition ≠ .allOrNone

section AonFree
variable {F F' : Flight} {w w' : World}

theorem AonFree.not_exists (h : AonFree F w) {buys : Bool} {p : Nat}
    (hm : w.aons buys p ≠ none ∨ ∃ b ∈ (w.limits p).elems, b.isAON = true) : False := by
  rcases hm with hne | ⟨b, hb, hAON⟩
  · exact hne (h.aons buys p)
  · exact h.limits p b hb (of_decide_eq_true hAON)

theorem AonFree.next (h : AonFree F w)
    (haons : ∀ {buys p}, w'.aons buys p ≠ none → w.aons buys p ≠ none ∨
      ∃ b ∈ (w.limits p).elems, b.isAON = true)
    (hlimits : ∀ p, ∀ b ∈ (w'.limits p).elems, (∃ b' ∈ (w.limits p).elems,
      b'.condition = b.condition) ∨ b.condition ≠ .allOrNone)
    (hacting : ∀ H a, F'.hit = some H → F'.acting = some a → a.bndl.condition ≠ .allOrNone)
    (hqueue : ∀ e ∈ w'.internalOrderQueue, e ∈ w.internalOrderQueue ∨ F.Generates e)
    (hcur : ∀ e, F'.cur = some e → F.cur = some e ∨ e.condition ≠ .allOrNone)
    (hext : F'.ext = F.ext) : AonFree F' w' := by
  refine ⟨fun buys p => ?_, fun p b hb => ?_, hacting, fun e he => ?_, fun e he => ?_, fun e he => ?_⟩
  · by_contra hne
    exact h.not_exists (haons hne)
  · rcases hlimits p b hb with ⟨b', hb', heq⟩ | hne
    · exact heq ▸ h.limits p b' hb'
    · exact hne
  · exact (hqueue e he).elim (h.queue e) fun hg => hg.condition.2.2.2
  · exact (hcur e he).elim (h.cur e) fun hne => hne
  · exact h.ext e (hext ▸ he)

/-- A handler begins no other. -/
theorem Act.acting_hit {c c' : Config} (h : Act c c') {H : Hit} {a : Acting}
    (hH : c'.1.hit = some H) (ha : c'.1.acting = some a) :
    c.1.hit = some H ∧ ∃ a', c.1.acting = some a' ∧ a.bndl = a'.bndl := by
  refine ⟨h.flight.1 ▸ hH, ?_⟩
  cases hact : c.1.acting with
  | none =>
    have hnone : c'.1.acting = none := by
      cases h with
      | tell _ _ _ _ ha' => exact absurd (ha'.symm.trans hact) (by simp)
      | _ => exact hact
    rw [hnone] at ha
    cases ha
  | some a0 =>
    obtain ⟨b0, n, told⟩ := a0
    obtain ⟨told', ha'⟩ := h.acting hact
    obtain rfl : a = ⟨b0, n, told'⟩ := Option.some.inj (ha.symm.trans ha')
    exact ⟨_, rfl, rfl⟩

theorem OrderBndl.Settled.condition_ne {b b' : OrderBndl} (h : b.Settled b')
    (hb : b.condition ≠ .allOrNone) : b'.condition ≠ .allOrNone := by
  cases h with
  | disarmed => simp
  | _ => exact hb

theorem Move.aonFree {c c' : Config} (h : Move c c') (hf : AonFree c.1 c.2) :
    AonFree c'.1 c'.2 := by
  have hF := h.sameInsertion
  refine hf.next h.aons (fun p b hb => ?_) (fun H a hH ha => ?_) h.queue
    (fun e he => .inl (hF.cur ▸ he)) hF.ext
  · rcases h.kept hb with ⟨b', hb', heq⟩ | ⟨H, a, b', hH, ha, -, hs, hcond, -⟩
    · exact .inl ⟨b', hb', by rw [heq]⟩
    · exact .inr (hcond ▸ hs.condition_ne (hf.acting H a hH ha))
  · cases h with
    | act h =>
      obtain ⟨hH', a', ha', heq⟩ := h.acting_hit hH ha
      exact heq ▸ hf.acting H a' hH' ha'
    | beginHit plev id size hands hh hgap hhit hact =>
      rw [hact] at ha
      cases ha
    | skip h i todo hhit =>
      cases hH
      exact hf.acting h a hhit ha
    | moveHit h id size b c todo hands hgap hact =>
      rw [hact] at ha
      cases ha
    | fill h id size cb b todo hands hh hhit htodo hb =>
      cases hH
      cases ha
      exact hf.limits h.plev b (Chain.findLimit_mem hb).1
    | reduce | retire | endTrigger => cases ha
    | eraseHit | freeHit | missHit | wipeHit => cases hH
    | beginTrigger d e todo hdet htodo hact hhit =>
      rw [hhit] at hH
      cases hH
    | _ => exact hf.acting H a hH ha

theorem Moves.aonFree {c c' : Config} (h : Moves c c') (hf : AonFree c.1 c.2) :
    AonFree c'.1 c'.2 := by
  induction h with
  | refl => exact hf
  | tail _ h ih => exact h.aonFree ih

/-! ### Insertions -/

/-- What comes to rest has no other condition than its order. -/
theorem AonFree.rests (h : AonFree F w) {e : OrderQueueElem} {b : OrderBndl} (hins : F.Inserts e)
    (hb : e.Rests b) : b.condition ≠ .allOrNone := by
  have he : e.condition ≠ .allOrNone := by
    obtain ⟨e', he', rfl | ⟨-, hcond, -⟩⟩ := hins
    · exact h.cur e he'
    · exact hcond ▸ h.cur e' he'
  rcases hb.condition with hc | hc
  · simp [hc]
  · exact hc ▸ he

/-- A rewritten order has the condition it had or another one that is not AON. -/
theorem condition_updateAt {s : Sob} {c : ChainIterWrap} {id p : Nat} {f : OrderBndl → OrderBndl}
    (hf : ∀ x, (f x).condition = x.condition ∨ (f x).condition ≠ .allOrNone) {b : LimitBndl}
    (hb : b ∈ ((s.updateAt c id f).limits p).elems) :
    (∃ b' ∈ (s.limits p).elems, b'.condition = b.condition) ∨ b.condition ≠ .allOrNone := by
  rcases mem_limits_updateAt hb with hb | ⟨-, x, hx, -, heq⟩
  · exact .inl ⟨b, hb, rfl⟩
  · rw [heq]
    exact (hf x.toOrderBndl).imp_left fun h => ⟨x, hx, h.symm⟩

theorem Step.condition {c c' : Config} (h : Step c c') (hf : AonFree c.1 c.2) {p : Nat}
    {b : LimitBndl} (hb : b ∈ (c'.2.limits p).elems) :
    (∃ b' ∈ (c.2.limits p).elems, b'.condition = b.condition) ∨ b.condition ≠ .allOrNone := by
  have hsame : c'.2.limits = c.2.limits → (∃ b' ∈ (c.2.limits p).elems,
      b'.condition = b.condition) ∨ b.condition ≠ .allOrNone := fun hl => .inl ⟨b, hl ▸ hb, rfl⟩
  cases h with
  | act h =>
    obtain ⟨b', hb', heq⟩ := h.kept hb
    exact .inl ⟨b', hb', by rw [heq]⟩
  | trade bidSide plev id size r cb hF hp hpe hrun hm => exact .inr ((hm.aonFree hf).limits p b hb)
  | kill => exact hsame (limits_of_bookView (bookView_report _ _ _ _ _ _ _))
  | print => exact hsame (limits_of_bookView (bookView_traded _ _ _ _ _ _ _))
  | @pushLimit F w buy q x hands ids hgap hh hids hsz hp hpe hss hside hpay hAON e hins hx =>
    have hlim : (Chain.limitPush buy w.toSob q x).limits p =
        if p = q then (w.limits q).push x else w.limits p :=
      congrFun (congrArg LimitView.limits (limitView_limitPush w.toSob buy q x)) p
    rw [World.toSob_onSob, hlim] at hb
    split at hb
    next hq =>
      rw [ChainManager.elems_push] at hb
      rcases List.mem_append.mp hb with hb | hb
      · exact .inl ⟨b, hq ▸ hb, rfl⟩
      · exact .inr (List.mem_singleton.mp hb ▸ hf.rests hins hx)
    next => exact .inl ⟨b, hb, rfl⟩
  | pushAon => exact hsame (limits_of_bookView (bookView_aonPush _ _ _ _))
  | pushStop => exact hsame (limits_of_bookView (bookView_stopPush _ _ _))
  | arm e id c payload hgap he => exact condition_updateAt (fun _ => .inr (hf.cur e he)) hb
  | link e op id1 id2 c1 c2 hgap he =>
    rcases condition_updateAt (fun _ => .inr (hf.cur e he)) hb with ⟨b', hb', heq⟩ | hne
    · exact heq ▸ condition_updateAt (fun _ => .inr (hf.cur e he)) hb'
    · exact .inr hne
  | openLoss e l c q x nticks1 nticks2 ids hgap he =>
    rw [World.toSob_onSob, limits_of_bookView (bookView_stopPush _ _ _)] at hb
    exact condition_updateAt (fun _ => .inr (hf.cur e he)) hb
  | trailingInsert => exact hsame (limits_of_bookView (bookView_trailing _ _ _).2)
  | tellEntry e id c payload =>
    exact condition_updateAt (f := fun x => { x with payload := payload }) (fun _ => .inl rfl) hb
  | _ => exact hsame rfl

/-- An order is taken up from the queue or is the one the window was opened for. -/
theorem AonFree.accepts (h : AonFree F w) {e : OrderQueueElem}
    (hext : F.front = 0 → ∃ e', F.ext = some e' ∧ e = { e' with id := e.id })
    (hint : F.front ≠ 0 → ∃ e' queue, w.internalOrderQueue = e' :: queue ∧
      e = { e' with id := e.id }) : e.condition ≠ .allOrNone := by
  by_cases hfront : F.front = 0
  · obtain ⟨e', he', heq⟩ := hext hfront
    rw [heq]
    exact h.ext e' he'
  · obtain ⟨e', queue, hq, heq⟩ := hint hfront
    rw [heq]
    exact h.queue e' (by simp [hq])

theorem Step.queue {c c' : Config} (h : Step c c') : Moves c c' ∨
    ∀ e ∈ c'.2.internalOrderQueue, e ∈ c.2.internalOrderQueue ∨ c.1.Generates e := by
  have hsame : c'.2.internalOrderQueue = c.2.internalOrderQueue → Moves c c' ∨
      ∀ e ∈ c'.2.internalOrderQueue, e ∈ c.2.internalOrderQueue ∨ c.1.Generates e :=
    fun hq => .inr fun e he => .inl (hq ▸ he)
  cases h with
  | act h => exact .inr h.queue
  | trade bidSide plev id size r cb hF hp hpe hrun hm => exact .inl hm
  | endOrder => exact .inr fun e he => .inl (List.mem_of_mem_tail he)
  | kill => exact hsame (queue_of_bookView (bookView_report _ _ _ _ _ _ _))
  | print => exact hsame (queue_of_bookView (bookView_traded _ _ _ _ _ _ _))
  | @pushLimit F w buy p b => exact hsame (waiting_limitPush w.toSob buy p b).2
  | pushAon => exact hsame (queue_of_bookView (bookView_aonPush _ _ _ _))
  | pushStop => exact hsame (queue_of_bookView (bookView_stopPush _ _ _))
  | arm | tellEntry => exact hsame (queue_updateAt _ _ _ _)
  | link => exact hsame ((queue_updateAt _ _ _ _).trans (queue_updateAt _ _ _ _))
  | openLoss =>
    exact hsame ((queue_of_bookView (bookView_stopPush _ _ _)).trans (queue_updateAt _ _ _ _))
  | trailingInsert => exact hsame (queue_of_bookView (bookView_trailing _ _ _).2)
  | _ => exact hsame rfl

theorem Step.aonFree {c c' : Config} (h : Step c c') (hhit : c.1.hit = none)
    (hf : AonFree c.1 c.2) : AonFree c'.1 c'.2 := by
  rcases h.queue with hm | hqueue
  · exact Moves.aonFree hm hf
  have hacting : ∀ F' : Flight, F'.hit = c.1.hit → ∀ H a, F'.hit = some H → F'.acting = some a →
      a.bndl.condition ≠ .allOrNone := fun F' hF' H a hH _ => by
    rw [hF', hhit] at hH
    cases hH
  refine hf.next (fun hp => ?_) (fun p b hb => h.condition hf hb) ?_ hqueue ?_ ?_
  · rcases h.aons hp with hm | hm | ⟨-, e, b, hins, hb, hAON⟩
    · exact hm
    · exact absurd ((Moves.aonFree hm hf).aons _ _) hp
    · exact absurd (of_decide_eq_true hAON) (hf.rests hins hb)
  · cases h with
    | act h => exact hacting _ h.flight.1
    | _ => exact hacting _ rfl
  · cases h with
    | act h => exact fun e he => .inl (h.sameInsertion.cur ▸ he)
    | accept e ids hids hhands hcur hext hint =>
      intro e' he
      cases he
      exact .inr (hf.accepts hext hint)
    | finish => exact fun e he => by cases he
    | _ => exact fun e he => .inl he
  · cases h with
    | act h => exact h.sameInsertion.ext
    | _ => rfl

end AonFree

/-! ## Sweeps without all-or-none orders -/

instance : Regular fun ev => ∀ s plev, ev ≠ .hitChain s plev 0 := ⟨fun h => h⟩

theorem World.Extends.noEmptyHit {w w' : World}
    (h : w.Extends (fun ev => ∀ s plev, ev ≠ .hitChain s plev 0) w') (hz : w.NoEmptyHit) :
    w'.NoEmptyHit := by
  obtain ⟨evs, heq, hok⟩ := h
  intro s plev hm
  rw [heq] at hm
  exact (List.mem_append.mp hm).elim (fun hm => hok _ hm s plev rfl) (hz s plev)

theorem World.NoEmptyHit.log {w : World} (h : w.NoEmptyHit) {ev : Event}
    (hev : ∀ s plev, ev ≠ .hitChain s plev 0) : (w.log ev).NoEmptyHit :=
  (World.Extends.log hev).noEmptyHit h

/-- A program that hits no limit chain with nothing left to trade. -/
theorem Records.noEmptyHit {α : Type} {m : M α}
    (hm : Records (fun ev => ∀ s plev, ev ≠ .hitChain s plev 0) m) {w : World} (h : w.NoEmptyHit) :
    wp m (fun _ w' => w'.NoEmptyHit) (fun _ w' => w'.NoEmptyHit) w :=
  (hm.run w).mono (fun _ _ hx => hx.noEmptyHit h) fun _ _ hx => hx.noEmptyHit h

/-- Without AONs the sweep comes to each limit chain with something left to trade. -/
theorem Moves.sweep_hitsWithSize {c₀ : Config} {F : Flight} (h0 : Ambient c₀.1 c₀.2)
    (hf : AonFree c₀.1 c₀.2) {bidSide : Bool} {plev endp id : Nat} (cb : OrderExecCbBndl)
    (hcalm : F.Calm) (n : Nat) : ∀ {w : World} {p size high low : Nat},
      Moves c₀ (F.hold id size, w) → w.NoEmptyHit →
      wp (SimpleOrderbook.sweep bidSide plev endp id cb n p size high low) (fun _ w' => w'.NoEmptyHit)
        (fun _ _ => True) w := by
  induction n with
  | zero => exact fun _ hz => wp_pure hz
  | succ n ih =>
    intro w p size high low hm hz
    unfold SimpleOrderbook.sweep
    refine wp_ite (fun hin => ?_) fun _ => wp_pure hz
    have hnone := (hm.aonFree hf).aons bidSide p
    have haons : wp (SimpleOrderbook.tradeAons bidSide p id cb size) (fun r w' => r = size ∧ w' = w)
        (fun _ _ => True) w := by
      unfold SimpleOrderbook.tradeAons
      refine wp_getSob_bind (wp_ite (fun _ => ?_) fun _ => wp_pure ⟨rfl, rfl⟩)
      rw [hnone]
      exact wp_pure ⟨rfl, rfl⟩
    refine haons.bind ?_
    rintro size w ⟨rfl, rfl⟩
    have hhere : Moves (F.hold id size, w) (F.hold id size, w) := .refl
    have hrec : Records (fun ev => ∀ s plev, ev ≠ .hitChain s plev 0)
        (SimpleOrderbook.tradeLimits bidSide p id cb size) :=
      records_tradeLimits (fun _ _ _ h => by cases h; exact hin.1 rfl) bidSide id cb
    have htrade : wp (SimpleOrderbook.tradeLimits bidSide p id cb size) _ _ w :=
      (Moves.tradeLimits (hm.ambient h0) cb hhere hcalm).and (hrec.noEmptyHit hz)
    refine (htrade.mono (fun _ _ hq => hq) fun _ _ _ => trivial).bind ?_
    rintro size' w' ⟨⟨hm', -⟩, hz'⟩
    exact wp_getSob_bind (ih (hm.trans hm') hz')

theorem Moves.trade_hitsWithSize {F : Flight} {w : World} {bidSide : Bool} {plev id size : Nat}
    (h0 : Ambient (F.hold id size) w) (hf : AonFree (F.hold id size) w) (cb : OrderExecCbBndl)
    (hF : F.Calm) (hz : w.NoEmptyHit) :
    wp (SimpleOrderbook.trade bidSide plev id size cb) (fun _ w' => w'.NoEmptyHit)
      (fun _ _ => True) w := by
  have hq : ∀ {α : Type} {m : M α}, Records (fun ev => ∀ s plev, ev ≠ .hitChain s plev 0) m →
      ∀ w : World, w.NoEmptyHit → wp m (fun _ w' => w'.NoEmptyHit) (fun _ _ => True) w :=
    fun hm w h => (hm.noEmptyHit h).mono (fun _ _ h => h) fun _ _ _ => trivial
  unfold SimpleOrderbook.trade
  refine wp_getSob_bind (wp_record_bind ?_)
  have h1 : Moves (F.hold id size, w) (F.hold id size, _) :=
    .single (.call (.tradeCall w.toSob bidSide plev id size) rfl fun _ _ _ h => by cases h)
  refine (Moves.sweep_hitsWithSize h0 hf cb hF _ h1
    (hz.log nofun)).bind fun r w2 hz2 => ?_
  refine (hq (records_adjustTrailingStops ..) w2 hz2).bind fun _ w3 hz3 => ?_
  exact (hq records_checkForStops w3 hz3).bind fun _ w4 hz4 => wp_pure hz4

/-! ## Runs without all-or-none orders -/

theorem World.NoEmptyHit.report {w : World} (h : w.NoEmptyHit) (msg : CallbackMsg)
    (cb : OrderExecCbBndl) (id1 id2 : Nat) (price : Int) (sz : Nat) :
    (w.report msg cb id1 id2 price sz).NoEmptyHit :=
  ((records_pushExecCallback msg cb id1 id2 price sz).noEmptyHit h).ok
    (pushExecCallback_apply msg cb id1 id2 price sz w)

theorem Act.noEmptyHit {c c' : Config} (h : Act c c') (hz : c.2.NoEmptyHit) : c'.2.NoEmptyHit := by
  cases h with
  | report => exact hz.report _ _ _ _ _ _
  | @growBoth F w first second id1 id2 c1 c2 a msg cb id price sz =>
    have h1 : (w.onSob (·.updateAt c1 id1 (incrSize a.amount))).NoEmptyHit := hz
    exact h1.report msg cb id id price sz
  | enqueue | moveFront | missFront | popAon | pulled | pullEmptyStop | look =>
    exact hz.log nofun
  | _ => exact hz

theorem Step.hit_eq {c c' : Config} (h : Step c c') : c'.1.hit = c.1.hit := by
  cases h with
  | act h => exact h.flight.1
  | _ => rfl

theorem Step.noEmptyHit {c c' : Config} (h : Step c c') (ha : Ambient c.1 c.2)
    (hf : AonFree c.1 c.2) (hz : c.2.NoEmptyHit) : c'.2.NoEmptyHit := by
  cases h with
  | act h => exact h.noEmptyHit hz
  | trade bidSide plev id size r cb hF hp hpe hrun hm =>
    exact (Moves.trade_hitsWithSize ha hf cb hF hz).ok hrun
  | kill => exact hz.report _ _ _ _ _ _
  | print =>
    intro s q hm
    rw [trace_traded] at hm
    exact hz s q (by simpa [World.log] using hm)
  | accept | trailingInsert => exact hz.log fun _ _ heq => by cases heq
  | _ => exact hz

theorem Steps.aonFree {c c' : Config} (h : Steps c c') (ha : Ambient c.1 c.2)
    (hhit : c.1.hit = none) (hf : AonFree c.1 c.2) (hz : c.2.NoEmptyHit) :
    AonFree c'.1 c'.2 ∧ c'.2.NoEmptyHit := by
  suffices c'.1.hit = none ∧ AonFree c'.1 c'.2 ∧ c'.2.NoEmptyHit from this.2
  induction h with
  | refl => exact ⟨hhit, hf, hz⟩
  | tail hs h ih =>
    obtain ⟨hhit', hf', hz'⟩ := ih
    exact ⟨h.hit_eq.trans hhit', h.aonFree hhit' hf', h.noEmptyHit (Steps.ambient hs ha) hf' hz'⟩

/-- A request for anything but an all-or-none order. -/
def Request.NotAON : Request → Prop
  | .insertLimitOrder _ _ _ _ advanced | .insertMarketOrder _ _ _ advanced
  | .insertStopOrder _ _ _ _ _ advanced | .replaceWithLimitOrder _ _ _ _ _ advanced
  | .replaceWithMarketOrder _ _ _ _ advanced | .replaceWithStopOrder _ _ _ _ _ _ advanced =>
    advanced.condition ≠ .allOrNone
  | .pullOrder .. | .growBookAbove _ | .growBookBelow _ => True

theorem Request.NotAON.opens {r : Request} (hr : r.NotAON) {s : Sob} {qe : Option OrderQueueElem}
    (h : r.Opens s qe) : ∀ e, qe = some e → e.condition ≠ .allOrNone := by
  intro e he
  obtain ⟨ee, hact, hee⟩ := h e he
  rw [orderQueueElem_condition hee]
  cases r with
  | growBookAbove | growBookBelow => cases hact
  | _ =>
    repeat obtain ⟨_, -, hact⟩ := Except.bind_ok hact
    cases hact
    first | exact hr | simp [AdvancedOrderTicket.null]

section Windows
variable {w w' : World}

theorem AonFree.opened (h : AonFree {} w) {qe : Option OrderQueueElem}
    (hqe : ∀ e, qe = some e → e.condition ≠ .allOrNone) : AonFree (.opened qe) w :=
  ⟨h.aons, h.limits, fun _ _ hH => (by cases hH), h.queue, fun _ he => (by cases he), hqe⟩

/-- What is left open of a window does not matter once it is closed. -/
theorem AonFree.closed {F : Flight} (h : AonFree F w) (hbook : w'.book = w.book)
    (hq : ∀ e ∈ w'.internalOrderQueue, e ∈ w.internalOrderQueue) : AonFree {} w' := by
  refine ⟨fun buys p => ?_, fun p b hb => h.limits p b ?_, fun _ _ hH => (by cases hH),
    fun e he => h.queue e (hq e he), fun _ he => (by cases he), fun _ he => by cases he⟩
  · exact (congrArg (fun book => (book p).aonChain buys) hbook).trans (h.aons buys p)
  · rwa [show w.limits p = w'.limits p from congrArg (fun book => (book p).limits) hbook.symm]

theorem AonFree.growBook (h : AonFree {} w) (base : Int) (incr : Nat) (atBeg : Bool) :
    AonFree {} { w with toSob := growBook base incr atBeg w.toSob } := by
  by_cases hincr : incr = 0
  · unfold SimpleOrderbook.growBook
    rw [if_pos hincr]
    exact h
  have hbook : ∀ p, (SimpleOrderbook.growBook base incr atBeg w.toSob).book p =
      if p < growOffset incr atBeg then {} else w.book (p - growOffset incr atBeg) := fun p => by
    rw [growBook_of_ne hincr]
    rfl
  have hq : (SimpleOrderbook.growBook base incr atBeg w.toSob).internalOrderQueue =
      w.internalOrderQueue := by
    rw [growBook_of_ne hincr]
    rfl
  refine ⟨fun buys p => ?_, fun p b hb => ?_, fun _ _ hH => (by cases hH),
    fun e he => h.queue e (hq ▸ he), fun _ he => (by cases he), fun _ he => by cases he⟩
  · change ((SimpleOrderbook.growBook base incr atBeg w.toSob).book p).aonChain buys = none
    rw [hbook]
    split
    · cases buys <;> rfl
    · exact h.aons buys _
  · change b ∈ ((SimpleOrderbook.growBook base incr atBeg w.toSob).book p).limits.elems at hb
    rw [hbook] at hb
    split at hb
    · cases hb
    · exact h.limits _ b hb

theorem Closes.aonFree {r : Request} {o : Outcome} (h : Closes r w o w') (hr : r.NotAON)
    (ho : o.Expected) (hw : ∀ qe, WellFormed (.opened qe, w)) (hf : AonFree {} w)
    (hz : w.NoEmptyHit) : AonFree {} w' ∧ w'.NoEmptyHit := by
  have hdrop : ∀ {w' : World}, w'.NoEmptyHit → ∀ queue, World.NoEmptyHit
      { w' with internalOrderQueue := [], trace := .dropped queue :: w'.trace } := fun hz queue =>
    hz.log nofun
  cases h with
  | refused => exact ⟨hf, hz⟩
  | rejected ee hee => exact ⟨hf.closed rfl fun _ he => (by cases he), hdrop hz _⟩
  | grown f hact hs =>
    obtain ⟨base, incr, atBeg, -, rfl⟩ := Request.grow_eq hact hs
    exact ⟨hf.growBook base incr atBeg, hz⟩
  | value hqe hs hq =>
    obtain ⟨hf', hz'⟩ := Steps.aonFree hs (hw _).ambient rfl (hf.opened (hr.opens hqe)) hz
    exact ⟨hf'.closed rfl fun _ he => he, hz'⟩
  | left hqe hs herr =>
    cases hs with
    | undefined => exact absurd rfl herr
    | failed _ _ _ he => exact absurd ho (by simp [Outcome.Expected, he])
    | refused hs hF hh =>
      obtain ⟨hf', hz'⟩ := Steps.aonFree hs (hw _).ambient rfl (hf.opened (hr.opens hqe)) hz
      exact ⟨hf'.closed rfl fun _ he => (by cases he), hdrop hz' _⟩

/-- In a run without all-or-none orders none rests, and no limit chain is hit with nothing left. -/
theorem Run.aonFree {w₀ : World} {rs : List (Request × Outcome)} (h0 : Initial w₀)
    (h : Run w₀ rs w) (hr : ∀ ro ∈ rs, ro.1.NotAON) (ho : ∀ ro ∈ rs, ro.2.Expected) :
    AonFree {} w ∧ w.NoEmptyHit := by
  induction h with
  | nil =>
    obtain ⟨⟨base, incr, -, -, hw⟩, htrace⟩ := h0
    refine ⟨⟨fun buys p => ?_, fun p b hb => ?_, fun _ _ hH => (by cases hH), fun e he => ?_,
      fun _ he => (by cases he), fun _ he => by cases he⟩, fun s p hm => ?_⟩
    · rw [hw]
      cases buys <;> rfl
    · rw [hw] at hb
      cases hb
    · rw [hw] at he
      cases he
    · rw [htrace] at hm
      cases hm
  | @snoc rs w w' r o hrun hw ih =>
    obtain ⟨hwf, hq⟩ := hrun.wellFormed h0
    obtain ⟨hf, hz⟩ := ih (fun ro hro => hr ro (by simp [hro])) fun ro hro => ho ro (by simp [hro])
    exact (hw.closes hwf hq).aonFree (hr (r, o) (by simp)) (ho (r, o) (by simp)) hwf hf hz

end Windows
end SimpleOrderbook
