import SimpleOrderbook.Addressing
import SimpleOrderbook.History

/-!
# Runs

What the invariant of the transitions says of the book between the windows of a run: the limit book
is not crossed and its cached pointers are right.
-/
namespace SimpleOrderbook

section Close
variable {qe : Option OrderQueueElem} {w : World}

/-- A window that is left by an exception closes with an empty queue. -/
theorem WellFormed.emptied {c : Config} (h : WellFormed c) (hgap : c.1.gap = none)
    (trace : List Event) :
    WellFormed (.opened qe, { c.2 with internalOrderQueue := [], trace := trace }) :=
  ⟨h.ambient.of_subperm hgap.symm (fun h _ hh => by cases hh) rfl rfl (Nat.zero_le _)
    (List.nil_subperm), h.aons, h.levels⟩

theorem Leaves.wellFormed {c : Config} {err : Err} (h : Leaves c err w) (hc : WellFormed c)
    (herr : err ≠ .undefinedBehaviour) :
    ∃ F, F.gap = none ∧ WellFormed (F, w) := by
  cases h with
  | undefined => exact absurd rfl herr
  | @failed c' F _ _ hs hm hgap _ =>
    have hc' := hs.wellFormed hc
    have hend : w.grid = c'.2.grid := hm.shrinks.grid_eq
    exact ⟨F, hgap, Moves.ambient hm hc'.ambient, hm.aonsInRange hc'.ambient hc'.aons,
      hc'.levels.trans_eq (congrArg Prod.snd hend.symm)⟩
  | @refused F _ _ _ _ hs hF _ => exact ⟨F, hF.gap, hs.wellFormed hc⟩

/-- The invariant, and an empty queue, from the opening of a window to its close. -/
theorem Closes.wellFormed {r : Request} {o : Outcome} {w' : World} (h : Closes r w o w')
    (hw : ∀ qe, WellFormed (.opened qe, w)) (hq : w.internalOrderQueue = []) :
    (∀ qe, WellFormed (.opened qe, w')) ∧ w'.internalOrderQueue = [] := by
  cases h with
  | refused => exact ⟨hw, hq⟩
  | rejected ee hee => exact ⟨fun qe => (hw qe).emptied rfl _, rfl⟩
  | @grown s f hact hs =>
    obtain ⟨base, incr, atBeg, -, rfl⟩ := Request.grow_eq hact hs
    refine ⟨fun qe => (hw qe).growBook base incr atBeg, ?_⟩
    change (growBook base incr atBeg w.toSob).internalOrderQueue = []
    unfold growBook
    split
    · exact hq
    · exact hq
  | @value qe _ _ w' hqe hs hq' cbs hcbs =>
    have h' := hs.wellFormed (hw qe)
    exact ⟨fun qe' => ⟨h'.ambient.congr rfl rfl rfl rfl h'.ambient.acting, h'.aons, h'.levels⟩, hq'⟩
  | @left qe err w' hqe hs herr =>
    obtain ⟨F, hgap, h'⟩ := hs.wellFormed (hw qe) herr
    exact ⟨fun qe' => h'.emptied hgap _, rfl⟩

end Close

/-! ## Runs -/

/-- An invariant of the windows that close is one of the runs. -/
theorem Run.inv {P : World → Prop} {w₀ w : World} {rs : List (Request × Outcome)}
    (h : Run w₀ rs w) (h0 : P w₀)
    (hstep : ∀ {r w o w'}, P w → Window r w o w' → P w') : P w := by
  induction h with
  | nil => exact h0
  | snoc _ hw ih => exact hstep ih hw

/-- A run can be continued. -/
theorem Run.trans [Pointers] {w₀ w w' : World} {rs rs' : List (Request × Outcome)} (h : Run w₀ rs w)
    (h' : Run w rs' w') : Run w₀ (rs ++ rs') w' := by
  induction h' with
  | nil => rwa [List.append_nil]
  | snoc _ hw ih => rw [← List.append_assoc]; exact ih.snoc hw

/-- What is computed is a run. -/
theorem Run.of_execAll [Pointers] {fuel : Nat} {requests : List Request} {w w' : World}
    {rs : List (Request × Outcome)} (h : execAll fuel requests w = some (rs, w')) : Run w rs w' := by
  induction requests generalizing w rs with
  | nil => cases h; exact .nil
  | cons r requests ih =>
    simp only [execAll, Option.bind_eq_bind, Option.bind_eq_some_iff] at h
    obtain ⟨⟨o, w1⟩, h1, ⟨os, w2⟩, h2, heq⟩ := h
    cases heq
    exact (Run.nil.snoc ⟨fuel, h1⟩).trans (ih h2)

theorem execAll_requests [Pointers] {fuel : Nat} {requests : List Request} {w w' : World}
    {rs : List (Request × Outcome)} (h : execAll fuel requests w = some (rs, w')) :
    rs.map (·.1) = requests := by
  induction requests generalizing w rs with
  | nil => cases h; rfl
  | cons r requests ih =>
    simp only [execAll, Option.bind_eq_bind, Option.bind_eq_some_iff] at h
    obtain ⟨⟨o, w1⟩, h1, ⟨os, w2⟩, h2, heq⟩ := h
    cases heq
    rw [List.map_cons, ih h2]

/-- An order that is `p` is accepted. -/
def Event.accepts (p : OrderQueueElem → Bool) : Event → Bool
  | .insertOrder e => p e
  | _ => false

/-- There is a run of the requests, and its end is observed by `f` to be `v`. -/
theorem Run.exists_of_execAll [Pointers] {α : Type} {f : List Outcome → World → α} {v : α} (fuel : Nat)
    (requests : List Request) {w : World}
    (h : (execAll fuel requests w).map (fun c => f (c.1.map (·.2)) c.2) = some v) :
    ∃ rs w', Run w rs w' ∧ rs.map (·.1) = requests ∧ f (rs.map (·.2)) w' = v := by
  obtain ⟨⟨rs, w'⟩, he, hv⟩ := Option.map_eq_some_iff.mp h
  exact ⟨rs, w', .of_execAll he, execAll_requests he, hv⟩

theorem initial_create {base : Int} {incr : Nat} (hbase : 1 ≤ base) (hincr : 3 ≤ incr) :
    Initial (World.create base incr) :=
  ⟨⟨base, incr, hbase, hincr, rfl⟩, rfl⟩

/-- No order is known to an empty book. -/
theorem Initial.wellFormed {w : World} (h : Initial w) :
    (∀ qe, WellFormed (.opened qe, w)) ∧ w.internalOrderQueue = [] := by
  obtain ⟨⟨base, incr, hbase, hincr, hw⟩, -⟩ := h
  have hlim : LimitInv (Sob.init base incr).limitView := by
    refine ⟨⟨?_, ?_, ?_, ?_, ?_, ?_, ?_⟩, ⟨?_, ?_⟩, ⟨?_, ?_⟩⟩ <;>
      simp [Sob.limitView, Sob.init, Sob.limits]
  have hamb : ∀ qe, Ambient (.opened qe) w := fun qe => by
    refine ⟨hw ▸ hlim, ?_, ?_, ?_, fun h _ hh => (by cases hh), Nat.zero_le _, ?_, ?_, ?_⟩ <;>
      rw [hw] <;> simp [Sob.init, Sob.limits, Sob.limitIds, Sob.pending, Flight.opened]
  refine ⟨fun qe => ⟨hamb qe, fun buys p hp => absurd ?_ hp, ?_⟩, by rw [hw]; rfl⟩
  · change w.aons buys p = none
    rw [hw]
    cases buys <;> rfl
  · change 1 < w.end_
    rw [hw]
    change 1 < incr + 1
    omega

/-- Between two windows the book is well formed and nothing is queued. -/
theorem Run.wellFormed {w₀ w : World} {rs : List (Request × Outcome)} (h0 : Initial w₀)
    (h : Run w₀ rs w) : (∀ qe, WellFormed (.opened qe, w)) ∧ w.internalOrderQueue = [] :=
  h.inv (P := fun w => (∀ qe, WellFormed (.opened qe, w)) ∧ w.internalOrderQueue = [])
    h0.wellFormed fun hP hw => (hw.closes hP.1 hP.2).wellFormed hP.1 hP.2

/-- An invariant of the windows that close, in a well formed book, is one of the runs. -/
theorem Run.closes_inv {P : World → Prop} {w₀ w : World} {rs : List (Request × Outcome)}
    (h0 : Initial w₀) (h : Run w₀ rs w) (hP : P w₀)
    (hstep : ∀ {r w o w'}, (∀ qe, WellFormed (.opened qe, w)) → w.internalOrderQueue = [] → P w →
      Closes r w o w' → P w') : P w := by
  induction h with
  | nil => exact hP
  | snoc hr hw ih =>
    obtain ⟨hwf, hq⟩ := hr.wellFormed h0
    exact hstep hwf hq ih (hw.closes hwf hq)

/-- The request did not end in an exception. -/
def Outcome.isValue : Outcome → Bool
  | .value .. => true
  | .exception _ => false

/-! ## Invariants of the transitions -/

theorem Moves.wellFormed {c c' : Config} (h : Moves c c') (hw : WellFormed c) : WellFormed c' :=
  ⟨Moves.ambient h hw.ambient, h.aonsInRange hw.ambient hw.aons,
    hw.levels.trans_eq (congrArg Prod.snd h.shrinks.grid_eq.symm)⟩

/-- No trade is under way. -/
structure Flight.NoTrade (F : Flight) : Prop where
  hit : F.hit = none
  acting : F.acting = none
  scan : F.scan = none
  detached : F.detached = none

theorem Act.noTrade {c c' : Config} (h : Act c c') (hn : c.1.NoTrade) : c'.1.NoTrade := by
  obtain ⟨h1, h2, h3, h4⟩ := hn
  cases h with
  | tell link c a hgap ha => exact absurd (ha.symm.trans h2) (by simp)
  | _ => exact ⟨h1, h2, h3, h4⟩

theorem Step.noTrade {c c' : Config} (h : Step c c') (hn : c.1.NoTrade) : c'.1.NoTrade := by
  cases h with
  | act h => exact h.noTrade hn
  | _ => exact ⟨hn.hit, hn.acting, hn.scan, hn.detached⟩

theorem Flight.NoTrade.opened (qe : Option OrderQueueElem) : (Flight.opened qe).NoTrade :=
  ⟨rfl, rfl, rfl, rfl⟩

/-- `w'` is what the close of a window leaves of `w`. -/
structure World.ClosesTo (w w' : World) : Prop where
  sob : ∃ cbs queue, w'.toSob = { w.toSob with callbacksSync := cbs, internalOrderQueue := queue }
  trace : w'.trace = w.trace ∨ ∃ queue, w'.trace = .dropped queue :: w.trace

theorem World.ClosesTo.refl (w : World) : w.ClosesTo w := ⟨⟨_, _, rfl⟩, .inl rfl⟩

theorem World.ClosesTo.trace_suffix {w w' : World} (h : w.ClosesTo w') : w.trace <:+ w'.trace := by
  rcases h.trace with ht | ⟨dropped, ht⟩
  · exact ht ▸ List.suffix_refl _
  · exact ht ▸ List.suffix_cons _ _

/-- `P` is an invariant of the transitions and of the growth of the book. -/
structure Kept (P : Config → Prop) : Prop where
  move : ∀ {c c'}, WellFormed c → Move c c' → P c → P c'
  /-- A step that is a trade is made of moves. -/
  step : ∀ {c c'}, WellFormed c → c.1.NoTrade → Step c c' → P c → (Moves c c' → P c') → P c'
  grow : ∀ {qe w base incr atBeg}, WellFormed (.opened qe, w) → incr ≠ 0 → P (.opened qe, w) →
    P (.opened qe, { w with toSob := growBook base incr atBeg w.toSob })
  close : ∀ {qe qe' w w'}, P (.opened qe, w) → w.ClosesTo w' → P (.opened qe', w')

namespace Kept
variable {P : Config → Prop} {c c' : Config} {w₀ w : World} {rs : List (Request × Outcome)}

theorem moves (hP : Kept P) (h : Moves c c') (hw : WellFormed c) (hc : P c) : P c' := by
  induction h with
  | refl => exact hc
  | tail hm h ih => exact hP.move (Moves.wellFormed hm hw) h ih

theorem steps (hP : Kept P) (h : Steps c c') (hw : WellFormed c) (hn : c.1.NoTrade) (hc : P c) :
    P c' := by
  suffices c'.1.NoTrade ∧ P c' from this.2
  induction h with
  | refl => exact ⟨hn, hc⟩
  | tail hs h ih =>
    obtain ⟨hn', hc'⟩ := ih
    have hw' := Steps.wellFormed hs hw
    exact ⟨h.noTrade hn', hP.step hw' hn' h hc' fun hm => hP.moves hm hw' hc'⟩

/-- A window that ends with a value. -/
theorem value (hP : Kept P) {r : Request} {o : Outcome} {w' : World} (h : Closes r w o w')
    (ho : o.isValue = true) (hw : ∀ qe, WellFormed (.opened qe, w)) (hc : ∀ qe, P (.opened qe, w)) :
    ∀ qe, P (.opened qe, w') := by
  cases h with
  | refused | rejected | left => cases ho
  | grown f hact hs =>
    obtain ⟨base, incr, atBeg, -, rfl⟩ := Request.grow_eq hact hs
    intro qe
    by_cases hincr : incr = 0
    · have heq : growBook base incr atBeg w.toSob = w.toSob := by
        unfold growBook
        exact if_pos hincr
      rw [heq]
      exact hc qe
    · exact hP.grow (hw qe) hincr (hc qe)
  | @value qe _ _ w' hqe hs hq' cbs hcbs =>
    exact fun qe' => hP.close (hP.steps hs (hw qe) (.opened qe) (hc qe)) ⟨⟨cbs, _, rfl⟩, .inl rfl⟩

/-- A window that is left by an exception, with the rule for what it leaves behind. -/
theorem closes (hP : Kept P) (hleft : ∀ {F qe w w'}, F.gap = none → P (F, w) → w.ClosesTo w' →
      P (.opened qe, w')) {r : Request} {o : Outcome} {w' : World} (h : Closes r w o w')
    (hw : ∀ qe, WellFormed (.opened qe, w)) (hc : ∀ qe, P (.opened qe, w)) :
    ∀ qe, P (.opened qe, w') := by
  cases ho : o.isValue with
  | true => exact hP.value h ho hw hc
  | false =>
    cases h with
    | refused => exact hc
    | rejected => exact fun qe => hP.close (hc qe) ⟨⟨_, _, rfl⟩, .inr ⟨_, rfl⟩⟩
    | grown | value => cases ho
    | @left qe err w' hqe hs herr =>
      have hdrop : ∀ {F : Flight}, F.gap = none → P (F, w') → ∀ qe', P (.opened qe',
          { w' with internalOrderQueue := [], trace := .dropped w'.internalOrderQueue :: w'.trace }) :=
        fun hgap hp qe' => hleft hgap hp ⟨⟨_, _, rfl⟩, .inr ⟨_, rfl⟩⟩
      cases hs with
      | undefined => exact absurd rfl herr
      | failed hs hm hgap =>
        exact hdrop hgap (hP.moves hm (Steps.wellFormed hs (hw qe)) (hP.steps hs (hw qe) (.opened qe) (hc qe)))
      | refused hs hF => exact hdrop hF.gap (hP.steps hs (hw qe) (.opened qe) (hc qe))

theorem run (hP : Kept P) (hleft : ∀ {F qe w w'}, F.gap = none → P (F, w) → w.ClosesTo w' →
      P (.opened qe, w')) (h0 : Initial w₀) (hinit : ∀ qe, P (.opened qe, w₀)) (h : Run w₀ rs w) :
    ∀ qe, P (.opened qe, w) :=
  h.closes_inv h0 (P := fun w => ∀ qe, P (.opened qe, w)) hinit fun hw _ hc h =>
    hP.closes hleft h hw hc

/-- A run in which no request ends in an exception. -/
theorem run_value (hP : Kept P) (h0 : Initial w₀) (hinit : ∀ qe, P (.opened qe, w₀))
    (h : Run w₀ rs w) (hv : ∀ x ∈ rs, x.2.isValue = true) : ∀ qe, P (.opened qe, w) := by
  induction h with
  | nil => exact hinit
  | @snoc rs w w' r o hr hwin ih =>
    obtain ⟨hwf, hq⟩ := hr.wellFormed h0
    exact hP.value (hwin.closes hwf hq) (hv (r, o) (by simp)) hwf
      (ih fun x hx => hv x (by simp [hx]))

end Kept

/-! ## The limit book between windows -/

/-- Level `p` holds a limit order of the side. -/
def Sob.HasLimit (s : Sob) (side : Bool) (p : Nat) : Prop :=
  ∃ b ∈ (s.limits p).elems, b.side = side

/-- The limit book is not crossed, and the best prices and far bounds are right. -/
structure Sob.Uncrossed (s : Sob) : Prop where
  bid_lt_ask : s.bid < s.ask
  levels : ∀ p, (s.limits p).elems ≠ [] → beg ≤ p ∧ p < s.end_
  sides : ∀ p, (s.limits p).elems ≠ [] →
    (p ≤ s.bid ∧ ∀ b ∈ (s.limits p).elems, b.side = true) ∨
      (s.ask ≤ p ∧ ∀ b ∈ (s.limits p).elems, b.side = false)
  bid : IsGreatest {p | s.HasLimit true p} s.bid ∨
    (∀ p, ¬ s.HasLimit true p) ∧ s.bid = beg - 1 ∧ s.lowBuyLimit = s.end_
  ask : IsLeast {p | s.HasLimit false p} s.ask ∨
    (∀ p, ¬ s.HasLimit false p) ∧ s.ask = s.end_ ∧ s.highSellLimit = beg - 1
  buys : ∀ p, s.HasLimit true p → s.lowBuyLimit ≤ p ∧ p ≤ s.bid
  sells : ∀ p, s.HasLimit false p → s.ask ≤ p ∧ p ≤ s.highSellLimit

section Uncrossed
variable {s : Sob}

theorem Sob.HasLimit.ne_none {side : Bool} {p : Nat} (h : s.HasLimit side p) :
    s.limits p ≠ none := fun hn => by
  obtain ⟨b, hb, -⟩ := h
  rw [hn] at hb
  cases hb

/-- The chain of a level that is not empty has a first order. -/
theorem LimitInv.exists_mem (h : LimitInv s.limitView) {p : Nat} (hp : s.limits p ≠ none) :
    ∃ b, b ∈ (s.limits p).elems := by
  have hne : s.limits p ≠ some [] := h.nonempty p
  match hc : s.limits p with
  | none => exact absurd hc hp
  | some [] => exact absurd hc hne
  | some (b :: bs) => exact ⟨b, by simp⟩

theorem LimitInv.uncrossed (h : LimitInv s.limitView) : s.Uncrossed := by
  have hlt : s.bid < s.ask := h.bid_lt_ask
  have hle : s.ask ≤ s.end_ := h.ask_le_end
  have hwindow : ∀ p, s.limits p ≠ none →
      (s.lowBuyLimit ≤ p ∧ p ≤ s.bid) ∨ (s.ask ≤ p ∧ p ≤ s.highSellLimit) := h.window
  -- the side an order was inserted on is the one of its level
  have hbuy : ∀ p, ∀ b ∈ (s.limits p).elems, b.side = true → p ≤ s.bid := fun p b hb hs =>
    (if_pos hs).mp (h.side p b hb)
  have hsell : ∀ p, ∀ b ∈ (s.limits p).elems, b.side = false → s.ask ≤ p := fun p b hb hs =>
    (if_neg (by simp [hs])).mp (h.side p b hb)
  have hrange : ∀ p, s.limits p ≠ none → beg ≤ p ∧ p < s.end_ := fun p hp =>
    ⟨Nat.pos_of_ne_zero fun h0 => hp (h0 ▸ h.pad), not_le.mp fun hge => hp (h.top p hge)⟩
  have hne : ∀ p, (s.limits p).elems ≠ [] → s.limits p ≠ none := fun p hp hn => hp (by rw [hn]; rfl)
  refine ⟨hlt, fun p hp => hrange p (hne p hp), ?_, ?_, ?_, ?_, ?_⟩
  · intro p hp
    rcases hwindow p (hne p hp) with ⟨-, hp⟩ | ⟨hp, -⟩
    · refine .inl ⟨hp, fun b hb => Bool.eq_true_of_not_eq_false fun hs => ?_⟩
      exact absurd (hsell p b hb hs) (by omega)
    · refine .inr ⟨hp, fun b hb => Bool.eq_false_of_not_eq_true fun hs => ?_⟩
      exact absurd (hbuy p b hb hs) (by omega)
  · rcases Nat.eq_zero_or_pos s.bid with h0 | hpos
    · refine .inr ⟨fun p ⟨b, hb, hs⟩ => ?_, h0, h.bestBid.2 h0⟩
      have hp := hrange p (Sob.HasLimit.ne_none ⟨b, hb, hs⟩)
      exact absurd (hbuy p b hb hs) (by unfold beg at hp; omega)
    · obtain ⟨b, hb⟩ := h.exists_mem (h.bestBid.1 hpos)
      refine .inl ⟨⟨b, hb, Bool.eq_true_of_not_eq_false fun hs => ?_⟩,
        fun p ⟨b, hb, hs⟩ => hbuy p b hb hs⟩
      exact absurd (hsell _ b hb hs) (by change ¬ s.ask ≤ s.bid; omega)
  · rcases Nat.lt_or_ge s.ask s.end_ with hask | hask
    · obtain ⟨b, hb⟩ := h.exists_mem (h.bestAsk.1 hask)
      refine .inl ⟨⟨b, hb, Bool.eq_false_of_not_eq_true fun hs => ?_⟩,
        fun p ⟨b, hb, hs⟩ => hsell p b hb hs⟩
      exact absurd (hbuy _ b hb hs) (by change ¬ s.ask ≤ s.bid; omega)
    · have heq : s.ask = s.end_ := by omega
      refine .inr ⟨fun p ⟨b, hb, hs⟩ => ?_, heq, h.bestAsk.2 heq⟩
      have hp := hrange p (Sob.HasLimit.ne_none ⟨b, hb, hs⟩)
      exact absurd (hsell p b hb hs) (by omega)
  · intro p hp
    obtain ⟨b, hb, hs⟩ := hp
    have hp := hbuy p b hb hs
    rcases hwindow p (Sob.HasLimit.ne_none ⟨b, hb, hs⟩) with hw | hw
    · exact hw
    · omega
  · intro p hp
    obtain ⟨b, hb, hs⟩ := hp
    have hp := hsell p b hb hs
    rcases hwindow p (Sob.HasLimit.ne_none ⟨b, hb, hs⟩) with hw | hw
    · omega
    · exact hw

end Uncrossed

theorem Run.limitInv {w₀ w : World} {rs : List (Request × Outcome)} (h0 : Initial w₀)
    (h : Run w₀ rs w) : LimitInv w.limitView :=
  ((h.wellFormed h0).1 none).ambient.limitInv rfl

/-- As long as prices are on the book, the limit book is not crossed and its cached pointers are right
at the close of every window, also one left by an exception. -/
theorem AddressedRun.limit_book_uncrossed {w₀ w : World} {rs : List (Request × Outcome)}
    (h0 : Initial w₀) (h : AddressedRun w₀ rs w) (hoff : w.OnBook) : w.Uncrossed :=
  ((h.exact hoff).limitInv h0).uncrossed

/-- A run with orders left on both sides of the book. -/
theorem uncrossed_after_trades : ∃ rs w, AddressedRun (World.create 1 20) rs w ∧
    rs.map (·.1) = [.limit true 5 5, .limit false 9 3, .limit true 9 2, .limit false 12 4] ∧
      (w.bid, w.ask, w.last) = (5, 9, 9) ∧ w.Uncrossed := by
  obtain ⟨rs, w, h, hoff, hrs, hw⟩ := AddressedRun.exists_of_exec 0
    [.limit true 5 5, .limit false 9 3, .limit true 9 2, .limit false 12 4]
    (f := fun _ w => (w.bid, w.ask, w.last)) (v := (5, 9, 9)) (w := World.create 1 20)
    (by decide +kernel)
  exact ⟨rs, w, h, hrs, hw, h.limit_book_uncrossed (initial_create (by decide) (by decide)) hoff⟩

/-- The target of a bracket is a stop and has no limit price, so the order it becomes has the price 0,
and comes to rest on the pad in front of level 1: bid and ask are both there. -/
theorem crossed_on_the_pad :
    let ticket : AdvancedOrderTicket :=
      { condition := .bracket, trigger := .fillPartial, order1 := some (.byPrice false 0 0 3)
        order2 := some (.byPrice false 0 0 2) }
    ∃ rs w, MachineRun (World.create 1 20) rs w ∧
      rs.map (·.1) = [.limit true 5 4 ticket, .market false 4] ∧
      (w.limits 0).elems.map (fun b => (b.id, b.sz, b.side)) = [(3, 4, false)] ∧
      (w.bid, w.ask) = (0, 0) ∧ ¬ w.Uncrossed := by
  intro ticket
  obtain ⟨rs, w, h, hrs, hw⟩ := @Run.exists_of_execAll .machine _
    (fun _ w => ((w.limits 0).elems.map fun b => (b.id, b.sz, b.side), (w.bid, w.ask)))
    ([(3, 4, false)], (0, 0)) 4 [.limit true 5 4 ticket, .market false 4] (World.create 1 20)
    (by decide +kernel)
  obtain ⟨hpad, hbest⟩ := Prod.mk.inj hw
  obtain ⟨hbid, hask⟩ := Prod.mk.inj hbest
  refine ⟨rs, w, h, hrs, hpad, hbest, fun hu => ?_⟩
  have := hu.bid_lt_ask
  omega

end SimpleOrderbook
