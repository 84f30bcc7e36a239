import SimpleOrderbook.Runs

/-!
# The delivery of synchronous callbacks

What is pushed on `_callbacks_sync` is handed to the synchronous request whose window closes next,
as long as no such window is left by an exception while something waits there.
-/
namespace SimpleOrderbook

/-- What a call puts on `_callbacks_sync`, if anything. -/
def Event.pushedSync : Event → Option DfrdCbElem
  | .callback msg cb id1 id2 price sz =>
    match cb.cbObj, cb.cbType with
    | some f, .synchronous => some ⟨msg, f, id1, id2, price, sz⟩
    | _, _ => none
  | _ => none

/-- Everything pushed on `_callbacks_sync`, the oldest first. -/
def pushedSync (trace : List Event) : List DfrdCbElem := (trace.filterMap Event.pushedSync).reverse

/-- The callbacks a client is handed. -/
def Outcome.copies : Outcome → List DfrdCbElem
  | .value _ copies => copies
  | .exception _ => []

/-- Everything the clients were handed, in the order of their windows. -/
def delivered (rs : List (Request × Outcome)) : List DfrdCbElem := rs.flatMap fun ro => ro.2.copies

/-! ## What is pushed and not delivered yet -/

/-- Since `done` was delivered, `_callbacks_sync` holds what was pushed. -/
def Pending (done : List DfrdCbElem) (w : World) : Prop :=
  done ++ w.callbacksSync = pushedSync w.trace

section Pending
variable {done : List DfrdCbElem} {w w' : World}

theorem Pending.congr (h : Pending done w) (hs : w'.callbacksSync = w.callbacksSync)
    (ht : w'.trace = w.trace) : Pending done w' := by
  unfold Pending at h ⊢
  rw [hs, ht, h]

/-- A call that pushes no callback. -/
theorem Pending.log (h : Pending done w) {e : Event} (he : e.pushedSync = none) :
    Pending done (w.log e) := by
  unfold Pending pushedSync at h ⊢
  rw [World.trace_log, List.filterMap_cons_none he]
  exact h

theorem Pending.onSob (h : Pending done w) {f : Sob → Sob}
    (hf : (f w.toSob).tally.2.2 = w.tally.2.2) : Pending done (w.onSob f) :=
  h.congr hf rfl

theorem Pending.report (h : Pending done w) (msg : CallbackMsg) (cb : OrderExecCbBndl)
    (id1 id2 : Nat) (price : Int) (sz : Nat) : Pending done (w.report msg cb id1 id2 price sz) := by
  rcases cb with ⟨obj, ty⟩
  cases obj with
  | none => exact (h.log rfl).onSob rfl
  | some f =>
    cases ty with
    | asynchronous => exact (h.log rfl).onSob rfl
    | synchronous =>
      unfold Pending pushedSync at h ⊢
      have hev : Event.pushedSync (.callback msg ⟨some f, .synchronous⟩ id1 id2 price sz) =
          some ⟨msg, f, id1, id2, price, sz⟩ := rfl
      rw [trace_report, List.filterMap_cons_some hev, List.reverse_cons, ← h, List.append_assoc]
      rfl

theorem Pending.traded (h : Pending done w) (plev size idbuy idsell : Nat)
    (cbbuy cbsell : OrderExecCbBndl) :
    Pending done (w.traded plev size idbuy idsell cbbuy cbsell) :=
  (((h.report .fill cbbuy idbuy idbuy (w.itop plev) size).report .fill cbsell idsell idsell
    (w.itop plev) size).log rfl).onSob rfl

theorem Pending.ofTally (done : List DfrdCbElem) : OfTally (Pending done) where
  log hev hp := hp.log (by rename_i ev; cases ev <;> first | rfl | exact hev.elim)
  onSob hf hp := hp.onSob (congrArg (·.2.2) hf)
  report msg cb id1 id2 price sz hp := hp.report msg cb id1 id2 price sz
  traded plev size idbuy idsell cb1 cb2 hp := hp.traded plev size idbuy idsell cb1 cb2

end Pending

/-! ## Windows and runs -/

/-- What a window hands over was pending, and a synchronous one leaves nothing behind. -/
theorem Closes.pending {r : Request} {o : Outcome} {done : List DfrdCbElem} {w w' : World}
    (h : Closes r w o w') (hp : Pending done w) : Pending (done ++ o.copies) w' ∧
      (r.isSync → o.isValue → w'.callbacksSync = []) ∧ (¬ r.isSync → o.copies = []) := by
  have hnil : ∀ {w : World}, Pending done w → Pending (done ++ []) w := fun h => by
    rwa [List.append_nil]
  cases h with
  | refused => exact ⟨hnil hp, fun _ hv => (by cases hv), fun _ => rfl⟩
  | rejected => exact ⟨hnil (hp.log (e := .dropped _) rfl), fun _ hv => (by cases hv), fun _ => rfl⟩
  | @grown s f hact hs =>
    obtain ⟨base, incr, atBeg, -, rfl⟩ := Request.grow_eq hact hs
    refine ⟨hnil (hp.congr ?_ rfl), fun hsync => ?_, fun _ => rfl⟩
    · change (growBook base incr atBeg w.toSob).callbacksSync = w.callbacksSync
      unfold growBook
      split <;> rfl
    · simp [Request.isSync, hact] at hsync
  | @value qe ret copies w' hqe hs hq cbs hcbs =>
    have hp' : Pending done w' := (Pending.ofTally done).steps (fun _ hp => hp.log rfl) hs hp
    unfold Pending at hp' ⊢
    change (done ++ copies) ++ cbs = pushedSync w'.trace ∧ (_ → _ → cbs = []) ∧ (_ → copies = [])
    split at hcbs
    next hsync =>
      obtain ⟨rfl, rfl⟩ := hcbs
      exact ⟨by rw [List.append_nil, hp'], fun _ _ => rfl, fun hn => absurd hsync hn⟩
    next hsync =>
      obtain ⟨rfl, rfl⟩ := hcbs
      exact ⟨by rw [List.append_nil, hp'], fun hs => absurd hs hsync, fun _ => rfl⟩
  | @left qe err w' hqe hs herr =>
    have hp' : Pending done w' := by
      cases hs with
      | undefined => exact absurd rfl herr
      | failed hs hm =>
        exact (Pending.ofTally done).moves hm ((Pending.ofTally done).steps (fun _ hp => hp.log rfl) hs hp)
      | refused hs => exact (Pending.ofTally done).steps (fun _ hp => hp.log rfl) hs hp
    exact ⟨hnil (hp'.log (e := .dropped _) rfl), fun _ hv => (by cases hv), fun _ => rfl⟩

/-- A synchronous window hands over everything pushed before it closed that was not handed over yet,
in that order, unless it ends in an exception; no other window hands over anything. So a synchronous
window leaves something behind just if it ends in an exception with a callback not handed over. -/
theorem Run.callbacks_delivered {w₀ w : World} {rs : List (Request × Outcome)} (h0 : Initial w₀)
    (h : Run w₀ rs w) : delivered rs ++ w.callbacksSync = pushedSync w.trace ∧
      (∀ rs' r o, rs = rs' ++ [(r, o)] → r.isSync →
        (w.callbacksSync = [] ↔ o.isValue ∨ pushedSync w.trace = delivered rs')) ∧
        ∀ ro ∈ rs, ¬ ro.1.isSync → ro.2.copies = [] := by
  induction h with
  | nil =>
    obtain ⟨base, incr, -, -, hw⟩ := h0.exists_book
    refine ⟨?_, fun rs' r o h => by simp at h, fun ro hro => by cases hro⟩
    rw [hw, h0.trace_nil]
    rfl
  | @snoc rs w w' r o hr hw ih =>
    obtain ⟨hp, -, hnone⟩ := ih
    obtain ⟨hwf, hq⟩ := hr.wellFormed h0
    have hp : Pending (delivered rs) w := hp
    obtain ⟨hp', hsync, hcopies⟩ := (hw.closes hwf hq).pending hp
    refine ⟨?_, fun rs' r' o' heq hr' => ?_, fun ro hro => ?_⟩
    · unfold delivered at hp' ⊢
      rw [List.flatMap_append, List.flatMap_singleton]
      exact hp'
    · obtain ⟨hrs, heq⟩ := List.append_inj' heq rfl
      cases heq
      subst hrs
      cases o with
      | value id copies => exact ⟨fun _ => .inl rfl, fun _ => hsync hr' rfl⟩
      | exception err =>
        have hp' : (delivered rs ++ []) ++ w'.callbacksSync = pushedSync w'.trace := hp'
        rw [List.append_nil] at hp'
        refine ⟨fun hnil => .inr ?_, fun hor => ?_⟩
        · rw [← hp', hnil, List.append_nil]
        · have heq := hor.resolve_left (by simp [Outcome.isValue])
          exact List.append_right_eq_self.mp (hp'.trans heq)
    · rcases List.mem_append.mp hro with hro | hro
      · exact hnone ro hro
      · cases List.mem_singleton.mp hro
        exact hcopies

/-- Both clients of a trade are called back, the one that rested by the window of the other. -/
theorem callbacks_of_both_clients : ∃ rs w, Run (World.create 1 20) rs w ∧
    rs.map (·.1) = [.insertLimitOrder true 5 4 ⟨some 0, .synchronous⟩ .null,
      .insertMarketOrder false 3 ⟨some 1, .synchronous⟩ .null] ∧
      delivered rs = [⟨.fill, 1, 2, 2, 5, 3⟩, ⟨.fill, 0, 1, 1, 5, 3⟩] ∧
        delivered rs ++ w.callbacksSync = pushedSync w.trace := by
  obtain ⟨rs, w, h, hrs, hw⟩ := Run.exists_of_execAll 0
    [.insertLimitOrder true 5 4 ⟨some 0, .synchronous⟩ .null,
      .insertMarketOrder false 3 ⟨some 1, .synchronous⟩ .null] (w := World.create 1 20)
    (f := fun os _ => os.flatMap Outcome.copies)
    (v := [⟨.fill, 1, 2, 2, 5, 3⟩, ⟨.fill, 0, 1, 1, 5, 3⟩]) (by decide +kernel)
  have hd : delivered rs = (rs.map (·.2)).flatMap Outcome.copies := by
    rw [List.flatMap_map]
    rfl
  exact ⟨rs, w, h, hrs, hd.trans hw,
    (h.callbacks_delivered (initial_create (by decide) (by decide))).1⟩

/-- A market order that runs out of liquidity leaves the callback of its fill behind. -/
theorem callback_left_by_exception : ∃ rs w, Run (World.create 1 20) rs w ∧
    rs.map (·.1) = [.limit true 5 4, .insertMarketOrder false 6 ⟨some 1, .synchronous⟩ .null] ∧
      Request.isSync (.insertMarketOrder false 6 ⟨some 1, .synchronous⟩ .null) ∧
        w.callbacksSync ≠ [] := by
  obtain ⟨rs, w, h, hrs, hw⟩ := Run.exists_of_execAll 0
    [.limit true 5 4, .insertMarketOrder false 6 ⟨some 1, .synchronous⟩ .null]
    (w := World.create 1 20) (f := fun _ w => w.callbacksSync) (v := [⟨.fill, 1, 2, 2, 5, 4⟩])
    (by decide +kernel)
  exact ⟨rs, w, h, hrs, rfl, by simp [hw]⟩

end SimpleOrderbook
