import SimpleOrderbook.Brackets
import SimpleOrderbook.StopWindows

/-!
# Nothing that rests is empty

The transitions keep targets and stops balanced: a handler that shrinks a stop does so by what its
target trades, and one that grows a target grows its stop alike.

## Main results

* `Balanced.act`, `Balanced.move`, `Balanced.step` — handlers, trades and insertions keep the balance.
* `Run.balanced` — it holds at the window ends of a run.
-/
namespace SimpleOrderbook

/-! ## Trades and handlers -/

section Passes
variable {F F' : Flight} {w w' : World} {q q₀ : Kind × Nat} {b b₀ : OrderBndl}

/-- An order is counted short only if it acts. -/
theorem Flight.exit_of_due (hact : F'.acting = F.acting ∨ F'.acting = none ∨ F.acting = none)
    (hamount : ∀ a, F'.acting = some a → a.amount ≠ 0) (hdue : F'.due q b.id = F.due q b.id) {i : Nat}
    (hx : F'.Exit q b i) : F.Exit q b i := by
  refine hx.imp_right ?_
  rintro ⟨h, a, hh, ha, hq, hid, hbi⟩
  rw [Flight.due_of_some hh ha, if_pos ⟨hq, hid.symm⟩] at hdue
  have hne : F.due q b.id ≠ 0 := hdue ▸ hamount a ha
  unfold Flight.due at hne
  split at hne
  next h₀ a₀ hh₀ ha₀ =>
    obtain ⟨hq₀, -⟩ : q = (.limit, h₀.plev) ∧ a₀.bndl.id = b.id := by
      by_contra hn
      exact hne (if_neg hn)
    rcases hact with heq | hno | hno
    · exact ⟨h₀, a, hh₀, heq ▸ ha, hq₀, hid, hbi⟩
    · rw [hno] at ha
      cases ha
    · rw [hno] at ha₀
      cases ha₀
  · exact absurd rfl hne

theorem Flight.told_mono (hact : F'.acting = F.acting ∨ F'.acting = none ∨ F.acting = none) {id : Nat}
    (hdue : F'.due q id = F.due q id) : F.told q id ≤ F'.told q id := by
  rcases hact with heq | hno | hno
  · unfold Flight.told
    rw [heq, hdue]
  · have := Flight.told_le (F := F) q id
    rw [← hdue, Flight.due_of_acting_none hno] at this
    omega
  · rw [Flight.told_of_none hno]
    omega

theorem Passes.carries (h : Passes F F' q₀ b₀ q b) (hB : Balanced (F, w)) (hr : Resident F w q₀ b₀)
    (hact : F'.acting = F.acting ∨ F'.acting = none ∨ F.acting = none)
    (hamount : ∀ a, F'.acting = some a → a.amount ≠ 0) : Carries F w F' [] [] q₀ b₀ q b := by
  have hsz := hB.sized q₀ b₀ hr
  have hu := hB.unions q₀ b₀ hr
  cases h with
  | same hdue =>
    refine ⟨rfl, .rfl, .inl rfl, hsz, hu, fun _ _ i hx => Flight.exit_of_due hact hamount hdue hx,
      fun _ _ => ⟨le_rfl, ?_⟩⟩
    have := Flight.told_mono hact hdue
    omega
  | traded h a hhit ha hno hq hb hle =>
    refine ⟨rfl, .rfl, .inl rfl, hsz, hu, fun _ _ i hx => ?_, fun _ _ => ⟨le_rfl, ?_⟩⟩
    · rcases hx with hx | ⟨_, a', -, ha', -, -, hx⟩
      · exact .inl hx
      · obtain rfl : a = a' := Option.some.inj (ha.symm.trans ha')
        exact .inl (hb ▸ hx)
    · rw [Flight.told_of_none hno]
      omega
  | toAons p hq hb hdue =>
    refine ⟨rfl, by simp [hq], .inr hdue, hsz, hu, fun _ _ i hx => ?_, fun _ _ => ⟨le_rfl, ?_⟩⟩
    · rcases hx with hx | ⟨_, _, -, -, hq', -⟩
      · exact .inl hx
      · cases hq'
    · rw [Flight.told_of_due _ _ hdue]
      omega
  | @settled b' h a hhit ha hq hid hb hdue =>
    refine ⟨rfl, .rfl, .inl rfl, hsz, (hB.acting a ha).union.within hb.within, fun _ _ i hx => ?_,
      fun _ _ => ⟨le_rfl, ?_⟩⟩
    · rcases hx with hx | hx
      · exact .inr ⟨h, a, hhit, ha, hq, hid, hb.exitOf hx⟩
      · exact (Flight.exit_of_due (b := { b₀ with
          condition := b'.condition, trigger := b'.trigger, payload := b'.payload })
            hact hamount hdue (.inr hx)).elim (fun hx => .inr ⟨h, a, hhit, ha, hq, hid, hb.exitOf hx⟩) .inr
    · have := Flight.told_mono hact hdue
      exact Nat.add_le_add_left this _
  | reduced h a hhit ha hq hid hne hno =>
    refine ⟨rfl, .rfl, .inl rfl, hne, hu, fun _ _ i hx => ?_, fun _ _ => ⟨Nat.sub_le _ _, ?_⟩⟩
    · exact ((Flight.exit_of_acting_none hno).mp hx).elim fun hc hl => .inl ⟨hc, hl⟩
    · have := Flight.told_le (F := F) q b₀.id
      rw [Flight.due_of_some hhit ha, if_pos ⟨hq, hid.symm⟩] at this
      dsimp only
      omega
  | shifted p p' hq =>
    refine ⟨rfl, by simp [hq], .inr (Flight.due_of_kind (by simp [hq])), hsz, hu,
      fun hs => absurd rfl hs, fun hs => absurd rfl hs⟩

end Passes

/-! ### The chains of stops -/

section Stops
variable {s : Sob} {p q : Nat} {x y : StopBndl}

theorem mem_stops_stopPush (h : y ∈ ((Chain.stopPush s p x).stops q).elems) :
    y ∈ (s.stops q).elems ∨ y = x := by
  unfold Chain.stopPush at h
  rw [stops_of_files (Exec.Stop.files_adjustStateAfterInsert _ _ _), Sob.stops_cacheEmplace,
    Sob.stops_setStops] at h
  split at h
  next heq =>
    rw [ChainManager.elems_push] at h
    exact (List.mem_append.mp h).imp (heq ▸ ·) List.mem_singleton.mp
  next => exact .inl h

/-- A stop that was written through a cache entry was in its chain under the same id. -/
theorem mem_stops_updateAt {c : ChainIterWrap} {id : Nat} {g : OrderBndl → OrderBndl}
    (h : y ∈ ((s.updateAt c id g).stops q).elems) : y ∈ (s.stops q).elems ∨
      ∃ y₀ ∈ (s.stops q).elems, y₀.id = id ∧ y.toOrderBndl = g y₀.toOrderBndl := by
  rw [stops_updateAt] at h
  split at h
  · cases hl : s.stops q with
    | none =>
      rw [hl] at h
      cases h
    | some l =>
      rw [hl] at h
      obtain ⟨y₀, hy₀, rfl | ⟨hid, rfl⟩⟩ := Chain.mem_updateStop h
      · exact .inl hy₀
      · exact .inr ⟨y₀, hy₀, hid, rfl⟩
  · exact .inl h

/-- No trade brings a stop into the book. -/
theorem Move.stops_from {c c' : Config} (h : Move c c') (hmove : ¬ Act c c') :
    ∀ p, ∀ y ∈ (c'.2.stops p).elems, ∃ p₀, y ∈ (c.2.stops p₀).elems := by
  have hsame : c'.2.stops = c.2.stops →
      ∀ p, ∀ y ∈ (c'.2.stops p).elems, ∃ p₀, y ∈ (c.2.stops p₀).elems := fun hs p y hy =>
    ⟨p, hs ▸ hy⟩
  have hfiles : c'.2.files = c.2.files →
      ∀ p, ∀ y ∈ (c'.2.stops p).elems, ∃ p₀, y ∈ (c.2.stops p₀).elems := fun hf =>
    hsame (stops_of_files hf)
  cases h with
  | act h => exact absurd h hmove
  | fillAon =>
    refine hsame (funext fun q => ?_)
    rw [World.toSob_onSob, Sob.stops_setAons, Sob.stops_cacheErase, World.toSob_log,
      stops_of_files (files_traded _ _ _ _ _ _ _)]
  | fillLastAon =>
    refine hsame (funext fun q => ?_)
    rw [World.toSob_onSob, stops_freedAon, Sob.stops_cacheErase, World.toSob_log,
      stops_of_files (files_traded _ _ _ _ _ _ _)]
  | freeAon => exact hsame (stops_freedAon ..)
  | moveHit => exact hsame ((funext fun q => Sob.stops_setLimits ..).trans (stops_copiedToAons ..))
  | fill => exact hfiles (files_traded _ _ _ _ _ _ _)
  | rearm | reduce => exact hsame (funext fun q => Sob.stops_setLimits ..)
  | retire =>
    refine hsame (funext fun q => ?_)
    rw [World.toSob_onSob, Sob.stops_cacheErase]
    exact Sob.stops_setLimits ..
  | eraseHit => exact hsame (funext fun q => Sob.stops_setLimits ..)
  | freeHit | wipeHit =>
    refine hsame (funext fun q => ?_)
    rw [World.toSob_onSob, stops_of_files (Exec.Core.files_findNewBestInside _ _)]
    exact Sob.stops_setLimits ..
  | @moveStop F w buyStops p id c b nticks pAdj hc hb =>
    intro q y hy
    unfold World.movedStop at hy
    rcases mem_stops_stopPush hy with hy | rfl
    · rw [stops_of_files (files_report _ _ _ _ _ _ _)] at hy
      exact ⟨q, elems_erasedStop_subset w.toSob c.p b q hy⟩
    · exact ⟨c.p, Chain.findStop_mem hb⟩
  | @detach F w buyStops plev =>
    intro q y hy
    rw [World.toSob_onSob, stops_of_files (Exec.Stop.files_adjustStateAfterTrigger _ _ _),
      Sob.stops_setStops] at hy
    split at hy
    · cases hy
    · exact ⟨q, hy⟩
  | eraseTriggered => exact hfiles (files_trailingErased _ _ _)
  | turn => exact hfiles (files_turned _ _ _ _ _)
  | _ => exact hsame rfl

end Stops

/-! ### Pulls and handlers -/

section Act
variable {F F' : Flight} {w w' : World} {q : Kind × Nat} {b : OrderBndl} {c c' : Config}
  {resized : List Nat}

/-- An order stays where it is, with another size or the same. -/
theorem Balanced.carriesSize (hB : Balanced (F, w)) (hr : Resident F w q b) {n : Nat} (hn : n ≠ 0)
    (hexit : ∀ i, F'.Exit q b i → F.Exit q b i)
    (hle : q.1 ≠ .stop → b.id ∉ resized → n ≤ b.sz ∧ n + F.told q b.id ≤ b.sz + F'.told q b.id) :
    Carries F w F' [] resized q b q { b with sz := n } :=
  ⟨rfl, .rfl, .inl rfl, hn, hB.unions q b hr, fun _ _ i hx => hexit i hx, hle⟩

theorem Act.advance (h : Act c c') (horders : ∀ q b, Resident c'.1 c'.2 q b →
      ∃ q₀ b₀, Resident c.1 c.2 q₀ b₀ ∧ Carries c.1 c.2 c'.1 [] resized q₀ b₀ q b)
    (hstops : ∀ p, ∀ y ∈ (c'.2.stops p).elems, ∃ p₀, ∃ y₀ ∈ (c.2.stops p₀).elems, y₀.id = y.id ∧
      (y.id ∉ resized → y₀.sz ≤ y.sz)) (hlegs : ∀ l ∈ c.1.legs, l.id ∈ resized → StopOnly c.1 c.2 l.id) :
    Advance c.1 c.2 c'.1 c'.2 [] resized := by
  have hl := h.sameInsertion.legs
  refine ⟨h.pending_sub, h.lastId_le, fun q b hb => .inl (horders q b hb),
    fun p y hy => .inl (hstops p y hy), fun l hm => ?_, fun t ht => by cases ht⟩
  rw [hl] at hm
  exact ⟨⟨List.not_mem_nil, hlegs l hm⟩, .inl ⟨l, hm, rfl⟩⟩

theorem Act.exits_eq (h : Act c c') : c'.1.exits = c.1.exits := by
  cases h <;> rfl

/-- An order that is generated has a size. -/
theorem Balanced.generates (hB : Balanced c) {e : OrderQueueElem} (hg : c.1.Generates e) :
    e.sz ≠ 0 ∧ ¬ e.Holds := by
  refine ⟨?_, not_or.mpr ⟨hg.condition.1, hg.condition.2.1⟩⟩
  rcases hg.size with ⟨a, ha, heq | ⟨op, hop, heq⟩⟩ | ⟨e', he', ⟨hne, -⟩ | ⟨hc, op, hop, heq⟩⟩
  · rw [heq]
    exact (hB.acting a ha).amount
  · rw [heq]
    refine (hB.acting a ha).union.contingent op ?_
    rw [hop]
    rfl
  · exact hne (hB.cur e' he').1
  · rw [heq]
    exact (hB.cur e' he').2 (.inr hc) op hop

/-- The handlers but `tell` leave the order that acts as it is. -/
theorem Balanced.acted (hB : Balanced c) (h : Act c c') (ha : Ambient c.1 c.2)
    (hacting : c'.1.acting = c.1.acting) (hadv : Advance c.1 c.2 c'.1 c'.2 [] resized)
    (hexit : ∀ a, c.1.acting = some a → ∀ i, a.bndl.ExitOf i → i ∉ resized)
    (hpairs : Pairs c'.1 c'.2) : Balanced c' := by
  have hsame := h.sameInsertion
  have hhit := h.flight.1
  refine hB.next hadv (Move.walks (.act h) ha hB.walks) hpairs (fun a ha => ?_)
    (fun l hl => .inl (hsame.legs ▸ hl)) (fun i1 i2 hx => .inl (h.exits_eq ▸ hx))
    (fun e he => (h.queue e he).imp_right hB.generates) fun e he => .inl (hsame.cur ▸ he)
  have ha' : c.1.acting = some a := hacting ▸ ha
  exact (hB.acting a ha').next hadv ha' rfl rfl (fun H hH => ⟨H, hhit ▸ hH, rfl⟩)
    (fun hn => hhit ▸ hn) fun ht => ⟨ht, hexit a ha'⟩

/-- What the handlers but those that change sizes do. -/
theorem Balanced.kept_of_act (hB : Balanced c) (h : Act c c') (ha : Ambient c.1 c.2)
    (hacting : c'.1.acting = c.1.acting) (horders : ∀ q b, Resident c'.1 c'.2 q b →
      ∃ q₀ b₀, Resident c.1 c.2 q₀ b₀ ∧ Passes c.1 c'.1 q₀ b₀ q b)
    (hstops : ∀ p, (c'.2.stops p).elems ⊆ (c.2.stops p).elems) : Balanced c' := by
  have hamount : ∀ a, c'.1.acting = some a → a.amount ≠ 0 := fun a ha =>
    (hB.acting a (hacting ▸ ha)).amount
  have hadv : Advance c.1 c.2 c'.1 c'.2 [] [] := by
    refine h.advance (fun q b hb => ?_) (fun p y hy => ?_) fun _ _ hm => by cases hm
    · obtain ⟨q₀, b₀, hb₀, hp⟩ := horders q b hb
      exact ⟨q₀, b₀, hb₀, hp.carries hB hb₀ (.inl hacting) hamount⟩
    · exact ⟨p, y, hstops p hy, rfl, fun _ => le_rfl⟩
  exact hB.acted h ha hacting hadv (fun _ _ _ _ => List.not_mem_nil) (hB.pairs.carried hadv)

end Act

theorem Chain.mem_updateStop_self {l : List StopBndl} {f : StopBndl → StopBndl} {id : Nat}
    (hn : (l.map (·.id)).Nodup) {y : StopBndl}
    (h : y ∈ Chain.updateStop f id l) (hid : y.id = id) : ∃ x ∈ l, y = f x := by
  induction l with
  | nil => cases h
  | cons x xs ih =>
    obtain ⟨hx, hn⟩ := List.nodup_cons.mp hn
    unfold Chain.updateStop at h
    split at h
    next heq =>
      rcases List.mem_cons.mp h with rfl | h
      · exact ⟨x, List.mem_cons_self, rfl⟩
      · exact absurd (List.mem_map.mpr ⟨y, h, hid.trans heq.symm⟩) hx
    next hne =>
      rcases List.mem_cons.mp h with rfl | h
      · exact absurd hid hne
      · obtain ⟨z, hz, heq⟩ := ih hn h
        exact ⟨z, List.mem_cons_of_mem _ hz, heq⟩

section Sizes
variable {F : Flight} {w : World} {p id : Nat} {c : ChainIterWrap} {g : OrderBndl → OrderBndl}
  {y : StopBndl}

/-- A cached stop is the one that is written. -/
theorem Filed.stop_written (hi : Filed F w) (hc : w.idCache id = some c) (hg : ∀ b, (g b).id = b.id)
    (h : y ∈ ((w.updateAt c id g).stops p).elems) (hid : y.id = id) :
    ∃ y₀ ∈ (w.stops p).elems, y₀.id = id ∧ y.toOrderBndl = g y₀.toOrderBndl := by
  have hof : ∀ y₀ ∈ (w.stops p).elems, y₀.id = id → c.type = .stop ∧ p = c.p := fun y₀ hy₀ h0 => by
    have hr : Resident F w (.stop, p) y₀.toOrderBndl := resident_stop.mpr ⟨y₀, .inl hy₀, rfl⟩
    obtain ⟨c', hc', hk⟩ := hr.cached hi
    obtain rfl : c' = c := Option.some.inj (hc'.symm.trans ((congrArg w.idCache h0).trans hc))
    obtain ⟨hk, hp⟩ := Prod.mk.inj hk
    refine ⟨?_, hp.symm⟩
    cases hty : c'.type <;> rw [hty] at hk <;> first | rfl | cases hk
  have hold : ∃ y₀ ∈ (w.stops p).elems, y₀.id = id := by
    rcases mem_stops_updateAt h with hy | ⟨y₀, hy₀, h0, -⟩
    · exact ⟨y, hy, hid⟩
    · exact ⟨y₀, hy₀, h0⟩
  obtain ⟨y₀, hy₀, h0⟩ := hold
  rw [stops_updateAt, if_pos (hof y₀ hy₀ h0)] at h
  cases hl : w.stops p with
  | none =>
    rw [hl] at h
    cases h
  | some l =>
    have hn : ((w.stops p).elems.map (·.id)).Nodup :=
      (List.nodup_append.mp (hi.cabinet.nodup (.stop, p))).1
    rw [hl] at h hn
    obtain ⟨x, hx, rfl⟩ := Chain.mem_updateStop_self
      (f := fun b => { b with toOrderBndl := g b.toOrderBndl }) hn h hid
    exact ⟨x, hx, (hg x.toOrderBndl).symm.trans hid, rfl⟩

end Sizes

section Act
variable {F : Flight} {w : World}

/-- The follower of an entry order grows. -/
theorem Balanced.grow (hB : Balanced (F, w)) (ha : Ambient F w) {params : OrderParamaters} {id : Nat}
    {c : ChainIterWrap} {a : Acting} (hgap : F.gap = none) (hact : F.acting = some a)
    (hpay : a.bndl.payload = .contingentNticksOrder params id) (hid : id ≠ 0)
    (hc : w.idCache id = some c) : Balanced (F, w.onSob (·.updateAt c id (incrSize a.amount))) := by
  have hstop : StopOnly F w id := (hB.acting a hact).union.follower id (by
    rw [hpay]
    exact if_neg hid)
  have h : Act (F, w) (F, w.onSob (·.updateAt c id (incrSize a.amount))) :=
    .grow params id c a hgap hact hpay hid hc
  have hadv : Advance F w F (w.onSob (·.updateAt c id (incrSize a.amount))) [] [] := by
    refine h.advance (fun q b hb => ?_) (fun p y hy => ?_) fun _ _ hm => by cases hm
    · rcases Resident.rewritten (g := incrSize a.amount) (fun _ => rfl) hb with
        hb | ⟨b', hb', -, hid', rfl, -⟩
      · refine ⟨q, b, hb, hB.carriesSize hb (hB.sized q b hb) (fun _ hx => hx) fun _ _ => ?_⟩
        exact ⟨le_rfl, le_rfl⟩
      · refine ⟨q, b', hb', hB.carriesSize hb' ?_ (fun _ hx => hx) fun hq => ?_⟩
        · have := hB.sized q b' hb'
          omega
        · exact absurd (hstop.stop q b' hb' hid') hq
    · rcases mem_stops_updateAt hy with hy | ⟨y₀, hy₀, hid', heq⟩
      · exact ⟨p, y, hy, rfl, fun _ => le_rfl⟩
      · refine ⟨p, y₀, hy₀, (congrArg OrderBndl.id heq).symm, fun _ => ?_⟩
        rw [heq]
        exact Nat.le_add_right _ _
  exact hB.acted h ha rfl hadv (fun _ _ _ _ => List.not_mem_nil) (hB.pairs.carried hadv)

/-- Both exits of an entry order grow, so the stop still is no smaller than the target. -/
theorem Balanced.growBoth (hB : Balanced (F, w)) (hi : Filed F w) (ha : Ambient F w)
    {first second : OrderParamaters} {id1 id2 : Nat} {c1 c2 : ChainIterWrap} {a : Acting}
    {msg : CallbackMsg} {cb : OrderExecCbBndl} {id : Nat} {price : Int} {sz : Nat}
    (hgap : F.gap = none) (hact : F.acting = some a)
    (hpay : a.bndl.payload = .bracketOrders first second id1 id2) (hid : id1 ≠ 0)
    (hc1 : w.idCache id1 = some c1) (hc2 : w.idCache id2 = some c2) :
    Balanced (F, ((w.onSob (·.updateAt c1 id1 (incrSize a.amount))).report msg cb id id price
      sz).onSob (·.updateAt c2 id2 (incrSize a.amount))) := by
  have hpair : PairRef F w id1 id2 := (hB.acting a hact).union.pair id1 id2 (by
    rw [hpay]
    exact if_neg hid)
  let w1 := w.onSob (·.updateAt c1 id1 (incrSize a.amount))
  let w2 := w1.report msg cb id id price sz
  let w3 := w2.onSob (·.updateAt c2 id2 (incrSize a.amount))
  have h : Act (F, w) (F, w3) :=
    .growBoth first second id1 id2 c1 c2 a msg cb id price sz hgap hact hpay hid hc1 hc2
  have hf : w2.files = w1.files := files_report _ _ _ _ _ _ _
  -- an order that is no stop grows by the amount if it is the target
  have horders : ∀ q b, Resident F w3 q b → ∃ b₀, Resident F w q b₀ ∧ b = { b₀ with sz := b.sz } ∧
      b₀.sz ≤ b.sz ∧ (q.1 ≠ .stop → b.id ≠ id2 → b.sz = b₀.sz) ∧
        (q.1 ≠ .stop → b.sz ≤ b₀.sz + a.amount) := fun q b hb => by
    obtain ⟨b2, hb2, h2⟩ := Resident.of_updateAt (g := incrSize a.amount) (fun _ => rfl) hb
    have hb2 : Resident F w1 q b2 := hb2.of_files hf rfl rfl
    obtain ⟨b1, hb1, h1⟩ := Resident.of_updateAt (g := incrSize a.amount) (fun _ => rfl) hb2
    refine ⟨b1, hb1, ?_⟩
    have hstop : b1.id = id1 → q.1 = .stop := hpair.first.stop q b1 hb1
    rcases h1 with rfl | ⟨hid1, rfl⟩ <;> rcases h2 with rfl | ⟨hid2, rfl⟩
    · exact ⟨rfl, le_rfl, fun _ _ => rfl, fun _ => Nat.le_add_right _ _⟩
    · exact ⟨rfl, Nat.le_add_right _ _, fun _ hne => absurd hid2 hne, fun _ => le_rfl⟩
    · exact ⟨rfl, Nat.le_add_right _ _, fun hq => absurd (hstop hid1) hq, fun hq => absurd (hstop hid1) hq⟩
    · refine ⟨rfl, ?_, fun hq => absurd (hstop hid1) hq, fun hq => absurd (hstop hid1) hq⟩
      exact (Nat.le_add_right _ _).trans (Nat.le_add_right _ _)
  -- and the stop grows by the amount
  have hstops : ∀ p, ∀ y ∈ (w3.stops p).elems, ∃ y₀ ∈ (w.stops p).elems, y₀.id = y.id ∧
      y₀.sz ≤ y.sz ∧ (y.id = id1 → y₀.sz + a.amount ≤ y.sz) := fun p y hy => by
    obtain ⟨y2, hy2, hid2, hle2⟩ : ∃ y2 ∈ (w1.stops p).elems, y2.id = y.id ∧ y2.sz ≤ y.sz := by
      rcases mem_stops_updateAt hy with hy | ⟨y2, hy2, -, heq⟩
      · exact ⟨y, stops_of_files hf ▸ hy, rfl, le_rfl⟩
      · refine ⟨y2, stops_of_files hf ▸ hy2, (congrArg OrderBndl.id heq).symm, ?_⟩
        rw [heq]
        exact Nat.le_add_right _ _
    by_cases h1 : y.id = id1
    · obtain ⟨y₀, hy₀, hid0, heq⟩ := hi.stop_written (g := incrSize a.amount) hc1 (fun _ => rfl) hy2
        (hid2.trans h1)
      have : y2.sz = y₀.sz + a.amount := congrArg OrderBndl.sz heq
      exact ⟨y₀, hy₀, hid0.trans h1.symm, by omega, fun _ => by omega⟩
    · rcases mem_stops_updateAt hy2 with hy2 | ⟨y₀, hy₀, hid0, heq⟩
      · exact ⟨y2, hy2, hid2, hle2, fun h => absurd h h1⟩
      · exact absurd (hid2.symm.trans ((congrArg OrderBndl.id heq).trans hid0)) h1
  have hadv : Advance F w F w3 [] [id2] := by
    refine h.advance (fun q b hb => ?_) (fun p y hy => ?_) fun l hl hm => ?_
    · obtain ⟨b₀, hb₀, heq, hle, hsame, -⟩ := horders q b hb
      have hsz := hB.sized q b₀ hb₀
      rw [heq]
      refine ⟨q, b₀, hb₀, hB.carriesSize hb₀ (by omega) (fun _ hx => hx) fun hq hne => ?_⟩
      have hidb : b.id = b₀.id := heq ▸ rfl
      rw [hsame hq fun he => hne (hidb ▸ he ▸ List.mem_singleton_self _)]
      exact ⟨le_rfl, le_rfl⟩
    · obtain ⟨y₀, hy₀, hid0, hle, -⟩ := hstops p y hy
      exact ⟨p, y₀, hy₀, hid0, fun _ => hle⟩
    · exact absurd (List.mem_singleton.mp hm) (hpair.legs l hl)
  refine hB.acted h ha rfl hadv (fun a' ha' i hx => ?_) (hB.pairs.next hadv
    (fun _ _ _ _ _ _ hm => by cases hm) fun q b i hb hq hx _ p y hy hyid => ?_)
  · obtain rfl : a = a' := Option.some.inj (hact.symm.trans ha')
    obtain ⟨-, link, hl, -⟩ := hx
    exact absurd (hpay.symm.trans hl) (by simp)
  · obtain ⟨b₀, hb₀, heq, -, hsame, hle⟩ := horders q b hb
    obtain ⟨y₀, hy₀, hid0, hley, hgrown⟩ := hstops p y hy
    have hidb : b.id = b₀.id := heq ▸ rfl
    have hx₀ : F.Exit q b₀ i := by
      rw [heq] at hx
      exact hx
    have hold := hB.pairs.le q b₀ i hb₀ hq hx₀ p y₀ hy₀ (hid0.trans hyid)
    rw [hidb]
    by_cases hb2 : b.id = id2
    · obtain rfl := hpair.exit q b₀ i hb₀ hq (hidb ▸ hb2) hx₀
      have := hgrown hyid
      have := hle hq
      dsimp only at hold ⊢
      omega
    · have := hsame hq hb2
      dsimp only at hold ⊢
      omega

end Act

section Tell
variable {F : Flight} {w : World}

/-- The stop is told what its target traded, and is not smaller than what is left of the target. -/
theorem Balanced.tell (hB : Balanced (F, w)) (ha : Ambient F w) {link : OrderLink}
    {c : ChainIterWrap} {a : Acting} (hgap : F.gap = none) (hact : F.acting = some a)
    (hl : a.bndl.payload = .linkedOrder link)
    (hcond : a.bndl.isActiveBracket ∨ a.bndl.isActiveTrailingBracket) (htold : a.told = false)
    (hamount : a.amount ≠ a.bndl.sz) (hc : w.idCache link.id = some c) :
    Balanced ({ F with acting := some { a with told := true } },
      w.onSob (·.updateAt c link.id (decrSize a.amount))) := by
  let F' : Flight := { F with acting := some { a with told := true } }
  let w' := w.onSob (·.updateAt c link.id (decrSize a.amount))
  have h : Act (F, w) (F', w') := .tell link c a hgap hact hl hcond htold hamount hc
  have ht := hB.acting a hact
  -- a stop that is triggered is filled in whole
  obtain ⟨H, hH⟩ : ∃ H, F.hit = some H :=
    Option.ne_none_iff_exists'.mp fun hn => hamount (ht.whole hn)
  have hx : a.bndl.ExitOf link.id := by
    refine ⟨?_, link, hl, rfl⟩
    simpa [OrderBndl.isActiveBracket, OrderBndl.isActiveTrailingBracket] using hcond
  have hstop := ht.stop H link.id hH hx
  have hsize : ∀ p, ∀ y ∈ (w.stops p).elems, y.id = link.id → a.amount < y.sz := fun p y hy hid => by
    have := ht.ge H link.id hH hx hamount htold p y hy hid
    have := ht.le
    omega
  have hless : F.told = fun _ _ => 0 := by
    funext q id
    unfold Flight.told
    rw [hact]
    dsimp only
    rw [htold]
    rfl
  have hexit : ∀ q b i, F'.Exit q b i → F.Exit q b i := fun q b i hx => by
    refine hx.imp_right ?_
    rintro ⟨H', a', hH', ha', rest⟩
    cases ha'
    exact ⟨H', a, hH', hact, rest⟩
  -- nothing but the stop changes
  have horders : ∀ q b, Resident F' w' q b → q.1 ≠ .stop → Resident F w q b := fun q b hb hq => by
    rcases Resident.rewritten (F := F) (g := decrSize a.amount) (fun _ => rfl) hb with
      hb | ⟨b', hb', -, hid, -, -⟩
    · exact hb
    · exact absurd (hstop.stop q b' hb' hid) hq
  have hadv : Advance F w F' w' [] [link.id] := by
    refine h.advance (fun q b hb => ?_) (fun p y hy => ?_) fun l hl' hm => ?_
    · have hle : q.1 ≠ .stop → b.id ∉ [link.id] →
          b.sz ≤ b.sz ∧ b.sz + F.told q b.id ≤ b.sz + F'.told q b.id := fun _ _ => by
        rw [hless]
        exact ⟨le_rfl, Nat.le_add_right _ _⟩
      rcases Resident.rewritten (F := F) (g := decrSize a.amount) (fun _ => rfl) hb with
        hb | ⟨b', hb', -, hid, rfl, hin⟩
      · exact ⟨q, b, hb, hB.carriesSize hb (hB.sized q b hb) (hexit q b) hle⟩
      · have hq := hstop.stop q b' hb' hid
        obtain ⟨x, hx, rfl⟩ := hin hq
        have := hsize q.2 x hx hid
        refine ⟨q, _, hb', hB.carriesSize hb' ?_ (hexit q _) fun hne => absurd hq hne⟩
        rw [if_pos this.le]
        exact (Nat.sub_pos_of_lt this).ne'
    · rcases mem_stops_updateAt hy with hy | ⟨y₀, hy₀, hid, heq⟩
      · exact ⟨p, y, hy, rfl, fun _ => le_rfl⟩
      · have hidy : y.id = y₀.id := heq ▸ rfl
        exact ⟨p, y₀, hy₀, hidy.symm, fun hne => absurd (by simp [hidy, hid]) hne⟩
    · exact List.mem_singleton.mp hm ▸ hstop
  refine hB.next hadv (Move.walks (.act h) ha hB.walks) (hB.pairs.next hadv
    (fun _ _ _ _ _ _ hm => by cases hm) fun q b i hb hq hxb hm p y hy hid => ?_) (fun a' ha' => ?_)
    (fun l hl => .inl hl) (fun i1 i2 hx => .inl hx) (fun e he => .inl ?_) fun e he => .inl he
  · have hb₀ := horders q b hb hq
    obtain rfl : i = link.id := hm.elim
      (fun hm => absurd (hstop.stop q b hb₀ (List.mem_singleton.mp hm)) hq) List.mem_singleton.mp
    have hx₀ := hexit q b _ hxb
    obtain ⟨rfl, hidb⟩ := ht.one H link.id hH hx q b hb₀ hq hx₀
    have htold' : F'.told (.limit, H.plev) b.id = a.amount := by
      have : F'.told (.limit, H.plev) b.id = F'.due (.limit, H.plev) b.id := rfl
      rw [this, Flight.due_of_some (F := F') hH rfl, if_pos ⟨rfl, hidb.symm⟩]
    rw [htold']
    have hold := hB.pairs.le _ b link.id hb₀ hq hx₀ p
    rw [hless] at hold
    rcases mem_stops_updateAt hy with hy | ⟨y₀, hy₀, hid₀, heq⟩
    · exact (hold y hy hid).trans (Nat.le_add_right _ _)
    · have h1 := hold y₀ hy₀ hid₀
      have h2 := hsize p y₀ hy₀ hid₀
      have h3 : y.sz = if a.amount ≤ y₀.sz then y₀.sz - a.amount else y₀.sz + 2 ^ 64 - a.amount :=
        congrArg OrderBndl.sz heq
      rw [if_pos h2.le] at h3
      dsimp only at h1
      omega
  · cases ha'
    exact ht.next hadv hact rfl rfl (fun H hH => ⟨H, hH, rfl⟩) id fun ht => by cases ht
  · rwa [World.toSob_onSob, queue_updateAt] at he

end Tell

theorem Balanced.act {c c' : Config} (hB : Balanced c) (h : Act c c') (hi : Filed c.1 c.2)
    (ha : Ambient c.1 c.2) : Balanced c' := by
  have hkeeps : c'.1.acting = c.1.acting → (∀ q b, Resident c'.1 c'.2 q b → Resident c.1 c.2 q b) →
      (∀ p, (c'.2.stops p).elems ⊆ (c.2.stops p).elems) → Balanced c' := fun hact hres =>
    hB.kept_of_act h ha hact fun q b hb => ⟨q, b, hres q b hb, .same (h.due_eq q b.id)⟩
  have hfiles : c'.1.acting = c.1.acting → c'.2.files = c.2.files → Balanced c' := fun hact hf =>
    hkeeps hact (fun q b hb => hb.of_files hf h.flight.1 h.flight.2) fun p => by
      rw [stops_of_files hf]
      exact List.Subset.refl _
  cases h with
  | report => exact hfiles rfl (files_report _ _ _ _ _ _ _)
  | @popLimit F w id c b =>
    exact hkeeps rfl (fun q x hx => hx.of_erasedLimit rfl rfl rfl)
      (subset_of_eq (funext fun p => by simp [Sob.erasedLimit]))
  | @moveFront F w p b bs c hgap hl hb hc =>
    refine hB.kept_of_act (.moveFront p b bs c hgap hl hb hc) ha rfl
      (fun q x hx => hx.of_moveFront (w := w) (c := c) hi hgap hl hb rfl) fun r => ?_
    exact subset_of_eq
      ((funext fun r => Sob.stops_setLimits ..).trans (stops_copiedToAons w.toSob _ p b c)) r
  | settle => exact hfiles rfl (Exec.Limit.files_adjustStateAfterPull _ _ _)
  | @popAon F w id c isBuy b =>
    exact hkeeps rfl (fun q x hx => hx.of_erasedAon rfl rfl rfl)
      (subset_of_eq (stops_erasedAon _ _ _ _))
  | @popStop F w id c b =>
    exact hkeeps rfl (fun q x hx => hx.of_erasedStop rfl rfl rfl) fun p => elems_erasedStop_subset ..
  | trailingErase => exact hfiles rfl (files_trailingErased _ _ _)
  | grow params id c a hgap hact hpay hid hc => exact hB.grow ha hgap hact hpay hid hc
  | growBoth first second id1 id2 c1 c2 a msg cb id price sz hgap hact hpay hid hc1 hc2 =>
    exact hB.growBoth hi ha hgap hact hpay hid hc1 hc2
  | tell link c a hgap hact hl hcond htold hamount hc =>
    exact hB.tell ha hgap hact hl hcond htold hamount hc
  | _ => exact hfiles rfl rfl

/-! ### Trades -/

theorem Move.exits_eq {c c' : Config} (h : Move c c') : c'.1.exits = c.1.exits := by
  cases h with
  | act h => exact h.exits_eq
  | _ => rfl

theorem Balanced.kept_of_move {c c' : Config} (hB : Balanced c) (h : Move c c') (hmove : ¬ Act c c')
    (hi : Filed c.1 c.2) (ha : Ambient c.1 c.2) (hzero : c'.2.NoEmptyHit)
    (hacting : c'.1.acting = c.1.acting ∨ c'.1.acting = none ∨ c.1.acting = none)
    (hamount : ∀ a, c'.1.acting = some a → a.amount ≠ 0)
    (hturn : Advance c.1 c.2 c'.1 c'.2 [] [] → ∀ a, c'.1.acting = some a → Turn c'.1 c'.2 a) :
    Balanced c' := by
  have hsame := h.sameInsertion
  have hadv : Advance c.1 c.2 c'.1 c'.2 [] [] := by
    refine .plain h.pending_sub h.lastId_le (fun q b hb => .inl ?_) (fun p y hy => .inl ?_)
      fun l hl => .inl (hsame.legs ▸ hl)
    · obtain ⟨q₀, b₀, hb₀, hp⟩ := h.passes hmove hi ha hB.walks hzero hb
      exact ⟨q₀, b₀, hb₀, hp.carries hB hb₀ hacting hamount⟩
    · obtain ⟨p₀, hy₀⟩ := h.stops_from hmove p y hy
      exact ⟨p₀, y, hy₀, rfl, le_rfl⟩
  exact hB.next hadv (h.walks ha hB.walks) (hB.pairs.carried hadv) (hturn hadv)
    (fun l hl => .inl (hsame.legs ▸ hl)) (fun i1 i2 hx => .inl (h.exits_eq ▸ hx))
    (fun e he => (h.queue e he).imp_right hB.generates) fun e he => .inl (hsame.cur ▸ he)

theorem Balanced.move {c c' : Config} (hB : Balanced c) (h : Move c c') (hi : Filed c.1 c.2)
    (ha : Ambient c.1 c.2) (hzero : c'.2.NoEmptyHit) : Balanced c' := by
  by_cases hmove : Act c c'
  · exact hB.act hmove hi ha
  -- the order that acts, if any, goes on
  have hgoes : c'.1.acting = c.1.acting →
      (∀ H', c'.1.hit = some H' → ∃ H, c.1.hit = some H ∧ H.plev = H'.plev) →
      (c'.1.hit = none → c.1.hit = none) → Balanced c' := fun hact hhit hnone =>
    hB.kept_of_move h hmove hi ha hzero (.inl hact) (fun a ha => (hB.acting a (hact ▸ ha)).amount)
      fun hadv a ha => (hB.acting a (hact ▸ ha)).next hadv (hact ▸ ha) rfl rfl hhit hnone
        fun ht => ⟨ht, fun _ _ => List.not_mem_nil⟩
  have hrefl : c'.1.acting = c.1.acting → c'.1.hit = c.1.hit → Balanced c' := fun hact hhit =>
    hgoes hact (fun H hH => ⟨H, hhit ▸ hH, rfl⟩) fun hn => hhit ▸ hn
  have hrests : c'.1.acting = none → Balanced c' := fun hno =>
    hB.kept_of_move h hmove hi ha hzero (.inr (.inl hno)) (fun a ha => by rw [hno] at ha; cases ha)
      fun _ a ha => by rw [hno] at ha; cases ha
  cases h with
  | act h => exact absurd h hmove
  | beginHit plev id size hands hh hgap hhit hact => exact hrests hact
  | @skip F w H i todo hhit =>
    exact hgoes rfl (fun H' hH' => ⟨H, hhit, by cases hH'; rfl⟩) fun hn => by cases hn
  | moveHit H id size b c todo hands hgap hact => exact hrests hact
  | @fill F w H id size cb b todo hands hh hhit htodo hl hsize hAON hact hscan =>
    have hr : Resident F w (.limit, H.plev) b.toOrderBndl :=
      resident_limit.mpr ⟨b, (Chain.findLimit_mem hl).1, hB.walks.live hhit htodo, rfl⟩
    have hsz := hB.sized _ _ hr
    refine hB.kept_of_move (.fill H id size cb b todo hands hh hhit htodo hl hsize hAON hact hscan) hmove
      hi ha hzero (.inr (.inr hact)) (fun a ha => ?_) fun hadv a ha => ?_
    · cases ha
      exact (Nat.lt_min.mpr ⟨Nat.pos_of_ne_zero hsize, Nat.pos_of_ne_zero hsz⟩).ne'
    · cases ha
      have hf : (w.traded H.plev (min size b.sz) id b.id cb b.cb).files = w.files :=
        files_traded _ _ _ _ _ _ _
      have hx₀ : ∀ i, b.ExitOf i → F.Exit (.limit, H.plev) b.toOrderBndl i := fun i hx => .inl hx
      refine ⟨(Nat.lt_min.mpr ⟨Nat.pos_of_ne_zero hsize, Nat.pos_of_ne_zero hsz⟩).ne',
        Nat.min_le_right _ _, fun hn => (by cases hn), (hB.unions _ _ hr).next hadv,
        fun H' i hH' hx => (hB.pairs.stop _ _ i hr (by simp) (hx₀ i hx)).next hadv,
        fun H' i hH' hx q b' hb' hq hxb => ?_, fun H' i hH' hx _ _ p y hy hid => ?_⟩
      · cases hH'
        -- there is one target with this stop
        rcases hadv.orders q b' hb' with ⟨q₀, b₀, hb₀, hc⟩ | hf
        · have hid : b₀.id = b.id := hB.pairs.one _ _ _ _ i hb₀ hr (fun hs => hq (hc.stop.mpr hs))
            (by simp) (hc.exit hq List.not_mem_nil i hxb) (hx₀ i hx)
          have hb' : Resident F w q b' := hb'.of_filed hf
            (fun p => by
              rw [Flight.spentAt_of_hit hhit, Flight.spentAt_of_hit rfl]
              exact List.Subset.refl _) fun _ => List.Subset.refl _
          exact ⟨(hb'.unique hi hr (hc.id.trans hid)).1, hc.id.trans hid⟩
        · exact absurd hxb (hf.exit hq i)
      · have := hB.pairs.le _ _ i hr (by simp) (hx₀ i hx) p y (stops_of_files hf ▸ hy) hid
        rwa [Flight.told_of_none (F := F) hact] at this
  | reduce | retire => exact hrests rfl
  | eraseHit H pos l hgap hact => exact hrests hact
  | freeHit bidSide H pos l hgap hact => exact hrests hact
  | @missHit F w H s trace hhit hdone hspent htrace =>
    exact absurd (htrace ▸ List.mem_cons_self) (hzero s H.plev)
  | @wipeHit F w bidSide H s trace hgap hhit hdone htrace =>
    exact absurd (htrace ▸ List.mem_cons_self) (hzero s H.plev)
  | detach buyStops plev sc hscan hdet hbuy hsell hdone hact => exact hrests hact
  | @beginTrigger F w d e todo hdet htodo hact hhit herased =>
    have hr : Resident F w (.stop, d.plev) e.toOrderBndl := by
      refine resident_stop.mpr ⟨e, .inr ?_, rfl⟩
      rw [Flight.triggering_of_some hdet, if_pos rfl, htodo]
      exact List.mem_cons_self
    have hsz := hB.sized _ _ hr
    refine hB.kept_of_move (.beginTrigger d e todo hdet htodo hact hhit herased) hmove hi ha hzero
      (.inr (.inr hact)) (fun a ha => by cases ha; exact hsz) fun hadv a ha => ?_
    cases ha
    have hno : ∀ H : Hit, F.hit = some H → False := fun H hH => by
      rw [show F.hit = none from hhit] at hH
      cases hH
    exact ⟨hsz, le_rfl, fun _ => rfl, (hB.unions _ _ hr).next hadv, fun H _ hH => (hno H hH).elim,
      fun H _ hH => (hno H hH).elim, fun H _ hH => (hno H hH).elim⟩
  | endTrigger => exact hrests rfl
  | _ => exact hrefl rfl rfl

/-! ## Insertions -/

theorem Flight.NoTrade.walks {F : Flight} (h : F.NoTrade) : F.Walks := .of_hit_none h.hit

theorem Flight.NoTrade.exit_iff {F : Flight} (h : F.NoTrade) {q : Kind × Nat} {b : OrderBndl} {i : Nat} :
    F.Exit q b i ↔ b.ExitOf i :=
  Flight.exit_of_acting_none h.acting

theorem OrderBndl.not_exitOf {b : OrderBndl} (h : ∀ link, b.payload ≠ .linkedOrder link) (i : Nat) :
    ¬ b.ExitOf i := fun ⟨_, link, hl, _⟩ => h link hl

section Step
variable {F F' : Flight} {w w' : World}

/-- What waits is not in the book. -/
theorem Resident.not_pending {q : Kind × Nat} {b : OrderBndl} (h : Resident F w q b) (hi : Filed F w) :
    b.id ∉ w.pending F := by
  obtain ⟨c, hc, -⟩ := h.cached hi
  exact (hi.known b.id (by rw [hc]; exact Option.some_ne_none c)).2

/-- The first of the ids that wait is used. -/
theorem Ambient.takes (ha : Ambient F w) (F' : Flight) (w' : World) {id : Nat} {ids : List Nat}
    (hids : F.ids = id :: ids) (hids' : F'.ids = ids) (hfront : F'.front = F.front)
    (hq : w'.internalOrderQueue = w.internalOrderQueue) (hlast : w'.lastId = w.lastId) :
    (∀ j ∈ w'.pending F', j ∈ w.pending F) ∧ id ∈ w.pending F ∧ id ∉ w'.pending F' ∧
      id ≤ w'.lastId := by
  have hpend : w.pending F = id :: w'.pending F' := by
    unfold Sob.pending
    rw [hids, hids', hfront, hq, List.cons_append]
  have hwait : id ∈ w.pending F := hpend ▸ List.mem_cons_self
  exact ⟨fun j hj => hpend ▸ List.mem_cons_of_mem _ hj, hwait,
    (List.nodup_cons.mp (hpend ▸ ha.pending_nodup)).1, hlast ▸ ha.pending_le id hwait⟩

/-- Between trades, an order that has another condition or union has its size. -/
theorem Balanced.carriesUnion (hB : Balanced (F, w)) (hn : F.NoTrade) (hn' : F'.NoTrade)
    {opened resized : List Nat} {q : Kind × Nat} {b₀ b : OrderBndl} (hr : Resident F w q b₀)
    (hid : b.id = b₀.id)
    (hsz : b.sz = b₀.sz) (hu : Union F w b.payload)
    (hexit : q.1 ≠ .stop → b.id ∉ opened → ∀ i, b.ExitOf i → b₀.ExitOf i) :
    Carries F w F' opened resized q b₀ q b := by
  refine ⟨hid, .rfl, .inl rfl, fun h => hB.sized q b₀ hr (hsz ▸ h), hu,
    fun hq ho i hx => hn.exit_iff.mpr (hexit hq ho i (hn'.exit_iff.mp hx)), fun _ _ => ?_⟩
  rw [hsz, Flight.told_of_none hn.acting]
  exact ⟨le_rfl, Nat.le_add_right _ _⟩

/-- Nothing changes but what is under way. -/
theorem Balanced.quiet (hB : Balanced (F, w)) (hn : F.NoTrade) (hn' : F'.NoTrade)
    (hf : w'.files = w.files) (hlast : w'.lastId = w.lastId)
    (hpend : ∀ id ∈ w'.pending F', id ∈ w.pending F) (hlegs : ∀ l ∈ F'.legs, l ∈ F.legs)
    (hexits : ∀ x, F'.exits = some x → F.exits = some x)
    (hqueue : ∀ e ∈ w'.internalOrderQueue, e ∈ w.internalOrderQueue)
    (hcur : ∀ e, F'.cur = some e → F.cur = some e ∨
      e.sz ≠ 0 ∧ (e.Holds → ∀ op, e.cparams1 = some op → op.size ≠ 0)) : Balanced (F', w') := by
  have hadv : Advance F w F' w' [] [] := by
    refine .plain (fun id hid => .inl (hpend id hid)) hlast.ge (fun q b hb => .inl ⟨q, b, ?_⟩)
      (fun p y hy => .inl ⟨p, y, stops_of_files hf ▸ hy, rfl, le_rfl⟩) fun l hl => .inl (hlegs l hl)
    have hb := hb.of_files hf (hn'.hit.trans hn.hit.symm) (hn'.detached.trans hn.detached.symm)
    exact ⟨hb, hB.carriesUnion hn hn' hb rfl rfl (hB.unions q b hb) fun _ _ _ hx => hx⟩
  refine hB.next hadv hn'.walks (hB.pairs.carried hadv) (fun a ha => ?_)
    (fun l hl => .inl (hlegs l hl)) (fun i1 i2 hx => .inl (hexits _ hx))
    (fun e he => .inl (hqueue e he)) hcur
  rw [hn'.acting] at ha
  cases ha

/-- An order gets another condition or union, which is no exit. -/
theorem Balanced.rewrite (hB : Balanced (F, w)) (hn : F.NoTrade) (c : ChainIterWrap) (id : Nat)
    {g : OrderBndl → OrderBndl} (hid : ∀ b, (g b).id = b.id) (hsz : ∀ b, (g b).sz = b.sz)
    (hu : ∀ b, Union F w (g b).payload) (hexit : ∀ b i, ¬ (g b).ExitOf i) :
    Balanced (F, w.onSob (·.updateAt c id g)) := by
  have hlast : (w.updateAt c id g).lastId = w.lastId := lastId_updateAt _ _ _ _
  have hqueue : (w.updateAt c id g).internalOrderQueue = w.internalOrderQueue := queue_updateAt _ _ _ _
  have hadv : Advance F w F (w.onSob (·.updateAt c id g)) [] [] := by
    refine .plain (fun id hid => .inl ?_) hlast.ge (fun q b hb => .inl ?_) (fun p y hy => .inl ?_)
      fun l hl => .inl hl
    · rwa [World.toSob_onSob, pending_of_queue hqueue] at hid
    · rcases hb.rewritten hid with hb | ⟨b', hb', -, -, rfl, -⟩
      · exact ⟨q, b, hb, hB.carriesUnion hn hn hb rfl rfl (hB.unions q b hb) fun _ _ _ hx => hx⟩
      · exact ⟨q, b', hb', hB.carriesUnion hn hn hb' (hid b') (hsz b') (hu b') fun _ _ i hx =>
          absurd hx (hexit b' i)⟩
    · rcases mem_stops_updateAt hy with hy | ⟨y₀, hy₀, -, heq⟩
      · exact ⟨p, y, hy, rfl, le_rfl⟩
      · refine ⟨p, y₀, hy₀, ?_, ?_⟩
        · rw [← hid y₀.toOrderBndl, ← heq]
        · rw [← hsz y₀.toOrderBndl, ← heq]
  refine hB.next hadv hn.walks (hB.pairs.carried hadv) (fun a ha => ?_)
    (fun l hl => .inl hl) (fun i1 i2 hx => .inl hx) (fun e he => .inl (hqueue ▸ he)) fun e he => .inl he
  rw [hn.acting] at ha
  cases ha

/-- An order under insertion has a size. -/
theorem Balanced.inserts (hB : Balanced (F, w)) {e : OrderQueueElem} (h : F.Inserts e) : e.sz ≠ 0 := by
  obtain ⟨e', he', rfl | ⟨hc, -, op, hop, -, -, -, -, hsz⟩⟩ := h
  · exact (hB.cur e he').1
  · rw [hsz]
    exact (hB.cur e' he').2 (.inl hc) op hop

/-- An order goes from the caller's hands to the book. -/
theorem Balanced.push (hB : Balanced (F, w)) (hs : Shelved F w) (ha : Ambient F w) (hn : F.NoTrade)
    (hn' : F'.NoTrade) {b : OrderBndl} {l : Leg} {ids : List Nat} (hids : F.ids = b.id :: ids)
    (hsz : b.sz ≠ 0) (hpay : b.payload = .null ∨ ∃ n, b.payload = .nticks n)
    (hl : l.id = b.id ∧ l.sz = b.sz) (hids' : F'.ids = ids) (hfront : F'.front = F.front)
    (hlegs : F'.legs = l :: F.legs) (hexits : F'.exits = F.exits) (hcur : F'.cur = F.cur)
    (hq : w'.internalOrderQueue = w.internalOrderQueue) (hlast : w'.lastId = w.lastId)
    (hres : ∀ q x, Resident F' w' q x → Resident F w q x ∨ x = b ∧ (l.type = .stop → q.1 = .stop))
    (hstops : ∀ p, ∀ y ∈ (w'.stops p).elems, y ∈ (w.stops p).elems ∨ y.id = b.id) :
    Balanced (F', w') := by
  obtain ⟨hpend, hwait, hnew, hle⟩ := ha.takes F' w' hids hids' hfront hq hlast
  have hlink : ∀ link, b.payload ≠ .linkedOrder link := fun link hl => by
    rcases hpay with h | ⟨n, h⟩ <;> rw [h] at hl <;> cases hl
  have hu : Union F w b.payload := by
    rcases hpay with h | ⟨n, h⟩ <;> rw [h] <;> exact .of_none rfl rfl rfl
  have hadv : Advance F w F' w' [] [] := by
    refine .plain (fun id hid => .inl (hpend id hid)) hlast.ge (fun q x hx => ?_) (fun p y hy => ?_)
      fun m hm => ?_
    · rcases hres q x hx with hx | ⟨rfl, -⟩
      · exact .inl ⟨q, x, hx, hB.carriesUnion hn hn' hx rfl rfl (hB.unions q x hx) fun _ _ _ hx => hx⟩
      · exact .inr ⟨hwait, hsz, hu, fun _ i hx => OrderBndl.not_exitOf hlink i (hn'.exit_iff.mp hx)⟩
    · refine (hstops p y hy).imp (fun hy => ⟨p, y, hy, rfl, le_rfl⟩) fun hid => ?_
      rw [hid]
      exact hwait
    · rw [hlegs] at hm
      rcases List.mem_cons.mp hm with rfl | hm
      · exact .inr (hl.1 ▸ hwait)
      · exact .inl hm
  refine hB.next hadv hn'.walks (hB.pairs.carried hadv) (fun a ha => ?_)
    (fun m hm => ?_) (fun i1 i2 hx => .inl (hexits ▸ hx)) (fun e he => .inl (hq ▸ he))
    fun e he => .inl (hcur ▸ he)
  · rw [hn'.acting] at ha
    cases ha
  · rw [hlegs] at hm
    rcases List.mem_cons.mp hm with rfl | hm
    · right
      obtain ⟨hid, hsz'⟩ := hl
      have hself : ∀ q x, Resident F' w' q x → x.id = m.id → x = b ∧ (m.type = .stop → q.1 = .stop) :=
        fun q x hx h => (hres q x hx).resolve_left fun hx =>
          hx.not_pending hs.toFiled ((h.trans hid).symm ▸ hwait)
      refine ⟨hid ▸ hle, hid ▸ hnew,
        fun ht => ⟨hid ▸ hle, hid ▸ hnew, fun q x hx h => (hself q x hx h).2 ht⟩,
        fun q x hx h _ => ?_, fun q x i hx h _ hxi => ?_⟩
      · rw [(hself q x hx h).1, hsz']
      · rw [(hself q x hx h).1] at hxi
        exact OrderBndl.not_exitOf hlink i (hn'.exit_iff.mp hxi)
    · exact .inl hm

end Step

section OpenLoss
variable {F : Flight} {w : World}

/-- A target gets its stop loss, which is as large as what rests of the target. -/
theorem Balanced.openLoss (hB : Balanced (F, w)) (hs : Shelved F w) (ha : Ambient F w)
    (hn : F.NoTrade) {e : OrderQueueElem} {l : Leg} {c : ChainIterWrap} {p : Nat} {b : StopBndl}
    {nticks1 nticks2 : Option Nat} {ids : List Nat} (hl : l ∈ F.legs) (hids : F.ids = b.id :: ids)
    (hsz : b.sz ≠ 0 ∧ ∀ x, w.bndlAt c l.id = some x → x.sz ≤ l.sz → x.sz ≤ b.sz)
    (hpay : b.payload = .linkedOrder ⟨l.id, true, nticks2⟩) :
    Balanced ({ F with ids := ids, legs := [], exits := some (b.id, l.id) },
      w.onSob fun s => Chain.stopPush
        (s.armed c l.id e.condition e.trigger (.linkedOrder ⟨b.id, false, nticks1⟩)) p b) := by
  let F' : Flight := { F with ids := ids, legs := [], exits := some (b.id, l.id) }
  let g : OrderBndl → OrderBndl := fun x =>
    { x with condition := e.condition, trigger := e.trigger
             payload := .linkedOrder ⟨b.id, false, nticks1⟩ }
  let w1 := w.onSob (·.updateAt c l.id g)
  let w' := w1.onSob fun s => Chain.stopPush s p b
  have hn' : F'.NoTrade := ⟨hn.hit, hn.acting, hn.scan, hn.detached⟩
  have hleg := hB.legs l hl
  have hlast : w'.lastId = w.lastId :=
    (lastId_of_bookView (bookView_stopPush ..)).trans (lastId_updateAt _ _ _ _)
  have hqueue : w'.internalOrderQueue = w.internalOrderQueue :=
    (queue_of_bookView (bookView_stopPush ..)).trans (queue_updateAt _ _ _ _)
  obtain ⟨hpend, hwait, hnew, hle⟩ := ha.takes F' w' hids rfl rfl hqueue hlast
  have hold : ∀ q x, Resident F w q x → x.id ≠ b.id := fun q x hx hid =>
    hx.not_pending hs.toFiled (hid ▸ hwait)
  -- an order of the book is one of before, the target or the stop
  have hres : ∀ q x, Resident F' w' q x → Resident F w q x ∨
      (∃ x₀, Resident F w q x₀ ∧ w.bndlAt c l.id = some x₀ ∧ x₀.id = l.id ∧ x = g x₀) ∨
        q = (.stop, p) ∧ x = b.toOrderBndl := fun q x hx => by
    have hx : Resident F w' q x := hx
    rcases hx.of_stopPush with hx | hx
    · rcases Resident.rewritten (g := g) (fun _ => rfl) hx with hx | ⟨x₀, hx₀, hat, hid, heq, -⟩
      · exact .inl hx
      · exact .inr (.inl ⟨x₀, hx₀, hat, hid, heq⟩)
    · exact .inr (.inr hx)
  have hstops : ∀ r, ∀ y ∈ (w'.stops r).elems, y = b ∨
      ∃ y₀ ∈ (w.stops r).elems, y₀.id = y.id ∧ y₀.sz = y.sz := fun r y hy => by
    rcases mem_stops_stopPush hy with hy | rfl
    · rcases mem_stops_updateAt hy with hy | ⟨y₀, hy₀, -, heq⟩
      · exact .inr ⟨y, hy, rfl, rfl⟩
      · exact .inr ⟨y₀, hy₀, heq ▸ rfl, heq ▸ rfl⟩
    · exact .inl rfl
  have hadv : Advance F w F' w' [l.id] [] := by
    refine ⟨fun id hid => .inl (hpend id hid), hlast.ge, fun q x hx => ?_, fun r y hy => ?_,
      fun m hm => (by cases hm), fun t ht => ⟨l, hl, (List.mem_singleton.mp ht).symm⟩⟩
    · rcases hres q x hx with hx | ⟨x₀, hx₀, -, hid, rfl⟩ | ⟨rfl, rfl⟩
      · exact .inl ⟨q, x, hx, hB.carriesUnion hn hn' hx rfl rfl (hB.unions q x hx) fun _ _ _ hx => hx⟩
      · exact .inl ⟨q, x₀, hx₀, hB.carriesUnion hn hn' hx₀ rfl rfl (.of_none rfl rfl rfl)
          fun _ ho => absurd (List.mem_singleton.mpr hid) ho⟩
      · refine .inr ⟨hwait, hsz.1, ?_, fun hq => absurd rfl hq⟩
        rw [hpay]
        exact .of_none rfl rfl rfl
    · rcases hstops r y hy with rfl | ⟨y₀, hy₀, hid, heq⟩
      · exact .inr hwait
      · exact .inl ⟨r, y₀, hy₀, hid, fun _ => heq.le⟩
  have hstop : StopOnly F' w' b.id := by
    refine ⟨hle, hnew, fun q x hx hid => ?_⟩
    rcases hres q x hx with hx | ⟨x₀, hx₀, -, -, rfl⟩ | ⟨rfl, -⟩
    · exact absurd hid (hold q x hx)
    · exact absurd hid (hold q x₀ hx₀)
    · rfl
  -- the target had no stop before
  have htarget : ∀ q x i, Resident F' w' q x → q.1 ≠ .stop → F'.Exit q x i → x.id = l.id →
      i = b.id ∧ ∃ x₀, Resident F w q x₀ ∧ w.bndlAt c l.id = some x₀ ∧ x₀.id = l.id ∧ x.sz = x₀.sz :=
    fun q x i hx hq hxi hid => by
    rw [hn'.exit_iff] at hxi
    rcases hres q x hx with hx | ⟨x₀, hx₀, hat, hid₀, rfl⟩ | ⟨rfl, -⟩
    · exact absurd (hn.exit_iff.mpr hxi) (hleg.free q x i hx hid hq)
    · obtain ⟨-, link, hlink, rfl⟩ := hxi
      cases hlink
      exact ⟨rfl, x₀, hx₀, hat, hid₀, rfl⟩
    · exact absurd rfl hq
  refine hB.next hadv hn'.walks (hB.pairs.next hadv (fun q x i hx hq hxi ht => ?_)
    fun _ _ _ _ _ _ hm => absurd hm (by simp)) (fun a ha => ?_)
    (fun m hm => by cases hm) (fun i1 i2 hx => .inr ?_) (fun e he => .inl (hqueue ▸ he))
    fun e he => .inl he
  · have hid := List.mem_singleton.mp ht
    obtain ⟨rfl, x₀, hx₀, hat, hid₀, hszx⟩ := htarget q x i hx hq hxi hid
    refine ⟨hstop, fun r y hy hyid => ?_, fun q' x' hx' hq' hxi' => ?_⟩
    · rcases hstops r y hy with rfl | ⟨y₀, hy₀, hid', -⟩
      · have := hsz.2 x₀ hat (hleg.sz q x₀ hx₀ hid₀ hq)
        rw [hszx]
        exact this.trans (Nat.le_add_right _ _)
      · refine absurd (hid'.trans hyid) (hold (.stop, r) _ (resident_stop.mpr ⟨y₀, .inl hy₀, rfl⟩))
    · by_contra hne
      rw [hid] at hne
      rcases hadv.orders q' x' hx' with ⟨q₀, b₀, hb₀, hc⟩ | hf
      · have hq₀ : q₀.1 ≠ .stop := fun hs => hq' (hc.stop.mpr hs)
        exact (hB.pairs.stop q₀ b₀ b.id hb₀ hq₀ (hc.exit hq' (by simpa using hne) b.id hxi')).known hwait
      · exact hf.exit hq' b.id hxi'
  · rw [hn'.acting] at ha
    cases ha
  · cases hx
    obtain ⟨hll, hlk⟩ := hadv.known hleg.le hleg.known
    refine ⟨hstop, hll, hlk, fun m hm => (by cases hm), fun q x i hx hq hid hxi => ?_⟩
    exact (htarget q x i hx hq hxi hid).1

end OpenLoss

section Kept
variable {F : Flight} {w : World} {c c' : Config}

theorem Balanced.step (hB : Balanced c) (h : Step c c') (hs : Sorted c) (ha : Ambient c.1 c.2)
    (hn : c.1.NoTrade) (hext : ∀ e, c.1.ext = some e → e.Valid) (hmoves : Moves c c' → Balanced c') :
    Balanced c' := by
  have hsh := hs.shelved
  have hn' := h.noTrade hn
  cases h with
  | act h => exact hB.act h hsh.toFiled ha
  | trade bidSide plev id size r cb hF hp hpe hrun hm => exact hmoves hm
  | @beginOrder F w ie queue hfront hq =>
    refine hB.quiet hn hn' rfl rfl (fun id hid => ?_) (fun _ hl => hl) (fun _ hx => hx) (fun _ he => he)
      fun _ he => .inl he
    simp only [Sob.pending, hfront, hq, List.drop_one, List.tail_cons, List.drop_zero] at hid ⊢
    split at hid
    · rcases List.mem_append.mp hid with hid | hid
      · simp [hid]
      · simp only [List.map_cons, List.mem_append, List.mem_cons, hid, or_true]
    · simp only [List.cons_append, List.mem_cons, List.mem_append, List.map_cons] at hid ⊢
      tauto
  | @endOrder F w hfront =>
    refine hB.quiet hn hn' rfl rfl (fun id hid => ?_) (fun _ hl => hl) (fun _ hx => hx)
      (fun e he => List.mem_of_mem_tail he) fun _ he => .inl he
    simpa [Sob.pending, hfront, World.onSob, List.drop_one] using hid
  | @accept F w e ids hids hhands hcur hxt hint =>
    refine hB.quiet hn hn' rfl rfl (fun _ hid => hid) (fun _ hl => by cases hl) (fun _ hx => by cases hx)
      (fun _ he => he) fun e' he' => .inr ?_
    cases he'
    by_cases hfront : F.front = 0
    · obtain ⟨e', he', heq⟩ := hxt hfront
      rw [heq]
      exact ⟨(hext e' he').sz, (hext e' he').order1⟩
    · obtain ⟨e', queue, hq, heq⟩ := hint hfront
      obtain ⟨hsz, hh⟩ := hB.queue e' (hq ▸ List.mem_cons_self)
      rw [heq]
      exact ⟨hsz, fun h => absurd h hh⟩
  | addLeg | announce =>
    exact hB.quiet hn hn' rfl rfl (fun _ hid => hid) (fun _ hl => hl) (fun _ hx => hx) (fun _ he => he)
      fun _ he => .inl he
  | finish =>
    exact hB.quiet hn hn' rfl rfl (fun _ hid => hid) (fun _ hl => by cases hl) (fun _ hx => by cases hx)
      (fun _ he => he) fun _ he => by cases he
  | @forget F w id ids hids =>
    refine hB.quiet hn hn' rfl rfl (fun j hj => ?_) (fun _ hl => hl) (fun _ hx => hx) (fun _ he => he)
      fun _ he => .inl he
    unfold Sob.pending at hj ⊢
    rw [hids]
    exact List.mem_cons_of_mem _ hj
  | @kill F w e cb id sz price hands =>
    have hv := bookView_report w .kill cb id id price sz
    refine hB.quiet hn hn' (files_report _ _ _ _ _ _ _) (lastId_of_bookView hv) (fun j hj => ?_)
      (fun _ hl => hl) (fun _ hx => hx) (fun e he => queue_of_bookView hv ▸ he) fun _ he => .inl he
    exact pending_of_queue (queue_of_bookView hv) ▸ hj
  | @print F w p id1 id2 sz1 sz2 n cb1 cb2 hands =>
    have hq := queue_traded (w.log (.preTradePrint w.toSob p)) p n id1 id2 cb1 cb2
    refine hB.quiet hn hn' (files_traded _ _ _ _ _ _ _) ?_ (fun j hj => ?_)
      (fun _ hl => hl) (fun _ hx => hx) (fun e he => hq ▸ he) fun _ he => .inl he
    · obtain ⟨_, _, heq⟩ := (w.log (.preTradePrint w.toSob p)).traded_eq p n id1 id2 cb1 cb2
      rw [heq]
      rfl
    · exact pending_of_queue hq ▸ hj
  | @pushLimit F w buy p b hands ids hgap hh hids hsz hp hpe hsd hside hpay =>
    have hstops : (Chain.limitPush buy w.toSob p b).stops = w.stops := stops_limitPush ..
    exact hB.push hsh ha hn hn' (b := b.toOrderBndl) (l := ⟨b.id, .limit, p, b.sz⟩) hids hsz (.inl hpay)
      ⟨rfl, rfl⟩ rfl rfl rfl rfl rfl (waiting_limitPush w.toSob buy p b).2
      (waiting_limitPush w.toSob buy p b).1
      (fun q x hx => hx.of_limitPush.imp_right (⟨·, fun h => by cases h⟩))
      fun r y hy => .inl (hstops ▸ hy)
  | @pushAon F w buy p b hands ids hh hids hsz hp hpe hside hpay =>
    have hv := bookView_aonPush w.toSob buy p b
    have hstops : (Chain.aonPush buy w.toSob p b).stops = w.stops := stops_aonPush ..
    refine hB.push hsh ha hn hn' (b := b.toOrderBndl)
      (l := ⟨b.id, if buy then .aonBuy else .aonSell, p, b.sz⟩) hids hsz (.inl hpay)
      ⟨rfl, rfl⟩ rfl rfl rfl rfl rfl (queue_of_bookView hv) (lastId_of_bookView hv)
      (fun q x hx => hx.of_aonPush.imp_right (⟨·, fun ht => ?_⟩)) fun r y hy => .inl (hstops ▸ hy)
    cases buy <;> cases ht
  | @pushStop F w p b hands ids hh hids hpay e hins hb hsz =>
    have hv := bookView_stopPush w.toSob p b
    have hnone : b.payload = .null ∨ ∃ n, b.payload = .nticks n := by
      rcases hpay with h | ⟨n, h, -⟩
      · exact .inl h
      · exact .inr ⟨n, h⟩
    refine hB.push hsh ha hn hn' (b := b.toOrderBndl) (l := ⟨b.id, .stop, p, b.sz⟩) hids
      (hsz ▸ hB.inserts hins) hnone ⟨rfl, rfl⟩ rfl rfl rfl rfl rfl
      (queue_of_bookView hv) (lastId_of_bookView hv) (fun q x hx => ?_) fun r y hy => ?_
    · rcases hx.of_stopPush with hx | ⟨hq, hx⟩
      · exact .inl hx
      · exact .inr ⟨hx, fun _ => congrArg Prod.fst hq⟩
    · exact (mem_stops_stopPush hy).imp_right (congrArg fun x : StopBndl => x.id)
  | @arm F w e id c payload hgap he hl hc hcond =>
    have hlink : ∀ link, payload ≠ .linkedOrder link := fun link h => by
      rcases hcond with ⟨-, op, -, hp⟩ | ⟨-, hrefs, -⟩
      · rw [h] at hp
        cases hp
      · rw [h] at hrefs
        cases hrefs
    refine hB.rewrite hn _ _ (fun _ => rfl) (fun _ => rfl) (fun b => ?_) fun b i =>
      OrderBndl.not_exitOf hlink i
    rcases hcond with ⟨hc, op, hop, hp⟩ | ⟨-, hrefs, hno⟩
    · rw [hp]
      refine ⟨fun _ _ h => (by cases h), fun _ h => (by cases h), fun op' h => ?_⟩
      cases h
      exact (hB.cur e he).2 (.inr hc) op hop
    · exact .of_refs_nil hrefs hno
  | @link F w e op id1 id2 c1 c2 hgap he hcond =>
    have hexit : ∀ (b : OrderBndl) (link : OrderLink) (i : Nat),
        ¬ OrderBndl.ExitOf { b with
          condition := e.condition, trigger := e.trigger, payload := .linkedOrder link } i := by
      rintro b link i ⟨hc, -⟩
      rw [show ({ b with condition := e.condition, trigger := e.trigger
                         payload := .linkedOrder link } : OrderBndl).condition = e.condition from rfl,
        hcond] at hc
      rcases hc with hc | hc <;> cases hc
    have h1 := hB.rewrite hn c1 id1 (g := fun b => { b with
      condition := e.condition, trigger := e.trigger, payload := .linkedOrder ⟨id2, false, none⟩ })
        (fun _ => rfl) (fun _ => rfl) (fun _ => .of_none rfl rfl rfl) fun b i => hexit b _ i
    have h2 := h1.rewrite hn c2 id2 (g := fun b => { b with
      condition := e.condition, trigger := e.trigger, payload := .linkedOrder ⟨id1, true, none⟩ })
        (fun _ => rfl) (fun _ => rfl) (fun _ => .of_none rfl rfl rfl) fun b i => hexit b _ i
    exact h2.quiet hn hn' rfl rfl (fun _ hid => hid) (fun _ hl => by cases hl) (fun _ hx => hx)
      (fun _ he => he) fun _ he => .inl he
  | @openLoss F w e l c p b nticks1 nticks2 ids hgap he hl hids hcond hb hc hsz hpay =>
    exact hB.openLoss hsh ha hn hl hids hsz hpay
  | @trailingInsert F w id isBuy nticks arriving =>
    have hv := (bookView_trailing w.toSob id isBuy).2
    refine hB.quiet hn hn' (files_trailingInserted _ _ _) (lastId_of_bookView hv) (fun j hj => ?_)
      (fun _ hl => hl) (fun _ hx => hx) (fun e he => queue_of_bookView hv ▸ he) fun _ he => .inl he
    exact pending_of_queue (queue_of_bookView hv) ▸ hj
  | @tellEntry F w e id c payload hgap he hcond hc hpay =>
    have hu : Union F w payload := by
      rcases hpay with ⟨first, second, ⟨i1, i2⟩, hx, rfl⟩ | ⟨params, l, hl, hty, rfl⟩
      · refine ⟨fun j1 j2 h => ?_, fun _ h => (by cases h), fun _ h => by cases h⟩
        simp only [Payload.pair] at h
        split at h
        · cases h
        · cases h
          exact hB.exits _ _ hx
      · refine ⟨fun _ _ h => (by cases h), fun i h => ?_, fun _ h => by cases h⟩
        simp only [Payload.follower] at h
        split at h
        · cases h
        · cases h
          exact (hB.legs l hl).stop hty
    refine hB.rewrite hn _ _ (g := fun b => { b with payload := payload }) (fun _ => rfl) (fun _ => rfl)
      (fun _ => hu) fun b i => OrderBndl.not_exitOf (fun link h => ?_) i
    have h : payload = .linkedOrder link := h
    rcases hpay with ⟨first, second, exits, -, hp⟩ | ⟨params, l, -, -, hp⟩ <;> rw [hp] at h <;> cases h

end Kept

section Between
variable {F : Flight} {w w' : World} {qe : Option OrderQueueElem}

theorem Flight.Calm.noTrade (h : F.Calm) : F.NoTrade := ⟨h.hit, h.acting, h.scan, h.detached⟩

/-- Growing the book moves every order with its level. -/
theorem Resident.of_growBook {base : Int} {incr : Nat} {atBeg : Bool} (hincr : incr ≠ 0)
    {q : Kind × Nat} {b : OrderBndl}
    (h : Resident (.opened qe) { w with toSob := growBook base incr atBeg w.toSob } q b) :
    Resident (.opened qe) w (q.1, q.2 - growOffset incr atBeg) b := by
  have hbook : ∀ p, (growBook base incr atBeg w.toSob).book p =
      if p < growOffset incr atBeg then {} else w.book (p - growOffset incr atBeg) := fun p => by
    rw [growBook_of_ne hincr]
    rfl
  obtain ⟨k, p⟩ := q
  cases k with
  | limit =>
    obtain ⟨x, hx, hs, rfl⟩ := resident_limit.mp h
    have hx : x ∈ ((growBook base incr atBeg w.toSob).book p).limits.elems := hx
    rw [hbook] at hx
    split at hx
    · cases hx
    · exact resident_limit.mpr ⟨x, hx, List.not_mem_nil, rfl⟩
  | stop =>
    obtain ⟨x, hx | hx, rfl⟩ := resident_stop.mp h
    · have hx : x ∈ ((growBook base incr atBeg w.toSob).book p).stops.elems := hx
      rw [hbook] at hx
      split at hx
      · cases hx
      · exact resident_stop.mpr ⟨x, .inl hx, rfl⟩
    · cases hx
  | aon =>
    obtain ⟨buys, x, hx, rfl⟩ := resident_aon.mp h
    have hx : x ∈ (((growBook base incr atBeg w.toSob).book p).aonChain buys).elems := hx
    rw [hbook] at hx
    split at hx
    · cases buys <;> cases hx
    · exact resident_aon.mpr ⟨buys, x, hx, rfl⟩

theorem Balanced.growBook (hB : Balanced (.opened qe, w)) {base : Int} {incr : Nat} {atBeg : Bool}
    (hincr : incr ≠ 0) :
    Balanced (.opened qe, { w with toSob := growBook base incr atBeg w.toSob }) := by
  have hn := Flight.NoTrade.opened qe
  have hlast : (SimpleOrderbook.growBook base incr atBeg w.toSob).lastId = w.lastId := by
    rw [growBook_of_ne hincr]
    rfl
  have hqueue : (SimpleOrderbook.growBook base incr atBeg w.toSob).internalOrderQueue =
      w.internalOrderQueue := by
    rw [growBook_of_ne hincr]
    rfl
  have hadv : Advance (.opened qe) w (.opened qe)
      { w with toSob := SimpleOrderbook.growBook base incr atBeg w.toSob } [] [] := by
    refine .plain (fun id hid => .inl ?_) hlast.ge (fun q b hb => .inl ?_) (fun p y hy => .inl ?_)
      fun l hl => by cases hl
    · exact pending_of_queue hqueue ▸ hid
    · have hb₀ := hb.of_growBook hincr
      exact ⟨_, b, hb₀, rfl, .rfl, .inr (Flight.due_of_hit_none rfl), hB.sized _ b hb₀,
        hB.unions _ b hb₀, fun _ _ i hx => hn.exit_iff.mpr (hn.exit_iff.mp hx),
        fun _ _ => ⟨le_rfl, le_rfl⟩⟩
    · have hy : y ∈ ((SimpleOrderbook.growBook base incr atBeg w.toSob).stops p).elems := hy
      rw [stops_growBook hincr] at hy
      split at hy
      · cases hy
      · exact ⟨_, y, hy, rfl, le_rfl⟩
  exact hB.next hadv hn.walks (hB.pairs.carried hadv)
    (fun a ha => by cases ha) (fun l hl => .inl hl) (fun i1 i2 hx => .inl hx)
    (fun e he => .inl (hqueue ▸ he)) fun e he => .inl he

theorem Balanced.closed (hB : Balanced (F, w)) (hF : F.Calm) (hc : w.ClosesTo w')
    (hq : w'.internalOrderQueue = []) : Balanced (.opened qe, w') := by
  obtain ⟨⟨cbs, queue, hs⟩, -⟩ := hc
  have hpend : w'.pending (.opened qe) = [] := by simp [Sob.pending, hq, Flight.opened]
  refine hB.quiet hF.noTrade (.opened qe) (by rw [hs]; rfl) (by rw [hs]) (fun id hid => ?_)
    (fun l hl => by cases hl) (fun x hx => by cases hx) (fun e he => ?_) fun e he => by cases he
  · rw [hpend] at hid
    cases hid
  · rw [hq] at he
    cases he

theorem Balanced.initial (h : Initial w) (qe : Option OrderQueueElem) : Balanced (.opened qe, w) := by
  obtain ⟨⟨base, incr, -, -, hw⟩, -⟩ := h
  have hno : ∀ q b, ¬ Resident (.opened qe) w q b := by
    rintro ⟨k, p⟩ b hb
    unfold Resident Sob.contents at hb
    rw [hw] at hb
    cases k <;> simp [Sob.init, Sob.limits, Sob.stops, Sob.aons, Level.aonChain, Flight.triggering,
      Flight.opened] at hb
  refine ⟨(Flight.NoTrade.opened qe).walks, fun q b hb => absurd hb (hno q b),
    fun q b hb => absurd hb (hno q b), ⟨fun q b i hb => absurd hb (hno q b),
      fun q b i hb => absurd hb (hno q b), fun q b q' b' i hb => absurd hb (hno q b)⟩,
    fun a ha => (by cases ha), fun l hl => (by cases hl), fun i1 i2 hx => (by cases hx),
    fun e he => ?_, fun e he => by cases he⟩
  rw [hw] at he
  cases he

theorem Balanced.kept : KeptFiled fun c => c.2.NoEmptyHit → Balanced c where
  move hw hi hm h hzero := (h (hzero.of_suffix hm.trace_suffix)).move hm hi hw.ambient hzero
  step hw hs hn hext hstep h htrade hzero :=
    (h (hzero.of_suffix hstep.trace_suffix)).step hstep hs hw.ambient hn hext fun hm => htrade hm hzero
  grow _ hincr h hzero := (h hzero).growBook hincr
  close h hc hq hzero :=
    (h (hzero.of_suffix hc.trace_suffix)).closed (Flight.idle_opened _).toCalm hc hq

/-- In a run in which every request ends as its author could expect, and no chain is hit with nothing
to trade, no order that rests is empty. -/
theorem Run.balanced {w₀ : World} {rs : List (Request × Outcome)} (h0 : Initial w₀) (h : Run w₀ rs w)
    (ho : ∀ ro ∈ rs, ro.2.Expected) (hzero : w.NoEmptyHit) (qe : Option OrderQueueElem) :
    Balanced (.opened qe, w) :=
  Balanced.kept.run_expected
    (fun hF h hc hq hzero => (h (hzero.of_suffix hc.trace_suffix)).closed hF hc hq) h0
    (fun qe _ => .initial h0 qe) h ho hzero qe hzero

end Between

end SimpleOrderbook
