import SimpleOrderbook.Shelf

/-!
# The orders in the book

An order rests in a drawer of the cabinet. A transition of the engine leaves it where and as it is,
or does one of a few things to it; nothing else appears in a drawer but what an insertion files.
-/
namespace SimpleOrderbook

/-- The stops of level `p` that are being triggered. -/
def Flight.triggering (F : Flight) (p : Nat) : List StopBndl :=
  match F.detached with
  | some d => if d.plev = p then d.todo else []
  | none => []

/-- The orders in a drawer, in the order of their chain. -/
def Sob.contents (s : Sob) (F : Flight) : Kind × Nat → List OrderBndl
  | (.limit, p) => ((s.limits p).elems.filter (·.id ∉ F.spentAt p)).map (·.toOrderBndl)
  | (.stop, p) => ((s.stops p).elems ++ F.triggering p).map (·.toOrderBndl)
  | (.aon, p) => ((s.aons true p).elems ++ (s.aons false p).elems).map (·.toOrderBndl)

/-- Order `b` is in drawer `q`. -/
def Resident (F : Flight) (w : World) (q : Kind × Nat) (b : OrderBndl) : Prop :=
  b ∈ w.contents F q

/-- What the order that acts traded and is still counted in its chain. -/
def Flight.due (F : Flight) (q : Kind × Nat) (id : Nat) : Nat :=
  match F.hit, F.acting with
  | some h, some a => if q = (.limit, h.plev) ∧ a.bndl.id = id then a.amount else 0
  | _, _ => 0

section Resident
variable {F F' : Flight} {w w' : World} {q : Kind × Nat} {p : Nat} {b : OrderBndl} {id : Nat}

theorem resident_limit : Resident F w (.limit, p) b ↔
    ∃ x ∈ (w.limits p).elems, x.id ∉ F.spentAt p ∧ x.toOrderBndl = b := by
  simp [Resident, Sob.contents, and_assoc]

theorem resident_stop : Resident F w (.stop, p) b ↔
    ∃ x, (x ∈ (w.stops p).elems ∨ x ∈ F.triggering p) ∧ x.toOrderBndl = b := by
  simp [Resident, Sob.contents, or_and_right, exists_or]

theorem resident_aon : Resident F w (.aon, p) b ↔
    ∃ buys, ∃ x ∈ (w.aons buys p).elems, x.toOrderBndl = b := by
  simp [Resident, Sob.contents, or_comm]

theorem ids_contents_sublist (s : Sob) (F : Flight) (q : Kind × Nat) :
    ((s.contents F q).map (·.id)).Sublist (s.drawer F q) := by
  obtain ⟨k, p⟩ := q
  cases k with
  | limit =>
    change List.Sublist _ ((s.limitIds p).filter (· ∉ F.spentAt p))
    unfold Sob.contents Sob.limitIds
    rw [List.map_map, List.filter_map]
    exact List.Sublist.refl _
  | stop =>
    unfold Sob.contents Sob.drawer Sob.stopIds Flight.triggering Flight.detachedAt
    rw [List.map_map, List.map_append]
    refine List.Sublist.append (List.Sublist.refl _) ?_
    cases F.detached with
    | none => exact List.nil_sublist _
    | some d =>
      dsimp only
      split
      · exact List.sublist_append_left _ _
      · exact List.nil_sublist _
  | aon =>
    unfold Sob.contents Sob.drawer Sob.aonIds
    rw [List.map_map, List.map_append]
    exact List.Sublist.refl _

theorem Resident.mem_drawer (h : Resident F w q b) : b.id ∈ w.drawer F q :=
  (ids_contents_sublist w.toSob F q).subset (List.mem_map_of_mem h)

/-- The drawer of a cached order is the one its entry names. -/
theorem Resident.cached (hi : Filed F w) (h : Resident F w q b) :
    ∃ c, w.idCache b.id = some c ∧ (c.type.kind, c.p) = q :=
  Option.map_eq_some_iff.mp (hi.cabinet.mem_iff.mp h.mem_drawer)

/-- An id is in the book once. -/
theorem Resident.unique (hi : Filed F w) {q' : Kind × Nat} {b' : OrderBndl}
    (h : Resident F w q b) (h' : Resident F w q' b') (hid : b.id = b'.id) : q = q' ∧ b = b' := by
  have hq : q = q' := hi.cabinet.eq_of_mem h.mem_drawer (hid ▸ h'.mem_drawer)
  subst hq
  have hn : ((w.contents F q).map (·.id)).Nodup :=
    (hi.cabinet.nodup q).sublist (ids_contents_sublist _ _ _)
  exact ⟨rfl, List.inj_on_of_nodup_map hn h h' hid⟩

/-- A cached order rests, unless it is a stop that was just triggered. -/
theorem Filed.resident (hi : Filed F w) {id : Nat} {c : ChainIterWrap} (hc : w.idCache id = some c) :
    (∃ b, Resident F w (c.type.kind, c.p) b ∧ b.id = id) ∨
      ∃ d, F.detached = some d ∧ d.turning = some id := by
  have hm : id ∈ w.drawer F (c.type.kind, c.p) :=
    hi.cabinet.mem_iff.mpr (congrArg (Option.map _) hc)
  have hof : ∀ b ∈ w.contents F (c.type.kind, c.p), b.id = id →
      ∃ b, Resident F w (c.type.kind, c.p) b ∧ b.id = id := fun b hb hid => ⟨b, hb, hid⟩
  cases hk : c.type.kind with
  | limit =>
    rw [hk] at hm hof
    obtain ⟨hm, hs⟩ := List.mem_filter.mp hm
    obtain ⟨x, hx, rfl⟩ := List.mem_map.mp hm
    exact .inl (hof x.toOrderBndl (resident_limit.mpr ⟨x, hx, by simpa using hs, rfl⟩) rfl)
  | stop =>
    rw [hk] at hm hof
    rcases List.mem_append.mp hm with hm | hm
    · obtain ⟨x, hx, rfl⟩ := List.mem_map.mp hm
      exact .inl (hof x.toOrderBndl (resident_stop.mpr ⟨x, .inl hx, rfl⟩) rfl)
    · unfold Flight.detachedAt at hm
      split at hm
      next d hd =>
        split at hm
        next hp =>
          rcases List.mem_append.mp hm with hm | hm
          · obtain ⟨x, hx, rfl⟩ := List.mem_map.mp hm
            refine .inl (hof x.toOrderBndl (resident_stop.mpr ⟨x, .inr ?_, rfl⟩) rfl)
            unfold Flight.triggering
            rw [hd]
            dsimp only
            rwa [if_pos hp]
          · exact .inr ⟨d, hd, Option.mem_toList.mp hm⟩
        next => cases hm
      next => cases hm
  | aon =>
    rw [hk] at hm hof
    rcases List.mem_append.mp hm with hm | hm <;> obtain ⟨x, hx, rfl⟩ := List.mem_map.mp hm
    · exact .inl (hof x.toOrderBndl (resident_aon.mpr ⟨true, x, hx, rfl⟩) rfl)
    · exact .inl (hof x.toOrderBndl (resident_aon.mpr ⟨false, x, hx, rfl⟩) rfl)

/-! ## What the transitions do to it -/

theorem Flight.due_of_kind {q : Kind × Nat} (h : q.1 ≠ .limit) : F.due q id = 0 := by
  unfold Flight.due
  split
  · exact if_neg fun heq => h (by rw [heq.1])
  · rfl

theorem Flight.due_of_hit_none {q : Kind × Nat} (h : F.hit = none) : F.due q id = 0 := by
  unfold Flight.due
  rw [h]

theorem Flight.due_of_hit_ne {p : Nat} (h : ∀ H, F.hit = some H → H.plev ≠ p) :
    F.due (.limit, p) id = 0 := by
  unfold Flight.due
  split
  next H a hH _ => exact if_neg fun heq => h H hH (Prod.mk.inj heq.1).2.symm
  · rfl

theorem Flight.due_congr (hhit : F'.hit = F.hit) (hact : F'.acting = F.acting) (q : Kind × Nat)
    (id : Nat) : F'.due q id = F.due q id := by
  unfold Flight.due
  rw [hhit, hact]

theorem Flight.due_of_plev {h : Hit} (hhit : F.hit = some h) (h' : Hit) (hp : h'.plev = h.plev)
    (q : Kind × Nat) (id : Nat) : Flight.due { F with hit := some h' } q id = F.due q id := by
  unfold Flight.due
  rw [hhit]
  dsimp only
  cases F.acting with
  | none => rfl
  | some a => simp only [hp]

theorem Flight.due_of_some {h : Hit} {a : Acting} (hhit : F.hit = some h) (ha : F.acting = some a)
    (q : Kind × Nat) (id : Nat) :
    F.due q id = if q = (.limit, h.plev) ∧ a.bndl.id = id then a.amount else 0 := by
  unfold Flight.due
  rw [hhit, ha]

theorem Flight.due_of_acting_none {q : Kind × Nat} (h : F.acting = none) : F.due q id = 0 := by
  unfold Flight.due
  rw [h]
  split
  next h' => cases h'
  · rfl


/-- The acting order changes the size of another one. -/
inductive Acting.Resizes (a : Acting) (b : OrderBndl) : OrderBndl → Prop where
  | grown (n : Nat) (h : b.id ∈ a.bndl.payload.refs) : a.Resizes b { b with sz := b.sz + n }
  | told (link : OrderLink) (hl : a.bndl.payload = .linkedOrder link) (hid : b.id = link.id)
      (hcond : a.bndl.isActiveBracket ∨ a.bndl.isActiveTrailingBracket) (htold : a.told = false)
      (hamount : a.amount ≠ a.bndl.sz) : a.Resizes b (decrSize a.amount b)

/-- What becomes of order `b` in drawer `q`: the drawer it is in then, and the order. -/
inductive Becomes (F F' : Flight) (q : Kind × Nat) (b : OrderBndl) : Kind × Nat → OrderBndl → Prop where
  | same (hdue : F'.due q b.id = F.due q b.id) : Becomes F F' q b q b
  /-- It trades, and its conditions are run next. -/
  | traded (h : Hit) (a : Acting) (hhit : F'.hit = some h) (ha : F'.acting = some a)
      (hno : F.acting = none) (hq : q = (.limit, h.plev)) (hb : a.bndl = b) (hle : a.amount ≤ b.sz) :
      Becomes F F' q b q b
  /-- An AON leaves a limit chain for an AON chain. -/
  | toAons (p : Nat) (hq : q = (.limit, p)) (hb : b.isAON) (hdue : F.due q b.id = 0) :
      Becomes F F' q b (.aon, p) b
  | resized {b' : OrderBndl} (a : Acting) (ha : F.acting = some a) (hb : a.Resizes b b') :
      Becomes F F' q b q b'
  | settled {b' : OrderBndl} (h : Hit) (a : Acting) (hhit : F.hit = some h)
      (ha : F.acting = some a) (hq : q = (.limit, h.plev)) (hid : b.id = a.bndl.id)
      (hb : a.bndl.Settled b') (hdue : F'.due q b.id = F.due q b.id) : Becomes F F' q b q
        { b with condition := b'.condition, trigger := b'.trigger, payload := b'.payload }
  | reduced (h : Hit) (a : Acting) (hhit : F.hit = some h) (ha : F.acting = some a)
      (hq : q = (.limit, h.plev)) (hid : b.id = a.bndl.id) (hsz : b.sz - a.amount ≠ 0)
      (hdue : F'.acting = none) : Becomes F F' q b q { b with sz := b.sz - a.amount }
  | shifted (p p' : Nat) (hq : q = (.stop, p)) : Becomes F F' q b (.stop, p') b

/-- What becomes of it in a transition that is no pull and no handler. -/
inductive Passes (F F' : Flight) (q : Kind × Nat) (b : OrderBndl) : Kind × Nat → OrderBndl → Prop where
  | same (hdue : F'.due q b.id = F.due q b.id) : Passes F F' q b q b
  /-- It trades, and its conditions are run next. -/
  | traded (h : Hit) (a : Acting) (hhit : F'.hit = some h) (ha : F'.acting = some a)
      (hno : F.acting = none) (hq : q = (.limit, h.plev)) (hb : a.bndl = b) (hle : a.amount ≤ b.sz) :
      Passes F F' q b q b
  /-- An AON leaves a limit chain for an AON chain. -/
  | toAons (p : Nat) (hq : q = (.limit, p)) (hb : b.isAON) (hdue : F.due q b.id = 0) :
      Passes F F' q b (.aon, p) b
  | settled {b' : OrderBndl} (h : Hit) (a : Acting) (hhit : F.hit = some h)
      (ha : F.acting = some a) (hq : q = (.limit, h.plev)) (hid : b.id = a.bndl.id)
      (hb : a.bndl.Settled b') (hdue : F'.due q b.id = F.due q b.id) : Passes F F' q b q
        { b with condition := b'.condition, trigger := b'.trigger, payload := b'.payload }
  | reduced (h : Hit) (a : Acting) (hhit : F.hit = some h) (ha : F.acting = some a)
      (hq : q = (.limit, h.plev)) (hid : b.id = a.bndl.id) (hsz : b.sz - a.amount ≠ 0)
      (hdue : F'.acting = none) : Passes F F' q b q { b with sz := b.sz - a.amount }
  | shifted (p p' : Nat) (hq : q = (.stop, p)) : Passes F F' q b (.stop, p') b

theorem Passes.becomes {q' : Kind × Nat} {b' : OrderBndl} (h : Passes F F' q b q' b') :
    Becomes F F' q b q' b' := by
  cases h with
  | same hdue => exact .same hdue
  | traded h a hhit ha hno hq hb hle => exact .traded h a hhit ha hno hq hb hle
  | toAons p hq hb hdue => exact .toAons p hq hb hdue
  | settled h a hhit ha hq hid hb hdue => exact .settled h a hhit ha hq hid hb hdue
  | reduced h a hhit ha hq hid hsz hdue => exact .reduced h a hhit ha hq hid hsz hdue
  | shifted p p' hq => exact .shifted p p' hq

theorem Becomes.id_eq {q' : Kind × Nat} {b' : OrderBndl} (h : Becomes F F' q b q' b') : b'.id = b.id := by
  cases h with
  | resized a ha hb => cases hb <;> rfl
  | _ => rfl

/-- The chains lost orders at most. -/
theorem Resident.of_subset (h : Resident F' w' q b)
    (hl : ∀ p, (w'.limits p).elems ⊆ (w.limits p).elems)
    (hs : ∀ p, (w'.stops p).elems ⊆ (w.stops p).elems)
    (ha : ∀ buys p, (w'.aons buys p).elems ⊆ (w.aons buys p).elems)
    (hspent : ∀ p, F.spentAt p ⊆ F'.spentAt p) (hdet : ∀ p, F'.triggering p ⊆ F.triggering p) :
    Resident F w q b := by
  obtain ⟨k, p⟩ := q
  cases k with
  | limit =>
    obtain ⟨x, hx, hn, rfl⟩ := resident_limit.mp h
    exact resident_limit.mpr ⟨x, hl p hx, fun hm => hn (hspent p hm), rfl⟩
  | stop =>
    obtain ⟨x, hx, rfl⟩ := resident_stop.mp h
    exact resident_stop.mpr ⟨x, hx.imp (fun hx => hs p hx) fun hx => hdet p hx, rfl⟩
  | aon =>
    obtain ⟨buys, x, hx, rfl⟩ := resident_aon.mp h
    exact resident_aon.mpr ⟨buys, x, ha buys p hx, rfl⟩

theorem Flight.triggering_congr (h : F'.detached = F.detached) :
    F'.triggering = F.triggering := by
  funext p; unfold Flight.triggering; rw [h]

theorem Resident.of_filed (h : Resident F' w' q b) (hf : w'.files = w.files)
    (hspent : ∀ p, F.spentAt p ⊆ F'.spentAt p) (hdet : ∀ p, F'.triggering p ⊆ F.triggering p) :
    Resident F w q b := by
  refine h.of_subset (fun p => ?_) (fun p => ?_) (fun buys p => ?_) hspent hdet
  · rw [limits_of_files hf]; exact List.Subset.refl _
  · rw [stops_of_files hf]; exact List.Subset.refl _
  · rw [aons_of_files hf]; exact List.Subset.refl _

theorem Resident.of_files {G : Flight} {v : World} (h : Resident G v q b) (hf : v.files = w.files)
    (hhit : G.hit = F.hit) (hdet : G.detached = F.detached) : Resident F w q b := by
  refine h.of_filed hf (fun p => ?_) fun p => ?_
  · rw [Flight.spentAt_congr hhit]; exact List.Subset.refl _
  · rw [Flight.triggering_congr hdet]; exact List.Subset.refl _

/-! ### Chains that are rewritten -/

theorem Chain.mem_updateLimit_find {l : List LimitBndl} {f : LimitBndl → LimitBndl} {x : LimitBndl}
    (h : x ∈ updateLimit f id l) : x ∈ l ∨ ∃ y, findLimit l id = some y ∧ x = f y := by
  induction l with
  | nil => exact .inl h
  | cons z l ih =>
    unfold updateLimit at h
    unfold findLimit at ih ⊢
    split at h
    next hid =>
      rcases List.mem_cons.mp h with rfl | h
      · exact .inr ⟨z, List.find?_cons_of_pos (by simpa using hid), rfl⟩
      · exact .inl (List.mem_cons_of_mem _ h)
    next hid =>
      rcases List.mem_cons.mp h with rfl | h
      · exact .inl List.mem_cons_self
      · rw [List.find?_cons_of_neg (by simpa using hid)]
        exact (ih h).imp_left (List.mem_cons_of_mem _)

theorem Chain.mem_updateStop_find {l : List StopBndl} {f : StopBndl → StopBndl} {x : StopBndl}
    (h : x ∈ updateStop f id l) : x ∈ l ∨ ∃ y, findStop l id = some y ∧ x = f y := by
  induction l with
  | nil => cases h
  | cons z l ih =>
    unfold updateStop at h
    unfold findStop at ih ⊢
    split at h
    next hid =>
      rcases List.mem_cons.mp h with rfl | h
      · exact .inr ⟨z, List.find?_cons_of_pos (by simpa using hid), rfl⟩
      · exact .inl (List.mem_cons_of_mem _ h)
    next hid =>
      rcases List.mem_cons.mp h with rfl | h
      · exact .inl List.mem_cons_self
      · rw [List.find?_cons_of_neg (by simpa using hid)]
        exact (ih h).imp_left (List.mem_cons_of_mem _)

/-- What was written through a cache entry is the one order, or nothing. A stop that is being
triggered is not in its chain any more. -/
theorem Resident.rewritten {c : ChainIterWrap} {id : Nat} {g : OrderBndl → OrderBndl}
    (hg : ∀ b, (g b).id = b.id) (h : Resident F (w.onSob (·.updateAt c id g)) q b) :
    Resident F w q b ∨ ∃ b', Resident F w q b' ∧ w.bndlAt c id = some b' ∧ b'.id = id ∧ b = g b' ∧
      (q.1 = .stop → ∃ x ∈ (w.stops q.2).elems, x.toOrderBndl = b') := by
  obtain ⟨k, p⟩ := q
  cases k with
  | limit =>
    obtain ⟨x, hx, hs, rfl⟩ := resident_limit.mp h
    rw [World.toSob_onSob, elems_updateAt] at hx
    split at hx
    next hc =>
      obtain ⟨hty, rfl⟩ := hc
      rcases Chain.mem_updateLimit_find hx with hx | ⟨y, hy, rfl⟩
      · exact .inl (resident_limit.mpr ⟨x, hx, hs, rfl⟩)
      · obtain ⟨hm, hid⟩ := Chain.findLimit_mem hy
        refine .inr ⟨_, resident_limit.mpr ⟨y, hm, (hg y.toOrderBndl).symm ▸ hs, rfl⟩, ?_, hid, rfl, nofun⟩
        unfold Sob.bndlAt
        rw [hty]
        exact congrArg (Option.map _) hy
    next => exact .inl (resident_limit.mpr ⟨x, hx, hs, rfl⟩)
  | stop =>
    obtain ⟨x, hx | hx, rfl⟩ := resident_stop.mp h
    · rw [World.toSob_onSob, stops_updateAt] at hx
      split at hx
      next hc =>
        obtain ⟨hty, rfl⟩ := hc
        cases hl : w.stops c.p with
        | none =>
          rw [hl] at hx
          cases hx
        | some l =>
          rw [hl] at hx
          rcases Chain.mem_updateStop_find hx with hx | ⟨y, hy, rfl⟩
          · exact .inl (resident_stop.mpr ⟨x, .inl (hl ▸ hx), rfl⟩)
          · have hm : y ∈ (w.stops c.p).elems := hl ▸ List.mem_of_find?_eq_some hy
            refine .inr ⟨_, resident_stop.mpr ⟨y, .inl hm, rfl⟩, ?_, Chain.findStop_id hy, rfl,
              fun _ => ⟨y, List.mem_of_find?_eq_some hy, rfl⟩⟩
            unfold Sob.bndlAt
            rw [hty, hl]
            exact congrArg (Option.map _) hy
      next => exact .inl (resident_stop.mpr ⟨x, .inl hx, rfl⟩)
    · exact .inl (resident_stop.mpr ⟨x, .inr hx, rfl⟩)
  | aon =>
    obtain ⟨buys, x, hx, rfl⟩ := resident_aon.mp h
    rw [World.toSob_onSob, aons_updateAt] at hx
    by_cases hc : c.type = (if buys then .aonBuy else .aonSell) ∧ p = c.p
    · rw [if_pos hc] at hx
      obtain ⟨hty, rfl⟩ := hc
      cases hl : w.aons buys c.p with
      | none =>
        rw [hl] at hx
        cases hx
      | some l =>
        rw [hl] at hx
        rcases Chain.mem_updateLimit_find hx with hx | ⟨y, hy, rfl⟩
        · exact .inl (resident_aon.mpr ⟨buys, x, hl ▸ hx, rfl⟩)
        · obtain ⟨hm, hid⟩ := Chain.findLimit_mem hy
          refine .inr ⟨_, resident_aon.mpr ⟨buys, y, hl ▸ hm, rfl⟩, ?_, hid, rfl, nofun⟩
          have hfind : (Chain.findLimit (w.aons buys c.p).elems id).map (·.toOrderBndl) =
              some y.toOrderBndl := by
            rw [hl]
            exact congrArg (Option.map _) hy
          unfold Sob.bndlAt
          cases buys <;> rw [hty] <;> exact hfind
    · rw [if_neg hc] at hx
      exact .inl (resident_aon.mpr ⟨buys, x, hx, rfl⟩)

theorem Resident.of_updateAt {c : ChainIterWrap} {id : Nat} {g : OrderBndl → OrderBndl}
    (hg : ∀ b, (g b).id = b.id) (h : Resident F (w.onSob (·.updateAt c id g)) q b) :
    ∃ b', Resident F w q b' ∧ (b = b' ∨ b'.id = id ∧ b = g b') := by
  rcases h.rewritten hg with h | ⟨b', hb', -, hid, heq, -⟩
  · exact ⟨b, h, .inl rfl⟩
  · exact ⟨b', hb', .inr ⟨hid, heq⟩⟩

/-- What an order of a limit chain was rewritten to. -/
theorem Resident.of_updateLimit {plev id : Nat} {g : LimitBndl → LimitBndl}
    (hg : ∀ b, (g b).id = b.id) (h : Resident F (w.onSob (·.updateLimit plev id g)) q b) :
    Resident F w q b ∨ q = (.limit, plev) ∧ ∃ x ∈ (w.limits plev).elems, x.id ∉ F.spentAt plev ∧
      x.id = id ∧ b = (g x).toOrderBndl := by
  obtain ⟨k, p⟩ := q
  cases k with
  | limit =>
    obtain ⟨x, hx, hs, rfl⟩ := resident_limit.mp h
    rw [World.toSob_onSob, Sob.elems_updateLimit] at hx
    split at hx
    next hp =>
      subst hp
      rcases Chain.mem_updateLimit hx with hx | ⟨y, hy, hid, rfl⟩
      · exact .inl (resident_limit.mpr ⟨x, hx, hs, rfl⟩)
      · exact .inr ⟨rfl, y, hy, hg y ▸ hs, hid, rfl⟩
    next => exact .inl (resident_limit.mpr ⟨x, hx, hs, rfl⟩)
  | stop =>
    obtain ⟨x, hx, rfl⟩ := resident_stop.mp h
    exact .inl (resident_stop.mpr ⟨x, by simpa [Sob.updateLimit] using hx, rfl⟩)
  | aon =>
    obtain ⟨buys, x, hx, rfl⟩ := resident_aon.mp h
    exact .inl (resident_aon.mpr ⟨buys, x, by simpa [Sob.updateLimit] using hx, rfl⟩)

/-- Orders left the chains, and nothing else changed. -/
theorem Resident.of_chains (h : Resident F' w' q b)
    (hl : ∀ p, (w'.limits p).elems ⊆ (w.limits p).elems)
    (hs : ∀ p, (w'.stops p).elems ⊆ (w.stops p).elems)
    (ha : ∀ buys p, (w'.aons buys p).elems ⊆ (w.aons buys p).elems)
    (hhit : F'.hit = F.hit) (hdet : F'.detached = F.detached) : Resident F w q b :=
  h.of_subset hl hs ha (fun p => by rw [Flight.spentAt_congr hhit]; exact List.Subset.refl _)
    fun p => by rw [Flight.triggering_congr hdet]; exact List.Subset.refl _

theorem elems_setLimits_subset {s : Sob} {p : Nat} {l : List LimitBndl}
    (h : l ⊆ (s.limits p).elems) (q : Nat) :
    ((s.setLimits p (ChainManager.ofList l)).limits q).elems ⊆ (s.limits q).elems := by
  rw [Sob.limits_setLimits]
  split
  next hq => rw [ChainManager.elems_ofList, hq]; exact h
  next => exact List.Subset.refl _

theorem elems_erasedAon_subset (s : Sob) (isBuy : Bool) (p id : Nat) (buys : Bool) (q : Nat) :
    ((s.erasedAon isBuy p id).aons buys q).elems ⊆ (s.aons buys q).elems := by
  rw [aons_erasedAon]
  split
  next hq =>
    rw [ChainManager.elems_ofList, hq.1, hq.2]
    exact (Chain.eraseLimit_sublist _ _).subset
  next => exact List.Subset.refl _

theorem elems_erasedStop_subset (s : Sob) (p : Nat) (x : StopBndl) (q : Nat) :
    ((s.erasedStop p x).stops q).elems ⊆ (s.stops q).elems := by
  rw [stops_erasedStop]
  split
  next hq =>
    rw [ChainManager.elems_ofList, hq]
    exact List.eraseP_sublist.subset
  next => exact List.Subset.refl _

theorem stops_copiedToAons (s : Sob) (buyLimit : Bool) (p : Nat) (x : LimitBndl)
    (c : ChainIterWrap) : (s.copiedToAons buyLimit p x c).stops = s.stops := by
  unfold Sob.copiedToAons
  rw [stops_of_files (Exec.Aon.files_adjustStateAfterInsert _ _ _)]
  funext q
  exact Sob.stops_setAons ..

theorem stops_erasedAon (s : Sob) (isBuy : Bool) (p id : Nat) :
    (s.erasedAon isBuy p id).stops = s.stops := by
  funext q
  unfold Sob.erasedAon
  dsimp only
  split
  · rw [stops_of_files (Exec.Aon.files_adjustStateAfterPull _ _ _)]
    exact Sob.stops_setAons ..
  · exact Sob.stops_setAons ..

theorem subset_of_eq {α β : Type} {f g : α → ChainManager β} (h : f = g) (p : α) :
    (f p).elems ⊆ (g p).elems := by
  rw [h]
  exact List.Subset.refl _

/-- An AON that is copied to an AON chain was in the limit chain, and it still is there or not. -/
theorem Resident.of_copied {x : LimitBndl}
    (h : Resident F' w' q b) (hx : Resident F w (.limit, p) x.toOrderBndl) (hAON : x.isAON)
    (hcopy : ∀ buys r, w'.aons buys r =
      if r = p ∧ buys = true then (w.aons true p).push x else w.aons buys r)
    (hl : ∀ r y, Resident F' w' (.limit, r) y → Resident F w (.limit, r) y)
    (hs : ∀ p, (w'.stops p).elems ⊆ (w.stops p).elems) (hdet : F'.detached = F.detached)
    (hdue : F.due (.limit, p) x.id = 0) (hsame : ∀ q id, F'.due q id = F.due q id) :
    ∃ q₀ b₀, Resident F w q₀ b₀ ∧ Passes F F' q₀ b₀ q b := by
  obtain ⟨k, r⟩ := q
  cases k with
  | limit => exact ⟨_, b, hl r b h, .same (hsame _ _)⟩
  | stop =>
    obtain ⟨y, hy, rfl⟩ := resident_stop.mp h
    rw [Flight.triggering_congr hdet] at hy
    exact ⟨_, _, resident_stop.mpr ⟨y, hy.imp_left fun hy => hs r hy, rfl⟩, .same (hsame _ _)⟩
  | aon =>
    obtain ⟨buys, y, hy, rfl⟩ := resident_aon.mp h
    rw [hcopy] at hy
    split at hy
    next heq =>
      obtain ⟨rfl, rfl⟩ := heq
      rw [ChainManager.elems_push] at hy
      rcases List.mem_append.mp hy with hy | hy
      · exact ⟨_, _, resident_aon.mpr ⟨true, y, hy, rfl⟩, .same (hsame _ _)⟩
      · obtain rfl := List.mem_singleton.mp hy
        exact ⟨_, _, hx, .toAons r rfl hAON hdue⟩
    next => exact ⟨_, _, resident_aon.mpr ⟨buys, y, hy, rfl⟩, .same (hsame _ _)⟩

/-- A handler neither counts nor clears what the acting order traded. -/
theorem Act.due_eq {c c' : Config} (h : Act c c') (q : Kind × Nat) (id : Nat) :
    c'.1.due q id = c.1.due q id := by
  cases h with
  | @tell F w link c a hgap ha =>
    unfold Flight.due
    simp only [ha]
    cases F.hit <;> rfl
  | _ => rfl

theorem Resident.of_erasedLimit {r id : Nat} (h : Resident F' w' q b)
    (hw : w'.toSob = w.erasedLimit r id) (hhit : F'.hit = F.hit) (hdet : F'.detached = F.detached) :
    Resident F w q b := by
  refine h.of_chains (fun p => ?_) (fun p => ?_) (fun buys p => ?_) hhit hdet <;> rw [hw]
  · exact elems_setLimits_subset (s := w.toSob) (Chain.eraseLimit_sublist _ _).subset p
  · exact subset_of_eq (f := (w.erasedLimit r id).stops) (by funext; simp [Sob.erasedLimit]) p
  · exact subset_of_eq (f := (w.erasedLimit r id).aons buys) (by funext; simp [Sob.erasedLimit]) p

theorem Resident.of_erasedAon {isBuy : Bool} {r id : Nat} (h : Resident F' w' q b)
    (hw : w'.toSob = w.erasedAon isBuy r id) (hhit : F'.hit = F.hit)
    (hdet : F'.detached = F.detached) : Resident F w q b := by
  refine h.of_chains (fun p => ?_) (fun p => ?_) (fun buys p => ?_) hhit hdet <;> rw [hw]
  · exact subset_of_eq (limits_of_bookView (bookView_erasedAon _ _ _ _)) p
  · exact subset_of_eq (stops_erasedAon _ _ _ _) p
  · exact elems_erasedAon_subset ..

theorem Resident.of_erasedStop {r : Nat} {x : StopBndl} (h : Resident F' w' q b)
    (hw : w'.toSob = w.erasedStop r x) (hhit : F'.hit = F.hit) (hdet : F'.detached = F.detached) :
    Resident F w q b := by
  refine h.of_chains (fun p => ?_) (fun p => ?_) (fun buys p => ?_) hhit hdet <;> rw [hw]
  · exact subset_of_eq (limits_of_bookView (bookView_erasedStop _ _ _)) p
  · exact elems_erasedStop_subset ..
  · rw [aons_erasedStop]
    exact List.Subset.refl _

/-- The AON at the front of a chain an order was popped from moves. -/
theorem Resident.of_moveFront {x : LimitBndl} {bs : List LimitBndl} {c : ChainIterWrap}
    (hi : Filed F w) (hgap : F.gap = some p) (hl : w.limits p = some (x :: bs)) (hx : x.isAON)
    (h : Resident F w' q b) (hw : w'.toSob = Sob.setLimits
      (w.copiedToAons (decide (p < w.ask)) p x c) p (ChainManager.ofList bs)) :
    ∃ q₀ b₀, Resident F w q₀ b₀ ∧ Passes F F q₀ b₀ q b := by
  have hlive : x.id ∉ F.spentAt p := by
    rw [Flight.spentAt_of_gap fun H hH => hi.gap p H hgap hH]
    exact List.not_mem_nil
  refine h.of_copied (resident_limit.mpr ⟨x, by rw [hl]; simp, hlive, rfl⟩) hx
    (fun buys r => ?_) (fun r y hy => ?_) (fun r => ?_) rfl ?_ ?_
  · rw [hw]
    exact (Sob.aons_setLimits ..).trans aons_copiedToAons
  · obtain ⟨z, hz, hs, rfl⟩ := resident_limit.mp hy
    refine resident_limit.mpr ⟨z, ?_, hs, rfl⟩
    rw [hw, Sob.limits_setLimits] at hz
    split at hz
    next heq =>
      rw [heq, hl]
      rw [ChainManager.elems_ofList] at hz
      exact List.mem_cons_of_mem _ hz
    next => rwa [limits_of_bookView (bookView_copiedToAons _ _ _ _ _)] at hz
  · rw [hw]
    refine subset_of_eq (funext fun r => ?_) r
    exact (Sob.stops_setLimits ..).trans (congrFun (stops_copiedToAons w.toSob _ p x c) r)
  · exact Flight.due_of_hit_ne fun H hH => hi.gap p H hgap hH
  · exact fun _ _ => rfl

theorem Act.resident {c c' : Config} (h : Act c c') (hi : Filed c.1 c.2)
    (hr : Resident c'.1 c'.2 q b) :
    ∃ q₀ b₀, Resident c.1 c.2 q₀ b₀ ∧ Becomes c.1 c'.1 q₀ b₀ q b := by
  have hstays : Resident c.1 c.2 q b →
      ∃ q₀ b₀, Resident c.1 c.2 q₀ b₀ ∧ Becomes c.1 c'.1 q₀ b₀ q b := fun hb =>
    ⟨q, b, hb, .same (h.due_eq q b.id)⟩
  cases h with
  | report => exact hstays (hr.of_files (files_report _ _ _ _ _ _ _) rfl rfl)
  | popLimit => exact hstays (hr.of_erasedLimit rfl rfl rfl)
  | @moveFront F w p x bs c hgap hl hx hc =>
    obtain ⟨q₀, b₀, h₀, hp⟩ := hr.of_moveFront (w := w) (c := c) hi hgap hl hx rfl
    exact ⟨q₀, b₀, h₀, hp.becomes⟩
  | settle =>
    exact hstays (hr.of_files (Exec.Limit.files_adjustStateAfterPull _ _ _) rfl rfl)
  | popAon => exact hstays (hr.of_erasedAon rfl rfl rfl)
  | popStop => exact hstays (hr.of_erasedStop rfl rfl rfl)
  | trailingErase => exact hstays (hr.of_files (files_trailingErased _ _ _) rfl rfl)
  | @grow F w params id c a hgap ha hpay hid hc =>
    have hr : Resident F (w.onSob (·.updateAt c id (incrSize a.amount))) q b := hr
    obtain ⟨b', hb', rfl | ⟨hid', rfl⟩⟩ := Resident.of_updateAt (g := incrSize a.amount) (fun _ => rfl) hr
    · exact hstays hb'
    · refine ⟨q, b', hb', .resized a ha (.grown a.amount ?_)⟩
      rw [hpay, Payload.refs, if_neg hid]
      exact List.mem_singleton.mpr hid'
  | @growBoth F w first second id1 id2 c1 c2 a msg cb id price sz hgap ha hpay hid hc1 hc2 =>
    let w1 := w.onSob (·.updateAt c1 id1 (incrSize a.amount))
    let w2 := w1.report msg cb id id price sz
    have hr : Resident F (w2.onSob (·.updateAt c2 id2 (incrSize a.amount))) q b := hr
    have hrefs : a.bndl.payload.refs = [id1, id2] := by rw [hpay, Payload.refs, if_neg hid]
    obtain ⟨b2, hb2, h2⟩ := Resident.of_updateAt (g := incrSize a.amount) (fun _ => rfl) hr
    have hb2 : Resident F w1 q b2 := hb2.of_files (files_report _ _ _ _ _ _ _) rfl rfl
    obtain ⟨b1, hb1, h1⟩ := Resident.of_updateAt (g := incrSize a.amount) (fun _ => rfl) hb2
    have hgrown : ∀ n, b1.id ∈ [id1, id2] →
        Becomes F F q b1 q { b1 with sz := b1.sz + n } := fun n hm =>
      .resized a ha (.grown n (hrefs ▸ hm))
    refine ⟨q, b1, hb1, ?_⟩
    rcases h1 with rfl | ⟨hid1, rfl⟩ <;> rcases h2 with rfl | ⟨hid2, rfl⟩
    · exact .same rfl
    · exact hgrown a.amount (by simp [hid2])
    · exact hgrown a.amount (by simp [hid1])
    · have := hgrown (a.amount + a.amount) (by simp [hid1])
      rwa [← Nat.add_assoc] at this
  | @tell F w link c a hgap ha hl hcond htold hamount hc =>
    have hr : Resident F (w.onSob (·.updateAt c link.id (decrSize a.amount))) q b := hr
    obtain ⟨b', hb', rfl | ⟨hid, rfl⟩⟩ := Resident.of_updateAt (g := decrSize a.amount) (fun _ => rfl) hr
    · exact hstays hb'
    · exact ⟨q, b', hb', .resized a ha (.told link hl hid hcond htold hamount)⟩
  | _ => exact hstays hr

theorem Flight.spentAt_of_hit {h : Hit} (hhit : F.hit = some h) (p : Nat) :
    F.spentAt p = if h.plev = p then h.spent else [] := by
  unfold Flight.spentAt
  rw [hhit]

theorem Flight.spentAt_of_none (hhit : F.hit = none) (p : Nat) : F.spentAt p = [] := by
  unfold Flight.spentAt
  rw [hhit]

theorem Flight.triggering_of_some {d : Detached} (hdet : F.detached = some d) (p : Nat) :
    F.triggering p = if d.plev = p then d.todo else [] := by
  unfold Flight.triggering
  rw [hdet]

theorem Flight.triggering_of_none (hdet : F.detached = none) (p : Nat) : F.triggering p = [] := by
  unfold Flight.triggering
  rw [hdet]

theorem Chain.findStop_mem {l : List StopBndl} {id : Nat} {x : StopBndl}
    (h : findStop l id = some x) : x ∈ l := List.mem_of_find?_eq_some h

/-- A stop that is pushed is in the book, besides the orders that were. -/
theorem Resident.of_stopPush {x : StopBndl}
    (h : Resident F (w.onSob fun s => Chain.stopPush s p x) q b) :
    Resident F w q b ∨ q = (.stop, p) ∧ b = x.toOrderBndl := by
  unfold Chain.stopPush at h
  let w1 := w.onSob fun s => (s.setStops p ((s.stops p).push x)).cacheEmplace x.id ⟨.stop, p⟩
  have h : Resident F w1 q b := h.of_files (Exec.Stop.files_adjustStateAfterInsert _ _ _) rfl rfl
  obtain ⟨k, r⟩ := q
  cases k with
  | limit =>
    obtain ⟨y, hy, hs, rfl⟩ := resident_limit.mp h
    rw [World.toSob_onSob, Sob.limits_cacheEmplace, Sob.limits_setStops] at hy
    exact .inl (resident_limit.mpr ⟨y, hy, hs, rfl⟩)
  | stop =>
    obtain ⟨y, hy | hy, rfl⟩ := resident_stop.mp h
    · rw [World.toSob_onSob, Sob.stops_cacheEmplace, Sob.stops_setStops] at hy
      split at hy
      next hp =>
        subst hp
        rcases List.mem_append.mp hy with hy | hy
        · exact .inl (resident_stop.mpr ⟨y, .inl hy, rfl⟩)
        · exact .inr ⟨rfl, congrArg _ (List.mem_singleton.mp hy)⟩
      next => exact .inl (resident_stop.mpr ⟨y, .inl hy, rfl⟩)
    · exact .inl (resident_stop.mpr ⟨y, .inr hy, rfl⟩)
  | aon =>
    obtain ⟨buys, y, hy, rfl⟩ := resident_aon.mp h
    rw [World.toSob_onSob, Sob.aons_cacheEmplace, Sob.aons_setStops] at hy
    exact .inl (resident_aon.mpr ⟨buys, y, hy, rfl⟩)

theorem Resident.of_limitPush {buy : Bool} {x : LimitBndl}
    (h : Resident F (w.onSob fun s => Chain.limitPush buy s p x) q b) :
    Resident F w q b ∨ b = x.toOrderBndl := by
  unfold Chain.limitPush at h
  let w1 := w.onSob fun s => (s.setLimits p ((s.limits p).push x)).cacheEmplace x.id ⟨.limit, p⟩
  have h : Resident F w1 q b := h.of_files (Exec.Limit.files_adjustStateAfterInsert _ _ _) rfl rfl
  obtain ⟨k, r⟩ := q
  cases k with
  | limit =>
    obtain ⟨y, hy, hs, rfl⟩ := resident_limit.mp h
    rw [World.toSob_onSob, Sob.limits_cacheEmplace, Sob.limits_setLimits] at hy
    split at hy
    next hp =>
      subst hp
      rw [ChainManager.elems_push] at hy
      rcases List.mem_append.mp hy with hy | hy
      · exact .inl (resident_limit.mpr ⟨y, hy, hs, rfl⟩)
      · exact .inr (congrArg _ (List.mem_singleton.mp hy))
    next => exact .inl (resident_limit.mpr ⟨y, hy, hs, rfl⟩)
  | stop =>
    obtain ⟨y, hy, rfl⟩ := resident_stop.mp h
    rw [World.toSob_onSob, Sob.stops_cacheEmplace, Sob.stops_setLimits] at hy
    exact .inl (resident_stop.mpr ⟨y, hy, rfl⟩)
  | aon =>
    obtain ⟨buys, y, hy, rfl⟩ := resident_aon.mp h
    rw [World.toSob_onSob, Sob.aons_cacheEmplace, Sob.aons_setLimits] at hy
    exact .inl (resident_aon.mpr ⟨buys, y, hy, rfl⟩)

theorem Resident.of_aonPush {buy : Bool} {x : AonBndl}
    (h : Resident F (w.onSob fun s => Chain.aonPush buy s p x) q b) :
    Resident F w q b ∨ b = x.toOrderBndl := by
  unfold Chain.aonPush at h
  let w1 := w.onSob fun s => (s.setAons buy p ((s.aons buy p).push x)).cacheEmplace x.id
    ⟨if buy then .aonBuy else .aonSell, p⟩
  have h : Resident F w1 q b := h.of_files (Exec.Aon.files_adjustStateAfterInsert _ _ _) rfl rfl
  obtain ⟨k, r⟩ := q
  cases k with
  | limit =>
    obtain ⟨y, hy, hs, rfl⟩ := resident_limit.mp h
    rw [World.toSob_onSob, Sob.limits_cacheEmplace, Sob.limits_setAons] at hy
    exact .inl (resident_limit.mpr ⟨y, hy, hs, rfl⟩)
  | stop =>
    obtain ⟨y, hy, rfl⟩ := resident_stop.mp h
    rw [World.toSob_onSob, Sob.stops_cacheEmplace, Sob.stops_setAons] at hy
    exact .inl (resident_stop.mpr ⟨y, hy, rfl⟩)
  | aon =>
    obtain ⟨buys, y, hy, rfl⟩ := resident_aon.mp h
    rw [World.toSob_onSob, Sob.aons_cacheEmplace, Sob.aons_setAons] at hy
    split at hy
    next hp =>
      obtain ⟨rfl, rfl⟩ := hp
      rw [ChainManager.elems_push] at hy
      rcases List.mem_append.mp hy with hy | hy
      · exact .inl (resident_aon.mpr ⟨_, y, hy, rfl⟩)
      · exact .inr (congrArg _ (List.mem_singleton.mp hy))
    next => exact .inl (resident_aon.mpr ⟨buys, y, hy, rfl⟩)

theorem elems_setAons_subset {s : Sob} {bidSide : Bool} {p : Nat} {c : ChainManager AonBndl}
    (h : c.elems ⊆ (s.aons bidSide p).elems) (buys : Bool) (q : Nat) :
    ((s.setAons bidSide p c).aons buys q).elems ⊆ (s.aons buys q).elems := by
  rw [Sob.aons_setAons]
  split
  next hq => rw [hq.1, hq.2]; exact h
  next => exact List.Subset.refl _

theorem Chain.eq_of_mem_ids {l : List LimitBndl} (hn : (l.map (·.id)).Nodup) {x y : LimitBndl}
    (hx : x ∈ l) (hy : y ∈ l) (h : x.id = y.id) : x = y :=
  List.inj_on_of_nodup_map hn hx hy h

theorem findLimit_reduced {s : Sob} {plev id amount : Nat} {x : LimitBndl}
    (hx : Chain.findLimit ((s.reduced plev id amount).limits plev).elems id = some x) :
    ∃ y, Chain.findLimit (s.limits plev).elems id = some y ∧ { y with sz := y.sz - amount } = x := by
  rw [Sob.reduced, Sob.elems_updateLimit, if_pos rfl] at hx
  refine Option.map_eq_some_iff.mp (Eq.trans ?_ hx)
  exact (Chain.findLimit_updateLimit (f := fun x : LimitBndl => { x with sz := x.sz - amount })
    (fun _ => rfl) _ _).symm

theorem Act.acting_bndl {c c' : Config} (h : Act c c') {a : Acting} (ha : c'.1.acting = some a) :
    ∃ a', c.1.acting = some a' ∧ a.bndl = a'.bndl := by
  cases h with
  | tell link c a0 hgap ha0 =>
    cases ha
    exact ⟨a0, ha0, rfl⟩
  | _ => exact ⟨a, ha, rfl⟩

/-! ## The chain that is hit -/

/-- The orders to come are distinct and none of them is spent or acts. -/
structure Flight.Walks (F : Flight) : Prop where
  nodup : ∀ h, F.hit = some h → h.todo.Nodup
  unspent : ∀ h, F.hit = some h → ∀ i ∈ h.todo, i ∉ h.spent
  acting : ∀ h a, F.hit = some h → F.acting = some a → a.bndl.id ∉ h.todo

theorem Flight.Walks.of_hit_none (h : F.hit = none) : F.Walks := by
  refine ⟨fun _ hh => ?_, fun _ hh => ?_, fun _ _ hh => ?_⟩ <;> rw [h] at hh <;> cases hh

theorem Move.walks {c c' : Config} (h : Move c c') (ha : Ambient c.1 c.2) (hw : c.1.Walks) :
    c'.1.Walks := by
  have hsame : c'.1.hit = c.1.hit → (∀ a, c'.1.acting = some a →
      ∃ a', c.1.acting = some a' ∧ a.bndl = a'.bndl) → c'.1.Walks := fun hhit hact => by
    refine ⟨hhit ▸ hw.nodup, hhit ▸ hw.unspent, fun h a hh ha => ?_⟩
    obtain ⟨a', ha', heq⟩ := hact a ha
    exact heq ▸ hw.acting h a' (hhit ▸ hh) ha'
  have hrefl : ∀ a, c.1.acting = some a → ∃ a', c.1.acting = some a' ∧ a.bndl = a'.bndl :=
    fun a ha => ⟨a, ha, rfl⟩
  cases h with
  | act h => exact hsame h.flight.1 fun a ha => h.acting_bndl ha
  | @beginHit F w plev id size hands hh hgap hhit hact =>
    refine ⟨fun h hh => ?_, fun h hh => ?_, fun h a hh ha => ?_⟩ <;> cases hh
    · exact ha.nodup plev
    · exact fun _ _ => List.not_mem_nil
    · rw [show F.acting = none from hact] at ha
      cases ha
  | @skip F w h i todo hhit htodo =>
    have hnd := hw.nodup h hhit
    have hun := hw.unspent h hhit
    rw [htodo] at hnd hun
    refine ⟨fun h' hh => ?_, fun h' hh => ?_, fun h' a hh ha => ?_⟩ <;> cases hh
    · exact (List.nodup_cons.mp hnd).2
    · exact fun j hj => hun j (List.mem_cons_of_mem _ hj)
    · exact fun hm => hw.acting h a hhit ha (htodo ▸ List.mem_cons_of_mem _ hm)
  | @moveHit F w h id size b c todo hands hgap hact hh hhit htodo =>
    have hnd := hw.nodup h hhit
    have hun := hw.unspent h hhit
    rw [htodo] at hnd hun
    obtain ⟨hb, hnd⟩ := List.nodup_cons.mp hnd
    refine ⟨fun h' hh => ?_, fun h' hh => ?_, fun h' a hh ha => ?_⟩ <;> cases hh
    · exact hnd
    · intro j hj hm
      rcases List.mem_cons.mp hm with rfl | hm
      · exact hb hj
      · exact hun j (List.mem_cons_of_mem _ hj) hm
    · rw [show F.acting = none from hact] at ha
      cases ha
  | @fill F w h id size cb b todo hands hh hhit htodo =>
    have hnd := hw.nodup h hhit
    have hun := hw.unspent h hhit
    rw [htodo] at hnd hun
    obtain ⟨hb, hnd⟩ := List.nodup_cons.mp hnd
    refine ⟨fun h' hh => ?_, fun h' hh => ?_, fun h' a hh ha => ?_⟩ <;> cases hh
    · exact hnd
    · exact fun j hj => hun j (List.mem_cons_of_mem _ hj)
    · cases ha
      exact hb
  | @reduce F w h a x =>
    exact hsame rfl fun a ha => by cases ha
  | @retire F w h a x hgap hhit hact =>
    refine ⟨fun h' hh => ?_, fun h' hh => ?_, fun h' a hh ha => by cases ha⟩ <;> cases hh
    · exact hw.nodup h hhit
    · intro j hj hm
      rcases List.mem_cons.mp hm with rfl | hm
      · exact hw.acting h a hhit hact hj
      · exact hw.unspent h hhit j hj hm
  | eraseHit | freeHit | missHit | wipeHit => exact .of_hit_none rfl
  | beginTrigger d e todo hdet htodo hact hhit => exact .of_hit_none hhit
  | endTrigger => exact hsame rfl fun a ha => by cases ha
  | _ => exact hsame rfl hrefl

/-- The next order of a chain that is hit is not spent. -/
theorem Flight.Walks.live (hw : F.Walks) {h : Hit} {i : Nat} {todo : List Nat}
    (hhit : F.hit = some h) (htodo : h.todo = i :: todo) : i ∉ F.spentAt h.plev := by
  rw [Flight.spentAt_of_hit hhit, if_pos rfl]
  exact hw.unspent h hhit i (htodo ▸ List.mem_cons_self)

/-- The hit of a chain is over, and its spent orders are gone. -/
theorem Resident.of_released {h : Hit} {c : ChainManager LimitBndl} (hhit : F.hit = some h)
    (hf : w'.files = (w.setLimits h.plev c).files) (hr : Resident F' w' q b)
    (hc : ∀ y ∈ c.elems, y ∈ (w.limits h.plev).elems ∧ y.id ∉ h.spent)
    (hdet : F'.detached = F.detached) : Resident F w q b := by
  obtain ⟨k, r⟩ := q
  cases k with
  | limit =>
    obtain ⟨y, hy, hs, rfl⟩ := resident_limit.mp hr
    rw [limits_of_files hf, Sob.limits_setLimits] at hy
    rw [resident_limit, Flight.spentAt_of_hit hhit]
    split at hy
    next hp =>
      subst hp
      obtain ⟨hm, hn⟩ := hc y hy
      exact ⟨y, hm, by rwa [if_pos rfl], rfl⟩
    next hp => exact ⟨y, hy, by rw [if_neg fun heq => hp heq.symm]; exact List.not_mem_nil, rfl⟩
  | stop =>
    obtain ⟨y, hy, rfl⟩ := resident_stop.mp hr
    rw [Flight.triggering_congr hdet, stops_of_files hf, Sob.stops_setLimits] at hy
    exact resident_stop.mpr ⟨y, hy, rfl⟩
  | aon =>
    obtain ⟨buys, y, hy, rfl⟩ := resident_aon.mp hr
    rw [aons_of_files hf, Sob.aons_setLimits] at hy
    exact resident_aon.mpr ⟨buys, y, hy, rfl⟩

theorem Move.passes {c c' : Config} (h : Move c c') (hmove : ¬ Act c c') (hi : Filed c.1 c.2)
    (ha : Ambient c.1 c.2) (hw : c.1.Walks) (hzero : c'.2.NoEmptyHit)
    (hr : Resident c'.1 c'.2 q b) :
    ∃ q₀ b₀, Resident c.1 c.2 q₀ b₀ ∧ Passes c.1 c'.1 q₀ b₀ q b := by
  have hsame : c'.1.due q b.id = c.1.due q b.id → Resident c.1 c.2 q b →
      ∃ q₀ b₀, Resident c.1 c.2 q₀ b₀ ∧ Passes c.1 c'.1 q₀ b₀ q b := fun hdue hb =>
    ⟨q, b, hb, .same hdue⟩
  have hquiet : c.1.acting = none → c'.1.acting = none → c'.1.due q b.id = c.1.due q b.id :=
    fun ha ha' => (Flight.due_of_acting_none ha').trans (Flight.due_of_acting_none ha).symm
  have hidle : c.1.hit = none → c'.1.hit = none → c'.1.due q b.id = c.1.due q b.id :=
    fun hh hh' => (Flight.due_of_hit_none hh').trans (Flight.due_of_hit_none hh).symm
  cases h with
  | act h => exact absurd h hmove
  | call => exact hsame rfl hr
  | @fillAon F w bidSide plev id size cb x kept bs hands hh hl =>
    let w1 := (w.traded plev x.sz id x.id cb x.cb).log (.filled x.id)
    have hf : w1.files = w.files := files_traded w plev x.sz id x.id cb x.cb
    refine hsame rfl (Resident.of_files (v := w1) (hr.of_chains (fun r => ?_) (fun r => ?_)
      (fun buys r => ?_) rfl rfl) hf rfl rfl)
    · exact subset_of_eq (funext fun r => Sob.limits_setAons ..) r
    · exact subset_of_eq (funext fun r => Sob.stops_setAons ..) r
    · refine elems_setAons_subset (s := w1.toSob) ?_ buys r
      rw [aons_of_files hf, hl]
      intro y hy
      rw [ChainManager.elems_some] at hy ⊢
      exact (List.mem_append.mp hy).elim (List.mem_append_left _) fun hy =>
        List.mem_append_right _ (List.mem_cons_of_mem _ hy)
  | @fillLastAon F w bidSide plev id size cb x hands hh hl =>
    let w1 := (w.traded plev x.sz id x.id cb x.cb).log (.filled x.id)
    have hf : w1.files = w.files := files_traded w plev x.sz id x.id cb x.cb
    let w2 := w1.onSob fun s => (s.cacheErase x.id).setAons bidSide plev none
    have hr : Resident F w2 q b := hr.of_files (Exec.Aon.files_adjustStateAfterPull _ _ _) rfl rfl
    refine hsame rfl (Resident.of_files (v := w1) (hr.of_chains (fun r => ?_) (fun r => ?_)
      (fun buys r => ?_) rfl rfl) hf rfl rfl)
    · exact subset_of_eq (funext fun r => Sob.limits_setAons ..) r
    · exact subset_of_eq (funext fun r => Sob.stops_setAons ..) r
    · exact elems_setAons_subset (s := w1.toSob) (c := none) (List.nil_subset _) buys r
  | @freeAon F w bidSide plev hl =>
    let w2 := w.onSob fun s => s.setAons bidSide plev none
    have hr : Resident F w2 q b := hr.of_files (Exec.Aon.files_adjustStateAfterPull _ _ _) rfl rfl
    refine hsame rfl (hr.of_chains (fun r => ?_) (fun r => ?_) (fun buys r => ?_) rfl rfl)
    · exact subset_of_eq (funext fun r => Sob.limits_setAons ..) r
    · exact subset_of_eq (funext fun r => Sob.stops_setAons ..) r
    · exact elems_setAons_subset (s := w.toSob) (c := none) (List.nil_subset _) buys r
  | @beginHit F w plev id size hands hh hgap hhit hact hl =>
    refine hsame (hquiet hact hact) (hr.of_subset (fun _ => List.Subset.refl _) (fun _ => List.Subset.refl _)
      (fun _ _ => List.Subset.refl _) (fun r => ?_) fun _ => List.Subset.refl _)
    rw [Flight.spentAt_of_none hhit]
    exact List.nil_subset _
  | @skip F w h i todo hhit htodo hl =>
    refine hsame (Flight.due_of_plev hhit { h with todo := todo } rfl q b.id) (hr.of_subset (fun _ => List.Subset.refl _) (fun _ => List.Subset.refl _)
      (fun _ _ => List.Subset.refl _) (fun r => ?_) fun _ => List.Subset.refl _)
    rw [Flight.spentAt_of_hit hhit, Flight.spentAt_of_hit rfl]
    exact List.Subset.refl _
  | @moveHit F w h id size x c todo hands hgap hact hh hhit htodo hl hsize hb hsz hnew hc =>
    have hx := (Chain.findLimit_mem hl).1
    have hspent := Flight.spentAt_of_hit hhit h.plev
    rw [if_pos rfl] at hspent
    have hlive : x.id ∉ F.spentAt h.plev := by rwa [hspent]
    refine hr.of_copied (resident_limit.mpr ⟨x, hx, hlive, rfl⟩) hb (fun buys r => ?_)
      (fun r y hy => ?_) (fun r => ?_) rfl (Flight.due_of_acting_none hact)
        fun q id => Flight.due_of_plev hhit
          { h with done := h.done ++ [x.id], todo := todo, spent := x.id :: h.spent } rfl q id
    · exact (Sob.aons_setLimits ..).trans aons_copiedToAons
    · -- the marker that is left in the limit chain is spent
      obtain ⟨z, hz, hs, rfl⟩ := resident_limit.mp hy
      rw [Flight.spentAt_of_hit rfl] at hs
      rw [World.toSob_onSob, Sob.elems_updateLimit, World.toSob_onSob,
        limits_of_bookView (bookView_copiedToAons _ _ _ _ _)] at hz
      refine resident_limit.mpr ⟨z, ?_, fun hm => hs ?_, rfl⟩
      · split at hz
        next hr =>
          rcases Chain.mem_updateLimit hz with hz | ⟨y, hy, hid, rfl⟩
          · exact hz
          · refine absurd ?_ hs
            rw [if_pos hr.symm]
            exact hid ▸ List.mem_cons_self
        next => exact hz
      · rw [Flight.spentAt_of_hit hhit] at hm
        dsimp only
        split at hm
        next hp => rw [if_pos hp]; exact List.mem_cons_of_mem _ hm
        next => cases hm
    · refine subset_of_eq (funext fun r => ?_) r
      exact (Sob.stops_setLimits ..).trans (congrFun (stops_copiedToAons w.toSob _ h.plev x c) r)
  | @fill F w h id size cb x todo hands hh hhit htodo hl hsize hb hact =>
    have hx := (Chain.findLimit_mem hl).1
    have hr : Resident F w q b := hr.of_filed (files_traded _ _ _ _ _ _ _)
      (fun r => by
        rw [Flight.spentAt_of_hit hhit, Flight.spentAt_of_hit rfl]; exact List.Subset.refl _)
      fun _ => List.Subset.refl _
    have hx0 : Resident F w (.limit, h.plev) x.toOrderBndl :=
      resident_limit.mpr ⟨x, hx, hw.live hhit htodo, rfl⟩
    by_cases hid : b.id = x.id
    · obtain ⟨rfl, rfl⟩ := hr.unique hi hx0 hid
      exact ⟨_, _, hr, .traded _ _ rfl rfl hact rfl rfl (Nat.min_le_right _ _)⟩
    · refine hsame ?_ hr
      rw [Flight.due_of_some rfl rfl, Flight.due_of_acting_none (F := F) hact, if_neg]
      exact fun heq => hid heq.2.symm
  | @rearm F w h a b' hgap hhit hact hb =>
    rcases Resident.of_updateLimit (g := fun x => { x with
      condition := b'.condition, trigger := b'.trigger, payload := b'.payload })
        (fun _ => rfl) hr with hr | ⟨rfl, x, hx, hs, hid, rfl⟩
    · exact hsame rfl hr
    · exact ⟨_, _, resident_limit.mpr ⟨x, hx, hs, rfl⟩, .settled h a hhit hact rfl hid hb rfl⟩
  | @reduce F w h a x hgap hhit hact hx hsz =>
    have hr : Resident F (w.onSob (·.reduced h.plev a.bndl.id a.amount)) q b := hr
    by_cases hb : q = (.limit, h.plev) ∧ a.bndl.id = b.id
    · obtain ⟨rfl, hid⟩ := hb
      obtain ⟨y, hy, hs, rfl⟩ := resident_limit.mp hr
      rw [World.toSob_onSob, Sob.reduced, Sob.elems_updateLimit, if_pos rfl] at hy
      obtain ⟨z, hz, hzid, rfl⟩ := Chain.mem_updateLimit_self (ha.nodup h.plev) hy hid.symm
      refine ⟨_, _, resident_limit.mpr ⟨z, hz, hs, rfl⟩,
        .reduced h a hhit hact rfl hzid ?_ rfl⟩
      -- it is the one that was found
      obtain ⟨z', hz', rfl⟩ := findLimit_reduced hx
      obtain ⟨hm, hzid'⟩ := Chain.findLimit_mem hz'
      obtain rfl := Chain.eq_of_mem_ids (ha.nodup h.plev) hm hz (hzid'.trans hzid.symm)
      exact hsz
    · refine hsame ?_ ?_
      · rw [Flight.due_of_acting_none rfl, Flight.due_of_some hhit hact, if_neg hb]
      · rcases Resident.of_updateLimit (g := fun x => { x with sz := x.sz - a.amount })
          (fun _ => rfl) hr with hr | ⟨rfl, y, hy, hs, hid, rfl⟩
        · exact hr
        · exact absurd ⟨rfl, hid.symm⟩ hb
  | @retire F w h a x hgap hhit hact hx hsz hnew =>
    let w1 := w.onSob (·.reduced h.plev a.bndl.id a.amount)
    have hr : Resident { F with hit := some { h with spent := a.bndl.id :: h.spent } } w1 q b :=
      hr.of_chains (fun _ => List.Subset.refl _) (fun _ => List.Subset.refl _)
        (fun _ _ => List.Subset.refl _) rfl rfl
    have hspent : ∀ y : LimitBndl, q = (.limit, h.plev) → y.id = a.bndl.id → b = y.toOrderBndl →
        False := by
      rintro y rfl hid rfl
      obtain ⟨z, -, hs, hz⟩ := resident_limit.mp hr
      have hzid : z.id = a.bndl.id := (congrArg OrderBndl.id hz).trans hid
      rw [Flight.spentAt_of_hit rfl, if_pos rfl] at hs
      exact hs (hzid ▸ List.mem_cons_self)
    refine hsame ?_ ?_
    · rw [Flight.due_of_acting_none rfl, Flight.due_of_some hhit hact, if_neg]
      rintro ⟨rfl, hid⟩
      obtain ⟨z, -, -, rfl⟩ := resident_limit.mp hr
      exact hspent z rfl hid.symm rfl
    · rcases Resident.of_updateLimit (g := fun x => { x with sz := x.sz - a.amount })
        (fun _ => rfl) hr with hr | ⟨hq, y, hy, hs, hid, heq⟩
      · refine hr.of_subset (fun _ => List.Subset.refl _) (fun _ => List.Subset.refl _)
          (fun _ _ => List.Subset.refl _) (fun r => ?_) fun _ => List.Subset.refl _
        rw [Flight.spentAt_of_hit hhit, Flight.spentAt_of_hit rfl]
        dsimp only
        split
        · exact List.subset_cons_self _ _
        · exact List.nil_subset _
      · exact (hspent { y with sz := y.sz - a.amount } hq hid heq).elim
  | @eraseHit F w h pos l hgap hact hhit hpos hl hspent hne =>
    refine hsame (hquiet hact hact) (Resident.of_released (F := F) hhit (c := some (eraseVisited pos l)) rfl hr
      (fun y hy => ?_) rfl)
    rw [ChainManager.elems_some, hspent] at hy
    obtain ⟨hm, hn⟩ := List.mem_filter.mp hy
    exact ⟨by rwa [hl], by simpa using hn⟩
  | @freeHit F w bidSide h pos l hgap hact hhit hpos hl hspent hne hside =>
    exact hsame (hquiet hact hact) (Resident.of_released (F := F) hhit (c := none)
      (Exec.Core.files_findNewBestInside _ _) hr (fun y hy => by cases hy) rfl)
  | @missHit F w h s trace hhit hdone hspent htrace =>
    exact absurd (htrace ▸ List.mem_cons_self) (hzero s h.plev)
  | @wipeHit F w bidSide h s trace hgap hhit hdone htrace =>
    exact absurd (htrace ▸ List.mem_cons_self) (hzero s h.plev)
  | @moveStop F w buyStops p id c x nticks pAdj hc hx =>
    let msg : CallbackMsg :=
      if x.isActiveTrailingStop then .triggerTrailingStopAdjLoss else .triggerBracketAdjLoss
    let w1 := (w.onSob (·.erasedStop c.p x)).report msg x.cb x.id x.id (w.itop pAdj) x.sz
    have hf : w1.files = (w.erasedStop c.p x).files := files_report _ _ _ _ _ _ _
    have hx0 : Resident F w (.stop, c.p) x.toOrderBndl :=
      resident_stop.mpr ⟨x, .inl (Chain.findStop_mem hx), rfl⟩
    have hr : Resident F (w1.onSob fun s => Chain.stopPush s pAdj x) q b := hr
    rcases hr.of_stopPush with hr | ⟨rfl, rfl⟩
    · have hr : Resident F (w.onSob (·.erasedStop c.p x)) q b := hr.of_files hf rfl rfl
      refine hsame rfl (hr.of_chains (fun r => ?_) (fun r => ?_) (fun buys r => ?_) rfl rfl)
      · exact subset_of_eq (limits_of_bookView (bookView_erasedStop _ _ _)) r
      · exact elems_erasedStop_subset ..
      · rw [World.toSob_onSob, aons_erasedStop]; exact List.Subset.refl _
    · exact ⟨_, _, hx0, .shifted c.p pAdj rfl⟩
  | beginScan => exact hsame rfl hr
  | turnScan => exact hsame rfl hr
  | eraseTriggered => exact hsame rfl (hr.of_files (files_trailingErased _ _ _) rfl rfl)
  | endScan => exact hsame rfl hr
  | @detach F w buyStops plev sc hscan hdet =>
    refine hsame rfl ?_
    let w1 := w.onSob fun s => s.setStops plev none
    have hr : Resident { F with detached := some ⟨buyStops, plev, (w.stops plev).elems, none⟩ } w1
        q b := hr.of_files (Exec.Stop.files_adjustStateAfterTrigger _ _ _) rfl rfl
    obtain ⟨k, r⟩ := q
    cases k with
    | limit =>
      obtain ⟨y, hy, hs, rfl⟩ := resident_limit.mp hr
      rw [World.toSob_onSob, Sob.limits_setStops] at hy
      exact resident_limit.mpr ⟨y, hy, hs, rfl⟩
    | stop =>
      obtain ⟨y, hy, rfl⟩ := resident_stop.mp hr
      rw [World.toSob_onSob, Sob.stops_setStops, Flight.triggering_of_some rfl] at hy
      refine resident_stop.mpr ⟨y, .inl ?_, rfl⟩
      by_cases hp : r = plev
      · subst hp
        simpa using hy
      · simpa [hp, Ne.symm hp] using hy
    | aon =>
      obtain ⟨buys, y, hy, rfl⟩ := resident_aon.mp hr
      rw [World.toSob_onSob, Sob.aons_setStops] at hy
      exact resident_aon.mpr ⟨buys, y, hy, rfl⟩
  | beginTrigger d e todo hdet htodo hact hhit =>
    exact hsame (hidle hhit hhit) hr
  | @turn F w d e todo order ids msg hdet htodo hturn =>
    refine hsame rfl (hr.of_filed (files_turned _ _ _ _ _) (fun _ => List.Subset.refl _) fun r => ?_)
    rw [Flight.triggering_of_some hdet, Flight.triggering_of_some rfl]
    dsimp only
    split
    · rw [htodo]
      exact List.subset_cons_self _ _
    · exact List.nil_subset _
  | @endTrigger F w d id hdet hturn hhit =>
    refine hsame (hidle hhit hhit) (hr.of_subset (fun _ => List.Subset.refl _) (fun _ => List.Subset.refl _)
      (fun _ _ => List.Subset.refl _) (fun _ => List.Subset.refl _) fun r => ?_)
    rw [Flight.triggering_of_some hdet, Flight.triggering_of_some rfl]
    exact List.Subset.refl _
  | @endDetached F w d hdet htodo hturn =>
    refine hsame rfl (hr.of_subset (fun _ => List.Subset.refl _) (fun _ => List.Subset.refl _)
      (fun _ _ => List.Subset.refl _) (fun _ => List.Subset.refl _) fun r => ?_)
    rw [Flight.triggering_of_none rfl]
    exact List.nil_subset _

theorem Move.resident {c c' : Config} (h : Move c c') (hi : Filed c.1 c.2) (ha : Ambient c.1 c.2)
    (hw : c.1.Walks) (hzero : c'.2.NoEmptyHit) (hr : Resident c'.1 c'.2 q b) :
    ∃ q₀ b₀, Resident c.1 c.2 q₀ b₀ ∧ Becomes c.1 c'.1 q₀ b₀ q b := by
  by_cases hact : Act c c'
  · exact hact.resident hi hr
  · obtain ⟨q₀, b₀, h₀, hp⟩ := h.passes hact hi ha hw hzero hr
    exact ⟨q₀, b₀, h₀, hp.becomes⟩

end Resident
end SimpleOrderbook
