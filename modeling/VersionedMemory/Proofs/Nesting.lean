import VersionedMemory.Proofs.Accesses
import VersionedMemory.Proofs.HostInvariants
import VersionedMemory.Proofs.Tasks

/-!
# Nested bodies

A body that reads, writes, puts, gets and nests bodies of its own kind comes to one contribution,
which it takes over into the context that it runs on. What contribution that is depends on what the
context shows of the cells, and a child that has done nothing yet shows what the context below it
shows. So it makes no difference whether a body runs on a context or is nested in it.

## Main definitions

* `Program.Sequential` is a program of reads, writes, puts, gets and nested programs, in which the
  deltas of one cell are combined by one operation.
* `Context.Alike` says that two contexts show the same of every cell.
* `Body.Yields` says what a body comes to on all contexts that show the same.

## Main statements

* `Program.Sequential.yields`: every sequential program comes to a result and a contribution.
* `nested_eq_direct`: a nested body that succeeds does what it does when it is not nested.
-/

namespace VersionedMemory

variable {V σ α β R : Type}

/-- The program reads, writes, puts, gets and nests programs of this kind, and does nothing else.
The deltas for a cell are combined by the operation that belongs to the cell. -/
def Program.Sequential (ops : CellId → V → V → V) : Program V R → Prop
  | .done _ => True
  | .fail _ => True
  | .read _ next => ∀ r, (next r).Sequential ops
  | .write _ _ next => ∀ r, (next r).Sequential ops
  | .put a _ next => a.op = ops a.base ∧ ∀ r, (next r).Sequential ops
  | .get a next => a.op = ops a.base ∧ ∀ r, (next r).Sequential ops
  | .stage .. => False
  | .nested body next => body.Sequential ops ∧ ∀ r, (next r).Sequential ops
  | .parallel .. => False
  | .aside .. => False

theorem Program.sequential_modify {ops : CellId → V → V → V} {c : CellId} {f : V → V}
    {next : Except Error V → Program V R} (h : ∀ r, (next r).Sequential ops) :
    (modify c f next).Sequential ops := by
  rintro (e | value)
  · exact h _
  · rintro (e | ⟨⟩)
    · exact h _
    · exact h _

/-- The store is `s`, and children run in the mode of the context that opens them. -/
structure Host.Plain (s : Store V) (e : EngineId) (h : Host V σ) : Prop where
  store : h.world.store = s
  modes : (h.world.engine e).hooks.modeOfChild = none

theorem Host.Plain.pin {s : Store V} {e : EngineId} {h : Host V σ} (hh : h.Plain s e)
    (pinned : List CellId) : Host.Plain s e { h with world.pinned := pinned } :=
  ⟨hh.store, hh.modes⟩

namespace Context

variable [Inhabited V] {s : Store V} {ops : CellId → V → V → V} {x y z y' z' : Context V}
  {e e' : Contribution V} {cell : Cell V}

/-- The child that a body nested in `x` runs on. -/
def inner (x : Context V) : Context V := x.child .nested x.mode x.layers none

/-- `z` stands where `y` does, may write if `y` may, and shows the same of every cell. -/
structure Alike (s : Store V) (ops : CellId → V → V → V) (y z : Context V) : Prop where
  id : z.id = y.id
  engine : z.engine = y.engine
  snapshot : z.snapshot = y.snapshot
  active : z.status = .active
  readOnly : z.mode = .readOnly ↔ y.mode = .readOnly
  lawful : z.Lawful s ops
  seen : ∀ c, SeenAlike (s.cell c) (ops c) y.layers z.layers

theorem Alike.refl (hx : x.Lawful s ops) (ha : x.status = .active) : x.Alike s ops x :=
  ⟨rfl, rfl, rfl, ha, .rfl, hx, fun _ => ⟨rfl, rfl⟩⟩

omit [Inhabited V] in
theorem seenAlike_inner (x : Context V) (op : V → V → V) :
    SeenAlike cell op x.inner.layers x.layers := by
  refine ⟨?_, ?_⟩
  · change writeThrough (x.inner.layer :: x.layers) cell.id = _
    rw [writeThrough_cons]
    rfl
  · exact pendingOn_cons_of_none rfl x.layers op

theorem lawful_inner (x : Context V) : x.inner.Lawful s ops :=
  lawful_child x .nested x.mode x.layers fun _ h => nomatch h

theorem alike_inner (hx : x.Lawful s ops) (ha : x.status = .active) : x.inner.Alike s ops x :=
  ⟨rfl, rfl, rfl, ha, .rfl, hx, fun c => x.seenAlike_inner (ops c)⟩

theorem Alike.inner (h : y.Alike s ops z) : y.inner.Alike s ops z.inner :=
  ⟨h.id, h.engine, h.snapshot, rfl, h.readOnly, z.lawful_inner, fun c => (h.seen c).cons _⟩

/-- Contexts that show the same and take over the same show the same afterwards. -/
theorem Alike.adopted (h : y.Alike s ops z)
    (hassoc : ∀ c u v w, ops c (ops c u v) w = ops c u (ops c v w)) (he : e.Within (s.uniform ops))
    (hly : y.Lawful s ops) (hly' : y'.Lawful s ops) (hlz' : z'.Lawful s ops)
    (hy : y.Adopted e y') (hz : z.Adopted e z') : y'.Alike s ops z' := by
  have hlife : ∀ {β : Type} (f : Life → β), f z.life = f y.life → f z'.life = f y'.life :=
    fun f hf => by rw [hy.life, hz.life, hf]
  refine ⟨hlife Life.id h.id, hlife Life.engine h.engine, hlife Life.snapshot h.snapshot,
    (congrArg Life.status hz.life).trans h.active, ?_, hlz', fun c => ?_⟩
  · rw [hz.mode_iff.1, hy.mode_iff.1, h.readOnly]
  · have hseen : ∀ {u v : Context V}, u.Adopted e v → u.Lawful s ops → v.Lawful s ops →
        SeenAlike (s.cell c) (ops c) (Batch.layers ⟨e, []⟩ u.layers) v.layers :=
      fun huv hu hv => Adopted.seenAlike (b := ⟨e, []⟩) huv hassoc hu hv he c
    have hbelow := (h.seen c).cons (Batch.layer ⟨e, []⟩)
    have hyy := hseen hy hly hly'
    have hzz := hseen hz h.lawful hlz'
    exact ⟨hyy.write.symm.trans (hbelow.write.trans hzz.write),
      hyy.deltas.symm.trans (hbelow.deltas.trans hzz.deltas)⟩

/-! ### What is taken over -/

omit [Inhabited V] in
theorem adopted_read (ha : x.status = .active) (cell : Cell V) :
    x.Adopted (x.glimpse cell) (x.read cell).2 := by
  obtain ⟨y, hadopt, hy⟩ := exists_adopt_of_merges (x := x) (e := x.glimpse cell)
    (fun _ _ _ _ hb => nomatch hb) (fun _ _ _ _ hb => nomatch hb)
    fun h => absurd h Bool.false_ne_true
  rw [read_eq_adopt ha, hadopt]
  exact hy

omit [Inhabited V] in
/-- A read answers the same, and records the same, where the same shows of the cell. -/
theorem read_seen (hy : y.status = .active) (hz : z.status = .active)
    (hsnap : z.snapshot = y.snapshot) (hw : y.writeFor cell.id = z.writeFor cell.id) :
    (z.read cell).1 = (y.read cell).1 ∧ z.glimpse cell = y.glimpse cell := by
  refine ⟨?_, by simp [glimpse, hw, hsnap]⟩
  unfold read valueFor
  simp only [checkActive_eq_ok hy, checkActive_eq_ok hz, writeFor_touch, snapshot_touch, hw, hsnap]
  cases z.writeFor cell.id with
  | some a => cases hv : a.assigned? cell.type <;> simp [hv]
  | none => cases cell.readAt y.snapshot <;> simp

/-- A contribution that comes in one piece is taken over as a whole by every context that accepts
it, if writes are legal where it comes from. -/
theorem exists_adopt_of_alike (h : y.Alike s ops z) (he : e.Within (s.uniform ops))
    (hm : e.hasWrites = true → y.mode ≠ .readOnly) (hz : z.Accepts e) :
    ∃ z', z.adopt e = (.ok (), z') ∧ z.Adopted e z' ∧ z'.Lawful s ops := by
  obtain ⟨z', hadopt, hz'⟩ := exists_adopt h.lawful.within he hz
    fun hw hro => hm hw (h.readOnly.1 hro)
  exact ⟨z', hadopt, hz', h.lawful.adopt he hadopt hz'⟩

omit [Inhabited V] in
/-- A child that took over a contribution hands over the changes in it. -/
theorem Adopted.changes_handed (h : x.inner.Adopted e y) :
    (∀ c, y.handed.writes.get? c = e.writes.get? c) ∧
      (∀ c, y.handed.deltas.get? c = e.deltas.get? c) ∧ y.handed.hasWrites = e.hasWrites := by
  have hshared : y.shared = none := by simpa [inner, child] using h.shared
  have hwrites : ∀ c, y.handed.writes.get? c = e.writes.get? c := fun c => by
    simpa [buffer, hshared, inner, child, handed] using h.writes c
  have hdeltas : ∀ c, y.handed.deltas.get? c = e.deltas.get? c := fun c => by
    simpa [inner, child, handed] using h.deltas c
  have hiff : y.handed.hasWrites = false ↔ e.hasWrites = false := by
    simp only [Contribution.hasWrites_eq_false_iff, hwrites, hdeltas]
  refine ⟨hwrites, hdeltas, ?_⟩
  cases h₁ : y.handed.hasWrites <;> cases h₂ : e.hasWrites <;> simp_all

omit [Inhabited V] in
theorem Adopted.within_handed {D : Discipline V} (h : x.inner.Adopted e y) (he : e.Within D) :
    y.handed.Within D := by
  obtain ⟨hwrites, hdeltas, -⟩ := h.changes_handed
  exact ⟨fun c a ha => he.writes c a (hwrites c ▸ ha), fun c a ha => he.deltas c a (hdeltas c ▸ ha)⟩

omit [Inhabited V] in
/-- What a child takes over and then hands over is taken over. -/
theorem Adopted.of_handed (hy : x.inner.Adopted e y) (hz : x.Adopted y.handed z) :
    x.Adopted e z := by
  obtain ⟨hwrites, hdeltas, hany⟩ := hy.changes_handed
  have hreads : ∀ c, y.reads.get? c = if x.mode.recordsReads then e.reads.get? c else none :=
    fun c => hy.reads c
  have hasked : ∀ c, c ∈ y.asked ↔ c ∈ e.asked := fun c => by
    simpa [inner, child, isChild] using hy.asked c
  refine ⟨hany ▸ hz.allowed, hz.life, hz.enclosing, hany ▸ hz.mode, hz.shared, hz.own,
    fun c => (hz.writes c).trans (by rw [hwrites]), fun c => (hz.deltas c).trans (by rw [hdeltas]),
    fun c => ?_, fun c => ?_⟩
  · rw [hz.reads]
    split
    · next hm => rw [handed, hreads, if_pos hm]
    · rfl
  · rw [hz.asked, ← hasked]
    rfl

end Context

/-! ### What bodies come to -/

namespace Body

open Context

variable [Inhabited V] {s : Store V} {ops : CellId → V → V → V} {x y : Context V}
  {e : Contribution V}

/-- On every context that shows what `y` shows and accepts `e`, the body gives `r` and takes `e`
over. -/
structure Yields (s : Store V) (ops : CellId → V → V → V) (body : Body V σ α) (y : Context V)
    (r : Except Error α) (e : Contribution V) : Prop where
  within : e.Within (s.uniform ops)
  legal : e.hasWrites = true → y.mode ≠ .readOnly
  run : ∀ {z : Context V} {h : Host V σ}, y.Alike s ops z → h.Plain s y.engine → z.Accepts e →
    ∃ z' h', body.run ⟨z, h⟩ = (r, ⟨z', h'⟩) ∧ z.Adopted e z' ∧ z'.Lawful s ops ∧
      h'.Plain s y.engine

/-- A body that gives a result and leaves the context as it is. -/
theorem yields_of_idle {body : Body V σ α} {r : Except Error α}
    (h : ∀ z g, y.Alike s ops z → body.run ⟨z, g⟩ = (r, ⟨z, g⟩)) : body.Yields s ops y r {} where
  within := ⟨WriteSet.all_empty, WriteSet.all_empty⟩
  legal := fun h => nomatch h
  run := fun {z g} hz hg _ => ⟨z, g, h z g hz, .refl z, hz.lawful, hg⟩

/-- A body that takes something over in one piece yields a result and a contribution. -/
theorem yields_of_adopt {body : Body V σ Unit} (he : e.Within (s.uniform ops))
    (h : ∀ z g, y.Alike s ops z → g.Plain s y.engine →
      body.run ⟨z, g⟩ = ((z.adopt e).1, ⟨(z.adopt e).2, g⟩)) :
    ∃ r e, body.Yields s ops y r e := by
  by_cases hm : e.hasWrites = true → y.mode ≠ .readOnly
  · refine ⟨.ok (), e, he, hm, fun {z g} hz hg hacc => ?_⟩
    obtain ⟨z', hadopt, hz', hl⟩ := exists_adopt_of_alike hz he hm hacc
    exact ⟨z', g, by rw [h z g hz hg, hadopt], hz', hl, hg⟩
  · -- where writes are illegal, all contexts refuse alike
    obtain ⟨hw, hro⟩ := Classical.not_imp.1 hm
    refine ⟨.error (.illegal (.writeInReadOnly y.id)), {}, ⟨WriteSet.all_empty, WriteSet.all_empty⟩,
      (fun h => nomatch h), fun {z g} hz hg _ => ⟨z, g, ?_, .refl z, hz.lawful, hg⟩⟩
    have hzm : z.mode = .readOnly := hz.readOnly.2 (Classical.not_not.1 hro)
    have hadopt : z.adopt e = (.error (.illegal (.writeInReadOnly y.id)), z) := by
      simp [Context.adopt, hw, forWriting, hzm, Mode.onWrite, hz.id]
    rw [h z g hz hg, hadopt]

theorem yields_read (hy : y.status = .active) (c : CellId) :
    ∃ r e, (read c : Body V σ V).Yields s ops y r e := by
  refine ⟨(y.read (s.cell c)).1, y.glimpse (s.cell c), ⟨WriteSet.all_empty, WriteSet.all_empty⟩,
    (fun h => nomatch h), fun {z g} hz hg _ => ?_⟩
  obtain ⟨hr, hglimpse⟩ := read_seen hy hz.active hz.snapshot (hz.seen c).write
  refine ⟨(z.read (s.cell c)).2, g, ?_, hglimpse ▸ adopted_read hz.active _,
    hz.lawful.call (.read c), hg⟩
  rw [run_read, hg.store, hr]

theorem yields_get (hy : y.status = .active) (a : Accumulator V) (ha : a.op = ops a.base) :
    ∃ r e, (get a : Body V σ V).Yields s ops y r e := by
  refine ⟨(y.get (s.cell a.base) a.op).1, y.glimpse (s.cell a.base),
    ⟨WriteSet.all_empty, WriteSet.all_empty⟩, (fun h => nomatch h), fun {z g} hz hg _ => ?_⟩
  have hseen := hz.seen a.base
  obtain ⟨hr, hglimpse⟩ := read_seen hy hz.active hz.snapshot hseen.write
  have hget : (z.get (s.cell a.base) a.op).1 = (y.get (s.cell a.base) a.op).1 := by
    rw [fst_get, fst_get, hr, ha, hseen.deltas]
  refine ⟨(z.read (s.cell a.base)).2, g, ?_, hglimpse ▸ adopted_read hz.active _,
    hz.lawful.call (.read a.base), hg⟩
  change ((z.get (g.world.store.cell a.base) a.op).1,
    (⟨(z.get (g.world.store.cell a.base) a.op).2, g⟩ : Session V σ)) = _
  rw [hg.store, snd_get, hget]

theorem yields_write (c : CellId) (value : V) :
    ∃ r e, (write c value : Body V σ Unit).Yields s ops y r e := by
  refine yields_of_adopt
    (e := ⟨∅, [], (∅ : WriteSet V).insert c ⟨c, (s.cell c).type, .assign value⟩, ∅⟩)
    ⟨WriteSet.all_empty.insert ⟨value, rfl⟩, WriteSet.all_empty⟩ fun z g hz hg => ?_
  rw [run_write, hg.store, write_eq_adopt hz.active, Store.id_cell]

theorem yields_put (a : Accumulator V) (ha : a.op = ops a.base) (delta : V) :
    ∃ r e, (put a delta : Body V σ Unit).Yields s ops y r e := by
  refine yields_of_adopt (e := ⟨∅, [], ∅, (∅ : WriteSet V).insert a.base
      ⟨a.base, (s.cell a.base).type, .combine a.op delta⟩⟩)
    ⟨WriteSet.all_empty, WriteSet.all_empty.insert ⟨delta, by rw [ha]⟩⟩ fun z g hz hg => ?_
  change ((z.put (g.world.store.cell a.base) a.op delta).1,
    (⟨(z.put (g.world.store.cell a.base) a.op delta).2, g⟩ : Session V σ)) = _
  rw [hg.store, Context.put, stage_eq_adopt hz.active, Store.id_cell]

omit [Inhabited V] in
/-- A child of `x`, opened on a plain host, runs in the mode of `x`. -/
theorem run_inChild_inner (body : Body V σ α) (x : Context V) {h : Host V σ}
    (hh : h.Plain s x.engine) :
    ∃ g, g.Plain s x.engine ∧ body.inChild x .nested x.layers none h = body.runOn x.inner g := by
  have hmode : ((h.world.engine x.engine).openChild .nested x.mode).1 = x.mode := by
    simp [Engine.openChild, hh.modes]
  refine ⟨(openChild x .nested x.layers none h).2, ⟨hh.store, ?_⟩, ?_⟩
  · simp [openChild, Engine.openChild, hh.modes]
  · unfold inChild openChild Context.inner
    dsimp only
    rw [hmode]

/-- A body that is nested runs on a child, which takes over what the body comes to; if the body
succeeds, what the child hands over is taken over. -/
theorem Yields.run_nested {body : Body V σ α} {r : Except Error α}
    (h : body.Yields s ops y.inner r e) {z : Context V} {g : Host V σ} (hz : y.Alike s ops z)
    (hg : g.Plain s y.engine) :
    ∃ u g', z.inner.Adopted e u ∧ g'.Plain s y.engine ∧ body.nested.run ⟨z, g⟩ =
      match r with
      | .error err => (.error err, ⟨z, g'⟩)
      | .ok a => ((z.adopt u.handed).1.map fun () => a, ⟨(z.adopt u.handed).2, g'⟩) := by
  obtain ⟨g₁, hg₁, hchild⟩ :=
    run_inChild_inner body z (hz.engine ▸ hg.pin (z.holds ++ g.world.pinned))
  obtain ⟨u, g', hbody, hu, -, hg'⟩ :=
    h.run hz.inner (hz.engine ▸ hg₁) fun _ _ hc => nomatch hc
  have hact : u.status = .active := congrArg Life.status hu.life
  have hcheck : z.checkActive = .ok () := by simp [checkActive, isActive, hz.active]
  have hon : body.runOn z.inner g₁ = ((r, u), g') := by
    unfold runOn
    rw [hbody]
  refine ⟨u, { g' with world.pinned := g.world.pinned }, hu, hg'.pin _, ?_⟩
  rw [Body.run_nested]
  simp only [hcheck, Host.pinning, hchild, hon]
  rw [handOver_eq hact]
  cases r <;> rfl

/-- A body that is nested takes over what it takes over on the child, if it succeeds there. -/
theorem Yields.nested {body : Body V σ α} {r : Except Error α}
    (h : body.Yields s ops y.inner r e) : ∃ r e, body.nested.Yields s ops y r e := by
  cases r with
  | error err =>
    refine ⟨.error err, {}, ⟨WriteSet.all_empty, WriteSet.all_empty⟩, (fun h => nomatch h),
      fun {z g} hz hg _ => ?_⟩
    obtain ⟨u, g', -, hg', heq⟩ := h.run_nested hz hg
    exact ⟨z, g', heq, .refl z, hz.lawful, hg'⟩
  | ok a =>
    refine ⟨.ok a, e, h.within, h.legal, fun {z g} hz hg hacc => ?_⟩
    obtain ⟨u, g', hu, hg', heq⟩ := h.run_nested hz hg
    obtain ⟨-, hdeltas, hany⟩ := hu.changes_handed
    obtain ⟨z', hadopt, hz', hl⟩ := exists_adopt_of_alike hz (hu.within_handed h.within)
      (hany ▸ h.legal)
      fun c a ha hc => hacc c a ha (hdeltas c ▸ hc)
    refine ⟨z', g', ?_, hu.of_handed hz', hl, hg'⟩
    rw [heq, hadopt]
    rfl

/-- A body and what comes after it yield a result and a contribution, if both of them do. -/
theorem Yields.attempt_bind {body : Body V σ α} {f : Except Error α → Body V σ β}
    {r : Except Error α} (hassoc : ∀ c u v w, ops c (ops c u v) w = ops c u (ops c v w))
    (hy : y.Within (s.uniform ops)) (hl : y.Lawful s ops) (hact : y.status = .active)
    (h : body.Yields s ops y r e)
    (hf : ∀ y', y'.Within (s.uniform ops) → y'.Lawful s ops → y'.status = .active →
      ∃ r' e', (f r).Yields s ops y' r' e') :
    ∃ r' e', (body.attempt >>= f).Yields s ops y r' e' := by
  -- the context after the body stands for all that show the same as it does
  have hyacc : y.Accepts e := fun c a ha _ value hv => by
    obtain ⟨delta, rfl⟩ := hy.deltas c a ha
    cases hv
  obtain ⟨y', hadopt, hy', hl'⟩ := exists_adopt_of_alike (.refl hl hact) h.within h.legal hyacc
  have hwithin : y'.Within (s.uniform ops) := by
    have hw := hy.adopt h.within
    rwa [hadopt] at hw
  obtain ⟨r', e', hnext⟩ := hf y' hwithin hl' ((congrArg Life.status hy'.life).trans hact)
  obtain ⟨b, hadd, hj⟩ := Batch.exists_add (b := ⟨e, []⟩) h.within hnext.within
  have hb : b.merged.Within (s.uniform ops) := by
    have hw := Batch.within_add (b := ⟨e, []⟩) h.within hnext.within
    rwa [hadd] at hw
  refine ⟨r', b.merged, hb, fun hw => ?_, fun {z g} hz hg hacc => ?_⟩
  · rw [hj.hasWrites] at hw
    rcases Bool.or_eq_true_iff.1 hw with hw | hw
    · exact h.legal hw
    · exact fun hro => hnext.legal hw (hy'.mode_iff.1.2 hro)
  · have hfirst : z.Accepts e := hacc.anti fun c hc => by
      rw [hj.deltas]
      obtain ⟨d, hd⟩ := Option.isSome_iff_exists.1 hc
      rw [hd]
      cases e'.deltas.get? c <;> rfl
    obtain ⟨z', g', hrun, hz', hlz', hg'⟩ := h.run hz hg hfirst
    have halike := hz.adopted hassoc h.within hl hl' hlz' hy' hz'
    have heng : y'.engine = y.engine := congrArg Life.engine hy'.life
    obtain ⟨z'', g'', hrun', hz'', hlz'', hg''⟩ := hnext.run halike (heng ▸ hg')
      (hacc.of_joined hz.lawful (b := ⟨e, []⟩) hz' h.within hj)
    refine ⟨z'', g'', ?_, Adopted.trans (b := ⟨e, []⟩) (fun c u v w => hassoc c u v w)
      hz.lawful.within h.within hnext.within hz' hz'' hj, hlz'', heng ▸ hg''⟩
    rw [run_attempt_bind, hrun]
    exact hrun'

end Body

section

variable [Inhabited V] {s : Store V} {ops : CellId → V → V → V} {x y : Context V}

open Body in
/-- Every sequential program comes to a result and a contribution. -/
theorem Program.Sequential.yields
    (hassoc : ∀ c u v w, ops c (ops c u v) w = ops c u (ops c v w)) :
    (p : Program V R) → p.Sequential ops → ∀ {y : Context V}, y.Within (s.uniform ops) →
      y.Lawful s ops → y.status = .active → ∃ r e, (p.run : Body V σ R).Yields s ops y r e
  | .done _, _, _, _, _, _ => ⟨_, _, yields_of_idle fun _ _ _ => rfl⟩
  | .fail _, _, _, _, _, _ => ⟨_, _, yields_of_idle fun _ _ _ => rfl⟩
  | .read c next, hp, _, hy, hl, ha => by
    obtain ⟨r, e, h⟩ := yields_read ha c
    exact h.attempt_bind hassoc hy hl ha fun _ => yields hassoc (next _) (hp _)
  | .write c value next, hp, _, hy, hl, ha => by
    obtain ⟨r, e, h⟩ := yields_write c value
    exact h.attempt_bind hassoc hy hl ha fun _ => yields hassoc (next _) (hp _)
  | .put a delta next, hp, _, hy, hl, ha => by
    obtain ⟨r, e, h⟩ := yields_put a hp.1 delta
    exact h.attempt_bind hassoc hy hl ha fun _ => yields hassoc (next _) (hp.2 _)
  | .get a next, hp, _, hy, hl, ha => by
    obtain ⟨r, e, h⟩ := yields_get ha a hp.1
    exact h.attempt_bind hassoc hy hl ha fun _ => yields hassoc (next _) (hp.2 _)
  | .nested body next, hp, y, hy, hl, ha => by
    obtain ⟨r, e, hbody⟩ := yields hassoc body hp.1 (y := y.inner)
      (y.within_child _ _ _ fun _ h => nomatch h) y.lawful_inner rfl
    obtain ⟨r, e, h⟩ := hbody.nested
    exact h.attempt_bind hassoc hy hl ha fun _ => yields hassoc (next _) (hp.2 _)

/-- A nested body that succeeds gives what it gives when it is not nested, and leaves the context
holding the same. -/
theorem nested_eq_direct (hassoc : ∀ c u v w, ops c (ops c u v) w = ops c u (ops c v w))
    {p : Program V R} (hp : p.Sequential ops) {h : Host V σ} (hx : x.Lawful h.world.store ops)
    (hmode : (h.world.engine x.engine).hooks.modeOfChild = none) {a : R} {t : Session V σ}
    (hrun : (Body.nested p.run).run ⟨x, h⟩ = (.ok a, t)) :
    ∃ t', p.run.run ⟨x, h⟩ = (.ok a, t') ∧ t'.context.Matches t.context := by
  have hactive : x.status = .active := by
    rw [Body.run_nested] at hrun
    unfold Context.checkActive Context.isActive at hrun
    by_cases ha : x.status = .active
    · exact ha
    · simp only [ha, decide_false, Bool.false_eq_true, if_false] at hrun
      cases hrun
  obtain ⟨r, e, hyields⟩ := Program.Sequential.yields (σ := σ) (s := h.world.store) hassoc p hp
    (y := x.inner) (x.within_child _ _ _ fun _ h => nomatch h) x.lawful_inner rfl
  obtain ⟨u, g, hu, -, heq⟩ := hyields.run_nested (.refl hx hactive) (g := h) ⟨rfl, hmode⟩
  rw [hrun] at heq
  cases r with
  | error err => cases heq
  | ok b =>
    obtain ⟨hres, rfl⟩ := Prod.mk.inj heq
    obtain ⟨⟨⟩, hok, rfl⟩ := map_eq_ok_iff.1 hres.symm
    obtain ⟨-, hdeltas, -⟩ := hu.changes_handed
    have hin := hu.within_handed hyields.within
    have hadopt : x.adopt u.handed = (.ok (), (x.adopt u.handed).2) := Prod.ext hok rfl
    have hacc : x.Accepts e := (Context.accepts_of_adopt hin hadopt).anti fun c hc => by
      rwa [hdeltas]
    obtain ⟨z, g', hdirect, hz, -, -⟩ :=
      hyields.run (Context.alike_inner hx hactive) ⟨rfl, hmode⟩ hacc
    have ht := hu.of_handed (Context.Adopted.of_adopt hx.within hin hadopt)
    exact ⟨_, hdirect, hz.matches ht⟩

/-- A body that puts to an accumulator, and nests another put and a read of it, over a context that
put to the accumulator before. -/
theorem nested_put_get :
    let w : World Nat := ((World.create [Engine.create]).createCell 0 0 0).2
    let x := ((Context.begin ⟨1⟩ 0 ⟨0, 0⟩ .readWrite).put (w.store.cell ⟨1⟩) (· + ·) 1).2
    let a : Accumulator Nat := ⟨⟨1⟩, (· + ·)⟩
    let p : Program Nat Nat := .put a 2 fun _ =>
      .nested (.put a 3 fun _ => .get a fun r => .done (r.toOption.getD 0)) fun r =>
        .done (r.toOption.getD 0)
    let t := ((Body.nested p.run).run ⟨x, w, ()⟩).2
    ∃ t', p.run.run ⟨x, w, ()⟩ = (.ok 6, t') ∧ t'.context.Matches t.context := by
  intro w x a p t
  have hp : p.Sequential fun _ => (· + ·) :=
    ⟨rfl, fun _ => ⟨⟨rfl, fun _ => ⟨rfl, fun _ => trivial⟩⟩, fun _ => trivial⟩⟩
  have hx : x.Lawful w.store fun _ => (· + ·) :=
    (Context.lawful_begin ⟨1⟩ 0 ⟨0, 0⟩ .readWrite).call (.put ⟨1⟩ 1)
  have hrun : (Body.nested p.run).run ⟨x, w, ()⟩ = (.ok 6, t) :=
    eq_of_toOption (by decide +kernel)
  exact nested_eq_direct (h := ⟨w, ()⟩) (fun _ => Nat.add_assoc) hp hx rfl hrun

/-- With two operations on one cell, it makes a difference whether a body is nested, though both
operations are associative: the deltas of the body are combined with each other first when it is
nested, and each with the delta of the context when it is not. -/
theorem nested_ne_direct :
    let w : World Nat := ((World.create [Engine.create]).createCell 0 0 0).2
    let x := ((Context.begin ⟨1⟩ 0 ⟨0, 0⟩ .readWrite).put (w.store.cell ⟨1⟩) (· + ·) 1).2
    let p : Program Nat Unit := .put ⟨⟨1⟩, max⟩ 2 fun _ => .put ⟨⟨1⟩, max⟩ 3 fun _ => .done ()
    ∃ t t', (Body.nested p.run).run ⟨x, w, ()⟩ = (.ok (), t) ∧
      p.run.run ⟨x, w, ()⟩ = (.ok (), t') ∧ ¬ t'.context.Matches t.context := by
  intro w x p
  refine ⟨_, _, eq_of_toOption (by decide +kernel),
    eq_of_toOption (by decide +kernel), fun h => ?_⟩
  have hd := congrArg (Option.bind · (Change.delta? · 0)) (h.deltas ⟨1⟩)
  revert hd
  decide +kernel

end

end VersionedMemory
