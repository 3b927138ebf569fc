import VersionedMemory.Proofs.Nesting

/-!
# Bodies as logs of writes

A slate keeps what a body has done as a log of writes, newest first, over the log of what was
written below it. A read is answered by the newest write to its cell in both logs, and by the
context that lies below them if there is none; a nested body starts a slate of its own over both
logs, and if it succeeds its writes are put before those of the slate around it. There are no
buffers, layers or merges in this. Contexts have all of them, and come to the same, whatever modes
the engine picks for children.

## Main definitions

* `Program.Plain` is a program of reads, writes and nested programs.
* `Program.onSlate` is what such a program comes to on a slate.
* `Context.Carries` says that a context holds what a slate says, beyond what it held at first.
* `Slate.Alike` says that two slates differ in their modes only, and both may write or neither.
* `Slate.Fair` says of a body that it does alike on slates that are alike.
* `EvenHanded` is a choice of modes that treats nested bodies and tasks with shared writes alike.

## Main statements

* `Program.Plain.mirrors`: on every context, a plain program does what it does on a slate.
* `Program.Plain.fair`: where modes are chosen even-handedly, a plain program does the same on
  slates that are alike.
-/

namespace VersionedMemory

variable {V σ α β R : Type}

/-- The program reads, writes and nests programs of this kind, and does nothing else. -/
def Program.Plain : Program V R → Prop
  | .done _ => True
  | .fail _ => True
  | .read _ next => ∀ r, (next r).Plain
  | .write _ _ next => ∀ r, (next r).Plain
  | .nested body next => body.Plain ∧ ∀ r, (next r).Plain
  | .put .. | .get .. | .stage .. | .parallel .. | .aside .. => False

/-- What a body has done so far. -/
structure Slate (V : Type) where
  mode : Mode
  /-- What was written below the body, newest first. -/
  below : List (CellId × V)
  /-- What the body wrote, newest first. -/
  writes : List (CellId × V)
  /-- What the body read from committed state, as far as its mode records that. -/
  reads : ReadSet

namespace Slate

def start (mode : Mode) (below : List (CellId × V)) : Slate V := ⟨mode, below, [], ∅⟩

/-- All writes that the body sees, newest first. -/
def log (d : Slate V) : List (CellId × V) := d.writes ++ d.below

/-- Enter writes and reads at once, unless that takes writes where they are illegal. -/
def take (d : Slate V) (txn : TxnId) (writes : List (CellId × V)) (reads : ReadSet) :
    Except Error Unit × Slate V :=
  if writes ≠ [] ∧ d.mode = .readOnly then (.error (.illegal (.writeInReadOnly txn)), d)
  else (.ok (), { d with
    mode := if writes = [] then d.mode else .readWrite
    writes := writes ++ d.writes
    reads := if d.mode.recordsReads then ReadSet.merge d.reads reads else d.reads })

/-- The newest write to a cell, else what the context `x` below all writes answers. -/
def read (d : Slate V) (x : Context V) (cell : Cell V) : Except Error V × Slate V :=
  match d.log.lookup cell.id with
  | some value => (.ok value, d)
  | none => ((x.read cell).1, (d.take x.id [] (x.glimpse cell).reads).2)

/-- Run a body on a slate of its own and enter what it did, if it succeeds. -/
def nest (d : Slate V) (txn : TxnId) (mode : Mode) (body : Slate V → Except Error α × Slate V) :
    Except Error α × Slate V :=
  match body (start mode d.log) with
  | (.error e, _) => (.error e, d)
  | (.ok a, inner) =>
    ((d.take txn inner.writes inner.reads).1.map fun () => a,
      (d.take txn inner.writes inner.reads).2)

variable {d : Slate V} {txn : TxnId} {writes : List (CellId × V)} {reads : ReadSet}

@[simp] theorem below_take : (d.take txn writes reads).2.below = d.below := by
  unfold take
  split <;> rfl

theorem take_of_readOnly (h : d.mode = .readOnly) : d.take txn writes reads =
    (if writes = [] then .ok () else .error (.illegal (.writeInReadOnly txn)), d) := by
  have hrec : d.mode.recordsReads = false := by simp [Mode.recordsReads, h]
  unfold take
  by_cases hw : writes = []
  · simp [hw, hrec]
  · simp [hw, h]

theorem readOnly_take (d : Slate V) (txn : TxnId) (writes : List (CellId × V)) (reads : ReadSet) :
    (d.take txn writes reads).2.mode = .readOnly ↔ d.mode = .readOnly := by
  by_cases h : d.mode = .readOnly
  · rw [take_of_readOnly h]
  · unfold take
    by_cases hw : writes = [] <;> simp [h, hw]

theorem take_of_ne (h : d.mode ≠ .readOnly) : d.take txn writes reads = (.ok (), { d with
    mode := if writes = [] then d.mode else .readWrite
    writes := writes ++ d.writes
    reads := ReadSet.merge d.reads reads }) := by
  simp [take, h, Mode.recordsReads]

theorem log_take {d₁ : Slate V} (h : d.take txn writes reads = (.ok (), d₁)) :
    d₁.log = writes ++ d.log := by
  unfold take at h
  split at h <;> cases h
  exact List.append_assoc ..

theorem take_nil : d.take txn [] ∅ = (.ok (), d) := by
  have hreads : ReadSet.merge d.reads ∅ = d.reads := rfl
  simp [take, hreads]

@[simp] theorem below_read (x : Context V) (cell : Cell V) : (d.read x cell).2.below = d.below := by
  unfold read
  split
  · rfl
  · exact below_take

theorem nest_of_error {mode : Mode} {body : Slate V → Except Error α × Slate V} {e : Error}
    {inner : Slate V} (h : body (start mode d.log) = (.error e, inner)) :
    d.nest txn mode body = (.error e, d) := by
  unfold nest
  rw [h]

theorem nest_of_ok {mode : Mode} {body : Slate V → Except Error α × Slate V} {a : α}
    {inner : Slate V} (h : body (start mode d.log) = (.ok a, inner)) :
    d.nest txn mode body = ((d.take txn inner.writes inner.reads).1.map fun () => a,
      (d.take txn inner.writes inner.reads).2) := by
  unfold nest
  rw [h]

end Slate

/-- What a plain program comes to on a slate that lies over `x`, where `choose` picks the modes of
children. No other program has a slate. -/
def Program.onSlate [Inhabited V] (s : Store V) (x : Context V) (choose : ChildKind → Mode → Mode) :
    Program V R → Slate V → Except Error R × Slate V
  | .done result, d => (.ok result, d)
  | .fail error, d => (.error error, d)
  | .read c next, d => (next (d.read x (s.cell c)).1).onSlate s x choose (d.read x (s.cell c)).2
  | .write c value next, d =>
    (next (d.take x.id [(c, value)] ∅).1).onSlate s x choose (d.take x.id [(c, value)] ∅).2
  | .nested body next, d =>
    let o := d.nest x.id (choose .nested d.mode) (body.onSlate s x choose)
    (next o.1).onSlate s x choose o.2
  | _, d => (.error (x.giveUp "not a plain program"), d)

/-- The change that the newest write to a cell in a log stands for. -/
def Store.pending [Inhabited V] (s : Store V) (log : List (CellId × V)) (c : CellId) :
    Option (Change V) :=
  (log.lookup c).map fun value => ⟨c, (s.cell c).type, .assign value⟩

/-- The engine of the transaction picks the modes of children by `choose`, over the store `s`. -/
structure Host.Serves (s : Store V) (e : EngineId) (choose : ChildKind → Mode → Mode)
    (h : Host V σ) : Prop where
  store : h.world.store = s
  modes : ∀ kind mode, ((h.world.engine e).openChild kind mode).1 = choose kind mode

theorem Host.Serves.pin {s : Store V} {e : EngineId} {choose : ChildKind → Mode → Mode}
    {h : Host V σ} (hh : h.Serves s e choose) (pinned : List CellId) :
    Host.Serves s e choose { h with world.pinned := pinned } :=
  ⟨hh.store, hh.modes⟩

section

variable [Inhabited V] {s : Store V} {l l' : List (CellId × V)} {c : CellId}

theorem Store.pending_nil : s.pending [] c = none := rfl

theorem Store.pending_singleton (k : CellId) (value : V) : s.pending [(k, value)] c =
    if c = k then some ⟨c, (s.cell c).type, .assign value⟩ else none := by
  unfold pending
  rw [List.lookup_cons]
  split <;> simp_all

theorem Store.pending_append : s.pending (l ++ l') c = (s.pending l c).or (s.pending l' c) := by
  unfold pending
  rw [List.lookup_append]
  cases l.lookup c <;> rfl

theorem Store.pending_eq_none_iff : (∀ c, s.pending l c = none) ↔ l = [] := by
  refine ⟨fun h => ?_, fun h => by simp [h, pending]⟩
  cases l with
  | nil => rfl
  | cons e l => simpa [pending] using h e.1

theorem Store.pending_typed {a : Change V} (h : s.pending l c = some a) :
    ∃ value, a = ⟨c, (s.cell c).type, .assign value⟩ := by
  obtain ⟨value, -, rfl⟩ := Option.map_eq_some_iff.1 h
  exact ⟨value, rfl⟩

end

/-! ### What contexts hold -/

/-- The contribution hands over these writes and reads, and no deltas. -/
structure Contribution.Holds [Inhabited V] (s : Store V) (e : Contribution V)
    (writes : List (CellId × V)) (reads : ReadSet) : Prop where
  writes : ∀ c, e.writes.get? c = s.pending writes c
  deltas : ∀ c, e.deltas.get? c = none
  reads : ∀ c, e.reads.get? c = reads.get? c

namespace Context

variable [Inhabited V] {s : Store V} {x y z : Context V} {d : Slate V} {e : Contribution V}
  {log writes : List (CellId × V)} {reads : ReadSet}

/-- The context stands over `x`, and shows the writes of a log over what `x` shows. What it buffers
assigns values of the types of the cells. -/
structure Overlies (s : Store V) (z x : Context V) (log : List (CellId × V)) : Prop where
  id : z.id = x.id
  engine : z.engine = x.engine
  snapshot : z.snapshot = x.snapshot
  active : z.status = .active
  own : z.shared.isSome = true → z.writes = ∅
  typed : ∀ c a, z.buffer.get? c = some a → ∃ value, a = ⟨c, (s.cell c).type, .assign value⟩
  seen : ∀ c, z.writeFor c = (s.pending log c).or (x.writeFor c)

/-- Beyond what `y` holds, the context holds what the slate says, and it is in the mode of the
slate. -/
structure Carries (s : Store V) (z y : Context V) (d : Slate V) : Prop where
  life : z.life = y.life
  mode : z.mode = d.mode
  enclosing : z.enclosing = y.enclosing
  shared : z.shared.isSome = y.shared.isSome
  own : y.shared.isSome = true → z.writes = y.writes
  writes : ∀ c, z.buffer.get? c = (s.pending d.writes c).or (y.buffer.get? c)
  deltas : ∀ c, z.deltas.get? c = y.deltas.get? c
  reads : ∀ c, z.reads.get? c = (y.reads.get? c).or (d.reads.get? c)

theorem carries_start (y : Context V) (below : List (CellId × V)) :
    y.Carries s y (.start y.mode below) :=
  ⟨rfl, rfl, rfl, rfl, fun _ => rfl, fun _ => rfl, fun _ => rfl, fun _ => by simp [Slate.start]⟩

omit [Inhabited V] in
theorem writeFor_eq (h : z.shared.isSome = true → z.writes = ∅) (c : CellId) :
    z.writeFor c = (z.buffer.get? c).or (writeThrough z.enclosing c) := by
  rw [← write?_layer_of_own h]
  exact writeThrough_cons z.layer z.enclosing c

/-- What a slate says shows over what showed at first. -/
theorem Overlies.carried (hy : y.Overlies s x d.below) (h : z.Carries s y d) :
    z.Overlies s x d.log := by
  have hlife : ∀ {β : Type} (f : Life → β), f z.life = f y.life := fun f => by rw [h.life]
  have hown : z.shared.isSome = true → z.writes = ∅ := fun hz => by
    have hys : y.shared.isSome = true := h.shared ▸ hz
    rw [h.own hys, hy.own hys]
  refine ⟨(hlife Life.id).trans hy.id, (hlife Life.engine).trans hy.engine,
    (hlife Life.snapshot).trans hy.snapshot, (hlife Life.status).trans hy.active, hown,
    fun c a ha => ?_, fun c => ?_⟩
  · rw [h.writes] at ha
    cases hp : s.pending d.writes c with
    | none => exact hy.typed c a (by rwa [hp, Option.none_or] at ha)
    | some b =>
      rw [hp, Option.some_or] at ha
      exact Store.pending_typed (hp.trans ha)
  · rw [writeFor_eq hown, h.writes, h.enclosing, Option.or_assoc, ← writeFor_eq hy.own, hy.seen,
      ← Option.or_assoc, ← Store.pending_append]
    rfl

theorem hasWrites_of_holds (he : e.Holds s writes reads) :
    e.hasWrites = !writes.isEmpty := by
  have hiff : e.hasWrites = false ↔ writes = [] := by
    simp [Contribution.hasWrites_eq_false_iff, he.deltas, he.writes, Store.pending_eq_none_iff]
  cases writes <;> cases h : e.hasWrites <;> simp_all

/-- What a context takes over is entered in its slate; where one refuses the other does. -/
theorem Carries.take (hy : y.Overlies s x d.below) (h : z.Carries s y d)
    (he : e.Holds s writes reads) :
    ∃ z', z.adopt e = ((d.take x.id writes reads).1, z') ∧
      z'.Carries s y (d.take x.id writes reads).2 := by
  have hz := hy.carried h
  have hw := hasWrites_of_holds he
  unfold Slate.take
  split
  · next hro =>
    refine ⟨z, ?_, h⟩
    have hany : e.hasWrites = true := by simp [hw, hro.1]
    simp [adopt, hany, forWriting, h.mode, hro.2, Mode.onWrite, hz.id]
  · next hok =>
    have hold : z.buffer.All (s.uniform fun _ value _ => value).write := hz.typed
    have hnew : e.writes.All (s.uniform fun _ value _ => value).write :=
      fun c a ha => Store.pending_typed ((he.writes c).symm.trans ha)
    obtain ⟨z', hadopt, hz'⟩ := exists_adopt_of_merges (x := z) (e := e)
      (merges_of_writes hold hnew) (fun c _ b _ hb => by rw [he.deltas] at hb; cases hb)
      (fun hany hro => hok ⟨by simpa [hw] using hany, h.mode ▸ hro⟩)
    refine ⟨z', hadopt, hz'.life.trans h.life, ?_, hz'.enclosing.trans h.enclosing,
      hz'.shared.trans h.shared, fun hs => (hz'.own (h.shared.trans hs)).trans (h.own hs),
      fun c => ?_, fun c => ?_, fun c => ?_⟩
    · rw [hz'.mode, hw, h.mode]
      cases writes <;> rfl
    · rw [hz'.writes, he.writes, merge_join_of_assign (hz.typed c) fun _ => Store.pending_typed,
        h.writes, ← Option.or_assoc, ← Store.pending_append]
    · rw [hz'.deltas, he.deltas, h.deltas, Option.merge_none_right]
    · rw [hz'.reads, h.reads, he.reads, h.mode]
      dsimp only
      split
      · rw [ReadSet.get?_merge, Option.or_assoc]
      · rfl

/-- What a child hands over is on its slate, unless its writes went to a shared buffer. -/
theorem Carries.handed {kind : ChildKind} {mode : Mode} {below : List (Layer V)}
    {shared : Option (WriteSet V)} (h : z.Carries s (x.child kind mode below shared) d) :
    z.handed.Holds s (if shared.isSome then [] else d.writes) d.reads := by
  refine ⟨fun c => ?_, h.deltas, fun c => ?_⟩
  · cases shared with
    | none =>
      have hz : z.shared = none := by simpa [child] using h.shared
      have hw := h.writes c
      simp only [buffer, hz, child, Option.getD_none, Table.get?_empty, Option.or_none] at hw
      exact hw
    | some ws =>
      have hw : z.writes = ∅ := h.own rfl
      simp [Context.handed, hw, Store.pending_nil]
  · simpa [child, Context.handed] using h.reads c

end Context

/-! ### What bodies do -/

namespace Context

variable [Inhabited V] {s : Store V} {x z : Context V} {d : Slate V}

/-- A slate answers a read as the context does that shows its log, and records what that records. -/
theorem Overlies.read_eq (ha : x.status = .active)
    (hz : z.Overlies s x d.log) (c : CellId) : d.read x (s.cell c) =
      ((z.read (s.cell c)).1, (d.take x.id [] (z.glimpse (s.cell c)).reads).2) := by
  have hseen := hz.seen c
  unfold Store.pending at hseen
  unfold Slate.read
  rw [Store.id_cell]
  cases hl : d.log.lookup c with
  | some value =>
    have hw : z.writeFor c = some ⟨c, (s.cell c).type, .assign value⟩ := by simpa [hl] using hseen
    have hr : (z.read (s.cell c)).1 = .ok value := by
      simp [read, checkActive_eq_ok hz.active, valueFor, hw, Change.assigned?]
    have hg : (z.glimpse (s.cell c)).reads = ∅ := by simp [glimpse, hw]
    rw [hr, hg, Slate.take_nil]
  | none =>
    have hw : x.writeFor (s.cell c).id = z.writeFor (s.cell c).id := by simpa [hl] using hseen.symm
    obtain ⟨hr, hg⟩ := read_seen ha hz.active hz.snapshot hw
    rw [hr, hg]

end Context

namespace Body

open Context

variable [Inhabited V] {s : Store V} {x : Context V} {choose : ChildKind → Mode → Mode}

/-- On every context that stands over `x`, the body does what `f` does on the slate of the
context. -/
def Mirrors (s : Store V) (x : Context V) (choose : ChildKind → Mode → Mode) (body : Body V σ α)
    (f : Slate V → Except Error α × Slate V) : Prop :=
  ∀ (d : Slate V) (y z : Context V) (h : Host V σ), y.Overlies s x d.below → z.Carries s y d →
    h.Serves s x.engine choose → ∃ z' h', body.run ⟨z, h⟩ = ((f d).1, ⟨z', h'⟩) ∧
      z'.Carries s y (f d).2 ∧ h'.Serves s x.engine choose ∧ (f d).2.below = d.below

theorem mirrors_pure {body : Body V σ α} {r : Except Error α}
    (h : ∀ t : Session V σ, body.run t = (r, t)) : body.Mirrors s x choose fun d => (r, d) :=
  fun _ _ z g _ hz hg => ⟨z, g, h _, hz, hg, rfl⟩

theorem mirrors_read (ha : x.status = .active) (c : CellId) :
    (read c : Body V σ V).Mirrors s x choose fun d => d.read x (s.cell c) := by
  intro d y z g hy hz hg
  have hover := hy.carried hz
  have hholds : (z.glimpse (s.cell c)).Holds s [] (z.glimpse (s.cell c)).reads :=
    ⟨fun _ => rfl, fun _ => rfl, fun _ => rfl⟩
  obtain ⟨z', hadopt, hz'⟩ := hz.take hy hholds
  have hread := hover.read_eq ha c
  refine ⟨z', g, ?_, ?_, hg, Slate.below_read x _⟩
  · rw [run_read, hg.store, read_eq_adopt hover.active, hadopt]
    simp only [hread]
  · simpa only [hread] using hz'

theorem mirrors_write (c : CellId) (value : V) :
    (write c value : Body V σ Unit).Mirrors s x choose fun d => d.take x.id [(c, value)] ∅ := by
  intro d y z g hy hz hg
  have hover := hy.carried hz
  have hholds : Contribution.Holds s
      { writes := (∅ : WriteSet V).insert c ⟨c, (s.cell c).type, .assign value⟩ } [(c, value)] ∅ :=
    ⟨fun k => by by_cases hk : k = c <;> simp [Store.pending_singleton, hk], fun _ => rfl,
      fun _ => rfl⟩
  obtain ⟨z', hadopt, hz'⟩ := hz.take hy hholds
  refine ⟨z', g, ?_, hz', hg, Slate.below_take⟩
  rw [run_write, hg.store, write_eq_adopt hover.active, Store.id_cell, hadopt]

/-- A child of a context that carries a slate starts a slate of its own. -/
theorem Mirrors.inChild {body : Body V σ α} {f : Slate V → Except Error α × Slate V}
    (h : body.Mirrors s x choose f) {z : Context V} {log : List (CellId × V)} (kind : ChildKind)
    (shared : Option (WriteSet V)) {g : Host V σ}
    (hz : ∀ mode, (z.child kind mode z.layers shared).Overlies s x log)
    (hg : g.Serves s x.engine choose) (he : z.engine = x.engine) :
    ∃ u g', body.inChild z kind z.layers shared g =
        (((f (.start (choose kind z.mode) log)).1, u), g') ∧
      u.Carries s (z.child kind (choose kind z.mode) z.layers shared)
        (f (.start (choose kind z.mode) log)).2 ∧ u.status = .active ∧
      g'.Serves s x.engine choose := by
  obtain ⟨g₁, hg₁⟩ : ∃ g₁ : Host V σ, g₁ = (openChild z kind z.layers shared g).2 := ⟨_, rfl⟩
  have hserves : g₁.Serves s x.engine choose := by
    rw [hg₁]
    refine ⟨hg.store, fun kind' mode => ?_⟩
    rw [← hg.modes kind' mode]
    simp [openChild, he, Engine.openChild]
  have hopen : openChild z kind z.layers shared g =
      (z.child kind (choose kind z.mode) z.layers shared, g₁) := by
    rw [hg₁, ← hg.modes kind z.mode, ← he]
    rfl
  obtain ⟨u, g', hrun, hu, hg', -⟩ := h (.start (choose kind z.mode) log) _ _ g₁ (hz _)
    (carries_start _ _) hserves
  refine ⟨u, g', ?_, hu, congrArg Life.status hu.life, hg'⟩
  unfold Body.inChild runOn
  rw [hopen]
  dsimp only
  rw [hrun]

theorem Mirrors.nested {body : Body V σ α} {f : Slate V → Except Error α × Slate V}
    (h : body.Mirrors s x choose f) :
    body.nested.Mirrors s x choose fun d => d.nest x.id (choose .nested d.mode) f := by
  intro d y z g hy hz hg
  have hover := hy.carried hz
  have hinner : ∀ mode, (z.child .nested mode z.layers none).Overlies s x d.log := by
    refine fun mode => ⟨hover.id, hover.engine, hover.snapshot, rfl, fun _ => rfl,
      fun _ _ ha => ?_, fun c => ?_⟩
    · cases ha
    · rw [← hover.seen c]
      exact writeThrough_cons _ z.layers c
  obtain ⟨u, g', hchild, hu, ha, hg'⟩ :=
    h.inChild .nested none hinner (hg.pin (z.holds ++ g.world.pinned)) hover.engine
  have hserves := hg'.pin g.world.pinned
  rw [hz.mode] at hchild hu
  rw [run_nested]
  simp only [checkActive_eq_ok hover.active, Host.pinning, hchild]
  rw [handOver_eq ha]
  rcases hf : f (.start (choose .nested d.mode) d.log) with ⟨err | a, inner⟩
  · rw [Slate.nest_of_error hf]
    exact ⟨z, _, rfl, hz, hserves, rfl⟩
  · rw [hf] at hu
    obtain ⟨z', hadopt, hz'⟩ := hz.take hy hu.handed
    rw [Slate.nest_of_ok hf]
    refine ⟨z', _, ?_, hz', hserves, Slate.below_take⟩
    simp only [Except.map]
    rw [hadopt]
    rfl

theorem Mirrors.attempt_bind {body : Body V σ α} {next : Except Error α → Body V σ β}
    {f : Slate V → Except Error α × Slate V}
    {g : Except Error α → Slate V → Except Error β × Slate V} (h : body.Mirrors s x choose f)
    (hnext : ∀ r, (next r).Mirrors s x choose (g r)) :
    (body.attempt >>= next).Mirrors s x choose fun d => g (f d).1 (f d).2 := by
  intro d y z k hy hz hk
  obtain ⟨z', k', hrun, hz', hk', hbelow⟩ := h d y z k hy hz hk
  obtain ⟨z'', k'', hrun', hz'', hk'', hbelow'⟩ :=
    hnext (f d).1 (f d).2 y z' k' (hbelow ▸ hy) hz' hk'
  refine ⟨z'', k'', ?_, hz'', hk'', hbelow'.trans hbelow⟩
  rw [run_attempt_bind, hrun]
  exact hrun'

end Body

section

variable [Inhabited V] {s : Store V} {x : Context V} {choose : ChildKind → Mode → Mode}

open Body in
/-- On every context that stands over `x`, a plain program does what it does on a slate. -/
theorem Program.Plain.mirrors (ha : x.status = .active) :
    (p : Program V R) → p.Plain → (p.run : Body V σ R).Mirrors s x choose (p.onSlate s x choose)
  | .done _, _ => mirrors_pure fun _ => rfl
  | .fail _, _ => mirrors_pure fun _ => rfl
  | .read c next, hp => (mirrors_read ha c).attempt_bind fun r => mirrors ha (next r) (hp r)
  | .write c value next, hp =>
    (mirrors_write c value).attempt_bind fun r => mirrors ha (next r) (hp r)
  | .nested body next, hp =>
    ((mirrors ha body hp.1).nested).attempt_bind fun r => mirrors ha (next r) (hp.2 r)

end

/-! ### Slates that are alike -/

/-- Whether a nested body, or a task with shared writes, may write depends on whether the context
below it may, and on nothing else. -/
def EvenHanded (choose : ChildKind → Mode → Mode) : Prop :=
  ∀ kind ∈ [.nested, .task .shared], ∀ m m', (m = .readOnly ↔ m' = .readOnly) →
    (choose kind m = .readOnly ↔ choose .nested m' = .readOnly)

namespace Slate

variable {d d' : Slate V} {writes : List (CellId × V)} {reads reads' : ReadSet}

/-- The slates say the same, and may both write or both not. -/
structure Alike (d d' : Slate V) : Prop where
  readOnly : d.mode = .readOnly ↔ d'.mode = .readOnly
  below : d.below = d'.below
  writes : d.writes = d'.writes
  reads : ∀ c, d.reads.get? c = d'.reads.get? c

theorem Alike.refl (d : Slate V) : d.Alike d := ⟨.rfl, rfl, rfl, fun _ => rfl⟩

theorem Alike.symm (h : d.Alike d') : d'.Alike d :=
  ⟨h.readOnly.symm, h.below.symm, h.writes.symm, fun c => (h.reads c).symm⟩

theorem Alike.trans {d'' : Slate V} (h : d.Alike d') (h' : d'.Alike d'') : d.Alike d'' :=
  ⟨h.readOnly.trans h'.readOnly, h.below.trans h'.below, h.writes.trans h'.writes,
    fun c => (h.reads c).trans (h'.reads c)⟩

theorem Alike.log (h : d.Alike d') : d.log = d'.log := by
  rw [Slate.log, Slate.log, h.writes, h.below]

theorem Alike.take (h : d.Alike d') (txn : TxnId) (writes : List (CellId × V))
    (hr : ∀ c, reads.get? c = reads'.get? c) :
    (d.take txn writes reads).1 = (d'.take txn writes reads').1 ∧
      (d.take txn writes reads).2.Alike (d'.take txn writes reads').2 := by
  by_cases hm : d.mode = .readOnly
  · rw [take_of_readOnly hm, take_of_readOnly (h.readOnly.1 hm)]
    exact ⟨rfl, h⟩
  · rw [take_of_ne hm, take_of_ne (mt h.readOnly.2 hm)]
    refine ⟨rfl, ?_, h.below, congrArg (writes ++ ·) h.writes, fun c => ?_⟩
    · dsimp only
      split
      · exact h.readOnly
      · rfl
    · dsimp only
      rw [ReadSet.get?_merge, ReadSet.get?_merge, h.reads, hr]

/-- To enter something and then more is to enter all of it at once. -/
theorem take_take {d₁ : Slate V} {txn : TxnId} (h : d.take txn writes reads = (.ok (), d₁))
    (more : List (CellId × V)) {both : ReadSet}
    (hboth : ∀ c, both.get? c = (reads.get? c).or (reads'.get? c)) :
    let d₂ := d₁.take txn more reads'
    let d₃ := d.take txn (more ++ writes) both
    d₂.1 = d₃.1 ∧ d₂.2.mode = d₃.2.mode ∧ d₂.2.Alike d₃.2 := by
  intro d₂ d₃
  have hro : d₁.mode = .readOnly ↔ d.mode = .readOnly := by
    rw [← readOnly_take d txn writes reads, h]
  by_cases hm : d.mode = .readOnly
  · -- what was entered before was no write, so that nothing has changed
    have heq : d₂ = d₃ := by
      rw [take_of_readOnly hm] at h
      obtain ⟨hw, rfl⟩ := Prod.mk.inj h
      have hnil : writes = [] := Classical.not_not.1 fun hne => by simp [hne] at hw
      simp only [d₂, d₃, take_of_readOnly hm, hnil, List.append_nil]
    rw [heq]
    exact ⟨rfl, rfl, .refl _⟩
  · have hd₂ : d₂ = _ := take_of_ne (mt hro.1 hm)
    have hd₃ : d₃ = _ := take_of_ne hm
    rw [take_of_ne hm] at h
    obtain ⟨-, rfl⟩ := Prod.mk.inj h
    have hmode : d₂.2.mode = d₃.2.mode := by
      by_cases hw : writes = [] <;> by_cases hv : more = [] <;> simp [hd₂, hd₃, hw, hv]
    refine ⟨by rw [hd₂, hd₃], hmode, by rw [hmode], ?_, ?_, fun c => ?_⟩
    · rw [hd₂, hd₃]
    · rw [hd₂, hd₃]
      exact (List.append_assoc ..).symm
    · rw [hd₂, hd₃]
      simp [ReadSet.get?_merge, Option.or_assoc, hboth]

/-- What a body does on slates that are alike is alike. -/
def Fair (f : Slate V → Except Error α × Slate V) : Prop :=
  ∀ d d', d.Alike d' → (f d).1 = (f d').1 ∧ (f d).2.Alike (f d').2

theorem fair_take (txn : TxnId) (writes : List (CellId × V)) (reads : ReadSet) :
    Fair fun d => d.take txn writes reads :=
  fun _ _ h => h.take txn writes fun _ => rfl

theorem fair_read (x : Context V) (cell : Cell V) : Fair fun d => d.read x cell := by
  intro d d' h
  unfold Slate.read
  dsimp only
  rw [h.log]
  split
  · exact ⟨rfl, h⟩
  · exact ⟨rfl, (h.take x.id [] fun _ => rfl).2⟩

theorem Fair.nest {choose : ChildKind → Mode → Mode} (hc : EvenHanded choose)
    {f : Slate V → Except Error α × Slate V} (hf : Fair f) (txn : TxnId) :
    Fair fun d => d.nest txn (choose .nested d.mode) f := by
  intro d d' h
  have hinner := hf (.start (choose .nested d.mode) d.log) (.start (choose .nested d'.mode) d'.log)
    ⟨hc _ List.mem_cons_self _ _ h.readOnly, h.log, rfl, fun _ => rfl⟩
  rcases hd : f (.start (choose .nested d.mode) d.log) with ⟨r, inner⟩
  rcases hd' : f (.start (choose .nested d'.mode) d'.log) with ⟨r', inner'⟩
  rw [hd, hd'] at hinner
  obtain ⟨rfl, hinner⟩ : r = r' ∧ inner.Alike inner' := hinner
  cases r with
  | error e =>
    dsimp only
    rw [nest_of_error hd, nest_of_error hd']
    exact ⟨rfl, h⟩
  | ok a =>
    obtain ⟨htake, halike⟩ := h.take txn inner.writes hinner.reads
    dsimp only
    rw [nest_of_ok hd, nest_of_ok hd', ← hinner.writes, htake]
    exact ⟨rfl, halike⟩

theorem Fair.bind {f : Slate V → Except Error α × Slate V}
    {g : Except Error α → Slate V → Except Error β × Slate V} (hf : Fair f)
    (hg : ∀ r, Fair (g r)) : Fair fun d => g (f d).1 (f d).2 := by
  intro d d' h
  obtain ⟨hres, halike⟩ := hf d d' h
  dsimp only
  rw [hres]
  exact hg _ _ _ halike

end Slate

open Slate in
/-- Where modes are chosen even-handedly, a plain program does the same on slates that are alike. -/
theorem Program.Plain.fair [Inhabited V] {s : Store V} {x : Context V}
    {choose : ChildKind → Mode → Mode} (hc : EvenHanded choose) :
    (p : Program V R) → p.Plain → Fair (p.onSlate s x choose)
  | .done _, _ => fun _ _ h => ⟨rfl, h⟩
  | .fail _, _ => fun _ _ h => ⟨rfl, h⟩
  | .read c next, hp => (fair_read x (s.cell c)).bind fun r => fair hc (next r) (hp r)
  | .write c value next, hp =>
    (fair_take x.id [(c, value)] ∅).bind fun r => fair hc (next r) (hp r)
  | .nested body next, hp =>
    ((fair hc body hp.1).nest hc x.id).bind fun r => fair hc (next r) (hp.2 r)

end VersionedMemory
