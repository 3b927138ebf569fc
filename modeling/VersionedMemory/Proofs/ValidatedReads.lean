import VersionedMemory.Proofs.RunningAlone
import VersionedMemory.Proofs.Recording
import VersionedMemory.Proofs.TraceFaithfulness

/-!
# What a published commit has read

A commit that publishes has found no recorded read superseded. So what was read in any context of
the transaction is still the newest when it publishes, except in contexts that were given up: these
recorded what they read, but their record was given up with them. A call that fails gives up the
contexts that it opened, and a task that runs again gives up what its first run opened.

## Main definitions

* `World.tracing` is a transaction that a traced program ran on, `World.runningAlone` one that a
  program ran on with nobody acting in between.
* `Visit.Newest` says that what was read is the newest committed value.

## Main statements

* `Scene.reads_newest_at_commit`: whatever modes the contexts of a transaction run in, the records
  read in those that record their reads and were not given up are newest at the commit.
* `Scene.published_as_alone`: where nobody chooses these modes, this holds of all contexts that were
  not given up, and a transaction all of whose reads are newest publishes what it would publish
  alone.
-/

namespace VersionedMemory

variable {V R : Type} [Inhabited V]

/-- A transaction that begins in a world, and the host, after a traced program ran on it. -/
def World.tracing (w : World V) (mode : Mode) (p : Program V R) :
    (Except Error R × Context V) × Host V (VisitLog V) :=
  let (x, w) := w.begin sole mode
  p.traced.runOn x ⟨w, {}⟩

/-- A transaction that begins in a world under the given identity, and the host, after a program ran
on it alone. -/
def World.runningAlone (w : World V) (id : TxnId) (mode : Mode) (p : Program V R) :
    (Except Error R × Context V) × Host V Unit :=
  let (x, w) := w.begin sole mode
  p.alone.run.runOn { x with id } ⟨w, ()⟩

/-- What was read of the cell is its newest value. -/
def Visit.Newest (v : Visit V) (s : Store V) : Prop :=
  ∀ r, v.record = some r → (s.cell v.cell).chain.head = r

instance [DecidableEq V] (v : Visit V) (s : Store V) : Decidable (v.Newest s) :=
  inferInstanceAs (Decidable (∀ r ∈ v.record, (s.cell v.cell).chain.head = r))

/-! ### Commits -/

/-- A commit that publishes has found no recorded read superseded. -/
theorem World.superseded?_of_commit {w : World V} {x : Context V} (ha : x.isActive = true)
    (ht : x.isChild = false) {receipt : Receipt} (h : (w.commit x).1 = .ok receipt)
    (hro : receipt.readOnly = false) : x.superseded? w.store = none := by
  have hres := (w.commit_eq ha ht).1
  rw [h] at hres
  rcases ((w.engine x.engine).commit_cases x w.store).2 with ⟨-, hr, -⟩ | ⟨e, hr, -⟩ | ⟨-, hs, -⟩
  · rw [hr] at hres
    cases hres
    cases hro
  · rw [hr] at hres
    cases hres
  · exact hs

/-- What is recorded and not superseded is newest. -/
theorem World.Serves.head_eq_of_recorded {w : World V} {lives : List Life} {past : History V}
    (hw : w.Serves lives past) {x : Context V} {n : Version}
    (hsup : x.superseded? w.store = none) (hb : ReadSet.Below x.reads n) {c : CellId}
    (hc : w.store.Has c) (hrec : x.reads.contains c = true) {r : Record V}
    (hr : newestAt (past c) n = some r) : (w.store.cell c).chain.head = r := by
  obtain ⟨v, hv⟩ := Option.isSome_iff_exists.1 hrec
  have hnone := List.findSome?_eq_none_iff.1 hsup (c, v) (Table.get?_eq_some_iff.1 hv)
  have hle : (w.store.cell c).chain.head.version ≤ v := by
    rw [← hw.recalls.mirrored c]
    simpa using hnone
  rw [(hw.recalls.cells c hc).newestAt_of_head_le (Nat.le_trans hle (hb c v hv))] at hr
  exact Option.some.inj hr

/-- What a commit publishes does not depend on the snapshot, nor on the engine but for its hooks and
its newest version. -/
theorem Engine.commit_shift {g g' : Engine} (hh : g'.hooks = g.hooks) (hv : g'.version = g.version)
    {x : Context V} (hx : x.changes ≠ []) (f : Version → Version) (k : Anchor → Anchor)
    (s : Store V) : ((g'.commit (x.shift f k) s).result, (g'.commit (x.shift f k) s).store) =
      ((g.commit x s).result, (g.commit x s).store) := by
  rw [commit_outcome g' (x := x.shift f k) hx, commit_outcome g hx, publish_outcome,
    publish_outcome, hh, hv]
  rfl

/-- A transaction at another snapshot, in a world of the same cells, hooks and newest version,
publishes the same. -/
theorem World.Resembles.commit {w w' : World V} (h : w'.Resembles w) {x : Context V}
    (he : x.engine = sole) (ha : x.isActive = true) (ht : x.isChild = false) {receipt : Receipt}
    (hc : (w.commit x).1 = .ok receipt) (hro : receipt.readOnly = false) (f : Version → Version)
    (k : Anchor → Anchor) : (w'.commit (x.shift f k)).1 = .ok receipt ∧
      ∀ c, ((w'.commit (x.shift f k)).2.store.cell c).chain.head =
        ((w.commit x).2.store.cell c).chain.head := by
  have hres := (w.commit_eq ha ht).1
  have hres' := (w'.commit_eq (x := x.shift f k) ha ht).1
  have hheads := (World.commit_newest (w := w) ha ht).2.2
  have hheads' := (World.commit_newest (w := w') (x := x.shift f k) ha ht).2.2
  have hx : x.changes ≠ [] := by
    rcases ((w.engine x.engine).commit_cases x w.store).2 with ⟨-, hr, -⟩ | ⟨e, hr, -⟩ | ⟨hx, -⟩
    · rw [hc, hr] at hres
      cases hres
      cases hro
    · rw [hc, hr] at hres
      cases hres
    · exact hx
  have hsame := Engine.commit_shift h.hooks h.version hx f k w.store
  have he' : (x.shift f k).engine = sole := he
  rw [he', h.store] at hres' hheads'
  rw [he] at hres hheads
  obtain ⟨hr, hs⟩ := Prod.mk.inj hsame
  exact ⟨hres'.trans (hr.trans (hres.symm.trans hc)),
    fun c => by rw [hheads', hheads, hs]⟩

/-! ### Transactions -/

namespace Scene

variable {s : Scene V} {mode : Mode} {p : Program V R}

/-- After a traced program ran on a transaction that began in a run, the run goes on, what is noted
is true, and the transaction answers for it. -/
theorem Sound.tracing (hs : s.Sound) (hm : mode ≠ .readOnly) (hp : p.Local) :
    let x := (s.world.begin sole mode).1
    let s₁ := s.next (s.world.begin sole mode).2 (x :: s.running)
    let o := s.world.tracing mode p
    o.1.2.life = x.life ∧ ReadSet.Below o.1.2.reads x.snapshot ∧
      o.1.2.Answers o.2.client.visits ∧ o.2.client.batch = [] ∧
      ∃ past, s₁.Leads ⟨o.2.world, s₁.running, past⟩ ∧
        ∀ v ∈ o.2.client.visits, s₁.Vouches x.snapshot o.2.world past v := by
  intro x s₁ o
  have hs₁ : s₁.Sound := ((Step.begin mode).passes hs).1.serves
  have hrecorded : Recorded _ _ := p.traced_records ⟨x, ⟨s₁.world, {}⟩⟩ (ReadSet.below_empty _)
  obtain ⟨hnew, heq, hans⟩ := hrecorded.visits
  have hx : s₁.Hosts x.snapshot x := ⟨rfl, rfl, fun _ => Mode.recordsReads_of_ne hm⟩
  obtain ⟨-, past, hl, -, hv⟩ := p.traced_noted ⟨x, List.mem_cons_self .., rfl⟩ hp []
    ⟨x, ⟨s₁.world, {}⟩⟩ hx ⟨s₁.past, ⟨hs₁, .refl _ _ _, rfl⟩, .refl _, nofun⟩
  have hlife : o.1.2.life = x.life := by
    have hrun := (p.traced_eq_run x ⟨s₁.world, {}⟩ ⟨s₁.world, ()⟩ rfl).1
    exact (congrArg (fun r => Context.life r.2) hrun.symm).trans (p.life_run _)
  refine ⟨hlife, hrecorded.below, fun v hv => ?_, hrecorded.batch, past, hl, fun v hmem => hv v ?_⟩
  · exact hans v ((congrArg (v ∈ ·) heq).mp hv)
  · exact List.mem_append_right _ (List.mem_append_left _ hmem)

/-- What a transaction that publishes has read, in contexts that record their reads and were not
given up, is newest. -/
theorem Sound.newest_of_commit (hs : s.Sound) (hm : mode ≠ .readOnly) (hp : p.Local)
    {receipt : Receipt}
    (hc : ((s.world.tracing mode p).2.world.commit (s.world.tracing mode p).1.2).1 = .ok receipt)
    (hro : receipt.readOnly = false) {v : Visit V}
    (hv : v ∈ (s.world.tracing mode p).2.client.visits) (hlost : v.lost = false)
    (hmodes : ∀ m ∈ v.modes, m.recordsReads = true) :
    v.Newest (s.world.tracing mode p).2.world.store := by
  intro r hr
  obtain ⟨hlife, hbelow, hans, -, past, hl, hvouch⟩ := hs.tracing hm hp
  obtain ⟨hhas, hnew⟩ := (hvouch v hv).faithful.record r hr
  have hactive : (s.world.tracing mode p).1.2.isActive = true :=
    decide_eq_true (congrArg Life.status hlife)
  have hchild : (s.world.tracing mode p).1.2.isChild = false :=
    congrArg (fun l : Life => l.kind.isSome) hlife
  have hsup := World.superseded?_of_commit hactive hchild hc hro
  exact World.Serves.head_eq_of_recorded hl.sound hsup hbelow hhas
    ((hans v hv).recorded ⟨by rw [hr]; rfl, hmodes, hlost⟩) hnew

/-- If all that a transaction read is newest, its program comes to the same alone, on the same
context at another snapshot. -/
theorem Sound.runningAlone_eq (hs : s.Sound) (hm : mode ≠ .readOnly) (hp : p.Local)
    (hnew : ∀ v ∈ (s.world.tracing mode p).2.client.visits,
      v.type ≠ none ∧ v.Newest (s.world.tracing mode p).2.world.store) :
    let o := s.world.tracing mode p
    let o' := o.2.world.runningAlone o.1.2.id mode p
    o'.1 = (o.1.1, o.1.2.shift (fun _ => (o.2.world.engine sole).version)
        fun _ => (o.2.world.engine sole).timeline.anchor.1) ∧
      o'.2.world.Resembles o.2.world := by
  intro o o'
  obtain ⟨hlife, -, -, hbatch, past, hl, hvouch⟩ := hs.tracing hm hp
  let x := (s.world.begin sole mode).1
  let s₁ := s.next (s.world.begin sole mode).2 (x :: s.running)
  have hs₁ : s₁.Sound := ((Step.begin mode).passes hs).1.serves
  have hhooks : (o.2.world.engine sole).hooks = s₁.engine.hooks := hl.hooks
  have hbehind : ∀ c,
      (o.2.world.store.cell c).chain.head.version ≤ (o.2.world.engine sole).version :=
    hl.sound.recalls.behind
  -- the transaction that begins now is the one that began then, at another snapshot
  let w' := (o.2.world.begin sole mode).2
  let C : Coupling V (VisitLog V) Unit :=
    .later s₁ x.snapshot o.2.world (o.2.world.engine sole).timeline.anchor.1 []
  have hmove : C.move x = { (o.2.world.begin sole mode).1 with id := o.1.2.id } := by
    have hid : o.1.2.id = x.id := congrArg Life.id hlife
    rw [hid]
    rfl
  have ho' : o' = p.alone.run.runOn (C.move x) ⟨w', ()⟩ := by
    rw [hmove]
    rfl
  have hresembles : w'.Resembles o.2.world :=
    World.Resembles.setEngine ⟨rfl, rfl, rfl⟩ rfl rfl
  have hrel : C.Rel ⟨s₁.world, {}⟩ ⟨w', ()⟩ := ⟨hs₁.continues, hresembles⟩
  have hbodies := p.alone_bodies (τ := Unit) (n := x.snapshot)
    (a := (o.2.world.engine sole).timeline.anchor.1) ⟨x, List.mem_cons_self .., rfl⟩ hbehind hhooks
    hp []
  rcases hbodies.agree (x := x) ⟨rfl, rfl⟩ hrel with ⟨v, hv, hcur⟩ | ⟨heq, -, hend⟩
  · -- no visit is apart from what is found in the end
    have hmem : v ∈ o.2.client.visits := by
      have hall : o.2.client.all = o.2.client.visits := by
        rw [VisitLog.all, show o.2.client.batch = [] from hbatch]
        exact List.append_nil _
      exact hall ▸ hv
    obtain ⟨htype, hnewest⟩ := hnew v hmem
    obtain ⟨t, ht⟩ := Option.ne_none_iff_exists'.1 htype
    obtain ⟨-, hcell⟩ := (hvouch v hmem).faithful.type t ht
    exact absurd ⟨ht.trans (congrArg some hcell.symm), hnewest⟩ hcur
  · rw [← ho'] at heq hend
    exact ⟨heq, hend⟩

/-- The transaction publishes alone what it publishes, if all that it read is newest. -/
theorem Sound.runningAlone (hs : s.Sound) (hm : mode ≠ .readOnly) (hp : p.Local) {receipt : Receipt}
    (hc : ((s.world.tracing mode p).2.world.commit (s.world.tracing mode p).1.2).1 = .ok receipt)
    (hro : receipt.readOnly = false)
    (hnew : ∀ v ∈ (s.world.tracing mode p).2.client.visits,
      v.type ≠ none ∧ v.Newest (s.world.tracing mode p).2.world.store) :
    let o := s.world.tracing mode p
    let o' := o.2.world.runningAlone o.1.2.id mode p
    o'.1.1 = o.1.1 ∧ (o'.2.world.commit o'.1.2).1 = .ok receipt ∧
      ∀ c, ((o'.2.world.commit o'.1.2).2.store.cell c).chain.head =
        ((o.2.world.commit o.1.2).2.store.cell c).chain.head := by
  intro o o'
  have hlife := (hs.tracing hm hp).1
  obtain ⟨heq, hresembles⟩ := hs.runningAlone_eq hm hp hnew
  have hengine : o.1.2.engine = sole := congrArg Life.engine hlife
  have hactive : o.1.2.isActive = true := decide_eq_true (congrArg Life.status hlife)
  have hchild : o.1.2.isChild = false := congrArg (fun l : Life => l.kind.isSome) hlife
  have hresult : o'.1.1 = o.1.1 := (Prod.ext_iff.1 heq).1
  have hcontext : o'.1.2 = o.1.2.shift (fun _ => (o.2.world.engine sole).version)
      fun _ => (o.2.world.engine sole).timeline.anchor.1 := (Prod.ext_iff.1 heq).2
  rw [hcontext]
  exact ⟨hresult, hresembles.commit hengine hactive hchild hc hro _ _⟩

/-! ### Main results -/

/-- A scene of one engine, with cells that hold 0. -/
def zeros (hooks : Hooks) : Nat → Scene Nat
  | 0 => .start {} hooks
  | n + 1 => let s := zeros hooks n; s.next (s.world.createCell sole 0 0).2 s.running

theorem reachable_zeros (hooks : Hooks) (n : Nat) : (zeros hooks n).Reachable := by
  refine ⟨{}, hooks, ?_⟩
  induction n with
  | zero => exact .refl
  | succ n ih => exact .tail ih (.create 0 0)

/-- Reads are validated whatever modes the contexts of a transaction run in, as long as these modes
record reads. If the commit of a transaction publishes, every record that a context of it read from
the committed ones is the newest of its cell at the commit, unless the context, or one that it was
opened in, runs in the mode that records no reads or was given up: its call failed, or it belongs to
the first run of a task that ran again. -/
theorem reads_newest_at_commit (hs : s.Reachable) (hm : mode ≠ .readOnly) (hp : p.Local)
    {receipt : Receipt} :
    let o := s.world.tracing mode p
    (o.2.world.commit o.1.2).1 = .ok receipt → receipt.readOnly = false →
      ∀ v ∈ o.2.client.visits, v.lost = false → (∀ m ∈ v.modes, m ≠ .readOnly) →
        ∀ r, v.record = some r → (o.2.world.store.cell v.cell).chain.head = r :=
  fun hc hro _ hv hlost hmodes r hr => hs.sound.newest_of_commit hm hp hc hro hv hlost
    (fun m hmem => Mode.recordsReads_of_ne (hmodes m hmem)) r hr

/-- Where all children run speculatively, a read in a child is validated. -/
theorem read_newest_in_speculative_child :
    let s := zeros { modeOfChild := some fun _ _ => .speculative } 3
    let p : Program Nat Unit := .nested (.read ⟨1⟩ fun _ => .done ()) fun _ =>
      .aside (.atomically sole .readWrite (.write ⟨3⟩ 1 fun _ => .done ()))
        (.write ⟨2⟩ 1 fun _ => .done ())
    let o := s.world.tracing .readWrite p
    let v : Visit Nat := ⟨⟨1⟩, true, some 0, some ⟨0, 0⟩, [.readWrite, .speculative], false⟩
    (o.2.world.commit o.1.2).1 = .ok ⟨⟨1⟩, 2, 1, false⟩ ∧ v ∈ o.2.client.visits ∧
      (o.2.world.store.cell ⟨1⟩).chain.head = ⟨0, 0⟩ := by
  intro s p o v
  have hp : p.Local := ⟨fun _ => trivial, fun _ => ⟨⟨rfl, fun _ => trivial⟩, fun _ => trivial⟩⟩
  have hc : (o.2.world.commit o.1.2).1 = .ok ⟨⟨1⟩, 2, 1, false⟩ :=
    ok_of_toOption (by decide +kernel)
  have hv : v ∈ o.2.client.visits := by decide +kernel
  have hs : s.Reachable := reachable_zeros _ 3
  have hm : Mode.readWrite ≠ .readOnly := by decide
  have hmodes : ∀ m ∈ v.modes, m ≠ .readOnly := by decide
  refine ⟨hc, hv, ?_⟩
  -- all that has to be computed is settled
  clear_value s p
  exact reads_newest_at_commit hs hm hp hc rfl v hv rfl hmodes ⟨0, 0⟩ rfl

/-- A commit may publish what was computed from a value that is not the newest any more, where the
value was read in a child that records no reads, or in the first run of a task that ran again. Here
every call succeeds; the child finds 0 in the first cell, and the update that is committed after it
is overwritten. -/
theorem unrecorded_read_not_newest :
    let s := zeros { modeOfChild := some fun kind mode =>
      if kind = .nested then .readOnly else mode } 4
    let p : Program Nat Unit := .nested (.read ⟨1⟩ fun _ => .done ()) fun _ =>
      .write ⟨1⟩ 1 fun _ =>
        .parallel 2 (fun _ => .checked)
          (fun i => if i = 0 then .write ⟨3⟩ 1 fun _ => .done () else
            .read ⟨3⟩ fun r =>
              if r.toOption = some 0 then .read ⟨4⟩ fun _ => .done () else .done ()) fun _ =>
            .aside (.atomically sole .readWrite (.read ⟨1⟩ fun r =>
              .write ⟨1⟩ (r.toOption.getD 0 + 1) fun _ => .write ⟨4⟩ 1 fun _ => .done ()))
                (.done ())
    let o := s.world.tracing .readWrite p
    let child : Visit Nat := ⟨⟨1⟩, true, some 0, some ⟨0, 0⟩, [.readWrite, .readOnly], false⟩
    let replaced : Visit Nat := ⟨⟨4⟩, true, some 0, some ⟨0, 0⟩, [.readWrite, .readWrite], true⟩
    (o.2.world.commit o.1.2).1.toOption = some ⟨⟨1⟩, 2, 2, false⟩ ∧
      ((o.2.world.commit o.1.2).2.store.cell ⟨1⟩).value = 1 ∧
      (child ∈ o.2.client.visits ∧ ¬ child.Newest o.2.world.store) ∧
      (replaced ∈ o.2.client.visits ∧ ¬ replaced.Newest o.2.world.store) := by
  decide +kernel

/-- Reads are validated in whatever context they were made, where children run in the modes that
they were opened in. If the commit of a transaction publishes, every record that a context of it
read from the committed ones is the newest of its cell at the commit, unless the context, or one
that it was opened in, was given up. If what was read in those is the newest as well, and there is
no access to a cell that was not created, then the transaction has done what it does in a serial
execution, in which it begins when it commits and nobody acts in between: it comes to the same
result, is given the same receipt, and leaves every cell with the same newest record. -/
theorem published_as_alone (hs : s.Reachable) (hd : s.engine.hooks.modeOfChild = none)
    (hm : mode ≠ .readOnly) (hp : p.Local) {receipt : Receipt} :
    let o := s.world.tracing mode p
    (o.2.world.commit o.1.2).1 = .ok receipt → receipt.readOnly = false →
      (∀ v ∈ o.2.client.visits, v.lost = false → v.Newest o.2.world.store) ∧
        ((∀ v ∈ o.2.client.visits, v.type ≠ none ∧ (v.lost = true → v.Newest o.2.world.store)) →
          let o' := o.2.world.runningAlone o.1.2.id mode p
          o'.1.1 = o.1.1 ∧ (o'.2.world.commit o'.1.2).1 = .ok receipt ∧
            ∀ c, ((o'.2.world.commit o'.1.2).2.store.cell c).chain.head =
              ((o.2.world.commit o.1.2).2.store.cell c).chain.head) := by
  intro o hc hro
  obtain ⟨-, -, -, -, past, hl, hvouch⟩ := hs.sound.tracing hm hp
  have hbegin : (s.next (s.world.begin sole mode).2
      ((s.world.begin sole mode).1 :: s.running)).engine.hooks = s.engine.hooks :=
    (Step.begin mode).hooks_eq
  have hkept : ∀ v ∈ o.2.client.visits, v.lost = false → v.Newest o.2.world.store :=
    fun v hv hlost => hs.sound.newest_of_commit hm hp hc hro hv hlost
      ((hvouch v hv).records ((congrArg Hooks.modeOfChild hbegin).trans hd))
  refine ⟨hkept, fun hall => hs.sound.runningAlone hm hp hc hro fun v hv => ?_⟩
  obtain ⟨htype, hlost⟩ := hall v hv
  refine ⟨htype, ?_⟩
  cases hl : v.lost with
  | false => exact hkept v hv hl
  | true => exact hlost hl

/-- A transaction goes on after a child of it failed, while somebody else commits to another cell:
it publishes what it publishes alone. -/
theorem published_as_alone_after_failed_child :
    let s := zeros {} 3
    let p : Program Nat Unit :=
      .nested (.read ⟨1⟩ fun _ => .fail (.aborted ⟨1⟩ "empty")) fun r =>
        .aside (.atomically sole .readWrite (.write ⟨3⟩ 1 fun _ => .done ()))
          (.write ⟨2⟩ (if r.isOk then 9 else 7) fun _ => .done ())
    let o := s.world.tracing .readWrite p
    let o' := o.2.world.runningAlone ⟨1⟩ .readWrite p
    ((∃ v ∈ o.2.client.visits, v.lost = true) ∧
        (o.2.world.commit o.1.2).1 = .ok ⟨⟨1⟩, 2, 1, false⟩) ∧
      o'.1.1 = o.1.1 ∧ (o'.2.world.commit o'.1.2).1 = .ok ⟨⟨1⟩, 2, 1, false⟩ ∧
      ∀ c, ((o'.2.world.commit o'.1.2).2.store.cell c).chain.head =
        ((o.2.world.commit o.1.2).2.store.cell c).chain.head := by
  intro s p o o'
  have hp : p.Local := ⟨fun _ => trivial, fun _ => ⟨⟨rfl, fun _ => trivial⟩, fun _ => trivial⟩⟩
  have hc : (o.2.world.commit o.1.2).1 = .ok ⟨⟨1⟩, 2, 1, false⟩ :=
    ok_of_toOption (by decide +kernel)
  have hid : o.1.2.id = ⟨1⟩ := by decide +kernel
  have hs : s.Reachable := reachable_zeros {} 3
  have hm : Mode.readWrite ≠ .readOnly := by decide
  have hlost : ∃ v ∈ o.2.client.visits, v.lost = true := by decide +kernel
  have hnew : ∀ v ∈ o.2.client.visits,
      v.type ≠ none ∧ (v.lost = true → v.Newest o.2.world.store) := by decide +kernel
  have hd : s.engine.hooks.modeOfChild = none := rfl
  refine ⟨⟨hlost, hc⟩, ?_⟩
  -- all that has to be computed is settled
  clear_value s p
  have h := (published_as_alone hs hd hm hp hc rfl).2 hnew
  rwa [hid] at h

/-- A commit may publish what was computed from a value that is not the newest any more, where the
value was read in a child that failed, or in the first run of a task that ran again. Here the child
fails because it finds 0 in the first cell; alone, the transaction finds 1 there and publishes 9. -/
theorem lost_read_not_newest :
    let s := zeros {} 4
    let p : Program Nat Unit :=
      .write ⟨2⟩ 7 fun _ =>
        .nested (.read ⟨1⟩ fun r =>
          if r.toOption = some 0 then .fail (.aborted ⟨1⟩ "empty") else .done ()) fun r =>
        .write ⟨2⟩ (if r.isOk then 9 else 7) fun _ =>
          .parallel 2 (fun _ => .checked)
            (fun i => if i = 0 then .write ⟨3⟩ 1 fun _ => .done () else
              .read ⟨3⟩ fun r =>
                if r.toOption = some 0 then .read ⟨4⟩ fun _ => .done () else .done ()) fun _ =>
              .aside (.atomically sole .readWrite
                (.write ⟨1⟩ 1 fun _ => .write ⟨4⟩ 1 fun _ => .done ())) (.done ())
    let o := s.world.tracing .readWrite p
    let o' := o.2.world.runningAlone ⟨1⟩ .readWrite p
    let failed : Visit Nat := ⟨⟨1⟩, true, some 0, some ⟨0, 0⟩, [.readWrite, .readWrite], true⟩
    let replaced : Visit Nat := ⟨⟨4⟩, true, some 0, some ⟨0, 0⟩, [.readWrite, .readWrite], true⟩
    (o.2.world.commit o.1.2).1.toOption = some ⟨⟨1⟩, 2, 2, false⟩ ∧
      ((o.2.world.commit o.1.2).2.store.cell ⟨2⟩).value = 7 ∧
      ((o'.2.world.commit o'.1.2).2.store.cell ⟨2⟩).value = 9 ∧
      (failed ∈ o.2.client.visits ∧ ¬ failed.Newest o.2.world.store) ∧
      (replaced ∈ o.2.client.visits ∧ ¬ replaced.Newest o.2.world.store) := by
  decide +kernel

end Scene

end VersionedMemory
