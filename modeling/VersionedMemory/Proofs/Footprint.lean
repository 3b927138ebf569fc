import VersionedMemory.Proofs.Stacks

/-!
# What a program sees of the buffers below it

A program that only reads, writes, puts and gets sees of the contexts below its own no more than the
pending write and the pending deltas of the cells that it asks for. So it does the same over any two
stacks of buffers that show the same of these cells.

## Main definitions

* `Program.Flat` is a program of reads, writes, puts and gets, in which the deltas of one cell are
  combined by one operation.
* `Program.outcome` is what it comes to, and `Context.Call` is one of its accesses.

## Main statements

* `Program.Flat.outcome_keeps`: what every access keeps, a program keeps.
* `Program.Flat.outcome_atop`: a program does the same over two stacks of buffers that show the same
  of every cell that it asked for.
-/

namespace VersionedMemory

variable {V σ R : Type}

/-! ### Flat programs -/

/-- The program reads, writes, puts and gets, and does nothing else. The deltas for a cell are
combined by the operation that belongs to the cell. -/
def Program.Flat (ops : CellId → V → V → V) : Program V R → Prop
  | .done _ => True
  | .fail _ => True
  | .read _ next => ∀ r, (next r).Flat ops
  | .write _ _ next => ∀ r, (next r).Flat ops
  | .put a _ next => a.op = ops a.base ∧ ∀ r, (next r).Flat ops
  | .get a next => a.op = ops a.base ∧ ∀ r, (next r).Flat ops
  | .stage .. => False
  | .nested .. => False
  | .parallel .. => False
  | .aside .. => False

/-- Read a cell and write `f` of what was read, as `Body.modify` does. -/
def Program.modify (c : CellId) (f : V → V) (next : Except Error V → Program V R) : Program V R :=
  .read c fun
    | .error e => next (.error e)
    | .ok value => .write c (f value) fun
      | .error e => next (.error e)
      | .ok () => next (.ok (f value))

theorem Program.flat_modify {ops : CellId → V → V → V} {c : CellId} {f : V → V}
    {next : Except Error V → Program V R} (h : ∀ r, (next r).Flat ops) :
    (modify c f next).Flat ops := by
  rintro (e | value)
  · exact h _
  · rintro (e | ⟨⟩)
    · exact h _
    · exact h _

variable [Inhabited V] {s : Store V} {ops : CellId → V → V → V}

/-- `Program.modify` stands for the body that goes on from `Body.modify` as `next` says. -/
theorem Program.run_modify (c : CellId) (f : V → V) (next : Except Error V → Program V R)
    (t : Session V σ) : (modify c f next).run.run t =
      (do (next (← Body.attempt (Body.modify c f))).run : Body V σ R).run t := by
  obtain ⟨x, h⟩ := t
  change (Body.attempt (Body.read c) >>= fun r => Program.run (match r with
    | .error e => next (.error e)
    | .ok value => .write c (f value) fun
      | .error e => next (.error e)
      | .ok () => next (.ok (f value))) : Body V σ R).run ⟨x, h⟩ = _
  rw [Body.run_attempt_bind, Body.run_attempt_bind, Body.modify, Body.run_bind,
    Body.run_read]
  rcases x.read (h.world.store.cell c) with ⟨e | value, y⟩
  · rfl
  · dsimp only
    change (Body.attempt (Body.write c (f value)) >>= fun r => Program.run (match r with
      | .error e => next (.error e)
      | .ok () => next (.ok (f value))) : Body V σ R).run ⟨y, h⟩ = _
    rw [Body.run_attempt_bind, Body.run_bind, Body.run_write]
    rcases y.write (h.world.store.cell c) (f value) with ⟨e | ⟨⟩, z⟩ <;> rfl

/-- Changes of the types of the cells of a store, and of the operations that belong to them. -/
abbrev Store.uniform (s : Store V) (ops : CellId → V → V → V) : Discipline V :=
  .uniform (fun c => (s.cell c).type) ops

/-- Changes of the types of the cells of a store and of their operations, and changes staged by hand
beside them. -/
abbrev Store.mixed (s : Store V) (ops : CellId → V → V → V) : Discipline V :=
  .mixed (fun c => (s.cell c).type) ops

/-- The accesses of flat programs. -/
inductive Context.Call (s : Store V) (ops : CellId → V → V → V) :
    {α : Type} → (Context V → Except Error α × Context V) → Prop
  | read (c : CellId) : Call s ops fun x => x.read (s.cell c)
  | get (c : CellId) : Call s ops fun x => x.get (s.cell c) (ops c)
  | write (c : CellId) (value : V) : Call s ops fun x => x.write (s.cell c) value
  | put (c : CellId) (delta : V) : Call s ops fun x => x.put (s.cell c) (ops c) delta

namespace Context

variable {α : Type} {f : Context V → Except Error α × Context V} {x : Context V}

/-- A call changes what is recorded of reads, or what is buffered, and that only where writes are
legal. -/
theorem Call.changes (h : Call s ops f) (x : Context V) :
    (∃ reads asked, x.asked ⊆ asked ∧ (f x).2 = { x with reads, asked }) ∨
      x.mode ≠ .readOnly ∧ ∃ writes shared deltas,
        (f x).2 = { x with mode := .readWrite, writes, shared, deltas } := by
  cases h with
  | read c => exact .inl (x.read_changes _)
  | get c =>
    rw [snd_get]
    exact .inl (x.read_changes _)
  | write c value =>
    rcases x.write_changes (s.cell c) value with hx | ⟨hm, _, _, -, -, hx⟩
    · exact .inl ⟨x.reads, x.asked, fun _ h => h, hx⟩
    · exact .inr ⟨hm, _, _, _, hx⟩
  | put c delta =>
    rcases x.stage_changes (s.cell c).id _ with hx | ⟨hm, _, hx⟩
    · exact .inl ⟨x.reads, x.asked, fun _ h => h, hx⟩
    · exact .inr ⟨hm, _, _, _, hx⟩

/-- No call changes where a context stands, what lies below it, or what it asked for so far. -/
theorem Call.frame (h : Call s ops f) (x : Context V) :
    (f x).2.life = x.life ∧ (f x).2.enclosing = x.enclosing ∧ x.asked ⊆ (f x).2.asked ∧
      ((f x).2.mode = .readOnly ↔ x.mode = .readOnly) := by
  rcases h.changes x with ⟨_, _, hsub, hx⟩ | ⟨hm, _, _, _, hx⟩
  · rw [hx]
    exact ⟨rfl, rfl, hsub, .rfl⟩
  · rw [hx]
    exact ⟨rfl, rfl, fun _ h => h, by simp [hm]⟩

/-- A call keeps to a discipline that allows what belongs to a cell. -/
theorem Call.within {D : Discipline V} (h : Call s ops f)
    (hw : ∀ c value, D.write c ⟨c, (s.cell c).type, .assign value⟩)
    (hd : ∀ c delta, D.delta c ⟨c, (s.cell c).type, .combine (ops c) delta⟩) (hx : x.Within D) :
    (f x).2.Within D := by
  cases h with
  | read c => exact hx.read _
  | get c => exact hx.get _ _
  | write c value => exact hx.write (by simpa using hw c value)
  | put c delta => exact hx.stage (by simpa using hd c delta)

end Context

namespace Program

/-- What a program that touches nothing but its context comes to over a store. -/
def outcome (p : Program V R) (s : Store V) (x : Context V) : Except Error R × Context V :=
  (p.run.runOn x ⟨{ World.create [] with store := s }, ()⟩).1

theorem outcome_read (c : CellId) (next : Except Error V → Program V R) (x : Context V) :
    (read c next).outcome s x =
      (next (x.read (s.cell c)).1).outcome s (x.read (s.cell c)).2 := rfl

theorem outcome_write (c : CellId) (value : V) (next : Except Error Unit → Program V R)
    (x : Context V) : (write c value next).outcome s x =
      (next (x.write (s.cell c) value).1).outcome s (x.write (s.cell c) value).2 := rfl

theorem outcome_put (a : Accumulator V) (delta : V) (next : Except Error Unit → Program V R)
    (x : Context V) : (put a delta next).outcome s x =
      (next (x.put (s.cell a.base) a.op delta).1).outcome s
        (x.put (s.cell a.base) a.op delta).2 := rfl

theorem outcome_get (a : Accumulator V) (next : Except Error V → Program V R) (x : Context V) :
    (get a next).outcome s x =
      (next (x.get (s.cell a.base) a.op).1).outcome s (x.get (s.cell a.base) a.op).2 := rfl

/-- A flat program touches nothing but its context. -/
theorem Flat.runOn_eq : (p : Program V R) → p.Flat ops → ∀ (x : Context V) (h : Host V σ),
    p.run.runOn x h = (p.outcome h.world.store x, h)
  | .done _, _, _, _ => rfl
  | .fail _, _, _, _ => rfl
  | .read c next, hp, x, h =>
    runOn_eq (next (x.read (h.world.store.cell c)).1) (hp _) (x.read (h.world.store.cell c)).2 h
  | .write c value next, hp, x, h =>
    runOn_eq (next (x.write (h.world.store.cell c) value).1) (hp _)
      (x.write (h.world.store.cell c) value).2 h
  | .put a delta next, hp, x, h =>
    runOn_eq (next (x.put (h.world.store.cell a.base) a.op delta).1) (hp.2 _)
      (x.put (h.world.store.cell a.base) a.op delta).2 h
  | .get a next, hp, x, h =>
    runOn_eq (next (x.get (h.world.store.cell a.base) a.op).1) (hp.2 _)
      (x.get (h.world.store.cell a.base) a.op).2 h

/-- What every access keeps is kept by a flat program. -/
theorem Flat.outcome_keeps {K : Context V → Prop}
    (hK : ∀ {α : Type} {f : Context V → Except Error α × Context V} {x : Context V},
      Context.Call s ops f → K x → K (f x).2) :
    (p : Program V R) → p.Flat ops → ∀ {x : Context V}, K x → K (p.outcome s x).2
  | .done _, _, _, hx => hx
  | .fail _, _, _, hx => hx
  | .read c next, hp, _, hx => outcome_keeps hK (next _) (hp _) (hK (.read c) hx)
  | .write c value next, hp, _, hx => outcome_keeps hK (next _) (hp _) (hK (.write c value) hx)
  | .put a delta next, hp, x, hx => by
    have hx' := hK (.put a.base delta) hx
    rw [← hp.1] at hx'
    exact outcome_keeps hK (next _) (hp.2 _) hx'
  | .get a next, hp, x, hx => by
    have hx' := hK (.get a.base) hx
    rw [← hp.1] at hx'
    exact outcome_keeps hK (next _) (hp.2 _) hx'

/-- Where every access gives the same answer on two related contexts and leaves them related, a flat
program does, unless `S` comes to hold of the first of them. -/
theorem Flat.outcome_rel {Q : Context V → Context V → Prop} {S : Context V → Prop}
    (hS : ∀ {α : Type} {f : Context V → Except Error α × Context V} {x : Context V},
      Context.Call s ops f → S x → S (f x).2)
    (hQ : ∀ {α : Type} {f : Context V → Except Error α × Context V} {x y : Context V},
      Context.Call s ops f → Q x y → S (f x).2 ∨ (f y).1 = (f x).1 ∧ Q (f x).2 (f y).2) :
    (p : Program V R) → p.Flat ops → ∀ {x y : Context V}, Q x y → S (p.outcome s x).2 ∨
      (p.outcome s y).1 = (p.outcome s x).1 ∧ Q (p.outcome s x).2 (p.outcome s y).2
  | .done _, _, _, _, hxy => .inr ⟨rfl, hxy⟩
  | .fail _, _, _, _, hxy => .inr ⟨rfl, hxy⟩
  | .read c next, hp, x, y, hxy => by
    rcases hQ (.read c) hxy with hs | ⟨ha, hxy'⟩
    · exact .inl (outcome_keeps hS (next _) (hp _) hs)
    · rw [outcome_read, outcome_read, ha]
      exact outcome_rel hS hQ (next _) (hp _) hxy'
  | .write c value next, hp, x, y, hxy => by
    rcases hQ (.write c value) hxy with hs | ⟨ha, hxy'⟩
    · exact .inl (outcome_keeps hS (next _) (hp _) hs)
    · rw [outcome_write, outcome_write, ha]
      exact outcome_rel hS hQ (next _) (hp _) hxy'
  | .put a delta next, hp, x, y, hxy => by
    rw [outcome_put, outcome_put, hp.1]
    rcases hQ (.put a.base delta) hxy with hs | ⟨ha, hxy'⟩
    · exact .inl (outcome_keeps hS (next _) (hp.2 _) hs)
    · rw [ha]
      exact outcome_rel hS hQ (next _) (hp.2 _) hxy'
  | .get a next, hp, x, y, hxy => by
    rw [outcome_get, outcome_get, hp.1]
    rcases hQ (.get a.base) hxy with hs | ⟨ha, hxy'⟩
    · exact .inl (outcome_keeps hS (next _) (hp.2 _) hs)
    · rw [ha]
      exact outcome_rel hS hQ (next _) (hp.2 _) hxy'

end Program

namespace Context

/-- One context is an active child, and the other one is the same child over other buffers, which
show the same of the cells in `P`. -/
structure Recast (s : Store V) (ops : CellId → V → V → V) (P : CellId → Prop)
    (kind : Option ChildKind) (below : List (Layer V)) (x y : Context V) : Prop where
  child : x.kind.isSome = true
  active : x.status = .active
  atop : ∃ mode, y = x.atop kind mode below ∧ (mode = .readOnly ↔ x.mode = .readOnly)
  below : ∀ c, P c → SeenAlike (s.cell c) (ops c) x.enclosing below

variable {P : CellId → Prop} {kind : Option ChildKind} {below : List (Layer V)} {x y : Context V}

/-- The first context asked for a cell that is not in `P`, or the call answers the same on both. -/
theorem Recast.call {α : Type} {f : Context V → Except Error α × Context V}
    (hk : kind.isSome = true) (h : Recast s ops P kind below x y) (hf : Call s ops f) :
    (∃ c ∈ (f x).2.asked, ¬ P c) ∨
      (f y).1 = (f x).1 ∧ Recast s ops P kind below (f x).2 (f y).2 := by
  obtain ⟨mode, rfl, hm⟩ := h.atop
  obtain ⟨hlife, henc, -, -⟩ := hf.frame x
  have hkind : (f x).2.kind = x.kind := congrArg Life.kind hlife
  have hstatus : (f x).2.status = x.status := congrArg Life.status hlife
  -- it is enough to say what the call makes of the other context
  have hdone : ∀ mode', f (x.atop kind mode below) = ((f x).1, (f x).2.atop kind mode' below) →
      (mode' = .readOnly ↔ (f x).2.mode = .readOnly) →
      (f (x.atop kind mode below)).1 = (f x).1 ∧
        Recast s ops P kind below (f x).2 (f (x.atop kind mode below)).2 := by
    intro mode' hfy hm'
    rw [hfy]
    exact ⟨rfl, hkind ▸ h.child, hstatus.trans h.active, ⟨mode', rfl, hm'⟩, henc ▸ h.below⟩
  have hks : kind.isSome = x.kind.isSome := hk.trans h.child.symm
  have hrec : mode.recordsReads = x.mode.recordsReads := by simp [Mode.recordsReads, hm]
  have hseen : ∀ c, P c →
      SeenAlike (s.cell c) (ops c) x.layers (x.atop kind mode below).layers :=
    fun c hc => (h.below c hc).cons x.layer
  have hask : ∀ c, c ∈ (x.read (s.cell c)).2.asked := fun c => by
    simpa using mem_asked_read h.child h.active (s.cell c)
  cases hf with
  | read c =>
    by_cases hc : P c
    · exact .inr (hdone mode (read_atop hks hrec (hseen c hc).write) (by rw [mode_read, hm]))
    · exact .inl ⟨c, hask c, hc⟩
  | get c =>
    by_cases hc : P c
    · exact .inr (hdone mode (get_atop hks hrec (hseen c hc)) (by rw [snd_get, mode_read, hm]))
    · exact .inl ⟨c, by rw [snd_get]; exact hask c, hc⟩
  | write c value =>
    obtain ⟨mode', hfy, hm'⟩ := write_atop hm value
    exact .inr (hdone mode' hfy hm')
  | put c delta =>
    obtain ⟨mode', hfy, hm'⟩ := put_atop hm (ops c) delta
    exact .inr (hdone mode' hfy hm')

end Context

open Context in
/-- A flat program leaves a context where it stands and within its discipline; where writes are
illegal it leaves the buffers. -/
theorem Program.Flat.outcome_frame {p : Program V R} (hp : p.Flat ops) (x : Context V) :
    (p.outcome s x).2.life = x.life ∧
      (x.Within (s.uniform ops) → (p.outcome s x).2.Within (s.uniform ops)) ∧
      ((p.outcome s x).2.mode = .readOnly ↔ x.mode = .readOnly) ∧
      (x.mode = .readOnly →
        (p.outcome s x).2.writes = x.writes ∧ (p.outcome s x).2.deltas = x.deltas) := by
  refine outcome_keeps (K := fun y => y.life = x.life ∧
      (x.Within (s.uniform ops) → y.Within (s.uniform ops)) ∧
      (y.mode = .readOnly ↔ x.mode = .readOnly) ∧
      (x.mode = .readOnly → y.writes = x.writes ∧ y.deltas = x.deltas))
    (fun {_ f y} hf hy => ?_) p hp ⟨rfl, fun h => h, .rfl, fun _ => ⟨rfl, rfl⟩⟩
  obtain ⟨hlife, hwithin, hmode, hkeep⟩ := hy
  obtain ⟨hl, -, -, hm⟩ := hf.frame y
  refine ⟨hl.trans hlife,
    fun hx => hf.within (fun _ v => ⟨v, rfl⟩) (fun _ v => ⟨v, rfl⟩) (hwithin hx), hm.trans hmode,
    fun hro => ?_⟩
  rcases hf.changes y with ⟨_, _, -, hfy⟩ | ⟨hne, _⟩
  · rw [hfy]
    exact hkeep hro
  · exact absurd (hmode.2 hro) hne

open Context in
/-- A flat program does the same over other buffers, if they show the same of every cell that it
asked for. -/
theorem Program.Flat.outcome_atop {p : Program V R} (hp : p.Flat ops) {P : CellId → Prop}
    {x : Context V} {kind : Option ChildKind} {mode : Mode} {below : List (Layer V)}
    (hx : x.kind.isSome = true) (ha : x.status = .active) (hk : kind.isSome = true)
    (hm : mode = .readOnly ↔ x.mode = .readOnly)
    (hbelow : ∀ c, P c → SeenAlike (s.cell c) (ops c) x.enclosing below)
    (hasked : ∀ c ∈ (p.outcome s x).2.asked, P c) :
    ∃ mode', p.outcome s (x.atop kind mode below) =
      ((p.outcome s x).1, (p.outcome s x).2.atop kind mode' below) := by
  have hS : ∀ {α : Type} {f : Context V → Except Error α × Context V} {x : Context V},
      Call s ops f → (∃ c ∈ x.asked, ¬ P c) → ∃ c ∈ (f x).2.asked, ¬ P c :=
    fun hf ⟨c, hc, hn⟩ => ⟨c, (hf.frame _).2.2.1 hc, hn⟩
  rcases outcome_rel (Q := Recast s ops P kind below) (S := fun x => ∃ c ∈ x.asked, ¬ P c) hS
      (fun hf hQ => hQ.call hk hf) p hp ⟨hx, ha, ⟨mode, rfl, hm⟩, hbelow⟩ with
    ⟨c, hc, hn⟩ | ⟨hres, hQ⟩
  · exact absurd (hasked c hc) hn
  · obtain ⟨mode', hatop, -⟩ := hQ.atop
    exact ⟨mode', Prod.ext hres hatop⟩

end VersionedMemory
