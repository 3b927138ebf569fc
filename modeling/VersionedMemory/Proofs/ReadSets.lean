import VersionedMemory.Proofs.Stacks

/-!
# Read-sets

What a context has recorded of its reads it keeps, and records no version newer than its snapshot.
A context whose mode records reads also takes over what its children recorded, and a child takes
over what its own children asked for.

## Main definitions

* `Context.Keeps` says that what one context recorded another one has recorded too.
* `ReadSet.Below` says that no recorded version is newer than a given one.
-/

namespace VersionedMemory

variable {V : Type}

theorem Mode.recordsReads_of_ne {m : Mode} (h : m ≠ .readOnly) : m.recordsReads = true := by
  revert h
  cases m <;> decide

/-- No recorded version is newer than `n`. -/
def ReadSet.Below (rs : ReadSet) (n : Version) : Prop := ∀ c v, Table.get? rs c = some v → v ≤ n

namespace ReadSet

variable {rs new : ReadSet} {n : Version}

theorem below_empty (n : Version) : (∅ : ReadSet).Below n := nofun

theorem Below.insertNew (h : rs.Below n) (c : CellId) {v : Version} (hv : v ≤ n) :
    ReadSet.Below (Table.insertNew rs c v) n := by
  intro d u hu
  rw [Table.get?_insertNew] at hu
  split at hu
  · obtain rfl := Option.some.inj hu
    cases hr : Table.get? rs c with
    | none => exact hv
    | some w => exact h c w hr
  · exact h d u hu

theorem Below.merge (h : rs.Below n) (hn : new.Below n) : (ReadSet.merge rs new).Below n := by
  intro c v hv
  rw [get?_merge] at hv
  cases hr : Table.get? rs c with
  | none => exact hn c v (by simpa [hr] using hv)
  | some u =>
    obtain rfl : u = v := by simpa [hr] using hv
    exact h c u hr

theorem contains_merge {c : CellId} : Table.contains (ReadSet.merge rs new) c = true ↔
    Table.contains rs c = true ∨ Table.contains new c = true := by
  unfold Table.contains
  rw [get?_merge, Option.isSome_or, Bool.or_eq_true]

end ReadSet

namespace Context

/-- What `x` recorded and asked for `y` has recorded and asked for too, and it records reads if `x`
does. -/
structure Keeps (x y : Context V) : Prop where
  recordsReads : y.mode.recordsReads = x.mode.recordsReads
  isChild : y.isChild = x.isChild
  reads : ∀ c v, x.reads.get? c = some v → y.reads.get? c = some v
  asked : x.asked ⊆ y.asked

theorem Keeps.refl (x : Context V) : x.Keeps x := ⟨rfl, rfl, fun _ _ h => h, fun _ h => h⟩

theorem Keeps.trans {x y z : Context V} (h : x.Keeps y) (h' : y.Keeps z) : x.Keeps z :=
  ⟨h'.recordsReads.trans h.recordsReads, h'.isChild.trans h.isChild,
    fun c v hv => h'.reads c v (h.reads c v hv), fun _ hc => h'.asked (h.asked hc)⟩

/-! ### Accesses -/

variable (x : Context V)

/-- A read records the version that it came to, if no pending write answered it. -/
theorem reads_read (cell : Cell V) : (x.read cell).2.reads = x.reads ∨
    ∃ r, cell.readAt x.snapshot = .ok r ∧
      (x.read cell).2.reads = (x.reads.insertNew cell.id r.version) := by
  have ht : (x.touch cell.id).reads = x.reads ∧ (x.touch cell.id).snapshot = x.snapshot := by
    unfold touch
    split <;> exact ⟨rfl, rfl⟩
  unfold read
  split
  · exact .inl rfl
  · dsimp only
    split
    · exact .inl ht.1
    · exact .inl ht.1
    · split
      · exact .inl ht.1
      · next r hr =>
        unfold observe
        split
        · exact .inr ⟨r, ht.2 ▸ hr, congrArg (·.insertNew cell.id r.version) ht.1⟩
        · exact .inl ht.1

theorem reads_write (cell : Cell V) (value : V) : (x.write cell value).2.reads = x.reads := by
  rcases x.write_changes cell value with h | ⟨-, _, _, -, -, h⟩ <;> rw [h]

theorem reads_stage (c : CellId) (a : Change V) : (x.stage c a).2.reads = x.reads := by
  rcases x.stage_changes c a with h | ⟨-, _, h⟩ <;> rw [h]

theorem keeps_read (cell : Cell V) : x.Keeps (x.read cell).2 := by
  obtain ⟨reads, asked, hasked, hread⟩ := x.read_changes cell
  refine ⟨by rw [mode_read], by rw [hread]; rfl, fun c v hv => ?_, by rw [hread]; exact hasked⟩
  rcases x.reads_read cell with h | ⟨r, -, h⟩
  · rw [h]
    exact hv
  · rw [h, Table.get?_insertNew]
    split
    · next hc => simp [← hc, hv]
    · exact hv

theorem keeps_write (cell : Cell V) (value : V) : x.Keeps (x.write cell value).2 := by
  rcases x.write_changes cell value with h | ⟨hne, _, _, -, -, h⟩
  · rw [h]
    exact .refl x
  · rw [h]
    exact ⟨(Mode.recordsReads_of_ne hne).symm, rfl, fun _ _ hv => hv, fun _ hc => hc⟩

theorem keeps_stage (c : CellId) (a : Change V) : x.Keeps (x.stage c a).2 := by
  rcases x.stage_changes c a with h | ⟨hne, _, h⟩
  · rw [h]
    exact .refl x
  · rw [h]
    exact ⟨(Mode.recordsReads_of_ne hne).symm, rfl, fun _ _ hv => hv, fun _ hc => hc⟩

variable {x}

theorem below_read (h : ReadSet.Below x.reads x.snapshot) (cell : Cell V) :
    ReadSet.Below (x.read cell).2.reads x.snapshot := by
  rcases x.reads_read cell with hx | ⟨r, hr, hx⟩
  · rwa [hx]
  · rw [hx]
    refine h.insertNew _ ?_
    unfold Cell.readAt Chain.asOf at hr
    split at hr
    · next hfind =>
      cases hr
      exact of_decide_eq_true
        (List.find?_some (p := fun r : Record V => r.version ≤ x.snapshot) hfind)
    · cases hr

/-! ### What is taken over -/

/-- A context that may not write is as it was after it refused what a child wrote. Any other one
took over what was read, and its buffers may have changed. -/
theorem adopt_changes (x : Context V) (e : Contribution V) :
    (∃ err, x.adopt e = (.error err, x)) ∨ ∃ mode writes deltas shared,
      mode.recordsReads = x.mode.recordsReads ∧
        (x.adopt e).2 =
          { ({ x with mode } : Context V).adoptReads e with writes, deltas, shared } := by
  by_cases hm : e.hasWrites = true → x.mode ≠ .readOnly
  · right
    obtain ⟨mode, hfor, -, hrec⟩ := forWriting_of_allowed hm
    have hbuffer : ∀ y : Context V, ∃ writes shared,
        (y.bufferWrites e.writes).2 = { y with writes, shared } := by
      intro y
      unfold bufferWrites
      split <;> exact ⟨_, _, rfl⟩
    obtain ⟨writes, shared, hy⟩ := hbuffer (({ x with mode } : Context V).adoptReads e)
    unfold adopt
    rw [hfor]
    dsimp only
    generalize (({ x with mode } : Context V).adoptReads e).bufferWrites e.writes = o at hy ⊢
    obtain ⟨err | u, y⟩ := o
    · exact ⟨mode, writes, _, shared, hrec, hy⟩
    · refine ⟨mode, writes, (y.bufferDeltas e.deltas).2.deltas, shared, hrec, ?_⟩
      obtain rfl : y = _ := hy
      rfl
  · left
    obtain ⟨hw, hro⟩ := Classical.not_imp.1 hm
    have hfor : (if e.hasWrites then x.forWriting else .ok x) =
        .error (.illegal (.writeInReadOnly x.id)) := by
      simp [hw, forWriting, Classical.not_not.1 hro, Mode.onWrite]
    unfold adopt
    rw [hfor]
    exact ⟨_, rfl⟩

theorem keeps_adopt (x : Context V) (e : Contribution V) : x.Keeps (x.adopt e).2 := by
  rcases x.adopt_changes e with ⟨err, h⟩ | ⟨mode, writes, deltas, shared, hrec, h⟩
  · rw [h]
    exact .refl x
  · rw [h]
    have hkind : (({ x with mode } : Context V).adoptReads e).kind = x.kind := by
      unfold adoptReads
      dsimp only
      split <;> split <;> rfl
    refine ⟨?_, congrArg Option.isSome hkind, fun c v hv => ?_, fun c hc => ?_⟩
    · rw [← hrec]
      exact congrArg Mode.recordsReads (adoptReads_frame { x with mode } e).2.2.2.2
    · have hreads := reads_adoptReads { x with mode } e c
      rw [hv] at hreads
      refine hreads.trans ?_
      split <;> rfl
    · exact (mem_asked_adoptReads { x with mode } e c).2 (.inl hc)

theorem below_adopt {n : Version} {e : Contribution V} (h : ReadSet.Below x.reads n)
    (he : ReadSet.Below e.reads n) : ReadSet.Below (x.adopt e).2.reads n := by
  rcases x.adopt_changes e with ⟨err, hx⟩ | ⟨mode, writes, deltas, shared, -, hx⟩
  · rwa [hx]
  · rw [hx]
    intro c v hv
    have hreads := (reads_adoptReads { x with mode } e c).symm.trans hv
    split at hreads
    · refine h.merge he c v ?_
      rw [ReadSet.get?_merge]
      exact hreads
    · exact h c v hreads

/-- A context whose mode records reads takes over what its children recorded. -/
theorem recorded_of_adopt {y : Context V} {e : Contribution V} (h : x.adopt e = (.ok (), y))
    (hm : x.mode.recordsReads = true) {c : CellId} (hc : e.reads.contains c = true) :
    y.reads.contains c = true := by
  rcases x.adopt_changes e with ⟨err, hx⟩ | ⟨mode, writes, deltas, shared, hrec, hx⟩
  · rw [h] at hx
    cases hx
  · rw [h] at hx
    obtain rfl : y = _ := hx
    have hreads := reads_adoptReads { x with mode } e c
    rw [if_pos (hrec.trans hm)] at hreads
    unfold Table.contains at hc ⊢
    dsimp only
    rw [hreads, Option.isSome_or, hc, Bool.or_true]

/-- A child takes over what its children asked for. -/
theorem asked_of_adopt {y : Context V} {e : Contribution V} (h : x.adopt e = (.ok (), y))
    (hx : x.isChild = true) {c : CellId} (hc : c ∈ e.asked) : c ∈ y.asked := by
  rcases x.adopt_changes e with ⟨err, hy⟩ | ⟨mode, writes, deltas, shared, -, hy⟩
  · rw [h] at hy
    cases hy
  · rw [h] at hy
    obtain rfl : y = _ := hy
    exact (mem_asked_adoptReads { x with mode } e c).2 (.inr ⟨hx, hc⟩)

end Context

/-- Every access keeps what is recorded. -/
theorem Context.Access.keeps [Inhabited V] {s : Store V} {x y : Context V} (h : x.Access s y) :
    x.Keeps y := by
  cases h with
  | read c => exact x.keeps_read _
  | get a =>
    rw [snd_get]
    exact x.keeps_read _
  | write c value => exact x.keeps_write _ value
  | put a delta => exact x.keeps_stage _ _
  | stage under target value => exact x.keeps_stage _ _
  | adopt e => exact x.keeps_adopt e

end VersionedMemory
