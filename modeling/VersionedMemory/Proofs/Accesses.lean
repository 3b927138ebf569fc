import VersionedMemory.Proofs.Adoption

/-!
# Accesses as contributions

An access does to its context what the merge of a child would do that had made just this access: a
write hands over one write, a put one delta, and a read the version that it came to, if no pending
write covered the cell. So what is proved of taking contributions over holds of accesses.

## Main definitions

* `Context.glimpse` is what a read of a cell hands over.

## Main statements

* `Context.read_eq_adopt`, `Context.write_eq_adopt`, `Context.stage_eq_adopt`: an access takes a
  contribution over.
-/

namespace VersionedMemory

variable {V : Type}

namespace Context

variable {x : Context V}

theorem checkActive_eq_ok (ha : x.status = .active) : x.checkActive = .ok () := by
  simp [checkActive, isActive, ha]

/-- What a context records when it reads a cell. -/
def glimpse (x : Context V) (cell : Cell V) : Contribution V where
  reads :=
    match x.writeFor cell.id, cell.readAt x.snapshot with
    | none, .ok r => (∅ : ReadSet).insert cell.id r.version
    | _, _ => ∅
  asked := [cell.id]

/-! ### Contributions of one entry -/

theorem adoptReads_of_empty (x : Context V) {e : Contribution V} (hr : e.reads = ∅)
    (ha : e.asked = []) : x.adoptReads e = x := by
  have hreads : ReadSet.merge x.reads ∅ = x.reads := rfl
  unfold adoptReads
  rw [hr, ha, hreads]
  simp

theorem bufferWrites_empty (x : Context V) : x.bufferWrites ∅ = (.ok (), x) := by
  rcases x with ⟨_, _, _, _, _, _, _, _, _, _, _, _ | ws, _⟩ <;> rfl

theorem bufferWrites_insert (x : Context V) (c : CellId) (a : Change V) :
    x.bufferWrites ((∅ : WriteSet V).insert c a) =
      match x.bufferWrite c a with
      | .error e => (.error e, x)
      | .ok y => (.ok (), y) := by
  have hentries : ((∅ : WriteSet V).insert c a).entries = [(c, a)] := rfl
  rcases x with ⟨_, _, _, _, _, _, _, _, _, writes, _, _ | ws, _⟩ <;>
    simp only [bufferWrites, bufferWrite, hentries, WriteSet.stageAll]
  · cases writes.stage c a <;> rfl
  · cases ws.stage c a <;> rfl

theorem bufferDeltas_insert (x : Context V) (c : CellId) (a : Change V) :
    x.bufferDeltas ((∅ : WriteSet V).insert c a) =
      match x.bufferDelta c a with
      | .error e => (.error e, x)
      | .ok y => (.ok (), y) := by
  have hentries : ((∅ : WriteSet V).insert c a).entries = [(c, a)] := rfl
  simp only [bufferDeltas, bufferDelta, hentries, WriteSet.stageAll]
  cases x.deltas.stage c a <;> rfl

theorem adoptReads_asked (x : Context V) {e : Contribution V} {c : CellId} (hr : e.reads = ∅)
    (ha : e.asked = [c]) : x.adoptReads e = x.touch c := by
  have hreads : ReadSet.merge x.reads ∅ = x.reads := rfl
  unfold adoptReads touch
  rw [hr, ha, hreads]
  simp

theorem adoptReads_read (x : Context V) {e : Contribution V} {c : CellId} {v : Version}
    (hr : e.reads = (∅ : ReadSet).insert c v) (ha : e.asked = [c]) :
    x.adoptReads e = (x.touch c).observe c v := by
  have hreads : ReadSet.merge x.reads ((∅ : ReadSet).insert c v) = x.reads.insertNew c v := rfl
  unfold adoptReads touch observe
  rw [hr, ha, hreads]
  cases hm : x.mode.recordsReads <;> cases hc : x.kind <;> simp [isChild, hm, hc]

/-! ### Accesses -/

/-- Reading takes over what is read, if the context has not come to its end. -/
theorem read_eq_adopt (ha : x.status = .active) (cell : Cell V) :
    (x.read cell).2 = (x.adopt (x.glimpse cell)).2 := by
  have hadopt : x.adopt (x.glimpse cell) = (.ok (), x.adoptReads (x.glimpse cell)) := by
    unfold adopt
    rw [show (x.glimpse cell).hasWrites = false from rfl]
    simp only [Bool.false_eq_true, if_false]
    rw [show (x.glimpse cell).writes = ∅ from rfl, bufferWrites_empty]
    rfl
  rw [hadopt]
  unfold read valueFor
  simp only [checkActive_eq_ok ha, writeFor_touch, snapshot_touch]
  cases hw : x.writeFor cell.id with
  | some a =>
    rw [x.adoptReads_asked (c := cell.id) (by simp [glimpse, hw]) rfl]
    cases hv : a.assigned? cell.type <;> simp [hv]
  | none =>
    cases hr : cell.readAt x.snapshot with
    | error err => rw [x.adoptReads_asked (c := cell.id) (by simp [glimpse, hw, hr]) rfl]
    | ok r => rw [x.adoptReads_read (c := cell.id) (v := r.version) (by simp [glimpse, hw, hr]) rfl]

/-- Writing takes over one write. -/
theorem write_eq_adopt (ha : x.status = .active) (cell : Cell V) (value : V) :
    x.write cell value = x.adopt
      { writes := (∅ : WriteSet V).insert cell.id ⟨cell.id, cell.type, .assign value⟩ } := by
  unfold write adopt
  rw [checkActive_eq_ok ha]
  change (match x.forWriting with | .error e => _ | .ok x => _) = match x.forWriting with
    | .error e => _
    | .ok x => _
  cases x.forWriting with
  | error e => rfl
  | ok y =>
    dsimp only
    rw [adoptReads_of_empty y rfl rfl, bufferWrites_insert]
    cases y.bufferWrite cell.id ⟨cell.id, cell.type, .assign value⟩ <;> rfl

/-- Staging a change takes over one delta. -/
theorem stage_eq_adopt (ha : x.status = .active) (c : CellId) (a : Change V) :
    x.stage c a = x.adopt { deltas := (∅ : WriteSet V).insert c a } := by
  unfold stage adopt
  rw [checkActive_eq_ok ha]
  change (match x.forWriting with | .error e => _ | .ok x => _) = match x.forWriting with
    | .error e => _
    | .ok x => _
  cases x.forWriting with
  | error e => rfl
  | ok y =>
    dsimp only
    rw [adoptReads_of_empty y rfl rfl, bufferWrites_empty]
    exact (bufferDeltas_insert y c a).symm

end Context

end VersionedMemory
