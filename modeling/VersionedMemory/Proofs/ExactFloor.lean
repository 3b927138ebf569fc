import VersionedMemory.Proofs.EngineInvariant

/-!
# The floor is exact and never goes back

The low-water mark of an engine is what its live transactions need and no more: the least of their
snapshots, wherever they are, and of the version of the head. A reclamation pass that looks for it
in the other way, by retiring marks until one has readers, comes to the same version. Transactions
begin at the head, and those that live on keep their snapshots, so the low-water mark never goes
back.

## Main statements

* `Scene.low_water_exact`: the low-water mark is exact, a pass retires just the marks below it, and
  no later scene has a lower one.
-/

namespace VersionedMemory

variable {V : Type} [Inhabited V]

namespace Scene

variable {s s' : Scene V} {e : EngineId} {own : CellId → Prop}

omit [Inhabited V] in
/-- The low-water mark is the least of the live snapshots and the head. -/
theorem Attends.isLeast_lowWater (h : s.Attends e) :
    IsLeast {v | v = (s.world.engine e).version ∨ ∃ x ∈ s.live, x.engine = e ∧ x.snapshot = v}
      (s.world.engine e).timeline.lowWater := by
  convert h.anchors.isLeast_lowWater using 2
  funext v
  refine propext (or_congr_right ⟨?_, ?_⟩)
  · rintro ⟨x, hx, he, hv⟩
    exact ⟨x.life, mem_livesOf.2 ⟨List.mem_map_of_mem hx, he⟩, hv⟩
  · rintro ⟨l, hl, hv⟩
    obtain ⟨hlives, he⟩ := mem_livesOf.1 hl
    obtain ⟨x, hx, rfl⟩ := List.mem_map.1 hlives
    exact ⟨x, hx, he, hv⟩

/-- Nobody who is alive later needs a version that nobody needs now. -/
theorem Precedes.lowWater_le (h : s.Precedes e own s') (hs : s.Attends e) (hs' : s'.Attends e) :
    (s.world.engine e).timeline.lowWater ≤ (s'.world.engine e).timeline.lowWater := by
  obtain ⟨-, hleast⟩ := hs.anchors.isLeast_lowWater
  have hhead : (s.world.engine e).timeline.lowWater ≤ (s.world.engine e).version :=
    hleast (.inl rfl)
  rcases hs'.anchors.isLeast_lowWater.1 with hv | ⟨l, hl, hv⟩
  · rw [hv]
    exact Nat.le_trans hhead h.version_le
  · rw [← hv]
    rcases h.old_or_new l hl with hold | ⟨-, hnew⟩
    · exact hleast (.inr ⟨l, hold, rfl⟩)
    · exact Nat.le_trans hhead hnew

/-- The floor is exact and monotone, and its two computations agree. Over every run, of any number
of engines and whatever else happens to the cells: the low-water mark of an engine is the least of
the snapshots of its live transactions, which may be running, held, bound or parked, and of the
version of its head; a reclamation pass reports it as its floor, retires the marks below it and
leaves the others; and it is not lower at any later scene. -/
theorem low_water_exact (h : s.Attained e own) (hrun : Ensues e own s s') :
    let t := (s.world.engine e).timeline
    IsLeast {v | v = t.head.version ∨ ∃ x ∈ s.live, x.engine = e ∧ x.snapshot = v} t.lowWater ∧
      (s.world.reclaim e).1.floor = t.lowWater ∧
      (s.world.reclaim e).1.marks = (t.window.filter (·.version < t.lowWater)).length ∧
      ((s.world.reclaim e).2.engine e).timeline.window =
        t.window.filter (t.lowWater ≤ ·.version) ∧
      t.lowWater ≤ (s'.world.engine e).timeline.lowWater := by
  intro t
  obtain ⟨hs, hf⟩ := h.settled
  obtain ⟨⟨hs', -⟩, hprec⟩ := hrun.settled hs hf
  obtain ⟨hout, hin⟩ := hs.attends.anchors.retire_eq_filter
  have hg : ((s.world.reclaim e).2.engine e).timeline = t.retire.2 := by
    simp [World.reclaim, Engine.reclaim, VersionedMemory.reclaim, t]
  refine ⟨hs.attends.isLeast_lowWater, t.floor_retire, congrArg List.length hout, ?_,
    hprec.lowWater_le hs.attends hs'.attends⟩
  rw [hg]
  exact hin

/-- A reader that is parked holds the floor back while another transaction commits, and lets it go
when it is aborted. -/
theorem low_water_of_parked_reader :
    let s₀ : Scene Nat := .start {} {}
    let s₁ := s₀.next (s₀.world.createCell sole 0 5).2 []
    let x := (s₁.world.begin sole .speculative).1
    let s₂ := s₁.next (s₁.world.begin sole .speculative).2 [x]
    let s₃ := s₂.next (s₂.world.park sole x).2 []
    let y := (s₃.world.begin sole .readWrite).1
    let s₄ := s₃.next (s₃.world.begin sole .readWrite).2 [y]
    let z := (y.write (s₄.store.cell ⟨1⟩) 9).2
    let s₅ := s₄.next s₄.world [z]
    let s := s₅.next (s₅.world.commit z).2 []
    let s₆ := s.next (s.world.unpark sole x.id).2 [x]
    let s' := s₆.next (s₆.world.abort x World.callerAbort) []
    ((s.world.reclaim sole).1.floor = (s.world.engine sole).timeline.lowWater ∧
        (s.world.engine sole).timeline.lowWater ≤ (s'.world.engine sole).timeline.lowWater) ∧
      (s.world.engine sole).timeline.lowWater = 0 ∧
      (s'.world.engine sole).timeline.lowWater = 1 := by
  intro s₀ s₁ x s₂ s₃ y s₄ z s₅ s s₆ s'
  have h₂ : s₁.Step s₂ := .begin .speculative
  have h₃ : s₂.Step s₃ := .park (.refl _)
  have h₄ : s₃.Step s₄ := .begin .readWrite
  have h₅ : s₄.Step s₅ := .access (.refl _) (.write ⟨1⟩ 9)
  have h : s₅.Step s := .commit (.refl _)
  have hs : s.Reachable :=
    ⟨{}, {}, (((((Relation.ReflTransGen.single (.create 0 5)).tail h₂).tail h₃).tail h₄).tail
      h₅).tail h⟩
  have hx : s.world.unpark sole x.id = (.ok x, (s.world.unpark sole x.id).2) := rfl
  have h₆ : s.Step s₆ := .unpark hx
  have hrun : s.Later s' := (Relation.ReflTransGen.single h₆).tail (.abort _ (.refl _))
  have hexact := low_water_exact hs.attained (hrun.ensues hs.sound)
  exact ⟨⟨hexact.2.1, hexact.2.2.2.2⟩, by decide +kernel, by decide +kernel⟩

end Scene

end VersionedMemory
