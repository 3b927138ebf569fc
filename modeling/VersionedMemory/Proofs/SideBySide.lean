import VersionedMemory.Proofs.HostInvariants

/-!
# Two bodies side by side

Two bodies that make the same accesses, on contexts that are the same but for the snapshot and the
anchor, come to the same as long as the answers of the accesses are the same. A coupling says how
the hosts of the two go together and what it takes to set them apart: from there on nothing is said
about the second one.

## Main definitions

* `Context.shift` is a context with another snapshot and another anchor.
* `Coupling` is a way in which two hosts go together, and `Coupling.Lawful` says that opening
  children does not set them apart.
* `Coupling.Bodies` says that two bodies come to the same.

## Main statements

* `Coupling.Bodies.nested` and `Coupling.bodies_parallel`: children of coupled bodies, and batches
  of them, are coupled.
-/

namespace VersionedMemory

variable {V σ τ α β : Type}

/-! ### The same context elsewhere in time -/

namespace Context

/-- The context with another snapshot and another anchor. -/
def shift (x : Context V) (f : Version → Version) (g : Anchor → Anchor) : Context V :=
  { x with snapshot := f x.snapshot, anchor := x.anchor.map g }

variable (x : Context V) (f : Version → Version) (g : Anchor → Anchor)

@[simp] theorem shift_self : x.shift (fun v => v) (fun a => a) = x := by
  simp [shift]

theorem forWriting_shift : (x.shift f g).forWriting = x.forWriting.map (·.shift f g) := by
  unfold forWriting
  cases hm : x.mode.onWrite <;> simp [shift, hm, Except.map]

theorem bufferWrites_shift (ws : WriteSet V) : (x.shift f g).bufferWrites ws =
    ((x.bufferWrites ws).1, (x.bufferWrites ws).2.shift f g) := by
  unfold bufferWrites
  cases hs : x.shared <;> simp [shift, hs]

theorem adoptReads_shift (e : Contribution V) :
    (x.shift f g).adoptReads e = (x.adoptReads e).shift f g := by
  unfold adoptReads isChild
  cases hm : x.mode.recordsReads <;> cases hk : x.kind.isSome <;> simp [shift, hm, hk]

/-- What a context takes over does not depend on its snapshot. -/
theorem adopt_shift (e : Contribution V) :
    (x.shift f g).adopt e = ((x.adopt e).1, (x.adopt e).2.shift f g) := by
  have hmode : (if e.hasWrites then (x.shift f g).forWriting else .ok (x.shift f g)) =
      (if e.hasWrites then x.forWriting else .ok x).map (·.shift f g) := by
    split
    · exact x.forWriting_shift f g
    · rfl
  unfold adopt
  rw [hmode]
  cases (if e.hasWrites then x.forWriting else .ok x) with
  | error err => rfl
  | ok y =>
    simp only [Except.map, adoptReads_shift, bufferWrites_shift]
    rcases (y.adoptReads e).bufferWrites e.writes with ⟨_ | _, z⟩ <;> rfl

end Context

/-! ### Couplings -/

/-- How two hosts go together, while a body runs in each. -/
structure Coupling (V σ τ : Type) where
  snapshot : Version → Version
  anchor : Anchor → Anchor
  /-- The contexts that the first body may run on. -/
  Meets : Context V → Prop
  Rel : Host V σ → Host V τ → Prop
  /-- What has happened in the first host where nothing is said of the second one. -/
  Parted : Host V σ → Prop

namespace Coupling

/-- The context of the second body. -/
def move (C : Coupling V σ τ) (x : Context V) : Context V := x.shift C.snapshot C.anchor

/-- Opening children keeps hosts together, and so does counting reruns and pinning cells. -/
structure Lawful (C : Coupling V σ τ) : Prop where
  meets : Host.Invariant C.Meets fun _ : Host V σ => True
  parted : Host.Invariant C.Meets C.Parted
  pin : ∀ {h g : Host V σ} {h' g' : Host V τ} (cells : List CellId), C.Rel h h' → C.Rel g g' →
    C.Rel { g with world.pinned := cells ++ h.world.pinned }
      { g' with world.pinned := cells ++ h'.world.pinned }
  child : ∀ {x : Context V} {h : Host V σ} {h' : Host V τ} (kind : ChildKind)
    (below : List (Layer V)) (shared : Option (WriteSet V)), C.Meets x → C.Rel h h' →
      let o := Body.openChild x kind below shared h
      let o' := Body.openChild (C.move x) kind below shared h'
      o'.1 = C.move o.1 ∧ C.Rel o.2 o'.2
  rerun : ∀ {x : Context V} {h : Host V σ} {h' : Host V τ}, C.Meets x → C.Rel h h' →
    C.Rel { h with world := h.world.countRerun x.engine }
      { h' with world := h'.world.countRerun x.engine }

/-- Two computations ended the same and together, unless they are apart. -/
def Agree (C : Coupling V σ τ) (o : α × Host V σ) (o' : β × Host V τ) (Q : α → β → Prop) : Prop :=
  C.Parted o.2 ∨ Q o.1 o'.1 ∧ C.Rel o.2 o'.2

/-- The second body comes to what the first one comes to. -/
structure Bodies (C : Coupling V σ τ) (body : Body V σ α) (body' : Body V τ α) : Prop where
  meets : body.Upholds C.Meets fun _ => True
  parted : body.Upholds C.Meets C.Parted
  agree : ∀ {x : Context V} {h : Host V σ} {h' : Host V τ}, C.Meets x → C.Rel h h' →
    C.Agree (body.runOn x h) (body'.runOn (C.move x) h') fun o o' => o' = (o.1, C.move o.2)

variable {C : Coupling V σ τ} {x : Context V} {h : Host V σ} {h' : Host V τ}

theorem Agree.pinning (hC : C.Lawful) {f : Host V σ → α × Host V σ} {f' : Host V τ → β × Host V τ}
    {Q : α → β → Prop} (hf : ∀ g g', C.Rel g g' → C.Agree (f g) (f' g') Q) (hr : C.Rel h h')
    (cells : List CellId) : C.Agree (h.pinning cells f) (h'.pinning cells f') Q := by
  rcases hf _ _ (hC.pin cells hr hr) with hp | ⟨hq, hr'⟩
  · exact .inl (hC.parted.pin _ hp)
  · exact .inr ⟨hq, hC.pin [] hr hr'⟩

theorem bodies_pure (a : α) : C.Bodies (pure a) (pure a) :=
  ⟨fun _ hx _ => ⟨hx, trivial⟩, fun _ hx hp => ⟨hx, hp⟩, fun _ hr => .inr ⟨rfl, hr⟩⟩

theorem bodies_throw (e : Error) : C.Bodies (throw e : Body V σ α) (throw e) :=
  ⟨fun _ hx _ => ⟨hx, trivial⟩, fun _ hx hp => ⟨hx, hp⟩, fun _ hr => .inr ⟨rfl, hr⟩⟩

theorem Bodies.attempt_bind {body : Body V σ α} {body' : Body V τ α}
    {f : Except Error α → Body V σ β} {f' : Except Error α → Body V τ β}
    (hb : C.Bodies body body') (hf : ∀ r, C.Bodies (f r) (f' r)) :
    C.Bodies (body.attempt >>= f) (body'.attempt >>= f') where
  meets := hb.meets.attempt_bind fun r => (hf r).meets
  parted := hb.parted.attempt_bind fun r => (hf r).parted
  agree {x h h'} hx hr := by
    have hm := (hb.meets ⟨x, h⟩ hx trivial).1
    have hrun : (body'.attempt >>= f').runOn (C.move x) h' =
        (f' (body'.runOn (C.move x) h').1.1).runOn (body'.runOn (C.move x) h').1.2
          (body'.runOn (C.move x) h').2 := rfl
    rcases hb.agree hx hr with hp | ⟨ho, hr'⟩
    · exact .inl ((hf _).parted ⟨_, _⟩ hm hp).2
    · rw [hrun, ho]
      exact (hf _).agree hm hr'

theorem Bodies.inChild {body : Body V σ α} {body' : Body V τ α} (hC : C.Lawful)
    (hb : C.Bodies body body') (hx : C.Meets x) (hr : C.Rel h h') (kind : ChildKind)
    (below : List (Layer V)) (shared : Option (WriteSet V)) :
    C.Agree (body.inChild x kind below shared h) (body'.inChild (C.move x) kind below shared h')
      fun o o' => o' = (o.1, C.move o.2) := by
  obtain ⟨ho, hr'⟩ := hC.child kind below shared hx hr
  have hm := (hC.meets.child kind below shared hx (h := h) trivial).1
  unfold Body.inChild
  dsimp only
  rw [ho]
  exact hb.agree hm hr'

theorem handOver_move (o : Except Error α × Context V) :
    Body.handOver (o.1, C.move o.2) = Body.handOver o := rfl

/-- Children of coupled bodies are coupled. -/
theorem Bodies.nested {body : Body V σ α} {body' : Body V τ α} (hC : C.Lawful)
    (hb : C.Bodies body body') : C.Bodies (Body.nested body) (Body.nested body') where
  meets := hb.meets.nested hC.meets
  parted := hb.parted.nested hC.parted
  agree {x h h'} hx hr := by
    have hcheck : (C.move x).checkActive = x.checkActive := rfl
    have hchild := Agree.pinning hC
      (fun g g' hg => hb.inChild hC hx hg .nested x.layers none) hr x.holds
    have hlayers : (C.move x).layers = x.layers := rfl
    have hholds : (C.move x).holds = x.holds := rfl
    unfold Body.runOn
    rw [Body.run_nested, Body.run_nested]
    dsimp only
    rw [hcheck, hlayers, hholds]
    cases x.checkActive with
    | error e => exact .inr ⟨rfl, hr⟩
    | ok =>
      dsimp only
      generalize h.pinning x.holds (body.inChild x .nested x.layers none) = o at hchild ⊢
      generalize h'.pinning x.holds
        (body'.inChild (C.move x) .nested x.layers none) = o' at hchild ⊢
      obtain ⟨o, g⟩ := o
      obtain ⟨o', g'⟩ := o'
      rcases hchild with hp | ⟨ho, hr'⟩
      · left
        dsimp only
        cases Body.handOver o <;> exact hp
      · cases ho
        right
        dsimp only
        rw [handOver_move]
        cases Body.handOver o with
        | error err => exact ⟨rfl, hr'⟩
        | ok ae =>
          refine ⟨?_, hr'⟩
          simp only [move, Context.adopt_shift]

/-! ### Batches -/

/-- Tasks of one mode with coupled bodies. -/
structure Tasks (C : Coupling V σ τ) (task : Task V σ α) (task' : Task V τ α) : Prop where
  mode : task'.mode = task.mode
  bodies : ∀ run, C.Bodies (task.body run) (task'.body run)

theorem Tasks.performTask {task : Task V σ α} {task' : Task V τ α} (hC : C.Lawful)
    (ht : C.Tasks task task') (hx : C.Meets x) (hr : C.Rel h h') (below : List (Layer V))
    (run : Nat) (shared : WriteSet V) :
    let o := Body.performTask x below task run shared h
    let o' := Body.performTask (C.move x) below task' run shared h'
    C.Parted o.2.2 ∨ o'.1 = o.1 ∧ o'.2.1 = o.2.1 ∧ C.Rel o.2.2 o'.2.2 := by
  have hchild := (ht.bodies run).inChild hC hx hr (.task task.mode) below
    (if task.mode = .shared then some shared else none)
  unfold Body.performTask
  rw [ht.mode]
  rcases hchild with hp | ⟨ho, hr'⟩
  · exact .inl hp
  · right
    dsimp only
    rw [ho]
    exact ⟨rfl, rfl, hr'⟩

variable {pairs : List (Task V σ α × Task V τ α)}

theorem upholds_fst (ht : ∀ p ∈ pairs, C.Tasks p.1 p.2) :
    ∀ task ∈ pairs.map Prod.fst, ∀ run, (task.body run).Upholds C.Meets C.Parted := by
  intro task htask run
  obtain ⟨p, hp, rfl⟩ := List.mem_map.1 htask
  exact ((ht p hp).bodies run).parted

theorem agree_firstRuns (hC : C.Lawful) (ht : ∀ p ∈ pairs, C.Tasks p.1 p.2) (hx : C.Meets x)
    (hr : C.Rel h h') (shared : WriteSet V) :
    C.Agree (Body.firstRuns x (pairs.map Prod.fst) shared h)
      (Body.firstRuns (C.move x) (pairs.map Prod.snd) shared h') fun o o' => o' = o := by
  induction pairs generalizing h h' shared with
  | nil => exact .inr ⟨rfl, hr⟩
  | cons p pairs ih =>
    obtain ⟨hp, hpairs⟩ := List.forall_mem_cons.1 ht
    have hfirst := hp.performTask hC hx hr x.layers 1 shared
    simp only [List.map_cons, Body.firstRuns]
    generalize Body.performTask x x.layers p.1 1 shared h = o at hfirst ⊢
    have hlayers : (C.move x).layers = x.layers := rfl
    rw [hlayers]
    generalize Body.performTask (C.move x) x.layers p.2 1 shared h' = o' at hfirst ⊢
    obtain ⟨o, ws, g⟩ := o
    obtain ⟨o', ws', g'⟩ := o'
    rcases hfirst with hparted | ⟨rfl, rfl, hr'⟩
    · exact .inl (hC.parted.pinning hparted _ fun g hg =>
        Body.upholds_firstRuns hC.parted (upholds_fst hpairs) hx hg _)
    · have hrest := Agree.pinning hC (fun g g' hg => ih hpairs hg ws') hr'
        (Body.outcomeHolds o' ++ ws'.targets)
      rcases hrest with hparted | ⟨ho, hr''⟩
      · exact .inl hparted
      · exact .inr ⟨congrArg (fun r => (o' :: r.1, r.2)) ho, hr''⟩

theorem Tasks.settle {task : Task V σ α} {task' : Task V τ α} (hC : C.Lawful)
    (ht : C.Tasks task task') (hx : C.Meets x) (hr : C.Rel h h') (a : α) (e : Contribution V)
    (b : Batch V) (shared : Option (WriteSet V)) :
    C.Agree (Body.settle x task a e b shared h) (Body.settle (C.move x) task' a e b shared h')
      fun o o' => o' = o := by
  unfold Body.settle
  rw [ht.mode]
  cases task.mode with
  | disjoint => exact .inr ⟨rfl, hr⟩
  | shared => cases shared <;> exact .inr ⟨rfl, hr⟩
  | checked =>
    dsimp only
    cases b.clash e with
    | none => exact .inr ⟨rfl, hr⟩
    | some c =>
      have hagain := ht.performTask hC hx (hC.rerun hx hr) (b.layers x.layers) 2 ∅
      have hlayers : (C.move x).layers = x.layers := rfl
      have hengine : (C.move x).engine = x.engine := rfl
      dsimp only
      rw [hlayers, hengine]
      rcases hagain with hp | ⟨ho, -, hr'⟩
      · exact .inl hp
      · right
        rw [ho]
        exact ⟨rfl, hr'⟩

theorem agree_mergeRuns (hC : C.Lawful) (hx : C.Meets x)
    {outcomes : List (Except Error (α × Contribution V))} (ht : ∀ p ∈ pairs, C.Tasks p.1 p.2)
    (hr : C.Rel h h') (b : Batch V) (shared : Option (WriteSet V)) :
    C.Agree (Body.mergeRuns x ((pairs.map Prod.fst).zip outcomes) b shared h)
      (Body.mergeRuns (C.move x) ((pairs.map Prod.snd).zip outcomes) b shared h')
      fun o o' => o' = o := by
  induction pairs generalizing outcomes h h' b shared with
  | nil => exact .inr ⟨rfl, hr⟩
  | cons p pairs ih =>
    cases outcomes with
    | nil => exact .inr ⟨rfl, hr⟩
    | cons o outcomes =>
      obtain ⟨hp, hpairs⟩ := List.forall_mem_cons.1 ht
      simp only [List.map_cons, List.zip_cons_cons]
      cases o with
      | error err => exact .inr ⟨rfl, hr⟩
      | ok ae =>
        obtain ⟨a, e⟩ := ae
        have hwaiting : ((pairs.map Prod.snd).zip outcomes).flatMap
              (fun o => Body.outcomeHolds o.2) =
            ((pairs.map Prod.fst).zip outcomes).flatMap fun o => Body.outcomeHolds o.2 := by
          simp [List.zip_map_left, List.flatMap_map]
        unfold Body.mergeRuns
        dsimp only
        rw [hwaiting]
        generalize b.merged.holds ++ e.holds ++ (shared.map WriteSet.targets).getD [] ++
          ((pairs.map Prod.fst).zip outcomes).flatMap (fun o => Body.outcomeHolds o.2) = cells
        have hset := Agree.pinning hC
          (fun g g' hg => hp.settle hC hx hg a e b shared) hr cells
        generalize h.pinning cells (Body.settle x p.1 a e b shared) = o at hset ⊢
        generalize h'.pinning cells (Body.settle (C.move x) p.2 a e b shared) = o' at hset ⊢
        obtain ⟨o, g⟩ := o
        obtain ⟨o', g'⟩ := o'
        rcases hset with hparted | ⟨rfl, hr'⟩
        · left
          dsimp only
          split
          · exact hparted
          · split
            · exact hparted
            · refine Body.upholds_mergeRuns hC.parted hx (fun o ho => ?_) hparted _ _
              exact upholds_fst hpairs o.1 (List.of_mem_zip ho).1
        · dsimp only
          rw [hp.mode]
          split
          · exact .inr ⟨rfl, hr'⟩
          · split
            · exact .inr ⟨rfl, hr'⟩
            · rcases ih hpairs hr' _ _ with hparted | ⟨ho, hr''⟩
              · exact .inl hparted
              · exact .inr ⟨congrArg (Except.map fun r => (_ :: r.1, r.2)) ho, hr''⟩

theorem agree_batch (hC : C.Lawful) (ht : ∀ p ∈ pairs, C.Tasks p.1 p.2) (hx : C.Meets x)
    (hr : C.Rel h h') :
    C.Agree (
        let ((outcomes, shared), h) := Body.firstRuns x (pairs.map Prod.fst) ∅ h
        Body.mergeRuns x ((pairs.map Prod.fst).zip outcomes) {} (some shared) h) (
        let ((outcomes, shared), h) := Body.firstRuns (C.move x) (pairs.map Prod.snd) ∅ h'
        Body.mergeRuns (C.move x) ((pairs.map Prod.snd).zip outcomes) {} (some shared) h)
      fun o o' => o' = o := by
  have hfirst := agree_firstRuns hC ht hx hr ∅
  generalize Body.firstRuns x (pairs.map Prod.fst) ∅ h = o at hfirst ⊢
  generalize Body.firstRuns (C.move x) (pairs.map Prod.snd) ∅ h' = o' at hfirst ⊢
  obtain ⟨⟨outcomes, shared⟩, g⟩ := o
  obtain ⟨o', g'⟩ := o'
  rcases hfirst with hparted | ⟨rfl, hr'⟩
  · exact .inl (Body.upholds_mergeRuns hC.parted hx
      (fun o ho => upholds_fst ht o.1 (List.of_mem_zip ho).1) hparted _ _)
  · exact agree_mergeRuns hC hx ht hr' _ _

/-- Batches of coupled tasks are coupled. -/
theorem bodies_parallel (hC : C.Lawful) (pairs : List (Task V σ α × Task V τ α))
    (ht : ∀ p ∈ pairs, C.Tasks p.1 p.2) :
    C.Bodies (Body.parallel (pairs.map Prod.fst)) (Body.parallel (pairs.map Prod.snd)) where
  meets := Body.upholds_parallel hC.meets fun task htask run => by
    obtain ⟨p, hp, rfl⟩ := List.mem_map.1 htask
    exact ((ht p hp).bodies run).meets
  parted := Body.upholds_parallel hC.parted (upholds_fst ht)
  agree {x h h'} hx hr := by
    have hcheck : (C.move x).checkActive = x.checkActive := rfl
    have hholds : (C.move x).holds = x.holds := rfl
    have hbatch := Agree.pinning hC (fun g g' hg => agree_batch hC ht hx hg) hr x.holds
    unfold Body.runOn
    rw [Body.run_parallel, Body.run_parallel]
    dsimp only at hbatch ⊢
    rw [hcheck, hholds]
    cases x.checkActive with
    | error e => exact .inr ⟨rfl, hr⟩
    | ok =>
      dsimp only
      generalize h.pinning x.holds _ = o at hbatch ⊢
      generalize h'.pinning x.holds _ = o' at hbatch ⊢
      obtain ⟨o, g⟩ := o
      obtain ⟨o', g'⟩ := o'
      rcases hbatch with hparted | ⟨rfl, hr'⟩
      · left
        dsimp only
        cases o <;> exact hparted
      · right
        dsimp only
        cases o' with
        | error err => exact ⟨rfl, hr'⟩
        | ok asb =>
          refine ⟨?_, hr'⟩
          simp only [move, Context.adopt_shift]

end Coupling

end VersionedMemory
