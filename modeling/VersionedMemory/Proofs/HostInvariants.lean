import VersionedMemory.Program

/-!
# What bodies keep of the world

A body may open children, run them, have others act in between, and take over what its children
did. What holds of the host at every one of these turns holds at the end, also where a child fails,
a task runs again, or a batch is given up midway.

## Main definitions

* `Host.Invariant` is a property of hosts that opening children and counting reruns keep.
* `Body.Upholds` says that a body keeps such a property, and stays on contexts of a given kind.

## Main statements

* `Body.nested_eq_ok` and `Body.parallel_eq_ok`: what comes of calls that succeed.
* `Body.Upholds.nested` and `Body.upholds_parallel`: what bodies uphold, children and batches of
  them uphold.
-/

namespace VersionedMemory

variable {V σ α β R : Type}

/-- A property of hosts that is kept while children are opened for contexts in `P`, which are in `P`
in turn. It makes no difference to it which cells are pinned. -/
structure Host.Invariant (P : Context V → Prop) (K : Host V σ → Prop) : Prop where
  pin : ∀ {h : Host V σ} (pinned : List CellId), K h → K { h with world.pinned := pinned }
  child : ∀ {x : Context V} {h : Host V σ} (kind : ChildKind) (below : List (Layer V))
    (shared : Option (WriteSet V)), P x → K h →
      P (Body.openChild x kind below shared h).1 ∧ K (Body.openChild x kind below shared h).2
  rerun : ∀ {x : Context V} {h : Host V σ}, P x → K h →
    K { h with world := h.world.countRerun x.engine }
  adopt : ∀ {x : Context V} (e : Contribution V), P x → P (x.adopt e).2

variable {P : Context V → Prop} {K : Host V σ → Prop}

theorem Host.Invariant.pinning (hI : Host.Invariant P K) {h : Host V σ} (hK : K h)
    (cells : List CellId) {f : Host V σ → α × Host V σ} (hf : ∀ g, K g → K (f g).2) :
    K (h.pinning cells f).2 :=
  hI.pin _ (hf _ (hI.pin _ hK))

namespace Body

theorem run_nested (body : Body V σ α) (s : Session V σ) : (nested body).run s =
    match s.context.checkActive with
    | .error e => (.error e, s)
    | .ok () =>
      let (o, h) := s.host.pinning s.context.holds
        (body.inChild s.context .nested s.context.layers none)
      match handOver o with
      | .error e => (.error e, ⟨s.context, h⟩)
      | .ok (a, e) =>
        let (r, x) := s.context.adopt e
        (r.map fun () => a, ⟨x, h⟩) := rfl

theorem run_parallel (tasks : List (Task V σ α)) (s : Session V σ) : (parallel tasks).run s =
    match s.context.checkActive with
    | .error e => (.error e, s)
    | .ok () =>
      let (r, h) := s.host.pinning s.context.holds fun h =>
        let ((outcomes, shared), h) := firstRuns s.context tasks ∅ h
        mergeRuns s.context (tasks.zip outcomes) {} (some shared) h
      match r with
      | .error e => (.error e, ⟨s.context, h⟩)
      | .ok (as, b) =>
        let (r, x) := s.context.adopt b.merged
        (r.map fun () => as, ⟨x, h⟩) := rfl

/-! ### What has succeeded -/

section

variable {b b' : Batch V} {h h' : Host V σ} {a a' : α} {e e' : Contribution V}

/-- What comes of a child that is taken over. -/
theorem nested_eq_ok {body : Body V σ α} {s t : Session V σ}
    (hrun : (nested body).run s = (.ok a, t)) :
    let o := body.inChild s.context .nested s.context.layers none
      { s.host with world.pinned := s.context.holds ++ s.host.world.pinned }
    ∃ e, handOver o.1 = .ok (a, e) ∧ s.context.adopt e = (.ok (), t.context) ∧
      t.host = { o.2 with world.pinned := s.host.world.pinned } := by
  rw [run_nested] at hrun
  unfold Host.pinning at hrun
  split at hrun
  · cases hrun
  · dsimp only at hrun ⊢
    cases ho : handOver _ with
    | error err =>
      rw [ho] at hrun
      cases hrun
    | ok ae =>
      obtain ⟨a', e⟩ := ae
      rw [ho] at hrun
      dsimp only at hrun
      obtain ⟨_, hadopt, rfl⟩ := map_eq_ok_iff.1 (congrArg Prod.fst hrun)
      exact ⟨e, rfl, Prod.ext hadopt (congrArg (fun o => o.2.context) hrun),
        (congrArg (fun o => o.2.host) hrun).symm⟩

/-- A checked task is merged as it first ran, or it runs again. -/
theorem settle_eq_ok {x : Context V} {task : Task V σ α} (hmode : task.mode = .checked)
    {shared : Option (WriteSet V)}
    (hset : (settle x task a e b shared h).1 = .ok (a', e', b')) :
    b' = b ∧ (b.clash e = none ∧ a' = a ∧ e' = e ∧ (settle x task a e b shared h).2 = h ∨
      b.clash e ≠ none ∧ ∃ ws, performTask x (b.layers x.layers) task 2 ∅
        { h with world := h.world.countRerun x.engine } =
          (.ok (a', e'), ws, (settle x task a e b shared h).2)) := by
  unfold settle at hset ⊢
  rw [hmode] at hset ⊢
  dsimp only at hset ⊢
  cases hc : b.clash e with
  | none =>
    rw [hc] at hset
    cases hset
    exact ⟨rfl, .inl ⟨rfl, rfl, rfl, rfl⟩⟩
  | some c =>
    rw [hc] at hset
    obtain ⟨⟨a₂, e₂⟩, ho, hok⟩ := map_eq_ok_iff.1 hset
    cases hok
    exact ⟨rfl, .inr ⟨by rintro ⟨⟩, _, Prod.ext ho rfl⟩⟩

/-- What a merge has done with its first task. -/
theorem mergeRuns_cons_eq_ok {x : Context V} {task : Task V σ α}
    {o : Except Error (α × Contribution V)}
    {rest : List (Task V σ α × Except Error (α × Contribution V))} {shared : Option (WriteSet V)}
    {as : List α} (hm : mergeRuns x ((task, o) :: rest) b shared h = (.ok (as, b'), h')) :
    ∃ a e cells a' e' b₁ g b₂ as', o = .ok (a, e) ∧ as = a' :: as' ∧
      h.pinning cells (settle x task a e b shared) = (.ok (a', e', b₁), g) ∧
      b₁.add e' = (.ok (), b₂) ∧
      mergeRuns x rest b₂ (if task.mode = .shared then none else shared) g =
        (.ok (as', b'), h') := by
  obtain err | ⟨a, e⟩ := o
  · cases hm
  · unfold mergeRuns at hm
    dsimp only at hm
    split at hm
    · cases hm
    · next a' e' b₁ hset =>
      split at hm
      · cases hm
      · next b₂ hadd =>
        obtain ⟨⟨as', b₃⟩, hrest, hpair⟩ := map_eq_ok_iff.1 (congrArg Prod.fst hm)
        have hend := congrArg Prod.snd hm
        cases hpair
        exact ⟨a, e, _, a', e', b₁, _, b₂, as', rfl, rfl, Prod.ext hset rfl, hadd,
          Prod.ext hrest hend⟩

/-- What comes of a batch that is taken over. -/
theorem parallel_eq_ok {tasks : List (Task V σ α)} {s t : Session V σ} {as : List α}
    (hrun : (parallel tasks).run s = (.ok as, t)) :
    let f := firstRuns s.context tasks ∅
      { s.host with world.pinned := s.context.holds ++ s.host.world.pinned }
    let m := mergeRuns s.context (tasks.zip f.1.1) {} (some f.1.2) f.2
    ∃ b, m.1 = .ok (as, b) ∧ s.context.adopt b.merged = (.ok (), t.context) ∧
      t.host = { m.2 with world.pinned := s.host.world.pinned } := by
  rw [run_parallel] at hrun
  split at hrun
  · cases hrun
  · intro f m
    change (match m.1 with
      | .error e => (.error e, ⟨s.context, { m.2 with world.pinned := s.host.world.pinned }⟩)
      | .ok (as, b) => ((s.context.adopt b.merged).1.map fun () => as,
        ⟨(s.context.adopt b.merged).2, { m.2 with world.pinned := s.host.world.pinned }⟩)) =
      (.ok as, t) at hrun
    cases hm : m.1 with
    | error err =>
      rw [hm] at hrun
      cases hrun
    | ok asb =>
      obtain ⟨as', b⟩ := asb
      rw [hm] at hrun
      dsimp only at hrun
      obtain ⟨_, hadopt, rfl⟩ := map_eq_ok_iff.1 (congrArg Prod.fst hrun)
      exact ⟨b, rfl, Prod.ext hadopt (congrArg (fun o => o.2.context) hrun),
        (congrArg (fun o => o.2.host) hrun).symm⟩

end

/-! ### What is upheld -/

/-- A body on a context in `P` ends on one, and keeps `K`. -/
def Upholds (P : Context V → Prop) (K : Host V σ → Prop) (body : Body V σ α) : Prop :=
  ∀ s : Session V σ, P s.context → K s.host →
    P (body.run s).2.context ∧ K (body.run s).2.host

theorem Upholds.attempt_bind {body : Body V σ α} {f : Except Error α → Body V σ β}
    (h : body.Upholds P K) (hf : ∀ r, (f r).Upholds P K) : (body.attempt >>= f).Upholds P K := by
  intro s hP hK
  rw [run_attempt_bind]
  obtain ⟨hP', hK'⟩ := h s hP hK
  exact hf _ _ hP' hK'

theorem upholds_access {f : World V → Context V → Except Error α × Context V}
    (h : ∀ w x, P x → P (f w x).2) : Upholds P K (access f : Body V σ α) :=
  fun s hP hK => ⟨h s.host.world s.context hP, hK⟩

theorem upholds_aside (hI : Host.Invariant P K) {f : Host V σ → α × Host V σ}
    (h : ∀ g, K g → K (f g).2) : Upholds P K (aside f) :=
  fun _ hP hK => ⟨hP, hI.pinning hK _ h⟩

theorem Upholds.inChild {body : Body V σ α} (hI : Host.Invariant P K) (hb : body.Upholds P K)
    {x : Context V} {h : Host V σ} (hP : P x) (hK : K h) (kind : ChildKind)
    (below : List (Layer V)) (shared : Option (WriteSet V)) :
    P (body.inChild x kind below shared h).1.2 ∧ K (body.inChild x kind below shared h).2 := by
  obtain ⟨hP', hK'⟩ := hI.child kind below shared hP hK
  exact hb ⟨_, _⟩ hP' hK'

theorem Upholds.nested {body : Body V σ α} (hI : Host.Invariant P K) (hb : body.Upholds P K) :
    (nested body).Upholds P K := by
  intro s hP hK
  rw [run_nested]
  split
  · exact ⟨hP, hK⟩
  · have hchild := hI.pinning hK s.context.holds
      fun g hg => (hb.inChild hI hP hg .nested s.context.layers none).2
    dsimp only
    split
    · exact ⟨hP, hchild⟩
    · exact ⟨hI.adopt _ hP, hchild⟩

theorem Upholds.performTask {task : Task V σ α} {run : Nat} (hI : Host.Invariant P K)
    (hb : (task.body run).Upholds P K) {x : Context V} {h : Host V σ} (hP : P x) (hK : K h)
    (below : List (Layer V)) (shared : WriteSet V) :
    K (performTask x below task run shared h).2.2 :=
  (hb.inChild hI hP hK _ _ _).2

theorem upholds_firstRuns {tasks : List (Task V σ α)} (hI : Host.Invariant P K)
    (ht : ∀ task ∈ tasks, ∀ run, (task.body run).Upholds P K) {x : Context V} {h : Host V σ}
    (hP : P x) (hK : K h) (shared : WriteSet V) : K (firstRuns x tasks shared h).2 := by
  induction tasks generalizing shared h with
  | nil => exact hK
  | cons task rest ih =>
    obtain ⟨htask, hrest⟩ := List.forall_mem_cons.1 ht
    exact hI.pinning ((htask 1).performTask hI hP hK x.layers shared) _ fun g hg => ih hrest hg _

theorem upholds_settle {task : Task V σ α} (hI : Host.Invariant P K)
    (ht : ∀ run, (task.body run).Upholds P K) {x : Context V} {h : Host V σ} (hP : P x) (hK : K h)
    (a : α) (e : Contribution V) (b : Batch V) (shared : Option (WriteSet V)) :
    K (settle x task a e b shared h).2 := by
  unfold settle
  split
  · exact hK
  · split <;> exact hK
  · split
    · exact hK
    · exact (ht 2).performTask hI hP (hI.rerun hP hK) _ _

theorem upholds_mergeRuns {x : Context V} (hI : Host.Invariant P K) (hP : P x)
    {outcomes : List (Task V σ α × Except Error (α × Contribution V))}
    (ht : ∀ o ∈ outcomes, ∀ run, (o.1.body run).Upholds P K) {h : Host V σ} (hK : K h)
    (b : Batch V) (shared : Option (WriteSet V)) : K (mergeRuns x outcomes b shared h).2 := by
  induction outcomes generalizing b shared h with
  | nil => exact hK
  | cons o rest ih =>
    obtain ⟨task, o⟩ := o
    obtain ⟨htask, hrest⟩ := List.forall_mem_cons.1 ht
    cases o with
    | error err => exact hK
    | ok ae =>
      obtain ⟨a, e⟩ := ae
      have hset := fun cells => hI.pinning hK cells
        fun g hg => upholds_settle hI htask hP hg a e b shared
      unfold mergeRuns
      dsimp only
      split
      · exact hset _
      · split
        · exact hset _
        · exact ih hrest (hset _) _ _

theorem upholds_parallel {tasks : List (Task V σ α)} (hI : Host.Invariant P K)
    (ht : ∀ task ∈ tasks, ∀ run, (task.body run).Upholds P K) : Upholds P K (parallel tasks) := by
  intro s hP hK
  rw [run_parallel]
  split
  · exact ⟨hP, hK⟩
  · have hmerge := hI.pinning hK s.context.holds (f := fun h =>
        let ((outcomes, shared), h) := firstRuns s.context tasks ∅ h
        mergeRuns s.context (tasks.zip outcomes) {} (some shared) h) fun g hg =>
      upholds_mergeRuns hI hP (fun o ho => ht o.1 (List.of_mem_zip ho).1)
        (upholds_firstRuns hI ht hP hg ∅) {} _
    dsimp only
    split
    · exact ⟨hP, hmerge⟩
    · exact ⟨hI.adopt _ hP, hmerge⟩

end Body

end VersionedMemory
