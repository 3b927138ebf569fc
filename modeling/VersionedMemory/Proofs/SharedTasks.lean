import Mathlib.Data.List.Forall2
import VersionedMemory.Proofs.WriteLog
import VersionedMemory.Proofs.FanOut

/-!
# Tasks with shared writes

Tasks that share a buffer write into it past their own, and read through it. In terms of slates they
are siblings: each starts over all that those before it wrote, one that failed included, and what
they wrote is one log. The log reaches the context that opened the batch only if every task
succeeded, and all of it at once. Where the engine picks modes even-handedly, that is what the
context holds after the same bodies were nested in it in turn.

## Main definitions

* `Slate.siblings` is what bodies come to that share one log.
* `Slate.inTurn` is what bodies come to that are nested one after the other.
* `Context.Ready` is what a batch asks of the context that opens it.
* `Program.RunAsSiblings` says that tasks with shared writes are siblings over one log.

## Main statements

* `Body.firstRuns_sharing`: tasks with shared writes come to what their bodies come to as siblings.
* `Body.parallel_sharing`: what reaches the context of that, and when.
* `Slate.inTurn_of_siblings`: where modes are chosen even-handedly, siblings that all succeed do
  what they do when nested in turn.
* `shared_tasks_as_siblings`: a batch of such tasks as a whole.
-/

namespace VersionedMemory

variable {V σ α R : Type}

/-- A task that shares its writes with others, of which every execution has the same body. -/
def Task.sharing (body : Body V σ R) : Task V σ R := ⟨.shared, fun _ => body⟩

namespace Slate

/-- Bodies one after the other, each on a slate of its own over all that those before it wrote. -/
def siblings (mode : Mode) : List (Slate V → Except Error α × Slate V) → List (CellId × V) →
    List (Except Error α × Slate V)
  | [], _ => []
  | f :: fs, log => f (start mode log) :: siblings mode fs ((f (start mode log)).2.writes ++ log)

/-- What the bodies wrote, newest first. -/
def written : List (Except Error α × Slate V) → List (CellId × V)
  | [] => []
  | o :: os => written os ++ o.2.writes

/-- What the bodies recorded. -/
def recorded : List (Except Error α × Slate V) → ReadSet
  | [] => ∅
  | o :: os => ReadSet.merge o.2.reads (recorded os)

theorem length_siblings (mode : Mode) (fs : List (Slate V → Except Error α × Slate V))
    (log : List (CellId × V)) : (siblings mode fs log).length = fs.length := by
  induction fs generalizing log with
  | nil => rfl
  | cons f fs ih => rw [siblings, List.length_cons, List.length_cons, ih]

/-- Nest bodies one after the other. -/
def inTurn (txn : TxnId) (choose : ChildKind → Mode → Mode) :
    List (Slate V → Except Error α × Slate V) → Slate V → Except Error (List α) × Slate V
  | [], d => (.ok [], d)
  | f :: fs, d =>
    match d.nest txn (choose .nested d.mode) f with
    | (.error e, d) => (.error e, d)
    | (.ok a, d) => ((inTurn txn choose fs d).1.map (a :: ·), (inTurn txn choose fs d).2)

theorem mapM_cons_of_error {o : Except Error α × Slate V} {e : Error} (h : o.1 = .error e)
    (os : List (Except Error α × Slate V)) : (o :: os).mapM Prod.fst = .error e := by
  rw [List.mapM_cons, h]
  rfl

theorem mapM_cons_of_ok {o : Except Error α × Slate V} {a : α} (h : o.1 = .ok a)
    (os : List (Except Error α × Slate V)) :
    (o :: os).mapM Prod.fst = (os.mapM Prod.fst).map (a :: ·) := by
  rw [List.mapM_cons, h]
  cases os.mapM Prod.fst <;> rfl

end Slate

/-! ### The tasks -/

/-- The programs as tasks that share their writes. -/
def Program.sharing [Inhabited V] (ps : List (Program V R)) : List (Task V σ R) :=
  (ps.map Program.run).map .sharing

/-- What the programs come to over one log, as children of a context that are siblings. -/
def Program.siblings [Inhabited V] (ps : List (Program V R)) (s : Store V) (x : Context V)
    (choose : ChildKind → Mode → Mode) : List (Except Error R × Slate V) :=
  Slate.siblings (choose (.task .shared) x.mode) (ps.map (·.onSlate s x choose)) []

/-- What a task hands over is what its slate says, apart from the writes, which are shared. -/
def Slate.Handed [Inhabited V] (s : Store V) (o : Except Error α × Slate V)
    (out : Except Error (α × Contribution V)) : Prop :=
  out.map Prod.fst = o.1 ∧ ∀ a e, out = .ok (a, e) → e.Holds s [] o.2.reads

namespace Body

open Context

variable [Inhabited V] {s : Store V} {x : Context V} {choose : ChildKind → Mode → Mode}

/-- A task comes to what its body comes to over the shared writes, and adds its own to them. -/
theorem performTask_sharing {body : Body V σ α} {f : Slate V → Except Error α × Slate V}
    (hf : body.Mirrors s x choose f) {log : List (CellId × V)} {shared : WriteSet V}
    (hs : ∀ c, Table.get? shared c = s.pending log c) {h : Host V σ}
    (hh : h.Serves s x.engine choose) :
    ∃ out shared' h', performTask x x.layers (.sharing body) 1 shared h = (out, shared', h') ∧
      Slate.Handed s (f (.start (choose (.task .shared) x.mode) log)) out ∧
      (∀ c, Table.get? shared' c =
        s.pending ((f (.start (choose (.task .shared) x.mode) log)).2.writes ++ log) c) ∧
      h'.Serves s x.engine choose := by
  have hover : ∀ mode, (x.child (.task .shared) mode x.layers (some shared)).Overlies s x log :=
    fun mode => ⟨rfl, rfl, rfl, rfl, fun _ => rfl,
      fun c a hc => Store.pending_typed ((hs c).symm.trans hc), fun c => by
        rw [writeFor_eq fun _ => rfl, ← hs]
        rfl⟩
  obtain ⟨u, h', hrun, hu, ha, hh'⟩ := hf.inChild (.task .shared) (some shared) hover hh rfl
  generalize f (.start (choose (.task .shared) x.mode) log) = o at hrun hu ⊢
  refine ⟨handOver (o.1, u), u.shared.getD shared, h', ?_, ?_, fun c => ?_, hh'⟩
  · unfold performTask
    simp only [Task.sharing, if_true]
    rw [hrun]
  · rw [handOver_eq ha]
    refine ⟨by cases o.1 <;> rfl, fun a e he => ?_⟩
    obtain ⟨_, -, hpair⟩ := map_eq_ok_iff.1 he
    cases hpair
    exact hu.handed
  · obtain ⟨ws, hws⟩ := Option.isSome_iff_exists.1 hu.shared
    have hw := hu.writes c
    simp only [buffer, hws, child, Option.getD_some] at hw
    rw [hws, Option.getD_some, hw, hs, Store.pending_append]

/-- The first runs of tasks with shared writes hand over what the slates of their programs say, as
siblings, and the shared buffer holds all that was written. -/
theorem firstRuns_sharing {ps : List (Program V α)} (hps : ∀ p ∈ ps, p.Plain)
    (ha : x.status = .active) {log : List (CellId × V)} {shared : WriteSet V}
    (hs : ∀ c, Table.get? shared c = s.pending log c) {h : Host V σ}
    (hh : h.Serves s x.engine choose) :
    let os := Slate.siblings (choose (.task .shared) x.mode) (ps.map (·.onSlate s x choose)) log
    ∃ outs shared' h', firstRuns x ((ps.map Program.run).map .sharing) shared h =
        ((outs, shared'), h') ∧ List.Forall₂ (Slate.Handed s) os outs ∧
      ∀ c, Table.get? shared' c = s.pending (Slate.written os ++ log) c := by
  induction ps generalizing log shared h with
  | nil => exact ⟨[], shared, h, rfl, .nil, hs⟩
  | cons p ps ih =>
    obtain ⟨hp, hps⟩ := List.forall_mem_cons.1 hps
    obtain ⟨out, shared₁, h₁, hrun, hout, hs₁, hh₁⟩ :=
      performTask_sharing (Program.Plain.mirrors (σ := σ) ha p hp) hs hh
    obtain ⟨outs, shared₂, h₂, hrest, houts, hs₂⟩ :=
      ih hps hs₁ (hh₁.pin (outcomeHolds out ++ shared₁.targets ++ h₁.world.pinned))
    refine ⟨out :: outs, shared₂, { h₂ with world.pinned := h₁.world.pinned }, ?_,
      .cons hout houts, fun c => ?_⟩
    · simp only [List.map_cons, firstRuns, hrun, Host.pinning, hrest]
    · rw [hs₂, ← List.append_assoc]
      rfl

/-! ### The merge -/

/-- The merge comes to the first failure of the bodies, or to their results and a batch with their
reads added. -/
def Adds (os : List (Except Error α × Slate V)) (b : Batch V)
    (merge : Except Error (List α × Batch V)) : Prop :=
  match os.mapM Prod.fst with
  | .error e => merge = .error e
  | .ok as => ∃ b', merge = .ok (as, b') ∧
      (∀ c, b'.merged.writes.get? c = b.merged.writes.get? c) ∧
      (∀ c, b'.merged.deltas.get? c = b.merged.deltas.get? c) ∧
      ∀ c, b'.merged.reads.get? c = (b.merged.reads.get? c).or ((Slate.recorded os).get? c)

omit [Inhabited V] in
theorem adds_nil (b : Batch V) : Adds (α := α) [] b (.ok ([], b)) :=
  ⟨b, rfl, fun _ => rfl, fun _ => rfl, fun c => by simp [Slate.recorded]⟩

/-- A task hands over reads only. The shared writes come into the batch beside it, if they come. -/
theorem Adds.cons {o : Except Error α × Slate V} {out : Except Error (α × Contribution V)}
    {os : List (Except Error α × Slate V)} {body : Body V σ α} {b b₁ : Batch V}
    {shared : Option (WriteSet V)} {h : Host V σ}
    {rest : List (Task V σ α × Except Error (α × Contribution V))} (ho : Slate.Handed s o out)
    (hset : ∀ a e (g : Host V σ), settle x (.sharing body) a e b shared g = (.ok (a, e, b₁), g))
    (hrest : ∀ b₂, Adds os b₂ (mergeRuns x rest b₂ none h).1) :
    Adds (o :: os) b₁ (mergeRuns x ((.sharing body, out) :: rest) b shared h).1 := by
  obtain ⟨hres, hholds⟩ := ho
  rcases out with err | ⟨a, e⟩
  · unfold Adds
    rw [Slate.mapM_cons_of_error hres.symm]
    rfl
  · have he := hholds a e rfl
    obtain ⟨b₂, hadd, hj⟩ := Batch.exists_add_of_merges (b := b₁) (e := e)
      (fun c _ d _ hd => by rw [he.writes] at hd; cases hd)
      (fun c _ d _ hd => by rw [he.deltas] at hd; cases hd)
    have hmerge : (mergeRuns x ((.sharing body, .ok (a, e)) :: rest) b shared h).1 =
        (mergeRuns x rest b₂ none h).1.map fun r => (a :: r.1, r.2) := by
      simp only [mergeRuns, Host.pinning, hset, hadd]
      rfl
    have hrest := hrest b₂
    unfold Adds at hrest ⊢
    rw [Slate.mapM_cons_of_ok hres.symm, hmerge]
    cases hm : os.mapM Prod.fst with
    | error err =>
      rw [hm] at hrest
      rw [hrest]
      rfl
    | ok as =>
      rw [hm] at hrest
      obtain ⟨b', hok, hw, hd, hr⟩ := hrest
      refine ⟨b', by rw [hok]; rfl, fun c => ?_, fun c => ?_, fun c => ?_⟩
      · rw [hw, hj.writes, he.writes, Store.pending_nil, Option.merge_none_right]
      · rw [hd, hj.deltas, he.deltas, Option.merge_none_right]
      · rw [hr, hj.reads, he.reads, Slate.recorded, ReadSet.get?_merge, Option.or_assoc]

/-- Once the shared writes are in, the merge goes on with the reads. -/
theorem adds_mergeRuns {os : List (Except Error α × Slate V)}
    {outs : List (Except Error (α × Contribution V))}
    (hout : List.Forall₂ (Slate.Handed s) os outs) {bodies : List (Body V σ α)}
    (hlen : bodies.length = os.length) (b : Batch V) (h : Host V σ) :
    Adds os b (mergeRuns x ((bodies.map .sharing).zip outs) b none h).1 := by
  induction hout generalizing bodies b with
  | nil =>
    rw [List.zip_nil_right]
    exact adds_nil b
  | cons ho hout ih =>
    obtain ⟨body, bodies, rfl⟩ := List.exists_cons_of_length_eq_add_one hlen
    exact .cons ho (fun _ _ _ => rfl) (ih (Nat.succ.inj hlen))

/-- The first task brings in all that was written, the others add their reads. -/
theorem mergeRuns_sharing {os : List (Except Error α × Slate V)}
    {outs : List (Except Error (α × Contribution V))}
    (hout : List.Forall₂ (Slate.Handed s) os outs) {bodies : List (Body V σ α)}
    (hlen : bodies.length = os.length) {ws : WriteSet V}
    (hws : ∀ c, Table.get? ws c = s.pending (Slate.written os) c) (h : Host V σ) :
    let merge := mergeRuns x ((bodies.map .sharing).zip outs) {} (some ws) h
    match os.mapM Prod.fst with
    | .error e => merge.1 = .error e
    | .ok as => ∃ b, merge.1 = .ok (as, b) ∧
        b.merged.Holds s (Slate.written os) (Slate.recorded os) := by
  intro merge
  obtain ⟨b, hb, hadds⟩ : ∃ b : Batch V, b.merged.Holds s (Slate.written os) ∅ ∧
      Adds os b merge.1 := by
    cases hout with
    | nil =>
      refine ⟨{}, ⟨fun _ => rfl, fun _ => rfl, fun _ => rfl⟩, ?_⟩
      simp only [merge, List.zip_nil_right]
      exact adds_nil {}
    | cons ho hout =>
      obtain ⟨body, bodies, rfl⟩ := List.exists_cons_of_length_eq_add_one hlen
      have hmerges : WriteSet.Merges ∅ ws := fun _ _ _ ha => by cases ha
      obtain ⟨ws', hstage, hget⟩ := WriteSet.exists_stageAll hmerges
      refine ⟨⟨{ writes := ws' }, ws.keys⟩, ⟨fun c => ?_, fun _ => rfl, fun _ => rfl⟩, ?_⟩
      · rw [hget, Table.get?_empty, Option.merge_none_left, hws]
      · refine .cons ho (fun a e g => ?_) (adds_mergeRuns hout (Nat.succ.inj hlen) · h)
        simp [settle, Task.sharing, Batch.addWrites, hstage, Except.map]
  unfold Adds at hadds
  cases hm : os.mapM Prod.fst with
  | error e =>
    rw [hm] at hadds
    exact hadds
  | ok as =>
    rw [hm] at hadds
    obtain ⟨b', hok, hw, hd, hr⟩ := hadds
    exact ⟨b', hok, fun c => (hw c).trans (hb.writes c), fun c => (hd c).trans (hb.deltas c),
      fun c => by rw [hr, hb.reads, Table.get?_empty, Option.none_or]⟩

/-! ### The batch -/

/-- A batch of plain programs with shared writes fails with the first failure of the siblings, or
the context takes over at once what these wrote and recorded. -/
theorem parallel_sharing {ps : List (Program V α)} (hps : ∀ p ∈ ps, p.Plain)
    (hx : x.Overlies s x []) {h : Host V σ} (hh : h.Serves s x.engine choose) :
    let os := Program.siblings ps s x choose
    let d := (Slate.start x.mode []).take x.id (Slate.written os) (Slate.recorded os)
    let t := (parallel (Program.sharing ps)).run ⟨x, h⟩
    (∀ e, os.mapM Prod.fst = .error e → t.1 = .error e ∧ t.2.context = x) ∧
      ∀ as, os.mapM Prod.fst = .ok as →
        t.1 = d.1.map (fun () => as) ∧ t.2.context.Carries s x d.2 := by
  intro os d t
  have hempty : ∀ c, Table.get? (∅ : WriteSet V) c = s.pending [] c := fun _ => rfl
  obtain ⟨outs, shared, h₁, hfirst, houts, hshared⟩ :=
    firstRuns_sharing (σ := σ) hps hx.active hempty (hh.pin (x.holds ++ h.world.pinned))
  have hlen : (ps.map (Program.run (σ := σ))).length = os.length := by
    simp [os, Program.siblings, Slate.length_siblings]
  change List.Forall₂ (Slate.Handed s) os outs at houts
  have hmerge := mergeRuns_sharing (x := x) houts hlen
    (fun c => (hshared c).trans (congrArg (s.pending · c) (List.append_nil _))) h₁
  simp only [t, Program.sharing, run_parallel, checkActive_eq_ok hx.active, Host.pinning, hfirst]
  refine ⟨fun e he => ?_, fun as has => ?_⟩
  · rw [he] at hmerge
    dsimp only at hmerge ⊢
    rw [hmerge]
    exact ⟨rfl, rfl⟩
  · rw [has] at hmerge
    obtain ⟨b, hok, hb⟩ := hmerge
    obtain ⟨z, hadopt, hz⟩ := (carries_start x []).take hx hb
    rw [hok]
    dsimp only
    rw [hadopt]
    exact ⟨rfl, hz⟩

/-- Plain programs that are nested in turn do what they do in turn on a slate. -/
theorem mirrors_inTurn {ps : List (Program V α)} (hps : ∀ p ∈ ps, p.Plain)
    (ha : x.status = .active) : (inTurn (ps.map Program.run) : Body V σ (List α)).Mirrors s x choose
      (Slate.inTurn x.id choose (ps.map (·.onSlate s x choose))) := by
  induction ps with
  | nil => exact mirrors_pure fun _ => rfl
  | cons p ps ih =>
    obtain ⟨hp, hps⟩ := List.forall_mem_cons.1 hps
    intro d y z h hy hz hh
    have hnested : (p.run : Body V σ α).nested.Mirrors s x choose _ :=
      (Program.Plain.mirrors ha p hp).nested
    obtain ⟨z₁, h₁, hrun, hz₁, hh₁, hbelow⟩ := hnested d y z h hy hz hh
    rw [List.map_cons, List.map_cons, run_inTurn_cons, hrun]
    unfold Slate.inTurn
    generalize d.nest x.id (choose .nested d.mode) (p.onSlate s x choose) = o at hz₁ hbelow ⊢
    obtain ⟨err | a, d₁⟩ := o
    · exact ⟨z₁, h₁, rfl, hz₁, hh₁, hbelow⟩
    · obtain ⟨z₂, h₂, hrest, hz₂, hh₂, hbelow₂⟩ := ih hps d₁ y z₁ h₁ (hbelow ▸ hy) hz₁ hh₁
      refine ⟨z₂, h₂, ?_, hz₂, hh₂, hbelow₂.trans hbelow⟩
      dsimp only
      rw [hrest]

end Body

/-! ### In turn -/

namespace Slate

variable {choose : ChildKind → Mode → Mode}

section

variable {txn : TxnId} {d d₁ inner : Slate V} {f : Slate V → Except Error α × Slate V} {a : α}

/-- A body that succeeds is entered, and the others follow over what it wrote. -/
theorem inTurn_cons_of_ok (hf : f (start (choose .nested d.mode) d.log) = (.ok a, inner))
    (hd : d.take txn inner.writes inner.reads = (.ok (), d₁))
    (fs : List (Slate V → Except Error α × Slate V)) :
    inTurn txn choose (f :: fs) d =
      ((inTurn txn choose fs d₁).1.map (a :: ·), (inTurn txn choose fs d₁).2) := by
  rw [inTurn, nest_of_ok hf, hd]
  rfl

/-- What a nested body wrote may be refused, and then nothing follows. -/
theorem inTurn_cons_of_readOnly (hf : f (start (choose .nested d.mode) d.log) = (.ok a, inner))
    (hw : inner.writes ≠ []) (hd : d.mode = .readOnly)
    (fs : List (Slate V → Except Error α × Slate V)) :
    inTurn txn choose (f :: fs) d = (.error (.illegal (.writeInReadOnly txn)), d) := by
  rw [inTurn, nest_of_ok hf, take_of_readOnly hd, if_neg hw]
  rfl

/-- To enter what one body did, and then what the others did, is to enter all of it at once. -/
theorem take_cons {o : Except Error α × Slate V} (ho : o.2.Alike inner)
    (hd : d.take txn inner.writes inner.reads = (.ok (), d₁))
    (os : List (Except Error α × Slate V)) :
    let others := d₁.take txn (written os) (recorded os)
    let all := d.take txn (written (o :: os)) (recorded (o :: os))
    others.1 = all.1 ∧ others.2.mode = all.2.mode ∧ others.2.Alike all.2 := by
  have hboth : ∀ c, (recorded (o :: os)).get? c =
      (inner.reads.get? c).or ((recorded os).get? c) := fun c => by
    rw [recorded, ReadSet.get?_merge, ho.reads]
  rw [written, ho.writes]
  exact take_take hd (written os) hboth

end

/-- Siblings that all succeed do what they do when they are nested in turn: what they wrote and
recorded is entered one after the other there, and all at once in a batch. -/
theorem inTurn_of_siblings (hc : EvenHanded choose)
    {fs : List (Slate V → Except Error α × Slate V)} (hfs : ∀ f ∈ fs, Fair f) (txn : TxnId)
    {mode : Mode} {d : Slate V} (hm : mode = .readOnly ↔ d.mode = .readOnly) {as : List α} :
    let os := siblings (choose (.task .shared) mode) fs d.log
    let turn := inTurn txn choose fs d
    let batch := d.take txn (written os) (recorded os)
    os.mapM Prod.fst = .ok as → turn.1 = batch.1.map (fun () => as) ∧
      turn.2.mode = batch.2.mode ∧ turn.2.Alike batch.2 := by
  intro os turn batch hos
  induction fs generalizing d as with
  | nil =>
    have hbatch : batch = (.ok (), d) := take_nil
    cases hos
    rw [hbatch]
    exact ⟨rfl, rfl, .refl d⟩
  | cons f fs ih =>
    obtain ⟨hf, hfs⟩ := List.forall_mem_cons.1 hfs
    have hinner := hf (.start (choose (.task .shared) mode) d.log)
      (.start (choose .nested d.mode) d.log)
      ⟨hc _ (by simp) _ _ hm, rfl, rfl, fun _ => rfl⟩
    rcases ho : f (.start (choose (.task .shared) mode) d.log) with ⟨r, inner⟩
    rcases ho' : f (.start (choose .nested d.mode) d.log) with ⟨r', inner'⟩
    rw [ho, ho'] at hinner
    obtain ⟨rfl, hinner⟩ : r = r' ∧ inner.Alike inner' := hinner
    simp only [os, siblings, ho] at hos
    simp only [turn, batch, os, siblings, ho]
    cases r with
    | error e =>
      rw [mapM_cons_of_error rfl] at hos
      cases hos
    | ok a =>
      rw [mapM_cons_of_ok rfl] at hos
      obtain ⟨as, hrun, rfl⟩ := map_eq_ok_iff.1 hos
      generalize hrest : siblings (choose (.task .shared) mode) fs (inner.writes ++ d.log) = rest
        at hrun ⊢
      by_cases hro : inner.writes ≠ [] ∧ d.mode = .readOnly
      · -- the batch is refused for what this body wrote, whatever the others wrote
        rw [inTurn_cons_of_readOnly ho' (hinner.writes ▸ hro.1) hro.2, take_of_readOnly hro.2,
          written, if_neg (List.append_ne_nil_of_right_ne_nil _ hro.1)]
        exact ⟨rfl, rfl, .refl d⟩
      · obtain ⟨d₁, hd₁⟩ : ∃ d₁, d.take txn inner'.writes inner'.reads = (.ok (), d₁) :=
          ⟨_, if_neg (hinner.writes ▸ hro)⟩
        have hm₁ : mode = .readOnly ↔ d₁.mode = .readOnly := by
          rw [hm, ← readOnly_take d txn inner'.writes inner'.reads, hd₁]
        have hlog : d₁.log = inner'.writes ++ d.log := log_take hd₁
        obtain ⟨hans, hmode, halike⟩ := take_cons (o := (.ok a, inner)) hinner hd₁ rest
        rw [hinner.writes, ← hlog] at hrest
        obtain ⟨hans', hmode', halike'⟩ := ih hfs hm₁ (by rw [hrest]; exact hrun)
        rw [hrest] at hans' hmode' halike'
        rw [inTurn_cons_of_ok ho' hd₁]
        refine ⟨?_, hmode'.trans hmode, halike'.trans halike⟩
        rw [← hans, hans']
        cases (d₁.take txn (written rest) (recorded rest)).1 <;> rfl

end Slate

/-- Contexts that carry the same beyond the same context hold the same changes and reads. -/
theorem Context.Carries.alike [Inhabited V] {s : Store V} {y z z' : Context V} {d d' : Slate V}
    (h : z.Carries s y d) (h' : z'.Carries s y d') (ha : d.Alike d') (c : CellId) :
    z.buffer.get? c = z'.buffer.get? c ∧ z.deltas.get? c = z'.deltas.get? c ∧
      z.reads.get? c = z'.reads.get? c :=
  ⟨by rw [h.writes, h'.writes, ha.writes], by rw [h.deltas, h'.deltas],
    by rw [h.reads, h'.reads, ha.reads]⟩

/-! ### Batches -/

/-- The mode in which an engine opens a child of a context in `mode`. -/
def Engine.childMode (g : Engine) (kind : ChildKind) (mode : Mode) : Mode :=
  (g.openChild kind mode).1

/-- An engine that was told nothing treats all children alike. -/
theorem Engine.evenHanded_childMode {g : Engine} (h : g.hooks.modeOfChild = none) :
    EvenHanded g.childMode := by
  intro kind _ m m' hm
  simp [childMode, openChild, h, hm]

/-- The context is active, its writes are all in the buffer that takes writes, and what is buffered
there assigns values of the types of the cells. -/
structure Context.Ready [Inhabited V] (s : Store V) (x : Context V) : Prop where
  active : x.status = .active
  own : x.shared.isSome = true → x.writes = ∅
  typed : ∀ c a, x.buffer.get? c = some a → ∃ value, a = ⟨c, (s.cell c).type, .assign value⟩

theorem Context.Lawful.ready [Inhabited V] {s : Store V} {ops : CellId → V → V → V}
    {x : Context V} (h : x.Lawful s ops) (ha : x.status = .active) : x.Ready s :=
  ⟨ha, h.own, h.within.buffer⟩

theorem Context.Ready.overlies [Inhabited V] {s : Store V} {x : Context V} (h : x.Ready s) :
    x.Overlies s x [] :=
  ⟨rfl, rfl, rfl, h.active, h.own, h.typed, fun _ => rfl⟩

theorem Slate.map_fst_of_handed [Inhabited V] {s : Store V}
    {os : List (Except Error α × Slate V)} {outs : List (Except Error (α × Contribution V))}
    (h : List.Forall₂ (Slate.Handed s) os outs) :
    outs.map (·.map Prod.fst) = os.map Prod.fst := by
  induction h with
  | nil => rfl
  | cons ho _ ih => rw [List.map_cons, List.map_cons, ho.1, ih]

/-- The answers are the same, and the contexts hold the same changes and reads in the same mode. -/
structure Session.EndAlike (o o' : Except Error α × Session V σ) : Prop where
  answer : o.1 = o'.1
  mode : o.2.context.mode = o'.2.context.mode
  buffer : ∀ c, o.2.context.buffer.get? c = o'.2.context.buffer.get? c
  deltas : ∀ c, o.2.context.deltas.get? c = o'.2.context.deltas.get? c
  reads : ∀ c, o.2.context.reads.get? c = o'.2.context.reads.get? c

/-- As tasks with shared writes over the context, programs come to `os`, which is what they come to
as siblings over one log. -/
structure Program.RunAsSiblings [Inhabited V] (ps : List (Program V R)) (x : Context V)
    (h : Host V σ) (os : List (Except Error R × Slate V)) : Prop where
  /-- A read is answered by the newest write to its cell, by the task itself or by one before it,
  else by the context that opened the batch. -/
  first : (Body.firstRuns x (sharing ps) ∅ h).1.1.map (·.map Prod.fst) = os.map Prod.fst
  /-- If a task fails, the first failure is the answer and the context stays as it is. -/
  failed : ∀ e, os.mapM Prod.fst = .error e →
    ((Body.parallel (sharing ps)).run ⟨x, h⟩).1 = .error e ∧
      ((Body.parallel (sharing ps)).run ⟨x, h⟩).2.context = x
  /-- If all succeed, the context holds the newest write of the log to each cell. -/
  written : ∀ as, os.mapM Prod.fst = .ok as → Slate.written os = [] ∨ x.mode ≠ .readOnly →
    ((Body.parallel (sharing ps)).run ⟨x, h⟩).1 = .ok as ∧
      ∀ c, ((Body.parallel (sharing ps)).run ⟨x, h⟩).2.context.buffer.get? c =
        (h.world.store.pending (Slate.written os) c).or (x.buffer.get? c)
  /-- If all succeed, and the engine picks modes even-handedly, then the batch ends as the programs
  do that are nested one after the other. -/
  inTurn : ∀ as, os.mapM Prod.fst = .ok as → EvenHanded (h.world.engine x.engine).childMode →
    Session.EndAlike ((Body.parallel (sharing ps)).run ⟨x, h⟩)
      ((Body.inTurn (ps.map Program.run)).run ⟨x, h⟩)

/-- Tasks with shared writes are siblings over one log, whatever the context has buffered and the
engine chooses as the modes of children. -/
theorem shared_tasks_as_siblings [Inhabited V] {ps : List (Program V R)} (hps : ∀ p ∈ ps, p.Plain)
    {x : Context V} {h : Host V σ} (hx : x.Ready h.world.store) :
    Program.RunAsSiblings ps x h
      (Program.siblings ps h.world.store x (h.world.engine x.engine).childMode) := by
  have hserves : h.Serves h.world.store x.engine (h.world.engine x.engine).childMode :=
    ⟨rfl, fun _ _ => rfl⟩
  obtain ⟨hfailed, hdone⟩ := Body.parallel_sharing hps hx.overlies hserves
  refine ⟨?_, hfailed, fun as has hlegal => ?_, fun as has hc => ?_⟩
  · have hempty : ∀ c, Table.get? (∅ : WriteSet V) c = h.world.store.pending [] c := fun _ => rfl
    obtain ⟨outs, shared, h', hfirst, houts, -⟩ :=
      Body.firstRuns_sharing (σ := σ) hps hx.active hempty hserves
    unfold Program.sharing
    rw [hfirst]
    exact Slate.map_fst_of_handed houts
  · obtain ⟨hres, hcarries⟩ := hdone as has
    let os := Program.siblings ps h.world.store x (h.world.engine x.engine).childMode
    have hok : (Slate.start x.mode []).take x.id (Slate.written os) (Slate.recorded os) = _ :=
      if_neg fun hro => hlegal.elim hro.1 fun hm => hm hro.2
    rw [hok] at hres hcarries
    have hnil : Slate.written os ++ (Slate.start x.mode []).writes = Slate.written os :=
      List.append_nil _
    exact ⟨hres, fun c => hnil ▸ hcarries.writes c⟩
  · obtain ⟨hres, hcarries⟩ := hdone as has
    obtain ⟨z, h', hturn, hz, -, -⟩ := Body.mirrors_inTurn hps hx.active (.start x.mode []) x x h
      hx.overlies (Context.carries_start x []) hserves
    have hfair : ∀ f ∈ ps.map (·.onSlate h.world.store x (h.world.engine x.engine).childMode),
        Slate.Fair f := List.forall_mem_map.2 fun p hp => Program.Plain.fair hc p (hps p hp)
    obtain ⟨hans, hmode, halike⟩ :=
      Slate.inTurn_of_siblings hc hfair x.id (d := .start x.mode []) .rfl has
    have hsame := hcarries.alike hz halike.symm
    rw [hturn]
    exact {
      answer := hres.trans hans.symm
      mode := hcarries.mode.trans (hmode.symm.trans hz.mode.symm)
      buffer := fun c => (hsame c).1
      deltas := fun c => (hsame c).2.1
      reads := fun c => (hsame c).2.2 }

/-- Two tasks over a context with a pending write. The first one writes to the cell of that, and a
body nested in it reads what it wrote and writes to another cell; the second one reads both. -/
theorem shared_tasks_with_nested :
    let w : World Nat := ((World.create [Engine.create]).createCell 0 0 0).2
    let x := ((Context.begin ⟨1⟩ 0 ⟨0, 0⟩ .readWrite).write (w.store.cell ⟨1⟩) 3).2
    let p : Program Nat Nat := .read ⟨1⟩ fun r => .write ⟨1⟩ (r.toOption.getD 0 + 1) fun _ =>
      .nested (.read ⟨1⟩ fun r => .write ⟨2⟩ (r.toOption.getD 0 * 10) fun _ => .done 0) fun _ =>
        .done (r.toOption.getD 0)
    let q : Program Nat Nat := .read ⟨1⟩ fun r => .read ⟨2⟩ fun r' =>
      .done (r.toOption.getD 0 + r'.toOption.getD 0)
    let h : Host Nat Unit := ⟨w, ()⟩
    let batch := (Body.parallel (Program.sharing [p, q])).run ⟨x, h⟩
    batch.1 = .ok [3, 44] ∧
      (batch.2.context.buffer.get? ⟨2⟩).bind (Change.assigned? · 0) = some 40 ∧
      Session.EndAlike batch ((Body.inTurn ([p, q].map Program.run)).run ⟨x, h⟩) := by
  intro w x p q h batch
  have hps : ∀ r ∈ [p, q], r.Plain := by
    refine List.forall_mem_cons.2 ⟨?_, List.forall_mem_singleton.2 fun _ _ => trivial⟩
    exact fun _ _ => ⟨fun _ _ => trivial, fun _ => trivial⟩
  have hlawful : x.Lawful w.store fun _ => (· + ·) :=
    (Context.lawful_begin ⟨1⟩ 0 ⟨0, 0⟩ .readWrite).call (.write ⟨1⟩ 3)
  have hsiblings := shared_tasks_as_siblings (h := h) hps (hlawful.ready rfl)
  have has : (Program.siblings [p, q] w.store x (w.engine x.engine).childMode).mapM Prod.fst =
      .ok [3, 44] := ok_of_toOption (by decide +kernel)
  obtain ⟨hres, hbuffer⟩ := hsiblings.written [3, 44] has (.inr (by decide +kernel))
  refine ⟨hres, ?_, hsiblings.inTurn [3, 44] has (Engine.evenHanded_childMode rfl)⟩
  rw [hbuffer]
  decide +kernel

/-- An engine that is not even-handed tells shared tasks from bodies nested in turn. If it runs only
nested bodies read-only, a task records what it reads and the nested body does not. If it runs
children read-only once the context below has written, two tasks may write and the second one of two
nested bodies may not. -/
theorem shared_tasks_ne_inTurn :
    let w (choose : ChildKind → Mode → Mode) : World Nat :=
      ((World.create [Engine.create {} { modeOfChild := some choose }]).createCell 0 0 0).2
    let byKind := w fun kind mode => if kind = .nested then .readOnly else mode
    let byMode := w fun _ mode => if mode = .readWrite then .readOnly else .readWrite
    let x (mode : Mode) : Context Nat := .begin ⟨1⟩ 0 ⟨0, 0⟩ mode
    let read : Body Nat Unit Nat := Program.run (.read ⟨1⟩ fun r => .done (r.toOption.getD 5))
    let write : Body Nat Unit Nat :=
      Program.run (.write ⟨1⟩ 7 fun r => .done (if r.toOption = some () then 1 else 0))
    (∃ t u, (Body.parallel [Task.sharing read]).run ⟨x .readWrite, byKind, ()⟩ = (.ok [0], t) ∧
      (Body.inTurn [read]).run ⟨x .readWrite, byKind, ()⟩ = (.ok [0], u) ∧
      t.context.reads.get? ⟨1⟩ = some 0 ∧ u.context.reads.get? ⟨1⟩ = none) ∧
    ∃ t u, (Body.parallel [Task.sharing write, Task.sharing write]).run
        ⟨x .speculative, byMode, ()⟩ = (.ok [1, 1], t) ∧
      (Body.inTurn [write, write]).run ⟨x .speculative, byMode, ()⟩ = (.ok [1, 0], u) := by
  intro w byKind byMode x read write
  exact ⟨⟨_, _, eq_of_toOption (by decide +kernel), eq_of_toOption (by decide +kernel),
      by decide +kernel, by decide +kernel⟩,
    _, _, eq_of_toOption (by decide +kernel), eq_of_toOption (by decide +kernel)⟩

end VersionedMemory
