import VersionedMemory.Proofs.ReadSets
import VersionedMemory.Proofs.Tracing

/-!
# What bodies record

The read-set of a context is what validation looks at when it commits, and what a child asked for is
what a batch looks at when it merges the child. So these have to hold every cell that the body read,
in whatever context, and they do, unless that context, or one that it was opened in, was given up.
The read-set has no need of what a pending write answered, and holds nothing of contexts that record
no reads.

## Main definitions

* `Visit.Kept` says which accesses a read-set has to answer for.
* `Context.Answers` says that what a context holds answers for accesses.
* `Body.Records` says that a context answers for every access that a body noted.

## Main statements

* `Program.traced_records`: traced programs record what they note.
-/

namespace VersionedMemory

variable {V α β R : Type}

/-- The access read a committed record, in contexts that record their reads and were not given
up. -/
structure Visit.Kept (v : Visit V) : Prop where
  read : v.record.isSome = true
  records : ∀ m ∈ v.modes, m.recordsReads = true
  lost : v.lost = false

/-- What was recorded, and what was asked for, answer for the access. -/
structure Visit.Answered (v : Visit V) (reads : ReadSet) (asked : CellId → Prop) : Prop where
  recorded : v.Kept → Table.contains reads v.cell = true
  asked : v.asks = true → v.lost = false → asked v.cell

/-- The context answers for the accesses. Only a child notes what it is asked for. -/
def Context.Answers (x : Context V) (vs : List (Visit V)) : Prop :=
  ∀ v ∈ vs, v.Answered x.reads fun c => x.isChild = true → c ∈ x.asked

/-- What is handed over answers for the access. -/
def Contribution.AnswersFor (e : Contribution V) (v : Visit V) : Prop :=
  v.Answered e.reads (· ∈ e.asked)

namespace Visit

variable {v : Visit V} {mode : Mode} {failed : Bool}

theorem kept_within : (v.within mode failed).Kept ↔
    v.Kept ∧ mode.recordsReads = true ∧ failed = false := by
  constructor
  · rintro ⟨hr, hm, hl⟩
    obtain ⟨hmode, hrest⟩ := List.forall_mem_cons.1 hm
    obtain ⟨hlost, hfailed⟩ := Bool.or_eq_false_iff.1 hl
    exact ⟨⟨hr, hrest, hlost⟩, hmode, hfailed⟩
  · rintro ⟨⟨hr, hrest, hlost⟩, hmode, hfailed⟩
    exact ⟨hr, List.forall_mem_cons.2 ⟨hmode, hrest⟩, Bool.or_eq_false_iff.2 ⟨hlost, hfailed⟩⟩

theorem answered_of_lost {reads : ReadSet} {asked : CellId → Prop} (h : v.lost = true) :
    v.Answered reads asked :=
  ⟨fun hk => absurd (hk.lost.symm.trans h) Bool.false_ne_true,
    fun _ hl => absurd (hl.symm.trans h) Bool.false_ne_true⟩

end Visit

/-- A context goes on to answer for what it answers for. -/
theorem Context.Answers.mono {x y : Context V} {vs : List (Visit V)} (h : x.Answers vs)
    (hk : x.Keeps y) : y.Answers vs := by
  intro v hv
  refine ⟨fun hkept => ?_, fun hasks hlost hy => ?_⟩
  · obtain ⟨n, hn⟩ := Option.isSome_iff_exists.1 ((h v hv).recorded hkept)
    exact Option.isSome_iff_exists.2 ⟨n, hk.reads _ _ hn⟩
  · exact hk.asked ((h v hv).asked hasks hlost (hk.isChild.symm.trans hy))

/-- Between two points of a run of a body, what was noted was recorded. -/
structure Recorded (s t : Session V (VisitLog V)) : Prop where
  keeps : s.context.Keeps t.context
  snapshot : t.context.snapshot = s.context.snapshot
  below : ReadSet.Below t.context.reads s.context.snapshot
  visits : ∃ new, t.host.client.visits = s.host.client.visits ++ new ∧
    t.context.Answers new
  batch : t.host.client.batch = s.host.client.batch

namespace Recorded

variable {s t u : Session V (VisitLog V)}

theorem refl (h : ReadSet.Below s.context.reads s.context.snapshot) : Recorded s s :=
  ⟨.refl _, rfl, h, ⟨[], (List.append_nil _).symm, nofun⟩, rfl⟩

theorem trans (h : Recorded s t) (h' : Recorded t u) : Recorded s u := by
  obtain ⟨new, hnew, hans⟩ := h.visits
  obtain ⟨new', hnew', hans'⟩ := h'.visits
  refine ⟨h.keeps.trans h'.keeps, h'.snapshot.trans h.snapshot, h.snapshot ▸ h'.below,
    ⟨new ++ new', by rw [hnew', hnew, List.append_assoc], fun v hv => ?_⟩,
    h'.batch.trans h.batch⟩
  rcases List.mem_append.1 hv with hv | hv
  · exact hans.mono h'.keeps v hv
  · exact hans' v hv

end Recorded

/-- A read that comes to a committed record records it, if the mode records reads. -/
theorem Context.contains_of_sighted [Inhabited V] {x : Context V} {s : Store V} {c : CellId}
    {r : Record V} (h : x.sighted s c = some r) (hm : x.mode.recordsReads = true) :
    (x.read (s.cell c)).2.reads.contains c = true := by
  unfold sighted at h
  dsimp only at h
  rw [Store.id_cell] at h
  split at h
  · next hc hv =>
    split at h
    · obtain ⟨r', hr⟩ : ∃ r', (s.cell c).readAt x.snapshot = .ok r' := by
        cases hr : (s.cell c).readAt x.snapshot with
        | error e => simp [hr, Except.toOption] at h
        | ok r' => exact ⟨r', rfl⟩
      have hv' : (x.touch c).valueFor c (s.cell c).type = .ok none := by
        unfold valueFor at hv ⊢
        rwa [writeFor_touch]
      unfold read
      simp [hc, hv', hr, observe, hm, Table.contains, Table.get?_insertNew]
    · cases h
  · cases h

theorem Context.mem_asked_of_read [Inhabited V] {x : Context V} {s : Store V} {c : CellId}
    (ha : x.isActive = true) (hx : x.isChild = true) : c ∈ (x.read (s.cell c)).2.asked := by
  have h := mem_asked_read hx (of_decide_eq_true ha) (s.cell c)
  rwa [Store.id_cell] at h

namespace Body

/-- The body records what it notes. -/
def Records (body : Body V (VisitLog V) α) : Prop :=
  ∀ s, ReadSet.Below s.context.reads s.context.snapshot → Recorded s (body.run s).2

theorem Records.attempt_bind {body : Body V (VisitLog V) α}
    {f : Except Error α → Body V (VisitLog V) β} (h : body.Records) (hf : ∀ r, (f r).Records) :
    (body.attempt >>= f).Records := by
  intro s hs
  have hfirst := h s hs
  exact hfirst.trans (hf _ _ (hfirst.snapshot ▸ hfirst.below))

/-! ### Accesses -/

section Accesses

variable [Inhabited V]

/-- An access that reads no cell, or records what it read. -/
theorem records_noting {f : World V → Context V → Except Error α × Context V} {c : CellId}
    {reads : Bool} (hacc : ∀ (w : World V) (x : Context V), x.Access w.store (f w x).2)
    (hf : ∀ (w : World V) (x : Context V), ReadSet.Below x.reads x.snapshot →
      ReadSet.Below (f w x).2.reads x.snapshot)
    (hread : ∀ (w : World V) (x : Context V) (r : Record V), reads = true →
      x.sighted w.store c = some r → x.mode.recordsReads = true →
      (f w x).2.reads.contains c = true)
    (hasks : ∀ (w : World V) (x : Context V), reads = true → x.isActive = true →
      x.isChild = true → c ∈ (f w x).2.asked) :
    (noting c reads (access f)).Records := by
  intro s hs
  have hkeeps := (hacc s.host.world s.context).keeps
  refine ⟨hkeeps, congrArg Life.snapshot (hacc s.host.world s.context).life_eq, hf _ _ hs,
    ⟨[_], rfl, fun v hv => ?_⟩, rfl⟩
  obtain rfl := List.mem_singleton.1 hv
  cases reads with
  | false => exact ⟨fun hk => (nomatch hk.read), fun h => (nomatch h)⟩
  | true =>
    refine ⟨fun hk => ?_, fun hactive _ hchild => ?_⟩
    · obtain ⟨r, hr⟩ := Option.isSome_iff_exists.1 hk.read
      exact hread s.host.world s.context r rfl hr (hk.records _ (List.mem_singleton.2 rfl))
    · exact hasks s.host.world s.context rfl hactive (hkeeps.isChild.symm.trans hchild)

theorem records_read (c : CellId) : (noting c true (read c) : Body V (VisitLog V) V).Records :=
  records_noting (fun _ _ => .read c) (fun _ _ h => Context.below_read h _)
    (fun _ _ _ _ hr hm => Context.contains_of_sighted hr hm)
    fun _ _ _ hactive hchild => Context.mem_asked_of_read hactive hchild

theorem records_get (a : Accumulator V) :
    (noting a.base true (get a) : Body V (VisitLog V) V).Records :=
  records_noting (fun _ _ => .get a)
    (fun w x h => by
      rw [Context.snd_get]
      exact Context.below_read h _)
    (fun w x _ _ hr hm => by
      rw [Context.snd_get]
      exact Context.contains_of_sighted hr hm)
    fun w x _ hactive hchild => by
      rw [Context.snd_get]
      exact Context.mem_asked_of_read hactive hchild

theorem records_write (c : CellId) (value : V) :
    (noting c false (write c value) : Body V (VisitLog V) Unit).Records :=
  records_noting (fun _ _ => .write c value)
    (fun w x h => by rwa [Context.reads_write]) (fun _ _ _ h => nomatch h) fun _ _ h => nomatch h

theorem records_put (a : Accumulator V) (delta : V) :
    (noting a.base false (put a delta) : Body V (VisitLog V) Unit).Records :=
  records_noting (fun _ _ => .put a delta)
    (fun w x h => by
      unfold Context.put
      rwa [Context.reads_stage]) (fun _ _ _ h => nomatch h) fun _ _ h => nomatch h

theorem records_stage (under target : CellId) (value : V) :
    (noting target false (stage under target value) : Body V (VisitLog V) Unit).Records :=
  records_noting (fun _ _ => .stage under target value)
    (fun w x h => by rwa [Context.reads_stage]) (fun _ _ _ h => nomatch h) fun _ _ h => nomatch h

end Accesses

/-! ### Calls -/

theorem eq_of_handOver {o : Except Error α × Context V} {a : α} {e : Contribution V}
    (h : handOver o = .ok (a, e)) : e = ⟨o.2.reads, o.2.asked, o.2.writes, o.2.deltas⟩ := by
  obtain ⟨r, x⟩ := o
  cases r with
  | error err => cases h
  | ok a' =>
    unfold handOver Context.contribution? at h
    dsimp only [Except.bind] at h
    split at h <;> cases h
    rfl

/-- A call that succeeds has to answer for what was noted during it; one that fails has only to keep
what was recorded before. -/
structure Called (s : Session V (VisitLog V)) (r : Except Error α) (t : Session V (VisitLog V)) :
    Prop where
  keeps : s.context.Keeps t.context
  snapshot : t.context.snapshot = s.context.snapshot
  below : ReadSet.Below t.context.reads s.context.snapshot
  answers : r.isOk = true →
    t.context.Answers (t.host.client.all.map fun v => v.within s.context.mode false)

theorem Called.failed {s : Session V (VisitLog V)}
    (h : ReadSet.Below s.context.reads s.context.snapshot) (e : Error)
    (g : Host V (VisitLog V)) : Called s (.error e : Except Error α) ⟨s.context, g⟩ :=
  ⟨.refl _, rfl, h, nofun⟩

/-- A contribution that answers for what was noted is taken over. -/
theorem Called.adopt {s : Session V (VisitLog V)} {e : Contribution V} {g : Host V (VisitLog V)}
    (h : ReadSet.Below s.context.reads s.context.snapshot)
    (he : ReadSet.Below e.reads s.context.snapshot) (hc : ∀ v ∈ g.client.all, e.AnswersFor v)
    (a : α) : Called s ((s.context.adopt e).1.map fun () => a) ⟨(s.context.adopt e).2, g⟩ := by
  have hkeeps := s.context.keeps_adopt e
  refine ⟨hkeeps, congrArg Life.snapshot (s.context.life_adopt e),
    Context.below_adopt h he, fun hok v hv => ?_⟩
  obtain ⟨u, hu, rfl⟩ := List.mem_map.1 hv
  rcases had : s.context.adopt e with ⟨err | _, y⟩
  · rw [had] at hok
    cases hok
  · rw [had] at hkeeps
    refine ⟨fun hk => ?_, fun hasks hlost hy => ?_⟩
    · obtain ⟨hku, hm, -⟩ := Visit.kept_within.1 hk
      exact Context.recorded_of_adopt had hm ((hc u hu).recorded hku)
    · have hlost' : u.lost = false := (Bool.or_eq_false_iff.1 hlost).1
      exact Context.asked_of_adopt had (hkeeps.isChild.symm.trans hy) ((hc u hu).asked hasks hlost')

theorem records_calling {body : Body V (VisitLog V) α}
    (h : ∀ s, ReadSet.Below s.context.reads s.context.snapshot → s.host.client = {} →
      Called s (body.run s).1 (body.run s).2) : body.calling.Records := by
  intro s hs
  have hcall := h ⟨s.context, { s.host with client := {} }⟩ hs rfl
  refine ⟨hcall.keeps, hcall.snapshot, hcall.below, ⟨_, rfl, fun v hv => ?_⟩, rfl⟩
  obtain ⟨u, hu, rfl⟩ := List.mem_map.1 hv
  change (u.within s.context.mode
    (!(body.run ⟨s.context, { s.host with client := {} }⟩).1.isOk)).Answered _ _
  cases hok : (body.run ⟨s.context, { s.host with client := {} }⟩).1.isOk with
  | false => exact Visit.answered_of_lost (Bool.or_true _)
  | true => exact hcall.answers hok _ (List.mem_map_of_mem hu)

/-- What a body records on a child, the child hands over. -/
theorem Records.inChild {body : Body V (VisitLog V) α} (hb : body.Records) (x : Context V)
    (kind : ChildKind) (below : List (Layer V)) (shared : Option (WriteSet V))
    {h : Host V (VisitLog V)} (hh : h.client = {}) {a : α} {e : Contribution V}
    (he : handOver (body.inChild x kind below shared h).1 = .ok (a, e)) :
    ReadSet.Below e.reads x.snapshot ∧
      ∀ v ∈ (body.inChild x kind below shared h).2.client.all, e.AnswersFor v := by
  have hclient : (openChild x kind below shared h).2.client = {} := hh
  have hsnap : (openChild x kind below shared h).1.snapshot = x.snapshot := rfl
  have hreads : (openChild x kind below shared h).1.reads = ∅ := rfl
  have hchild : (openChild x kind below shared h).1.isChild = true := rfl
  unfold Body.inChild Body.runOn at he ⊢
  generalize openChild x kind below shared h = o at hclient hsnap hreads hchild he ⊢
  obtain ⟨y, g⟩ := o
  have hr := hb ⟨y, g⟩ (by rw [hreads]; exact ReadSet.below_empty _)
  obtain ⟨new, hnew, hans⟩ := hr.visits
  have hbatch := hr.batch
  dsimp only at hclient hsnap hchild hnew hbatch he ⊢
  rw [hclient] at hnew hbatch
  generalize body.run ⟨y, g⟩ = o at hr hnew hbatch hans he ⊢
  obtain ⟨r, t⟩ := o
  dsimp only at hnew hbatch
  obtain rfl := eq_of_handOver he
  refine ⟨hsnap ▸ hr.below, fun v hv => ?_⟩
  have hall : t.host.client.all = new := by
    simp only [VisitLog.all, hnew, hbatch, List.nil_append, List.map_nil, List.append_nil]
  have hv := hans v (hall ▸ hv)
  exact ⟨hv.recorded, fun hasks hlost => hv.asked hasks hlost (hr.keeps.isChild.trans hchild)⟩

theorem Records.nested {body : Body V (VisitLog V) α} (hb : body.Records) :
    (nested body).calling.Records := by
  refine records_calling fun s hs hclient => ?_
  have hchild {a : α} {e : Contribution V} := hb.inChild s.context .nested s.context.layers none
    (h := { s.host with world.pinned := s.context.holds ++ s.host.world.pinned }) hclient
    (a := a) (e := e)
  rw [run_nested]
  unfold Host.pinning
  split
  · exact .failed hs _ _
  · dsimp only
    generalize body.inChild s.context .nested s.context.layers none _ = o at hchild ⊢
    split
    · exact .failed hs _ _
    · next a e he =>
      obtain ⟨hbelow, hans⟩ := hchild he
      refine .adopt hs hbelow ?_ a
      exact hans

/-! ### Batches -/

/-- The outcomes of tasks, which are numbered from `k`, answer for the access that was noted of one
of them, if it succeeded. -/
def Accounts (p : Nat × Visit V) : Nat → List (Except Error (α × Contribution V)) → Prop
  | _, [] => False
  | k, o :: os => (p.1 = k ∧ ∀ a e, o = .ok (a, e) → e.AnswersFor p.2) ∨ Accounts p (k + 1) os

/-- The tasks, which are numbered from `k`, run bodies that record what they note. -/
def Numbered : Nat → List (Task V (VisitLog V) α) → Prop
  | _, [] => True
  | k, task :: rest =>
    (∀ run, ∃ body : Body V (VisitLog V) α, body.Records ∧ task.body run = body.asRun k) ∧
      Numbered (k + 1) rest

/-- No outcome has recorded a version newer than `n`. -/
def Bounded (n : Version) (o : Except Error (α × Contribution V)) : Prop :=
  ∀ a e, o = .ok (a, e) → ReadSet.Below e.reads n

variable {task : Task V (VisitLog V) α} {tasks : List (Task V (VisitLog V) α)} {k : Nat}

/-- What is noted of a task, its outcome answers for. -/
theorem performTask_records {run : Nat}
    (ht : ∃ body : Body V (VisitLog V) α, body.Records ∧ task.body run = body.asRun k)
    (x : Context V) (below : List (Layer V)) (shared : WriteSet V) (h : Host V (VisitLog V)) :
    Bounded x.snapshot (performTask x below task run shared h).1 ∧
      ∃ inner, (performTask x below task run shared h).2.2.client = h.client.addRun inner k ∧
        ∀ a e, (performTask x below task run shared h).1 = .ok (a, e) →
          ∀ v ∈ inner.all, e.AnswersFor v := by
  obtain ⟨body, hb, heq⟩ := ht
  have hchild {a : α} {e : Contribution V} := hb.inChild x (.task task.mode) below
    (if task.mode = .shared then some shared else none) (h := { h with client := {} }) rfl
    (a := a) (e := e)
  -- a run of the task is a run of the body on the same child, with a log of its own
  have hrun : (task.body run).inChild x (.task task.mode) below
        (if task.mode = .shared then some shared else none) h =
      let o := body.inChild x (.task task.mode) below
        (if task.mode = .shared then some shared else none) { h with client := {} }
      (o.1, { o.2 with client := h.client.addRun o.2.client k }) := by
    rw [heq]
    rfl
  unfold performTask
  rw [hrun]
  dsimp only
  generalize body.inChild x (.task task.mode) below _ _ = o at hchild ⊢
  exact ⟨fun a e he => (hchild he).1, o.2.client, rfl, fun a e he => (hchild he).2⟩

/-- What is kept of a log to which a run was added was noted in that run, or before it in the run of
another task. -/
theorem mem_batch_addRun {log inner : VisitLog V} {p : Nat × Visit V}
    (hp : p ∈ (log.addRun inner k).batch) (hk : p.2.lost = false) :
    p ∈ log.batch ∧ p.1 ≠ k ∨ p.1 = k ∧ p.2 ∈ inner.all := by
  rcases List.mem_append.1 hp with hp | hp
  · obtain ⟨q, hq, rfl⟩ := List.mem_map.1 hp
    by_cases hqk : q.1 = k
    · rw [if_pos hqk] at hk
      cases hk
    · rw [if_neg hqk]
      exact .inl ⟨hq, hqk⟩
  · obtain ⟨v, hv, rfl⟩ := List.mem_map.1 hp
    exact .inr ⟨rfl, hv⟩

/-- What is noted of the first runs, their outcomes answer for. -/
theorem firstRuns_records (x : Context V) (ht : Numbered k tasks) (shared : WriteSet V)
    (h : Host V (VisitLog V)) :
    (firstRuns x tasks shared h).1.1.length = tasks.length ∧
      (firstRuns x tasks shared h).2.client.visits = h.client.visits ∧
      (∀ o ∈ (firstRuns x tasks shared h).1.1, Bounded x.snapshot o) ∧
      ∀ p ∈ (firstRuns x tasks shared h).2.client.batch, p.2.lost = false →
        p ∈ h.client.batch ∨ Accounts p k (firstRuns x tasks shared h).1.1 := by
  induction tasks generalizing k shared h with
  | nil => exact ⟨rfl, rfl, nofun, fun p hp _ => .inl hp⟩
  | cons task rest ih =>
    obtain ⟨htask, hrest⟩ := ht
    obtain ⟨hbound, inner, hclient, hans⟩ :=
      performTask_records (htask 1) x x.layers shared h
    unfold firstRuns
    dsimp only
    generalize performTask x x.layers task 1 shared h = o at hbound hclient hans ⊢
    obtain ⟨o, ws, w, log⟩ := o
    obtain rfl : log = h.client.addRun inner k := hclient
    unfold Host.pinning
    obtain ⟨hlen, hvisits, hbounds, hacc⟩ := ih hrest ws
      ⟨{ w with pinned := outcomeHolds o ++ ws.targets ++ w.pinned }, h.client.addRun inner k⟩
    refine ⟨congrArg (· + 1) hlen, hvisits, List.forall_mem_cons.2 ⟨hbound, hbounds⟩,
      fun p hp hk => ?_⟩
    rcases hacc p hp hk with hp | hp
    · rcases mem_batch_addRun hp hk with ⟨hp, -⟩ | ⟨hpk, hv⟩
      · exact .inl hp
      · exact .inr (.inl ⟨hpk, fun a e he => hans a e he _ hv⟩)
    · exact .inr (.inr hp)

/-- What is merged for a task answers for what is noted of it; earlier runs of the task are not
kept. -/
theorem settle_records (x : Context V) (ht : ∀ run, ∃ body : Body V (VisitLog V) α,
      body.Records ∧ task.body run = body.asRun k) {e : Contribution V}
    (he : ReadSet.Below e.reads x.snapshot) (a : α) (b : Batch V) (shared : Option (WriteSet V))
    (h : Host V (VisitLog V)) :
    (settle x task a e b shared h).2.client.visits = h.client.visits ∧
      ∀ a' e' b', (settle x task a e b shared h).1 = .ok (a', e', b') →
        ReadSet.Below e'.reads x.snapshot ∧
          (∃ writes written, b' = { merged := { b.merged with writes }, written }) ∧
          ∀ p ∈ (settle x task a e b shared h).2.client.batch, p.2.lost = false →
            p ∈ h.client.batch ∧ (p.1 = k → e' = e) ∨ e'.AnswersFor p.2 := by
  have hkept : ∀ p ∈ h.client.batch, p.2.lost = false →
      p ∈ h.client.batch ∧ (p.1 = k → e = e) ∨ e.AnswersFor p.2 :=
    fun p hp _ => .inl ⟨hp, fun _ => rfl⟩
  unfold settle
  split
  · refine ⟨rfl, fun a' e' b' hok => ?_⟩
    cases hok
    exact ⟨he, ⟨_, _, rfl⟩, hkept⟩
  · split
    · refine ⟨rfl, fun a' e' b' hok => ?_⟩
      obtain ⟨_, -, hok⟩ := map_eq_ok_iff.1 hok
      cases hok
      exact ⟨he, ⟨_, _, rfl⟩, hkept⟩
    · refine ⟨rfl, fun a' e' b' hok => ?_⟩
      cases hok
      exact ⟨he, ⟨_, _, rfl⟩, hkept⟩
  · split
    · refine ⟨rfl, fun a' e' b' hok => ?_⟩
      cases hok
      exact ⟨he, ⟨_, _, rfl⟩, hkept⟩
    · obtain ⟨hbound, inner, hclient, hans⟩ := performTask_records (ht 2) x (b.layers x.layers) ∅
        { h with world := h.world.countRerun x.engine }
      dsimp only
      generalize performTask x (b.layers x.layers) task 2 ∅ _ = o at hbound hclient hans ⊢
      obtain ⟨o, ws, w, log⟩ := o
      obtain rfl : log = h.client.addRun inner k := hclient
      refine ⟨rfl, fun a' e' b' hok => ?_⟩
      obtain ⟨⟨a₂, e₂⟩, ho, hok⟩ := map_eq_ok_iff.1 hok
      cases hok
      refine ⟨hbound a₂ e₂ ho, ⟨_, _, rfl⟩, fun p hp hk => ?_⟩
      rcases mem_batch_addRun hp hk with ⟨hp, hpk⟩ | ⟨-, hv⟩
      · exact .inl ⟨hp, fun h => absurd h hpk⟩
      · exact .inr (hans a₂ e₂ ho _ hv)

/-- A batch that took a contribution in records what it did before and what the contribution does,
and answers for what either of them answers for. -/
theorem add_records {b b' : Batch V} {e : Contribution V} (h : b.add e = (.ok (), b')) :
    b'.merged.reads = ReadSet.merge b.merged.reads e.reads ∧
      ∀ v, b.merged.AnswersFor v ∨ e.AnswersFor v → b'.merged.AnswersFor v := by
  obtain ⟨writes, deltas, written, rfl⟩ : ∃ writes deltas written,
      b' = { merged := { (b.addReads e).merged with writes, deltas }, written } := by
    unfold Batch.add at h
    rcases hw : (b.addReads e).addWrites e.writes with ⟨err | u, b₁⟩
    · rw [hw] at h
      cases h
    · rw [hw] at h
      have h₁ : b₁ = ((b.addReads e).addWrites e.writes).2 := by rw [hw]
      have h₂ : b' = (b₁.addDeltas e.deltas).2 := by rw [show b₁.addDeltas e.deltas = _ from h]
      rw [h₂, h₁]
      exact ⟨_, _, _, rfl⟩
  refine ⟨rfl, fun v hv => ⟨fun hk => ReadSet.contains_merge.2 ?_, fun hasks hlost => ?_⟩⟩
  · exact hv.imp (fun h => h.recorded hk) fun h => h.recorded hk
  · exact (mem_foldl_insert _ _ _).2 <|
      hv.imp (fun h => h.asked hasks hlost) fun h => h.asked hasks hlost

/-- What is merged so far, or the outcomes that wait, which are numbered from `k`, answer for what
is kept of the log of a batch. -/
def Owed (b : Batch V) (k : Nat) (outcomes : List (Except Error (α × Contribution V)))
    (log : VisitLog V) : Prop :=
  ∀ p ∈ log.batch, p.2.lost = false → b.merged.AnswersFor p.2 ∨ Accounts p k outcomes

/-- One more task is settled and merged. -/
theorem Owed.merge {b b' : Batch V} {outcomes : List (Except Error (α × Contribution V))} {a : α}
    {e e' : Contribution V} {log log' : VisitLog V} (h : Owed b k (.ok (a, e) :: outcomes) log)
    (hgrown : ∀ v, b.merged.AnswersFor v ∨ e'.AnswersFor v → b'.merged.AnswersFor v)
    (hkept : ∀ p ∈ log'.batch, p.2.lost = false →
      p ∈ log.batch ∧ (p.1 = k → e' = e) ∨ e'.AnswersFor p.2) :
    Owed b' (k + 1) outcomes log' := by
  intro p hp hk
  rcases hkept p hp hk with ⟨hp, hsame⟩ | hc
  · rcases h p hp hk with hc | ⟨hpk, he⟩ | hp
    · exact .inl (hgrown _ (.inl hc))
    · exact .inl (hgrown _ (.inr (hsame hpk ▸ he a e rfl)))
    · exact .inr hp
  · exact .inl (hgrown _ (.inr hc))

/-- The merged outcomes of a batch answer for what is noted of its tasks. -/
theorem mergeRuns_records (x : Context V) (ht : Numbered k tasks)
    {outcomes : List (Except Error (α × Contribution V))} (hlen : outcomes.length = tasks.length)
    (hbounds : ∀ o ∈ outcomes, Bounded x.snapshot o) {b : Batch V}
    (hb : ReadSet.Below b.merged.reads x.snapshot) (shared : Option (WriteSet V))
    (h : Host V (VisitLog V)) (howed : Owed b k outcomes h.client) :
    (mergeRuns x (tasks.zip outcomes) b shared h).2.client.visits = h.client.visits ∧
      ∀ as b', (mergeRuns x (tasks.zip outcomes) b shared h).1 = .ok (as, b') →
        ReadSet.Below b'.merged.reads x.snapshot ∧
          ∀ p ∈ (mergeRuns x (tasks.zip outcomes) b shared h).2.client.batch, p.2.lost = false →
            b'.merged.AnswersFor p.2 := by
  induction tasks generalizing k outcomes b shared h with
  | nil =>
    obtain rfl := List.eq_nil_of_length_eq_zero hlen
    refine ⟨rfl, fun as b' hok => ?_⟩
    cases hok
    exact ⟨hb, fun p hp hk => (howed p hp hk).resolve_right fun hf => hf⟩
  | cons task rest ih =>
    cases outcomes with
    | nil => cases hlen
    | cons o outcomes =>
      obtain ⟨htask, hrest⟩ := ht
      obtain ⟨hbound, hothers⟩ := List.forall_mem_cons.1 hbounds
      cases o with
      | error err => exact ⟨rfl, by rintro _ _ ⟨⟩⟩
      | ok ae =>
        obtain ⟨a, e⟩ := ae
        rw [List.zip_cons_cons]
        unfold mergeRuns Host.pinning
        dsimp only
        generalize b.merged.holds ++ e.holds ++ (shared.map WriteSet.targets).getD [] ++
          (rest.zip outcomes).flatMap (fun o => outcomeHolds o.2) ++ h.world.pinned = pinned
        obtain ⟨hvisits, hset⟩ := settle_records x htask (hbound a e rfl) a b shared
          { h with world.pinned := pinned }
        generalize settle x task a e b shared _ = o at hvisits hset ⊢
        obtain ⟨r, w, log⟩ := o
        dsimp only at hvisits hset ⊢
        rcases r with err | ⟨a', e', b'⟩
        · exact ⟨hvisits, by rintro _ _ ⟨⟩⟩
        · obtain ⟨hbelow, ⟨writes, written, rfl⟩, hkept⟩ := hset a' e' b' rfl
          dsimp only
          generalize hadd : Batch.add _ e' = r
          obtain ⟨err | u, b''⟩ := r
          · exact ⟨hvisits, by rintro _ _ ⟨⟩⟩
          · obtain ⟨hreads, hgrown⟩ := add_records hadd
            have hlen' : outcomes.length = rest.length := Nat.succ.inj hlen
            have hbelow' : ReadSet.Below b''.merged.reads x.snapshot := by
              rw [hreads]
              exact hb.merge hbelow
            have hnext := ih hrest hlen' hothers hbelow'
              (if task.mode = .shared then none else shared)
              ⟨{ w with pinned := h.world.pinned }, log⟩ (howed.merge hgrown hkept)
            dsimp only
            refine ⟨hnext.1.trans hvisits, fun as b₂ hok => ?_⟩
            obtain ⟨⟨as', b₃⟩, hr, hok⟩ := map_eq_ok_iff.1 hok
            cases hok
            exact hnext.2 as' b₃ hr

theorem records_parallel (ht : Numbered 0 tasks) : (parallel tasks).calling.Records := by
  refine records_calling fun s hs hclient => ?_
  rw [run_parallel]
  unfold Host.pinning
  split
  · exact .failed hs _ _
  · dsimp only
    obtain ⟨hlen, hvisits, hbounds, hacc⟩ := firstRuns_records s.context ht ∅
      { s.host with world.pinned := s.context.holds ++ s.host.world.pinned }
    generalize firstRuns s.context tasks ∅ _ = o at hlen hvisits hbounds hacc ⊢
    obtain ⟨⟨outcomes, shared⟩, g⟩ := o
    dsimp only at hlen hvisits hbounds hacc ⊢
    rw [hclient] at hvisits hacc
    obtain ⟨hvisits', hmerged⟩ := mergeRuns_records s.context ht hlen hbounds (b := {})
      (ReadSet.below_empty _) (some shared) g
      fun p hp hk => .inr ((hacc p hp hk).resolve_left (List.not_mem_nil ·))
    generalize mergeRuns s.context (tasks.zip outcomes) {} (some shared) g = o at hvisits' hmerged ⊢
    obtain ⟨r, g'⟩ := o
    rcases r with err | ⟨as, b⟩
    · exact .failed hs _ _
    · obtain ⟨hbelow, hcov⟩ := hmerged as b rfl
      refine .adopt hs hbelow (fun v hv => ?_) as
      rw [VisitLog.all, hvisits', hvisits] at hv
      obtain ⟨p, hp, rfl⟩ := List.mem_map.1 hv
      cases hk : p.2.lost with
      | false => exact hcov p hp hk
      | true => exact Visit.answered_of_lost hk

theorem numbered_ofFn {n : Nat} {task : Fin n → Task V (VisitLog V) α}
    (h : ∀ i run, ∃ body : Body V (VisitLog V) α, body.Records ∧
      (task i).body run = body.asRun (k + i)) : Numbered k (List.ofFn task) := by
  induction n generalizing k with
  | zero => trivial
  | succ n ih =>
    rw [List.ofFn_succ]
    refine ⟨h 0, ih fun i run => ?_⟩
    obtain ⟨body, hb, heq⟩ := h i.succ run
    exact ⟨body, hb, by rw [heq, Fin.val_succ, Nat.add_right_comm, Nat.add_assoc]⟩

end Body

/-- Traced programs record what they note. -/
theorem Program.traced_records [Inhabited V] (p : Program V R) : p.traced.Records := by
  cases p with
  | done _ => exact fun _ hs => .refl hs
  | fail _ => exact fun _ hs => .refl hs
  | read c next => exact (Body.records_read c).attempt_bind fun r => (next r).traced_records
  | write c value next =>
    exact (Body.records_write c value).attempt_bind fun r => (next r).traced_records
  | put a delta next =>
    exact (Body.records_put a delta).attempt_bind fun r => (next r).traced_records
  | get a next => exact (Body.records_get a).attempt_bind fun r => (next r).traced_records
  | stage under target value next =>
    exact (Body.records_stage under target value).attempt_bind fun r => (next r).traced_records
  | nested body next =>
    exact body.traced_records.nested.attempt_bind fun r => (next r).traced_records
  | parallel _ _ body next =>
    exact (Body.records_parallel (Body.numbered_ofFn fun i _ =>
      ⟨(body i).traced, (body i).traced_records, by rw [Nat.zero_add]⟩)).attempt_bind
        fun r => (next r).traced_records
  | aside action next =>
    intro s hs
    have hclient := action.client_run
      { s.host with world.pinned := s.context.holds ++ s.host.world.pinned }
    have haside : Recorded s ((Body.aside fun h => ((), action.run h)).run s).2 :=
      ⟨.refl _, rfl, hs, ⟨[], by rw [List.append_nil]; exact congrArg VisitLog.visits hclient,
        nofun⟩, congrArg VisitLog.batch hclient⟩
    exact haside.trans (next.traced_records _ hs)

end VersionedMemory
