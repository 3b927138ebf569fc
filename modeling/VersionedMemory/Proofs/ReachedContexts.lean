import VersionedMemory.Proofs.Accumulators
import VersionedMemory.Proofs.ChronicleErasure
import VersionedMemory.Proofs.TransactionInvariants
import VersionedMemory.Proofs.AccumulatorReads

/-!
# Contexts that bodies reach

A body runs on a transaction that was begun for it, or that was taken from the hands of a caller or
from a thread, and goes on from access to access, whatever others do in between; children of it run
in the same way, at any depth, over the buffers that are below them. Where no cell is missing, all
of them stand in a sound run, and what they hold is what was done on them. Here this is proved for
the bodies that change the base of an accumulator by plain writes and by deltas of its operation,
and other cells in any way but by hand.

## Main definitions

* `Program.thenShowing` runs a program and reads an accumulator in the end.
* `Program.Minds` says that a program combines deltas for the base by the one operation.
* `World.Starts` is the transactions that a body can be started on.
* `Reached` is the contexts that such programs come to run on, each with the host beside it.
* `Context.Stands` says that a context belongs to a transaction of a sound run.

## Main statements

* `Program.told_andThen`: what two programs tell, one after the other.
* `Reached.stands`: a reached context stands in a sound run.
-/

namespace VersionedMemory

variable {V α R : Type}

/-! ### One program after another -/

/-- Run a program, and then another one, whatever the first one has come to. -/
def Program.andThen (f : Except Error R → Program V R) : Program V R → Program V R
  | .done result => f (.ok result)
  | .fail error => f (.error error)
  | .read c next => .read c fun r => (next r).andThen f
  | .write c value next => .write c value fun r => (next r).andThen f
  | .put a delta next => .put a delta fun r => (next r).andThen f
  | .get a next => .get a fun r => (next r).andThen f
  | .stage under target value next => .stage under target value fun r => (next r).andThen f
  | .nested body next => .nested body fun r => (next r).andThen f
  | .parallel size mode body next => .parallel size mode body fun r => (next r).andThen f
  | .aside action next => .aside action (next.andThen f)

/-- Read an accumulator, and end with what `give` makes of the answer. -/
def Program.showing (a : Accumulator V) (give : V → R) : Program V R :=
  .get a fun
    | .ok value => .done (give value)
    | .error e => .fail e

/-- Run a program, and read an accumulator in the end. -/
def Program.thenShowing (a : Accumulator V) (give : V → R) (p : Program V R) : Program V R :=
  p.andThen fun _ => .showing a give

/-- Run and tell, and then run and tell what comes after it. -/
def Telling.andThen (f : Telling V R) (g : Except Error R → Telling V R) : Telling V R := fun s =>
  let ((r, ds), s) := f s
  let ((r', ds'), s) := g r s
  ((r', ds ++ ds'), s)

theorem Body.andTell_andThen (body : Body V (Chronicle V) (α × List (Deed V)))
    (next : Except Error α → Telling V R) (g : Except Error R → Telling V R) :
    body.andTell (fun r => (next r).andThen g) = (body.andTell next).andThen g := by
  funext s
  rcases hrun : body.run s with ⟨r, t⟩
  simp only [andTell, Telling.andThen, hrun, List.append_assoc]

variable [Inhabited V]

theorem Program.told_andThen (f : Except Error R → Program V R) : (p : Program V R) →
    (p.andThen f).told = p.told.andThen fun r => (f r).told
  | .done _ | .fail _ => rfl
  | .aside action next => by
    simp only [andThen, told, told_andThen f next]
    rfl
  | .read _ next | .write _ _ next | .put _ _ next | .get _ next | .stage _ _ _ next
  | .nested _ next | .parallel _ _ _ next => by
    simp only [andThen, told, told_andThen f]
    exact Body.andTell_andThen _ _ _

/-- What a context shows is the result, and the read changes nothing in the world. -/
theorem Program.told_showing {a : Accumulator V} {give : V → R} {x : Context V}
    {h : Host V (Chronicle V)} {result : R}
    (hok : ((showing a give).told ⟨x, h⟩).1.1 = .ok result) :
    (∃ value, (x.get (h.world.store.cell a.base) a.op).1 = .ok value ∧ result = give value) ∧
      ((showing a give).told ⟨x, h⟩).2 = ⟨(x.get (h.world.store.cell a.base) a.op).2,
        { h with client := h.client.stray h.world.store a.base }⟩ := by
  have hcall : ((Body.get a).telling a.base fun s x =>
      (x.sighted s a.base).toList.map (.read a.base)).run ⟨x, h⟩ =
        ((x.get (h.world.store.cell a.base) a.op).1.map fun value =>
          (value, (x.sighted h.world.store a.base).toList.map (.read a.base)),
        ⟨(x.get (h.world.store.cell a.base) a.op).2,
          { h with client := h.client.stray h.world.store a.base }⟩) := rfl
  simp only [showing, told, Body.andTell, hcall] at hok ⊢
  generalize x.get (h.world.store.cell a.base) a.op = o at hok ⊢
  obtain ⟨e | value, y⟩ := o
  · cases hok
  · cases hok
    exact ⟨⟨value, rfl, rfl⟩, rfl⟩

/-- What a context shows after a program ran on it is the result. -/
theorem Program.told_thenShowing {a : Accumulator V} {give : V → R} {p : Program V R}
    {t : Session V (Chronicle V)} {result : R}
    (hok : ((p.thenShowing a give).told t).1.1 = .ok result) :
    let x := (p.told t).2.context
    let h := (p.told t).2.host
    (∃ value, (x.get (h.world.store.cell a.base) a.op).1 = .ok value ∧ result = give value) ∧
      ((p.thenShowing a give).told t).2 = ⟨(x.get (h.world.store.cell a.base) a.op).2,
        { h with client := h.client.stray h.world.store a.base }⟩ := by
  have hrun : (p.thenShowing a give).told t =
      (p.told.andThen fun _ => (Program.showing a give).told) t := by
    rw [thenShowing, told_andThen]
  rw [hrun] at hok ⊢
  exact told_showing hok

/-- What every access leaves true of a context, a program that is told of leaves true of it. -/
theorem Program.context_told {P : Context V → Prop}
    (hP : ∀ (s : Store V) {x y : Context V}, x.Access s y → P x → P y) (p : Program V R)
    (s : Session V (Chronicle V)) (hs : P s.context) : P (p.told s).2.context := by
  have hsame := (p.told_bodies (τ := Unit)).same s.context
    (show (⟨s.host.world, ()⟩ : Host V Unit).world = s.host.world from rfl)
  have hcontext : (p.run.run ⟨s.context, (⟨s.host.world, ()⟩ : Host V Unit)⟩).2.context =
      (p.told s).2.context := congrArg Prod.snd hsame.1
  rw [← hcontext]
  exact p.context_run hP _ hs

/-- A transaction that is alive lies over no buffers. -/
theorem chronicled_alone (config : Config) (hooks : Hooks) {actions : List (Action V R)}
    (hl : ∀ act ∈ actions, act.Local) :
    ∀ x ∈ (chronicled config hooks actions).world.alive, x.Lies [] false := by
  have hP : Lasts fun x : Context V => x.Lies [] false :=
    ⟨fun _ _ _ _ => ⟨rfl, rfl, fun _ => rfl⟩, fun _ _ _ h hx => h.lies hx⟩
  rw [← world_chronicled config hooks actions ()]
  exact alive_foldl hP hl fun _ hx => nomatch hx

/-! ### Programs for an accumulator -/

/-- Writes replace each other, and the deltas for the base of the accumulator are its own. -/
def Discipline.combining (a : Accumulator V) : Discipline V where
  write := (Discipline.plain V).write
  delta := (Discipline.accumulating a).delta
  write_merge := (Discipline.plain V).write_merge
  delta_merge := (Discipline.accumulating a).delta_merge

omit [Inhabited V] in
theorem Discipline.combining_within (a : Accumulator V) :
    (Discipline.combining a).Within (.plain V) :=
  ⟨fun _ _ h => h, fun _ _ h => h.1⟩

omit [Inhabited V] in
theorem Discipline.combining_combines (a : Accumulator V) : (Discipline.combining a).Combines a :=
  fun _ h => h.2 rfl

/-- All bodies are for one engine and stage nothing by hand, and what they put on the base of the
accumulator they put by its operation. -/
structure Program.Minds (a : Accumulator V) (p : Program V R) : Prop where
  isLocal : p.Local
  abides : p.Abides (.combining a) fun _ => True

/-- All bodies that the action runs are for one engine and stage nothing by hand, and what they put
on the base of the accumulator they put by its operation. -/
structure Action.Minds (a : Accumulator V) (act : Action V R) : Prop where
  isLocal : act.Local
  abides : act.Abides (.combining a) fun _ => True

omit [Inhabited V] in
theorem Program.Local.andThen {f : Except Error R → Program V R} (hf : ∀ r, (f r).Local) :
    (p : Program V R) → p.Local → (p.andThen f).Local
  | .done _, _ | .fail _, _ => hf _
  | .aside _ next, hp => ⟨hp.1, andThen hf next hp.2⟩
  | .read _ next, hp | .write _ _ next, hp | .put _ _ next, hp | .get _ next, hp
  | .stage _ _ _ next, hp => fun r => andThen hf (next r) (hp r)
  | .nested _ next, hp | .parallel _ _ _ next, hp => ⟨hp.1, fun r => andThen hf (next r) (hp.2 r)⟩

omit [Inhabited V] in
theorem Program.Abides.andThen {D : Discipline V} {F : Error → Prop}
    {f : Except Error R → Program V R} (hf : ∀ r, (f r).Abides D F) :
    (p : Program V R) → p.Abides D F → (p.andThen f).Abides D F
  | .done _, _ | .fail _, _ => hf _
  | .read _ next, hp | .get _ next, hp => fun r hr => andThen hf (next r) (hp r hr)
  | .write _ _ next, hp | .put _ _ next, hp | .nested _ next, hp | .parallel _ _ _ next, hp =>
    ⟨hp.1, fun r hr => andThen hf (next r) (hp.2 r hr)⟩
  | .stage _ _ _ _, hp => hp.elim
  | .aside _ next, hp => ⟨hp.1, andThen hf next hp.2⟩

namespace Program.Minds

variable {a : Accumulator V} {p : Program V R}

omit [Inhabited V] in
theorem thenShowing (hp : p.Minds a) (give : V → R) : (p.thenShowing a give).Minds a := by
  refine ⟨Local.andThen (fun _ => ?_) p hp.isLocal, Abides.andThen (fun _ => ?_) p hp.abides⟩
  · rintro (e | value) <;> trivial
  · rintro (e | value) - <;> trivial

theorem told_goes (hp : p.Minds a) : Session.Goes p.told := Program.told_goes p hp.isLocal

theorem told_faithful (hp : p.Minds a) (hooks : Hooks) :
    p.told.Faithful (.combining a) hooks fun _ => True :=
  Program.told_faithful (Discipline.combining_within a) (fun _ => trivial) p hp.isLocal hp.abides

end Program.Minds

/-! ### Reached contexts -/

/-- The buffers below a child, and the one that it shares, hold writes and deltas that suit the
cells of the store and the accumulator. -/
structure Accumulator.Underlies (a : Accumulator V) (s : Store V) (below : List (Layer V))
    (shared : Option (WriteSet V)) : Prop where
  below : ∀ l ∈ below, l.Within ((Discipline.combining a).on s)
  shared : ∀ ws, shared = some ws → ws.All ((Discipline.combining a).on s).write

/-- A body can be started on the transaction, and the world is left without it. -/
inductive World.Starts (w : World V) : Context V → World V → Prop
  | begun (mode : Mode) : Starts w (w.begin sole mode).1 (w.begin sole mode).2
  | held {k : Handle} {x : Context V} {w' : World V} : w.take k = some (x, w') → Starts w x w'
  | bound {t : ThreadId} {x : Context V} {w' : World V} :
    w.detach t = (.ok x, w') → Starts w x w'

/-- The contexts that bodies come to run on in runs of a new engine, each with its host. -/
inductive Reached (R : Type) (a : Accumulator V) (config : Config) (hooks : Hooks) :
    Context V → Host V (Chronicle V) → Prop
  /-- A body is started, after any actions. -/
  | start (actions : List (Action V R)) {x : Context V} {w : World V} :
    (∀ act ∈ actions, act.Minds a) → (chronicled config hooks actions).world.Starts x w →
      Reached R a config hooks x { chronicled config hooks actions with world := w }
  /-- A program runs on the context. Others may act while it runs. -/
  | after {x h} (p : Program V R) : Reached R a config hooks x h → p.Minds a →
    Reached R a config hooks (p.told ⟨x, h⟩).2.context (p.told ⟨x, h⟩).2.host
  /-- A child is opened, of any kind, over what is below it. -/
  | child {x h} (kind : ChildKind) {below : List (Layer V)} {shared : Option (WriteSet V)} :
    Reached R a config hooks x h → a.Underlies h.world.store below shared →
      Reached R a config hooks (Body.openChild x kind below shared h).1
        (Body.openChild x kind below shared h).2
  /-- A program runs on a child of the context, which stays as it is, as it does while the tasks of
  a batch run. -/
  | beside {x h} (kind : ChildKind) {below : List (Layer V)} {shared : Option (WriteSet V)}
    (p : Program V R) : Reached R a config hooks x h → a.Underlies h.world.store below shared →
      p.Minds a → Reached R a config hooks x (p.told.ending.inChild x kind below shared h).2
  /-- A task is going to run again. -/
  | rerun {x h} : Reached R a config hooks x h →
    Reached R a config hooks x { h with world := h.world.countRerun x.engine }
  | pinned {x h} (cells : List CellId) : Reached R a config hooks x h →
    Reached R a config hooks x { h with world.pinned := cells }

/-- The context belongs to the transaction `top`, which runs in a sound run, and it shows what was
done on it. A context of no kind is the transaction itself. -/
structure Context.Stands (a : Accumulator V) (hooks : Hooks) (x : Context V)
    (h : Host V (Chronicle V)) (top : Context V) (ds : List (Deed V)) : Prop where
  ready : h.Ready (.combining a) hooks (fun _ => True) [top]
  at_top : x.At (.combining a) hooks [top] h ds
  lies : ∃ below shares, x.Lies below shares
  alone : x.kind = none → x.life = top.life ∧ x.Lies [] false

variable {a : Accumulator V} {config : Config} {hooks : Hooks} {top x : Context V}
  {ds : List (Deed V)} {h h' : Host V (Chronicle V)}

namespace Context.Stands

/-- A context stands where it is while the run goes on. -/
theorem follow (hx : x.Stands a hooks h top ds) (hf : h.Follows [top] h')
    (ho : h'.InOrder (.combining a) hooks fun _ => True) : x.Stands a hooks h' top ds :=
  ⟨hx.ready.follow hf ho, hx.at_top.follow hx.ready hf, hx.lies, hx.alone⟩

/-- What becomes of a context in its place stands there. -/
theorem become (hx : x.Stands a hooks h top ds) {y : Context V} {ds' : List (Deed V)}
    (hlife : y.life = x.life) (hy : y.Bears (.combining a) hooks h.world.store ds')
    (hl : ∀ {below shares}, x.Lies below shares → y.Lies below shares) :
    y.Stands a hooks h top ds' := by
  obtain ⟨below, shares, hlies⟩ := hx.lies
  obtain ⟨z, hz, hsnap⟩ := hx.at_top.served
  refine ⟨hx.ready, ⟨(congrArg Life.engine hlife).trans hx.at_top.engine,
    (congrArg Life.status hlife).trans hx.at_top.active,
    ⟨z, hz, hsnap.trans (congrArg Life.snapshot hlife).symm⟩, hy⟩, ⟨below, shares, hl hlies⟩,
    fun hk => ?_⟩
  obtain ⟨htop, halone⟩ := hx.alone ((congrArg Life.kind hlife).symm.trans hk)
  exact ⟨hlife.trans htop, hl halone⟩

/-- A program that runs on a context lets it stand. -/
theorem after (hx : x.Stands a hooks h top ds) {p : Program V R} (hp : p.Minds a)
    (hn : (p.told ⟨x, h⟩).2.host.client.strays = []) :
    (p.told ⟨x, h⟩).2.context.Stands a hooks (p.told ⟨x, h⟩).2.host top
      (ds ++ (p.told ⟨x, h⟩).1.2) := by
  have hends := (hp.told_faithful hooks).ends hx.ready hx.at_top hn
  exact (hx.follow (hp.told_goes.follows (t := ⟨x, h⟩) hx.at_top.engine) hends.order).become
    (hp.told_goes.life ⟨x, h⟩) hends.bears fun hl =>
      p.context_told (P := Context.Lies _ _) (fun _ _ _ hacc => hacc.lies) ⟨x, h⟩ hl

/-- Reading the accumulator lets a context stand. -/
theorem get (hx : x.Stands a hooks h top ds) (hc : h.world.store.Has a.base) :
    ∃ ds', (x.get (h.world.store.cell a.base) a.op).2.Stands a hooks h top ds' := by
  obtain ⟨r, hat⟩ := hx.at_top.readAt hx.ready hc
  have hbears := hx.at_top.bears.read (Discipline.combining_within a) hx.at_top.active hc hat
  rw [snd_get]
  exact ⟨_, hx.become (Access.life_eq (.read a.base)) hbears (Access.lies (.read a.base))⟩

/-- The commit of a transaction that stands is fair. -/
theorem fair (hx : x.Stands a hooks h top ds) (hk : x.kind = none) :
    Bid.Fair (.combining a) hooks ⟨h.world, x, ds⟩ := by
  obtain ⟨past, hs⟩ := hx.ready.sound
  have hlives : (⟨h.world, [top], past⟩ : Scene V).lives.Perm
      (x.life :: h.world.alive.map Context.life) := by
    rw [(hx.alone hk).1]
    exact (List.perm_append_singleton top h.world.alive).map Context.life
  exact ⟨hx.at_top.bears, ⟨_, past, World.Serves.perm hs hlives⟩, hx.ready.order.hooks_eq⟩

/-- A child of a context stands on the same transaction. -/
theorem child (hx : x.Stands a hooks h top ds) (kind : ChildKind) {below : List (Layer V)}
    {shared : Option (WriteSet V)} (hu : a.Underlies h.world.store below shared) :
    (Body.openChild x kind below shared h).1.Stands a hooks
      (Body.openChild x kind below shared h).2 top [] := by
  have hf : h.Follows [top] (Body.openChild x kind below shared h).2 :=
    ((invariant_follows [top] h).child kind below shared hx.at_top.engine (.refl [top] h)).2
  exact ⟨hx.ready.follow hf (hx.ready.order.openChild hx.at_top.engine kind below shared),
    ⟨hx.at_top.engine, rfl, hx.at_top.served,
      Context.bears_child hooks x kind _ hu.below hu.shared⟩,
    ⟨below, shared.isSome, lies_child x kind _ below shared⟩, fun hk => by cases hk⟩

/-- A transaction stands that a body is started on. -/
theorem started (hr : h.Ready (.combining a) hooks (fun _ => True) []) {w : World V}
    (hst : h.world.Starts x w) (hl : ∀ y ∈ h.world.alive, y.Lies [] false) :
    ∃ ds, x.Stands a hooks { h with world := w } x ds := by
  obtain ⟨past, hs⟩ := hr.sound
  have alive : ∀ {w}, Scene.Onward ⟨h.world, [], past⟩ w [x] → h.world.Moves [] w →
      x ∈ h.world.alive → ∃ ds, x.Stands a hooks { h with world := w } x ds := by
    rintro w ⟨past', hlead⟩ hm hx
    obtain ⟨horder, hbears⟩ := hr.order.taken hm hx
    exact ⟨_, ⟨⟨past', hlead.sound⟩, horder⟩,
      Context.at_of_sound (h := { h with world := w }) hlead.sound hbears, ⟨[], false, hl x hx⟩,
      fun _ => ⟨rfl, hl x hx⟩⟩
  cases hst with
  | begun mode =>
    obtain ⟨past', hlead⟩ : Scene.Onward ⟨h.world, [], past⟩ (h.world.begin sole mode).2
      [(h.world.begin sole mode).1] := hs.step (.begin mode)
    have hlies : (h.world.begin sole mode).1.Lies [] false := ⟨rfl, rfl, fun _ => rfl⟩
    exact ⟨[], ⟨⟨past', hlead.sound⟩, hr.order.stay (h.world.moves_begin mode) rfl⟩,
      Context.at_of_sound (h := { h with world := (h.world.begin sole mode).2 }) hlead.sound
        (Context.bears_begin ..), ⟨[], false, hlies⟩, fun _ => ⟨rfl, hlies⟩⟩
  | held ht =>
    obtain ⟨hx, hm⟩ := World.moves_take ht
    exact alive (hs.step (.take ht)) hm hx
  | @bound t _ _ hd =>
    obtain ⟨hm, hx⟩ := h.world.moves_detach t
    rw [hd] at hm hx
    obtain ⟨_, herr⟩ | ⟨_, _, hok, hon, -⟩ := hs.detach t
    · cases hd.symm.trans herr
    · cases hd.symm.trans hok
      exact alive hon hm (hx x rfl)

end Context.Stands

/-- Every reached context stands in a sound run, if no access was to a cell that is not there. -/
theorem Reached.stands (hx : Reached R a config hooks x h) (hn : h.client.strays = []) :
    ∃ top ds, x.Stands a hooks h top ds := by
  induction hx with
  | start actions ha hst =>
    have hready := chronicled_ready config hooks (Discipline.combining_within a)
      (fun _ => trivial) (fun act hact => (ha act hact).isLocal)
      (fun act hact => (ha act hact).abides) hn
    exact ⟨_, Context.Stands.started hready hst
      (chronicled_alone config hooks fun act hact => (ha act hact).isLocal)⟩
  | @after x h p _ hp ih =>
    obtain ⟨top, ds, hs⟩ := ih (List.eq_nil_of_subset_nil (hn ▸ hp.told_goes.strays ⟨x, h⟩))
    exact ⟨top, _, hs.after hp hn⟩
  | child kind _ hu ih =>
    obtain ⟨top, ds, hs⟩ := ih hn
    exact ⟨top, [], hs.child kind hu⟩
  | @beside x h kind below shared p _ hu hp ih =>
    obtain ⟨top, ds, hs⟩ := ih (List.eq_nil_of_subset_nil
      (hn ▸ hp.told_goes.strays ⟨_, (Body.openChild x kind below shared h).2⟩))
    have hf : h.Follows [top] (p.told.ending.inChild x kind below shared h).2 :=
      ((hp.told_goes.ending.upholds_follows [top] h).inChild (invariant_follows [top] h)
        hs.at_top.engine (.refl _ _) kind below shared).2
    exact ⟨top, ds, hs.follow hf ((hs.child kind hu).after hp hn).ready.order⟩
  | rerun _ ih =>
    obtain ⟨top, ds, hs⟩ := ih hn
    exact ⟨top, ds, hs.follow ((invariant_follows [top] _).rerun hs.at_top.engine (.refl _ _))
      (hs.ready.order.countRerun hs.at_top.engine)⟩
  | pinned cells _ ih =>
    obtain ⟨top, ds, hs⟩ := ih hn
    exact ⟨top, ds, hs.follow ((invariant_follows [top] _).pin cells (.refl _ _))
      (hs.ready.order.pin cells)⟩

/-- A reached context stands before anything runs on it that meets no missing cell. -/
theorem Reached.stands_before {f : Session V (Chronicle V) → α × Session V (Chronicle V)}
    (hx : Reached R a config hooks x h) (hf : Session.Goes f)
    (hn : (f ⟨x, h⟩).2.host.client.strays = []) : ∃ top ds, x.Stands a hooks h top ds :=
  hx.stands (List.eq_nil_of_subset_nil (hn ▸ hf.strays ⟨x, h⟩))

end VersionedMemory
