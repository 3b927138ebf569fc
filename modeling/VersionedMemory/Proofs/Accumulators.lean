import VersionedMemory.Proofs.CommitVerdicts

/-!
# Accumulators

Transactions may put deltas on one accumulator at the same time: a put reads nothing, so it never
makes a commit lose to a stale read, and a commit combines the delta of the transaction with
whatever the base holds by then. So the base holds its first value and the deltas of the published
commits, in the order of their versions, each of them once. The delta of a transaction is what its
puts come to, those in merged children included; if the operation is associative and commutative,
the base holds all the puts of the published commits, in any order.

## Main definitions

* `Discipline.accumulating` allows no writes of the base, and no deltas on it but of the operation.
* `Bid.delta?` is the delta that a commit publishes on the base.

## Main statements

* `accumulated`: puts never conflict, and the base holds what the published commits put.
-/

namespace VersionedMemory

variable {V R : Type}

/-- The base of the accumulator is changed by its own deltas only. -/
def Discipline.accumulating (a : Accumulator V) : Discipline V where
  write c x := (Discipline.plain V).write c x ∧ c ≠ a.base
  delta c x := (Discipline.plain V).delta c x ∧
    (c = a.base → ∃ delta, x.effect = .combine a.op delta)
  write_merge := fun hx hy hm => ⟨(Discipline.plain V).write_merge hx.1 hy.1 hm, hx.2⟩
  delta_merge := by
    rintro c x y z ⟨hx, hxop⟩ ⟨hy, hyop⟩ hm
    refine ⟨(Discipline.plain V).delta_merge hx hy hm, fun hc => ?_⟩
    obtain ⟨v, hv⟩ := hxop hc
    obtain ⟨w, hw⟩ := hyop hc
    exact ⟨_, Change.effect_of_merge_combine hv hw hm⟩

theorem Discipline.accumulating_within (a : Accumulator V) :
    (Discipline.accumulating a).Within (.plain V) :=
  ⟨fun _ _ h => h.1, fun _ _ h => h.1⟩

theorem Discipline.accumulating_combines (a : Accumulator V) :
    (Discipline.accumulating a).Combines a := fun _ h => h.2 rfl

def Effect.delta? : Effect V → Option V
  | .assign _ => none
  | .combine _ delta => some delta

/-- The delta that the commit publishes on the base of the accumulator, if it has one. -/
def Bid.delta? (b : Bid V) (a : Accumulator V) : Option V :=
  (b.context.deltas.get? a.base).bind fun x => x.effect.delta?

/-- The deltas that were put on the accumulator in the transaction of the commit. -/
def Bid.puts (b : Bid V) (a : Accumulator V) : List V := putsOn a.base b.deeds

variable [Inhabited V] {a : Accumulator V} {hooks : Hooks} {b : Bid V}

namespace Bid.Fair

/-- The delta that is published is what the puts come to. -/
theorem pending (hb : b.Fair (.accumulating a) hooks) :
    Pending a.op (b.puts a) (b.context.deltas.get? a.base) :=
  hb.bears.handed.pending a (Discipline.accumulating_combines a)

/-- The commit combines its delta with what the base holds. -/
theorem resultAt_base (hb : b.Fair (.accumulating a) hooks) (v : V) :
    b.context.resultAt a.base v = (b.delta? a).elim v (a.op v) := by
  have hwithin := hb.bears.suits.within
  have hnone : b.context.writes.get? a.base = none := by
    cases hw : b.context.writes.get? a.base with
    | none => rfl
    | some x => exact absurd rfl (hwithin.writes a.base x hw).1.2
  unfold Context.resultAt delta?
  rw [hnone]
  cases hd : b.context.deltas.get? a.base with
  | none => rfl
  | some x =>
    obtain ⟨delta, heffect⟩ := (hwithin.deltas a.base x hd).1.2 rfl
    simp [heffect, Effect.apply, Effect.delta?]

end Bid.Fair

theorem Chronicle.versions_published (k : Chronicle V) :
    k.published.filterMap (·.receipt?.map Receipt.version) =
      k.bids.filterMap (·.receipt?.map Receipt.version) := by
  unfold published
  rw [List.filterMap_filter]
  congr 1
  funext b
  cases b.receipt? <;> rfl

/-- What published commits make of the base is their deltas, one after the other. -/
theorem Chronicle.worth_base {k : Chronicle V}
    (hfair : ∀ b ∈ k.published, b.Fair (.accumulating a) hooks) (value : V) :
    k.worth a.base value = (k.published.filterMap (·.delta? a)).foldl a.op value := by
  unfold worth
  generalize k.published = l at hfair
  induction l generalizing value with
  | nil => rfl
  | cons b rest ih =>
    obtain ⟨hb, hrest⟩ := List.forall_mem_cons.1 hfair
    rw [List.foldl_cons, hb.resultAt_base, ih _ hrest]
    cases hd : b.delta? a <;> simp [hd]

omit [Inhabited V] in
/-- An associative operation combines deltas one by one as it does put by put. -/
theorem foldl_puts (hop : ∀ u v w, a.op (a.op u v) w = a.op u (a.op v w)) {l : List (Bid V)}
    (hl : ∀ b ∈ l, Pending a.op (b.puts a) (b.context.deltas.get? a.base)) (value : V) :
    (l.filterMap (·.delta? a)).foldl a.op value = (l.flatMap (·.puts a)).foldl a.op value := by
  induction l generalizing value with
  | nil => rfl
  | cons b rest ih =>
    obtain ⟨hb, hrest⟩ := List.forall_mem_cons.1 hl
    rw [List.flatMap_cons, List.foldl_append, ← ih hrest]
    cases hd : b.context.deltas.get? a.base with
    | none =>
      rw [hd] at hb
      have hnone : b.puts a = [] := hb
      simp [Bid.delta?, hd, hnone]
    | some x =>
      rw [hd] at hb
      obtain ⟨delta, heffect, haccrues⟩ := hb
      rw [haccrues.foldl_eq hop]
      simp [Bid.delta?, Effect.delta?, hd, heffect]

/-- Take any run of one engine in which the base of an accumulator is changed by its own deltas
only, whatever else is read, written and put, begun, committed and aborted. A transaction that has
read no committed state, as one that only puts, never loses to a stale read. The base holds the
deltas of the published commits, combined with its first value in the order of their versions, and
each delta is what the puts of the transaction come to. If the operation is associative and
commutative, the base holds all these puts, in whatever order they are combined. -/
theorem accumulated (config : Config) (hooks : Hooks) {actions : List (Action V R)}
    (hl : ∀ a ∈ actions, a.Local) (ha : ∀ b ∈ actions, b.Abides (.accumulating a) fun _ => True)
    (hn : (chronicled config hooks actions).client.strays = []) :
    let h := chronicled config hooks actions
    (∀ b ∈ h.offers, (∀ c r, Deed.read c r ∉ b.deeds) →
        ∀ id c read committed, b.answer ≠ .error (.conflict id (.staleRead c read committed))) ∧
      h.client.published.filterMap (·.receipt?.map Receipt.version) =
        List.range' 1 (h.world.engine sole).version ∧
      (∀ b ∈ h.client.published,
        Pending a.op (b.puts a) (b.context.deltas.get? a.base)) ∧
      ∀ value, (a.base, value) ∈ h.client.births →
        (h.world.store.cell a.base).value =
            (h.client.published.filterMap (·.delta? a)).foldl a.op value ∧
          ((∀ u v w, a.op (a.op u v) w = a.op u (a.op v w)) → (∀ u v, a.op u v = a.op v u) →
            ∀ puts : List V, puts.Perm (h.client.published.flatMap (·.puts a)) →
              (h.world.store.cell a.base).value = puts.foldl a.op value) := by
  intro h
  have hD := Discipline.accumulating_within a
  have hready := chronicled_ready config hooks hD (fun _ => trivial) hl ha hn
  have hfair : ∀ b ∈ h.client.published, b.Fair (.accumulating a) hooks := fun b hb =>
    (hready.order.fair b (List.mem_filter.1 hb).1).1
  have hpending : ∀ b ∈ h.client.published,
      Pending a.op (b.puts a) (b.context.deltas.get? a.base) := fun b hb => (hfair b hb).pending
  refine ⟨fun b hb => (hready.fair_offers b hb).answer_ne_staleRead hD, ?_, hpending,
    fun value hvalue => ?_⟩
  · rw [← hready.order.versions]
    exact h.client.versions_published
  · have hworth := (hready.order.worth _ hvalue).2
    rw [Chronicle.worth_base hfair] at hworth
    refine ⟨hworth, fun hassoc hcomm puts hperm => ?_⟩
    have hright : ∀ u v w, a.op (a.op u v) w = a.op (a.op u w) v := fun u v w => by
      rw [hassoc, hcomm v w, ← hassoc]
    calc (h.world.store.cell a.base).value
        = (h.client.published.filterMap (·.delta? a)).foldl a.op value := hworth
      _ = (h.client.published.flatMap (·.puts a)).foldl a.op value :=
          foldl_puts hassoc hpending value
      _ = puts.foldl a.op value :=
          (hperm.foldl_eq' (fun x _ y _ z => hright z x y) value).symm

/-- Two transactions put on one counter, one of them in a child and in tasks too, and the one that
began first commits last; a third one puts and is aborted, and a child that puts fails. -/
theorem accumulated_counter :
    let counter : Accumulator Nat := ⟨⟨1⟩, fun u v => u + v⟩
    let actions : List (Action Nat Unit) :=
      [.create sole 0 10, .begin sole .readWrite, .begin sole .readWrite, .begin sole .readWrite,
        .perform 0 (.put counter 1 fun _ => .nested (.put counter 2 fun _ => .done ()) fun _ =>
          .nested (.put counter 50 fun _ => .fail (.aborted ⟨1⟩ "given up")) fun _ =>
            .parallel 2 (fun _ => .disjoint) (fun i => .put counter (3 + i) fun _ => .done ())
              fun _ => .done ()),
        .perform 1 (.put counter 5 fun _ => .done ()),
        .perform 2 (.put counter 100 fun _ => .done ()),
        .commit 1, .abort 2, .commit 0]
    let h := chronicled {} {} actions
    h.client.published.map (·.puts counter) = [[5], [1, 2, 3, 4]] ∧
      (h.world.store.cell counter.base).value = [4, 3, 2, 1, 5].foldl counter.op 10 := by
  intro counter actions h
  have hl : ∀ a ∈ actions, a.Local := by
    simp [actions, Action.Local, Program.Local]
  have ha : ∀ a ∈ actions, a.Abides (.accumulating counter) fun _ => True := by
    simp [actions, counter, Action.Abides, Program.Abides, Discipline.accumulating,
      Discipline.plain]
  have hn : h.client.strays = [] := by decide +kernel
  have hbirth : (counter.base, 10) ∈ h.client.births := by decide +kernel
  have hputs : h.client.published.map (·.puts counter) = [[5], [1, 2, 3, 4]] := by decide +kernel
  refine ⟨hputs, ?_⟩
  have hall : h.client.published.flatMap (·.puts counter) = [5, 1, 2, 3, 4] := by
    rw [List.flatMap_def, hputs]
    rfl
  have hperm : [4, 3, 2, 1, 5].Perm (h.client.published.flatMap (·.puts counter)) := by
    rw [hall]
    decide
  clear hputs hall
  -- all that has to be computed is settled
  clear_value actions
  exact ((accumulated {} {} hl ha hn).2.2.2 10 hbirth).2 Nat.add_assoc Nat.add_comm _ hperm

end VersionedMemory
