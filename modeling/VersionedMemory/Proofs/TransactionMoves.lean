import VersionedMemory.Proofs.Handles
import VersionedMemory.Proofs.EngineService

/-!
# Transactions that move

All that an operation on a whole transaction does, unless it publishes, is that it moves the
transaction: it takes it out of somebody's hands and puts it down elsewhere, or ends it. The cells
stay, and so do the version and the hooks of the engine.

## Main definitions

* `World.Moves` says that a world becomes another one so, with one lemma for each operation.
-/

namespace VersionedMemory

variable {V : Type}

namespace World

/-- Transactions change hands, begin or come to an end, and nothing is published. No transaction is
put down that was not alive, but for those of `hand`. -/
structure Moves (hand : List (Context V)) (w w' : World V) : Prop where
  store : w'.store = w.store
  hooks : (w'.engine sole).hooks = (w.engine sole).hooks
  begun : (w.engine sole).begun ≤ (w'.engine sole).begun
  version : (w'.engine sole).version = (w.engine sole).version
  alive : ∀ x ∈ w'.alive, x ∈ hand ∨ x ∈ w.alive

variable {hand : List (Context V)} {w w' : World V} {x : Context V}

namespace Moves

theorem refl (w : World V) : w.Moves [] w :=
  ⟨rfl, rfl, Nat.le_refl _, rfl, fun _ hy => .inr hy⟩

theorem trans {w₁ : World V} {hand' : List (Context V)} (hm : w.Moves hand w₁)
    (hm' : w₁.Moves hand' w') : w.Moves (hand ++ hand') w' where
  store := hm'.store.trans hm.store
  hooks := hm'.hooks.trans hm.hooks
  begun := Nat.le_trans hm.begun hm'.begun
  version := hm'.version.trans hm.version
  alive y hy := by
    rw [List.mem_append]
    rcases hm'.alive y hy with hy | hy
    · exact .inl (.inr hy)
    · exact (hm.alive y hy).imp_left .inl

/-- A transaction that was alive may be put down again. -/
theorem settle (hm : w.Moves [x] w') (hx : x ∈ w.alive) : w.Moves [] w' where
  store := hm.store
  hooks := hm.hooks
  begun := hm.begun
  version := hm.version
  alive y hy := (hm.alive y hy).elim (fun hyx => .inr (List.mem_singleton.1 hyx ▸ hx)) .inr

theorem weaken (hm : w.Moves [] w') (hand : List (Context V)) : w.Moves hand w' :=
  { hm with alive := fun y hy => .inr ((hm.alive y hy).resolve_left List.not_mem_nil) }

end Moves

theorem moves_begin (w : World V) (mode : Mode) : w.Moves [] (w.begin sole mode).2 := by
  refine ⟨rfl, ?_, ?_, ?_, fun _ hy => .inr hy⟩ <;>
    simp [World.begin, Engine.begin, Engine.version, Timeline.anchor]

theorem moves_abort (w : World V) (x : Context V) (reason : String) :
    w.Moves [] (w.abort x reason) := by
  refine ⟨rfl, hooks_abort w x reason sole, Nat.le_of_eq ?_, version_abort w x reason sole,
    fun _ hy => .inr hy⟩
  unfold World.abort Engine.abort
  by_cases he : sole = x.engine
  · split <;> simp [he, Engine.finish]
  · split <;> simp [he]

theorem moves_hold (w : World V) (x : Context V) : w.Moves [x] (w.hold x).2 := by
  refine ⟨rfl, rfl, Nat.le_refl _, rfl, fun y hy => ?_⟩
  simp only [hold, alive, List.mem_append] at hy ⊢
  rcases hy with (hy | hy) | hy
  · exact (Table.mem_values_insert hy).imp (by simp) fun hy => .inl (.inl hy)
  · exact .inr (.inl (.inr hy))
  · exact .inr (.inr hy)

theorem moves_giveBack (w : World V) (k : Handle) (x : Context V) :
    w.Moves [x] (w.giveBack k x) := by
  refine ⟨rfl, rfl, Nat.le_refl _, rfl, fun y hy => ?_⟩
  simp only [giveBack, alive, List.mem_append] at hy ⊢
  rcases hy with (hy | hy) | hy
  · exact (Table.mem_values_insert hy).imp (by simp) fun hy => .inl (.inl hy)
  · exact .inr (.inl (.inr hy))
  · exact .inr (.inr hy)

theorem moves_put_bound (w : World V) (t : ThreadId) (x : Context V) :
    w.Moves [x] { w with bound := w.bound.insert t x } := by
  refine ⟨rfl, rfl, Nat.le_refl _, rfl, fun y hy => ?_⟩
  simp only [alive, List.mem_append] at hy ⊢
  rcases hy with hy | hy
  · exact .inr (.inl hy)
  · exact (Table.mem_values_insert hy).imp (by simp) .inr

theorem moves_bind (w : World V) (t : ThreadId) (x : Context V) : w.Moves [x] (w.bind t x).2 := by
  unfold World.bind
  split
  · exact (moves_abort w x _).weaken [x]
  · exact moves_put_bound w t x

theorem moves_unbind (w : World V) (t : ThreadId) : w.Moves [] (w.unbind t).2 := by
  refine ⟨rfl, rfl, Nat.le_refl _, rfl, fun y hy => .inr ?_⟩
  simp only [unbind, alive, List.mem_append, Table.mem_values, Table.get?_erase] at hy ⊢
  rcases hy with hy | ⟨k, hk⟩
  · exact .inl hy
  · split at hk
    · cases hk
    · exact .inr ⟨k, hk⟩

theorem moves_rebind (w : World V) (t : ThreadId) (x : Context V) :
    w.Moves [x] (w.rebind t x) := by
  have hput := (moves_unbind w t).trans (moves_put_bound (w.unbind t).2 t x)
  unfold rebind
  dsimp only
  split
  · exact hput.trans (moves_abort _ _ _)
  · exact hput

theorem moves_park (w : World V) (e : EngineId) (x : Context V) : w.Moves [x] (w.park e x).2 := by
  have hput : w.Moves [x] { w with parked := w.parked.insert (e, x.id) x } := by
    refine ⟨rfl, rfl, Nat.le_refl _, rfl, fun y hy => ?_⟩
    simp only [alive, List.mem_append] at hy ⊢
    rcases hy with (hy | hy) | hy
    · exact .inr (.inl (.inl hy))
    · exact (Table.mem_values_insert hy).imp (by simp) fun hy => .inl (.inr hy)
    · exact .inr (.inr hy)
  unfold World.park
  split
  · exact (Moves.refl w).weaken [x]
  · split
    · exact (moves_abort w x _).weaken [x]
    · dsimp only
      split
      · exact hput.trans (moves_abort _ _ _)
      · exact hput

/-- A transaction is taken that was alive. -/
theorem moves_take {k : Handle} (ht : w.take k = some (x, w')) : x ∈ w.alive ∧ w.Moves [] w' := by
  have ha := alive_take ht
  obtain ⟨_, -, he⟩ := Option.map_eq_some_iff.1 ht
  cases he
  exact ⟨ha.mem_iff.2 (List.mem_cons_self ..), rfl, rfl, Nat.le_refl _, rfl,
    fun y hy => .inr (ha.mem_iff.2 (List.mem_cons_of_mem _ hy))⟩

theorem moves_detach (w : World V) (t : ThreadId) :
    w.Moves [] (w.detach t).2 ∧ ∀ x, (w.detach t).1 = .ok x → x ∈ w.alive := by
  have hm := moves_unbind w t
  unfold detach
  rcases hu : w.unbind t with ⟨o, w'⟩
  rw [hu] at hm
  cases o with
  | none => exact ⟨hm, nofun⟩
  | some x =>
    refine ⟨hm, fun y hy => ?_⟩
    cases hy
    exact (alive_unbind hu).mem_iff.2 (List.mem_cons_self ..)

theorem moves_unpark (w : World V) (txn : TxnId) :
    w.Moves [] (w.unpark sole txn).2 ∧ ∀ x, (w.unpark sole txn).1 = .ok x → x ∈ w.alive := by
  rcases hu : w.unpark sole txn with ⟨e | x, w'⟩
  · rw [eq_of_unpark_eq_error hu]
    exact ⟨.refl w, nofun⟩
  · have ha := alive_unpark hu
    obtain ⟨-, rfl⟩ := unpark_eq_ok hu
    refine ⟨⟨rfl, rfl, Nat.le_refl _, rfl,
      fun y hy => .inr (ha.mem_iff.2 (List.mem_cons_of_mem _ hy))⟩, fun y hy => ?_⟩
    cases hy
    exact ha.mem_iff.2 (List.mem_cons_self ..)

/-- What is taken may be put down. -/
theorem moves_consume (w : World V) (k : Handle) {f : Context V → World V → World V}
    (hf : ∀ (x : Context V) (w' : World V), w'.Moves [x] (f x w')) :
    w.Moves [] (w.consume k f) := by
  unfold consume
  split
  · next x w' ht =>
    obtain ⟨hx, hm⟩ := moves_take ht
    exact (hm.trans (hf x w')).settle hx
  · exact .refl w

theorem moves_holdResult {r : Except Error (Context V) × World V}
    (hr : w.Moves [] r.2 ∧ ∀ x, r.1 = .ok x → x ∈ w.alive) : w.Moves [] (holdResult r) := by
  obtain ⟨e | x, w'⟩ := r
  · exact hr.1
  · exact (hr.1.trans (moves_hold w' x)).settle (hr.2 x rfl)

theorem moves_abortParked (w : World V) (txn : TxnId) : w.Moves [] (w.abortParked sole txn).2 := by
  obtain ⟨hm, -⟩ := w.moves_unpark txn
  unfold abortParked
  generalize w.unpark sole txn = o at hm ⊢
  obtain ⟨e | x, w'⟩ := o
  · exact hm
  · exact hm.trans (w'.moves_abort x _)

theorem moves_abortBound (w : World V) (t : ThreadId) : w.Moves [] (w.abortBound t).2 := by
  obtain ⟨hm, -⟩ := w.moves_detach t
  unfold abortBound
  generalize w.detach t = o at hm ⊢
  obtain ⟨e | x, w'⟩ := o
  · exact hm
  · exact hm.trans (w'.moves_abort x _)

theorem moves_parkBound (w : World V) (t : ThreadId) (e : EngineId) :
    w.Moves [] (w.parkBound t e).2 := by
  obtain ⟨hm, hx⟩ := w.moves_detach t
  unfold parkBound
  generalize w.detach t = o at hm hx ⊢
  obtain ⟨err | x, w'⟩ := o
  · exact hm
  · exact (hm.trans (w'.moves_park e x)).settle (hx x rfl)

theorem moves_unparkBound (w : World V) (t : ThreadId) (txn : TxnId) :
    w.Moves [] (w.unparkBound t sole txn).2 := by
  obtain ⟨hm, hx⟩ := w.moves_unpark txn
  unfold unparkBound
  split
  · exact .refl w
  · generalize w.unpark sole txn = o at hm hx ⊢
    obtain ⟨e | x, w'⟩ := o
    · exact hm
    · exact (hm.trans (w'.moves_bind t x)).settle (hx x rfl)

end World

end VersionedMemory
