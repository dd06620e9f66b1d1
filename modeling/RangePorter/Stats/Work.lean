import RangePorter.Stats.Numbers

/-!
# The work of the registry's tasks

A reading loads one counter after the other, and none of them is missing, so nothing holds
it up. Once `run_rollup` is to stop and no new call comes in, each step of a task uses up
work.
-/

namespace RangePorter.StatsRegistry

open Interleaving

variable {listenPorts : List Nat} {target : String} {windowMinutes now K : Nat}
  {registry registry' : StatsRegistry} {t t' : Task} {k : Choice} {new : List Task}
  {p : Pool StatsRegistry Task}

/-- How many loads a reading takes. -/
def toLoad (registry : StatsRegistry) : Nat := registry.load.pending.length

theorem toLoad_congr (same : registry'.ports.length = registry.ports.length) :
    registry'.toLoad = registry.toLoad := by
  rw [toLoad, toLoad, load, load, same]

/-- A reading loads counters of ports that there are. -/
def InRange (registry : StatsRegistry) (t : Task) : Prop :=
  ∀ loading, t.reading = some loading → ∀ x ∈ loading.pending, x.1 < registry.ports.length

theorem lt_of_mem_load : ∀ x ∈ registry.load.pending, x.1 < registry.ports.length := by
  intro x member
  obtain ⟨i, inside, member⟩ := List.mem_flatMap.mp member
  obtain ⟨c, -, rfl⟩ := List.mem_map.mp member
  exact List.mem_range.mp inside

theorem loadNext_pending {loading next : Loading} {i : Nat} {c : Counter}
    {rest : List (Nat × Counter)} (loaded : registry.loadNext loading i c rest = some next) :
    next.pending = rest := by
  obtain ⟨s, -, rfl⟩ := Option.map_eq_some_iff.mp loaded
  rfl

theorem inRange (reached : machine.Reachable (start listenPorts target windowMinutes now) p) :
    AllThreads InRange p := by
  refine .of_reachable reached ?_ ?_ ?_
  · intro t member
    rw [List.mem_singleton.mp member]
    rintro loading ⟨⟩
  · intro p i k t registry t' new _ before found taken
    have step := step_iff.mp taken
    refine ⟨?_, ?_, ?_⟩
    · intro loading reading
      have own := before.get found
      cases step with
      | tick | shutdown =>
          cases reading
          exact lt_of_mem_load
      | rollupLoad pending loaded | snapshotLoad pending loaded =>
          cases reading
          intro x member
          rw [loadNext_pending loaded] at member
          exact own _ rfl x (pending ▸ List.mem_cons_of_mem _ member)
      | rollup =>
          rw [reading_resume] at reading
          cases reading
      | _ => cases reading
    · rw [step.new_eq]
      exact fun _ member => absurd member List.not_mem_nil
    · intro u _ own loading reading
      rw [step.ports_length]
      exact own loading reading
  · intro p e registry new _ taken
    obtain ⟨rfl, u, rfl, call⟩ := env_iff.mp taken
    refine ⟨?_, fun _ _ own => own⟩
    intro u' member loading reading
    rw [List.mem_singleton.mp member] at reading
    cases call with
    | record => cases reading
    | _ =>
        cases reading
        exact lt_of_mem_load

/-! ### The work that is left -/

/-- What `run_rollup` has still to do when `rollup_at_epoch` returns to it. -/
def workOfCaller (K : Nat) : RollupCaller → Nat
  | .runRollup false => K + 2
  | .runRollup true | .user => 0

/-- The work of a task where a reading takes `K` loads. The updates of a method are the work
of its caller. -/
def workOf (K : Nat) : Task → Nat
  | .recording .. | .returned _ | .finished => 0
  | .runRollup => K + 2
  | .rollup _ loading caller => loading.pending.length + 1 + workOfCaller K caller
  | .snapshot loading => loading.pending.length + 2
  | .copied .. => 1

/-- The interval of `run_rollup` has ticked: this brings a new roll-up. -/
def Choice.ticks : Choice → Bool
  | .tick _ => true
  | _ => false

theorem workOf_resume (K : Nat) (caller : RollupCaller) :
    workOf K caller.resume = workOfCaller K caller := by
  cases caller with
  | runRollup last => cases last <;> rfl
  | user => rfl

theorem Step.workOf (taken : Step registry t k registry' t' new) (quiet : k.ticks = false)
    (other : ∀ port ops, t ≠ .recording port ops) :
    StatsRegistry.workOf registry.toLoad t' < StatsRegistry.workOf registry.toLoad t := by
  cases taken with
  | record => exact absurd rfl (other _ _)
  | tick => cases quiet
  | shutdown => exact Nat.lt_succ_self _
  | rollupLoad pending loaded | snapshotLoad pending loaded =>
      simp only [StatsRegistry.workOf, loadNext_pending loaded, pending, List.length_cons]
      omega
  | rollup pending =>
      rw [workOf_resume]
      simp only [StatsRegistry.workOf, pending, List.length_nil]
      omega
  | copy => simp [StatsRegistry.workOf]
  | stamp => exact Nat.zero_lt_one

/-- Nothing is left to do, for a recorder of its method. -/
def Task.ended : Task → Bool
  | .recording _ ops => ops.isEmpty
  | .returned _ | .finished => true
  | _ => false

theorem workOf_eq_zero (none : workOf K t = 0) :
    t.ended = true ∨ ∃ port ops, t = .recording port ops := by
  cases t with
  | recording port ops => exact .inr ⟨port, ops, rfl⟩
  | returned | finished => exact .inl rfl
  | _ => simp [workOf] at none

/-- A task with work left can go on, `run_rollup` by leaving its loop. -/
theorem goes_on (inside : InRange registry t) (busy : workOf K t ≠ 0) :
    ∃ k registry' t', k.ticks = false ∧ Step registry t k registry' t' [] := by
  have loaded : ∀ loading i c rest, t.reading = some loading →
      loading.pending = (i, c) :: rest →
      ∃ next, registry.loadNext loading i c rest = some next := by
    intro loading i c rest reading pending
    have known := inside loading reading (i, c) (pending ▸ List.mem_cons_self ..)
    exact ⟨_, Option.map_eq_some_iff.mpr ⟨_, List.getElem?_eq_getElem known, rfl⟩⟩
  cases t with
  | recording | returned | finished => exact absurd rfl busy
  | runRollup => exact ⟨.shutdown 0, _, _, rfl, .shutdown⟩
  | copied ports minuteBuckets => exact ⟨.clock 0, _, _, rfl, .stamp⟩
  | rollup now loading caller =>
      cases pending : loading.pending with
      | nil => exact ⟨.go, _, _, rfl, .rollup pending⟩
      | cons x rest =>
          obtain ⟨next, first⟩ := loaded loading x.1 x.2 rest rfl pending
          exact ⟨.go, _, _, rfl, .rollupLoad pending first⟩
  | snapshot loading =>
      cases pending : loading.pending with
      | nil => exact ⟨.go, _, _, rfl, .copy pending⟩
      | cons x rest =>
          obtain ⟨next, first⟩ := loaded loading x.1 x.2 rest rfl pending
          exact ⟨.go, _, _, rfl, .snapshotLoad pending first⟩

end RangePorter.StatsRegistry
