import RangePorter.Stats.Freshness

/-!
# Which counters belong to which port

The ports of a registry never change, and a port is found at its position. An answer lists
them in the same order.
-/

namespace RangePorter.StatsRegistry

open Interleaving

variable {registry registry' : StatsRegistry} {t t' : Task} {k : Choice} {new : List Task}
  {p q : Pool StatsRegistry Task} {as : List (Action Choice Env)}
  {listenPorts : List Nat} {target : String} {windowMinutes now : Nat} {i : Nat}

/-- What a change keeps of every item it keeps of the list. -/
theorem map_modify_of_eq {α β : Type*} {f : α → α} {g : α → β} (kept : ∀ a, g (f a) = g a)
    (l : List α) (i : Nat) : (l.modify i f).map g = l.map g := by
  induction l generalizing i with
  | nil => simp
  | cons a l ih =>
      cases i with
      | zero => simp [kept]
      | succ i => simp [ih]

def numbers (registry : StatsRegistry) : List Nat := registry.ports.map PortStats.port

theorem numbers_record (registry : StatsRegistry) (i : Nat) (op : CounterOp) :
    (registry.record i op).numbers = registry.numbers :=
  map_modify_of_eq (fun s => PortStats.port_store s ..) registry.ports i

theorem Step.numbers (taken : Step registry t k registry' t' new) :
    registry'.numbers = registry.numbers := by
  cases taken with
  | record => exact numbers_record ..
  | _ => rfl

theorem numbers_run (complete : machine.run p as = some q) :
    q.shared.numbers = p.shared.numbers := by
  refine Machine.invariant_run (M := machine)
    (P := fun q => q.shared.numbers = p.shared.numbers) ?_ rfl complete
  intro p a q before taken
  refine Program.machine_cases (P := program)
    (motive := fun _ q => q.shared.numbers = _) ?_ ?_ taken
  · intro i k t registry t' new _ own
    exact (step_iff.mp own).numbers.trans before
  · intro e registry new own
    rw [env_registry own]
    exact before

/-- A port is found at its own position, if no two ports have the same number. -/
theorem port_of_distinct {s : PortStats} (distinct : registry.numbers.Nodup)
    (found : registry.ports[i]? = some s) : registry.port s.port = some i := by
  obtain ⟨bound, rfl⟩ := List.getElem?_eq_some_iff.mp found
  rw [port, List.findIdx?_eq_some_iff_getElem]
  refine ⟨bound, by simp, ?_⟩
  intro j before
  have earlier : j < registry.numbers.length := by simpa [numbers] using before.trans bound
  have own : i < registry.numbers.length := by simpa [numbers] using bound
  have ne : registry.numbers[j] ≠ registry.numbers[i] :=
    fun same => Nat.ne_of_lt before ((List.Nodup.getElem_inj_iff distinct).mp same)
  simpa [numbers] using ne

/-- The snapshots that a task has, complete or not. -/
def Task.snapshots : Task → Option (List PortSnapshot)
  | .rollup _ loading _ | .snapshot loading => some loading.snapshots
  | .copied ports _ => some ports
  | .returned s => some s.ports
  | _ => none

theorem snapshots_resume (caller : RollupCaller) : caller.resume.snapshots = none :=
  RollupCaller.resume_cases rfl rfl

theorem numbers_load (registry : StatsRegistry) :
    registry.load.snapshots.map PortSnapshot.port = registry.numbers := by
  rw [load, List.map_map]
  rfl

theorem numbers_loadNext {loading next : Loading} {c : Counter} {rest : List (Nat × Counter)}
    (loaded : registry.loadNext loading i c rest = some next) :
    next.snapshots.map PortSnapshot.port = loading.snapshots.map PortSnapshot.port := by
  obtain ⟨s, -, rfl⟩ := Option.map_eq_some_iff.mp loaded
  exact map_modify_of_eq (fun snapshot => by cases c <;> rfl) loading.snapshots i

/-- A snapshot lists the ports of the registry, one by one. -/
def Numbered (registry : StatsRegistry) (t : Task) : Prop :=
  ∀ snapshots, t.snapshots = some snapshots →
    snapshots.map PortSnapshot.port = registry.numbers

theorem numbered (reached : machine.Reachable (start listenPorts target windowMinutes now) p) :
    AllThreads Numbered p := by
  refine .of_reachable reached ?_ ?_ ?_
  · intro t member
    rw [List.mem_singleton.mp member]
    rintro snapshots ⟨⟩
  · intro p i k t registry t' new _ before found taken
    have step := step_iff.mp taken
    have own := before.get found
    refine ⟨?_, ?_, ?_⟩
    · intro snapshots has
      cases step with
      | tick | shutdown =>
          cases has
          exact numbers_load _
      | rollupLoad pending loaded | snapshotLoad pending loaded =>
          cases has
          exact (numbers_loadNext loaded).trans (own _ rfl)
      | rollup =>
          rw [snapshots_resume] at has
          cases has
      | copy | stamp =>
          cases has
          exact own _ rfl
      | record => cases has
    · rw [step.new_eq]
      exact fun _ member => absurd member List.not_mem_nil
    · intro u _ own snapshots has
      rw [step.numbers]
      exact own snapshots has
  · intro p e registry new _ taken
    obtain ⟨rfl, u, rfl, call⟩ := env_iff.mp taken
    refine ⟨?_, fun _ _ own => own⟩
    intro u' member snapshots has
    rw [List.mem_singleton.mp member] at has
    cases call with
    | record => cases has
    | _ =>
        cases has
        exact numbers_load _

end RangePorter.StatsRegistry
