import RangePorter.Interleaving.Refinement
import RangePorter.Stats.Observation

/-!
# The moments of a reading

A snapshot loads each counter at its own moment. Whatever is known of every counter at the
time of its load is then known of the values in the answer, those of the gauges as well.
-/

namespace RangePorter.StatsRegistry

open Interleaving

variable {registry registry' : StatsRegistry} {t t' : Task} {k : Choice} {new : List Task}
  {p q : Pool StatsRegistry Task} {as : List (Action Choice Env)} {j n : Nat}
  {seen seen' : Nat → Counter → Nat → Prop}

/-- A task keeps its place while it is not scheduled. -/
theorem run_kept (complete : machine.run p as = some q) (found : p.threads[j]? = some t)
    (idle : ∀ k, .thread j k ∉ as) : q.threads[j]? = some t := by
  induction as generalizing p with
  | nil =>
      cases complete
      exact found
  | cons a as ih =>
      obtain ⟨next, taken, rest⟩ := Machine.run_cons_iff.mp complete
      refine ih rest ?_ fun k member => idle k (List.mem_cons_of_mem _ member)
      cases a with
      | env e =>
          obtain ⟨registry, new, -, rfl⟩ := Program.machine_env_iff.mp taken
          exact lookup_append found
      | thread i k =>
          obtain ⟨u, registry, u', new, -, -, rfl⟩ := Program.machine_thread_iff.mp taken
          refine lookup_other found ?_
          rintro rfl
          exact idle k (List.mem_cons_self ..)

/-- What the snapshots of a list show has been seen. -/
def AllSeen (seen : Nat → Counter → Nat → Prop) (n : Nat) (loading : Loading) : Prop :=
  ∀ i < n, ∀ c, (i, c) ∈ loading.pending ∨
    ∃ shown, loading.snapshots[i]? = some shown ∧ seen i c (shown.get c)

/-- The task is a snapshot, and what it has loaded has been seen. -/
def Task.Loaded (seen : Nat → Counter → Nat → Prop) (n : Nat) : Task → Prop
  | .snapshot loading => AllSeen seen n loading
  | .copied ports _ => AllSeen seen n ⟨ports, [], 0⟩
  | .returned s => AllSeen seen n ⟨s.ports, [], 0⟩
  | _ => False

theorem AllSeen.mono {loading : Loading} (all : AllSeen seen n loading)
    (more : ∀ i c v, seen i c v → seen' i c v) : AllSeen seen' n loading := by
  intro i bound c
  refine (all i bound c).imp_right ?_
  rintro ⟨shown, found, was⟩
  exact ⟨shown, found, more i c _ was⟩

theorem Task.Loaded.mono (loaded : t.Loaded seen n) (more : ∀ i c v, seen i c v → seen' i c v) :
    t.Loaded seen' n := by
  cases t with
  | snapshot | copied | returned => exact AllSeen.mono loaded more
  | _ => cases loaded

theorem AllSeen.next {loading next : Loading} {i : Nat} {c : Counter}
    {rest : List (Nat × Counter)} (all : AllSeen seen n loading)
    (length : loading.snapshots.length = n)
    (loads : ∀ i c s, registry.ports[i]? = some s → seen i c (s.load c))
    (pending : loading.pending = (i, c) :: rest)
    (loaded : registry.loadNext loading i c rest = some next) : AllSeen seen n next := by
  obtain ⟨s, here, rfl⟩ := Option.map_eq_some_iff.mp loaded
  intro l bound d
  by_cases own : (l, d) = (i, c)
  · cases own
    have inside : i < loading.snapshots.length := length ▸ bound
    refine .inr ⟨loading.snapshots[i].set c (s.load c), ?_, ?_⟩
    · simp [List.getElem?_eq_getElem inside]
    · rw [PortSnapshot.get_set_self]
      exact loads i c s here
  · obtain waits | ⟨shown, found, was⟩ := all l bound d
    · rw [pending] at waits
      exact .inl ((List.mem_cons.mp waits).resolve_left own)
    · right
      by_cases port : i = l
      · have other : d ≠ c := fun same => own (by rw [same, port])
        refine ⟨shown.set c (s.load c), by simp [port, found], ?_⟩
        rw [PortSnapshot.get_set_of_ne _ _ other]
        exact was
      · exact ⟨shown, by simp [port, found], was⟩

theorem Step.loaded (taken : Step registry t k registry' t' new) (before : t.Loaded seen n)
    (length : ∀ loading, t.reading = some loading → loading.snapshots.length = n)
    (loads : ∀ i c s, registry.ports[i]? = some s → seen i c (s.load c)) : t'.Loaded seen n := by
  cases taken with
  | snapshotLoad pending loaded => exact before.next (length _ rfl) loads pending loaded
  | copy pending =>
      intro i bound c
      obtain waits | was := before i bound c
      · rw [pending] at waits
        cases waits
      · exact .inr was
  | stamp => exact before
  | _ => cases before

end RangePorter.StatsRegistry
