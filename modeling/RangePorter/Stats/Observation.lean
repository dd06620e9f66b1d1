import RangePorter.Stats.Registry
import Mathlib.Tactic.Choose

/-!
# What a port-by-port reading of the counters sees

The counters are loaded one after the other while recorders go on. A cumulative
counter only grows, so each loaded value is the true value at some moment between the
first and the last load (`Observes`). The aggregate of a reading therefore lies between
the true sums at its start and at its end (`Between`), although it need not be the sum
at any single moment.

The true value of a counter is the sum of all amounts recorded for it. The counter
itself is that sum modulo the size of a word, and so is everything read from it; the
bounds below hold of the sums, whether they fit or not.
-/

namespace RangePorter

open Interleaving

/-- The amounts recorded for one counter of one port. -/
def recordedOf (recorded : List (Nat × CounterOp)) (i : Nat) (c : Counter) : Nat :=
  ((recorded.filter fun r => r.1 = i ∧ r.2.counter = c).map fun r => r.2.amount).sum

/-- The amounts recorded for one counter of the first `n` ports. -/
def recordedTotal (n : Nat) (recorded : List (Nat × CounterOp)) (c : Counter) : Nat :=
  ((List.range n).map fun i => recordedOf recorded i c).sum

section

variable {recorded recorded' : List (Nat × CounterOp)} {i n : Nat} {c : Counter}

theorem recordedOf_concat (recorded : List (Nat × CounterOp)) (j : Nat) (op : CounterOp) :
    recordedOf (recorded ++ [(j, op)]) i c =
      recordedOf recorded i c + if j = i ∧ op.counter = c then op.amount else 0 := by
  by_cases counts : j = i ∧ op.counter = c
  · simp [recordedOf, counts]
  · simp [recordedOf, counts]

theorem recordedOf_mono (grows : recorded <+: recorded') :
    recordedOf recorded i c ≤ recordedOf recorded' i c := by
  apply List.Sublist.sum_le_sum _ fun _ _ => Nat.zero_le _
  exact (grows.sublist.filter _).map _

theorem recordedTotal_mono (grows : recorded <+: recorded') :
    recordedTotal n recorded c ≤ recordedTotal n recorded' c :=
  List.sum_le_sum fun _ _ => recordedOf_mono grows

theorem recordedOf_le_total (bound : i < n) :
    recordedOf recorded i c ≤ recordedTotal n recorded c :=
  List.single_le_sum (fun _ _ => Nat.zero_le _) _
    (List.mem_map_of_mem (f := fun i => recordedOf recorded i c) (List.mem_range.mpr bound))

end

theorem take_prefix_take {α : Type*} (l : List α) {k m : Nat} (le : k ≤ m) :
    l.take k <+: l.take m := by
  rw [← Nat.min_eq_left le, ← List.take_take]
  exact List.take_prefix ..

theorem take_of_grows {α : Type*} {l l' : List α} {k : Nat} (grows : l <+: l')
    (le : k ≤ l.length) : l'.take k = l.take k := by
  obtain ⟨rest, rfl⟩ := grows
  exact List.take_append_of_le_length le

namespace StatsRegistry

variable {listenPorts : List Nat} {target : String} {windowMinutes now : Nat}
  {registry registry' : StatsRegistry} {t t' : Task} {k : Choice} {new : List Task}
  {p : Pool StatsRegistry Task} {loading : Loading}

theorem Step.ports_length (taken : Step registry t k registry' t' new) :
    registry'.ports.length = registry.ports.length := by
  cases taken with
  | record => simp
  | _ => rfl

theorem Step.recorded (taken : Step registry t k registry' t' new) :
    registry.history.recorded <+: registry'.history.recorded := by
  cases taken with
  | record => exact List.prefix_append ..
  | _ => exact List.prefix_rfl

theorem env_registry {e : Env} (taken : registry.env e = some (registry', new)) :
    registry' = registry := (env_iff.mp taken).1

/-- What was recorded stays recorded. -/
theorem grows_run {q r : Pool StatsRegistry Task} {as : List (Action Choice Env)}
    (complete : machine.run q as = some r) :
    q.shared.history.recorded <+: r.shared.history.recorded ∧
      r.shared.ports.length = q.shared.ports.length := by
  refine Machine.invariant_run (M := machine) (P := fun p =>
    q.shared.history.recorded <+: p.shared.history.recorded ∧
      p.shared.ports.length = q.shared.ports.length) ?_ ⟨List.prefix_rfl, rfl⟩ complete
  rintro p a p' ⟨grows, same⟩ taken
  cases a with
  | thread i k =>
      obtain ⟨t, registry', t', new, -, own, rfl⟩ := Program.machine_thread_iff.mp taken
      have step := step_iff.mp own
      exact ⟨grows.trans step.recorded, step.ports_length.trans same⟩
  | env e =>
      obtain ⟨registry', new, own, rfl⟩ := Program.machine_env_iff.mp taken
      rw [env_registry own]
      exact ⟨grows, same⟩

/-! ### Counters -/

/-- What a recorder has left to do is the rest of a recording method. -/
def Task.Continues (t : Task) : Prop :=
  ∀ i ops, t = .recording i ops → ∃ recording : Recording, ops <:+ recording.ops

theorem Step.continues (taken : Step registry t k registry' t' new) (before : t.Continues) :
    t'.Continues := by
  cases taken with
  | @record j op ops =>
      obtain ⟨recording, suffix⟩ := before j _ rfl
      rintro _ _ ⟨⟩
      exact ⟨recording, (List.suffix_cons ..).trans suffix⟩
  | rollup => exact RollupCaller.resume_cases (by rintro _ _ ⟨⟩) (by rintro _ _ ⟨⟩)
  | _ => rintro _ _ ⟨⟩

theorem continues (reached : machine.Reachable (start listenPorts target windowMinutes now) p) :
    AllThreads (fun _ t => t.Continues) p := by
  refine AllThreads.of_reachable reached ?_ ?_ ?_
  · intro t member
    rw [List.mem_singleton.mp member]
    rintro i ops ⟨⟩
  · intro p i k t sh t' new _ before found taken
    have step := step_iff.mp taken
    refine ⟨step.continues (before.get found), ?_, fun _ _ own => own⟩
    cases step <;> exact fun _ member => absurd member List.not_mem_nil
  · intro p e sh new _ taken
    obtain ⟨rfl, u, rfl, call⟩ := env_iff.mp taken
    refine ⟨?_, fun _ _ own => own⟩
    intro u' member
    rw [List.mem_singleton.mp member]
    cases call with
    | @record port recording i known =>
        rintro _ _ ⟨⟩
        exact ⟨recording, List.suffix_refl _⟩
    | _ => rintro _ _ ⟨⟩

def recordedFor (registry : StatsRegistry) (i : Nat) (c : Counter) : Nat :=
  recordedOf registry.history.recorded i c

theorem recordedFor_record (registry : StatsRegistry) (j : Nat) (op : CounterOp) (i : Nat)
    (c : Counter) : (registry.record j op).recordedFor i c =
      registry.recordedFor i c + if j = i ∧ op.counter = c then op.amount else 0 :=
  recordedOf_concat ..

/-- A cumulative counter holds what was recorded for it. -/
def Counts (registry : StatsRegistry) : Prop :=
  ∀ i s, registry.ports[i]? = some s → ∀ c : Counter, c.gauge = false →
    s.load c = recordedOf registry.history.recorded i c % u64Size

theorem Counts.record {i : Nat} {op : CounterOp} {recording : Recording}
    (counts : registry.Counts) (part : op ∈ recording.ops) : (registry.record i op).Counts := by
  intro j s found c cumulative
  simp only [StatsRegistry.record] at found ⊢
  rw [recordedOf_concat]
  rw [List.getElem?_modify] at found
  obtain ⟨s', found', rfl⟩ := Option.map_eq_some_iff.mp found
  have before := counts j s' found' c cumulative
  by_cases port : i = j
  · by_cases same : op.counter = c
    · subst same
      rw [if_pos port, PortStats.load_apply_self, Recording.result_eq part cumulative, before]
      simp [wrappingAdd, port]
    · rw [if_pos port, PortStats.load_apply_of_ne _ (Ne.symm same), before]
      simp [same]
  · simp [port, before]

theorem counts (reached : machine.Reachable (start listenPorts target windowMinutes now) p) :
    p.shared.Counts := by
  refine Program.reachable_induction (J := fun p => p.shared.Counts) reached ?_ ?_ ?_
  · intro i s found c _
    obtain ⟨port, -, rfl⟩ := List.mem_map.mp (List.mem_of_getElem? found)
    simp [recordedOf, start, StatsRegistry.new]
  · intro p i k t sh t' new reached before found taken
    cases step_iff.mp taken with
    | record =>
        obtain ⟨recording, suffix⟩ := (continues reached).get found _ _ rfl
        exact before.record (suffix.subset (List.mem_cons_self ..))
    | _ => exact before
  · intro p e sh new _ before taken
    rw [env_registry taken]
    exact before

/-! ### Readings -/

def Task.reading : Task → Option Loading
  | .rollup _ loading _ => some loading
  | .snapshot loading => some loading
  | _ => none

/-- The value of one loaded counter is the true value at some moment of the reading. -/
structure Observes (registry : StatsRegistry) (loading : Loading) : Prop where
  length_eq : loading.snapshots.length = registry.ports.length
  since_le : loading.since ≤ registry.history.recorded.length
  seen : ∀ i, i < registry.ports.length → ∀ c : Counter, c.gauge = false →
    (i, c) ∈ loading.pending ∨ ∃ snapshot m, loading.snapshots[i]? = some snapshot ∧
      loading.since ≤ m ∧ m ≤ registry.history.recorded.length ∧
      snapshot.get c = recordedOf (registry.history.recorded.take m) i c % u64Size

theorem Observes.mono (observes : Observes registry loading)
    (same : registry'.ports.length = registry.ports.length)
    (grows : registry.history.recorded <+: registry'.history.recorded) :
    Observes registry' loading where
  length_eq := observes.length_eq.trans same.symm
  since_le := observes.since_le.trans grows.length_le
  seen := by
    intro i bound c cumulative
    refine (observes.seen i (same ▸ bound) c cumulative).imp_right ?_
    rintro ⟨snapshot, m, found, low, high, value⟩
    refine ⟨snapshot, m, found, low, high.trans grows.length_le, ?_⟩
    rw [take_of_grows grows high, value]

theorem mem_load (registry : StatsRegistry) {i : Nat} (bound : i < registry.ports.length)
    (c : Counter) :
    (i, c) ∈ registry.load.pending := by
  simp only [load, List.mem_flatMap, List.mem_map]
  exact ⟨i, List.mem_range.mpr bound, c, PortStats.mem_loadOrder c, rfl⟩

theorem Observes.load (registry : StatsRegistry) : Observes registry registry.load where
  length_eq := List.length_map ..
  since_le := Nat.le_refl _
  seen := by
    intro i bound c _
    exact .inl (mem_load registry bound c)

/-- A load gives one counter its value of this moment and leaves the others alone. -/
theorem get_loadNext {i j : Nat} {c d : Counter} {rest : List (Nat × Counter)} {next : Loading}
    {snapshot : PortSnapshot} (loaded : registry.loadNext loading i c rest = some next)
    (found : loading.snapshots[j]? = some snapshot) :
    ∃ snapshot', next.snapshots[j]? = some snapshot' ∧
      ((j, d) = (i, c) ∧ (∃ s, registry.ports[i]? = some s ∧ snapshot'.get d = s.load c) ∨
        (j, d) ≠ (i, c) ∧ snapshot'.get d = snapshot.get d) := by
  obtain ⟨s, here, rfl⟩ := Option.map_eq_some_iff.mp loaded
  by_cases port : i = j
  · refine ⟨snapshot.set c (s.load c), by simp [port, found], ?_⟩
    by_cases same : d = c
    · exact .inl ⟨by rw [port, same], s, here, by rw [same, PortSnapshot.get_set_self]⟩
    · exact .inr ⟨by simp [same], PortSnapshot.get_set_of_ne _ _ same⟩
  · have other : j ≠ i := fun same => port same.symm
    exact ⟨snapshot, by simp [port, found], .inr ⟨by simp [other], rfl⟩⟩

theorem length_loadNext {i : Nat} {c : Counter} {rest : List (Nat × Counter)} {next : Loading}
    (loaded : registry.loadNext loading i c rest = some next) :
    next.snapshots.length = loading.snapshots.length := by
  obtain ⟨s, -, rfl⟩ := Option.map_eq_some_iff.mp loaded
  exact List.length_modify ..

theorem Observes.next {i : Nat} {c : Counter} {rest : List (Nat × Counter)} {next : Loading}
    (observes : Observes registry loading) (counts : registry.Counts)
    (pending : loading.pending = (i, c) :: rest)
    (loaded : registry.loadNext loading i c rest = some next) : Observes registry next := by
  obtain ⟨left, since⟩ : next.pending = rest ∧ next.since = loading.since := by
    obtain ⟨s, -, rfl⟩ := Option.map_eq_some_iff.mp loaded
    exact ⟨rfl, rfl⟩
  refine ⟨(length_loadNext loaded).trans observes.length_eq, since ▸ observes.since_le, ?_⟩
  intro j bound d cumulative
  rw [left, since]
  have inside : j < loading.snapshots.length := by
    rw [observes.length_eq]
    exact bound
  have found := List.getElem?_eq_getElem inside
  obtain ⟨snapshot', there, ⟨same, s, here, value⟩ | ⟨other, value⟩⟩ :=
    get_loadNext (d := d) loaded found
  · -- The counter just loaded has its value of this moment.
    cases same
    refine .inr ⟨snapshot', _, there, observes.since_le, Nat.le_refl _, ?_⟩
    rw [value, List.take_length]
    exact counts i s here c cumulative
  · obtain waits | ⟨snapshot, m, found', low, high, seen⟩ := observes.seen j bound d cumulative
    · rw [pending] at waits
      exact .inl ((List.mem_cons.mp waits).resolve_left other)
    · cases found.symm.trans found'
      exact .inr ⟨snapshot', m, there, low, high, value.trans seen⟩

theorem reading_resume (caller : RollupCaller) : caller.resume.reading = none :=
  RollupCaller.resume_cases rfl rfl

/-- Every reading in progress sees true values of its own time. -/
theorem observes (reached : machine.Reachable (start listenPorts target windowMinutes now) p) :
    AllThreads (fun registry t => ∀ loading, t.reading = some loading → Observes registry loading)
      p := by
  refine AllThreads.of_reachable reached ?_ ?_ ?_
  · intro t member
    rw [List.mem_singleton.mp member]
    rintro loading ⟨⟩
  · intro p i k t sh t' new reached before found taken
    have step := step_iff.mp taken
    refine ⟨?_, ?_, ?_⟩
    · intro loading reading
      have own := before.get found
      cases step with
      | tick =>
          cases reading
          exact .load _
      | shutdown =>
          cases reading
          exact .load _
      | rollupLoad pending loaded =>
          cases reading
          exact (own _ rfl).next (counts reached) pending loaded
      | rollup =>
          rw [reading_resume] at reading
          cases reading
      | snapshotLoad pending loaded =>
          cases reading
          exact (own _ rfl).next (counts reached) pending loaded
      | _ => cases reading
    · cases step <;> exact fun _ member => absurd member List.not_mem_nil
    · intro u _ own loading reading
      exact (own loading reading).mono step.ports_length step.recorded
  · intro p e sh new _ taken
    obtain ⟨rfl, u, rfl, call⟩ := env_iff.mp taken
    refine ⟨?_, fun _ _ own => own⟩
    intro u' member loading reading
    rw [List.mem_singleton.mp member] at reading
    cases call with
    | record => cases reading
    | _ =>
        cases reading
        exact .load _

/-- What a snapshot has loaded and copied at its end. -/
def Task.answer : Task → Option (List PortSnapshot × List MinuteBucket)
  | .copied ports minuteBuckets => some (ports, minuteBuckets)
  | .returned s => some (s.ports, s.minuteBuckets)
  | _ => none

/-- A snapshot holds what its reading saw, and the aggregate of that. -/
structure Answers (registry : StatsRegistry) (t : Task) : Prop where
  observed : ∀ ports minuteBuckets, t.answer = some (ports, minuteBuckets) →
    ∃ since, Observes registry ⟨ports, [], since⟩
  aggregated : ∀ s, t = .returned s → s.totals = aggregateFromSnapshots s.ports

theorem Answers.of_none (unanswered : t.answer = none) : Answers registry t where
  observed := by simp [unanswered]
  aggregated := by
    rintro s rfl
    cases unanswered

theorem Answers.mono (answers : Answers registry t)
    (same : registry'.ports.length = registry.ports.length)
    (grows : registry.history.recorded <+: registry'.history.recorded) : Answers registry' t where
  observed := fun ports minuteBuckets answer =>
    (answers.observed ports minuteBuckets answer).imp fun _ observes => observes.mono same grows
  aggregated := answers.aggregated

theorem answer_resume (caller : RollupCaller) : caller.resume.answer = none :=
  RollupCaller.resume_cases rfl rfl

theorem answers (reached : machine.Reachable (start listenPorts target windowMinutes now) p) :
    AllThreads Answers p := by
  refine AllThreads.of_reachable reached ?_ ?_ ?_
  · intro t member
    rw [List.mem_singleton.mp member]
    exact .of_none rfl
  · intro p i k t sh t' new reached before found taken
    have step := step_iff.mp taken
    refine ⟨?_, ?_, fun _ _ own => own.mono step.ports_length step.recorded⟩
    · cases step with
      | @copy loading pending =>
          have observed := (observes reached).get found loading rfl
          refine ⟨?_, nofun⟩
          rintro ports minuteBuckets ⟨⟩
          exact ⟨loading.since, pending ▸ observed⟩
      | stamp =>
          refine ⟨(before.get found).observed, ?_⟩
          rintro s ⟨⟩
          rfl
      | rollup => exact .of_none (answer_resume _)
      | _ => exact .of_none rfl
    · cases step <;> exact fun _ member => absurd member List.not_mem_nil
  · intro p e sh new _ taken
    obtain ⟨rfl, u, rfl, call⟩ := env_iff.mp taken
    refine ⟨?_, fun _ _ own => own⟩
    intro u' member
    rw [List.mem_singleton.mp member]
    cases call <;> exact .of_none rfl

/-! ### Aggregates -/

/-- An aggregate lies between the true sums at two times. -/
def Between (registry : StatsRegistry) (totals : AggregateTotals) (started finished : Nat) : Prop :=
  ∀ c : Counter, c.gauge = false → ∃ sum, totals.get c = sum % u64Size ∧
    recordedTotal registry.ports.length (registry.history.recorded.take started) c ≤ sum ∧
    sum ≤ recordedTotal registry.ports.length (registry.history.recorded.take finished) c

/-- Loaded values, each from a moment of its own, are aggregated to the sum of the true
values at these moments. -/
theorem get_aggregate_at {snapshots : List PortSnapshot} {recorded : List (Nat × CounterOp)}
    {n : Nat} {c : Counter} {moment : Nat → Nat} (length : snapshots.length = n)
    (value : ∀ i, i < n → ∃ snapshot, snapshots[i]? = some snapshot ∧
      snapshot.get c = recordedOf (recorded.take (moment i)) i c % u64Size) :
    (aggregateFromSnapshots snapshots).get c =
      ((List.range n).map fun i => recordedOf (recorded.take (moment i)) i c).sum % u64Size := by
  have values : snapshots.map (fun snapshot => snapshot.get c) =
      (List.range n).map fun i => recordedOf (recorded.take (moment i)) i c % u64Size := by
    apply List.ext_getElem?
    intro i
    by_cases bound : i < n
    · obtain ⟨snapshot, found, same⟩ := value i bound
      simp [found, same, List.getElem?_range bound]
    · rw [List.getElem?_eq_none (by simpa [length] using bound),
        List.getElem?_eq_none (by simpa using bound)]
  rw [get_aggregate, values, List.sum_nat_mod _ u64Size,
    List.sum_nat_mod (List.map (fun i => recordedOf _ i c) _) u64Size, List.map_map, List.map_map]
  simp only [Function.comp_def, Nat.mod_mod]

/-- A complete reading is aggregated to a value between the true sums. -/
theorem Observes.between (observes : Observes registry loading) (complete : loading.pending = []) :
    registry.Between (aggregateFromSnapshots loading.snapshots) loading.since
      registry.history.recorded.length := by
  intro c cumulative
  have seen : ∀ i, i < registry.ports.length → ∃ m, loading.since ≤ m ∧
      m ≤ registry.history.recorded.length ∧ ∃ snapshot, loading.snapshots[i]? = some snapshot ∧
      snapshot.get c = recordedOf (registry.history.recorded.take m) i c % u64Size := by
    intro i bound
    obtain waits | ⟨snapshot, m, found, low, high, value⟩ := observes.seen i bound c cumulative
    · rw [complete] at waits
      cases waits
    · exact ⟨m, low, high, snapshot, found, value⟩
  choose! moment low high value using seen
  refine ⟨((List.range registry.ports.length).map fun i =>
    recordedOf (registry.history.recorded.take (moment i)) i c).sum, ?_, ?_, ?_⟩
  · exact get_aggregate_at observes.length_eq value
  · apply List.sum_le_sum
    intro i member
    exact recordedOf_mono (take_prefix_take _ (low i (List.mem_range.mp member)))
  · apply List.sum_le_sum
    intro i member
    exact recordedOf_mono (take_prefix_take _ (high i (List.mem_range.mp member)))

end StatsRegistry

end RangePorter
