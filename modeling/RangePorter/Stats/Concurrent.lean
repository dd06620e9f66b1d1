import RangePorter.Interleaving.Watch
import RangePorter.Stats.Conservation

/-!
# Roll-ups that overlap

The totals of a roll-up are read before its locks are taken. If another roll-up enters
its locked section in between, with counters that have grown since, the totals of the
first one are out of date when its turn comes: the saturating subtraction hides the step
back, and the next roll-up adds the difference a second time (`overtaking`). As long as
nobody enters with a load older than an update that was loaded by the roll-up before,
nothing is counted twice, however many of them overlap.
-/

namespace RangePorter.StatsRegistry

open Interleaving

variable {listenPorts : List Nat} {target : String} {windowMinutes now : Nat}
  {registry registry' : StatsRegistry} {loading : Loading} {times : Nat → Counter → Nat}
  {p q : Pool StatsRegistry Task} {a : Action Choice Env} {c : Cumulative}
  {as : List (Action Choice Env)}

/-! ### What goes into the buckets -/

/-- What the roll-ups have added to the buckets for a field. -/
def collected (registry : StatsRegistry) (c : Cumulative) : Nat :=
  ((withPrevious .default registry.calls).map fun x => x.growth c).sum

/-- How much a bucket has gained: all that it holds, if it has come to another minute. -/
def gained (c : Cumulative) (before after : MinuteBucket) : Nat :=
  wrappingSub (c.field after)
    (if after.minuteEpoch = before.minuteEpoch then c.field before else 0)

/-- What this step puts into the buckets. -/
def put (c : Cumulative) (p : Pool StatsRegistry Task) (a : Action Choice Env) : Nat :=
  match machine.step p a with
  | some q => (List.zipWith (gained c) p.shared.buckets.buckets q.shared.buckets.buckets).sum
  | none => 0

theorem gained_self (bucket : MinuteBucket) : gained c bucket bucket = 0 := by
  simp [gained]

/-- A bucket gains what the totals have grown by. -/
theorem gained_touch {x : Rollup} {bucket : MinuteBucket} (small : c.field bucket < u64Size)
    (growth : x.growth c < u64Size) : gained c bucket (minuteRing.touch x bucket) = x.growth c := by
  have value : ∀ b : MinuteBucket, c.field (minuteRing.add b x) =
      wrappingAdd (c.field b) (x.growth c) := fun b => MinuteBucket.cumulative_add ..
  by_cases same : bucket.minuteEpoch = x.minuteEpoch
  · have touched : minuteRing.touch x bucket = minuteRing.add bucket x := by
      rw [LazyRing.Ring.touch, if_pos (show minuteRing.owner bucket = minuteRing.key x from same)]
    have owner : (minuteRing.add bucket x).minuteEpoch = bucket.minuteEpoch := rfl
    rw [touched, gained, if_pos owner, value, wrappingSub_wrappingAdd small.le,
      Nat.mod_eq_of_lt growth]
  · have touched : minuteRing.touch x bucket = minuteRing.add (.fresh x.minuteEpoch) x := by
      rw [LazyRing.Ring.touch, if_neg (show minuteRing.owner bucket ≠ minuteRing.key x from same)]
      rfl
    have owner : (minuteRing.add (.fresh x.minuteEpoch) x).minuteEpoch ≠ bucket.minuteEpoch :=
      fun minute => same minute.symm
    rw [touched, gained, if_neg owner, value, MinuteBucket.cumulative_fresh,
      wrappingSub_wrappingAdd (Nat.zero_le _), Nat.mod_eq_of_lt growth]

theorem sum_zipWith_self {g : MinuteBucket → MinuteBucket → Nat} (unchanged : ∀ b, g b b = 0)
    (l : List MinuteBucket) : (List.zipWith g l l).sum = 0 := by
  rw [List.zipWith_self, List.sum_eq_zero_iff]
  intro n member
  obtain ⟨b, -, rfl⟩ := List.mem_map.mp member
  exact unchanged b

/-- If one item of a list changes, the differences are the one of this item. -/
theorem sum_zipWith_modify {g : MinuteBucket → MinuteBucket → Nat} {f : MinuteBucket → MinuteBucket}
    (unchanged : ∀ b, g b b = 0) {l : List MinuteBucket} {i : Nat} {b : MinuteBucket}
    (found : l[i]? = some b) : (List.zipWith g l (l.modify i f)).sum = g b (f b) := by
  induction l generalizing i with
  | nil => cases found
  | cons b' l ih =>
      cases i with
      | zero =>
          cases found
          have rest := sum_zipWith_self unchanged l
          rw [List.modify_zero_cons, List.zipWith_cons_cons, List.sum_cons, rest, Nat.add_zero]
      | succ i => simp [unchanged, ih found]

theorem field_lt {calls : List RollupCall} {bucket : MinuteBucket}
    (member : bucket ∈ (rollups windowMinutes calls).1.buckets) : c.field bucket < u64Size := by
  rw [buckets_eq, LazyRing.Ring.run_eq_map] at member
  obtain ⟨r, -, rfl⟩ := List.mem_map.mp member
  rw [cumulative_foldl c _ (by simp [minuteRing, u64Size_pos])]
  exact Nat.mod_lt _ u64Size_pos

/-- Only a roll-up changes what its locks protect. -/
theorem Step.locked_eq {t t' : Task} {k : Choice} {new : List Task}
    (taken : Step registry t k registry' t' new) :
    (registry'.buckets = registry.buckets ∧ registry'.previousTotals = registry.previousTotals ∧
      registry'.calls = registry.calls) ∨
      ∃ now loading caller, t = .rollup now loading caller ∧ loading.pending = [] ∧
        registry' = registry.rollup now loading := by
  cases taken with
  | @rollup now loading caller pending => exact .inr ⟨now, loading, caller, rfl, pending, rfl⟩
  | _ => exact .inl ⟨rfl, rfl, rfl⟩

theorem calls_rollup (registry : StatsRegistry) (now : Nat) (loading : Loading) :
    (registry.rollup now loading).calls =
      registry.calls ++ [⟨now, aggregateFromSnapshots loading.snapshots⟩] := by
  simp [calls]

theorem previousTotals_eq (recorded : Recorded windowMinutes registry) :
    registry.previousTotals = lastTotals registry.calls := by
  rw [← rollups_previous windowMinutes, ← recorded.ring]

theorem put_of_same (taken : machine.step p a = some q)
    (same : q.shared.buckets = p.shared.buckets) : put c p a = 0 := by
  simp only [put, taken, same]
  exact sum_zipWith_self gained_self _

/-- A roll-up puts into the buckets what the totals have grown by since the one before. -/
theorem put_rollup (recorded : Recorded windowMinutes p.shared) (taken : machine.step p a = some q)
    (rolled : q.shared = p.shared.rollup now loading) :
    put c p a = (aggregateFromSnapshots loading.snapshots).get c.counter -
      (lastTotals p.shared.calls).get c.counter := by
  obtain ⟨bucket, found⟩ : ∃ bucket, p.shared.buckets.buckets[
      now / 60 % p.shared.buckets.buckets.length]? = some bucket :=
    ⟨_, List.getElem?_eq_getElem
      (Nat.mod_lt _ (List.length_pos_iff.mpr p.shared.buckets.nonempty))⟩
  have small : c.field bucket < u64Size := by
    have member := List.mem_of_getElem? found
    rw [show p.shared.buckets = (rollups windowMinutes p.shared.calls).1 from
      congrArg Prod.fst recorded.ring] at member
    exact field_lt member
  have total : (aggregateFromSnapshots loading.snapshots).get c.counter < u64Size := by
    rw [get_aggregate]
    exact Nat.mod_lt _ u64Size_pos
  have pushed : q.shared.buckets.buckets = p.shared.buckets.buckets.modify
      (now / 60 % p.shared.buckets.buckets.length) (minuteRing.touch
        ⟨now / 60, aggregateFromSnapshots loading.snapshots, p.shared.previousTotals⟩) := by
    rw [rolled]
    show List.modify .. = _
    congr 1
    funext bucket
    simp only [LazyRing.Ring.touch, minuteRing, ne_eq, ite_not]
    rfl
  simp only [put, taken, pushed]
  rw [sum_zipWith_modify gained_self found, gained_touch small (by simp [Rollup.growth]; omega),
    Rollup.growth, previousTotals_eq recorded]

theorem collected_step
    (reached : machine.Reachable (start listenPorts target windowMinutes now) p)
    (taken : machine.step p a = some q) :
    q.shared.collected c = p.shared.collected c + put c p a := by
  have records := recorded reached
  cases a with
  | env e =>
      obtain ⟨registry, new, own, rfl⟩ := Program.machine_env_iff.mp taken
      rw [put_of_same taken (congrArg buckets (env_registry own)), env_registry own]
      rfl
  | thread i k =>
      obtain ⟨t, registry, t', new, found, own, rfl⟩ := Program.machine_thread_iff.mp taken
      obtain ⟨same, -, kept⟩ | ⟨now, loading, caller, -, -, rolled⟩ := (step_iff.mp own).locked_eq
      · rw [put_of_same taken same, collected, collected, kept]
        rfl
      · rw [put_rollup records taken rolled, collected, collected, rolled, calls_rollup,
          withPrevious_concat, List.map_append, List.sum_append, List.map_singleton,
          List.sum_singleton]
        rfl

/-- What is put into the buckets in the course of a run is what its roll-ups have collected. -/
theorem total_put
    (complete : machine.run (start listenPorts target windowMinutes now) as = some p) :
    machine.total (put c) (start listenPorts target windowMinutes now) as =
      p.shared.collected c := by
  have both : machine.Reachable (start listenPorts target windowMinutes now) p ∧
      p.shared.collected c =
        0 + machine.total (put c) (start listenPorts target windowMinutes now) as := by
    refine Machine.invariant_total (P := fun n p =>
      machine.Reachable (start listenPorts target windowMinutes now) p ∧
        p.shared.collected c = n) ?_ ⟨.refl _, rfl⟩ complete
    rintro n p a q ⟨reached, rfl⟩ taken
    exact ⟨reached.step taken, collected_step reached taken⟩
  rw [both.2, Nat.zero_add]

/-- The previous totals do not decrease in this step. -/
def Advances (p : Pool StatsRegistry Task) (a : Action Choice Env) : Prop :=
  ∀ q, machine.step p a = some q → ∀ c : Counter, c.gauge = false →
    p.shared.previousTotals.get c ≤ q.shared.previousTotals.get c

/-- If the previous totals never decrease, what goes into the buckets telescopes. -/
theorem untruncated_of_advances
    (advances : machine.Along Advances (start listenPorts target windowMinutes now) as)
    (complete : machine.run (start listenPorts target windowMinutes now) as = some p)
    (c : Cumulative) : Untruncated c p.shared.calls := by
  have both : machine.Reachable (start listenPorts target windowMinutes now) p ∧
      Untruncated c p.shared.calls := by
    refine Machine.invariant_along (P := fun p =>
      machine.Reachable (start listenPorts target windowMinutes now) p ∧
        Untruncated c p.shared.calls) ?_ ⟨.refl _, ?_⟩ advances complete
    · rintro p a q ⟨reached, before⟩ advances taken
      refine ⟨reached.step taken, ?_⟩
      have previous := previousTotals_eq (recorded reached)
      have grows := advances q taken c.counter (cumulative_counter c)
      cases a with
      | env e =>
          obtain ⟨registry, new, own, rfl⟩ := Program.machine_env_iff.mp taken
          rw [env_registry own]
          exact before
      | thread i k =>
          obtain ⟨t, registry, t', new, found, own, rfl⟩ := Program.machine_thread_iff.mp taken
          obtain ⟨-, -, same⟩ | ⟨now, loading, caller, -, -, rolled⟩ := (step_iff.mp own).locked_eq
          · rw [same]
            exact before
          · rw [rolled] at grows ⊢
            rw [calls_rollup]
            apply Untruncated.concat_iff.mpr ⟨before, _⟩
            rw [← previous]
            exact grows
    · exact fun before call after same => absurd same (by simp [start, StatsRegistry.new, calls])
  exact both.2

/-- The last roll-up has read no more than was recorded by the time it was over. -/
theorem lastTotals_le_take {c : Counter} (recorded : Recorded windowMinutes p.shared)
    (cumulative : c.gauge = false) {time : Nat}
    (past : ∀ r ∈ p.shared.history.rollups, r.finished ≤ time) :
    (lastTotals p.shared.calls).get c ≤
      recordedTotal p.shared.ports.length (p.shared.history.recorded.take time) c := by
  rw [lastTotals, calls, List.getLast?_map, Option.map_map]
  cases last : p.shared.history.rollups.getLast? with
  | none => simp
  | some r =>
      have member := List.mem_of_getLast? last
      obtain ⟨-, -, between⟩ := recorded.reading r member
      obtain ⟨sum, value, -, high⟩ := between c cumulative
      show r.call.totals.get c ≤ _
      rw [value]
      exact ((Nat.mod_le ..).trans high).trans
        (recordedTotal_mono (take_prefix_take _ (past r member)))

theorem lastTotals_le {c : Counter} (recorded : Recorded windowMinutes p.shared)
    (cumulative : c.gauge = false) : (lastTotals p.shared.calls).get c ≤ p.shared.trueSum c := by
  have le := lastTotals_le_take recorded cumulative fun r member => (recorded.reading r member).2.1
  rw [List.take_length] at le
  exact le

/-! ### When the counters were loaded -/

/-- When the counters were loaded: the number of updates recorded when a task last loaded a
counter of a port, and that number for the task that was last in the locked section. -/
structure Loads where
  loaded : Nat → Nat → Counter → Nat
  entered : Nat → Counter → Nat

/-- The task `j` loads a counter of the port `i` at this time. -/
def Loads.load (loads : Loads) (j i : Nat) (c : Counter) (time : Nat) : Loads :=
  { loads with
    loaded := fun j' i' c' => if j' = j ∧ i' = i ∧ c' = c then time else loads.loaded j' i' c' }

def noteLoads (loads : Loads) (p : Pool StatsRegistry Task) : Action Choice Env → Loads
  | .thread j .go =>
      match p.threads[j]? with
      | some (.rollup _ loading _) =>
          match loading.pending with
          | (i, c) :: _ => loads.load j i c p.shared.history.recorded.length
          | [] => { loads with entered := loads.loaded j }
      | _ => loads
  | _ => loads

/-- All interleavings, with a watcher who notes when the roll-ups load the counters. -/
def watched : Machine (Pool StatsRegistry Task × Loads) (Action Choice Env) :=
  machine.watch noteLoads

def watchedStart (listenPorts : List Nat) (target : String) (windowMinutes now : Nat) :
    Pool StatsRegistry Task × Loads :=
  (start listenPorts target windowMinutes now, ⟨fun _ _ _ => 0, fun _ _ => 0⟩)

/-- How many of the updates are made to this counter. -/
def updatesOf (recorded : List (Nat × CounterOp)) (i : Nat) (c : Counter) : Nat :=
  recorded.countP fun r => r.1 = i ∧ r.2.counter = c

/-- A roll-up enters its locked section, and one of the counters that it has loaded was
updated before the roll-up that was there last came to load it. -/
def overtaken (x : Pool StatsRegistry Task × Loads) : Action Choice Env → Bool
  | .thread j .go =>
      match x.1.threads[j]? with
      | some (.rollup _ loading _) => loading.pending.isEmpty &&
          (List.range x.1.shared.ports.length).any fun i => PortStats.loadOrder.any fun c =>
            !c.gauge && updatesOf (x.1.shared.history.recorded.take (x.2.loaded j i c)) i c <
              updatesOf (x.1.shared.history.recorded.take (x.2.entered i c)) i c
      | _ => false
  | _ => false

/-- With no fewer updates, no less was recorded. -/
theorem recordedOf_take_le {recorded : List (Nat × CounterOp)} {i k m : Nat} {c : Counter}
    (le : updatesOf (recorded.take k) i c ≤ updatesOf (recorded.take m) i c) :
    recordedOf (recorded.take k) i c ≤ recordedOf (recorded.take m) i c := by
  rcases Nat.le_total k m with order | order
  · exact recordedOf_mono (take_prefix_take _ order)
  · -- Between the two times this counter was not updated.
    rw [updatesOf, updatesOf, List.countP_eq_length_filter, List.countP_eq_length_filter] at le
    have same := ((take_prefix_take recorded order).filter _).eq_of_length_le le
    rw [recordedOf, recordedOf, same]

/-- What a task has loaded is the true values at these times. -/
def Sees (registry : StatsRegistry) (times : Nat → Counter → Nat) (loading : Loading) : Prop :=
  ∀ i, i < registry.ports.length → ∀ c : Counter, c.gauge = false →
    (i, c) ∈ loading.pending ∨ times i c ≤ registry.history.recorded.length ∧
      ∃ snapshot, loading.snapshots[i]? = some snapshot ∧ snapshot.get c =
        recordedOf (registry.history.recorded.take (times i c)) i c % u64Size

/-- The totals are the sums over the ports of the true values at these times. -/
def TotalsAt (registry : StatsRegistry) (times : Nat → Counter → Nat) (totals : AggregateTotals) :
    Prop :=
  ∀ c : Counter, c.gauge = false →
    (∀ i, i < registry.ports.length → times i c ≤ registry.history.recorded.length) ∧
    totals.get c = ((List.range registry.ports.length).map fun i =>
      recordedOf (registry.history.recorded.take (times i c)) i c).sum % u64Size

theorem Sees.mono (sees : Sees registry times loading)
    (same : registry'.ports.length = registry.ports.length)
    (grows : registry.history.recorded <+: registry'.history.recorded) :
    Sees registry' times loading := by
  intro i bound c cumulative
  refine (sees i (same ▸ bound) c cumulative).imp_right ?_
  rintro ⟨past, snapshot, found, value⟩
  exact ⟨past.trans grows.length_le, snapshot, found, by rw [take_of_grows grows past, value]⟩

theorem Sees.load (registry : StatsRegistry) : Sees registry times registry.load :=
  fun _ bound c _ => .inl (mem_load registry bound c)

theorem Sees.next {loads : Loads} {i j : Nat} {c : Counter} {rest : List (Nat × Counter)}
    {next : Loading}
    (sees : Sees registry (loads.loaded j) loading) (counts : registry.Counts)
    (observes : Observes registry loading) (pending : loading.pending = (i, c) :: rest)
    (taken : registry.loadNext loading i c rest = some next) :
    Sees registry ((loads.load j i c registry.history.recorded.length).loaded j) next := by
  have left : next.pending = rest := by
    obtain ⟨s, -, rfl⟩ := Option.map_eq_some_iff.mp taken
    rfl
  intro m bound d cumulative
  rw [left]
  have inside : m < loading.snapshots.length := by
    rw [observes.length_eq]
    exact bound
  obtain ⟨snapshot', there, ⟨same, s, here, value⟩ | ⟨other, value⟩⟩ :=
    get_loadNext (d := d) taken (List.getElem?_eq_getElem inside)
  · cases same
    have time : (loads.load j i c registry.history.recorded.length).loaded j i c =
        registry.history.recorded.length := by simp [Loads.load]
    rw [time, List.take_length]
    exact .inr ⟨Nat.le_refl _, snapshot', there, value.trans (counts i s here c cumulative)⟩
  · have time : (loads.load j i c registry.history.recorded.length).loaded j m d =
        loads.loaded j m d := by
      refine if_neg ?_
      rintro ⟨-, rfl, rfl⟩
      exact other rfl
    rw [time]
    obtain waits | ⟨past, snapshot, found, seen⟩ := sees m bound d cumulative
    · rw [pending] at waits
      exact .inl ((List.mem_cons.mp waits).resolve_left other)
    · cases (List.getElem?_eq_getElem inside).symm.trans found
      exact .inr ⟨past, snapshot', there, value.trans seen⟩

theorem Sees.totalsAt (sees : Sees registry times loading) (observes : Observes registry loading)
    (complete : loading.pending = []) :
    TotalsAt registry times (aggregateFromSnapshots loading.snapshots) := by
  intro c cumulative
  have seen : ∀ i, i < registry.ports.length → _ := fun i bound =>
    (sees i bound c cumulative).resolve_left (by simp [complete])
  exact ⟨fun i bound => (seen i bound).1,
    get_aggregate_at observes.length_eq fun i bound => (seen i bound).2⟩

theorem TotalsAt.mono {totals : AggregateTotals} (before : TotalsAt registry times totals)
    (same : registry'.ports.length = registry.ports.length)
    (grows : registry.history.recorded <+: registry'.history.recorded) :
    TotalsAt registry' times totals := by
  intro c cumulative
  obtain ⟨past, value⟩ := before c cumulative
  refine ⟨fun i bound => (past i (same ▸ bound)).trans grows.length_le, ?_⟩
  rw [value, same]
  congr 2
  apply List.map_congr_left
  intro i member
  rw [take_of_grows grows (past i (List.mem_range.mp member))]

/-- What is noted is when the values were loaded. -/
structure Timed (p : Pool StatsRegistry Task) (loads : Loads) : Prop where
  sees : ∀ (j : Nat) now loading caller, p.threads[j]? = some (.rollup now loading caller) →
    Sees p.shared (loads.loaded j) loading
  previous : TotalsAt p.shared loads.entered p.shared.previousTotals

/-- A step loads a counter, takes the totals of its task for the previous ones, or does
neither and notes nothing. -/
theorem noteLoads_cases (loads : Loads) {j : Nat} {k : Choice} {t t' : Task} {new : List Task}
    (found : p.threads[j]? = some t) (taken : Step p.shared t k registry t' new) :
    (∃ now loading caller i c rest next, t = .rollup now loading caller ∧
      loading.pending = (i, c) :: rest ∧ p.shared.loadNext loading i c rest = some next ∧
      t' = .rollup now next caller ∧ registry = p.shared ∧
      noteLoads loads p (.thread j k) = loads.load j i c p.shared.history.recorded.length) ∨
    (∃ now loading caller, t = .rollup now loading caller ∧ loading.pending = [] ∧
      t' = caller.resume ∧ registry = p.shared.rollup now loading ∧
      noteLoads loads p (.thread j k) = { loads with entered := loads.loaded j }) ∨
    (∀ now loading caller, t' = .rollup now loading caller → loading = registry.load) ∧
      registry.previousTotals = p.shared.previousTotals ∧
      noteLoads loads p (.thread j k) = loads := by
  cases taken with
  | @rollupLoad now loading caller i c rest next pending loaded =>
      refine .inl ⟨now, loading, caller, i, c, rest, next, rfl, pending, loaded, rfl, rfl, ?_⟩
      simp [noteLoads, found, pending]
  | @rollup now loading caller pending =>
      refine .inr (.inl ⟨now, loading, caller, rfl, pending, rfl, rfl, ?_⟩)
      simp [noteLoads, found, pending]
  | tick | shutdown =>
      refine .inr (.inr ⟨?_, rfl, rfl⟩)
      rintro _ _ _ ⟨⟩
      rfl
  | record | snapshotLoad | copy =>
      exact .inr (.inr ⟨nofun, rfl, by simp [noteLoads, found]⟩)
  | stamp => exact .inr (.inr ⟨nofun, rfl, rfl⟩)

theorem Timed.step {loads : Loads}
    (reached : machine.Reachable (start listenPorts target windowMinutes now) p)
    (before : Timed p loads) (taken : machine.step p a = some q) :
    Timed q (noteLoads loads p a) := by
  cases a with
  | env e =>
      obtain ⟨registry, new, own, rfl⟩ := Program.machine_env_iff.mp taken
      obtain ⟨rfl, t, rfl, call⟩ := env_iff.mp own
      refine ⟨?_, before.previous⟩
      intro j now loading caller there
      obtain old | ⟨-, member⟩ := lookup_env there
      · exact before.sees j now loading caller old
      · cases call with
        | rollupAtEpoch =>
            cases List.mem_singleton.mp member
            exact .load _
        | _ => cases List.mem_singleton.mp member
  | thread j k =>
      obtain ⟨t, registry, t', new, found, own, rfl⟩ := Program.machine_thread_iff.mp taken
      have step := step_iff.mp own
      have bound := (List.getElem?_eq_some_iff.mp found).1
      cases step.new_eq
      obtain ⟨now, loading, caller, i, c, rest, next, rfl, pending, loaded, rfl, rfl, noted⟩ |
        ⟨now, loading, caller, rfl, pending, rfl, rfl, noted⟩ | ⟨fresh, kept, noted⟩ :=
        noteLoads_cases loads found step
      · rw [noted]
        refine ⟨?_, before.previous⟩
        intro m now' loading' caller' there
        obtain ⟨rfl, same⟩ | ⟨other, old⟩ | ⟨-, none⟩ := lookup_thread bound there
        · cases same
          exact (before.sees _ _ _ _ found).next (counts reached)
            ((observes reached).get found _ rfl) pending loaded
        · have times : (loads.load j i c p.shared.history.recorded.length).loaded m =
              loads.loaded m := by
            funext i' c'
            exact if_neg fun same => other same.1
          rw [times]
          exact before.sees m _ _ _ old
        · cases none
      · rw [noted]
        refine ⟨?_, ?_⟩
        · intro m now' loading' caller' there
          obtain ⟨-, same⟩ | ⟨-, old⟩ | ⟨-, none⟩ := lookup_thread bound there
          · exact absurd same rollup_ne_resume
          · exact (before.sees m _ _ _ old).mono step.ports_length step.recorded
          · cases none
        · have sees := before.sees _ _ _ _ found
          exact (sees.totalsAt ((observes reached).get found _ rfl) pending).mono
            step.ports_length step.recorded
      · rw [noted]
        refine ⟨?_, ?_⟩
        · intro m now' loading' caller' there
          obtain ⟨-, same⟩ | ⟨-, old⟩ | ⟨-, none⟩ := lookup_thread bound there
          · rw [fresh _ _ _ same.symm]
            exact .load _
          · exact (before.sees m _ _ _ old).mono step.ports_length step.recorded
          · cases none
        · show TotalsAt registry loads.entered registry.previousTotals
          rw [kept]
          exact before.previous.mono step.ports_length step.recorded

theorem timed {x : Pool StatsRegistry Task × Loads}
    (reached : watched.Reachable (watchedStart listenPorts target windowMinutes now) x) :
    Timed x.1 x.2 := by
  refine reached.invariant (P := fun x => Timed x.1 x.2) ⟨?_, ?_⟩ ?_
  · intro j now loading caller found
    have first := List.mem_of_getElem? found
    cases List.mem_singleton.mp first
  · intro c cumulative
    refine ⟨fun i _ => Nat.zero_le _, ?_⟩
    have none : ∀ i, recordedOf [] i c = 0 := fun i => rfl
    simp [watchedStart, start, StatsRegistry.new, none]
  · intro x a y reached before taken
    obtain ⟨taken, noted⟩ := Machine.watch_step_iff.mp taken
    rw [noted]
    exact before.step reached.of_watch taken

/-! ### Runs -/

/-- The sums at times that are past do not wrap, if the true sum does not. -/
theorem TotalsAt.of_fits {totals : AggregateTotals} {c : Counter}
    (here : TotalsAt registry times totals) (cumulative : c.gauge = false)
    (fits : registry.trueSum c < u64Size) :
    totals.get c = ((List.range registry.ports.length).map fun i =>
      recordedOf (registry.history.recorded.take (times i c)) i c).sum := by
  rw [(here c cumulative).2]
  refine Nat.mod_eq_of_lt (Nat.lt_of_le_of_lt ?_ fits)
  exact List.sum_le_sum fun i _ => recordedOf_mono (List.take_prefix ..)

theorem overtaken_eq_false {x : Pool StatsRegistry Task × Loads} {j : Nat} {caller : RollupCaller}
    (found : x.1.threads[j]? = some (.rollup now loading caller)) (complete : loading.pending = [])
    (orderly : overtaken x (.thread j .go) = false) {i : Nat} (bound : i < x.1.shared.ports.length)
    {c : Counter} (cumulative : c.gauge = false) :
    updatesOf (x.1.shared.history.recorded.take (x.2.entered i c)) i c ≤
      updatesOf (x.1.shared.history.recorded.take (x.2.loaded j i c)) i c := by
  by_contra fewer
  have late : overtaken x (.thread j .go) = true := by
    simp only [overtaken, found, complete, List.isEmpty_nil, Bool.true_and, List.any_eq_true]
    refine ⟨i, List.mem_range.mpr bound, c, PortStats.mem_loadOrder c, ?_⟩
    simp [cumulative, Nat.lt_of_not_le fewer]
  rw [orderly] at late
  cases late

/-- A roll-up that is not overtaken has loaded no less than the one before it. -/
theorem advances_of_timed {x : Pool StatsRegistry Task × Loads} (timed : Timed x.1 x.2)
    (reached : machine.Reachable (start listenPorts target windowMinutes now) x.1)
    (fits : ∀ c : Counter, c.gauge = false → x.1.shared.trueSum c < u64Size)
    (orderly : overtaken x a = false) : Advances x.1 a := by
  intro q taken c cumulative
  cases a with
  | env e =>
      obtain ⟨registry, new, own, rfl⟩ := Program.machine_env_iff.mp taken
      rw [env_registry own]
  | thread j k =>
      obtain ⟨t, registry, t', new, found, own, rfl⟩ := Program.machine_thread_iff.mp taken
      cases step_iff.mp own with
      | @rollup now loading caller pending =>
          have sees := timed.sees _ _ _ _ found
          have totals := sees.totalsAt ((observes reached).get found _ rfl) pending
          show x.1.shared.previousTotals.get c ≤ (aggregateFromSnapshots loading.snapshots).get c
          rw [timed.previous.of_fits cumulative (fits c cumulative),
            totals.of_fits cumulative (fits c cumulative)]
          apply List.sum_le_sum
          intro i member
          exact recordedOf_take_le
            (overtaken_eq_false found pending orderly (List.mem_range.mp member) cumulative)
      | _ => exact Nat.le_refl _

theorem trueSum_mono {c : Counter} (rest : machine.Reachable p q) :
    p.shared.trueSum c ≤ q.shared.trueSum c := by
  obtain ⟨as, complete⟩ := rest
  obtain ⟨grows, same⟩ := grows_run complete
  rw [trueSum, trueSum, same]
  exact recordedTotal_mono grows

/-- In the run `as` from `init` to `p`, the previous totals never decrease, and the buckets
get no more than the counters hold. -/
structure CountsOnce (init : Pool StatsRegistry Task) (as : List (Action Choice Env))
    (p : Pool StatsRegistry Task) : Prop where
  advances : machine.Along Advances init as
  put_le : ∀ c : Cumulative, machine.total (put c) init as ≤
    (p.shared.ports.map fun s => s.load c.counter).sum

/-- As long as the counters do not wrap and no roll-up is overtaken between its loads and its
locked section, any number of them count once. -/
theorem countsOnce (complete : machine.run (start listenPorts target windowMinutes now) as = some p)
    (fits : ∀ c : Counter, c.gauge = false → p.shared.trueSum c < u64Size)
    (orderly : watched.Along (fun x a => overtaken x a = false)
      (watchedStart listenPorts target windowMinutes now) as) :
    CountsOnce (start listenPorts target windowMinutes now) as p := by
  have reached : machine.Reachable (start listenPorts target windowMinutes now) p := ⟨as, complete⟩
  obtain ⟨loads, seen⟩ : ∃ loads, watched.run
      (watchedStart listenPorts target windowMinutes now) as = some (p, loads) :=
    Machine.watch_run complete _
  have inOrder : watched.Along (fun x a => Advances x.1 a)
      (watchedStart listenPorts target windowMinutes now) as := by
    refine orderly.of_run seen fun x a before rest kept => ?_
    refine advances_of_timed (timed before) before.of_watch (fun c cumulative => ?_) kept
    exact (trueSum_mono rest.of_watch).trans_lt (fits c cumulative)
  have advances : machine.Along Advances (start listenPorts target windowMinutes now) as :=
    Machine.along_of_watch inOrder
  refine ⟨advances, fun c => ?_⟩
  have cumulative := cumulative_counter c
  calc
    machine.total (put c) (start listenPorts target windowMinutes now) as
        = p.shared.collected c := total_put complete
    _ = (lastTotals p.shared.calls).get c.counter :=
        sum_growth (untruncated_of_advances advances complete c)
    _ ≤ p.shared.trueSum c.counter := lastTotals_le (recorded reached) cumulative
    _ = (p.shared.ports.map fun s => s.load c.counter).sum :=
        (sum_load (counts reached) cumulative (fits _ cumulative)).symm

/-- Two roll-ups, of which the first has read its totals before a datagram is counted. -/
def overlapping : List (Action Choice Env) :=
  .env (.rollupAtEpoch 60) :: List.replicate 9 (.thread 1 .go) ++
    [.env (.record 9000 (.udpIn 5)), .thread 2 .go, .env (.rollupAtEpoch 60)] ++
      List.replicate 9 (.thread 3 .go)

/-- They enter their locked sections in the order of their readings. -/
theorem inOrder_accepted : (machine.run (start [9000] "localhost:53" 3 60)
    (overlapping ++ [.thread 1 .go, .thread 3 .go])).isSome := by decide

theorem inOrder_watched : (watched.run (watchedStart [9000] "localhost:53" 3 60)
    (overlapping ++ [.thread 1 .go, .thread 3 .go])).isSome := by decide

theorem countsOnce_inOrder :
    CountsOnce (start [9000] "localhost:53" 3 60) (overlapping ++ [.thread 1 .go, .thread 3 .go])
      ((machine.run (start [9000] "localhost:53" 3 60)
        (overlapping ++ [.thread 1 .go, .thread 3 .go])).get inOrder_accepted) :=
  countsOnce (Option.some_get _).symm (fun c _ => by cases c <;> decide)
    ((Machine.count_eq_zero_iff (Option.some_get inOrder_watched).symm).mp (by decide))

/-- They enter them the other way round, and a third roll-up follows. -/
def overtaking : List (Action Choice Env) :=
  overlapping ++ [.thread 3 .go, .thread 1 .go, .env (.rollupAtEpoch 60)] ++
    List.replicate 10 (.thread 4 .go)

theorem overtaking_accepted :
    (machine.run (start [9000] "localhost:53" 3 60) overtaking).isSome := by decide

/-- The five bytes are put into the buckets twice. -/
theorem overtaking_countsTwice :
    ¬ ∀ as p, machine.run (start [9000] "localhost:53" 3 60) as = some p →
      CountsOnce (start [9000] "localhost:53" 3 60) as p := by
  intro once
  have le := (once overtaking _ (Option.some_get overtaking_accepted).symm).put_le .udpInBytes
  revert le
  decide

end RangePorter.StatsRegistry
