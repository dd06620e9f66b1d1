import RangePorter.Stats.Observation

/-!
# From counters to buckets

One task rolls up, and it finishes one roll-up before it starts the next. The readings
of successive roll-ups then follow each other in time (`InTurn`), so their
aggregates never decrease although each is read while the counters change. What the
roll-ups add to the buckets telescopes to the last aggregate.
-/

namespace RangePorter.StatsRegistry

open Interleaving

variable {listenPorts : List Nat} {target : String} {windowMinutes now : Nat}
  {registry registry' : StatsRegistry} {t t' : Task} {k : Choice} {new : List Task}
  {p : Pool StatsRegistry Task} {loading : Loading}

/-- The `rollup` calls so far. -/
def calls (registry : StatsRegistry) : List RollupCall :=
  registry.history.rollups.map RollupRecord.call

/-- The true sum of a counter over all ports. -/
def trueSum (registry : StatsRegistry) (c : Counter) : Nat :=
  recordedTotal registry.ports.length registry.history.recorded c

/-- The loaded values of all ports together are no more than was recorded. -/
theorem sum_loaded_le {ports : List PortSnapshot} {since : Nat} {c : Counter}
    (observed : Observes registry ⟨ports, [], since⟩) (cumulative : c.gauge = false) :
    (ports.map fun snapshot => snapshot.get c).sum ≤ registry.trueSum c := by
  have each : ∀ (i : Nat) snapshot, ports[i]? = some snapshot →
      snapshot.get c ≤ (fun _ => 0) snapshot + registry.recordedFor i c := by
    intro i snapshot found
    have bound : i < registry.ports.length :=
      observed.length_eq ▸ (List.getElem?_eq_some_iff.mp found).1
    obtain waits | ⟨snapshot', m, found', -, -, value⟩ := observed.seen i bound c cumulative
    · cases waits
    · cases found.symm.trans found'
      rw [value, Nat.zero_add]
      exact (Nat.mod_le ..).trans (recordedOf_mono (List.take_prefix ..))
  have le := sum_map_le each
  rw [show ports.length = registry.ports.length from observed.length_eq] at le
  simpa [trueSum, recordedTotal, recordedFor] using le

/-- If the true sum fits, adding up the loaded values does not wrap. -/
theorem get_aggregate_of_fits {ports : List PortSnapshot} {since : Nat} {c : Counter}
    (observed : Observes registry ⟨ports, [], since⟩) (cumulative : c.gauge = false)
    (fits : registry.trueSum c < u64Size) :
    (aggregateFromSnapshots ports).get c = (ports.map fun snapshot => snapshot.get c).sum := by
  rw [get_aggregate]
  exact Nat.mod_eq_of_lt ((sum_loaded_le observed cumulative).trans_lt fits)

/-! ### The record of roll-ups -/

/-- Each record is a reading that was aggregated, and the ring is made of them. -/
structure Recorded (windowMinutes : Nat) (registry : StatsRegistry) : Prop where
  ring : (registry.buckets, registry.previousTotals) = rollups windowMinutes registry.calls
  reading : ∀ r ∈ registry.history.rollups, r.started ≤ r.finished ∧
    r.finished ≤ registry.history.recorded.length ∧
    registry.Between r.call.totals r.started r.finished

theorem Between.record {totals : AggregateTotals} {started finished i : Nat} {op : CounterOp}
    (between : registry.Between totals started finished) (ordered : started ≤ finished)
    (past : finished ≤ registry.history.recorded.length) :
    (registry.record i op).Between totals started finished := by
  intro c cumulative
  obtain ⟨sum, value, low, high⟩ := between c cumulative
  refine ⟨sum, value, ?_, ?_⟩
  · simpa [List.take_append_of_le_length (ordered.trans past)] using low
  · simpa [List.take_append_of_le_length past] using high

theorem Recorded.step (recorded : Recorded windowMinutes registry)
    (reading : ∀ loading, t.reading = some loading → Observes registry loading)
    (taken : Step registry t k registry' t' new) : Recorded windowMinutes registry' := by
  cases taken with
  | record =>
      refine ⟨recorded.ring, ?_⟩
      intro r member
      obtain ⟨ordered, past, between⟩ := recorded.reading r member
      exact ⟨ordered, past.trans (List.prefix_append ..).length_le, between.record ordered past⟩
  | @rollup now loading caller pending =>
      have observes := reading loading rfl
      refine ⟨?_, ?_⟩
      · have extended : (registry.rollup now loading).calls =
            registry.calls ++ [⟨now, aggregateFromSnapshots loading.snapshots⟩] := by
          simp [calls]
        rw [extended, rollups_concat, ← recorded.ring]
        rfl
      · intro r member
        obtain before | same := List.mem_append.mp member
        · exact recorded.reading r before
        · cases List.mem_singleton.mp same
          exact ⟨observes.since_le, Nat.le_refl _, observes.between pending⟩
  | _ => exact recorded

theorem recorded (reached : machine.Reachable (start listenPorts target windowMinutes now) p) :
    Recorded windowMinutes p.shared := by
  refine Program.reachable_induction (J := fun p => Recorded windowMinutes p.shared) reached
    ⟨rfl, fun _ member => absurd member List.not_mem_nil⟩ ?_ ?_
  · intro p i k t sh t' new reached before found taken
    exact before.step ((observes reached).get found) (step_iff.mp taken)
  · intro p e sh new _ before taken
    rw [env_registry taken]
    exact before

/-- A roll-up goes through its locked section. -/
def rolls (p : Pool StatsRegistry Task) : Action Choice Env → Bool
  | .thread i .go =>
      match p.threads[i]? with
      | some (.rollup _ loading _) => loading.pending.isEmpty
      | _ => false
  | _ => false

/-- There is one record for each roll-up of the run. -/
theorem length_rollups {as : List (Action Choice Env)}
    (complete : machine.run (start listenPorts target windowMinutes now) as = some p) :
    p.shared.history.rollups.length =
      machine.count rolls (start listenPorts target windowMinutes now) as := by
  have counted : p.shared.history.rollups.length =
      0 + machine.count rolls (start listenPorts target windowMinutes now) as := by
    refine Machine.invariant_count (D := fun _ _ => True)
      (P := fun n p => p.shared.history.rollups.length = n) ?_ rfl
      (Machine.along_of_forall (fun _ _ => trivial) _) complete
    rintro n p a q rfl - taken
    cases a with
    | env e =>
        obtain ⟨registry, new, own, rfl⟩ := Program.machine_env_iff.mp taken
        rw [env_registry own]
        rfl
    | thread i k =>
        obtain ⟨t, registry, t', new, found, own, rfl⟩ := Program.machine_thread_iff.mp taken
        cases step_iff.mp own with
        | rollupLoad pending | rollup pending => simp [rolls, found, pending]
        | record | snapshotLoad | copy => simp [rolls, found]
        | _ => rfl
  rw [counted, Nat.zero_add]

/-! ### One task that rolls up -/

/-- No task but `run_rollup` rolls up. -/
def sequential : Action Choice Env → Bool
  | .env (.rollupAtEpoch _) => false
  | _ => true

def Task.rollsUp : Task → Bool
  | .runRollup | .rollup .. => true
  | _ => false

/-- The first task is the only one that rolls up, and every roll-up has left its locks
before the next one began to load. -/
structure InTurn (p : Pool StatsRegistry Task) : Prop where
  others : ∀ (i : Nat) t, p.threads[i]? = some t → t.rollsUp = true → i = 0
  ordered : p.shared.history.rollups.Pairwise fun r r' => r.finished ≤ r'.started
  next : ∀ (i : Nat) now loading caller, p.threads[i]? = some (.rollup now loading caller) →
    ∀ r ∈ p.shared.history.rollups, r.finished ≤ loading.since

theorem Step.rollsUp (taken : Step registry t k registry' t' new) (rolls : t'.rollsUp = true) :
    t.rollsUp = true := by
  cases taken with
  | rollup | tick | shutdown | rollupLoad => rfl
  | _ => cases rolls

theorem Step.new_eq (taken : Step registry t k registry' t' new) : new = [] := by
  cases taken <;> rfl

theorem rollup_ne_resume {caller caller' : RollupCaller} :
    Task.rollup now loading caller ≠ caller'.resume :=
  RollupCaller.resume_cases nofun nofun

/-- What a step of a task does to the record, by the task that takes it. -/
theorem Step.rollups_eq (taken : Step registry t k registry' t' new) :
    registry'.history.rollups = registry.history.rollups ∨
      ∃ now loading caller, t = .rollup now loading caller ∧ t' = caller.resume ∧
        registry' = registry.rollup now loading := by
  cases taken with
  | @rollup now loading caller => exact .inr ⟨now, loading, caller, rfl, rfl, rfl⟩
  | _ => exact .inl rfl

theorem InTurn.thread {i : Nat} (turn : InTurn p) (recorded : Recorded windowMinutes p.shared)
    (found : p.threads[i]? = some t) (taken : Step p.shared t k registry' t' new) :
    InTurn ⟨registry', p.threads.set i t' ++ new⟩ := by
  rw [taken.new_eq, List.append_nil]
  have bound := (List.getElem?_eq_some_iff.mp found).1
  have others : ∀ (j : Nat) u, (p.threads.set i t')[j]? = some u → u.rollsUp = true → j = 0 := by
    intro j u found' rolls
    rw [← List.append_nil (p.threads.set i t')] at found'
    obtain ⟨rfl, rfl⟩ | ⟨-, old⟩ | ⟨-, none⟩ := lookup_thread bound found'
    · exact turn.others j t found (taken.rollsUp rolls)
    · exact turn.others j u old rolls
    · cases none
  obtain same | ⟨now, loading, caller, rfl, rfl, rfl⟩ := taken.rollups_eq
  · refine ⟨others, ?_, ?_⟩
    · show registry'.history.rollups.Pairwise _
      rw [same]
      exact turn.ordered
    · intro j now loading caller found' r member
      rw [show registry'.history.rollups = _ from same] at member
      rw [← List.append_nil (p.threads.set i t')] at found'
      obtain ⟨-, own⟩ | ⟨-, old⟩ | ⟨-, none⟩ := lookup_thread bound found'
      · cases taken with
        | tick | shutdown =>
            cases own
            exact (recorded.reading r member).2.1
        | rollupLoad pending loaded =>
            cases own
            obtain ⟨s, -, rfl⟩ := Option.map_eq_some_iff.mp loaded
            exact turn.next i _ _ _ found r member
        | rollup => exact absurd own rollup_ne_resume
        | _ => cases own
      · exact turn.next j now loading caller old r member
      · cases none
  · refine ⟨others, ?_, ?_⟩
    · refine List.pairwise_append.mpr ⟨turn.ordered, List.pairwise_singleton .., ?_⟩
      intro r member r' last
      cases List.mem_singleton.mp last
      exact turn.next i now loading caller found r member
    · -- The task that rolls up has just finished, and there is no other.
      intro j now' loading' caller' found' r _
      have zero := turn.others i _ found rfl
      have own : i = j := zero.trans (others j _ found' rfl).symm
      subst own
      rw [List.getElem?_set_self bound, Option.some.injEq] at found'
      exact absurd found'.symm rollup_ne_resume

theorem InTurn.env {e : Env} (turn : InTurn p) (alone : sequential (.env e) = true)
    (taken : p.shared.env e = some (registry', new)) :
    InTurn ⟨registry', p.threads ++ new⟩ := by
  obtain ⟨rfl, t, rfl, call⟩ := env_iff.mp taken
  have quiet : ∀ u ∈ [t], u.rollsUp = false := by
    intro u member
    rw [List.mem_singleton.mp member]
    cases call with
    | rollupAtEpoch => cases alone
    | _ => rfl
  have old : ∀ (i : Nat) u, (p.threads ++ [t])[i]? = some u → u.rollsUp = true →
      p.threads[i]? = some u := by
    intro i u found rolls
    obtain old | ⟨-, member⟩ := lookup_env found
    · exact old
    · rw [quiet u member] at rolls
      cases rolls
  exact ⟨fun i u found rolls => turn.others i u (old i u found rolls) rolls, turn.ordered,
    fun i now loading caller found => turn.next i now loading caller (old i _ found rfl)⟩

theorem InTurn.step (reached : machine.Reachable (start listenPorts target windowMinutes now) p)
    (turn : InTurn p) {a : Action Choice Env} (alone : sequential a = true)
    {q : Pool StatsRegistry Task} (taken : machine.step p a = some q) : InTurn q := by
  cases a with
  | thread i k =>
      obtain ⟨t, sh, t', new, found, own, rfl⟩ := Program.machine_thread_iff.mp taken
      exact turn.thread (recorded reached) found (step_iff.mp own)
  | env e =>
      obtain ⟨sh, new, own, rfl⟩ := Program.machine_env_iff.mp taken
      exact turn.env alone own

theorem InTurn.start : InTurn (start listenPorts target windowMinutes now) where
  others := by
    intro i t found _
    have bound := (List.getElem?_eq_some_iff.mp found).1
    simpa [StatsRegistry.start] using bound
  ordered := List.Pairwise.nil
  next := by
    intro i now loading caller _ r member
    cases member

theorem inTurn {as : List (Action Choice Env)}
    (alone : ∀ a ∈ as, sequential a = true)
    (complete : machine.run (start listenPorts target windowMinutes now) as = some p) :
    InTurn p := by
  have both : machine.Reachable (start listenPorts target windowMinutes now) p ∧ InTurn p :=
    Machine.invariant_along (C := fun _ a => sequential a = true)
      (P := fun p => machine.Reachable (start listenPorts target windowMinutes now) p ∧ InTurn p)
      (fun _ _ _ before alone taken => ⟨before.1.step taken, before.2.step before.1 alone taken⟩)
      ⟨.refl _, .start⟩ (Machine.along_of_forall alone _) complete
  exact both.2

/-! ### Aggregates never decrease -/

section

variable {c : Counter}

/-- If the true sum fits, an aggregate lies between the true sums of its reading. -/
theorem Between.of_fits {totals : AggregateTotals} {started finished : Nat}
    (between : registry.Between totals started finished) (cumulative : c.gauge = false)
    (fits : registry.trueSum c < u64Size) :
    recordedTotal registry.ports.length (registry.history.recorded.take started) c ≤
      totals.get c ∧
    totals.get c ≤ recordedTotal registry.ports.length
      (registry.history.recorded.take finished) c := by
  obtain ⟨sum, value, low, high⟩ := between c cumulative
  have small : sum < u64Size :=
    (high.trans (recordedTotal_mono (List.take_prefix ..))).trans_lt fits
  rw [value, Nat.mod_eq_of_lt small]
  exact ⟨low, high⟩

theorem cumulative_counter (c : Cumulative) : c.counter.gauge = false := by
  cases c <;> rfl

end

theorem untruncated {c : Cumulative} (turn : InTurn p) (recorded : Recorded windowMinutes p.shared)
    (fits : p.shared.trueSum c.counter < u64Size) : Untruncated c p.shared.calls := by
  have bounds := fun r member =>
    (recorded.reading r member).2.2.of_fits (cumulative_counter c) fits
  have ordered := turn.ordered
  rw [calls]
  generalize p.shared.history.rollups = rs at bounds ordered
  induction rs using List.reverseRecOn with
  | nil => exact fun before call after same => absurd same (by simp)
  | append_singleton rs r ih =>
      obtain ⟨before, -, last⟩ := List.pairwise_append.mp ordered
      rw [List.map_append, List.map_singleton, Untruncated.concat_iff]
      refine ⟨ih (fun r' member => bounds r' (List.mem_append_left _ member)) before, ?_⟩
      cases rs using List.reverseRecOn with
      | nil => simp [lastTotals]
      | append_singleton rs previous =>
          rw [List.map_append, List.map_singleton, lastTotals_concat]
          have high := (bounds previous (by simp)).2
          have low := (bounds r (by simp)).1
          have between := recordedTotal_mono (n := p.shared.ports.length) (c := c.counter)
            (take_prefix_take p.shared.history.recorded (last previous (by simp) r (by simp)))
          omega

/-! ### Nothing lost, nothing counted twice -/

/-- What counters and buckets have in common for one cumulative field. -/
structure Conserves (windowMinutes : Nat) (registry : StatsRegistry) (c : Cumulative) : Prop where
  ring : (registry.buckets, registry.previousTotals) = rollups windowMinutes registry.calls
  /-- No `saturating_sub` truncates. -/
  untruncated : ∀ before call after, registry.calls = before ++ call :: after →
    (rollups windowMinutes before).2.get c.counter ≤ call.totals.get c.counter
  /-- No addition to a bucket overflows. -/
  no_overflow : ∀ before call after, registry.calls = before ++ call :: after →
    ∀ bucket, (rollups windowMinutes before).1.touched call.nowEpochSeconds = some bucket →
      c.field bucket + (call.totals.get c.counter -
        (rollups windowMinutes before).2.get c.counter) < u64Size
  collected : ((withPrevious .default registry.calls).map fun x => x.growth c).sum =
    (lastTotals registry.calls).get c.counter
  shown : registry.calls.Pairwise (fun a b => a.nowEpochSeconds ≤ b.nowEpochSeconds) →
    (∀ call ∈ registry.calls, 60 ≤ call.nowEpochSeconds) →
    (∀ first ∈ registry.calls.head?, ∀ last ∈ registry.calls.getLast?,
      last.nowEpochSeconds / 60 - first.nowEpochSeconds / 60 < max windowMinutes 1) →
    (registry.buckets.snapshot.map c.field).sum = (lastTotals registry.calls).get c.counter
  /-- If nothing was recorded since the last roll-up began, its aggregate is the sum of
  the counters and of all that was recorded. -/
  exact : ∀ r ∈ registry.history.rollups.getLast?,
    r.started = registry.history.recorded.length →
    (lastTotals registry.calls).get c.counter = registry.trueSum c.counter ∧
    (registry.ports.map fun s => s.load c.counter).sum = registry.trueSum c.counter

theorem Untruncated.initial {c : Cumulative} {before after : List RollupCall}
    (untruncated : Untruncated c (before ++ after)) : Untruncated c before := by
  rintro first call rest rfl
  exact untruncated first call (rest ++ after) (by simp)

/-- Calls that do not go back in time stay between the first and the last. -/
theorem withinWindow {calls : List RollupCall} {windowMinutes : Nat}
    (ordered : calls.Pairwise fun a b => a.nowEpochSeconds ≤ b.nowEpochSeconds)
    (late : ∀ call ∈ calls, 60 ≤ call.nowEpochSeconds)
    (near : ∀ first ∈ calls.head?, ∀ last ∈ calls.getLast?,
      last.nowEpochSeconds / 60 - first.nowEpochSeconds / 60 < max windowMinutes 1) :
    WithinWindow windowMinutes calls := by
  cases calls with
  | nil => exact ⟨1, Nat.one_pos, fun call member => absurd member List.not_mem_nil⟩
  | cons first rest =>
      have positive := late first (List.mem_cons_self ..)
      refine ⟨first.nowEpochSeconds / 60, by omega, ?_⟩
      intro call member
      have low : first.nowEpochSeconds ≤ call.nowEpochSeconds := by
        obtain rfl | later := List.mem_cons.mp member
        · exact Nat.le_refl _
        · exact List.rel_of_pairwise_cons ordered later
      have nonempty : first :: rest ≠ [] := List.cons_ne_nil first rest
      have high : call.nowEpochSeconds ≤ ((first :: rest).getLast nonempty).nowEpochSeconds :=
        ordered.rel_getLast_of_rel_getLast_getLast member (Nat.le_refl _)
      have bound := near first rfl _ (List.getLast?_eq_getLast_of_ne_nil nonempty)
      have low' := Nat.div_le_div_right (c := 60) low
      have high' := Nat.div_le_div_right (c := 60) high
      omega

theorem le_trueSum {c : Cumulative} (recorded : Recorded windowMinutes p.shared)
    (fits : p.shared.trueSum c.counter < u64Size) {call : RollupCall}
    (member : call ∈ p.shared.calls) : call.totals.get c.counter ≤ p.shared.trueSum c.counter := by
  obtain ⟨r, inside, rfl⟩ := List.mem_map.mp member
  have bounds := (recorded.reading r inside).2.2.of_fits (cumulative_counter c) fits
  exact bounds.2.trans (recordedTotal_mono (List.take_prefix ..))

/-- As long as the true sum fits, so does every counter. -/
theorem sum_load {c : Counter} (counts : registry.Counts) (cumulative : c.gauge = false)
    (fits : registry.trueSum c < u64Size) :
    (registry.ports.map fun s => s.load c).sum = registry.trueSum c := by
  rw [trueSum, recordedTotal]
  congr 1
  apply List.ext_getElem?
  intro i
  by_cases bound : i < registry.ports.length
  · have here := List.getElem?_eq_getElem bound
    have value := counts i _ here c cumulative
    rw [Nat.mod_eq_of_lt ((recordedOf_le_total bound).trans_lt fits)] at value
    simp [here, value, List.getElem?_range bound]
  · rw [List.getElem?_eq_none (by simpa using bound), List.getElem?_eq_none (by simpa using bound)]

/-- Between counters and buckets nothing is lost and nothing counted twice, as long as
one task rolls up and the true sum fits. All its roll-ups are among the calls. -/
theorem conserves {as : List (Action Choice Env)} (alone : ∀ a ∈ as, sequential a = true)
    (complete : machine.run (start listenPorts target windowMinutes now) as = some p)
    (c : Cumulative) (fits : p.shared.trueSum c.counter < u64Size) :
    Conserves windowMinutes p.shared c ∧ p.shared.history.rollups.length =
      machine.count rolls (start listenPorts target windowMinutes now) as := by
  have reached : machine.Reachable (start listenPorts target windowMinutes now) p := ⟨as, complete⟩
  have recorded := recorded reached
  have all := untruncated (inTurn alone complete) recorded fits
  refine ⟨?_, length_rollups complete⟩
  constructor
  case ring => exact recorded.ring
  case untruncated =>
      intro before call after same
      rw [rollups_previous]
      exact all before call after same
  case no_overflow =>
      intro before call after same bucket touched
      have le := all before call after same
      have before' : Untruncated c (before ++ call :: after) := same ▸ all
      have added := field_touched_le (c := c) touched
      rw [sum_growth (Untruncated.initial before')] at added
      have member : call ∈ p.shared.calls := by simp [same]
      have small := le_trueSum recorded fits member
      rw [rollups_previous]
      omega
  case collected => exact sum_growth all
  case shown =>
      intro ordered late near
      have buckets : p.shared.buckets = (rollups windowMinutes p.shared.calls).1 :=
        congrArg Prod.fst recorded.ring
      rw [buckets]
      refine sum_snapshot (withinWindow ordered late near) all ?_
      cases last : p.shared.calls.getLast? with
      | none => simp [lastTotals, last, u64Size_pos]
      | some call =>
          have small := le_trueSum recorded fits (List.mem_of_getLast? last)
          simp only [lastTotals, last, Option.map_some, Option.getD_some]
          omega
  case exact =>
      intro r last stopped
      refine ⟨?_, sum_load (counts reached) (cumulative_counter c) fits⟩
      obtain ⟨ordered, past, between⟩ := recorded.reading r (List.mem_of_getLast? last)
      have bounds := between.of_fits (cumulative_counter c) fits
      have finished : r.finished = p.shared.history.recorded.length := by omega
      rw [stopped, finished, List.take_length] at bounds
      rw [lastTotals, calls, List.getLast?_map, last]
      exact Nat.le_antisymm bounds.2 bounds.1

/-- One datagram is counted, and then the first roll-up loads the nine counters. -/
def oneDatagram : List (Action Choice Env) :=
  [.env (.record 9000 (.udpIn 5)), .thread 1 .go, .thread 0 (.tick 60)] ++
    List.replicate 10 (.thread 0 .go)

theorem oneDatagram_accepted :
    (machine.run (start [9000] "localhost:53" 3 60) oneDatagram).isSome := by decide

theorem conserves_oneDatagram :
    Conserves 3 ((machine.run (start [9000] "localhost:53" 3 60) oneDatagram).get
        oneDatagram_accepted).shared .udpInBytes ∧
      ((machine.run (start [9000] "localhost:53" 3 60) oneDatagram).get
        oneDatagram_accepted).shared.history.rollups.length =
          machine.count rolls (start [9000] "localhost:53" 3 60) oneDatagram :=
  conserves (by decide) (Option.some_get _).symm .udpInBytes (by decide)

end RangePorter.StatsRegistry
