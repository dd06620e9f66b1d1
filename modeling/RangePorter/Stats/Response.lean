import RangePorter.Stats.Concurrent
import Mathlib.Algebra.Group.Pi.Basic

/-!
# The buckets of an answer against its totals

A snapshot loads the counters first and copies the ring afterwards. A roll-up that enters
its locked section in between may bring into the buckets what was recorded after a counter
had been loaded. The buckets shown exceed the totals by at most that, and without such a
roll-up not at all.
-/

namespace RangePorter.StatsRegistry

open Interleaving

variable {listenPorts : List Nat} {target : String} {windowMinutes now : Nat}
  {registry registry' : StatsRegistry} {t t' : Task} {k : Choice} {new : List Task}
  {p : Pool StatsRegistry Task} {loading : Loading} {j m rolled : Nat} {n : Nat → Nat}
  {c : Cumulative} {as : List (Action Choice Env)}

/-! ### What happens while a snapshot loads -/

/-- What the action records for the counter, port by port, after the snapshot of task `j`
has loaded it and before it copies the ring. -/
def recordedAfter (j : Nat) (c : Counter) (p : Pool StatsRegistry Task) :
    Action Choice Env → Nat → Nat
  | .thread m .go, i =>
      match p.threads[m]?, p.threads[j]? with
      | some (.recording port (op :: _)), some (.snapshot loading) =>
          if port = i ∧ op.counter = c ∧ loading.awaits i c = false then op.amount else 0
      | _, _ => 0
  | _, _ => 0

/-- A roll-up enters its locked section while the snapshot of task `j` loads. -/
def rollupWithin (j : Nat) (p : Pool StatsRegistry Task) : Action Choice Env → Bool
  | .thread m .go =>
      match p.threads[m]?, p.threads[j]? with
      | some (.rollup _ loading _), some (.snapshot _) => loading.pending.isEmpty
      | _, _ => false
  | _ => false

/-- The loaded values of the counter are behind the true ones by at most `n`, port by port. -/
def Behind (registry : StatsRegistry) (c : Counter) (n : Nat → Nat) (loading : Loading) : Prop :=
  ∀ i snapshot, loading.snapshots[i]? = some snapshot → (i, c) ∉ loading.pending →
    registry.recordedFor i c ≤ snapshot.get c + n i

theorem Behind.mono {d : Counter} {extra : Nat → Nat} (behind : Behind registry d n loading)
    (grown : ∀ i, (i, d) ∉ loading.pending →
      registry'.recordedFor i d ≤ registry.recordedFor i d + extra i) :
    Behind registry' d (n + extra) loading := by
  intro i snapshot found gone
  have before := behind i snapshot found gone
  have now := grown i gone
  rw [Pi.add_apply]
  omega

theorem Behind.load (registry : StatsRegistry) (d : Counter) (n : Nat → Nat) :
    Behind registry d n registry.load := by
  intro i snapshot found gone
  have bound := (List.getElem?_eq_some_iff.mp found).1
  exact absurd (mem_load registry (by simpa [StatsRegistry.load] using bound) d) gone

theorem Behind.next {i : Nat} {d e : Counter} {rest : List (Nat × Counter)} {next : Loading}
    (behind : Behind registry d n loading) (pending : loading.pending = (i, e) :: rest)
    (loaded : registry.loadNext loading i e rest = some next)
    (exact : ∀ s, registry.ports[i]? = some s → s.load d = registry.recordedFor i d) :
    Behind registry d n next := by
  obtain ⟨s, here, rfl⟩ := Option.map_eq_some_iff.mp loaded
  intro l snapshot' found gone
  rw [List.getElem?_modify] at found
  obtain ⟨snapshot, found', rfl⟩ := Option.map_eq_some_iff.mp found
  by_cases own : (l, d) = (i, e)
  · cases own
    simp [exact s here]
  · have before := behind l snapshot found'
      (by rw [pending]; exact fun member => (List.mem_cons.mp member).elim own gone)
    by_cases port : i = l
    · have other : d ≠ e := fun same => own (by rw [same, port])
      simpa [port, PortSnapshot.get_set_of_ne _ _ other] using before
    · simpa [port] using before

/-- What a task records after a load is counted as such. -/
theorem Step.recordedFor_le (taken : Step p.shared t k registry' t' new)
    (found : p.threads[m]? = some t) (reading : p.threads[j]? = some (.snapshot loading))
    (d : Counter) {i : Nat} (gone : (i, d) ∉ loading.pending) :
    registry'.recordedFor i d ≤
      p.shared.recordedFor i d + recordedAfter j d p (.thread m k) i := by
  cases taken with
  | record =>
      rw [recordedFor_record]
      simp [recordedAfter, found, reading, Loading.awaits, gone]
  | _ => exact Nat.le_add_right ..

/-- While a snapshot loads, only a roll-up that is counted changes the record of roll-ups. -/
theorem Step.rollups_of_not_within (taken : Step p.shared t k registry' t' new)
    (found : p.threads[m]? = some t) (reading : p.threads[j]? = some (.snapshot loading))
    (outside : rollupWithin j p (.thread m k) = false) :
    registry'.history.rollups = p.shared.history.rollups := by
  cases taken with
  | rollup pending => simp [rollupWithin, found, reading, pending] at outside
  | _ => rfl

/-! ### What the ring contains -/

theorem sum_buckets_le (recorded : Recorded windowMinutes registry) (c : Cumulative) :
    (registry.buckets.snapshot.map c.field).sum ≤ registry.collected c := by
  have buckets : registry.buckets = (rollups windowMinutes registry.calls).1 :=
    congrArg Prod.fst recorded.ring
  rw [buckets]
  exact sum_snapshot_le

theorem collected_eq (turn : InTurn p) (recorded : Recorded windowMinutes p.shared)
    (fits : p.shared.trueSum c.counter < u64Size) :
    p.shared.collected c = (lastTotals p.shared.calls).get c.counter :=
  sum_growth (untruncated turn recorded fits)

/-- A complete reading is behind the true sum by at most what was recorded since its loads. -/
theorem Behind.trueSum_le {d : Counter} (behind : Behind registry d n loading)
    (observed : Observes registry loading) (pending : loading.pending = []) :
    registry.trueSum d ≤ (loading.snapshots.map fun snapshot => snapshot.get d).sum +
      ((List.range loading.snapshots.length).map n).sum := by
  rw [trueSum, recordedTotal, ← observed.length_eq]
  apply sum_range_le
  intro i snapshot found
  exact behind i snapshot found (by simp [pending])

/-! ### The answer -/

/-- Buckets and totals of an answer, if `rolled` roll-ups came between and `n` was recorded
after the loads. -/
structure Covered (c : Cumulative) (n : Nat → Nat) (rolled : Nat) (ports : List PortSnapshot)
    (minuteBuckets : List MinuteBucket) : Prop where
  within : (minuteBuckets.map c.field).sum ≤ (aggregateFromSnapshots ports).get c.counter +
    ((List.range ports.length).map n).sum
  undisturbed : rolled = 0 →
    (minuteBuckets.map c.field).sum ≤ (aggregateFromSnapshots ports).get c.counter

theorem Covered.mono {ports : List PortSnapshot} {minuteBuckets : List MinuteBucket}
    (covered : Covered c n rolled ports minuteBuckets) (extra : Nat → Nat) (more : Nat) :
    Covered c (n + extra) (rolled + more) ports minuteBuckets where
  within := by
    refine covered.within.trans (Nat.add_le_add_left (List.sum_le_sum fun i _ => ?_) _)
    exact Nat.le_add_right ..
  undisturbed none := covered.undisturbed (Nat.eq_zero_of_add_eq_zero_right none)

/-- The copy of the ring after a complete reading. -/
theorem Covered.copy (turn : InTurn p) (recorded : Recorded windowMinutes p.shared)
    (fits : p.shared.trueSum c.counter < u64Size) (observed : Observes p.shared loading)
    (pending : loading.pending = []) (behind : Behind p.shared c.counter n loading)
    (past : rolled = 0 → ∀ r ∈ p.shared.history.rollups, r.finished ≤ loading.since) :
    Covered c n rolled loading.snapshots p.shared.buckets.snapshot := by
  have cumulative := cumulative_counter c
  have shown := sum_buckets_le recorded c
  rw [collected_eq turn recorded fits] at shown
  constructor
  · have complete : Observes p.shared ⟨loading.snapshots, [], loading.since⟩ := pending ▸ observed
    have aggregate := get_aggregate_of_fits complete cumulative fits
    calc
      _ ≤ (lastTotals p.shared.calls).get c.counter := shown
      _ ≤ p.shared.trueSum c.counter := lastTotals_le recorded cumulative
      _ ≤ _ := behind.trueSum_le observed pending
      _ = _ := by rw [aggregate]
  · intro none
    calc
      _ ≤ (lastTotals p.shared.calls).get c.counter := shown
      _ ≤ recordedTotal p.shared.ports.length
            (p.shared.history.recorded.take loading.since) c.counter :=
          lastTotals_le_take recorded cumulative (past none)
      _ ≤ _ := ((observed.between pending).of_fits cumulative fits).1

/-- The snapshot of task `j`, if `rolled` roll-ups entered their locked section while it
loaded, and `n` was recorded after its loads. -/
structure Tracks (j : Nat) (c : Cumulative) (n : Nat → Nat) (rolled : Nat)
    (p : Pool StatsRegistry Task) : Prop where
  behind : ∀ loading, p.threads[j]? = some (.snapshot loading) →
    Behind p.shared c.counter n loading
  past : rolled = 0 → ∀ loading, p.threads[j]? = some (.snapshot loading) →
    ∀ r ∈ p.shared.history.rollups, r.finished ≤ loading.since
  covered : ∀ t ports minuteBuckets, p.threads[j]? = some t →
    t.answer = some (ports, minuteBuckets) → Covered c n rolled ports minuteBuckets

theorem resume_ne_snapshot {caller : RollupCaller} : .snapshot loading ≠ caller.resume :=
  RollupCaller.resume_cases nofun nofun

theorem load_eq (counts : registry.Counts) {d : Counter} (cumulative : d.gauge = false)
    (fits : registry.trueSum d < u64Size) {i : Nat} {s : PortStats}
    (here : registry.ports[i]? = some s) : s.load d = registry.recordedFor i d := by
  rw [counts i s here d cumulative]
  have bound := (List.getElem?_eq_some_iff.mp here).1
  exact Nat.mod_eq_of_lt ((recordedOf_le_total bound).trans_lt fits)

theorem Tracks.thread (tracks : Tracks j c n rolled p)
    (reached : machine.Reachable (start listenPorts target windowMinutes now) p) (turn : InTurn p)
    (fits : p.shared.trueSum c.counter < u64Size) (found : p.threads[m]? = some t)
    (taken : Step p.shared t k registry' t' new) :
    Tracks j c (n + recordedAfter j c.counter p (.thread m k))
      (rolled + (rollupWithin j p (.thread m k)).toNat) ⟨registry', p.threads.set m t' ++ new⟩ := by
  have bound := (List.getElem?_eq_some_iff.mp found).1
  constructor
  · intro loading found'
    obtain ⟨rfl, own⟩ | ⟨-, old⟩ | ⟨-, none⟩ := lookup_thread bound found'
    · cases taken with
      | snapshotLoad pending loaded =>
          cases own
          have loads := (tracks.behind _ found).next pending loaded fun s here =>
            load_eq (counts reached) (cumulative_counter c) fits here
          exact loads.mono fun _ _ => Nat.le_add_right ..
      | rollup => exact absurd own resume_ne_snapshot
      | _ => cases own
    · exact (tracks.behind loading old).mono fun i gone =>
        taken.recordedFor_le found old c.counter gone
    · rw [taken.new_eq] at none
      cases none
  · intro none loading found'
    have none' := Nat.eq_zero_of_add_eq_zero_right none
    obtain ⟨rfl, own⟩ | ⟨-, old⟩ | ⟨-, spawned⟩ := lookup_thread bound found'
    · cases taken with
      | snapshotLoad pending loaded =>
          cases own
          obtain ⟨s, -, rfl⟩ := Option.map_eq_some_iff.mp loaded
          have past := tracks.past none' _ found
          exact past
      | rollup => exact absurd own resume_ne_snapshot
      | _ => cases own
    · have outside : rollupWithin j p (.thread m k) = false := by
        simpa using Nat.eq_zero_of_add_eq_zero_left none
      show ∀ r ∈ registry'.history.rollups, _
      rw [taken.rollups_of_not_within found old outside]
      exact tracks.past none' loading old
    · rw [taken.new_eq] at spawned
      cases spawned
  · intro u ports minuteBuckets found' answer
    obtain ⟨rfl, rfl⟩ | ⟨-, old⟩ | ⟨-, none⟩ := lookup_thread bound found'
    · cases taken with
      | copy pending =>
          cases answer
          have observed := (observes reached).get found _ rfl
          exact (Covered.copy turn (recorded reached) fits observed pending
            (tracks.behind _ found) fun none => tracks.past none _ found).mono _ _
      | stamp =>
          cases answer
          exact (tracks.covered _ _ _ found rfl).mono _ _
      | rollup =>
          rw [answer_resume] at answer
          cases answer
      | _ => cases answer
    · exact (tracks.covered u ports minuteBuckets old answer).mono _ _
    · rw [taken.new_eq] at none
      cases none

theorem Tracks.call {e : Env} (tracks : Tracks j c n rolled p)
    (recorded : Recorded windowMinutes p.shared) (call : Call p.shared e t) :
    Tracks j c n rolled ⟨p.shared, p.threads ++ [t]⟩ := by
  constructor
  · intro loading found
    obtain old | ⟨-, member⟩ := lookup_env found
    · exact tracks.behind loading old
    · have own := List.mem_singleton.mp member
      cases call with
      | snapshot =>
          cases own
          exact .load p.shared c.counter n
      | _ => cases own
  · intro none loading found
    obtain old | ⟨-, member⟩ := lookup_env found
    · exact tracks.past none loading old
    · have own := List.mem_singleton.mp member
      cases call with
      | snapshot =>
          cases own
          exact fun r member => (recorded.reading r member).2.1
      | _ => cases own
  · intro u ports minuteBuckets found answer
    obtain old | ⟨-, member⟩ := lookup_env found
    · exact tracks.covered u ports minuteBuckets old answer
    · rw [List.mem_singleton.mp member] at answer
      cases call <;> cases answer

theorem Step.trueSum_le (taken : Step registry t k registry' t' new) (d : Counter) :
    registry.trueSum d ≤ registry'.trueSum d := by
  rw [trueSum, trueSum, taken.ports_length]
  exact recordedTotal_mono taken.recorded

theorem tracks (alone : ∀ a ∈ as, sequential a = true)
    (complete : machine.run (start listenPorts target windowMinutes now) as = some p)
    (fits : p.shared.trueSum c.counter < u64Size) :
    Tracks j c
      (machine.total (recordedAfter j c.counter) (start listenPorts target windowMinutes now) as)
      (machine.count (rollupWithin j) (start listenPorts target windowMinutes now) as) p := by
  have all : machine.Reachable (start listenPorts target windowMinutes now) p ∧ InTurn p ∧
      (p.shared.trueSum c.counter < u64Size → Tracks j c
        (0 + machine.total (fun p a => (recordedAfter j c.counter p a, (rollupWithin j p a).toNat))
          (start listenPorts target windowMinutes now) as).1
        (0 + machine.total (fun p a => (recordedAfter j c.counter p a, (rollupWithin j p a).toNat))
          (start listenPorts target windowMinutes now) as).2 p) := by
    refine Machine.invariant_total_along (D := fun _ a => sequential a = true)
      (P := fun (b : (Nat → Nat) × Nat) p =>
        machine.Reachable (start listenPorts target windowMinutes now) p ∧ InTurn p ∧
        (p.shared.trueSum c.counter < u64Size → Tracks j c b.1 b.2 p))
      ?_ ⟨.refl _, .start, fun _ => ?_⟩ (Machine.along_of_forall alone _) complete
    · rintro b p a q ⟨reached, turn, tracks⟩ alone taken
      refine ⟨reached.step taken, turn.step reached alone taken, fun fits => ?_⟩
      cases a with
      | thread m k =>
          obtain ⟨t, sh, t', new, found, own, rfl⟩ := Program.machine_thread_iff.mp taken
          have step := step_iff.mp own
          have fits' := (step.trueSum_le c.counter).trans_lt fits
          exact (tracks fits').thread reached turn fits' found step
      | env e =>
          obtain ⟨sh, new, own, rfl⟩ := Program.machine_env_iff.mp taken
          obtain ⟨rfl, t, rfl, call⟩ := env_iff.mp own
          exact (tracks fits).call (recorded reached) call
    · have first : ∀ t, (start listenPorts target windowMinutes now).threads[j]? = some t →
          t = .runRollup := fun t found => List.mem_singleton.mp (List.mem_of_getElem? found)
      refine ⟨fun loading found => ?_, fun _ loading found => ?_, fun t _ _ found answer => ?_⟩
      · cases first _ found
      · cases first _ found
      · rw [first t found] at answer
        cases answer
  have tracks := all.2.2 fits
  rw [zero_add, Machine.total_prodMk, ← Machine.count_eq_total] at tracks
  exact tracks

/-- Buckets exceed totals by at most what was recorded after the loads, and only if a
roll-up came before the ring was copied. -/
theorem shown_le (alone : ∀ a ∈ as, sequential a = true)
    (complete : machine.run (start listenPorts target windowMinutes now) as = some p)
    (c : Cumulative) (fits : p.shared.trueSum c.counter < u64Size) {s : StatsSnapshot}
    (found : p.threads[j]? = some (.returned s)) :
    (s.minuteBuckets.map c.field).sum ≤ s.totals.get c.counter +
      ((List.range s.ports.length).map (machine.total (recordedAfter j c.counter)
        (start listenPorts target windowMinutes now) as)).sum ∧
    (machine.count (rollupWithin j) (start listenPorts target windowMinutes now) as = 0 →
      (s.minuteBuckets.map c.field).sum ≤ s.totals.get c.counter) := by
  have covered := (tracks alone complete fits).covered _ _ _ found rfl
  rw [((answers ⟨as, complete⟩).get found).aggregated s rfl]
  exact ⟨covered.within, covered.undisturbed⟩

/-- A datagram is counted and rolled up after a snapshot has loaded all counters, and before
it copies the ring. -/
def lateRollup : List (Action Choice Env) :=
  .env .snapshot :: List.replicate 9 (.thread 1 .go) ++
    [.env (.record 9000 (.udpIn 5)), .thread 2 .go, .thread 0 (.tick 60)] ++
      List.replicate 10 (.thread 0 .go) ++ [.thread 1 .go, .thread 1 (.clock 60)]

theorem lateRollup_accepted :
    (machine.run (start [9000] "localhost:53" 3 60) lateRollup).isSome := by decide

/-- The answer shows the datagram in a bucket and not in the totals. -/
def bucketOnly : StatsSnapshot where
  target := "localhost:53"
  startedAtEpoch := 60
  generatedAtEpoch := 60
  windowMinutes := 3
  totals := .default
  ports := [.blank 9000]
  minuteBuckets := (rollups 3 [⟨60, { AggregateTotals.default with udpInBytes := 5 }⟩]).1.snapshot

theorem lateRollup_answer :
    ((machine.run (start [9000] "localhost:53" 3 60) lateRollup).get
      lateRollup_accepted).threads[1]? = some (.returned bucketOnly) := rfl

theorem shown_lateRollup :
    (bucketOnly.minuteBuckets.map Cumulative.udpInBytes.field).sum ≤
      bucketOnly.totals.get .udpInBytes + ((List.range bucketOnly.ports.length).map
        (machine.total (recordedAfter 1 .udpInBytes) (start [9000] "localhost:53" 3 60)
          lateRollup)).sum ∧
    (machine.count (rollupWithin 1) (start [9000] "localhost:53" 3 60) lateRollup = 0 →
      (bucketOnly.minuteBuckets.map Cumulative.udpInBytes.field).sum ≤
        bucketOnly.totals.get .udpInBytes) :=
  shown_le (by decide) (Option.some_get lateRollup_accepted).symm .udpInBytes (by decide)
    lateRollup_answer

theorem lateRollup_exceeds :
    ¬ ∀ as p, (∀ a ∈ as, sequential a = true) →
      machine.run (start [9000] "localhost:53" 3 60) as = some p →
      ∀ (j : Nat) s, p.threads[j]? = some (.returned s) → ∀ c : Cumulative,
        (s.minuteBuckets.map c.field).sum ≤ s.totals.get c.counter := by
  intro covered
  have le := covered lateRollup _ (by decide) (Option.some_get lateRollup_accepted).symm 1 _
    lateRollup_answer .udpInBytes
  have shown : { MinuteBucket.fresh 1 with udpInBytes := 5 } ∈ bucketOnly.minuteBuckets :=
    mem_snapshot.mpr ⟨by decide, by decide⟩
  have five := List.single_le_sum (fun _ _ => Nat.zero_le _) _
    (List.mem_map_of_mem (f := Cumulative.udpInBytes.field) shown)
  exact absurd (five.trans le) (by decide)

end RangePorter.StatsRegistry
