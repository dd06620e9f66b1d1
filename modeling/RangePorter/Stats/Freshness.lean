import RangePorter.Stats.Response

/-!
# What a reading cannot miss

A snapshot, and the last roll-up of `run_rollup`, loads the counters one after the other
while recorders go on. Whatever was recorded before it began it shows, and nothing that is
recorded after its end. So of two answers, the second of which was asked for after the first
had been given, the second shows no less; and what was recorded before the shutdown is in
the buckets when `run_rollup` ends.
-/

namespace RangePorter.StatsRegistry

open Interleaving

variable {listenPorts : List Nat} {target : String} {windowMinutes now : Nat}
  {registry registry' : StatsRegistry} {t t' : Task} {k : Choice} {new : List Task}
  {p q r : Pool StatsRegistry Task} {loading : Loading} {as : List (Action Choice Env)}
  {i n : Nat}

/-- The task answers a request that came when `n` updates had been recorded, or rolls up for
the last time since then. -/
def ReadsSince (n : Nat) (registry : StatsRegistry) : Task → Prop
  | .snapshot loading | .rollup _ loading (.runRollup true) => loading.since = n
  | .copied ports _ => Observes registry ⟨ports, [], n⟩
  | .returned s => Observes registry ⟨s.ports, [], n⟩ ∧ s.totals = aggregateFromSnapshots s.ports
  | .finished => ∃ record ∈ registry.history.rollups, record.started = n
  | _ => False

theorem Step.rollups_mono (taken : Step registry t k registry' t' new) {record : RollupRecord}
    (member : record ∈ registry.history.rollups) : record ∈ registry'.history.rollups := by
  cases taken with
  | rollup => exact List.mem_append_left _ member
  | _ => exact member

theorem ReadsSince.mono (reads : ReadsSince n registry t)
    (same : registry'.ports.length = registry.ports.length)
    (grows : registry.history.recorded <+: registry'.history.recorded)
    (kept : ∀ record ∈ registry.history.rollups, record ∈ registry'.history.rollups) :
    ReadsSince n registry' t := by
  unfold ReadsSince at reads ⊢
  split at reads
  · exact reads
  · exact reads
  · exact reads.mono same grows
  · exact ⟨reads.1.mono same grows, reads.2⟩
  · obtain ⟨record, member, started⟩ := reads
    exact ⟨record, kept record member, started⟩
  · exact reads

theorem Step.readsSince (taken : Step registry t k registry' t' new)
    (observes : ∀ loading, t.reading = some loading → Observes registry loading)
    (reads : ReadsSince n registry t) : ReadsSince n registry' t' := by
  cases taken with
  | @rollupLoad _ _ caller _ _ _ _ pending loaded =>
      obtain ⟨s, -, rfl⟩ := Option.map_eq_some_iff.mp loaded
      cases caller with
      | runRollup last =>
          cases last with
          | true => exact reads
          | false => cases reads
      | user => cases reads
  | @rollup now loading caller pending =>
      cases caller with
      | runRollup last =>
          cases last with
          | true => exact ⟨_, List.mem_append_right _ (List.mem_singleton_self _), reads⟩
          | false => cases reads
      | user => cases reads
  | snapshotLoad pending loaded =>
      obtain ⟨s, -, rfl⟩ := Option.map_eq_some_iff.mp loaded
      exact reads
  | @copy loading pending =>
      have observed := observes loading rfl
      obtain rfl : loading.since = n := reads
      show Observes registry ⟨loading.snapshots, [], loading.since⟩
      exact pending ▸ observed
  | stamp => exact ⟨reads, rfl⟩
  | _ => cases reads

/-- A reading goes on since its beginning, whatever the other tasks do. -/
theorem readsSince_run (reached : machine.Reachable (start listenPorts target windowMinutes now) q)
    (found : q.threads[i]? = some t) (reads : ReadsSince n q.shared t)
    (complete : machine.run q as = some r) :
    ∃ t', r.threads[i]? = some t' ∧ ReadsSince n r.shared t' := by
  have both := Machine.invariant_run (M := machine)
    (P := fun p => machine.Reachable (start listenPorts target windowMinutes now) p ∧
      ∃ t, p.threads[i]? = some t ∧ ReadsSince n p.shared t) ?_ ⟨reached, t, found, reads⟩ complete
  · exact both.2
  · rintro p a p' ⟨before, t, found, reads⟩ taken
    refine ⟨before.step taken, ?_⟩
    cases a with
    | thread j k =>
        obtain ⟨u, registry', u', new, there, own, rfl⟩ := Program.machine_thread_iff.mp taken
        have step := step_iff.mp own
        have bound := (List.getElem?_eq_some_iff.mp there).1
        by_cases same : i = j
        · subst same
          cases found.symm.trans there
          exact ⟨u', lookup_self bound, step.readsSince ((observes before).get found) reads⟩
        · exact ⟨t, lookup_other found same,
            reads.mono step.ports_length step.recorded fun _ => step.rollups_mono⟩
    | env e =>
        obtain ⟨registry', new, own, rfl⟩ := Program.machine_env_iff.mp taken
        refine ⟨t, lookup_append found, ?_⟩
        rwa [show registry' = p.shared from env_registry own]

/-! ### Answers -/

/-- An answer that was asked for in `p` and had been given in `r`. -/
structure Fresh (p r : Pool StatsRegistry Task) (s : StatsSnapshot) : Prop where
  ports : ∀ i < p.shared.ports.length, ∀ c : Counter, c.gauge = false →
    ∃ snapshot value, s.ports[i]? = some snapshot ∧ snapshot.get c = value % u64Size ∧
      p.shared.recordedFor i c ≤ value ∧ value ≤ r.shared.recordedFor i c
  totals : ∀ c : Counter, c.gauge = false → ∃ sum, s.totals.get c = sum % u64Size ∧
    p.shared.trueSum c ≤ sum ∧ sum ≤ r.shared.trueSum c
  /-- Nothing goes back from an answer given before. -/
  ascends : ∀ older, .returned older ∈ p.threads → ∀ c : Counter, c.gauge = false →
    r.shared.trueSum c < u64Size → older.totals.get c ≤ s.totals.get c ∧
      ∀ (i : Nat) a b, older.ports[i]? = some a → s.ports[i]? = some b → a.get c ≤ b.get c

theorem answer_observed {s : StatsSnapshot}
    (reached : machine.Reachable (start listenPorts target windowMinutes now) p)
    (called : machine.step p (.env .snapshot) = some q) (complete : machine.run q as = some r)
    (returned : r.threads[p.threads.length]? = some (.returned s)) :
    Observes r.shared ⟨s.ports, [], p.shared.history.recorded.length⟩ ∧
      s.totals = aggregateFromSnapshots s.ports := by
  have later := reached.step called
  obtain ⟨registry, new, own, rfl⟩ := Program.machine_env_iff.mp called
  cases own
  have begun : ReadsSince p.shared.history.recorded.length p.shared
      (.snapshot p.shared.load) := rfl
  have asked : (p.threads ++ [Task.snapshot p.shared.load])[p.threads.length]? =
      some (.snapshot p.shared.load) := by
    simp
  obtain ⟨t, found, reads⟩ := readsSince_run later asked begun complete
  cases returned.symm.trans found
  exact reads

/-- What had been recorded first is still the first that was recorded. -/
theorem take_recorded (complete : machine.run p as = some r) :
    r.shared.history.recorded.take p.shared.history.recorded.length =
      p.shared.history.recorded := by
  rw [take_of_grows (grows_run complete).1 (Nat.le_refl _), List.take_length]

/-- A reading since `p` that is complete in `r`, port by port. -/
theorem Observes.ports_between {ports : List PortSnapshot} (complete : machine.run p as = some r)
    (observed : Observes r.shared ⟨ports, [], p.shared.history.recorded.length⟩) (i : Nat)
    (bound : i < p.shared.ports.length) (c : Counter) (cumulative : c.gauge = false) :
    ∃ snapshot value, ports[i]? = some snapshot ∧ snapshot.get c = value % u64Size ∧
      p.shared.recordedFor i c ≤ value ∧ value ≤ r.shared.recordedFor i c := by
  obtain waits | ⟨snapshot, m, there, low, -, value⟩ :=
    observed.seen i ((grows_run complete).2.symm ▸ bound) c cumulative
  · cases waits
  · refine ⟨snapshot, _, there, value, ?_, recordedOf_mono (List.take_prefix ..)⟩
    rw [recordedFor, ← take_recorded complete]
    exact recordedOf_mono (take_prefix_take _ low)

theorem answers_fresh {s : StatsSnapshot}
    (reached : machine.Reachable (start listenPorts target windowMinutes now) p)
    (called : machine.step p (.env .snapshot) = some q) (complete : machine.run q as = some r)
    (returned : r.threads[p.threads.length]? = some (.returned s)) : Fresh p r s := by
  obtain ⟨observed, aggregated⟩ := answer_observed reached called complete returned
  have whole : machine.run p (.env .snapshot :: as) = some r :=
    Machine.run_cons_iff.mpr ⟨q, called, complete⟩
  have same := (grows_run whole).2
  have ports := observed.ports_between whole
  have totals : ∀ c : Counter, c.gauge = false → ∃ sum, s.totals.get c = sum % u64Size ∧
      p.shared.trueSum c ≤ sum ∧ sum ≤ r.shared.trueSum c := by
    intro c cumulative
    obtain ⟨sum, value, low, high⟩ := observed.between rfl c cumulative
    rw [take_recorded whole, same] at low
    rw [List.take_length] at high
    exact ⟨sum, aggregated ▸ value, low, high⟩
  refine ⟨ports, totals, ?_⟩
  intro older member c cumulative fits
  have answered := (answers reached) _ member
  obtain ⟨since, seen⟩ := answered.observed _ _ rfl
  constructor
  · obtain ⟨sum, value, low, high⟩ := totals c cumulative
    obtain ⟨sum', value', -, high'⟩ := seen.between rfl c cumulative
    rw [List.take_length] at high'
    calc
      older.totals.get c = sum' % u64Size := by rw [answered.aggregated older rfl, value']
      _ ≤ sum' := Nat.mod_le ..
      _ ≤ p.shared.trueSum c := high'
      _ ≤ sum := low
      _ = s.totals.get c := by rw [value, Nat.mod_eq_of_lt (high.trans_lt fits)]
  · intro i a b there there'
    have bound : i < p.shared.ports.length := by
      rw [← seen.length_eq]
      exact (List.getElem?_eq_some_iff.mp there).1
    obtain ⟨snapshot, value, own, equal, low, high⟩ := ports i bound c cumulative
    cases there'.symm.trans own
    obtain waits | ⟨snapshot', m, own', -, -, equal'⟩ := seen.seen i bound c cumulative
    · cases waits
    · cases there.symm.trans own'
      have small : value < u64Size :=
        (high.trans (recordedOf_le_total (same.symm ▸ bound))).trans_lt fits
      calc
        a.get c = recordedOf (p.shared.history.recorded.take m) i c % u64Size := equal'
        _ ≤ recordedOf (p.shared.history.recorded.take m) i c := Nat.mod_le ..
        _ ≤ p.shared.recordedFor i c := recordedOf_mono (List.take_prefix ..)
        _ ≤ value := low
        _ = b.get c := by rw [equal, Nat.mod_eq_of_lt small]

/-- A request comes after one datagram has been counted; another one is counted later. -/
def asked : Pool StatsRegistry Task :=
  (machine.run (start [9000] "localhost:53" 3 60)
    [.env (.record 9000 (.udpIn 5)), .thread 1 .go]).get (by decide)

def loads : List (Action Choice Env) :=
  List.replicate 10 (.thread 2 .go) ++
    [.env (.record 9000 (.udpIn 7)), .thread 3 .go, .thread 2 (.clock 61)]

theorem asked_accepted : (machine.step asked (.env .snapshot)).isSome := by decide

theorem loads_accepted :
    (machine.run ((machine.step asked (.env .snapshot)).get asked_accepted) loads).isSome := by
  decide

/-- The answer shows the first of the two. -/
def oneOfTwo : StatsSnapshot where
  target := "localhost:53"
  startedAtEpoch := 60
  generatedAtEpoch := 61
  windowMinutes := 3
  totals := { AggregateTotals.default with udpInBytes := 5 }
  ports := [{ PortSnapshot.blank 9000 with udpInBytes := 5 }]
  minuteBuckets := (BucketRing.new 3).snapshot

theorem answers_fresh_oneOfTwo :
    Fresh asked ((machine.run ((machine.step asked (.env .snapshot)).get asked_accepted) loads).get
      loads_accepted) oneOfTwo :=
  answers_fresh (Machine.reachable_get _) (Option.some_get _).symm (Option.some_get _).symm rfl

/-! ### The last roll-up -/

/-- Of roll-ups in turn, the last one began no earlier than any other. -/
theorem InTurn.started_le {record last : RollupRecord} (turn : InTurn p)
    (recorded : Recorded windowMinutes p.shared) (member : record ∈ p.shared.history.rollups)
    (final : p.shared.history.rollups.getLast? = some last) : record.started ≤ last.started := by
  obtain ⟨before, split⟩ := List.getLast?_eq_some_iff.mp final
  have ordered := turn.ordered
  have ends := (recorded.reading record member).1
  rw [split] at ordered member
  obtain earlier | same := List.mem_append.mp member
  · exact ends.trans
      ((List.pairwise_append.mp ordered).2.2 record earlier last (List.mem_singleton_self _))
  · rw [List.mem_singleton.mp same]

/-- A roll-up that began when `n` updates had been recorded puts all of these into the
buckets. -/
theorem recordedTotal_le_collected {c : Cumulative} {record : RollupRecord} (turn : InTurn p)
    (recorded : Recorded windowMinutes p.shared) (fits : p.shared.trueSum c.counter < u64Size)
    (member : record ∈ p.shared.history.rollups) :
    recordedTotal p.shared.ports.length
      (p.shared.history.recorded.take record.started) c.counter ≤ p.shared.collected c := by
  cases final : p.shared.history.rollups.getLast? with
  | none =>
      rw [List.getLast?_eq_none_iff.mp final] at member
      cases member
  | some last =>
      obtain ⟨-, -, between⟩ := recorded.reading last (List.mem_of_getLast? final)
      have totals : lastTotals p.shared.calls = last.call.totals := by
        simp [lastTotals, calls, final]
      calc
        _ ≤ recordedTotal p.shared.ports.length
              (p.shared.history.recorded.take last.started) c.counter :=
            recordedTotal_mono (take_prefix_take _ (turn.started_le recorded member final))
        _ ≤ last.call.totals.get c.counter :=
            (between.of_fits (cumulative_counter c) fits).1
        _ = p.shared.collected c := by rw [collected_eq turn recorded fits, totals]

/-- Within one window the buckets shown are all there is. -/
theorem sum_shown {c : Cumulative} (turn : InTurn p) (recorded : Recorded windowMinutes p.shared)
    (fits : p.shared.trueSum c.counter < u64Size)
    (ordered : p.shared.calls.Pairwise fun a b => a.nowEpochSeconds ≤ b.nowEpochSeconds)
    (late : ∀ call ∈ p.shared.calls, 60 ≤ call.nowEpochSeconds)
    (near : ∀ first ∈ p.shared.calls.head?, ∀ last ∈ p.shared.calls.getLast?,
      last.nowEpochSeconds / 60 - first.nowEpochSeconds / 60 < max windowMinutes 1) :
    (p.shared.buckets.snapshot.map c.field).sum = p.shared.collected c := by
  have buckets : p.shared.buckets = (rollups windowMinutes p.shared.calls).1 :=
    congrArg Prod.fst recorded.ring
  have small := (lastTotals_le recorded (cumulative_counter c)).trans_lt fits
  rw [buckets, collected_eq turn recorded fits]
  exact sum_snapshot (withinWindow ordered late near) (untruncated turn recorded fits) small

/-- The buckets in `r` hold what had been recorded in `p`. -/
structure RollsUpAll (windowMinutes : Nat) (p r : Pool StatsRegistry Task) (c : Cumulative) :
    Prop where
  low : p.shared.trueSum c.counter ≤ r.shared.collected c
  high : r.shared.collected c ≤ r.shared.trueSum c.counter
  /-- A window long enough shows all of it. -/
  shown : r.shared.calls.Pairwise (fun a b => a.nowEpochSeconds ≤ b.nowEpochSeconds) →
    (∀ call ∈ r.shared.calls, 60 ≤ call.nowEpochSeconds) →
    (∀ first ∈ r.shared.calls.head?, ∀ last ∈ r.shared.calls.getLast?,
      last.nowEpochSeconds / 60 - first.nowEpochSeconds / 60 < max windowMinutes 1) →
    (r.shared.buckets.snapshot.map c.field).sum = r.shared.collected c

theorem rolls_up_all {bs : List (Action Choice Env)} {stop : Nat}
    (alone : ∀ a ∈ as ++ .thread i (.shutdown stop) :: bs, sequential a = true)
    (before : machine.run (start listenPorts target windowMinutes now) as = some p)
    (after : machine.run p (.thread i (.shutdown stop) :: bs) = some r)
    (finished : r.threads[i]? = some .finished) (c : Cumulative)
    (fits : r.shared.trueSum c.counter < u64Size) : RollsUpAll windowMinutes p r c := by
  have whole : machine.run (start listenPorts target windowMinutes now)
      (as ++ .thread i (.shutdown stop) :: bs) = some r := Machine.run_trans before after
  have turn := inTurn alone whole
  have records := recorded ⟨_, whole⟩
  obtain ⟨q, taken, rest⟩ := Machine.run_cons_iff.mp after
  have reached : machine.Reachable (start listenPorts target windowMinutes now) q :=
    Machine.Reachable.step ⟨as, before⟩ taken
  obtain ⟨t, registry, t', new, found, own, rfl⟩ := Program.machine_thread_iff.mp taken
  cases step_iff.mp own
  have begun : ReadsSince p.shared.history.recorded.length p.shared
      (.rollup stop p.shared.load (.runRollup true)) := rfl
  have bound := (List.getElem?_eq_some_iff.mp found).1
  obtain ⟨t, found', reads⟩ := readsSince_run reached (lookup_self bound) begun rest
  cases finished.symm.trans found'
  obtain ⟨record, member, started⟩ := reads
  have low := recordedTotal_le_collected turn records fits member
  rw [started, take_recorded after, (grows_run after).2] at low
  refine ⟨low, ?_, sum_shown turn records fits⟩
  rw [collected_eq turn records fits]
  exact lastTotals_le records (cumulative_counter c)

/-- One datagram is counted, and then the program shuts down. -/
def lastDatagram : List (Action Choice Env) :=
  .thread 0 (.shutdown 60) :: List.replicate 10 (.thread 0 .go)

theorem lastDatagram_accepted : (machine.run asked lastDatagram).isSome := by decide

theorem rolls_up_all_lastDatagram :
    RollsUpAll 3 asked ((machine.run asked lastDatagram).get lastDatagram_accepted) .udpInBytes :=
  have counted : machine.run (start [9000] "localhost:53" 3 60)
      [.env (.record 9000 (.udpIn 5)), .thread 1 .go] = some asked := (Option.some_get _).symm
  rolls_up_all (by decide) counted (Option.some_get _).symm rfl .udpInBytes (by decide)

end RangePorter.StatsRegistry
