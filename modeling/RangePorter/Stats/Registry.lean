import RangePorter.Interleaving.Pool
import RangePorter.Stats.Bucket
import Mathlib.Data.List.Dedup
import Mathlib.Data.List.Sort

/-!
# The registry shared by recorders, roll-ups and readers

Any task may call a recording method of a port, roll up, or take a snapshot. Every
counter update and every load of a counter is a step of its own. A roll-up and a
snapshot load port by port and field by field, outside of any lock; what a roll-up
does under its two locks is one step, and so is the copy of the ring under its lock.

`run_rollup` is the task that rolls up once a second, and once more when it is shut
down. The epoch of a roll-up is what the clock shows there, so it is part of the
choice.

`RegistryHistory` is no part of the program, and neither is `Loading.since`. Positions
in the list of recorded updates serve as times.
-/

namespace RangePorter

open Interleaving

/-- A finished `rollup_at_epoch` call, with the times when it began to load and when it
left its locks. -/
structure RollupRecord where
  call : RollupCall
  started : Nat
  finished : Nat
  deriving DecidableEq, Repr

structure RegistryHistory where
  /-- Every counter update, with the position of its port. -/
  recorded : List (Nat × CounterOp)
  rollups : List RollupRecord
  deriving DecidableEq, Repr

structure StatsRegistry where
  target : String
  startedAtEpoch : Nat
  windowMinutes : Nat
  /-- The values of the source's map, in the order of their ports. -/
  ports : List PortStats
  buckets : BucketRing
  previousTotals : AggregateTotals
  history : RegistryHistory
  deriving DecidableEq

structure StatsSnapshot where
  target : String
  startedAtEpoch : Nat
  generatedAtEpoch : Nat
  windowMinutes : Nat
  totals : AggregateTotals
  ports : List PortSnapshot
  minuteBuckets : List MinuteBucket
  deriving DecidableEq

/-- `aggregate_from_snapshots` adds up field by field. -/
def AggregateTotals.add (totals : AggregateTotals) (snapshot : PortSnapshot) : AggregateTotals where
  tcpAccepted := wrappingAdd totals.tcpAccepted snapshot.tcpAccepted
  tcpActive := wrappingAdd totals.tcpActive snapshot.tcpActive
  tcpClosed := wrappingAdd totals.tcpClosed snapshot.tcpClosed
  udpActiveFlows := wrappingAdd totals.udpActiveFlows snapshot.udpActiveFlows
  tcpInBytes := wrappingAdd totals.tcpInBytes snapshot.tcpInBytes
  tcpOutBytes := wrappingAdd totals.tcpOutBytes snapshot.tcpOutBytes
  udpInBytes := wrappingAdd totals.udpInBytes snapshot.udpInBytes
  udpOutBytes := wrappingAdd totals.udpOutBytes snapshot.udpOutBytes
  udpDropped := wrappingAdd totals.udpDropped snapshot.udpDropped

theorem AggregateTotals.get_add (totals : AggregateTotals) (snapshot : PortSnapshot) (c : Counter) :
    (totals.add snapshot).get c = wrappingAdd (totals.get c) (snapshot.get c) := by
  cases c <;> rfl

def aggregateFromSnapshots (portSnapshots : List PortSnapshot) : AggregateTotals :=
  portSnapshots.foldl .add .default

theorem get_aggregate (portSnapshots : List PortSnapshot) (c : Counter) :
    (aggregateFromSnapshots portSnapshots).get c =
      (portSnapshots.map fun snapshot => snapshot.get c).sum % u64Size := by
  induction portSnapshots using List.reverseRecOn with
  | nil => simp [aggregateFromSnapshots]
  | append_singleton portSnapshots snapshot ih =>
      rw [aggregateFromSnapshots, List.foldl_append, List.foldl_cons, List.foldl_nil,
        AggregateTotals.get_add]
      rw [aggregateFromSnapshots] at ih
      rw [ih, wrappingAdd, Nat.mod_add_mod]
      simp

/-- The loads of all ports in progress: what is loaded, and the fields still to load. -/
structure Loading where
  snapshots : List PortSnapshot
  pending : List (Nat × Counter)
  since : Nat
  deriving DecidableEq, Repr

/-- The counter of this port is still to be loaded. -/
def Loading.awaits (loading : Loading) (i : Nat) (c : Counter) : Bool :=
  (i, c) ∈ loading.pending

/-- Where `rollup_at_epoch` returns to: the loop of `run_rollup`, or its end. -/
inductive RollupCaller where
  | runRollup (last : Bool)
  | user
  deriving DecidableEq, Repr

namespace StatsRegistry

inductive Task where
  /-- A recording method with the counter updates it has still to make. -/
  | recording (port : Nat) (ops : List CounterOp)
  | runRollup
  | rollup (nowEpochSeconds : Nat) (loading : Loading) (caller : RollupCaller)
  | snapshot (loading : Loading)
  /-- `StatsRegistry::snapshot`, once it has copied the ring. -/
  | copied (ports : List PortSnapshot) (minuteBuckets : List MinuteBucket)
  | returned (snapshot : StatsSnapshot)
  | finished
  deriving DecidableEq

inductive Choice where
  | go
  /-- `interval.tick()`, at this time. -/
  | tick (now : Nat)
  /-- `shutdown.cancelled()`, at this time. -/
  | shutdown (now : Nat)
  /-- The clock reads this. -/
  | clock (now : Nat)
  deriving DecidableEq, Repr

inductive Env where
  /-- A recording method of this port is called. -/
  | record (port : Nat) (recording : Recording)
  /-- A task other than `run_rollup` calls `rollup_at_epoch`, or `rollup_now` at this time. -/
  | rollupAtEpoch (now : Nat)
  | snapshot
  deriving DecidableEq, Repr

def new (listenPorts : List Nat) (target : String) (windowMinutes now : Nat) : StatsRegistry where
  target := target
  startedAtEpoch := now
  windowMinutes := windowMinutes
  ports := (listenPorts.dedup.insertionSort (· ≤ ·)).map .new
  buckets := .new windowMinutes
  previousTotals := .default
  history := ⟨[], []⟩

/-- The position of a port. The source's `port` panics if there is none. -/
def port (registry : StatsRegistry) (port : Nat) : Option Nat :=
  registry.ports.findIdx? fun s => s.port == port

/-! ### Single operations -/

@[simp] def record (registry : StatsRegistry) (i : Nat) (op : CounterOp) : StatsRegistry :=
  { registry with
    ports := registry.ports.modify i fun s => s.apply op
    history := { registry.history with recorded := registry.history.recorded ++ [(i, op)] } }

/-- Start to load all ports. -/
def load (registry : StatsRegistry) : Loading where
  snapshots := registry.ports.map fun s => .blank s.port
  pending := (List.range registry.ports.length).flatMap fun i =>
    PortStats.loadOrder.map fun c => (i, c)
  since := registry.history.recorded.length

/-- Load one counter. -/
def loadNext (registry : StatsRegistry) (loading : Loading) (i : Nat) (c : Counter)
    (rest : List (Nat × Counter)) : Option Loading :=
  registry.ports[i]?.map fun s =>
    { loading with
      snapshots := loading.snapshots.modify i fun snapshot => snapshot.set c (s.load c)
      pending := rest }

/-- `buckets.rollup` under the locks of the ring and of the previous totals. -/
@[simp] def rollup (registry : StatsRegistry) (nowEpochSeconds : Nat) (loading : Loading) :
    StatsRegistry :=
  let totals := aggregateFromSnapshots loading.snapshots
  let rolled := registry.buckets.rollup nowEpochSeconds totals registry.previousTotals
  { registry with
    buckets := rolled.1
    previousTotals := rolled.2
    history := { registry.history with
      rollups := registry.history.rollups ++
        [⟨⟨nowEpochSeconds, totals⟩, loading.since, registry.history.recorded.length⟩] } }

def statsSnapshot (registry : StatsRegistry) (ports : List PortSnapshot)
    (minuteBuckets : List MinuteBucket) (now : Nat) : StatsSnapshot where
  target := registry.target
  startedAtEpoch := registry.startedAtEpoch
  generatedAtEpoch := now
  windowMinutes := registry.windowMinutes
  totals := aggregateFromSnapshots ports
  ports := ports
  minuteBuckets := minuteBuckets

end StatsRegistry

open StatsRegistry (Task)

def RollupCaller.resume : RollupCaller → Task
  | .runRollup false => .runRollup
  | .runRollup true => .finished
  | .user => .finished

@[elab_as_elim]
theorem RollupCaller.resume_cases {motive : Task → Prop} {caller : RollupCaller}
    (runRollup : motive .runRollup) (finished : motive .finished) : motive caller.resume := by
  cases caller with
  | runRollup last =>
      cases last with
      | false => exact runRollup
      | true => exact finished
  | user => exact finished

namespace StatsRegistry

/-! ### Steps -/

/-- One atomic step of a task. -/
def step (registry : StatsRegistry) : Task → Choice → Option (StatsRegistry × Task × List Task)
  | .recording i (op :: ops), .go => some (registry.record i op, .recording i ops, [])
  | .runRollup, .tick now => some (registry, .rollup now registry.load (.runRollup false), [])
  | .runRollup, .shutdown now => some (registry, .rollup now registry.load (.runRollup true), [])
  | .rollup now loading caller, .go =>
      match loading.pending with
      | (i, c) :: rest =>
          (registry.loadNext loading i c rest).map fun next =>
            (registry, .rollup now next caller, [])
      | [] => some (registry.rollup now loading, caller.resume, [])
  | .snapshot loading, .go =>
      match loading.pending with
      | (i, c) :: rest =>
          (registry.loadNext loading i c rest).map fun next => (registry, .snapshot next, [])
      | [] => some (registry, .copied loading.snapshots registry.buckets.snapshot, [])
  | .copied ports minuteBuckets, .clock now =>
      some (registry, .returned (registry.statsSnapshot ports minuteBuckets now), [])
  | _, _ => none

/-- Calls may start at any time. -/
def env (registry : StatsRegistry) : Env → Option (StatsRegistry × List Task)
  | .record port recording =>
      (registry.port port).map fun i => (registry, [.recording i recording.ops])
  | .rollupAtEpoch now => some (registry, [.rollup now registry.load .user])
  | .snapshot => some (registry, [.snapshot registry.load])

def program : Program StatsRegistry Task Choice Env := ⟨step, env⟩

/-- All interleavings over one registry. -/
def machine : Machine (Pool StatsRegistry Task) (Action Choice Env) := program.machine

/-- A new registry and its `run_rollup` task. -/
def start (listenPorts : List Nat) (target : String) (windowMinutes now : Nat) :
    Pool StatsRegistry Task :=
  ⟨new listenPorts target windowMinutes now, [.runRollup]⟩

/-! ### What one step can do -/

inductive Step (registry : StatsRegistry) :
    Task → Choice → StatsRegistry → Task → List Task → Prop where
  | record {i op ops} :
      Step registry (.recording i (op :: ops)) .go (registry.record i op) (.recording i ops) []
  | tick {now} :
      Step registry .runRollup (.tick now) registry
        (.rollup now registry.load (.runRollup false)) []
  | shutdown {now} :
      Step registry .runRollup (.shutdown now) registry
        (.rollup now registry.load (.runRollup true)) []
  | rollupLoad {now loading caller i c rest next} (pending : loading.pending = (i, c) :: rest)
      (loaded : registry.loadNext loading i c rest = some next) :
      Step registry (.rollup now loading caller) .go registry (.rollup now next caller) []
  | rollup {now loading caller} (pending : loading.pending = []) :
      Step registry (.rollup now loading caller) .go (registry.rollup now loading)
        caller.resume []
  | snapshotLoad {loading i c rest next} (pending : loading.pending = (i, c) :: rest)
      (loaded : registry.loadNext loading i c rest = some next) :
      Step registry (.snapshot loading) .go registry (.snapshot next) []
  | copy {loading} (pending : loading.pending = []) :
      Step registry (.snapshot loading) .go registry
        (.copied loading.snapshots registry.buckets.snapshot) []
  | stamp {ports minuteBuckets now} :
      Step registry (.copied ports minuteBuckets) (.clock now) registry
        (.returned (registry.statsSnapshot ports minuteBuckets now)) []

/-- The task a call starts. -/
inductive Call (registry : StatsRegistry) : Env → Task → Prop where
  | record {port recording i} (known : registry.port port = some i) :
      Call registry (.record port recording) (.recording i recording.ops)
  | rollupAtEpoch {now} : Call registry (.rollupAtEpoch now) (.rollup now registry.load .user)
  | snapshot : Call registry .snapshot (.snapshot registry.load)

variable {registry registry' : StatsRegistry} {t t' : Task} {k : Choice} {new : List Task} {e : Env}

theorem Step.of_step (taken : registry.step t k = some (registry', t', new)) :
    Step registry t k registry' t' new := by
  unfold step at taken
  split at taken
  · cases taken
    exact .record
  · cases taken
    exact .tick
  · cases taken
    exact .shutdown
  · split at taken
    · rename_i pending
      obtain ⟨next, loaded, same⟩ := Option.map_eq_some_iff.mp taken
      cases same
      exact .rollupLoad pending loaded
    · rename_i pending
      cases taken
      exact .rollup pending
  · split at taken
    · rename_i pending
      obtain ⟨next, loaded, same⟩ := Option.map_eq_some_iff.mp taken
      cases same
      exact .snapshotLoad pending loaded
    · rename_i pending
      cases taken
      exact .copy pending
  · cases taken
    exact .stamp
  · cases taken

theorem Step.to_step (taken : Step registry t k registry' t' new) :
    registry.step t k = some (registry', t', new) := by
  cases taken with
  | rollupLoad pending loaded => simp [step, pending, loaded]
  | rollup pending => simp [step, pending]
  | snapshotLoad pending loaded => simp [step, pending, loaded]
  | copy pending => simp [step, pending]
  | _ => rfl

theorem step_iff : registry.step t k = some (registry', t', new) ↔
    Step registry t k registry' t' new :=
  ⟨.of_step, Step.to_step⟩

theorem env_iff : registry.env e = some (registry', new) ↔
    registry' = registry ∧ ∃ t, new = [t] ∧ Call registry e t := by
  constructor
  · intro taken
    cases e with
    | record port recording =>
        obtain ⟨i, known, same⟩ := Option.map_eq_some_iff.mp taken
        cases same
        exact ⟨rfl, _, rfl, .record known⟩
    | rollupAtEpoch =>
        cases taken
        exact ⟨rfl, _, rfl, .rollupAtEpoch⟩
    | snapshot =>
        cases taken
        exact ⟨rfl, _, rfl, .snapshot⟩
  · rintro ⟨rfl, t, rfl, call⟩
    cases call with
    | record known => simp [env, known]
    | _ => rfl

end StatsRegistry

end RangePorter
