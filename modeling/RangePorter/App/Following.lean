import RangePorter.App.Composition
import RangePorter.Listener.TcpCap

/-!
# The registry follows

What the registry does in a step of the application: the update that a caller makes is the
next update of the method it has called. So a run of the application is a run of each of its
parts, and the registry records what the other parts tell it.
-/

namespace RangePorter

open Interleaving

/-- What the updates add to a counter. -/
def amounts (c : Counter) (ops : List CounterOp) : Nat :=
  (ops.map fun op => if op.counter = c then op.amount else 0).sum

section

variable {c : Counter} {op : CounterOp} {ops : List CounterOp}

@[simp] theorem amounts_nil (c : Counter) : amounts c [] = 0 := rfl

@[simp] theorem amounts_cons (c : Counter) (op : CounterOp) (ops : List CounterOp) :
    amounts c (op :: ops) = (if op.counter = c then op.amount else 0) + amounts c ops := by
  simp [amounts]

end

/-- The updates of the method that is called, if one is. -/
def opsOf (called : Option Recording) : List CounterOp := (called.map Recording.ops).getD []

/-- The methods for UDP make one update each. -/
def Recording.single : Recording → Bool
  | tcpAccept | tcpClose | tcpBytes .. => false
  | _ => true

theorem Recording.ops_of_single {recording : Recording} (single : recording.single = true) :
    ∃ op, recording.ops = [op] := by
  cases recording with
  | tcpAccept | tcpClose | tcpBytes => cases single
  | _ => exact ⟨_, rfl⟩

theorem Recording.single_udpOut (bytes : Nat) :
    ∀ recording ∈ some (Recording.udpOut bytes), recording.single = true := by
  rintro _ ⟨⟩
  rfl

theorem take_opsOf {called : Option Recording}
    (single : ∀ recording ∈ called, recording.single = true) :
    (opsOf called).take 1 = opsOf called := by
  cases called with
  | none => rfl
  | some recording =>
      obtain ⟨op, one⟩ := Recording.ops_of_single (single recording rfl)
      rw [opsOf, Option.map_some, Option.getD_some, one]
      rfl

namespace StatsRegistry

/-- The next of the updates that a caller has to make. -/
def recordNext (registry : StatsRegistry) (port : Nat) : List CounterOp → StatsRegistry
  | [] => registry
  | op :: _ => registry.record port op

variable (registry : StatsRegistry) (port : Nat) (ops : List CounterOp)

theorem numbers_recordNext : (registry.recordNext port ops).numbers = registry.numbers := by
  cases ops with
  | nil => rfl
  | cons op ops => exact numbers_record ..

theorem length_recordNext :
    (registry.recordNext port ops).ports.length = registry.ports.length := by
  simpa [numbers] using congrArg List.length (numbers_recordNext registry port ops)

theorem recordedFor_recordNext (i : Nat) (c : Counter) :
    (registry.recordNext port ops).recordedFor i c =
      registry.recordedFor i c + if port = i then amounts c (ops.take 1) else 0 := by
  cases ops with
  | nil => simp [recordNext]
  | cons op ops =>
      rw [recordNext, recordedFor_record]
      by_cases own : port = i <;> simp [own]

end StatsRegistry

namespace App

variable {stats stats' made : Pool StatsRegistry StatsRegistry.Task} {port i : Nat} {c : Counter}
  {op : CounterOp} {ops : List CounterOp} {recording : Recording}

/-! ### What the registry does -/

theorem run_makes (follows : StatsRegistry.machine.run stats (makes stats port (op :: ops)) =
      some stats') :
    ∃ j, stats.threads[j]? = some (.recording port (op :: ops)) ∧
      stats' = ⟨stats.shared.record port op, stats.threads.set j (.recording port ops)⟩ := by
  have taken := Machine.run_singleton.mp follows
  obtain ⟨t, registry, t', new, found, own, rfl⟩ := Program.machine_thread_iff.mp taken
  obtain ⟨bound, same⟩ := List.getElem?_eq_some_iff.mp found
  rw [List.getElem_idxOf] at same
  subst same
  refine ⟨_, found, ?_⟩
  cases own
  rw [List.append_nil]

theorem shared_of_makes
    (follows : StatsRegistry.machine.run stats (makes stats port ops) = some made) :
    made.shared = stats.shared.recordNext port ops := by
  cases ops with
  | nil =>
      cases follows
      rfl
  | cons op ops =>
      obtain ⟨j, -, rfl⟩ := run_makes follows
      rfl

theorem numbers_of_makes
    (follows : StatsRegistry.machine.run stats (makes stats port ops) = some made) :
    made.shared.numbers = stats.shared.numbers ∧
      made.shared.ports.length = stats.shared.ports.length := by
  rw [shared_of_makes follows]
  exact ⟨StatsRegistry.numbers_recordNext .., StatsRegistry.length_recordNext ..⟩

theorem calls_congr (same : stats.shared.numbers = stats'.shared.numbers)
    (called : Option Recording) : calls stats i called = calls stats' i called := by
  cases called with
  | none => rfl
  | some recording => rw [calls, calls, same]

theorem run_calls (distinct : stats.shared.numbers.Nodup) (known : i < stats.shared.ports.length)
    (follows : StatsRegistry.machine.run stats (calls stats i (some recording)) = some stats') :
    stats' = ⟨stats.shared, stats.threads ++ [.recording i recording.ops]⟩ := by
  have here := List.getElem?_eq_getElem known
  simp only [calls, StatsRegistry.numbers, List.getElem?_map, here, Option.map_some,
    Option.toList_some, List.map_singleton] at follows
  have taken := Machine.run_singleton.mp follows
  obtain ⟨registry, new, own, rfl⟩ := Program.machine_env_iff.mp taken
  obtain ⟨j, found, same⟩ := Option.map_eq_some_iff.mp own
  rw [StatsRegistry.port_of_distinct distinct here] at found
  cases found
  cases same
  rfl

theorem run_counts (distinct : stats.shared.numbers.Nodup) (known : i < stats.shared.ports.length)
    (single : recording.ops = [op])
    (follows : StatsRegistry.machine.run stats (counts stats i (some recording)) = some stats') :
    stats' = ⟨stats.shared.record i op, stats.threads ++ [.recording i []]⟩ := by
  obtain ⟨called, first, rest⟩ := Machine.run_append_iff.mp follows
  obtain rfl := run_calls distinct known first
  have taken := Machine.run_singleton.mp rest
  obtain ⟨t, registry, t', new, found, own, rfl⟩ := Program.machine_thread_iff.mp taken
  rw [single, List.getElem?_concat_length, Option.some.injEq] at found
  subst found
  cases own
  simp

/-- The caller makes the next update of its method, and may call another one. -/
theorem shared_makes {called : Option Recording} (distinct : stats.shared.numbers.Nodup)
    (known : port < stats.shared.ports.length)
    (follows : StatsRegistry.machine.run stats (makes stats port ops ++ calls stats port called) =
      some stats') : stats'.shared = stats.shared.recordNext port ops := by
  obtain ⟨made, first, rest⟩ := Machine.run_append_iff.mp follows
  rw [← shared_of_makes first]
  cases called with
  | none =>
      cases rest
      rfl
  | some recording =>
      obtain ⟨numbers, length⟩ := numbers_of_makes first
      rw [calls_congr numbers.symm] at rest
      rw [run_calls (numbers ▸ distinct) (length ▸ known) rest]

/-- A method that makes one update is over in the step that calls it. -/
theorem shared_counts {called : Option Recording}
    (single : ∀ recording ∈ called, recording.single = true)
    (distinct : stats.shared.numbers.Nodup) (known : port < stats.shared.ports.length)
    (follows : StatsRegistry.machine.run stats (counts stats port called) = some stats') :
    stats'.shared = stats.shared.recordNext port (opsOf called) := by
  cases called with
  | none =>
      cases follows
      rfl
  | some recording =>
      obtain ⟨op, one⟩ := Recording.ops_of_single (single recording rfl)
      rw [run_counts distinct known one follows, opsOf, Option.map_some, one]
      rfl

/-! ### A run of each part -/

variable {config : Config.RuntimeConfig} {ascending : config.listenPorts.Pairwise (· < ·)}
  {now : Nat} {app app' : App} {a : Action}

theorem refines_stats :
    machine.Refines StatsRegistry.machine (fun _ => True) App.stats events where
  keeps _ _ _ _ _ := trivial
  step := by
    intro app a app' _ taken
    obtain ⟨moved, -, taken⟩ := Option.bind_eq_some_iff.mp taken
    obtain ⟨stats, follows, rfl⟩ := Option.map_eq_some_iff.mp taken
    exact follows

theorem Step.tcp_eq (taken : Step app a app') : app'.tcp = app.tcp ∨
    ∃ b, RunningApp.machine.step app.tcp b = some app'.tcp := by
  cases taken with
  | cancel own | close own => exact .inr ⟨_, own⟩
  | tcp found own =>
      exact .inr ⟨_, Program.machine_thread_iff.mpr
        ⟨_, _, _, _, found, RunningApp.step_iff.mpr own, rfl⟩⟩
  | _ => exact .inl rfl

/-- The port at this position takes a step, or counts what it has sent, or waits. -/
theorem Step.udp_eq (taken : Step app a app') {u' : Udp} (found : app'.udp[i]? = some u') :
    ∃ u, app.udp[i]? = some u ∧
      (u'.port = u.port ∨ ∃ b, UdpPort.machine.step u.port b = some u'.port) := by
  have replaced : ∀ {j u x}, app.udp[j]? = some u → (app.udp.set j x)[i]? = some u' →
      app.udp[i]? = some u' ∨ app.udp[i]? = some u ∧ u' = x := by
    intro j u x old found
    by_cases own : j = i
    · subst own
      have bound := (List.getElem?_eq_some_iff.mp old).1
      rw [List.getElem?_set_self bound, Option.some.injEq] at found
      exact .inr ⟨old, found.symm⟩
    · rw [List.getElem?_set_ne own] at found
      exact .inl found
  cases taken with
  | cancel own =>
      rw [List.getElem?_map] at found
      obtain ⟨u, old, rfl⟩ := Option.map_eq_some_iff.mp found
      exact ⟨u, old, .inr ⟨.cancel, rfl⟩⟩
  | udp old admitted own =>
      obtain other | ⟨same, rfl⟩ := replaced old found
      · exact ⟨u', other, .inl rfl⟩
      · exact ⟨_, same, .inr ⟨_, own⟩⟩
  | addUdpOut old sent =>
      obtain other | ⟨same, rfl⟩ := replaced old found
      · exact ⟨u', other, .inl rfl⟩
      · exact ⟨_, same, .inl rfl⟩
  | _ => exact ⟨u', found, .inl rfl⟩

/-- In a run of the application each part is in a state of its own runs. -/
structure Parts (config : Config.RuntimeConfig) (ascending : config.listenPorts.Pairwise (· < ·))
    (now : Nat) (app : App) : Prop where
  tcp : RunningApp.machine.Reachable (RunningApp.start (Runtime.listenersView config ascending))
    app.tcp
  udp : ∀ (i : Nat) u, app.udp[i]? = some u → ∃ port, config.listenPorts[i]? = some port ∧
    UdpPort.machine.Reachable (UdpPort.start config.udpIdleTimeout port.toNat now) u.port
  stats : StatsRegistry.machine.Reachable (StatsRegistry.start (config.listenPorts.map BitVec.toNat)
    (.ofList config.target.display) config.statsWindow.toNat now) app.stats

theorem parts (reached : machine.Reachable (start config ascending now) app) :
    Parts config ascending now app := by
  refine reached.invariant (P := Parts config ascending now) ⟨.refl _, ?_, .refl _⟩ ?_
  · intro i u found
    simp only [start, List.getElem?_map] at found
    obtain ⟨port, here, rfl⟩ := Option.map_eq_some_iff.mp found
    exact ⟨port, here, .refl _⟩
  · intro app a app' _ before taken
    have step := Step.of_step taken
    refine ⟨?_, ?_, before.stats.run (refines_stats.step app a app' trivial taken)⟩
    · obtain same | ⟨b, own⟩ := step.tcp_eq
      · rw [same]
        exact before.tcp
      · exact before.tcp.step own
    · intro i u' found
      obtain ⟨u, old, moved⟩ := step.udp_eq found
      obtain ⟨port, here, reached⟩ := before.udp i u old
      refine ⟨port, here, ?_⟩
      obtain same | ⟨b, own⟩ := moved
      · rw [same]
        exact reached
      · exact reached.step own

theorem Parts.numbers (parts : Parts config ascending now app) :
    app.stats.shared.numbers = config.listenPorts.map BitVec.toNat := by
  obtain ⟨as, complete⟩ := parts.stats
  rw [StatsRegistry.numbers_run complete, StatsRegistry.numbers, StatsRegistry.start,
    Runtime.ports_new ascending, List.map_map]
  rfl

theorem Parts.distinct (parts : Parts config ascending now app) :
    app.stats.shared.numbers.Nodup := by
  have sorted : (config.listenPorts.map BitVec.toNat).Pairwise (· < ·) :=
    List.pairwise_map.mpr ascending
  rw [parts.numbers]
  exact sorted.imp fun below => Nat.ne_of_lt below

theorem Parts.length (parts : Parts config ascending now app) :
    app.stats.shared.ports.length = config.listenPorts.length := by
  simpa [StatsRegistry.numbers] using congrArg List.length parts.numbers

theorem Parts.udp_known (parts : Parts config ascending now app) {u : Udp}
    (found : app.udp[i]? = some u) : i < app.stats.shared.ports.length := by
  obtain ⟨port, here, -⟩ := parts.udp i u found
  rw [parts.length]
  exact (List.getElem?_eq_some_iff.mp here).1

theorem Parts.tcp_known (parts : Parts config ascending now app) {t : RunningApp.Task}
    (found : app.tcp.threads[i]? = some t) : t.port < app.stats.shared.ports.length := by
  have counted := ((RunningApp.valid parts.tcp).get found).counted
  rw [RunningApp.stats_length parts.tcp] at counted
  rwa [parts.length]

end App

end RangePorter
