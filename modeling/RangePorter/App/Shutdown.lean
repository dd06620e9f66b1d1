import RangePorter.App.Matching
import RangePorter.Listener.TcpShutdown
import RangePorter.Listener.UdpShutdown
import RangePorter.Stats.Work

/-!
# Shutting down the application

`RunningApp::shutdown` cancels the token and closes the semaphore. The listeners, the
connections, the UDP side of every port and the tasks of the registry then come to their end
beside each other: none of them holds another one up, and each uses up its own work. At the
end the registry has recorded all that the others have done.
-/

namespace RangePorter

open Interleaving

namespace UdpPort

variable {port port' : UdpPort} {action : Action}

/-- A packet that is sent was work for the sender. -/
theorem Step.sends_work (taken : Step port action port') (le : work port' ≤ work port) :
    work port' + (port.sends action).length ≤ work port := by
  have silent (none : port.sends action = []) :
      work port' + (port.sends action).length ≤ work port := by
    rw [none]
    exact le
  cases taken with
  | @flush batch start result flushing within =>
      have sender : workOfSender (port.flushed batch start result).sender +
          (port.sends (.flush result)).length ≤ workOfSender port.sender := by
        rw [flushing]
        cases result with
        | error error =>
            have kept := flushed_work batch start (.error error) port
            simp only [sends, flushing, Except.toOption, Option.getD_none, List.take_zero,
              List.map_nil, List.length_nil]
            omega
        | ok sent =>
            have most : sent ≤ batch.length - start := within
            cases sent with
            | zero => simp [flushed, flushNext, sends, flushing, Except.toOption, workOfSender]
            | succ sent =>
                simp only [flushed, flushNext, sends, flushing, Except.toOption,
                  Option.getD_some, List.length_map, List.length_take, List.length_drop]
                split <;> simp only [workOfSender] <;> omega
      simp only [work, UdpPort.workAt, capacity, undispatched, flushed] at sender ⊢
      omega
  | @loopEnds action task ref table loop cause own =>
      obtain ⟨rfl, -⟩ | ⟨rfl | ⟨error, rfl⟩, -⟩ := cause <;> exact silent rfl
  | _ => exact silent rfl

end UdpPort

namespace App

variable {config : Config.RuntimeConfig} {ascending : config.listenPorts.Pairwise (· < ·)}
  {now : Nat} {app app' : App} {a : Action}

/-- Any step that does not merely copy data or make a failed call again. -/
def settles : Action → Bool
  | .tcp i k => RunningApp.settles (.thread i k)
  | .udp _ action => UdpPort.settles action
  | .addUdpOut _ | .stats .. => true
  | _ => false

/-- Nothing comes in for UDP, no snapshot is asked for, and the interval of `run_rollup` does
not tick. -/
def calm (app : App) : Action → Bool
  | .udp i action => app.udp[i]?.all fun u => u.port.calm action
  | .stats _ k => !k.ticks
  | .snapshot => false
  | _ => true

/-- The application while nothing comes in. -/
def calmMachine : Machine App Action := machine.only calm

/-! ### The work that is left -/

/-- A packet to be sent is also to be counted. -/
def Udp.work (u : Udp) : Nat := 2 * u.port.work + u.uncounted.length

/-- The work of the registry's tasks. -/
def workOfStats (stats : Pool StatsRegistry StatsRegistry.Task) : Nat :=
  weight (StatsRegistry.workOf stats.shared.toLoad) stats.threads

def work (app : App) : Nat :=
  RunningApp.work app.tcp + weight Udp.work app.udp + workOfStats app.stats

section

variable {stats stats' made : Pool StatsRegistry StatsRegistry.Task} {port : Nat}
  {ops : List CounterOp} {called : Option Recording}

theorem workOfStats_makes
    (follows : StatsRegistry.machine.run stats (makes stats port ops) = some made) :
    workOfStats made = workOfStats stats := by
  rw [workOfStats, StatsRegistry.toLoad_congr (numbers_of_makes follows).2]
  cases ops with
  | nil =>
      cases follows
      rfl
  | cons op ops =>
      obtain ⟨j, found, rfl⟩ := run_makes follows
      exact weight_set (StatsRegistry.workOf stats.shared.toLoad) (.recording port ops) found

theorem workOfStats_calls (distinct : stats.shared.numbers.Nodup)
    (known : port < stats.shared.ports.length)
    (follows : StatsRegistry.machine.run stats (calls stats port called) = some stats') :
    workOfStats stats' = workOfStats stats := by
  cases called with
  | none =>
      cases follows
      rfl
  | some recording =>
      rw [run_calls distinct known follows]
      exact weight_append ..

theorem workOfStats_makes_calls (distinct : stats.shared.numbers.Nodup)
    (known : port < stats.shared.ports.length)
    (follows : StatsRegistry.machine.run stats (makes stats port ops ++ calls stats port called) =
      some stats') : workOfStats stats' = workOfStats stats := by
  obtain ⟨made, first, rest⟩ := Machine.run_append_iff.mp follows
  obtain ⟨numbers, length⟩ := numbers_of_makes first
  rw [calls_congr numbers.symm] at rest
  rw [workOfStats_calls (numbers ▸ distinct) (length ▸ known) rest, workOfStats_makes first]

theorem workOfStats_counts (single : ∀ recording ∈ called, recording.single = true)
    (distinct : stats.shared.numbers.Nodup) (known : port < stats.shared.ports.length)
    (follows : StatsRegistry.machine.run stats (counts stats port called) = some stats') :
    workOfStats stats' = workOfStats stats := by
  cases called with
  | none =>
      cases follows
      rfl
  | some recording =>
      obtain ⟨op, one⟩ := Recording.ops_of_single (single recording rfl)
      rw [run_counts distinct known one follows, workOfStats, workOfStats]
      have same : (stats.shared.record port op).toLoad = stats.shared.toLoad :=
        StatsRegistry.toLoad_congr (by simp)
      rw [same]
      exact weight_append ..

theorem workOfStats_step {i : Nat} {k : StatsRegistry.Choice} (admitted : app.admits i k = true)
    (quiet : k.ticks = false)
    (own : StatsRegistry.machine.step app.stats (.thread i k) = some stats) :
    workOfStats stats < workOfStats app.stats := by
  obtain ⟨t, registry, t', new, found, taken, rfl⟩ := Program.machine_thread_iff.mp own
  have step := StatsRegistry.step_iff.mp taken
  have less := step.workOf quiet fun port ops same => by
    subst same
    simp [admits, found] at admitted
  have exchange := weight_set (StatsRegistry.workOf app.stats.shared.toLoad) t' found
  rw [step.new_eq, List.append_nil]
  rw [workOfStats, StatsRegistry.toLoad_congr step.ports_length]
  simp only [workOfStats]
  omega

end

/-- Once the application's token is cancelled, so are the child tokens. -/
def Cancelled (app : App) : Prop :=
  app.shutdown = true → app.tcp.shared.shutdown = true ∧ ∀ u ∈ app.udp, u.port.shutdown = true

theorem Cancelled.step (before : app.Cancelled) (taken : Step app a app') : app'.Cancelled := by
  intro shutdown
  cases taken with
  | cancel own =>
      obtain ⟨shared, new, called, rfl⟩ := Program.machine_env_iff.mp own
      have flag : shared.shutdown = true := RunningApp.env_shutdown (e := .cancel) called
      refine ⟨flag, fun u member => ?_⟩
      obtain ⟨old, -, rfl⟩ := List.mem_map.mp member
      rfl
  | close own =>
      obtain ⟨shared, new, called, rfl⟩ := Program.machine_env_iff.mp own
      have flag : shared.shutdown = true := RunningApp.env_shutdown (e := .close) called
      exact ⟨flag, (before shutdown).2⟩
  | tcp found own follows => exact ⟨own.flags.2.trans (before shutdown).1, (before shutdown).2⟩
  | @udp i action u port stats found admitted own follows =>
      obtain ⟨tcp, udp⟩ := before shutdown
      refine ⟨tcp, fun u' member => ?_⟩
      obtain inside | rfl := List.mem_or_eq_of_mem_set member
      · exact udp u' inside
      · exact (UdpPort.Step.of_step own).shutdown (udp u (List.mem_of_getElem? found))
  | @addUdpOut i u bytes rest stats found sent follows =>
      obtain ⟨tcp, udp⟩ := before shutdown
      refine ⟨tcp, fun u' member => ?_⟩
      obtain inside | rfl := List.mem_or_eq_of_mem_set member
      · exact udp u' inside
      · exact udp u (List.mem_of_getElem? found)
  | stats | snapshot => exact before shutdown

theorem cancelled (reached : machine.Reachable (start config ascending now) app) :
    app.Cancelled :=
  reached.invariant (P := Cancelled) nofun fun _ _ _ _ before taken =>
    before.step (.of_step taken)

/-- What `shutdown` has set up. -/
structure ShuttingDown (config : Config.RuntimeConfig)
    (ascending : config.listenPorts.Pairwise (· < ·)) (now : Nat) (app : App) : Prop where
  reached : machine.Reachable (start config ascending now) app
  shutdown : app.shutdown = true
  closed : app.tcp.shared.semaphore.closed = true

theorem ShuttingDown.tcp (down : ShuttingDown config ascending now app) :
    RunningApp.ShuttingDown (Runtime.listenersView config ascending) app.tcp :=
  ⟨(parts down.reached).tcp, (cancelled down.reached down.shutdown).1, down.closed⟩

theorem ShuttingDown.udp (down : ShuttingDown config ascending now app) {i : Nat} {u : Udp}
    (found : app.udp[i]? = some u) :
    ∃ number, UdpPort.ShuttingDown config.udpIdleTimeout number now u.port := by
  obtain ⟨port, -, reached⟩ := (parts down.reached).udp i u found
  exact ⟨_, reached, (cancelled down.reached down.shutdown).2 u (List.mem_of_getElem? found)⟩

theorem ShuttingDown.step (down : ShuttingDown config ascending now app)
    (taken : machine.step app a = some app') : ShuttingDown config ascending now app' := by
  have step := Step.of_step taken
  refine ⟨down.reached.step taken, ?_, ?_⟩
  · cases step with
    | cancel => rfl
    | _ => exact down.shutdown
  · obtain same | ⟨b, own⟩ := step.tcp_eq
    · rw [same]
      exact down.closed
    · exact (down.tcp.step own).closed

theorem ShuttingDown.work_step (down : ShuttingDown config ascending now app)
    (quiet : app.calm a = true) (taken : Step app a app') :
    app'.work + (settles a).toNat ≤ app.work := by
  have parts := parts down.reached
  cases taken with
  | cancel own =>
      have same := down.tcp.work_step own
      have kept : weight Udp.work (app.udp.map Udp.cancel) = weight Udp.work app.udp :=
        weight_map Udp.work Udp.cancel app.udp
      simp only [RunningApp.settles, Bool.false_eq_true, if_false] at same
      simp only [work, kept, same, settles, Bool.toNat_false]
      omega
  | close own =>
      have same := down.tcp.work_step own
      simp only [RunningApp.settles, Bool.false_eq_true, if_false] at same
      simp only [work, same, settles, Bool.toNat_false]
      omega
  | @tcp i k t t' shared new stats found own follows =>
      have change := down.tcp.work_step (Program.machine_thread_iff.mpr
        ⟨t, shared, t', new, found, RunningApp.step_iff.mpr own, rfl⟩)
      have kept := workOfStats_makes_calls parts.distinct (parts.tcp_known found) follows
      simp only [work, settles, kept]
      cases settling : RunningApp.settles (.thread i k) with
      | true =>
          rw [settling, if_pos rfl] at change
          rw [Bool.toNat_true]
          omega
      | false =>
          rw [settling, if_neg Bool.false_ne_true] at change
          rw [Bool.toNat_false]
          omega
  | @udp i action u port stats found admitted own follows =>
      obtain ⟨number, inside⟩ := down.udp found
      have still : u.port.calm action = true := by simpa [calm, found] using quiet
      have less := inside.work_step still own
      have sent := (UdpPort.Step.of_step own).sends_work ((Nat.le_add_right ..).trans less)
      have exchange := weight_set Udp.work ⟨port, u.uncounted ++ u.port.sends action,
        u.dropped + (u.port.drops action).toNat⟩ found
      have kept := workOfStats_counts (fun _ called => UdpPort.single_of_recording called)
        parts.distinct (parts.udp_known found) follows
      simp only [Udp.work, List.length_append] at exchange
      simp only [work, settles, kept]
      omega
  | @addUdpOut i u bytes rest stats found sent follows =>
      have exchange := weight_set Udp.work { u with uncounted := rest } found
      have kept := workOfStats_counts (Recording.single_udpOut bytes) parts.distinct
        (parts.udp_known found) follows
      simp only [Udp.work, sent, List.length_cons] at exchange
      simp only [work, settles, kept, Bool.toNat_true]
      omega
  | @stats i k stats admitted own =>
      have still : k.ticks = false := by simpa [calm] using quiet
      have less := workOfStats_step admitted still own
      simp only [work, settles, Bool.toNat_true]
      omega
  | snapshot => cases quiet

/-! ### The end -/

/-- Nothing runs any more, and all that has been done is recorded. -/
structure Ended (config : Config.RuntimeConfig)
    (ascending : config.listenPorts.Pairwise (· < ·)) (app : App) : Prop where
  tcp : RunningApp.Ended (Runtime.listenersView config ascending) app.tcp
  udp : ∀ u ∈ app.udp, UdpPort.Ended u.port
  /-- `run_rollup` has left its loop, and every snapshot is given. -/
  stats : ∀ t ∈ app.stats.threads, t.ended = true
  recorded : ∀ i (c : Counter), c.gauge = false →
    app.stats.shared.recordedFor i c = app.done i c
  /-- So the counters read, as `u64`s. -/
  counters : ∀ (i : Nat) s, app.stats.shared.ports[i]? = some s → ∀ c : Counter, c.gauge = false →
    s.load c = app.done i c % u64Size
  active : ∀ s ∈ app.stats.shared.ports, s.load .tcpActive = 0

theorem Udp.owed_of_ended {u : Udp} (ended : UdpPort.Ended u.port) (counted : u.uncounted = [])
    (c : Counter) : u.owed c = 0 := by
  have none : weight UdpSessionTable.owesUdpIn u.port.table.threads = 0 := by
    refine weight_eq_zero_iff.mpr fun t member => ?_
    have ends := ended.tasks t member
    cases t with
    | returned | finished => rfl
    | _ => cases ends
  cases c with
  | udpInBytes => exact none
  | udpOutBytes => simp [Udp.owed, counted]
  | _ => rfl

theorem ended_of_parts (reached : machine.Reachable (start config ascending now) app)
    (tcp : RunningApp.Ended (Runtime.listenersView config ascending) app.tcp)
    (udp : ∀ u ∈ app.udp, UdpPort.Ended u.port ∧ u.uncounted = [])
    (stats : workOfStats app.stats = 0) : Ended config ascending app := by
  have recorded : ∀ i (c : Counter), c.gauge = false →
      app.stats.shared.recordedFor i c = app.done i c := by
    intro i c cumulative
    have balance := balanced reached i c cumulative
    have none : app.owed i c = 0 := by
      have tasks : weight (RunningApp.owes i c) app.tcp.threads = 0 := by
        refine weight_eq_zero_iff.mpr fun t member => ?_
        obtain ⟨port, rfl⟩ | ⟨port, rfl⟩ :=
          RunningApp.workOf_eq_zero_iff.mp (tcp.tasks t member)
        · exact ite_self 0
        · exact ite_self 0
      rw [owed, tasks]
      cases found : app.udp[i]? with
      | none => rfl
      | some u =>
          obtain ⟨ended, counted⟩ := udp u (List.mem_of_getElem? found)
          exact (Nat.zero_add _).trans (Udp.owed_of_ended ended counted c)
    rwa [none] at balance
  refine ⟨tcp, fun u member => (udp u member).1, ?_, recorded, ?_, ?_⟩
  · intro t member
    obtain ends | ⟨port, ops, rfl⟩ :=
      StatsRegistry.workOf_eq_zero (weight_eq_zero_iff.mp stats t member)
    · exact ends
    · cases ops with
      | nil => rfl
      | cons op ops =>
          obtain ⟨i, found⟩ := List.mem_iff_getElem?.mp member
          have waits := le_weight (recorders port (op :: ops)) found
          have none : weight (callers port (op :: ops)) app.tcp.threads = 0 := by
            refine weight_eq_zero_iff.mpr fun t inside => ?_
            obtain ⟨port, rfl⟩ | ⟨port, rfl⟩ :=
              RunningApp.workOf_eq_zero_iff.mp (tcp.tasks t inside)
            · exact if_neg fun both => List.cons_ne_nil op ops both.2.symm
            · exact if_neg fun both => List.cons_ne_nil op ops both.2.symm
          rw [matched reached _ _ (List.cons_ne_nil op ops), none, recorders, if_pos rfl] at waits
          cases waits
  · intro i s found c cumulative
    rw [StatsRegistry.counts (parts reached).stats i s found c cumulative]
    exact congrArg (· % u64Size) (recorded i c cumulative)
  · intro s member
    obtain ⟨i, found⟩ := List.mem_iff_getElem?.mp member
    rw [agree reached i s found, RunningApp.active_eq (parts reached).tcp]
    refine weight_eq_zero_iff.mpr fun t inside => ?_
    obtain ⟨port, rfl⟩ | ⟨port, rfl⟩ := RunningApp.workOf_eq_zero_iff.mp (tcp.tasks t inside)
    · rfl
    · rfl

theorem ShuttingDown.stats_goes_on (down : ShuttingDown config ascending now app)
    (busy : workOfStats app.stats ≠ 0) :
    ∃ a app', settles a = true ∧ calmMachine.step app a = some app' := by
  obtain ⟨t, member, left⟩ : ∃ t ∈ app.stats.threads,
      StatsRegistry.workOf app.stats.shared.toLoad t ≠ 0 := by
    by_contra none
    simp only [not_exists, not_and, not_not] at none
    exact busy (weight_eq_zero_iff.mpr none)
  obtain ⟨i, found⟩ := List.mem_iff_getElem?.mp member
  have inside := (StatsRegistry.inRange (parts down.reached).stats).get found
  obtain ⟨k, registry, t', quiet, step⟩ := StatsRegistry.goes_on inside left
  have own : StatsRegistry.machine.step app.stats (.thread i k) =
      some ⟨registry, app.stats.threads.set i t' ++ []⟩ :=
    Program.machine_thread_iff.mpr
      ⟨t, registry, t', [], found, StatsRegistry.step_iff.mpr step, rfl⟩
  have admitted : app.admits i k = true := by
    cases step with
    | record => exact absurd rfl left
    | shutdown => simp [admits, found, down.shutdown]
    | _ => simp [admits, found]
  have move : app.moved (.stats i k) = some app := if_pos admitted
  have taken := step_of_moved move (Machine.run_singleton.mpr own)
  have still : app.calm (.stats i k) = true := by simp [calm, quiet]
  exact ⟨.stats i k, _, rfl, Machine.only_step_iff.mpr ⟨still, taken⟩⟩

theorem ShuttingDown.goes_on (down : ShuttingDown config ascending now app)
    (busy : ¬ Ended config ascending app) :
    ∃ a app', settles a = true ∧ calmMachine.step app a = some app' := by
  have free := unhindered down.reached
  by_cases tcp : RunningApp.Ended (Runtime.listenersView config ascending) app.tcp
  · by_cases sent : ∃ (i : Nat) (u : Udp), app.udp[i]? = some u ∧ u.uncounted ≠ []
    · obtain ⟨i, u, found, left⟩ := sent
      obtain ⟨bytes, rest, same⟩ := List.exists_cons_of_ne_nil left
      obtain ⟨app', taken, -⟩ := free.addUdpOut i u bytes rest found same
      exact ⟨.addUdpOut i, app', rfl, Machine.only_step_iff.mpr ⟨rfl, taken⟩⟩
    · have counted : ∀ (i : Nat) u, app.udp[i]? = some u → u.uncounted = [] :=
        fun i u found => by_contra fun left => sent ⟨i, u, found, left⟩
      by_cases running : ∃ (i : Nat) (u : Udp), app.udp[i]? = some u ∧ ¬ UdpPort.Ended u.port
      · obtain ⟨i, u, found, runs⟩ := running
        obtain ⟨number, inside⟩ := down.udp found
        obtain ⟨action, port, own, step⟩ := inside.goes_on runs
        obtain ⟨still, step⟩ := Machine.only_step_iff.mp step
        have admitted : u.admits action = true := by
          cases action with
          | cancel => cases own
          | _ => simp [Udp.admits, counted i u found]
        have moved : u.step action = some ⟨port, u.uncounted ++ u.port.sends action,
            u.dropped + (u.port.drops action).toNat⟩ := by
          simp [Udp.step, admitted, step]
        obtain ⟨app', taken, -⟩ := free.udp i action u _ found moved
        refine ⟨.udp i action, app', own, Machine.only_step_iff.mpr ⟨?_, taken⟩⟩
        simpa [calm, found] using still
      · have udp : ∀ u ∈ app.udp, UdpPort.Ended u.port ∧ u.uncounted = [] := by
          intro u member
          obtain ⟨i, found⟩ := List.mem_iff_getElem?.mp member
          exact ⟨by_contra fun runs => running ⟨i, u, found, runs⟩, counted i u found⟩
        exact down.stats_goes_on fun none => busy (ended_of_parts down.reached tcp udp none)
  · obtain ⟨b, q, own, step⟩ := down.tcp.goes_on tcp
    cases b with
    | env e => cases own
    | thread i k =>
        obtain ⟨app', taken, -⟩ := free.tcp i k q step
        exact ⟨.tcp i k, app', own, Machine.only_step_iff.mpr ⟨rfl, taken⟩⟩

theorem settles_calm (config : Config.RuntimeConfig)
    (ascending : config.listenPorts.Pairwise (· < ·)) (now : Nat) :
    calmMachine.Settles (ShuttingDown config ascending now) settles work
      (Ended config ascending) := by
  refine .of_work ?_ ?_ fun app down busy => down.goes_on busy
  · intro app a app' down taken
    exact down.step (Machine.only_step_iff.mp taken).2
  · intro app a app' down taken
    obtain ⟨quiet, own⟩ := Machine.only_step_iff.mp taken
    exact down.work_step quiet (.of_step own)

/-- Whatever comes in first: as long as nothing comes in, the steps are bounded and nothing
blocks before the end; once nothing comes in any more, a run that does not starve these
steps gets there. -/
structure Completes (config : Config.RuntimeConfig)
    (ascending : config.listenPorts.Pairwise (· < ·)) (app : App) : Prop where
  bounded : ∀ as q, calmMachine.run app as = some q →
    calmMachine.count (fun _ a => settles a) app as ≤ work app
  unblocked : ∀ as q, machine.run app as = some q →
    (∀ a, settles a = true → calmMachine.step q a = none) → Ended config ascending q
  completes : ∀ as q, machine.run app as = some q →
    ∃ bs r, calmMachine.run q bs = some r ∧ Ended config ascending r
  eventually : ∀ state action, state 0 = app → machine.Forever state action →
    (∃ n, ∀ m, n ≤ m → calm (state m) (action m) = true) →
    (∀ n, ¬ Ended config ascending (state n) → ∃ m, n ≤ m ∧ settles (action m) = true) →
    ∃ n, Ended config ascending (state n)

theorem shutdown_completes (reached : machine.Reachable (start config ascending now) app)
    (shutdown : app.shutdown = true) (closed : app.tcp.shared.semaphore.closed = true) :
    Completes config ascending app := by
  have rests := settles_calm config ascending now
  have down : ShuttingDown config ascending now app := ⟨reached, shutdown, closed⟩
  have later : ∀ as q, machine.run app as = some q → ShuttingDown config ascending now q :=
    fun as q complete => Machine.invariant_run
      (P := ShuttingDown config ascending now) (fun _ _ _ down taken => down.step taken) down
      complete
  constructor
  · intro as q complete
    exact (Nat.le_add_right ..).trans (rests.count_add_le down complete)
  · intro as q complete
    exact rests.done_of_stuck (later as q complete)
  · intro as q complete
    obtain ⟨bs, r, rest, -, ended⟩ := rests.completes (later as q complete)
    exact ⟨bs, r, rest, ended⟩
  · rintro state action rfl forever quiet fair
    exact rests.eventually_only forever (fun n => later _ _ (forever.run n)) quiet fair

/-- A connection has still to be recorded when the shutdown begins, and a session is open. -/
def stopping : List Action := request ++ [.cancel, .close]

theorem stopping_accepted :
    (machine.run (start Runtime.twoPortsConfig twoPorts_ascending 60) stopping).isSome := by
  decide

theorem shutdown_completes_stopping :
    Completes Runtime.twoPortsConfig twoPorts_ascending
      ((machine.run (start Runtime.twoPortsConfig twoPorts_ascending 60) stopping).get
        stopping_accepted) :=
  shutdown_completes (Machine.reachable_get stopping_accepted) (by decide) (by decide)

end App

end RangePorter
