import RangePorter.App.Answers
import RangePorter.Stats.Moments

/-!
# Each value of an answer at its own moment

Every value in an answer was the value of its counter at some moment between the request and
the answer; two of them need not be of the same moment. The registry and the listeners agree
on the gauge of active connections, so what an answer shows of it was the number of open
connections at that moment.
-/

namespace RangePorter

open Interleaving

/-- The value that the next of the updates leaves in a counter. -/
def resultOf (c : Counter) : List CounterOp → Nat → Nat
  | [], current => current
  | op :: _, current => if op.counter = c then op.result current else current

theorem load_recordNext {registry : StatsRegistry} {port i : Nat} {ops : List CounterOp}
    {s : PortStats} (found : (registry.recordNext port ops).ports[i]? = some s) (c : Counter) :
    ∃ old, registry.ports[i]? = some old ∧
      s.load c = if port = i then resultOf c ops (old.load c) else old.load c := by
  cases ops with
  | nil => exact ⟨s, found, (ite_self _).symm⟩
  | cons op ops =>
      simp only [StatsRegistry.recordNext, StatsRegistry.record, List.getElem?_modify] at found
      obtain ⟨old, here, rfl⟩ := Option.map_eq_some_iff.mp found
      refine ⟨old, here, ?_⟩
      by_cases port : port = i
      · rw [if_pos port, if_pos port, resultOf]
        by_cases own : op.counter = c
        · subst own
          simp
        · rw [if_neg own, PortStats.load_apply_of_ne _ (Ne.symm own)]
      · rw [if_neg port, if_neg port]

theorem resultOf_inMethod (c : Counter) (ops : List CounterOp) :
    resultOf c (RunningApp.inMethod ops) = resultOf c ops := by
  unfold RunningApp.inMethod
  split <;> rfl

/-- The methods for UDP leave the gauge of connections alone. -/
theorem resultOf_single {called : Option Recording}
    (single : ∀ recording ∈ called, recording.single = true) (current : Nat) :
    resultOf .tcpActive (opsOf called) current = current := by
  cases called with
  | none => rfl
  | some recording =>
      have one := single recording rfl
      cases recording with
      | tcpAccept | tcpClose | tcpBytes => cases one
      | _ => rfl

namespace RunningApp

variable {app app' : RunningApp} {t t' : Task} {k : Choice} {new : List Task}

theorem Step.counter_eq (taken : Step app t k app' t' new) (bound : t.port < app.stats.length)
    (i : Nat) (c : Counter) : app'.counter i c =
      if t.port = i then resultOf c t.updates (app.counter i c) else app.counter i c := by
  cases taken with
  | recordAccept | recordClose => exact (counter_update bound _ i c).trans (ite_and ..)
  | _ => exact (ite_self _).symm

end RunningApp

namespace App

variable {config : Config.RuntimeConfig} {ascending : config.listenPorts.Pairwise (· < ·)}
  {now j n : Nat} {app app' p q r : App} {a : Action} {as : List Action} {s : StatsSnapshot}
  {t : StatsRegistry.Task} {seen : Nat → Counter → Nat → Prop}

/-! ### Readings in a run of the application -/

/-- Callers move their own methods only. -/
theorem idle_of_ne (found : app.stats.threads[j]? = some t) (reads : t.Loaded seen n)
    (other : ∀ k, a ≠ .stats j k) : ∀ k, .thread j k ∉ app.events a := by
  have bound := (List.getElem?_eq_some_iff.mp found).1
  have called : ∀ port called k, .thread j k ∉ calls app.stats port called := by
    intro port called k member
    cases called with
    | none => cases member
    | some recording =>
        obtain ⟨number, -, same⟩ := List.mem_map.mp member
        cases same
  have counted : ∀ port called k, .thread j k ∉ counts app.stats port called := by
    intro port recorded k member
    cases recorded with
    | none => cases member
    | some recording =>
        obtain first | last := List.mem_append.mp member
        · exact called port (some recording) k first
        · cases List.mem_singleton.mp last
          exact Nat.lt_irrefl _ bound
  have made : ∀ port ops k, .thread j k ∉ makes app.stats port ops := by
    intro port ops k member
    cases ops with
    | nil => cases member
    | cons op ops =>
        cases List.mem_singleton.mp member
        rw [List.getElem?_eq_getElem bound, List.getElem_idxOf, Option.some.injEq] at found
        subst found
        cases reads
  intro k member
  cases a with
  | cancel | close => cases member
  | tcp i k' =>
      simp only [events] at member
      split at member
      · obtain first | last := List.mem_append.mp member
        · exact made _ _ _ first
        · exact called _ _ _ last
      · cases member
  | udp i action =>
      simp only [events] at member
      split at member
      · exact counted _ _ _ member
      · cases member
  | addUdpOut i =>
      simp only [events] at member
      split at member
      · exact counted _ _ _ member
      · cases member
  | stats i k' =>
      cases List.mem_singleton.mp member
      exact other k rfl
  | snapshot => cases List.mem_singleton.mp member

/-- A reading goes on as the registry's own, whatever the application does. -/
theorem loaded_step (parts : Parts config ascending now app)
    (found : app.stats.threads[j]? = some t) (reads : t.Loaded seen app.stats.shared.ports.length)
    (loads : ∀ i c s, app.stats.shared.ports[i]? = some s → seen i c (s.load c))
    (taken : machine.step app a = some app') :
    ∃ t', app'.stats.threads[j]? = some t' ∧
      t'.Loaded seen app.stats.shared.ports.length := by
  have follows := refines_stats.step app a app' trivial taken
  by_cases own : ∃ k, a = .stats j k
  · obtain ⟨k, rfl⟩ := own
    obtain ⟨u, registry, u', new, there, step, same⟩ :=
      Program.machine_thread_iff.mp (Machine.run_singleton.mp follows)
    cases found.symm.trans there
    refine ⟨u', ?_, (StatsRegistry.step_iff.mp step).loaded reads ?_ loads⟩
    · rw [same]
      exact lookup_self (List.getElem?_eq_some_iff.mp found).1
    · intro loading reading
      exact ((StatsRegistry.observes parts.stats).get found loading reading).length_eq
  · have idle := idle_of_ne found reads fun k same => own ⟨k, same⟩
    exact ⟨t, StatsRegistry.run_kept follows found idle, reads⟩

/-- In `p` the answer is asked for; what it shows after the actions `as` has been loaded at
some moment since then. -/
theorem loaded_run (reached : machine.Reachable (start config ascending now) p)
    (asked : machine.step p .snapshot = some q) (complete : machine.run q as = some r) :
    ∃ t, r.stats.threads[p.stats.threads.length]? = some t ∧
      t.Loaded (fun i c v => machine.Sometime (fun m : App =>
        ∃ s, m.stats.shared.ports[i]? = some s ∧ s.load c = v) q as)
        config.listenPorts.length := by
  induction as using List.reverseRecOn generalizing r with
  | nil =>
      cases complete
      have called := Machine.run_singleton.mp (refines_stats.step p .snapshot q trivial asked)
      obtain ⟨registry, new, own, same⟩ := Program.machine_env_iff.mp called
      cases own
      refine ⟨.snapshot p.stats.shared.load, by simp [same], ?_⟩
      intro i bound c
      rw [← (parts reached).length] at bound
      exact .inl (StatsRegistry.mem_load _ bound c)
  | append_singleton as a ih =>
      obtain ⟨m, first, last⟩ := Machine.run_append_iff.mp complete
      obtain ⟨t, found, reads⟩ := ih first
      have before := parts ((reached.step asked).run first)
      rw [← before.length] at reads ⊢
      refine loaded_step before found (reads.mono fun i c v was => was.append [a]) ?_
        (Machine.run_singleton.mp last)
      intro i c s here
      exact Machine.sometime_of_step first ⟨s, here, rfl⟩ a

/-! ### The gauge of connections -/

/-- The registry and the listeners agree on the connections that are open. -/
def Agree (app : App) : Prop :=
  ∀ i s, app.stats.shared.ports[i]? = some s →
    s.load .tcpActive = app.tcp.shared.counter i .tcpActive

theorem ports_stats {stats : Pool StatsRegistry StatsRegistry.Task} {i : Nat}
    {k : StatsRegistry.Choice} (admitted : app.admits i k = true)
    (own : StatsRegistry.machine.step app.stats (.thread i k) = some stats) :
    stats.shared.ports = app.stats.shared.ports := by
  obtain ⟨t, registry, t', new, found, taken, rfl⟩ := Program.machine_thread_iff.mp own
  cases StatsRegistry.step_iff.mp taken with
  | record => simp [admits, found] at admitted
  | _ => rfl

theorem counter_env {tcp tcp' : Pool RunningApp RunningApp.Task} {e : RunningApp.Env}
    (taken : RunningApp.machine.step tcp (.env e) = some tcp') (i : Nat) (c : Counter) :
    tcp'.shared.counter i c = tcp.shared.counter i c := by
  obtain ⟨shared, new, own, rfl⟩ := Program.machine_env_iff.mp taken
  rw [RunningApp.counter, RunningApp.counter, (RunningApp.env_frame own).2.1]

/-- A method for UDP leaves the gauge alone. -/
theorem Agree.counts {j i : Nat} {called : Option Recording}
    {stats : Pool StatsRegistry StatsRegistry.Task} {s : PortStats} (before : app.Agree)
    (parts : Parts config ascending now app) (known : j < app.stats.shared.ports.length)
    (single : ∀ recording ∈ called, recording.single = true)
    (follows : StatsRegistry.machine.run app.stats (App.counts app.stats j called) = some stats)
    (found : stats.shared.ports[i]? = some s) :
    s.load .tcpActive = app.tcp.shared.counter i .tcpActive := by
  rw [shared_counts single parts.distinct known follows] at found
  obtain ⟨old, here, same⟩ := load_recordNext found .tcpActive
  rw [same, resultOf_single single, ite_self]
  exact before i old here

theorem Agree.step (before : app.Agree) (parts : Parts config ascending now app)
    (taken : Step app a app') : app'.Agree := by
  intro i s found
  cases taken with
  | cancel own | close own =>
      rw [counter_env own]
      exact before i s found
  | @tcp j k t t' shared new stats there own follows =>
      have recorded := shared_makes parts.distinct (parts.tcp_known there) follows
      have counted := ((RunningApp.valid parts.tcp).get there).counted
      simp only [recorded] at found
      obtain ⟨old, here, same⟩ := load_recordNext found .tcpActive
      rw [same, own.counter_eq counted, before i old here, RunningApp.Task.method,
        resultOf_inMethod]
  | udp there admitted own follows =>
      exact before.counts parts (parts.udp_known there)
        (fun _ called => UdpPort.single_of_recording called) follows found
  | @addUdpOut j u bytes rest stats there sent follows =>
      exact before.counts parts (parts.udp_known there) (Recording.single_udpOut bytes) follows
        found
  | stats admitted own =>
      rw [ports_stats admitted own] at found
      exact before i s found
  | snapshot own =>
      obtain ⟨registry, new, called, rfl⟩ := Program.machine_env_iff.mp own
      cases called
      exact before i s found

theorem agree (reached : machine.Reachable (start config ascending now) app) : app.Agree := by
  refine reached.invariant (P := Agree) ?_ fun _ _ _ reached before taken =>
    before.step (parts reached) (.of_step taken)
  intro i s found
  obtain ⟨port, -, rfl⟩ := List.mem_map.mp (List.mem_of_getElem? found)
  rw [PortStats.load_new]
  exact (RunningApp.counter_start _ i .tcpActive).symm

/-! ### Answers -/

/-- The answer of a snapshot that was asked for before `q`, and given after the actions `as`. -/
structure Momentary (config : Config.RuntimeConfig) (q : App) (as : List Action)
    (s : StatsSnapshot) : Prop where
  /-- Each value was the value of its counter at some moment. -/
  values : ∀ i < config.listenPorts.length, ∃ shown, s.ports[i]? = some shown ∧ ∀ c,
    machine.Sometime (fun m => ∃ stats, m.stats.shared.ports[i]? = some stats ∧
      stats.load c = shown.get c) q as
  /-- At that moment so many connections had been counted as open and not yet as closed. -/
  active : ∀ (i : Nat) shown, s.ports[i]? = some shown →
    machine.Sometime (fun m => shown.tcpActive = weight (RunningApp.opens i) m.tcp.threads) q as
  capped : ∀ shown ∈ s.ports, shown.tcpActive ≤ config.maxTcpConnections.toNat

theorem Parts.opens_le (parts : Parts config ascending now app) (i : Nat) :
    weight (RunningApp.opens i) app.tcp.threads ≤ config.maxTcpConnections.toNat := by
  have permits := RunningApp.available_add_held parts.tcp
  have le : weight (RunningApp.opens i) app.tcp.threads ≤
      weight RunningApp.held app.tcp.threads :=
    weight_le_weight fun t _ => RunningApp.opens_le_held i t
  exact (le.trans (Nat.le_add_left ..)).trans permits.le

theorem answer_momentary (reached : machine.Reachable (start config ascending now) p)
    (asked : machine.step p .snapshot = some q) (complete : machine.run q as = some r)
    (returned : r.stats.threads[p.stats.threads.length]? = some (.returned s)) :
    Momentary config q as s := by
  have later := reached.step asked
  obtain ⟨t, found, reads⟩ := loaded_run reached asked complete
  cases returned.symm.trans found
  have values : ∀ i < config.listenPorts.length, ∃ shown, s.ports[i]? = some shown ∧ ∀ c,
      machine.Sometime (fun m => ∃ stats, m.stats.shared.ports[i]? = some stats ∧
        stats.load c = shown.get c) q as := by
    intro i bound
    obtain waits | ⟨shown, here, -⟩ := reads i bound .tcpActive
    · cases waits
    · refine ⟨shown, here, fun c => ?_⟩
      obtain waits | ⟨shown', here', was⟩ := reads i bound c
      · cases waits
      · cases here.symm.trans here'
        exact was
  have listed : s.ports.length = config.listenPorts.length := by
    have numbers := (parts (later.run complete)).numbers_answer returned
    simpa using congrArg List.length numbers
  have active : ∀ (i : Nat) shown, s.ports[i]? = some shown →
      machine.Sometime (fun m => shown.tcpActive = weight (RunningApp.opens i) m.tcp.threads)
        q as := by
    intro i shown here
    have bound := (List.getElem?_eq_some_iff.mp here).1
    obtain ⟨shown', here', was⟩ := values i (listed ▸ bound)
    cases here.symm.trans here'
    refine (was .tcpActive).imp ?_
    rintro m reachable ⟨stats, known, same⟩
    obtain ⟨bs, way⟩ := reachable
    have inside := later.run way
    rw [← RunningApp.active_eq (parts inside).tcp i, ← agree inside i stats known]
    exact same.symm
  refine ⟨values, active, ?_⟩
  intro shown member
  obtain ⟨i, here⟩ := List.mem_iff_getElem?.mp member
  obtain ⟨bs, cs, m, -, way, same⟩ := active i shown here
  rw [same]
  exact (parts (later.run way)).opens_le i

/-- The connection is recorded as open when the request comes. -/
def opened : App :=
  (machine.run requested [.tcp 0 .go, .tcp 0 .go]).get (by decide)

/-- It is closed between two loads of its port. -/
def closing : List Action :=
  List.replicate 2 (.stats 4 .go) ++ [.tcp 0 .go, .tcp 2 .fail, .tcp 2 .go, .tcp 2 .go] ++
    List.replicate 17 (.stats 4 .go) ++ [.stats 4 (.clock 61)]

theorem asks_opened : (machine.step opened .snapshot).isSome := by decide

theorem closing_accepted :
    (machine.run ((machine.step opened .snapshot).get asks_opened) closing).isSome := by
  decide

/-- The answer shows it as open and as closed. -/
def openAndClosed : StatsSnapshot where
  target := "10.0.0.1:9000"
  startedAtEpoch := 60
  generatedAtEpoch := 61
  windowMinutes := 60
  totals := { AggregateTotals.default with
    tcpAccepted := 1, tcpActive := 1, tcpClosed := 1, udpActiveFlows := 1, udpInBytes := 2 }
  ports := [{ PortSnapshot.blank 80 with
    tcpAccepted := 1, tcpActive := 1, tcpClosed := 1, udpActiveFlows := 1, udpInBytes := 2 },
    .blank 8080]
  minuteBuckets := (BucketRing.new 60).snapshot

theorem answer_momentary_openAndClosed : Momentary Runtime.twoPortsConfig
    ((machine.step opened .snapshot).get asks_opened) closing openAndClosed :=
  have before : machine.run requested [.tcp 0 .go, .tcp 0 .go] = some opened :=
    (Option.some_get _).symm
  answer_momentary ((Machine.reachable_get request_accepted).run before) (Option.some_get _).symm
    (Option.some_get closing_accepted).symm rfl

end App

end RangePorter
