import RangePorter.Interleaving.Settling
import RangePorter.Listener.TcpTracked

/-!
# Shutting down the TCP side

`RunningApp::shutdown` cancels the token and closes the semaphore, then waits for all
tasks. From then on every step of a listener or a connection, other than copying another
piece of data, uses up work that is bounded beforehand, and as long as a task has not ended
one of them is possible: nobody waits for a permit or for a task that will not come. So the
tasks end whatever the clients and the target do, and then every permit is back and no
connection counts as active.
-/

namespace RangePorter.RunningApp

open Interleaving

variable {config : RuntimeConfig} {p q : Pool RunningApp Task}

/-- Any step of a task that does not merely copy data. -/
def settles : Action Choice Env → Bool
  | .thread _ (.copyIn _) | .thread _ (.copyOut _) | .thread _ .endIn | .thread _ .endOut => false
  | .thread _ _ => true
  | .env _ => false

/-! ### The work that is left -/

/-- A connection that has ended is left to its listener to join. -/
def workOfConnection : TcpProxy → Nat
  | .connect => 9
  | .copy .. => 8
  | .record ops => ops.length + 3
  | .finish => 2
  | .finished => 0

/-- The semaphore is closed, so `acquire` leads out of the loop. -/
def workOfListener : TcpRun → Nat
  | .accept => 15
  | .record ops => ops.length + 12
  | .refuse => 3
  | .acquire | .leave => 2
  | .joinNext => 1
  | .returned => 0

def workOf : Task → Nat
  | .listener _ next => workOfListener next
  | .connection _ next => workOfConnection next

/-- The tasks that a listener has still to take out of its `JoinSet`. -/
def toJoin (app : RunningApp) : Nat := weight JoinSet.finished app.connections

def work (p : Pool RunningApp Task) : Nat := weight workOf p.threads + p.shared.toJoin

/-- Every step of a task uses up some work, but for the copying. -/
theorem Step.work {app app' : RunningApp} {t t' : Task} {k : Choice} {new : List Task}
    (taken : Step app t k app' t' new) (closed : app.semaphore.closed = true)
    (tracked : t.port < app.connections.length) (i : Nat) :
    if settles (.thread i k) then
      workOf t' + weight workOf new + app'.toJoin < workOf t + app.toJoin
    else workOf t' + weight workOf new + app'.toJoin = workOf t + app.toJoin := by
  cases taken with
  | acquire opened =>
      rw [opened] at closed
      cases closed
  | @spawn port =>
      have found := List.getElem?_eq_getElem tracked
      have same := weight_modify JoinSet.finished
        (fun set => { set with running := set.running + 1 }) found
      simp only [settles, if_true, toJoin, RunningApp.spawn, workOf, workOfListener,
        workOfConnection, weight_cons, weight_nil, List.length_nil]
      simp only [port_listener] at same
      omega
  | @finish port =>
      have found := List.getElem?_eq_getElem tracked
      have more := weight_modify JoinSet.finished
        (fun set => ⟨set.running - 1, set.finished + 1⟩) found
      simp only [settles, if_true, toJoin, RunningApp.finish, workOf, workOfConnection, weight_nil]
      simp only [port_connection] at more
      omega
  | @joinNext port set found finished =>
      have fewer := weight_modify JoinSet.finished
        (fun set => { set with finished := set.finished - 1 }) found
      simp only [settles, if_true, toJoin, RunningApp.joinNext, workOf, workOfListener, weight_nil]
      simp only at fewer
      omega
  | connectInterrupted branch | copyInterrupted branch =>
      obtain rfl | ⟨rfl, -⟩ := branch <;>
        simp [settles, workOf, workOfConnection, PortStats.recordTcpClose]
  | _ =>
      simp [settles, toJoin, workOf, workOfListener, workOfConnection, update,
        PortStats.recordTcpAccept, PortStats.addTcpBytes, PortStats.recordTcpClose]

/-! ### Somebody can always go on -/

/-- Nothing runs any more: the tasks have ended and are joined, every permit is back, no
connection counts as active, and every accepted one as closed. -/
structure Ended (config : RuntimeConfig) (p : Pool RunningApp Task) : Prop where
  tasks : ∀ t ∈ p.threads, workOf t = 0
  joined : ∀ set ∈ p.shared.connections, set.running = 0 ∧ set.finished = 0
  permits : p.shared.semaphore.available = config.maxTcpConnections
  stats : ∀ s ∈ p.shared.stats, s.tcpActive = 0 ∧ s.tcpAccepted = s.tcpClosed

theorem workOf_eq_zero_iff {t : Task} : workOf t = 0 ↔
    (∃ port, t = .listener port .returned) ∨ ∃ port, t = .connection port .finished := by
  cases t with
  | listener port next => cases next <;> simp [workOf, workOfListener]
  | connection port next => cases next <;> simp [workOf, workOfConnection]

theorem Step.listener {app app' : RunningApp} {t t' : Task} {k : Choice} {new : List Task}
    (taken : Step app t k app' t' new) {i : Nat} (listener : ∃ next, t = .listener i next) :
    ∃ next, t' = .listener i next := by
  obtain ⟨next, rfl⟩ := listener
  cases taken <;> exact ⟨_, rfl⟩

/-- Every `JoinSet` belongs to a listener. -/
theorem listeners (reached : machine.Reachable (start config) p) :
    p.shared.connections.length = config.listenPorts.length ∧
      ∀ i, i < config.listenPorts.length → ∃ next, p.threads[i]? = some (.listener i next) := by
  refine Program.reachable_induction (J := fun p =>
    p.shared.connections.length = config.listenPorts.length ∧
      ∀ i, i < config.listenPorts.length → ∃ next, p.threads[i]? = some (.listener i next))
    reached ?_ ?_ ?_
  · exact ⟨List.length_map _, fun i bound => ⟨.acquire, by simp [start, bound]⟩⟩
  · rintro p j k t app t' new - ⟨length, before⟩ found taken
    have step := step_iff.mp taken
    refine ⟨step.lengths.2.1.trans length, fun i bound => ?_⟩
    obtain ⟨next, there⟩ := before i bound
    by_cases same : i = j
    · subst same
      obtain ⟨next', rfl⟩ := step.listener ⟨next, Option.some.inj (found.symm.trans there)⟩
      exact ⟨next', lookup_self (List.getElem?_eq_some_iff.mp found).1⟩
    · exact ⟨next, lookup_other there same⟩
  · rintro p e app new - ⟨length, before⟩ taken
    obtain ⟨-, -, connections, -, -⟩ := env_frame taken
    refine ⟨by rw [connections, length], fun i bound => ?_⟩
    obtain ⟨next, there⟩ := before i bound
    exact ⟨next, lookup_append there⟩

/-- A listener returns after its last connection has been joined. -/
theorem tracked_of_returned (reached : machine.Reachable (start config) p) :
    ∀ i, .listener i .returned ∈ p.threads → p.shared.tracked i = 0 := by
  refine Program.reachable_induction (J := fun p =>
    ∀ i, .listener i .returned ∈ p.threads → p.shared.tracked i = 0) reached ?_ ?_ ?_
  · intro i member
    simp [start] at member
  · intro p j k t app t' new reached before found taken i member
    have own := (valid reached).get found
    have step := step_iff.mp taken
    rcases List.mem_append.mp member with kept | spawned
    · rcases List.mem_or_eq_of_mem_set kept with old | rfl
      · have none := before i old
        have idle := running_of_returned reached i old
        cases step with
        | @spawn port | @joinNext port =>
            have bound : port < p.shared.connections.length := own.tracked
            refine (tracked_modify bound i).trans ((if_neg ?_).trans none)
            rintro rfl
            cases listener_unique reached (List.mem_of_getElem? found) old
        | @finish port =>
            -- The connection that finishes is one that runs.
            have bound : port < p.shared.connections.length := own.tracked
            refine (tracked_modify bound i).trans ((if_neg ?_).trans none)
            rintro rfl
            have runs := le_weight (runs port) found
            rw [← running_eq reached, idle] at runs
            simp [RunningApp.runs] at runs
        | _ => exact none
      · cases step with
        | joined tracked none => simp [RunningApp.tracked, tracked, JoinSet.tracked, none]
    · cases step with
      | spawn => simp at spawned
      | _ => cases spawned
  · intro p e app new _ before taken i member
    obtain ⟨-, -, connections, -, rfl⟩ := env_frame taken
    rw [RunningApp.tracked, connections]
    exact before i (by simpa using member)

theorem ended_of_tasks (reached : machine.Reachable (start config) p)
    (tasks : ∀ t ∈ p.threads, workOf t = 0) : Ended config p := by
  have idle : ∀ (w : Task → Nat), (∀ port, w (.listener port .returned) = 0) →
      (∀ port, w (.connection port .finished) = 0) → weight w p.threads = 0 := by
    intro w listener connection
    refine weight_eq_zero_iff.mpr fun t member => ?_
    obtain ⟨port, rfl⟩ | ⟨port, rfl⟩ := workOf_eq_zero_iff.mp (tasks t member)
    · exact listener port
    · exact connection port
  refine ⟨tasks, ?_, ?_, ?_⟩
  · intro set member
    obtain ⟨i, found⟩ := List.mem_iff_getElem?.mp member
    obtain ⟨length, listens⟩ := listeners reached
    obtain ⟨next, there⟩ := listens i (length ▸ (List.getElem?_eq_some_iff.mp found).1)
    have listener := List.mem_of_getElem? there
    have returned : next = .returned := by
      obtain ⟨port, same⟩ | ⟨port, same⟩ := workOf_eq_zero_iff.mp (tasks _ listener)
      · cases same
        rfl
      · cases same
    have none := tracked_of_returned reached i (returned ▸ listener)
    simpa [tracked, found, JoinSet.tracked] using none
  · have permits := available_add_held reached
    rwa [idle held (fun _ => rfl) fun _ => rfl, Nat.add_zero] at permits
  · intro s member
    obtain ⟨i, stats⟩ := List.mem_iff_getElem?.mp member
    have gauge := active_eq reached i
    rw [idle (opens i) (fun _ => rfl) fun _ => rfl, counter_of_stats stats] at gauge
    have between : ∀ t ∈ p.threads, midway i t = 0 :=
      weight_eq_zero_iff.mp (idle (midway i) (fun _ => rfl) fun _ => rfl)
    have accepted := counter_eq_updatesOf reached (.inl rfl : Counter.tcpAccepted = _ ∨ _) i
    have closed := counter_eq_updatesOf reached (.inr rfl : Counter.tcpClosed = _ ∨ _) i
    have total := accepted_eq reached i
    rw [weight_eq_zero_iff.mpr between, counter_of_stats stats, gauge] at total
    rw [counter_of_stats stats] at accepted closed
    change s.tcpAccepted = _ at accepted
    change s.tcpClosed = _ at closed
    refine ⟨gauge, ?_⟩
    rw [accepted, total, closed, Nat.zero_add, Nat.add_zero]

/-- The next step of a connection is possible whatever its peers do. -/
theorem connection_goes_on {app : RunningApp} (shutdown : app.shutdown = true) {port : Nat}
    {next : TcpProxy} (runs : next ≠ .finished) :
    ∃ k app' t' new, settles (.thread 0 k) = true ∧
      Step app (.connection port next) k app' t' new := by
  cases next with
  | connect => exact ⟨.shutdown, _, _, _, rfl, .connectInterrupted (.inr ⟨rfl, shutdown⟩)⟩
  | copy => exact ⟨.shutdown, _, _, _, rfl, .copyInterrupted (.inr ⟨rfl, shutdown⟩)⟩
  | record ops =>
      cases ops with
      | nil => exact ⟨.go, _, _, _, rfl, .dropPermit⟩
      | cons op ops => exact ⟨.go, _, _, _, rfl, .recordClose⟩
  | finish => exact ⟨.go, _, _, _, rfl, .finish⟩
  | finished => exact absurd rfl runs

/-- A listener waits for its own connections at most. -/
theorem listener_goes_on {app : RunningApp} (shutdown : app.shutdown = true)
    (closed : app.semaphore.closed = true) {port : Nat}
    (tracked : port < app.connections.length) (none : app.running port = 0) {next : TcpRun}
    (runs : next ≠ .returned) :
    ∃ k app' t' new, settles (.thread 0 k) = true ∧
      Step app (.listener port next) k app' t' new := by
  cases next with
  | acquire => exact ⟨.closed, _, _, _, rfl, .acquireClosed closed⟩
  | accept => exact ⟨.shutdown, _, _, _, rfl, .acceptCancelled shutdown⟩
  | record ops =>
      cases ops with
      | nil => exact ⟨.go, _, _, _, rfl, .spawn⟩
      | cons op ops => exact ⟨.go, _, _, _, rfl, .recordAccept⟩
  | refuse => exact ⟨.go, _, _, _, rfl, .refuse⟩
  | leave => exact ⟨.go, _, _, _, rfl, .leave⟩
  | joinNext =>
      have found := List.getElem?_eq_getElem tracked
      by_cases finished : 0 < app.connections[port].finished
      · exact ⟨.go, _, _, _, rfl, .joinNext found finished⟩
      · have idle : app.connections[port].running = 0 := by
          simpa [running, found] using none
        exact ⟨.go, _, _, _, rfl, .joined found ⟨by omega, idle⟩⟩
  | returned => exact absurd rfl runs

/-- What `shutdown` has set up: the token is cancelled and the semaphore closed. -/
structure ShuttingDown (config : RuntimeConfig) (p : Pool RunningApp Task) : Prop where
  reached : machine.Reachable (start config) p
  shutdown : p.shared.shutdown = true
  closed : p.shared.semaphore.closed = true

theorem ShuttingDown.step {a : Action Choice Env} (down : ShuttingDown config p)
    (taken : machine.step p a = some q) : ShuttingDown config q := by
  have flags : q.shared.shutdown = true ∧ q.shared.semaphore.closed = true := by
    cases a with
    | thread i k =>
        obtain ⟨t, app, t', new, found, own, rfl⟩ := Program.machine_thread_iff.mp taken
        obtain ⟨closed, shutdown⟩ := (step_iff.mp own).flags
        exact ⟨shutdown.trans down.shutdown, closed.trans down.closed⟩
    | env e =>
        obtain ⟨app, new, own, rfl⟩ := Program.machine_env_iff.mp taken
        refine ⟨env_shutdown own, ?_⟩
        cases e with
        | cancel =>
            cases own
            exact down.closed
        | close =>
            simp only [program, env, down.shutdown, if_true, Option.some.injEq,
              Prod.mk.injEq] at own
            rw [← own.1]
  exact ⟨down.reached.step taken, flags.1, flags.2⟩

theorem settles_thread (i j : Nat) (k : Choice) :
    settles (.thread i k) = settles (.thread j k) := by
  cases k <;> rfl

theorem ShuttingDown.goes_on (down : ShuttingDown config p) (busy : ¬ Ended config p) :
    ∃ a q, settles a = true ∧ machine.step p a = some q := by
  have go : ∀ {t}, t ∈ p.threads → (∃ k app' t' new, settles (.thread 0 k) = true ∧
      Step p.shared t k app' t' new) → ∃ a q, settles a = true ∧ machine.step p a = some q := by
    rintro t member ⟨k, app', t', new, own, taken⟩
    obtain ⟨i, found⟩ := List.mem_iff_getElem?.mp member
    exact ⟨.thread i k, _, (settles_thread i 0 k).trans own,
      Program.machine_thread_iff.mpr ⟨t, app', t', new, found, step_iff.mpr taken, rfl⟩⟩
  -- Connections first: with all of them finished, no listener has to wait.
  by_cases runs : ∃ port next, .connection port next ∈ p.threads ∧ next ≠ .finished
  · obtain ⟨port, next, member, unfinished⟩ := runs
    exact go member (connection_goes_on down.shutdown unfinished)
  · have finished : ∀ port next, .connection port next ∈ p.threads → next = .finished :=
      fun port next member => by_contra fun other => runs ⟨port, next, member, other⟩
    have none : ∀ i, p.shared.running i = 0 := by
      intro i
      rw [running_eq down.reached]
      refine weight_eq_zero_iff.mpr fun t member => ?_
      cases t with
      | listener => rfl
      | connection port next =>
          rw [finished port next member]
          rfl
    by_cases listens : ∃ port next, .listener port next ∈ p.threads ∧ next ≠ .returned
    · obtain ⟨port, next, member, unreturned⟩ := listens
      have tracked := ((valid down.reached) _ member).tracked
      exact go member (listener_goes_on down.shutdown down.closed tracked (none port) unreturned)
    · refine absurd (ended_of_tasks down.reached fun t member => ?_) busy
      cases t with
      | listener port next =>
          have returned := by_contra fun other => listens ⟨port, next, member, other⟩
          rw [returned]
          rfl
      | connection port next =>
          rw [finished port next member]
          rfl

theorem ShuttingDown.work_step {a : Action Choice Env} (down : ShuttingDown config p)
    (taken : machine.step p a = some q) :
    if settles a then work q < work p else work q = work p := by
  cases a with
  | thread i k =>
      obtain ⟨t, app, t', new, found, own, rfl⟩ := Program.machine_thread_iff.mp taken
      have tracked := ((valid down.reached).get found).tracked
      have change := (step_iff.mp own).work down.closed tracked i
      have exchange := weight_set workOf t' found
      simp only [work, weight_append]
      split <;> simp_all <;> omega
  | env e =>
      obtain ⟨app, new, own, rfl⟩ := Program.machine_env_iff.mp taken
      obtain ⟨-, -, connections, -, rfl⟩ := env_frame own
      simp [settles, work, toJoin, connections]

theorem settles_shutdown (config : RuntimeConfig) :
    machine.Settles (ShuttingDown config) settles work (Ended config) where
  keeps _ _ _ down taken := down.step taken
  lowers s a t down own taken := by
    have change := down.work_step taken
    rwa [own, if_pos rfl] at change
  leaves s a t down other taken := by
    have change := down.work_step taken
    rw [other, if_neg Bool.false_ne_true] at change
    exact change.le
  progress _ down busy := down.goes_on busy

/-! ### The shutdown ends -/

/-- From here on the steps that do not copy data are bounded, nothing blocks before the
end, and a run that does not starve the other steps gets there. -/
structure Terminates (config : RuntimeConfig) (p : Pool RunningApp Task) : Prop where
  bounded : ∀ as q, machine.run p as = some q →
    machine.count (fun _ a => settles a) p as ≤ work p
  unblocked : ∀ as q, machine.run p as = some q →
    (∀ a, settles a = true → machine.step q a = none) → Ended config q
  completes : ∀ as q, machine.run p as = some q →
    ∃ bs r, machine.run q bs = some r ∧ Ended config r
  eventually : ∀ state action, state 0 = p → machine.Forever state action →
    (∀ n, ¬ Ended config (state n) → ∃ m, n ≤ m ∧ settles (action m) = true) →
    ∃ n, Ended config (state n)

theorem shutdown_terminates (reached : machine.Reachable (start config) p)
    (shutdown : p.shared.shutdown = true) (closed : p.shared.semaphore.closed = true) :
    Terminates config p := by
  have rests := settles_shutdown config
  have down : ShuttingDown config p := ⟨reached, shutdown, closed⟩
  constructor
  · intro as q complete
    exact (Nat.le_add_right ..).trans (rests.count_add_le down complete)
  · intro as q complete
    exact rests.done_of_stuck (rests.run down complete)
  · intro as q complete
    obtain ⟨bs, r, rest, -, ended⟩ := rests.completes (rests.run down complete)
    exact ⟨bs, r, rest, ended⟩
  · rintro state action rfl forever fair
    exact rests.eventually forever down fair

/-- The shutdown finds one connection in the middle of its copying and one listener that
waits for the only permit. -/
def interrupted : List (Action Choice Env) :=
  List.replicate 5 (.thread 0 .go) ++
    [.thread 2 .go, .thread 2 (.copyIn 5), .env .cancel, .env .close]

theorem interrupted_accepted : (machine.run (start twoPorts) interrupted).isSome := by decide

theorem shutdown_terminates_interrupted :
    Terminates twoPorts
      ((machine.run (start twoPorts) interrupted).get interrupted_accepted) :=
  shutdown_terminates (Machine.reachable_get interrupted_accepted) (by decide) (by decide)

end RangePorter.RunningApp
