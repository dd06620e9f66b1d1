import RangePorter.Listener.Tcp

/-!
# Permits and connection counters

A permit is always in exactly one place: in the semaphore, with a listener, or with
a connection's task. The gauge of active connections counts the tasks and listeners
that have raised it and not yet lowered it, and each of them holds a permit, so the
gauges of all ports together stay within the cap.
-/

namespace RangePorter.RunningApp

open Interleaving

variable {config : RuntimeConfig} {p : Pool RunningApp Task}

/-! ### Where the permits are -/

def heldByListener : Task → Nat
  | .listener _ .accept | .listener _ (.record _) | .listener _ .refuse | .listener _ .leave => 1
  | _ => 0

def heldByConnection : Task → Nat
  | .connection _ .connect | .connection _ (.copy ..) | .connection _ (.record _) => 1
  | _ => 0

def held (t : Task) : Nat := heldByListener t + heldByConnection t

theorem available_add_held (reached : machine.Reachable (start config) p) :
    p.shared.semaphore.available + weight held p.threads = config.maxTcpConnections := by
  have balance : InBalance (fun app => app.semaphore.available)
      (fun _ => config.maxTcpConnections) held (fun _ => 0) p := by
    refine .of_reachable reached ?_ ?_ ?_
    · simp [InBalance, start, weight_map, held, heldByListener, heldByConnection]
    · intro p i k t app t' new _ _ _ taken
      cases step_iff.mp taken with
      | acquire opened free =>
          simp [held, heldByListener, heldByConnection]
          omega
      | _ => simp [held, heldByListener, heldByConnection, update, spawn, finish, joinNext]
    · intro p e app new _ taken
      obtain ⟨available, -, -, -, rfl⟩ := env_frame taken
      simp [available]
  simpa [InBalance] using balance

/-! ### What a task has still to record -/

def Task.port : Task → Nat
  | .listener port _ | .connection port _ => port

@[simp] theorem port_listener (port : Nat) (next : TcpRun) :
    (Task.listener port next).port = port := rfl

@[simp] theorem port_connection (port : Nat) (next : TcpProxy) :
    (Task.connection port next).port = port := rfl

/-- The updates that are left are the end of the method's updates. -/
def Task.Recording : Task → Prop
  | .listener _ (.record ops) => ops <:+ PortStats.recordTcpAccept
  | .connection _ (.record ops) =>
      ∃ i o, ops <:+ PortStats.addTcpBytes i o ++ PortStats.recordTcpClose
  | _ => True

/-- The task belongs to a port of the configuration. -/
structure Valid (app : RunningApp) (t : Task) : Prop where
  counted : t.port < app.stats.length
  tracked : t.port < app.connections.length
  recording : t.Recording

theorem Step.lengths {app app' : RunningApp} {t t' : Task} {k : Choice} {new : List Task}
    (taken : Step app t k app' t' new) :
    app'.stats.length = app.stats.length ∧
      app'.connections.length = app.connections.length ∧ t'.port = t.port := by
  cases taken <;> simp [update, RunningApp.spawn, RunningApp.finish, RunningApp.joinNext]

theorem Step.recording {app app' : RunningApp} {t t' : Task} {k : Choice} {new : List Task}
    (taken : Step app t k app' t' new) (recording : t.Recording) : t'.Recording := by
  cases taken with
  | accept => exact List.suffix_refl _
  | recordAccept => exact (List.suffix_cons ..).trans recording
  | recordClose =>
      obtain ⟨i, o, suffix⟩ := recording
      exact ⟨i, o, (List.suffix_cons ..).trans suffix⟩
  | copied => exact ⟨_, _, List.suffix_refl _⟩
  | connectInterrupted | copyInterrupted => exact ⟨0, 0, List.suffix_append ..⟩
  | _ => trivial

theorem valid (reached : machine.Reachable (start config) p) : AllThreads Valid p := by
  refine .of_reachable reached ?_ ?_ ?_
  · intro t member
    obtain ⟨port, bound, rfl⟩ := List.mem_map.mp member
    rw [List.mem_range] at bound
    exact ⟨by simpa [start, Task.port] using bound, by simpa [start, Task.port] using bound,
      trivial⟩
  · intro p i k t app t' new _ before found taken
    have step := step_iff.mp taken
    obtain ⟨stats, connections, port⟩ := step.lengths
    have own := before.get found
    have frame : ∀ u, Valid p.shared u → Valid app u := fun u h =>
      ⟨by rw [stats]; exact h.counted, by rw [connections]; exact h.tracked, h.recording⟩
    refine ⟨⟨?_, ?_, step.recording own.recording⟩, ?_, fun u _ => frame u⟩
    · rw [stats, port]
      exact own.counted
    · rw [connections, port]
      exact own.tracked
    · intro u member
      cases step with
      | spawn =>
          rw [List.mem_singleton.mp member]
          exact ⟨by simpa [spawn] using own.counted, by simpa [spawn] using own.tracked, trivial⟩
      | _ => cases member
  · intro p e app new _ taken
    obtain ⟨-, stats, connections, -, rfl⟩ := env_frame taken
    exact ⟨nofun, fun u _ h =>
      ⟨by rw [stats]; exact h.counted, by rw [connections]; exact h.tracked, h.recording⟩⟩

/-! ### The updates one by one -/

theorem recordAccept_cases {op : CounterOp} {ops : List CounterOp}
    (suffix : op :: ops <:+ PortStats.recordTcpAccept) :
    (op = .fetchAdd .tcpAccepted 1 ∧ ops = [.fetchAdd .tcpActive 1]) ∨
      (op = .fetchAdd .tcpActive 1 ∧ ops = []) := by
  simpa [PortStats.recordTcpAccept, List.suffix_cons_iff] using suffix

theorem recordClose_cases {op : CounterOp} {ops : List CounterOp} {i o : Nat}
    (suffix : op :: ops <:+ PortStats.addTcpBytes i o ++ PortStats.recordTcpClose) :
    (op = .fetchAdd .tcpInBytes i ∧ ops = .fetchAdd .tcpOutBytes o :: PortStats.recordTcpClose) ∨
    (op = .fetchAdd .tcpOutBytes o ∧ ops = PortStats.recordTcpClose) ∨
    (op = .saturatingDecrement .tcpActive ∧ ops = [.fetchAdd .tcpClosed 1]) ∨
    (op = .fetchAdd .tcpClosed 1 ∧ ops = []) := by
  simpa [PortStats.addTcpBytes, PortStats.recordTcpClose, List.suffix_cons_iff] using suffix

theorem counter_update {app : RunningApp} {port : Nat} (bound : port < app.stats.length)
    (op : CounterOp) (i : Nat) (c : Counter) :
    (app.update port op).counter i c =
      if port = i ∧ op.counter = c then op.result (app.counter i c) else app.counter i c := by
  unfold counter update
  rw [List.getElem?_modify]
  by_cases same : port = i
  · subst same
    by_cases own : op.counter = c
    · subst own
      simp [List.getElem?_eq_getElem bound]
    · simp [List.getElem?_eq_getElem bound, own, PortStats.load_apply_of_ne _ (Ne.symm own)]
  · simp [same]

theorem counter_start (config : RuntimeConfig) (i : Nat) (c : Counter) :
    (start config).shared.counter i c = 0 := by
  simp only [counter, start, List.getElem?_map]
  cases config.listenPorts[i]? <;> simp

/-! ### The gauge -/

/-- The task has raised the gauge of the port and not yet lowered it. -/
def opens (i : Nat) : Task → Nat
  | .listener port (.record ops) => if port = i ∧ ops = [] then 1 else 0
  | .connection port .connect | .connection port (.copy ..) => if port = i then 1 else 0
  | .connection port (.record ops) =>
      if port = i ∧ .saturatingDecrement .tcpActive ∈ ops then 1 else 0
  | _ => 0

theorem opens_le_held (i : Nat) (t : Task) : opens i t ≤ held t := by
  unfold opens held heldByListener heldByConnection
  split <;> (try split) <;> simp

theorem opens_start (config : RuntimeConfig) (i : Nat) :
    weight (opens i) (start config).threads = 0 := by
  simp [start, weight_map, opens]

/-- A task that holds a permit and has not raised the gauge can raise it without
overflow. -/
theorem opens_fits (reached : machine.Reachable (start config) p) {i j : Nat} {t : Task}
    (found : p.threads[j]? = some t) (holds : held t = 1) (before : opens i t = 0) :
    weight (opens i) p.threads + 1 < u64Size := by
  have permits := available_add_held reached
  have split : weight held p.threads =
      weight (fun t => held t - opens i t) p.threads + weight (opens i) p.threads := by
    rw [← weight_add]
    congr 1
    funext u
    have := opens_le_held i u
    omega
  have counted := le_weight (fun t => held t - opens i t) found
  simp only [holds, before] at counted
  have fits := config.fits
  omega

/-- The gauge of a port counts the tasks that have raised it. -/
theorem active_eq (reached : machine.Reachable (start config) p) (i : Nat) :
    p.shared.counter i .tcpActive = weight (opens i) p.threads := by
  have balance : InBalance (fun app => app.counter i .tcpActive) (fun _ => 0)
      (fun _ => 0) (opens i) p := by
    refine .of_reachable reached ?_ ?_ ?_
    · simp [InBalance, counter_start, opens_start]
    · intro p j k t app t' new reached before found taken
      have own := (valid reached).get found
      have owed := le_weight (opens i) found
      simp only [InBalance, weight_zero] at before
      cases step_iff.mp taken with
      | @recordAccept port op ops =>
          have bound : port < p.shared.stats.length := own.counted
          rw [counter_update bound]
          rcases recordAccept_cases own.recording with ⟨rfl, rfl⟩ | ⟨rfl, rfl⟩
          · simp [opens]
          · have fits := opens_fits reached (i := i) found rfl (by simp [opens])
            have exact : wrappingAdd (p.shared.counter i .tcpActive) 1 =
              p.shared.counter i .tcpActive + 1 := wrappingAdd_eq (by omega)
            by_cases same : port = i <;> simp [opens, same, exact]
      | @recordClose port op ops =>
          obtain ⟨inBytes, outBytes, suffix⟩ := own.recording
          have bound : port < p.shared.stats.length := own.counted
          rw [counter_update bound]
          rcases recordClose_cases suffix with ⟨rfl, rfl⟩ | ⟨rfl, rfl⟩ | ⟨rfl, rfl⟩ | ⟨rfl, rfl⟩
          · simp [opens]
          · simp [opens]
          · by_cases same : port = i
            · simp [opens, same] at owed ⊢
              omega
            · simp [opens, same]
          · simp [opens]
      | _ =>
          simp [opens, counter, spawn, finish, joinNext, PortStats.recordTcpAccept,
            PortStats.recordTcpClose]
    · intro p e app new _ taken
      obtain ⟨-, stats, -, -, rfl⟩ := env_frame taken
      simp [counter, stats]
  simpa [InBalance] using balance

theorem opens_eq_zero_of_ne {i : Nat} {t : Task} (other : t.port ≠ i) : opens i t = 0 := by
  unfold opens
  split <;> simp_all [Task.port]

/-- No task is counted at two ports. -/
theorem sum_opens_le (n : Nat) (t : Task) :
    ((List.range n).map fun i => opens i t).sum ≤ held t := by
  rw [sum_range_of_unique (k := t.port) fun i other => opens_eq_zero_of_ne (Ne.symm other)]
  have le := opens_le_held t.port t
  split <;> omega

/-- The gauges of all ports together stay within the cap. -/
theorem sum_active_le (reached : machine.Reachable (start config) p) :
    (p.shared.stats.map fun s => s.load .tcpActive).sum ≤ config.maxTcpConnections := by
  have gauges : p.shared.stats.map (fun s => s.load .tcpActive) =
      (List.range p.shared.stats.length).map fun i => weight (opens i) p.threads := by
    apply List.ext_getElem (by simp)
    intro i bound _
    rw [List.length_map] at bound
    simp [← active_eq reached i, counter, List.getElem?_eq_getElem bound]
  have permits := available_add_held reached
  have le : weight (fun t => ((List.range p.shared.stats.length).map fun i => opens i t).sum)
      p.threads ≤ weight held p.threads :=
    weight_le_weight fun t _ => sum_opens_le p.shared.stats.length t
  rw [gauges, sum_weight]
  omega

/-! ### Accepts and closes -/

/-- How often the counter of the port was updated. -/
def updatesOf (app : RunningApp) (i : Nat) (c : Counter) : Nat :=
  app.updates.countP fun u => u.port = i ∧ u.op.counter = c

theorem updatesOf_update (app : RunningApp) (port : Nat) (op : CounterOp) (i : Nat)
    (c : Counter) : (app.update port op).updatesOf i c =
      app.updatesOf i c + if port = i ∧ op.counter = c then 1 else 0 := by
  simp [updatesOf, update, List.countP_append, List.countP_cons]

theorem counter_eq_update {app : RunningApp} {port : Nat} {op : CounterOp} {c : Counter} {i : Nat}
    (bound : port < app.stats.length) (one : op.counter = c → op = .fetchAdd c 1)
    (before : app.counter i c = app.updatesOf i c % u64Size) :
    (app.update port op).counter i c = (app.update port op).updatesOf i c % u64Size := by
  rw [counter_update bound, updatesOf_update]
  by_cases own : port = i ∧ op.counter = c
  · rw [if_pos own, if_pos own, one own.2, before]
    simp [wrappingAdd]
  · rw [if_neg own, if_neg own]
    exact before

/-- A counter that only ever grows by one is the number of its updates, as a `u64`. -/
theorem counter_eq_updatesOf (reached : machine.Reachable (start config) p) {c : Counter}
    (grows : c = .tcpAccepted ∨ c = .tcpClosed) (i : Nat) :
    p.shared.counter i c = p.shared.updatesOf i c % u64Size := by
  refine Program.reachable_induction (J := fun p =>
    p.shared.counter i c = p.shared.updatesOf i c % u64Size) reached ?_ ?_ ?_
  · rw [counter_start]
    rfl
  · intro p j k t app t' new reached before found taken
    have own := (valid reached).get found
    cases step_iff.mp taken with
    | recordAccept =>
        refine counter_eq_update own.counted ?_ before
        rcases recordAccept_cases own.recording with ⟨rfl, rfl⟩ | ⟨rfl, rfl⟩ <;>
          rcases grows with rfl | rfl <;> simp
    | recordClose =>
        obtain ⟨inBytes, outBytes, suffix⟩ := own.recording
        refine counter_eq_update own.counted ?_ before
        rcases recordClose_cases suffix with ⟨rfl, rfl⟩ | ⟨rfl, rfl⟩ | ⟨rfl, rfl⟩ | ⟨rfl, rfl⟩ <;>
          rcases grows with rfl | rfl <;> simp
    | _ => exact before
  · intro p e app new _ before taken
    obtain ⟨-, stats, -, updates, -⟩ := env_frame taken
    simpa [counter, updatesOf, stats, updates] using before

/-- The task is between the two updates of `record_tcp_accept` or `record_tcp_close`. -/
def midway (i : Nat) : Task → Nat
  | .listener port (.record ops) => if port = i ∧ ops = PortStats.recordTcpAccept.tail then 1 else 0
  | .connection port (.record ops) =>
      if port = i ∧ ops = PortStats.recordTcpClose.tail then 1 else 0
  | _ => 0

/-- The task's connection is recorded as accepted and not yet as closed. -/
def unclosed (i : Nat) (t : Task) : Nat := opens i t + midway i t

theorem accepted_eq_closed_add (reached : machine.Reachable (start config) p) (i : Nat) :
    p.shared.updatesOf i .tcpAccepted =
      p.shared.updatesOf i .tcpClosed + weight (unclosed i) p.threads := by
  have balance : InBalance (fun app => app.updatesOf i .tcpAccepted)
      (fun app => app.updatesOf i .tcpClosed) (fun _ => 0) (unclosed i) p := by
    refine .of_reachable reached ?_ ?_ ?_
    · simp [InBalance, start, weight_map, unclosed, opens, midway, updatesOf]
    · intro p j k t app t' new reached _ found taken
      have own := (valid reached).get found
      cases step_iff.mp taken with
      | @recordAccept port op ops =>
          simp only [updatesOf_update]
          obtain ⟨rfl, rfl⟩ | ⟨rfl, rfl⟩ := recordAccept_cases own.recording
          · by_cases same : port = i <;>
              simp [unclosed, opens, midway, same, PortStats.recordTcpAccept]
            omega
          · simp [unclosed, opens, midway, PortStats.recordTcpAccept]
      | @recordClose port op ops =>
          obtain ⟨inBytes, outBytes, suffix⟩ := own.recording
          simp only [updatesOf_update]
          obtain ⟨rfl, rfl⟩ | ⟨rfl, rfl⟩ | ⟨rfl, rfl⟩ | ⟨rfl, rfl⟩ := recordClose_cases suffix
          · simp [unclosed, opens, midway, PortStats.recordTcpClose]
          · simp [unclosed, opens, midway, PortStats.recordTcpClose]
          · simp [unclosed, opens, midway, PortStats.recordTcpClose]
          · by_cases same : port = i <;>
              simp [unclosed, opens, midway, same, PortStats.recordTcpClose]
      | _ =>
          simp [unclosed, opens, midway, updatesOf, spawn, finish, joinNext,
            PortStats.recordTcpAccept, PortStats.recordTcpClose, PortStats.addTcpBytes]
    · intro p e app new _ taken
      obtain ⟨-, -, -, updates, rfl⟩ := env_frame taken
      simp [updatesOf, updates]
  simpa [InBalance] using balance

/-- Every accepted connection is active, closed, or between two updates. -/
theorem accepted_eq (reached : machine.Reachable (start config) p) (i : Nat) :
    p.shared.updatesOf i .tcpAccepted =
      p.shared.counter i .tcpActive + p.shared.updatesOf i .tcpClosed +
        weight (midway i) p.threads := by
  have split : weight (unclosed i) p.threads =
      weight (opens i) p.threads + weight (midway i) p.threads := weight_add ..
  rw [accepted_eq_closed_add reached, split, active_eq reached]
  omega

/-- No decrement of the gauge has found it at zero. -/
theorem decrement_never_at_zero (reached : machine.Reachable (start config) p) :
    ∀ u ∈ p.shared.updates, u.op = .saturatingDecrement .tcpActive → 0 < u.before := by
  refine Program.reachable_induction (J := fun p => ∀ u ∈ p.shared.updates,
    u.op = .saturatingDecrement .tcpActive → 0 < u.before) reached (by simp [start]) ?_ ?_
  · intro p j k t app t' new reached before found taken u member decrement
    have own := (valid reached).get found
    cases step_iff.mp taken with
    | recordAccept =>
        rcases List.mem_append.mp member with old | fresh
        · exact before u old decrement
        · rw [List.mem_singleton.mp fresh] at decrement
          rcases recordAccept_cases own.recording with ⟨rfl, -⟩ | ⟨rfl, -⟩ <;> cases decrement
    | @recordClose port op ops =>
        rcases List.mem_append.mp member with old | fresh
        · exact before u old decrement
        · rw [List.mem_singleton.mp fresh] at decrement ⊢
          change op = _ at decrement
          subst decrement
          have raised := le_weight (opens port) found
          rw [← active_eq reached] at raised
          simpa [opens, Nat.pos_iff_ne_zero, Nat.one_le_iff_ne_zero] using raised
    | _ => exact before u member decrement
  · intro p e app new _ before taken
    obtain ⟨-, -, -, updates, -⟩ := env_frame taken
    rwa [updates]

/-! ### When a listener returns -/

/-- A task of the port's `JoinSet` that is not finished yet. -/
def runs (i : Nat) : Task → Nat
  | .connection _ .finished => 0
  | .connection port _ => if port = i then 1 else 0
  | _ => 0

def running (app : RunningApp) (i : Nat) : Nat :=
  (app.connections[i]?.map JoinSet.running).getD 0

theorem running_modify {app : RunningApp} {port : Nat} (bound : port < app.connections.length)
    {f : JoinSet → JoinSet} {g : Nat → Nat} (acts : ∀ set, (f set).running = g set.running)
    (i : Nat) : ((app.connections.modify port f)[i]?.map JoinSet.running).getD 0 =
      if port = i then g (app.running i) else app.running i := by
  unfold running
  rw [List.getElem?_modify]
  by_cases same : port = i
  · subst same
    simp [List.getElem?_eq_getElem bound, acts]
  · simp [same]

theorem running_spawn {app : RunningApp} {port : Nat} (bound : port < app.connections.length)
    (i : Nat) :
    (app.spawn port).running i = if port = i then app.running i + 1 else app.running i :=
  running_modify bound (g := (· + 1)) (fun _ => rfl) i

theorem running_finish {app : RunningApp} {port : Nat} (bound : port < app.connections.length)
    (i : Nat) :
    (app.finish port).running i = if port = i then app.running i - 1 else app.running i :=
  running_modify bound (g := (· - 1)) (fun _ => rfl) i

theorem running_joinNext {app : RunningApp} {port : Nat} (bound : port < app.connections.length)
    (i : Nat) : (app.joinNext port).running i = app.running i :=
  (running_modify bound (f := fun set => { set with finished := set.finished - 1 }) (g := id)
    (fun _ => rfl) i).trans (ite_self _)

/-- The set of a port tracks the tasks that run. -/
theorem running_eq (reached : machine.Reachable (start config) p) (i : Nat) :
    p.shared.running i = weight (runs i) p.threads := by
  have balance : InBalance (fun app => app.running i) (fun _ => 0) (fun _ => 0) (runs i) p := by
    refine .of_reachable reached ?_ ?_ ?_
    · have none : (start config).shared.running i = 0 := by
        simp only [running, start, List.getElem?_map]
        cases config.listenPorts[i]? <;> rfl
      rw [InBalance, none]
      simp [start, weight_map, runs]
    · intro p j k t app t' new reached before found taken
      have own := (valid reached).get found
      have owed := le_weight (runs i) found
      simp only [InBalance, weight_zero] at before
      cases step_iff.mp taken with
      | @spawn port =>
          have bound : port < p.shared.connections.length := own.tracked
          rw [running_spawn bound]
          by_cases same : port = i <;> simp [runs, same]
      | @finish port =>
          have bound : port < p.shared.connections.length := own.tracked
          rw [running_finish bound]
          by_cases same : port = i
          · simp [runs, same] at owed ⊢
            omega
          · simp [runs, same]
      | @joinNext port =>
          have bound : port < p.shared.connections.length := own.tracked
          rw [running_joinNext bound]
          simp [runs]
      | _ => simp [runs, running, update]
    · intro p e app new _ taken
      obtain ⟨-, -, connections, -, rfl⟩ := env_frame taken
      simp [running, connections]
  simpa [InBalance] using balance

def listens (i : Nat) : Task → Nat
  | .listener port _ => if port = i then 1 else 0
  | _ => 0

/-- Every port has one listener. -/
theorem listens_le_one (reached : machine.Reachable (start config) p) (i : Nat) :
    weight (listens i) p.threads ≤ 1 := by
  have bounded : Bounded (fun _ => 0) (fun _ => 1) (listens i) p := by
    refine .of_reachable reached ?_ ?_ ?_
    · have one := sum_range_of_unique (f := fun port => if port = i then 1 else 0) (k := i)
        (fun port other => if_neg other) config.listenPorts.length
      simp only [Bounded, start, weight_map, listens, one]
      split <;> simp
    · intro p j k t app t' new _ _ _ taken
      cases step_iff.mp taken <;> simp [listens]
    · intro p e app new _ taken
      obtain ⟨-, -, -, -, rfl⟩ := env_frame taken
      simp
  simpa [Bounded] using bounded

theorem listener_unique (reached : machine.Reachable (start config) p) {i : Nat}
    {next next' : TcpRun} (member : .listener i next ∈ p.threads)
    (member' : .listener i next' ∈ p.threads) : next = next' := by
  obtain ⟨j, found⟩ := List.mem_iff_getElem?.mp member
  obtain ⟨j', found'⟩ := List.mem_iff_getElem?.mp member'
  have same := index_unique_of_weight_le_one (listens_le_one reached i) found found'
    (by simp [listens]) (by simp [listens])
  subst same
  cases found.symm.trans found'
  rfl

/-- A listener returns after its last connection has finished. -/
theorem running_of_returned (reached : machine.Reachable (start config) p) :
    ∀ i, .listener i .returned ∈ p.threads → p.shared.running i = 0 := by
  refine Program.reachable_induction (J := fun p =>
    ∀ i, .listener i .returned ∈ p.threads → p.shared.running i = 0) reached ?_ ?_ ?_
  · intro i member
    simp [start] at member
  · intro p j k t app t' new reached before found taken i member
    have own := (valid reached).get found
    have step := step_iff.mp taken
    -- A returned listener is the port's only one, so nobody else spawns for the port.
    have other : ∀ next, t = .listener i next → next ≠ .returned →
        Task.listener i .returned ∉ p.threads := by
      rintro next rfl running returned
      exact running (listener_unique reached (List.mem_of_getElem? found) returned)
    rcases List.mem_append.mp member with kept | spawned
    · rcases List.mem_or_eq_of_mem_set kept with old | rfl
      · have none := before i old
        cases step with
        | @spawn port =>
            have bound : port < p.shared.connections.length := own.tracked
            simp only [running_spawn bound]
            by_cases same : port = i
            · subst same
              exact absurd old (other _ rfl nofun)
            · rw [if_neg same, none]
        | @finish port =>
            have bound : port < p.shared.connections.length := own.tracked
            simp only [running_finish bound, none]
            split <;> rfl
        | @joinNext port =>
            have bound : port < p.shared.connections.length := own.tracked
            simp only [running_joinNext bound, none]
        | _ => exact none
      · cases step with
        | joined tracked none => simp [running, tracked, none.2]
    · cases step with
      | spawn => simp at spawned
      | _ => cases spawned
  · intro p e app new _ before taken i member
    obtain ⟨-, -, connections, -, rfl⟩ := env_frame taken
    rw [running, connections]
    exact before i (by simpa using member)

/-- Nothing is left to do for the port of a listener that has returned. -/
theorem settled_of_returned (reached : machine.Reachable (start config) p) {i : Nat}
    (returned : .listener i .returned ∈ p.threads) :
    weight (opens i) p.threads = 0 ∧ weight (midway i) p.threads = 0 := by
  have none : weight (runs i) p.threads = 0 := by
    rw [← running_eq reached, running_of_returned reached i returned]
  have each : ∀ t ∈ p.threads, opens i t = 0 ∧ midway i t = 0 := by
    intro t member
    cases t with
    | listener port next =>
        by_cases same : port = i
        · subst same
          rw [listener_unique reached member returned]
          exact ⟨rfl, rfl⟩
        · exact ⟨opens_eq_zero_of_ne same, by cases next <;> simp [midway, same]⟩
    | connection port next =>
        have idle := weight_eq_zero_iff.mp none _ member
        cases next with
        | finished => exact ⟨rfl, rfl⟩
        | _ =>
            have other : port ≠ i := by simpa [runs] using idle
            exact ⟨opens_eq_zero_of_ne other, by simp [midway, other]⟩
  exact ⟨weight_eq_zero_iff.mpr fun t member => (each t member).1,
    weight_eq_zero_iff.mpr fun t member => (each t member).2⟩

/-! ### All of it -/

theorem counter_of_stats {app : RunningApp} {i : Nat} {s : PortStats}
    (stats : app.stats[i]? = some s) (c : Counter) : app.counter i c = s.load c := by
  simp [counter, stats]

/-- What holds of permits and connection counters in a reachable pool. -/
structure Conserved (config : RuntimeConfig) (p : Pool RunningApp Task) : Prop where
  permits : p.shared.semaphore.available + weight heldByListener p.threads +
    weight heldByConnection p.threads = config.maxTcpConnections
  active_le : (p.shared.stats.map fun s => s.load .tcpActive).sum ≤ config.maxTcpConnections
  /-- The counters are `u64`s; the plain sum holds until `2^64` connections were
  accepted on the port. -/
  accepted_eq : ∀ i s, p.shared.stats[i]? = some s → (∀ t ∈ p.threads, midway i t = 0) →
    s.tcpAccepted = wrappingAdd s.tcpActive s.tcpClosed ∧
      (p.shared.updatesOf i .tcpAccepted < u64Size →
        s.tcpAccepted = s.tcpActive + s.tcpClosed)
  never_at_zero : ∀ u ∈ p.shared.updates, u.op = .saturatingDecrement .tcpActive → 0 < u.before
  returned : ∀ i s, .listener i .returned ∈ p.threads → p.shared.stats[i]? = some s →
    s.tcpActive = 0 ∧ s.tcpAccepted = s.tcpClosed

theorem conserved (reached : machine.Reachable (start config) p) : Conserved config p where
  permits := by
    have permits := available_add_held reached
    rw [show held = fun t => heldByListener t + heldByConnection t from rfl, weight_add] at permits
    omega
  active_le := sum_active_le reached
  accepted_eq := by
    intro i s stats between
    have total := accepted_eq reached i
    have accepted := counter_eq_updatesOf reached (.inl rfl) i
    have closed := counter_eq_updatesOf reached (.inr rfl) i
    rw [weight_eq_zero_iff.mpr between, Nat.add_zero] at total
    rw [counter_of_stats stats] at total accepted closed
    change s.tcpAccepted = _ at accepted
    change s.tcpClosed = _ at closed
    change _ = s.tcpActive + _ at total
    constructor
    · rw [accepted, closed, total, wrappingAdd, Nat.add_mod_mod]
    · intro few
      rw [accepted, closed, Nat.mod_eq_of_lt few, Nat.mod_eq_of_lt (by omega), total]
  never_at_zero := decrement_never_at_zero reached
  returned := by
    intro i s member stats
    obtain ⟨noOpen, noMidway⟩ := settled_of_returned reached member
    have gauge := active_eq reached i
    have total := accepted_eq reached i
    have accepted := counter_eq_updatesOf reached (.inl rfl) i
    have closed := counter_eq_updatesOf reached (.inr rfl) i
    rw [noOpen] at gauge
    rw [noMidway, gauge] at total
    rw [counter_of_stats stats] at gauge accepted closed
    refine ⟨gauge, ?_⟩
    change s.tcpAccepted = _ at accepted
    change s.tcpClosed = _ at closed
    rw [accepted, closed, total]
    simp

/-- One connection comes and goes, then the app shuts down and its listener returns. -/
def oneConnection : List (Action Choice Env) :=
  List.replicate 5 (.thread 0 .go) ++
    [.thread 2 .go, .thread 2 (.copyIn 5), .thread 2 .endIn, .thread 2 .endOut] ++
    List.replicate 7 (.thread 2 .go) ++
    [.env .cancel, .env .close, .thread 0 .shutdown, .thread 0 .go, .thread 0 .go]

def twoPorts : RuntimeConfig where
  listenPorts := [1000, 1001]
  maxTcpConnections := 1
  distinct := by decide
  nonempty := by decide
  positive := by decide
  fits := by decide

theorem oneConnection_accepted : (machine.run (start twoPorts) oneConnection).isSome := by decide

theorem conserved_oneConnection :
    Conserved twoPorts ((machine.run (start twoPorts) oneConnection).get oneConnection_accepted) :=
  conserved (Machine.reachable_get oneConnection_accepted)

end RangePorter.RunningApp
