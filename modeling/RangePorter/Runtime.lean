import RangePorter.Config
import RangePorter.Listener.Tcp
import RangePorter.Socket
import RangePorter.Stats.Registry

/-!
# Starting the application

`runtime::start` binds the socket of the statistics and then two sockets for each port,
and spawns all tasks once every socket is bound. So it either starts everything or leaves
nothing open, and the first call that fails decides the error. It panics if the semaphore
or the ring of buckets cannot be as large as configured.
-/

namespace RangePorter.Runtime

open Resources Program

/-- `Semaphore::MAX_PERMITS`. -/
def maxPermits : Nat := (u64Size - 1) / 2 ^ 3

/-- Too many permits panic. -/
def newSemaphore (permits : Nat) : Option Semaphore :=
  if permits ≤ maxPermits then some ⟨permits, false⟩ else none

/-- The bytes of a `MinuteBucket`. -/
def minuteBucketSize : Nat := 8 * 8

/-- No allocation is larger than `isize::MAX` bytes. -/
def maxAllocation : Nat := 2 ^ 63 - 1

/-- A vector of buckets that is too large panics; for any other there is memory. -/
def newStats (config : Config.RuntimeConfig) (now : Nat) : Option StatsRegistry :=
  if max config.statsWindow.toNat 1 * minuteBucketSize ≤ maxAllocation then
    some (.new (config.listenPorts.map BitVec.toNat) (.ofList config.target.display)
      config.statsWindow.toNat now)
  else none

/-- A task of the `JoinSet`. -/
inductive Spawned where
  | runRollup
  | summaryLoop (interval : Duration)
  | serve (listener : Handle)
  /-- `listener::tcp::run`, with the position of its counters. -/
  | tcpRun (listener : Handle) (stats : Nat)
  | udpRun (socket : Handle) (idleTimeout : Duration) (stats : Nat)
  deriving DecidableEq, Repr

structure RunningApp where
  statsBind : Option SocketAddr
  stats : StatsRegistry
  semaphore : Semaphore
  tasks : List Spawned
  deriving DecidableEq

/-- The two sockets of a port. -/
structure Listener where
  port : PortSet.Port
  tcpListener : Handle
  udpSocket : Handle
  deriving DecidableEq, Repr

def Listener.handles (listener : Listener) : List Handle :=
  [listener.tcpListener, listener.udpSocket]

def failedTo (what : String) (address : SocketAddr) : String :=
  "failed to bind " ++ what ++ " on " ++ String.ofList address.display

/-- The address that a socket is bound to is up to the kernel. -/
def bindStats (localAddr : Handle → SocketAddr) :
    Option SocketAddr → Program SysCall (Option (Handle × SocketAddr))
  | none => return none
  | some address => do
      let listener ← (bindTcpListener address).context (failedTo "stats listener" address)
      holding [listener] do
        (call (.localAddr listener)).context "failed to read bound stats address"
        return some (listener, localAddr listener)

/-- What is bound before an error is dropped with the vector of listeners. -/
def bindListeners (listenHost : IpAddr) : List PortSet.Port → Program SysCall (List Listener)
  | [] => return []
  | port :: ports => do
      let listenAddr := SocketAddr.new listenHost port
      let tcpListener ← (bindTcpListener listenAddr).context (failedTo "TCP listener" listenAddr)
      holding [tcpListener] do
        let udpSocket ← (bindUdpSocket listenAddr).context (failedTo "UDP socket" listenAddr)
        holding [udpSocket] do
          let listeners ← bindListeners listenHost ports
          return ⟨port, tcpListener, udpSocket⟩ :: listeners

/-- The two tasks of a port; `none` stands for the panic of `StatsRegistry::port`. -/
def spawnListener (config : Config.RuntimeConfig) (stats : StatsRegistry) (listener : Listener) :
    Option (List Spawned) :=
  (stats.port listener.port.toNat).map fun i =>
    [.tcpRun listener.tcpListener i, .udpRun listener.udpSocket config.udpIdleTimeout i]

def spawnAll (config : Config.RuntimeConfig) (semaphore : Semaphore) (stats : StatsRegistry)
    (statsEndpoint : Option (Handle × SocketAddr)) (listeners : List Listener) :
    Option RunningApp := do
  let summary := if config.summaryInterval = 0 then [] else
    [Spawned.summaryLoop config.summaryInterval]
  let serve := statsEndpoint.toList.map fun endpoint => Spawned.serve endpoint.1
  let ports ← listeners.mapM (spawnListener config stats)
  some ⟨statsEndpoint.map Prod.snd, stats, semaphore,
    .runRollup :: (summary ++ serve ++ ports.flatten)⟩

/-- The result `none` stands for a panic. -/
def start (localAddr : Handle → SocketAddr) (config : Config.RuntimeConfig) (now : Nat) :
    Program SysCall (Option RunningApp) :=
  match newSemaphore config.maxTcpConnections.toNat, newStats config now with
  | some semaphore, some stats => do
      let statsEndpoint ← bindStats localAddr config.statsBind
      holding (statsEndpoint.toList.map Prod.fst) do
        let listeners ← bindListeners config.listenHost config.listenPorts
        return spawnAll config semaphore stats statsEndpoint listeners
  | _, _ => return none

/-! ### The calls, in their order -/

def socketCalls (message : String) (calls : List SysCall) : List (List String × SysCall) :=
  calls.map fun c => ([message], c)

def tcpCalls (address : SocketAddr) (n : Handle) : List SysCall :=
  [.socket (domainFor address) .stream, .setReuseAddress n true, .bind n address, .listen n 1024,
    .setNonblocking n true, .fromStd n]

def udpCalls (address : SocketAddr) (n : Handle) : List SysCall :=
  [.socket (domainFor address) .dgram, .setReuseAddress n true,
    .setSendBufferSize n udpSocketBufferBytes, .setRecvBufferSize n udpSocketBufferBytes,
    .bind n address, .setNonblocking n true, .fromStd n]

/-- The calls for the endpoint of the statistics, from position `n` on. -/
def statsCalls (n : Handle) : Option SocketAddr → List (List String × SysCall)
  | none => []
  | some address =>
      socketCalls (failedTo "stats listener" address) (tcpCalls address n) ++
        [(["failed to read bound stats address"], .localAddr n)]

/-- The calls for the ports; each of them takes thirteen. -/
def listenersCalls (listenHost : IpAddr) :
    Handle → List PortSet.Port → List (List String × SysCall)
  | _, [] => []
  | n, port :: ports =>
      let listenAddr := SocketAddr.new listenHost port
      socketCalls (failedTo "TCP listener" listenAddr) (tcpCalls listenAddr n) ++
        socketCalls (failedTo "UDP socket" listenAddr) (udpCalls listenAddr (n + 6)) ++
        listenersCalls listenHost (n + 13) ports

def listeners : Handle → List PortSet.Port → List Listener
  | _, [] => []
  | n, port :: ports => ⟨port, n, n + 6⟩ :: listeners (n + 13) ports

def statsPlan (localAddr : Handle → SocketAddr) (statsBind : Option SocketAddr) (n : Handle) :
    Plan SysCall (Option (Handle × SocketAddr)) where
  calls := statsCalls n statsBind
  value := statsBind.map fun _ => (n, localAddr n)
  handles := (statsBind.map fun _ => n).toList

def listenersPlan (listenHost : IpAddr) (ports : List PortSet.Port) (n : Handle) :
    Plan SysCall (List Listener) where
  calls := listenersCalls listenHost n ports
  value := listeners n ports
  handles := (listeners n ports).flatMap Listener.handles

variable {localAddr : Handle → SocketAddr} {config : Config.RuntimeConfig} {now : Nat}

theorem follows_bindTcpListener (address : SocketAddr) (message : String) :
    Follows ((bindTcpListener address).context message) fun n =>
      ⟨socketCalls message (tcpCalls address n), n, [n]⟩ :=
  (follows_openSocket _ _ _).context message

theorem follows_bindUdpSocket (address : SocketAddr) (message : String) :
    Follows ((bindUdpSocket address).context message) fun n =>
      ⟨socketCalls message (udpCalls address n), n, [n]⟩ :=
  (follows_openSocket _ _ _).context message

theorem follows_bindStats (localAddr : Handle → SocketAddr) (statsBind : Option SocketAddr) :
    Follows (bindStats localAddr statsBind) (statsPlan localAddr statsBind) := by
  cases statsBind with
  | none => exact .pure none
  | some address =>
      have read : ∀ listener, Follows
          ((call (SysCall.localAddr listener)).context "failed to read bound stats address" >>=
            fun _ => Program.pure (some (listener, localAddr listener))) _ :=
        fun listener => ((Follows.call _).context _).map _
      exact (follows_bindTcpListener address (failedTo "stats listener" address)).andThen
        (fun listener => [listener]) read fun _ => rfl

theorem follows_bindListeners (listenHost : IpAddr) (ports : List PortSet.Port) :
    Follows (bindListeners listenHost ports) (listenersPlan listenHost ports) := by
  induction ports with
  | nil => exact .pure []
  | cons port ports ih =>
      have rest : ∀ tcpListener udpSocket,
          Follows (bindListeners listenHost ports >>= fun listeners =>
            Program.pure (⟨port, tcpListener, udpSocket⟩ :: listeners)) _ :=
        fun tcpListener udpSocket => ih.map _
      have udp := fun tcpListener : Handle =>
        (follows_bindUdpSocket (.new listenHost port) (failedTo "UDP socket" (.new listenHost port))
          ).andThen (fun udpSocket => [udpSocket]) (rest tcpListener) fun _ => rfl
      refine ((follows_bindTcpListener (.new listenHost port)
        (failedTo "TCP listener" (.new listenHost port))).andThen
          (fun tcpListener => [tcpListener]) udp fun _ => rfl).congr ?_
      intro n
      simp [Plan.andThen, listenersPlan, listenersCalls, listeners, Listener.handles, socketCalls,
        tcpCalls, udpCalls]

/-! ### The application that is started -/

/-- What the listeners use of a configuration with ascending ports. -/
def listenersView (config : Config.RuntimeConfig)
    (ascending : config.listenPorts.Pairwise (· < ·)) : RuntimeConfig where
  listenPorts := config.listenPorts
  maxTcpConnections := config.maxTcpConnections.toNat
  distinct := ascending.imp fun below => BitVec.ne_of_lt below
  nonempty := config.nonempty
  positive := by
    rw [Nat.pos_iff_ne_zero]
    exact fun zero => config.positive (BitVec.eq_of_toNat_eq zero)
  fits := config.maxTcpConnections.isLt

theorem ports_new (ascending : config.listenPorts.Pairwise (· < ·)) (target : String)
    (window now : Nat) :
    (StatsRegistry.new (config.listenPorts.map BitVec.toNat) target window now).ports =
      config.listenPorts.map fun port => .new port.toNat := by
  have sorted : (config.listenPorts.map BitVec.toNat).Pairwise (· < ·) :=
    List.pairwise_map.mpr ascending
  have distinct : (config.listenPorts.map BitVec.toNat).Nodup :=
    sorted.imp fun below => Nat.ne_of_lt below
  rw [StatsRegistry.new, distinct.dedup,
    (sorted.imp fun below => Nat.le_of_lt below).insertionSort_eq, List.map_map]
  rfl

/-- The counters of a port stand at the position of the port. -/
theorem port_new (ascending : config.listenPorts.Pairwise (· < ·)) (target : String)
    (window now : Nat) {i : Nat} {port : PortSet.Port}
    (found : config.listenPorts[i]? = some port) :
    (StatsRegistry.new (config.listenPorts.map BitVec.toNat) target window now).port port.toNat =
      some i := by
  obtain ⟨bound, rfl⟩ := List.getElem?_eq_some_iff.mp found
  rw [StatsRegistry.port, ports_new ascending, List.findIdx?_eq_some_iff_getElem]
  refine ⟨by rwa [List.length_map], by simp [PortStats.new], ?_⟩
  intro j before
  have below := List.pairwise_iff_getElem.mp ascending j i (Nat.lt_trans before bound) bound before
  simpa [PortStats.new] using Nat.ne_of_lt below

/-- The tasks of the ports, with the handles from `n` on and the positions from `i` on. -/
def portTasks (idleTimeout : Duration) : Handle → Nat → List PortSet.Port → List Spawned
  | _, _, [] => []
  | n, i, _ :: ports =>
      .tcpRun n i :: .udpRun (n + 6) idleTimeout i :: portTasks idleTimeout (n + 13) (i + 1) ports

theorem mapM_spawnListener {stats : StatsRegistry}
    (positions : ∀ i port, config.listenPorts[i]? = some port →
      stats.port port.toNat = some i)
    (n : Handle) (i : Nat) (ports : List PortSet.Port) (left : config.listenPorts.drop i = ports) :
    ∃ tasks, (listeners n ports).mapM (spawnListener config stats) = some tasks ∧
      tasks.flatten = portTasks config.udpIdleTimeout n i ports := by
  induction ports generalizing n i with
  | nil => exact ⟨[], rfl, rfl⟩
  | cons port ports ih =>
      have here : config.listenPorts[i]? = some port := by
        rw [← List.head?_drop, left, List.head?_cons]
      have left' : config.listenPorts.drop (i + 1) = ports := by
        rw [← List.tail_drop, left, List.tail_cons]
      obtain ⟨tasks, rest, flat⟩ := ih (n + 13) (i + 1) left'
      refine ⟨[.tcpRun n i, .udpRun (n + 6) config.udpIdleTimeout i] :: tasks, ?_, ?_⟩
      · rw [listeners, List.mapM_cons, spawnListener, positions i port here, rest]
        rfl
      · rw [List.flatten_cons, flat]
        rfl

/-- The task of the TCP model that a spawned task is. -/
def tcpTask : Spawned → Option RangePorter.RunningApp.Task
  | .tcpRun _ i => some (.listener i .acquire)
  | _ => none

theorem filterMap_portTasks (idleTimeout : Duration) (n : Handle) (i : Nat)
    (ports : List PortSet.Port) :
    (portTasks idleTimeout n i ports).filterMap tcpTask =
      (List.range' i ports.length).map fun i => .listener i .acquire := by
  induction ports generalizing n i with
  | nil => rfl
  | cons port ports ih =>
      simp only [portTasks, List.filterMap_cons, tcpTask, ih, List.length_cons, List.range'_succ,
        List.map_cons]

/-! ### All or nothing -/

/-- Where the calls for the ports begin. -/
def listenersFrom (config : Config.RuntimeConfig) (n : Handle) : Handle :=
  n + (statsCalls n config.statsBind).length

/-- The calls of `start`, from position `n` on. -/
def startCalls (config : Config.RuntimeConfig) (n : Handle) : List (List String × SysCall) :=
  statsCalls n config.statsBind ++
    listenersCalls config.listenHost (listenersFrom config n) config.listenPorts

/-- The sockets that are open afterwards. -/
def startHandles (config : Config.RuntimeConfig) (n : Handle) : List Handle :=
  (config.statsBind.map fun _ => n).toList ++
    (listeners (listenersFrom config n) config.listenPorts).flatMap Listener.handles

theorem follows_start {semaphore : Semaphore} {stats : StatsRegistry}
    (permits : newSemaphore config.maxTcpConnections.toNat = some semaphore)
    (ring : newStats config now = some stats) :
    Follows (start localAddr config now) fun n =>
      ⟨startCalls config n, spawnAll config semaphore stats
        (config.statsBind.map fun _ => (n, localAddr n))
        (listeners (listenersFrom config n) config.listenPorts), startHandles config n⟩ := by
  have rest := fun statsEndpoint =>
    (follows_bindListeners config.listenHost config.listenPorts).map
      (spawnAll config semaphore stats statsEndpoint)
  have whole := (follows_bindStats localAddr config.statsBind).andThen
    (fun statsEndpoint => statsEndpoint.toList.map Prod.fst) rest fun n => by
      cases config.statsBind <;> rfl
  rw [start, permits, ring]
  exact whole

/-- What cannot be allocated panics, and `RuntimeConfig::new` does not look at it. -/
def WithinLimits (config : Config.RuntimeConfig) : Prop :=
  config.maxTcpConnections.toNat ≤ maxPermits ∧
    max config.statsWindow.toNat 1 * minuteBucketSize ≤ maxAllocation

/-- The application that runs, with its first call at position `n`: the TCP side is the one
that the listeners start with. -/
structure Started (config : Config.RuntimeConfig) (ascending : config.listenPorts.Pairwise (· < ·))
    (localAddr : Handle → SocketAddr) (n : Handle) (app : RunningApp) : Prop where
  statsBind : app.statsBind = config.statsBind.map fun _ => localAddr n
  tasks : app.tasks = .runRollup ::
    ((if config.summaryInterval = 0 then [] else [.summaryLoop config.summaryInterval]) ++
      (config.statsBind.map fun _ => Spawned.serve n).toList ++
      portTasks config.udpIdleTimeout (listenersFrom config n) 0 config.listenPorts)
  tcp : (RangePorter.RunningApp.start (listenersView config ascending)).threads =
    app.tasks.filterMap tcpTask
  semaphore : (RangePorter.RunningApp.start (listenersView config ascending)).shared.semaphore =
    app.semaphore
  stats : (RangePorter.RunningApp.start (listenersView config ascending)).shared.stats =
    app.stats.ports

theorem started (ascending : config.listenPorts.Pairwise (· < ·)) {stats : StatsRegistry}
    (ring : newStats config now = some stats) (n : Handle) :
    ∃ app, spawnAll config ⟨config.maxTcpConnections.toNat, false⟩ stats
        (config.statsBind.map fun _ => (n, localAddr n))
        (listeners (listenersFrom config n) config.listenPorts) = some app ∧
      Started config ascending localAddr n app := by
  obtain ⟨-, rfl⟩ : _ ∧ _ = stats := by simpa [newStats] using ring
  have positions : ∀ i port, config.listenPorts[i]? = some port → _ :=
    fun i port => port_new ascending (.ofList config.target.display) config.statsWindow.toNat now
  obtain ⟨tasks, spawned, flat⟩ :=
    mapM_spawnListener positions (listenersFrom config n) 0 config.listenPorts List.drop_zero
  refine ⟨_, by rw [spawnAll, spawned]; rfl, ?_⟩
  have serve : ((config.statsBind.map fun _ => (n, localAddr n)).toList.map fun endpoint =>
      Spawned.serve endpoint.1) = (config.statsBind.map fun _ => Spawned.serve n).toList := by
    cases config.statsBind <;> rfl
  constructor
  case statsBind => cases config.statsBind <;> rfl
  case tasks => simp only [serve, flat]
  case tcp =>
      have summary : (if config.summaryInterval = 0 then [] else
          [Spawned.summaryLoop config.summaryInterval]).filterMap tcpTask = [] := by
        split <;> rfl
      have noServe : ((config.statsBind.map fun _ => Spawned.serve n).toList).filterMap tcpTask =
          [] := by
        cases config.statsBind <;> rfl
      simp only [serve, flat]
      rw [List.filterMap_cons_none rfl, List.filterMap_append, List.filterMap_append, summary,
        noServe, filterMap_portTasks, ← List.range_eq_range']
      rfl
  case semaphore => rfl
  case stats => exact (ports_new ascending _ _ now).symm

/-- `start` opens all sockets and spawns all tasks, or leaves everything as it was. -/
structure AllOrNothing (localAddr : Handle → SocketAddr) (config : Config.RuntimeConfig)
    (ascending : config.listenPorts.Pairwise (· < ·)) (now : Nat) (kernel : Kernel)
    (system : System SysCall) : Prop where
  panics : ¬ WithinLimits config → start localAddr config now kernel system = (.ok none, system)
  /-- The first call that fails is the last one made; its error says what was to be bound. -/
  fails : WithinLimits config → ∀ i contexts c message,
    (startCalls config system.made.length)[i]? = some (contexts, c) →
    kernel (system.made.length + i) = some message →
    (∀ j < i, kernel (system.made.length + j) = none) →
    start localAddr config now kernel system = (.error (contexts ++ [message]),
      ⟨system.made ++ ((startCalls config system.made.length).map Prod.snd).take (i + 1),
        system.opened⟩)
  starts : WithinLimits config →
    (∀ i < (startCalls config system.made.length).length,
      kernel (system.made.length + i) = none) →
    ∃ app, start localAddr config now kernel system = (.ok (some app),
        ⟨system.made ++ (startCalls config system.made.length).map Prod.snd,
          system.opened ++ startHandles config system.made.length⟩) ∧
      Started config ascending localAddr system.made.length app

theorem allOrNothing (localAddr : Handle → SocketAddr) (config : Config.RuntimeConfig)
    (ascending : config.listenPorts.Pairwise (· < ·)) (now : Nat) (kernel : Kernel)
    (system : System SysCall) (older : system.Older) :
    AllOrNothing localAddr config ascending now kernel system := by
  have allocated : WithinLimits config →
      newSemaphore config.maxTcpConnections.toNat =
          some ⟨config.maxTcpConnections.toNat, false⟩ ∧
        ∃ stats, newStats config now = some stats := by
    rintro ⟨permits, ring⟩
    exact ⟨if_pos permits, _, if_pos ring⟩
  constructor
  case panics =>
      intro beyond
      by_cases permits : config.maxTcpConnections.toNat ≤ maxPermits
      · have ring : newStats config now = none := if_neg fun ring => beyond ⟨permits, ring⟩
        simp only [start, ring]
        cases newSemaphore config.maxTcpConnections.toNat <;> rfl
      · have none : newSemaphore config.maxTcpConnections.toNat = none := if_neg permits
        simp only [start, none]
        rfl
  case fails =>
      intro within i contexts c message found fails first
      obtain ⟨permits, stats, ring⟩ := allocated within
      exact (follows_start permits ring).fails older found fails first
  case starts =>
      intro within passes
      obtain ⟨permits, stats, ring⟩ := allocated within
      obtain ⟨app, spawned, isStarted⟩ : ∃ app, _ ∧ Started _ ascending localAddr _ app :=
        started ascending ring system.made.length
      refine ⟨app, ?_, isStarted⟩
      rw [(follows_start permits ring).succeeds older passes, spawned]

open Config (Cli)

/-- While memory lasts, whatever `from_cli` accepts is started as a whole or not at all. -/
theorem launch {dns : Dns} {cli : Cli} {bound : Instant} {kernel : Kernel}
    {system : System SysCall}
    (accepted : Config.RuntimeConfig.fromCli dns cli bound = some (.ok config))
    (older : system.Older) :
    ∃ ascending, AllOrNothing localAddr config ascending now kernel system := by
  obtain ⟨result, same, outcome⟩ := Config.fromCli_outcome dns cli bound
  rw [accepted, Option.some.injEq] at same
  subst same
  cases outcome with
  | ok _ _ ascending =>
      exact ⟨ascending, allOrNothing localAddr config ascending now kernel _ older⟩

/-- Two ports and the statistics on the loopback address. -/
def twoPortsCli : Cli where
  listenHost := .v4 0
  listenPorts := "8080,80".toList
  target := "10.0.0.1:9000".toList
  dnsServer := none
  udpIdleTimeout := .fromSecs 120
  statsBind := some (.v4 0x7f000001 0)
  statsWindow := 60
  summaryInterval := .fromSecs 60
  maxTcpConnections := 65536

def twoPortsConfig : Config.RuntimeConfig where
  listenHost := .v4 0
  listenPorts := [80, 8080]
  target := .static ⟨"10.0.0.1:9000".toList, .v4 0x0a000001 9000⟩
  udpIdleTimeout := .fromSecs 120
  statsBind := some (.v4 0x7f000001 0)
  statsWindow := 60
  summaryInterval := .fromSecs 60
  maxTcpConnections := 65536
  nonempty := by decide
  timeout := by decide
  window := by decide
  positive := by decide

theorem fromCli_twoPorts : Config.RuntimeConfig.fromCli TargetAddr.noDns twoPortsCli 0 =
    some (.ok twoPortsConfig) := by
  decide

/-- Somebody else listens on the second port: the bind of its TCP listener fails. -/
theorem launch_twoPorts :
    ∃ ascending, AllOrNothing (fun _ => .v4 0x7f000001 40000) twoPortsConfig ascending 0
      (fun n => if n = 22 then some "address in use" else none) ⟨[], []⟩ :=
  launch fromCli_twoPorts nofun

end RangePorter.Runtime
