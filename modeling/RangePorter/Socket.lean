import RangePorter.Net
import RangePorter.Resources.Calls

/-!
# Sockets

Every function of `socket.rs` opens one socket and then makes some calls on it, any of
which may fail. The socket is closed if one does. Its protocol goes with its type.
-/

namespace RangePorter

open Resources Program

inductive Domain where
  | ipv4
  | ipv6
  deriving DecidableEq, Repr

/-- `Type` of `socket2`. -/
inductive SocketType where
  | stream
  | dgram
  deriving DecidableEq, Repr

/-- The calls on sockets; `fromStd` registers one with the runtime. -/
inductive SysCall where
  | socket (domain : Domain) (type : SocketType)
  | setReuseAddress (socket : Handle) (reuse : Bool)
  | setSendBufferSize (socket : Handle) (size : Nat)
  | setRecvBufferSize (socket : Handle) (size : Nat)
  | bind (socket : Handle) (address : SocketAddr)
  | connect (socket : Handle) (target : SocketAddr)
  | listen (socket : Handle) (backlog : Nat)
  | setNonblocking (socket : Handle) (nonblocking : Bool)
  | fromStd (socket : Handle)
  | localAddr (socket : Handle)
  deriving DecidableEq, Repr

def udpSocketBufferBytes : Nat := 4 * 1024 * 1024

def domainFor : SocketAddr → Domain
  | .v4 .. => .ipv4
  | .v6 .. => .ipv6

/-- The socket is owned until it is returned. -/
def openSocket (domain : Domain) (type : SocketType) (setup : Handle → List SysCall) :
    Program SysCall Handle := do
  let socket ← acquire (.socket domain type)
  holding [socket] do
    sequence (setup socket)
    return socket

def configureUdpSocket (socket : Handle) : List SysCall :=
  [.setSendBufferSize socket udpSocketBufferBytes, .setRecvBufferSize socket udpSocketBufferBytes]

def bindTcpListener (address : SocketAddr) : Program SysCall Handle :=
  openSocket (domainFor address) .stream fun socket =>
    [.setReuseAddress socket true, .bind socket address, .listen socket 1024,
      .setNonblocking socket true, .fromStd socket]

def bindUdpSocket (address : SocketAddr) : Program SysCall Handle :=
  openSocket (domainFor address) .dgram fun socket =>
    .setReuseAddress socket true :: (configureUdpSocket socket ++
      [.bind socket address, .setNonblocking socket true, .fromStd socket])

def newConnectedUdpSocket (target : SocketAddr) : Program SysCall Handle :=
  let bindAddr : SocketAddr :=
    match target with
    | .v4 .. => .new (.v4 0) 0
    | .v6 .. => .new (.v6 0) 0
  openSocket (domainFor target) .dgram fun socket =>
    configureUdpSocket socket ++
      [.bind socket bindAddr, .connect socket target, .setNonblocking socket true, .fromStd socket]

/-- One socket is open if all calls succeed, and none otherwise. -/
def socketPlan (domain : Domain) (type : SocketType) (setup : Handle → List SysCall) (n : Nat) :
    Plan SysCall Handle :=
  ⟨([], .socket domain type) :: (setup n).map fun c => ([], c), n, [n]⟩

theorem follows_openSocket (domain : Domain) (type : SocketType)
    (setup : Handle → List SysCall) :
    Follows (openSocket domain type setup) (socketPlan domain type setup) := by
  have configured : ∀ socket, Follows (do sequence (setup socket); return socket) fun _ =>
      ⟨(setup socket).map fun c => ([], c), socket, []⟩ := by
    intro socket
    refine ((Follows.sequence (setup socket)).bind (fun _ => .pure socket) fun _ => rfl).congr ?_
    intro n
    simp [Plan.andThen]
  exact (Follows.acquire _).andThen (fun socket => [socket]) configured fun _ => rfl

/-- A socket that cannot be set up is closed. -/
theorem opened_openSocket (domain : Domain) (type : SocketType) (setup : Handle → List SysCall)
    (kernel : Kernel) {system : System SysCall} (older : system.Older) :
    (openSocket domain type setup kernel system).2.opened =
      system.opened ++ (openSocket domain type setup kernel system).1.toOption.toList := by
  rw [(follows_openSocket domain type setup).runs kernel system older, Plan.outcome]
  split
  · rfl
  · exact (List.append_nil _).symm

/-- So the table gets a new connected socket, or nothing is left of it. -/
theorem opened_newConnectedUdpSocket (target : SocketAddr) (kernel : Kernel)
    {system : System SysCall} (older : system.Older) :
    (newConnectedUdpSocket target kernel system).2.opened =
      system.opened ++ (newConnectedUdpSocket target kernel system).1.toOption.toList :=
  opened_openSocket _ _ _ kernel older

end RangePorter
