import RangePorter.Interleaving.Pool
import RangePorter.Stats.Port
import Mathlib.Data.List.AList

/-!
# The session table of one UDP port

The tasks that share one `UdpSessionTable`, at the granularity of single map
operations, single atomic loads and stores, and single clock readings. A task's
local state says what it does next; the frames (`Call`, `TouchCaller`,
`RemoveCaller`) say where a method returns to.

Sessions live behind an `Arc`: `heap` lists every session ever allocated and a
`SessionRef` is a position in it. The map binds a source address to such a
position. The scans of `cleanup_loop` and `shutdown_all` visit one entry at a
time. A key that is in the map when the scan starts is visited before the scan
ends, with whatever entry it has then; other keys may be visited too.

`History` is no part of the program. It records what was inserted, opened,
spawned, removed, cancelled and closed, so that a statement can say how often.
-/

namespace RangePorter

open Interleaving

/-- An `Arc<UdpSession>`: the position of the session in `UdpSessionTable.heap`. -/
abbrev SessionRef := Nat

structure UdpSession where
  id : Nat
  source : SocketAddr
  /-- The connected socket, named by the order in which sockets were opened. -/
  upstream : Nat
  lastActiveEpoch : Nat
  closed : Bool
  /-- Whether the session's cancellation token has been cancelled. -/
  shutdown : Bool
  deriving DecidableEq, Repr

namespace UdpSession

def new (id : Nat) (source : SocketAddr) (upstream now : Nat) : UdpSession :=
  ⟨id, source, upstream, now, false, false⟩

def touch (s : UdpSession) (now : Nat) : UdpSession := { s with lastActiveEpoch := now }

def cancel (s : UdpSession) : UdpSession := { s with shutdown := true }

/-- Swap the closed flag to true, and report whether this call was the first. -/
def markClosed (s : UdpSession) : Bool × UdpSession := (!s.closed, { s with closed := true })

section

variable (s : UdpSession) (now : Nat)

@[simp] theorem touch_id : (s.touch now).id = s.id := rfl
@[simp] theorem touch_source : (s.touch now).source = s.source := rfl
@[simp] theorem touch_lastActiveEpoch : (s.touch now).lastActiveEpoch = now := rfl
@[simp] theorem touch_closed : (s.touch now).closed = s.closed := rfl
@[simp] theorem touch_shutdown : (s.touch now).shutdown = s.shutdown := rfl

@[simp] theorem cancel_id : s.cancel.id = s.id := rfl
@[simp] theorem cancel_source : s.cancel.source = s.source := rfl
@[simp] theorem cancel_lastActiveEpoch : s.cancel.lastActiveEpoch = s.lastActiveEpoch := rfl
@[simp] theorem cancel_closed : s.cancel.closed = s.closed := rfl
@[simp] theorem cancel_shutdown : s.cancel.shutdown = true := rfl

@[simp] theorem markClosed_fst : s.markClosed.1 = !s.closed := rfl
@[simp] theorem markClosed_id : s.markClosed.2.id = s.id := rfl
@[simp] theorem markClosed_source : s.markClosed.2.source = s.source := rfl
@[simp] theorem markClosed_lastActiveEpoch :
    s.markClosed.2.lastActiveEpoch = s.lastActiveEpoch := rfl
@[simp] theorem markClosed_closed : s.markClosed.2.closed = true := rfl
@[simp] theorem markClosed_shutdown : s.markClosed.2.shutdown = s.shutdown := rfl

end

end UdpSession

/-- A session taken out of the map by a cleanup tick. -/
structure Eviction where
  ref : SessionRef
  /-- The clock reading of the tick. -/
  now : Nat
  /-- The session's `last_active_epoch` at the moment of removal. -/
  lastActiveEpoch : Nat
  /-- Every epoch stored in the session before the removal. -/
  touches : List Nat
  deriving DecidableEq, Repr

/-- What has happened so far. A pair of a session and an id belongs to a
`remove_session` call that carries this id. -/
structure History where
  /-- How many ids have been drawn. -/
  created : Nat
  inserted : List SessionRef
  opened : List SessionRef
  spawned : List SessionRef
  removed : List (SessionRef × Nat)
  cancelled : List (SessionRef × Nat)
  closes : List (SessionRef × Nat)
  evictions : List Eviction
  touches : List (SessionRef × Nat)
  /-- Datagrams sent on the upstream socket of a session. -/
  sent : List (SessionRef × Payload)
  deriving DecidableEq, Repr

def History.empty : History := ⟨0, [], [], [], [], [], [], [], [], []⟩

structure UdpSessionTable where
  idleTimeout : Duration
  stats : PortStats
  nextSessionId : Nat
  sessions : AList fun _ : SocketAddr => SessionRef
  heap : List UdpSession
  /-- How many upstream sockets have been opened. -/
  sockets : Nat
  /-- The system clock in whole seconds, as `unix_timestamp_now` reads it. -/
  clock : Nat
  history : History

/-- The two scans over the map that end in a list of removals. -/
inductive Sweep where
  /-- One tick of `cleanup_loop`, with its clock reading. -/
  | cleanup (now : Nat)
  | shutdownAll
  deriving DecidableEq, Repr

/-- A `get_or_create` call. The listener passes on the datagram it wants to
forward on the session; other callers have none. -/
structure Call where
  source : SocketAddr
  payload : Option Payload
  deriving DecidableEq, Repr

/-- The next step of `get_or_create`. -/
inductive GetOrCreate where
  | get
  | connect
  | fetchId (upstream : Nat)
  | new (upstream id : Nat)
  | entry (own : SessionRef)
  | flowOpen (own : SessionRef)
  | spawn (own : SessionRef)
  deriving DecidableEq, Repr

/-- Where `touch` returns to. A `get_or_create` call that has allocated a session
of its own and lost the race for the entry remembers it. -/
inductive TouchCaller where
  | getOrCreate (call : Call) (own : Option SessionRef)
  | forward (payload : Payload)
  | replyLoop
  deriving DecidableEq, Repr

/-- Where `remove_session` returns to; a sweep has further pairs to remove. -/
inductive RemoveCaller where
  | user
  | replyLoop
  | sweeping (sweep : Sweep) (rest : List (SocketAddr × Nat))
  deriving DecidableEq, Repr

/-- What `remove_session` still has to do with a session it took out of the map. -/
inductive Closing where
  | cancel
  | markClosed
  | flowClose
  deriving DecidableEq, Repr

inductive UdpSessionTable.Task where
  | getOrCreate (call : Call) (next : GetOrCreate)
  /-- `session.touch()`, before and after the clock is read. -/
  | touch (ref : SessionRef) (epoch : Option Nat) (caller : TouchCaller)
  | returned (call : Call) (own result : Option SessionRef)
  /-- `forward_client_packet`: the send, and the counter update after the touch. -/
  | forward (ref : SessionRef) (payload : Payload)
  | addUdpIn (payload : Payload)
  | removeIf (source : SocketAddr) (id : Nat) (caller : RemoveCaller)
  | closing (ref : SessionRef) (id : Nat) (next : Closing) (caller : RemoveCaller)
  | cleanupLoop
  /-- A scan with the keys it must still visit, once it has started, and the
  pairs it has collected. -/
  | scan (sweep : Sweep) (todo : Option (List SocketAddr)) (found : List (SocketAddr × Nat))
  | replyLoop (ref : SessionRef)
  | finished
  deriving DecidableEq, Repr

/-- What the scheduler and the kernel decide about one step. -/
inductive UdpSessionTable.Choice where
  | go
  /-- The system call of this step returns an error. -/
  | fail
  /-- The scan comes to this key. -/
  | visit (key : SocketAddr)
  /-- The loop ends. -/
  | exit
  deriving DecidableEq, Repr

inductive UdpSessionTable.Env where
  | getOrCreate (call : Call)
  | removeSession (source : SocketAddr) (id : Nat)
  | cleanupLoop
  | shutdownAll
  | advance (seconds : Nat)
  deriving DecidableEq, Repr

/-! ### Where methods return to -/

open UdpSessionTable (Task)

/-- `get_or_create` returns; the listener goes on to forward its datagram. -/
def Call.return (call : Call) (own : Option SessionRef) (ref : SessionRef) : Task :=
  match call.payload with
  | some payload => .forward ref payload
  | none => .returned call own (some ref)

def TouchCaller.resume : TouchCaller → SessionRef → Task
  | .getOrCreate call own, ref => call.return own ref
  | .forward payload, _ => .addUdpIn payload
  | .replyLoop, ref => .replyLoop ref

/-- Go on with the first pair of a list of removals. -/
def Sweep.drain (sweep : Sweep) : List (SocketAddr × Nat) → Task
  | (source, id) :: rest => .removeIf source id (.sweeping sweep rest)
  | [] =>
      match sweep with
      | .cleanup _ => .cleanupLoop
      | .shutdownAll => .finished

def RemoveCaller.resume : RemoveCaller → Task
  | .user => .finished
  | .replyLoop => .finished
  | .sweeping sweep rest => sweep.drain rest

/-- What holds of both tasks a call can return as. -/
@[elab_as_elim]
theorem Call.return_cases {motive : Task → Prop} {call : Call} {own : Option SessionRef}
    {ref : SessionRef}
    (forward : ∀ payload, call.payload = some payload → motive (.forward ref payload))
    (returned : call.payload = none → motive (.returned call own (some ref))) :
    motive (call.return own ref) := by
  rw [Call.return]
  split
  case h_1 payload carries => exact forward payload carries
  case h_2 none => exact returned none

@[elab_as_elim]
theorem Sweep.drain_cases {motive : Task → Prop} {sweep : Sweep}
    {rest : List (SocketAddr × Nat)}
    (removeIf : ∀ source id rest, motive (.removeIf source id (.sweeping sweep rest)))
    (cleanupLoop : motive .cleanupLoop) (finished : motive .finished) :
    motive (sweep.drain rest) := by
  cases rest with
  | cons e rest => exact removeIf e.1 e.2 rest
  | nil =>
      cases sweep with
      | cleanup => exact cleanupLoop
      | shutdownAll => exact finished

@[elab_as_elim]
theorem RemoveCaller.resume_cases {motive : Task → Prop} {caller : RemoveCaller}
    (removeIf : ∀ source id sweep rest, motive (.removeIf source id (.sweeping sweep rest)))
    (cleanupLoop : motive .cleanupLoop) (finished : motive .finished) :
    motive caller.resume := by
  cases caller with
  | user | replyLoop => exact finished
  | sweeping sweep rest =>
      rw [RemoveCaller.resume]
      exact Sweep.drain_cases (fun source id => removeIf source id sweep) cleanupLoop finished

namespace UdpSessionTable

def new (idleTimeout : Duration) (port : Nat) (now : Nat) : UdpSessionTable where
  idleTimeout := idleTimeout
  stats := .new port
  nextSessionId := 1
  sessions := ∅
  heap := []
  sockets := 0
  clock := now
  history := .empty

def timeoutSeconds (tab : UdpSessionTable) : Nat := max 1 tab.idleTimeout.asSecs

/-! ### Single operations -/

@[simp] def connect (tab : UdpSessionTable) : UdpSessionTable :=
  { tab with sockets := tab.sockets + 1 }

@[simp] def fetchId (tab : UdpSessionTable) : UdpSessionTable :=
  { tab with
    nextSessionId := wrappingAdd tab.nextSessionId 1
    history := { tab.history with created := tab.history.created + 1 } }

/-- `Arc::new(UdpSession::new(..))`; the new session is the last of the heap. -/
@[simp] def allocate (tab : UdpSessionTable) (s : UdpSession) : UdpSessionTable :=
  { tab with
    heap := tab.heap ++ [s]
    history := { tab.history with
      touches := tab.history.touches ++ [(tab.heap.length, s.lastActiveEpoch)] } }

@[simp] def insert (tab : UdpSessionTable) (source : SocketAddr) (ref : SessionRef) :
    UdpSessionTable :=
  { tab with
    sessions := tab.sessions.insert source ref
    history := { tab.history with inserted := tab.history.inserted ++ [ref] } }

@[simp] def recordUdpFlowOpen (tab : UdpSessionTable) (ref : SessionRef) : UdpSessionTable :=
  { tab with
    stats := tab.stats.apply (.fetchAdd .udpActiveFlows 1)
    history := { tab.history with opened := tab.history.opened ++ [ref] } }

@[simp] def spawnReplyTask (tab : UdpSessionTable) (ref : SessionRef) : UdpSessionTable :=
  { tab with history := { tab.history with spawned := tab.history.spawned ++ [ref] } }

@[simp] def touch (tab : UdpSessionTable) (ref : SessionRef) (epoch : Nat) : UdpSessionTable :=
  { tab with
    heap := tab.heap.modify ref fun s => s.touch epoch
    history := { tab.history with touches := tab.history.touches ++ [(ref, epoch)] } }

@[simp] def send (tab : UdpSessionTable) (ref : SessionRef) (payload : Payload) : UdpSessionTable :=
  { tab with history := { tab.history with sent := tab.history.sent ++ [(ref, payload)] } }

@[simp] def addUdpIn (tab : UdpSessionTable) (payload : Payload) : UdpSessionTable :=
  { tab with stats := tab.stats.apply (.fetchAdd .udpInBytes payload.length) }

/-- The epochs stored in a session so far. -/
def touchesOf (tab : UdpSessionTable) (ref : SessionRef) : List Nat :=
  (tab.history.touches.filter fun touch => touch.1 == ref).map Prod.snd

/-- The record of a removal that a cleanup tick makes. -/
def evictionBy (tab : UdpSessionTable) (ref : SessionRef) (s : UdpSession) :
    RemoveCaller → List Eviction
  | .sweeping (.cleanup now) _ => [⟨ref, now, s.lastActiveEpoch, tab.touchesOf ref⟩]
  | _ => []

/-- `sessions.remove_if`, once the predicate has accepted session `s`. -/
@[simp] def remove (tab : UdpSessionTable) (source : SocketAddr) (ref : SessionRef) (s : UdpSession)
    (caller : RemoveCaller) : UdpSessionTable :=
  { tab with
    sessions := tab.sessions.erase source
    history := { tab.history with
      removed := tab.history.removed ++ [(ref, s.id)]
      evictions := tab.history.evictions ++ tab.evictionBy ref s caller } }

@[simp] def cancel (tab : UdpSessionTable) (ref : SessionRef) (id : Nat) : UdpSessionTable :=
  { tab with
    heap := tab.heap.modify ref UdpSession.cancel
    history := { tab.history with cancelled := tab.history.cancelled ++ [(ref, id)] } }

@[simp] def markClosed (tab : UdpSessionTable) (ref : SessionRef) : UdpSessionTable :=
  { tab with heap := tab.heap.modify ref fun s => s.markClosed.2 }

@[simp] def recordUdpFlowClose (tab : UdpSessionTable) (ref : SessionRef) (id : Nat) :
    UdpSessionTable :=
  { tab with
    stats := tab.stats.apply (.saturatingDecrement .udpActiveFlows)
    history := { tab.history with closes := tab.history.closes ++ [(ref, id)] } }

/-- Whether a sweep collects this session. -/
def selects (tab : UdpSessionTable) : Sweep → UdpSession → Bool
  | .cleanup now, s => tab.timeoutSeconds ≤ now - s.lastActiveEpoch
  | .shutdownAll, _ => true

/-- What a sweep collects when it comes to a key. -/
def visit (tab : UdpSessionTable) (sweep : Sweep) (key : SocketAddr) : List (SocketAddr × Nat) :=
  match (tab.sessions.lookup key).bind fun ref => tab.heap[ref]? with
  | some s => if tab.selects sweep s then [(key, s.id)] else []
  | none => []

/-! ### Steps -/

/-- One atomic step of a task. -/
def step (tab : UdpSessionTable) : Task → Choice → Option (UdpSessionTable × Task × List Task)
  | .getOrCreate call .get, .go =>
      match tab.sessions.lookup call.source with
      | some ref => some (tab, .touch ref none (.getOrCreate call none), [])
      | none => some (tab, .getOrCreate call .connect, [])
  -- `new_connected_udp_socket(..)?` either opens a socket or ends the call.
  | .getOrCreate call .connect, .go =>
      some (tab.connect, .getOrCreate call (.fetchId tab.sockets), [])
  | .getOrCreate call .connect, .fail => some (tab, .returned call none none, [])
  | .getOrCreate call (.fetchId upstream), .go =>
      some (tab.fetchId, .getOrCreate call (.new upstream tab.nextSessionId), [])
  | .getOrCreate call (.new upstream id), .go =>
      some (tab.allocate (.new id call.source upstream tab.clock),
        .getOrCreate call (.entry tab.heap.length), [])
  | .getOrCreate call (.entry own), .go =>
      match tab.sessions.lookup call.source with
      | some ref => some (tab, .touch ref none (.getOrCreate call (some own)), [])
      | none => some (tab.insert call.source own, .getOrCreate call (.flowOpen own), [])
  | .getOrCreate call (.flowOpen own), .go =>
      some (tab.recordUdpFlowOpen own, .getOrCreate call (.spawn own), [])
  | .getOrCreate call (.spawn own), .go =>
      some (tab.spawnReplyTask own, call.return (some own) own, [.replyLoop own])
  | .touch ref none caller, .go => some (tab, .touch ref (some tab.clock) caller, [])
  | .touch ref (some epoch) caller, .go => some (tab.touch ref epoch, caller.resume ref, [])
  | .forward ref payload, .go =>
      some (tab.send ref payload, .touch ref none (.forward payload), [])
  | .forward _ _, .fail => some (tab, .finished, [])
  | .addUdpIn payload, .go => some (tab.addUdpIn payload, .finished, [])
  | .removeIf source id caller, .go =>
      match tab.sessions.lookup source with
      | none => some (tab, caller.resume, [])
      | some ref =>
          match tab.heap[ref]? with
          | none => none
          | some s =>
              if s.id = id then
                some (tab.remove source ref s caller, .closing ref id .cancel caller, [])
              else some (tab, caller.resume, [])
  | .closing ref id .cancel caller, .go =>
      some (tab.cancel ref id, .closing ref id .markClosed caller, [])
  | .closing ref id .markClosed caller, .go =>
      match tab.heap[ref]? with
      | none => none
      | some s =>
          if s.markClosed.1 then some (tab.markClosed ref, .closing ref id .flowClose caller, [])
          else some (tab.markClosed ref, caller.resume, [])
  | .closing ref id .flowClose caller, .go =>
      some (tab.recordUdpFlowClose ref id, caller.resume, [])
  | .cleanupLoop, .go => some (tab, .scan (.cleanup tab.clock) none [], [])
  | .cleanupLoop, .exit => some (tab, .finished, [])
  | .scan sweep none found, .go => some (tab, .scan sweep (some tab.sessions.keys) found, [])
  | .scan sweep (some todo) found, .visit key =>
      some (tab, .scan sweep (some (todo.erase key)) (found ++ tab.visit sweep key), [])
  | .scan sweep (some []) found, .go => some (tab, sweep.drain found, [])
  -- A reply was queued and the session is touched, or the loop ends for any of
  -- its reasons and the session removes itself.
  | .replyLoop ref, .go => some (tab, .touch ref none .replyLoop, [])
  | .replyLoop ref, .exit =>
      match tab.heap[ref]? with
      | none => none
      | some s => some (tab, .removeIf s.source s.id .replyLoop, [])
  | _, _ => none

/-- Calls may start at any time, and the clock may advance at any time. -/
def env (tab : UdpSessionTable) : Env → Option (UdpSessionTable × List Task)
  | .getOrCreate call => some (tab, [.getOrCreate call .get])
  | .removeSession source id => some (tab, [.removeIf source id .user])
  | .cleanupLoop => some (tab, [.cleanupLoop])
  | .shutdownAll => some (tab, [.scan .shutdownAll none []])
  | .advance seconds => some ({ tab with clock := tab.clock + seconds }, [])

def program : Program UdpSessionTable Task Choice Env := ⟨step, env⟩

/-- All interleavings of the tasks of one table. -/
def machine : Machine (Pool UdpSessionTable Task) (Action Choice Env) := program.machine

/-- A new table before its first call. -/
def start (idleTimeout : Duration) (port now : Nat) : Pool UdpSessionTable Task :=
  ⟨new idleTimeout port now, []⟩

end UdpSessionTable

end RangePorter
