import RangePorter.Listener.UdpSend
import RangePorter.UdpSession.Forwarding

/-!
# The UDP side of one port

`listener::udp::run` and the tasks it starts: the loop that receives from the clients,
the session table with the reply loop of each session, the bounded queue of replies and
the task that sends them. The tasks of the session table are those of `UdpSessionTable`,
step by step; the listener and the reply loops add what they do in between.

- The listener handles one slot of its batch at a time. A datagram becomes a
  `get_or_create` call of the table that forwards it, and the listener waits until the
  call has returned.
- A reply loop handles one slot at a time as well. A reply that is queued lets the loop
  go on to touch its session, which is the step `replied` of the table.

What a socket returns is part of the action. The queue and the counters of replies are
touched by steps of this file only. `arrived`, `replies` and `left`, and the session in a
`Queued` packet, are no part of the program: they record what came in and what went out.
-/

namespace RangePorter

open Interleaving

/-- A packet in the queue, with the session that it is a reply of. -/
structure Queued where
  session : SessionRef
  packet : ReplyPacket
  deriving DecidableEq, Repr

/-- A receive buffer, and which slots of its last batch are still to be handled. -/
structure Batch where
  buf : BatchBuf
  next : Nat
  count : Nat

namespace Batch

def listener : Batch :=
  ⟨.new listenerBatchSize listenerSlotSize (by decide) (by decide), 0, 0⟩

def session : Batch := ⟨.new sessionBatchSize sessionSlotSize (by decide) (by decide), 0, 0⟩

/-- The slot that is handled next. -/
def head (b : Batch) : Option Datagram :=
  if b.next < b.count then some (b.buf.datagram b.next) else none

def advance (b : Batch) : Batch := { b with next := b.next + 1 }

/-- What the slots still to be handled contain. -/
def pending (b : Batch) : List Datagram := b.buf.slots b.next b.count

/-- The kernel delivers no more datagrams than there are slots, and none is longer than
its slot. -/
def Fits (b : Batch) (ds : List Datagram) : Prop :=
  ds.length ≤ b.buf.batchSize ∧ ∀ d ∈ ds, d.payload.length ≤ b.buf.slotSize

instance (b : Batch) (ds : List Datagram) : Decidable (b.Fits ds) :=
  inferInstanceAs (Decidable (_ ∧ _))

def receive (b : Batch) (ds : List Datagram) : Batch := ⟨b.buf.recvBatch ds, 0, ds.length⟩

variable {b : Batch} {d : Datagram} {ds : List Datagram}

theorem pending_of_head (found : b.head = some d) : b.pending = d :: b.advance.pending := by
  rw [head] at found
  split at found
  · cases found
    exact BatchBuf.slots_of_lt ‹_›
  · cases found

theorem pending_of_none (handled : b.head = none) : b.pending = [] := by
  rw [head] at handled
  split at handled
  · cases handled
  · have past : b.count - b.next = 0 := by omega
    simp [pending, BatchBuf.slots, past]

/-- A batch just received reads as what was received. -/
theorem pending_receive (fits : b.Fits ds) : (b.receive ds).pending = ds :=
  BatchBuf.slots_recvBatch fits.1 fits.2

end Batch

/-- Where `listener::udp::run` is. -/
inductive ListenerLoop where
  /-- Between two slots; at its `select!` if no slot is left. -/
  | slots
  /-- It waits for the call that this task of the table makes. -/
  | calling (task : Nat)
  | ended
  deriving DecidableEq, Repr

/-- Where the sender's `reply_loop` is. -/
inductive Sender where
  | recvMany
  | flush (batch : List Queued) (start : Nat)
  | exited
  deriving DecidableEq, Repr

/-- Errors that a reply loop outlives. -/
def ErrorKind.transient : ErrorKind → Bool
  | connectionRefused | hostUnreachable | networkUnreachable => true
  | _ => false

structure UdpPort where
  table : Pool UdpSessionTable UdpSessionTable.Task
  /-- Whether the port's shutdown token is cancelled. -/
  shutdown : Bool
  listener : ListenerLoop
  batch : Batch
  /-- The buffers of the reply loops, by the task that runs the loop. -/
  loops : Nat → Batch
  queue : List Queued
  sender : Sender
  udpOutBytes : Nat
  udpDropped : Nat
  /-- What the listener has received. -/
  arrived : List Datagram
  /-- What the sessions have received from the target. -/
  replies : List (SessionRef × Payload)
  /-- What the listener's socket has sent. -/
  left : List Queued

namespace UdpPort

inductive Action where
  /-- A step of the table's tasks, or a call of another task. -/
  | table (action : Interleaving.Action UdpSessionTable.Choice UdpSessionTable.Env)
  | cancel
  | receive (result : Except ErrorKind (List Datagram))
  | dispatch
  | callReturns
  | listenerEnds
  | receiveReplies (task : Nat) (result : Except ErrorKind (List Payload))
  | reply (task : Nat)
  | replyLoopEnds (task : Nat)
  | recvMany (n : Nat)
  | flush (result : Except ErrorKind Nat)
  | senderEnds

/-! ### Single operations -/

/-- Reply loops take their steps through `reply` and `replyLoopEnds`, and only the
listener has datagrams to forward. All else the table's tasks and its callers do as they
like. -/
def admits (port : UdpPort) : Interleaving.Action UdpSessionTable.Choice UdpSessionTable.Env → Bool
  | .thread i _ =>
      match port.table.threads[i]? with
      | some (.replyLoop _) => false
      | _ => true
  | .env (.getOrCreate call) => call.payload.isNone
  | .env _ => true

/-- The session whose reply loop is at the top of its own loop in this task. -/
def replyLoop (port : UdpPort) (task : Nat) : Option SessionRef :=
  match port.table.threads[task]? with
  | some (.replyLoop ref) => some ref
  | _ => none

def setLoop (port : UdpPort) (task : Nat) (b : Batch) : Nat → Batch :=
  fun i => if i = task then b else port.loops i

/-- `break 'outer`: the buffer is dropped and the session removes itself. -/
def endLoop (port : UdpPort) (task : Nat) : Option UdpPort :=
  (UdpSessionTable.machine.step port.table (.thread task .exit)).map fun table =>
    { port with table := table, loops := port.setLoop task .session }

/-- `reply_tx.try_send`, followed by the first step of `touch`. -/
def enqueue (port : UdpPort) (task : Nat) (q : Queued) : Option UdpPort :=
  (UdpSessionTable.machine.step port.table (.thread task .go)).map fun table =>
    { port with
      table := table
      loops := port.setLoop task (port.loops task).advance
      queue := port.queue ++ [q] }

/-- The datagram of a slot that was neither empty nor without address. -/
def call (port : UdpPort) (source : SocketAddr) (payload : Payload) : Option UdpPort :=
  (UdpSessionTable.machine.step port.table (.env (.getOrCreate ⟨source, some payload⟩))).map
    fun table => { port with table := table, listener := .calling port.table.threads.length }

/-- What the kernel reports of the packets it was offered. -/
def flushed (port : UdpPort) (batch : List Queued) (start : Nat)
    (result : Except ErrorKind Nat) : UdpPort :=
  let sent := (batch.drop start).take (result.toOption.getD 0)
  { port with
    left := port.left ++ sent
    udpOutBytes := sent.foldl (fun total q => wrappingAdd total q.packet.bytes) port.udpOutBytes
    sender :=
      match flushNext start result with
      | some next => if next < batch.length then .flush batch next else .recvMany
      | none => .recvMany }

/-! ### Steps -/

def step (port : UdpPort) : Action → Option UdpPort
  | .table action =>
      if port.admits action then
        (UdpSessionTable.machine.step port.table action).map fun table =>
          { port with table := table }
      else none
  | .cancel => some { port with shutdown := true }
  | .receive result =>
      if port.listener = .slots ∧ port.batch.head = none then
        match result with
        | .error _ => some port
        | .ok ds =>
            if port.batch.Fits ds then
              some { port with batch := port.batch.receive ds, arrived := port.arrived ++ ds }
            else none
      else none
  | .dispatch =>
      if port.listener = .slots then
        match port.batch.head with
        | none => none
        | some ⟨none, _⟩ => some { port with batch := port.batch.advance }
        | some ⟨some source, payload⟩ =>
            if payload = [] then some { port with batch := port.batch.advance }
            else port.call source payload
      else none
  | .callReturns =>
      match port.listener with
      | .calling task =>
          match port.table.threads[task]? with
          | some .finished | some (.returned ..) =>
              some { port with listener := .slots, batch := port.batch.advance }
          | _ => none
      | _ => none
  -- The listener leaves its loop and calls `shutdown_all`.
  | .listenerEnds =>
      if port.listener = .slots ∧ port.batch.head = none ∧ port.shutdown = true then
        (UdpSessionTable.machine.step port.table (.env .shutdownAll)).map fun table =>
          { port with table := table, listener := .ended }
      else none
  | .receiveReplies task result =>
      match port.replyLoop task with
      | none => none
      | some ref =>
          if (port.loops task).head = none then
            match result with
            | .error error => if error.transient then some port else port.endLoop task
            | .ok payloads =>
                let ds := payloads.map fun payload => ⟨none, payload⟩
                if (port.loops task).Fits ds then
                  some { port with
                    loops := port.setLoop task ((port.loops task).receive ds)
                    replies := port.replies ++ payloads.map fun payload => (ref, payload) }
                else none
          else none
  | .reply task =>
      match port.replyLoop task with
      | none => none
      | some ref =>
          match (port.loops task).head, port.table.shared.heap[ref]? with
          | some ⟨_, payload⟩, some session =>
              let skipped := port.setLoop task (port.loops task).advance
              if payload = [] then some { port with loops := skipped }
              -- The channel is closed once the sender has exited.
              else if port.sender = .exited then port.endLoop task
              else if port.queue.length < replyQueueCapacity then
                port.enqueue task ⟨ref, ⟨session.source, payload, payload.length⟩⟩
              else some { port with
                loops := skipped
                udpDropped := wrappingAdd port.udpDropped 1 }
          | _, _ => none
  | .replyLoopEnds task =>
      match port.replyLoop task with
      | none => none
      | some ref =>
          match port.table.shared.heap[ref]? with
          | none => none
          | some session =>
              if (port.loops task).head = none ∧ (port.shutdown || session.shutdown) = true then
                port.endLoop task
              else none
  | .recvMany n =>
      if port.sender = .recvMany ∧ 0 < n ∧ n ≤ min sendBatchSize port.queue.length then
        some { port with queue := port.queue.drop n, sender := .flush (port.queue.take n) 0 }
      else none
  | .flush result =>
      match port.sender with
      | .flush batch start =>
          if result.toOption.getD 0 ≤ batch.length - start then
            some (port.flushed batch start result)
          else none
      | _ => none
  -- The receiver is dropped, with all that is queued.
  | .senderEnds =>
      if port.sender = .recvMany ∧ port.shutdown = true then
        some { port with sender := .exited, queue := [] }
      else none

def machine : Machine UdpPort Action := ⟨step⟩

/-- A port whose listener has just started. -/
def start (idleTimeout : Duration) (port now : Nat) : UdpPort where
  table := UdpSessionTable.start idleTimeout port now
  shutdown := false
  listener := .slots
  batch := .listener
  loops _ := .session
  queue := []
  sender := .recvMany
  udpOutBytes := 0
  udpDropped := 0
  arrived := []
  replies := []
  left := []

/-! ### What one step can do -/

inductive Step (port : UdpPort) : Action → UdpPort → Prop where
  | table {action table} (admitted : port.admits action = true)
      (taken : UdpSessionTable.machine.step port.table action = some table) :
      Step port (.table action) { port with table := table }
  | cancel : Step port .cancel { port with shutdown := true }
  | receiveFails {error} : Step port (.receive (.error error)) port
  | receive {ds} (slots : port.listener = .slots) (handled : port.batch.head = none)
      (fits : port.batch.Fits ds) :
      Step port (.receive (.ok ds))
        { port with batch := port.batch.receive ds, arrived := port.arrived ++ ds }
  | skip {d} (slots : port.listener = .slots) (head : port.batch.head = some d) :
      Step port .dispatch { port with batch := port.batch.advance }
  | call {source payload table} (slots : port.listener = .slots)
      (head : port.batch.head = some ⟨some source, payload⟩) (nonempty : payload ≠ [])
      (taken : UdpSessionTable.machine.step port.table
        (.env (.getOrCreate ⟨source, some payload⟩)) = some table) :
      Step port .dispatch
        { port with table := table, listener := .calling port.table.threads.length }
  | callReturns {task t} (calling : port.listener = .calling task)
      (found : port.table.threads[task]? = some t) (returned : t.forwarding = none) :
      Step port .callReturns { port with listener := .slots, batch := port.batch.advance }
  | listenerEnds {table} (slots : port.listener = .slots) (handled : port.batch.head = none)
      (taken : UdpSessionTable.machine.step port.table (.env .shutdownAll) = some table) :
      Step port .listenerEnds { port with table := table, listener := .ended }
  | receiveRepliesFails {task error} : Step port (.receiveReplies task (.error error)) port
  | receiveReplies {task ref} {payloads : List Payload}
      (loop : port.table.threads[task]? = some (.replyLoop ref))
      (handled : (port.loops task).head = none)
      (fits : (port.loops task).Fits (payloads.map fun payload => ⟨none, payload⟩)) :
      Step port (.receiveReplies task (.ok payloads))
        { port with
          loops := port.setLoop task
            ((port.loops task).receive (payloads.map fun payload => ⟨none, payload⟩))
          replies := port.replies ++ payloads.map fun payload => (ref, payload) }
  | skipReply {task ref d} (loop : port.table.threads[task]? = some (.replyLoop ref))
      (head : (port.loops task).head = some d) (empty : d.payload = []) :
      Step port (.reply task) { port with loops := port.setLoop task (port.loops task).advance }
  | dropReply {task ref d} (loop : port.table.threads[task]? = some (.replyLoop ref))
      (head : (port.loops task).head = some d) (nonempty : d.payload ≠ [])
      (opened : port.sender ≠ .exited) (full : replyQueueCapacity ≤ port.queue.length) :
      Step port (.reply task)
        { port with
          loops := port.setLoop task (port.loops task).advance
          udpDropped := wrappingAdd port.udpDropped 1 }
  | reply {task ref d session table} (loop : port.table.threads[task]? = some (.replyLoop ref))
      (head : (port.loops task).head = some d) (nonempty : d.payload ≠ [])
      (found : port.table.shared.heap[ref]? = some session)
      (room : port.queue.length < replyQueueCapacity)
      (taken : UdpSessionTable.machine.step port.table (.thread task .go) = some table) :
      Step port (.reply task)
        { port with
          table := table
          loops := port.setLoop task (port.loops task).advance
          queue := port.queue ++ [⟨ref, ⟨session.source, d.payload, d.payload.length⟩⟩] }
  | loopEnds {action task ref table} (loop : port.table.threads[task]? = some (.replyLoop ref))
      (cause : action = .reply task ∧ port.sender = .exited ∨
        (action = .replyLoopEnds task ∨ ∃ error, action = .receiveReplies task (.error error)) ∧
          (port.loops task).head = none)
      (taken : UdpSessionTable.machine.step port.table (.thread task .exit) = some table) :
      Step port action { port with table := table, loops := port.setLoop task .session }
  | recvMany {n} (waiting : port.sender = .recvMany) (positive : 0 < n)
      (le : n ≤ min sendBatchSize port.queue.length) :
      Step port (.recvMany n)
        { port with queue := port.queue.drop n, sender := .flush (port.queue.take n) 0 }
  | flush {batch start result} (flushing : port.sender = .flush batch start)
      (le : result.toOption.getD 0 ≤ batch.length - start) :
      Step port (.flush result) (port.flushed batch start result)
  | senderEnds (waiting : port.sender = .recvMany) (cancelled : port.shutdown = true) :
      Step port .senderEnds { port with sender := .exited, queue := [] }

variable {port port' : UdpPort} {action : Action}

@[simp] theorem setLoop_self (task : Nat) (b : Batch) : port.setLoop task b task = b := if_pos rfl

theorem setLoop_of_ne {task other : Nat} (b : Batch) (ne : other ≠ task) :
    port.setLoop task b other = port.loops other := if_neg ne

theorem replyLoop_eq {task : Nat} {ref : SessionRef} (loop : port.replyLoop task = some ref) :
    port.table.threads[task]? = some (.replyLoop ref) := by
  rw [replyLoop] at loop
  split at loop
  · cases loop
    assumption
  · cases loop

theorem Step.of_endLoop {task : Nat} {ref : SessionRef} (loop : port.replyLoop task = some ref)
    (cause : action = .reply task ∧ port.sender = .exited ∨
      (action = .replyLoopEnds task ∨ ∃ error, action = .receiveReplies task (.error error)) ∧
        (port.loops task).head = none)
    (ends : port.endLoop task = some port') : Step port action port' := by
  obtain ⟨table, taken, rfl⟩ := Option.map_eq_some_iff.mp ends
  exact .loopEnds (replyLoop_eq loop) cause taken

theorem Step.of_receiveReplies {task : Nat} {result : Except ErrorKind (List Payload)}
    (taken : port.step (.receiveReplies task result) = some port') :
    Step port (.receiveReplies task result) port' := by
  simp only [step] at taken
  split at taken
  · cases taken
  case h_2 ref loop =>
      split at taken
      case isFalse => cases taken
      case isTrue handled =>
          cases result with
          | error error =>
              simp only at taken
              split at taken
              · cases taken
                exact .receiveRepliesFails
              · exact .of_endLoop loop (.inr ⟨.inr ⟨error, rfl⟩, handled⟩) taken
          | ok payloads =>
              simp only at taken
              split at taken
              case isTrue fits =>
                  cases taken
                  exact .receiveReplies (replyLoop_eq loop) handled fits
              case isFalse => cases taken

theorem Step.of_reply {task : Nat} (taken : port.step (.reply task) = some port') :
    Step port (.reply task) port' := by
  simp only [step] at taken
  split at taken
  · cases taken
  case h_2 ref loop =>
      split at taken
      case h_1 source payload session head found =>
          split at taken
          case isTrue empty =>
              cases taken
              exact .skipReply (replyLoop_eq loop) head empty
          case isFalse nonempty =>
              split at taken
              case isTrue exited => exact .of_endLoop loop (.inl ⟨rfl, exited⟩) taken
              case isFalse opened =>
                split at taken
                case isTrue room =>
                    obtain ⟨table, own, rfl⟩ := Option.map_eq_some_iff.mp taken
                    exact .reply (replyLoop_eq loop) head nonempty found room own
                case isFalse full =>
                    cases taken
                    exact .dropReply (replyLoop_eq loop) head nonempty opened (Nat.not_lt.mp full)
      case h_2 => cases taken

theorem Step.of_dispatch (taken : port.step .dispatch = some port') :
    Step port .dispatch port' := by
  simp only [step] at taken
  split at taken
  case isFalse => cases taken
  case isTrue slots =>
      split at taken
      · cases taken
      case h_2 head =>
          cases taken
          exact .skip slots head
      case h_3 source payload head =>
          split at taken
          · cases taken
            exact .skip slots head
          case isFalse nonempty =>
              obtain ⟨table, own, rfl⟩ := Option.map_eq_some_iff.mp taken
              exact .call slots head nonempty own

theorem Step.of_receive {result : Except ErrorKind (List Datagram)}
    (taken : port.step (.receive result) = some port') : Step port (.receive result) port' := by
  simp only [step] at taken
  split at taken
  case isFalse => cases taken
  case isTrue ready =>
      cases result with
      | error error =>
          cases taken
          exact .receiveFails
      | ok ds =>
          simp only at taken
          split at taken
          case isTrue fits =>
              cases taken
              exact .receive ready.1 ready.2 fits
          case isFalse => cases taken

theorem Step.of_callReturns (taken : port.step .callReturns = some port') :
    Step port .callReturns port' := by
  simp only [step] at taken
  split at taken
  case h_1 task calling =>
      split at taken
      case h_1 found =>
          cases taken
          exact .callReturns calling found rfl
      case h_2 found =>
          cases taken
          exact .callReturns calling found rfl
      case h_3 => cases taken
  case h_2 => cases taken

theorem Step.of_step (taken : machine.step port action = some port') : Step port action port' := by
  cases action with
  | table action =>
      simp only [machine, step] at taken
      split at taken
      case isTrue admitted =>
          obtain ⟨table, own, rfl⟩ := Option.map_eq_some_iff.mp taken
          exact .table admitted own
      case isFalse => cases taken
  | cancel =>
      cases taken
      exact .cancel
  | receive result => exact .of_receive taken
  | dispatch => exact .of_dispatch taken
  | callReturns => exact .of_callReturns taken
  | listenerEnds =>
      simp only [machine, step] at taken
      split at taken
      case isTrue ready =>
          obtain ⟨table, own, rfl⟩ := Option.map_eq_some_iff.mp taken
          exact .listenerEnds ready.1 ready.2.1 own
      case isFalse => cases taken
  | receiveReplies task result => exact .of_receiveReplies taken
  | reply task => exact .of_reply taken
  | replyLoopEnds task =>
      simp only [machine, step] at taken
      split at taken
      · cases taken
      case h_2 loop =>
          split at taken
          · cases taken
          · split at taken
            case isTrue ready => exact .of_endLoop loop (.inr ⟨.inl rfl, ready.1⟩) taken
            case isFalse => cases taken
  | recvMany n =>
      simp only [machine, step] at taken
      split at taken
      case isTrue ready =>
          cases taken
          exact .recvMany ready.1 ready.2.1 ready.2.2
      case isFalse => cases taken
  | flush result =>
      simp only [machine, step] at taken
      split at taken
      case h_1 batch start flushing =>
          split at taken
          case isTrue le =>
              cases taken
              exact .flush flushing le
          case isFalse => cases taken
      case h_2 => cases taken
  | senderEnds =>
      simp only [machine, step] at taken
      split at taken
      case isTrue ready =>
          cases taken
          exact .senderEnds ready.1 ready.2
      case isFalse => cases taken

/-! ### The session table inside -/

/-- A step of the port is a step of its session table or leaves the table alone. -/
theorem Step.table_eq (taken : Step port action port') : port'.table = port.table ∨
    ∃ a, UdpSessionTable.machine.step port.table a = some port'.table := by
  cases taken with
  | table _ own => exact .inr ⟨_, own⟩
  | call _ _ _ own => exact .inr ⟨_, own⟩
  | listenerEnds _ _ own => exact .inr ⟨_, own⟩
  | reply _ _ _ _ _ own => exact .inr ⟨_, own⟩
  | loopEnds _ _ own => exact .inr ⟨_, own⟩
  | _ => exact .inl rfl

/-- So what holds in every run of the table holds of the table of a port. -/
theorem table_reachable {idleTimeout : Duration} {number now : Nat}
    (reached : machine.Reachable (start idleTimeout number now) port) :
    UdpSessionTable.machine.Reachable (UdpSessionTable.start idleTimeout number now)
      port.table := by
  refine reached.invariant (P := fun port => UdpSessionTable.machine.Reachable
    (UdpSessionTable.start idleTimeout number now) port.table) (.refl _) ?_
  intro port action port' _ before taken
  obtain same | ⟨a, own⟩ := (Step.of_step taken).table_eq
  · rw [same]
    exact before
  · exact before.step own

end UdpPort

end RangePorter
