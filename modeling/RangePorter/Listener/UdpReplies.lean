import RangePorter.Listener.UdpIsolation

/-!
# What becomes of the replies

A reply that a loop has taken from its buffer is in the queue, in the batch of the sender,
sent, or dropped because the queue was full. The only other way out is a flush that gives
up: what is left of its batch is neither sent nor counted. `Tally` keeps the books on all
of them, so that a port at rest shows what is missing (`accounted_iff`).
-/

namespace RangePorter

namespace UdpPort

open Interleaving
open UdpSessionTable (Task)

/-- The non-empty datagrams that a loop has still to handle. -/
def waitingIn (b : Batch) : Nat := b.pending.countP fun d => d.payload ≠ []

def waiting (tasks : Nat) (loops : Nat → Batch) : Nat :=
  ((List.range tasks).map fun task => waitingIn (loops task)).sum

/-- The non-empty datagrams that the reply loops have read from their sockets. -/
def received (port : UdpPort) : Nat := port.replies.countP fun x => x.2 ≠ []

/-- No reply is queued, and the sender is between two batches. -/
def AtRest (port : UdpPort) : Prop := port.queue = [] ∧ port.sender = .recvMany

/-- Every reply that a loop has taken from its buffer is counted once, as sent or as
dropped. -/
def Accounted (port : UdpPort) : Prop :=
  port.received = port.left.length + port.udpDropped +
    waiting port.table.threads.length port.loops

/-- A call of `send_batch` after which `flush` gives up the rest of its batch. -/
def Action.breaks : Action → Bool
  | .flush result => (flushNext 0 result).isNone
  | _ => false

/-- A loop finds the queue full. -/
def drops (port : UdpPort) : Action → Bool
  | .reply task =>
      match port.replyLoop task, (port.loops task).head with
      | some _, some d =>
          d.payload ≠ [] ∧ port.sender ≠ .exited ∧ replyQueueCapacity ≤ port.queue.length
      | _, _ => false
  | _ => false

/-- The books of a port after so many flushes that gave up, with so many replies dropped
and so many lost. -/
structure Tally (gaveUp dropped lost : Nat) (port : UdpPort) : Prop where
  received : port.received = port.left.length + (held port.sender).length + port.queue.length +
    dropped + lost + waiting port.table.threads.length port.loops
  counted : port.udpDropped = dropped % u64Size
  lost_iff : lost = 0 ↔ gaveUp = 0
  flushing : ∀ batch start, port.sender = .flush batch start → start < batch.length
  opened : port.sender ≠ .exited

variable {port port' : UdpPort} {action : Action} {b : Batch} {d : Datagram} {task : Nat}
variable {loops : Nat → Batch} {n m : Nat}

/-! ### Buffers -/

theorem waitingIn_of_none (handled : b.head = none) : waitingIn b = 0 := by
  rw [waitingIn, Batch.pending_of_none handled, List.countP_nil]

theorem waitingIn_of_head (head : b.head = some d) :
    waitingIn b = waitingIn b.advance + if d.payload ≠ [] then 1 else 0 := by
  rw [waitingIn, Batch.pending_of_head head, List.countP_cons, waitingIn]
  simp

theorem waitingIn_receive {payloads : List Payload}
    (fits : b.Fits (payloads.map fun payload => ⟨none, payload⟩)) :
    waitingIn (b.receive (payloads.map fun payload => ⟨none, payload⟩)) =
      payloads.countP fun payload => payload ≠ [] := by
  rw [waitingIn, Batch.pending_receive fits, List.countP_map]
  rfl

theorem waiting_setLoop (port : UdpPort) (bound : task < n) (b : Batch) :
    waiting n (port.setLoop task b) + waitingIn (port.loops task) =
      waiting n port.loops + waitingIn b := by
  have set : (fun i => waitingIn (port.setLoop task b i)) =
      fun i => if i = task then waitingIn b else waitingIn (port.loops i) := by
    funext i
    exact apply_ite waitingIn ..
  rw [waiting, set]
  exact sum_range_update (fun task => waitingIn (port.loops task)) bound (waitingIn b)

/-- Tasks that run no loop have nothing to handle. -/
theorem waiting_extend (le : n ≤ m) (idle : ∀ task, n ≤ task → waitingIn (loops task) = 0) :
    waiting m loops = waiting n loops := sum_range_extend le idle

theorem threads_length_le {table table' : Pool UdpSessionTable Task}
    {action : Interleaving.Action UdpSessionTable.Choice UdpSessionTable.Env}
    (taken : UdpSessionTable.machine.step table action = some table') :
    table.threads.length ≤ table'.threads.length := by
  refine Program.machine_cases (motive := fun _ table' =>
    table.threads.length ≤ table'.threads.length) ?_ ?_ taken
  · intro i k t tab t' new _ _
    simp
  · intro e tab new _
    simp

theorem waitingIn_of_idle (idle : unhandled b = []) : waitingIn b = 0 := by
  rw [waitingIn, List.map_eq_nil_iff.mp idle, List.countP_nil]

/-- A step of the table leaves the buffers as they are. -/
theorem waiting_tableStep {replies : List (SessionRef × Payload)} {out : List Queued}
    {table table' : Pool UdpSessionTable Task}
    {action : Interleaving.Action UdpSessionTable.Choice UdpSessionTable.Env}
    (egress : Egress table loops replies out)
    (taken : UdpSessionTable.machine.step table action = some table') :
    waiting table'.threads.length loops = waiting table.threads.length loops := by
  apply waiting_extend (threads_length_le taken)
  intro task beyond
  apply waitingIn_of_idle
  apply egress.idle
  rw [loopAt, List.getElem?_eq_none beyond, Option.bind_none]

/-! ### The sender -/

theorem breaks_flush (result : Except ErrorKind Nat) :
    (Action.flush result).breaks = breaks result := by
  cases ends : breaks result with
  | true => rw [Action.breaks, (flushNext_of_breaks ends 0).1, Option.isNone_none]
  | false => rw [Action.breaks, flushNext_of_not_breaks ends, Option.isNone_some]

/-- What a flush does not send it keeps, unless it gives up. -/
theorem length_flushed {batch : List Queued} {start : Nat} {result : Except ErrorKind Nat}
    (port : UdpPort) (inside : start < batch.length)
    (le : result.toOption.getD 0 ≤ batch.length - start) :
    ∃ lost, (lost = 0 ↔ (Action.flush result).breaks = false) ∧
      port.left.length + (batch.length - start) =
        (port.flushed batch start result).left.length +
          (held (port.flushed batch start result).sender).length + lost := by
  have sent : (port.flushed batch start result).left.length =
      port.left.length + result.toOption.getD 0 := by
    simp [flushed, Nat.min_eq_left le]
  rw [sent]
  cases ends : breaks result with
  | true =>
      obtain ⟨next, none⟩ := flushNext_of_breaks ends start
      refine ⟨batch.length - start, ?_, by simp [flushed, next, held, none]⟩
      rw [breaks_flush, ends]
      constructor
      · intro empty
        omega
      · rintro ⟨⟩
  | false =>
      have next := flushNext_of_not_breaks ends start
      refine ⟨0, by simp [breaks_flush, ends], ?_⟩
      simp only [flushed, next]
      split
      · rw [held, List.length_drop]
        omega
      · rw [held, List.length_nil]
        omega

/-! ### The books -/

theorem lt_length_of_loop {table : Pool UdpSessionTable Task} {ref : SessionRef}
    (loop : table.threads[task]? = some (.replyLoop ref)) : task < table.threads.length :=
  (List.getElem?_eq_some_iff.mp loop).1

/-- The loop hands its next reply on. -/
theorem waiting_advance (port : UdpPort) (bound : task < n)
    (head : (port.loops task).head = some d) :
    waiting n (port.setLoop task (port.loops task).advance) + (if d.payload ≠ [] then 1 else 0) =
      waiting n port.loops := by
  have exchange := waiting_setLoop port bound (port.loops task).advance
  rw [waitingIn_of_head head] at exchange
  omega

theorem replyLoop_of_found {ref : SessionRef}
    (loop : port.table.threads[task]? = some (.replyLoop ref)) :
    port.replyLoop task = some ref := by
  simp [replyLoop, loop]

theorem countP_own (ref : SessionRef) (payloads : List Payload) :
    (payloads.map fun payload => (ref, payload)).countP (fun x => x.2 ≠ []) =
      payloads.countP fun payload => payload ≠ [] := by
  rw [List.countP_map]
  rfl

theorem drops_reply {ref : SessionRef} (loop : port.table.threads[task]? = some (.replyLoop ref))
    (head : (port.loops task).head = some d) : drops port (.reply task) =
      decide (d.payload ≠ [] ∧ port.sender ≠ .exited ∧ replyQueueCapacity ≤ port.queue.length) := by
  simp [drops, replyLoop_of_found loop, head]

variable {gaveUp dropped lost : Nat}

/-- The loop hands its next reply on: to nobody, to the queue, or to the dropped ones. -/
theorem Tally.advance (tally : Tally gaveUp dropped lost port)
    (bound : task < port.table.threads.length) (head : (port.loops task).head = some d)
    {table : Pool UdpSessionTable Task} {queue : List Queued} {dropped' udpDropped' : Nat}
    (loops : waiting table.threads.length (port.setLoop task (port.loops task).advance) =
      waiting port.table.threads.length (port.setLoop task (port.loops task).advance))
    (counted : udpDropped' = dropped' % u64Size)
    (moved : queue.length + dropped' =
      port.queue.length + dropped + if d.payload ≠ [] then 1 else 0) :
    Tally gaveUp dropped' lost
      { port with
        table := table
        loops := port.setLoop task (port.loops task).advance
        queue := queue
        udpDropped := udpDropped' } := by
  refine ⟨?_, counted, tally.lost_iff, tally.flushing, tally.opened⟩
  have before := tally.received
  have handed := waiting_advance port bound head
  show UdpPort.received port = port.left.length + (held port.sender).length + queue.length +
    dropped' + lost + _
  rw [loops]
  omega

theorem Tally.receiveReplies (tally : Tally gaveUp dropped lost port) {ref : SessionRef}
    {payloads : List Payload} (bound : task < port.table.threads.length)
    (handled : (port.loops task).head = none)
    (fits : (port.loops task).Fits (payloads.map fun payload => ⟨none, payload⟩)) :
    Tally gaveUp dropped lost
      { port with
        loops := port.setLoop task
          ((port.loops task).receive (payloads.map fun payload => ⟨none, payload⟩))
        replies := port.replies ++ payloads.map fun payload => (ref, payload) } := by
  refine ⟨?_, tally.counted, tally.lost_iff, tally.flushing, tally.opened⟩
  have exchange := waiting_setLoop port bound
    ((port.loops task).receive (payloads.map fun payload => ⟨none, payload⟩))
  rw [waitingIn_of_none handled, waitingIn_receive fits, Nat.add_zero] at exchange
  show (port.replies ++ payloads.map fun payload => (ref, payload)).countP _ = _
  rw [List.countP_append, countP_own]
  show UdpPort.received port + _ = port.left.length + (held port.sender).length +
    port.queue.length + dropped + lost + _
  rw [exchange, tally.received]
  omega

/-- The sender takes the next batch out of the queue. -/
theorem Tally.recvMany (tally : Tally gaveUp dropped lost port) (waits : port.sender = .recvMany)
    (positive : 0 < n) (le : n ≤ min sendBatchSize port.queue.length) :
    Tally gaveUp dropped lost
      { port with queue := port.queue.drop n, sender := .flush (port.queue.take n) 0 } := by
  refine ⟨?_, tally.counted, tally.lost_iff, ?_, by rintro ⟨⟩⟩
  · have before := tally.received
    rw [waits, held, List.length_nil] at before
    show UdpPort.received port = port.left.length + ((port.queue.take n).drop 0).length +
      (port.queue.drop n).length + dropped + lost +
        waiting port.table.threads.length port.loops
    rw [List.drop_zero, List.length_take, List.length_drop]
    omega
  · rintro batch start ⟨⟩
    rw [List.length_take]
    omega

/-- A call of `send_batch` loses nothing unless `flush` gives up after it. -/
theorem Tally.flushed {batch : List Queued} {start : Nat} {result : Except ErrorKind Nat}
    (tally : Tally gaveUp dropped lost port) (flushing : port.sender = .flush batch start)
    (le : result.toOption.getD 0 ≤ batch.length - start) :
    ∃ lost', Tally (gaveUp + (Action.flush result).breaks.toNat) dropped lost'
      (port.flushed batch start result) := by
  have inside := tally.flushing batch start flushing
  obtain ⟨more, more_iff, kept⟩ := length_flushed port inside le
  refine ⟨lost + more, ?_, tally.counted, ?_, ?_, ?_⟩
  · have before := tally.received
    rw [flushing, held, List.length_drop] at before
    show UdpPort.received port = (port.flushed batch start result).left.length +
      (held (port.flushed batch start result).sender).length + port.queue.length + dropped +
        (lost + more) + waiting port.table.threads.length port.loops
    omega
  · rw [Nat.add_eq_zero_iff, Nat.add_eq_zero_iff, tally.lost_iff, more_iff, Bool.toNat_eq_zero]
  · intro batch' start' next
    rw [UdpPort.flushed] at next
    simp only at next
    split at next
    · split at next
      · cases next
        assumption
      · cases next
    · cases next
  · rw [UdpPort.flushed]
    simp only
    split
    · split <;> rintro ⟨⟩
    · rintro ⟨⟩

/-- Before the shutdown every step keeps the books. -/
theorem Tally.step (tally : Tally gaveUp dropped lost port)
    (egress : Egress port.table port.loops port.replies (leaving port))
    (taken : Step port action port') (running : port'.shutdown = false) :
    ∃ lost', Tally (gaveUp + action.breaks.toNat) (dropped + (drops port action).toNat) lost'
      port' := by
  cases taken with
  | table _ own =>
      refine ⟨lost, ?_, tally.counted, tally.lost_iff, tally.flushing, tally.opened⟩
      rw [waiting_tableStep egress own]
      exact tally.received
  | call _ _ _ own | listenerEnds _ _ own =>
      refine ⟨lost, ?_, tally.counted, tally.lost_iff, tally.flushing, tally.opened⟩
      rw [waiting_tableStep egress own]
      exact tally.received
  | cancel => cases running
  | senderEnds _ cancelled =>
      rw [cancelled] at running
      cases running
  | receiveReplies loop handled fits =>
      exact ⟨lost, tally.receiveReplies (lt_length_of_loop loop) handled fits⟩
  | @skipReply task ref d loop head empty =>
      have kept : drops port (.reply task) = false := by
        rw [drops_reply loop head]
        simp [empty]
      rw [kept]
      exact ⟨lost, tally.advance (lt_length_of_loop loop) head rfl tally.counted
        (by simp [empty])⟩
  | @dropReply task ref d loop head nonempty opened full =>
      have dropped' : drops port (.reply task) = true := by
        rw [drops_reply loop head]
        exact decide_eq_true ⟨nonempty, opened, full⟩
      rw [dropped']
      refine ⟨lost, tally.advance (lt_length_of_loop loop) head rfl ?_
        (by rw [if_pos nonempty, Nat.add_assoc]; rfl)⟩
      rw [tally.counted, wrappingAdd, Nat.mod_add_mod]
      rfl
  | @reply task ref d session table loop head nonempty found room own =>
      have kept : drops port (.reply task) = false := by
        rw [drops_reply loop head]
        exact decide_eq_false fun all => Nat.not_le.mpr room all.2.2
      rw [kept]
      refine ⟨lost, tally.advance (lt_length_of_loop loop) head
        (waiting_tableStep (egress.skip head) own) tally.counted ?_⟩
      rw [if_pos nonempty, List.length_append, List.length_singleton]
      exact Nat.add_right_comm ..
  | @loopEnds _ task ref table loop cause own =>
      obtain ⟨-, exited⟩ | ⟨ends, handled⟩ := cause
      · exact absurd exited tally.opened
      · have quiet : action.breaks = false ∧ drops port action = false := by
          obtain rfl | ⟨error, rfl⟩ := ends <;> exact ⟨rfl, rfl⟩
        rw [quiet.1, quiet.2]
        refine ⟨lost, ?_, tally.counted, tally.lost_iff, tally.flushing, tally.opened⟩
        have exchange := waiting_setLoop port
          ((lt_length_of_loop loop).trans_le (threads_length_le own)) .session
        rw [waitingIn_of_none handled, waitingIn_of_idle unhandled_session,
          waiting_tableStep egress own] at exchange
        show UdpPort.received port = port.left.length + (held port.sender).length +
          port.queue.length + dropped + lost +
            waiting table.threads.length (port.setLoop task .session)
        rw [tally.received]
        omega
  | recvMany waits positive le => exact ⟨lost, tally.recvMany waits positive le⟩
  | flush flushing le => exact tally.flushed flushing le
  | _ => exact ⟨lost, tally.received, tally.counted, tally.lost_iff, tally.flushing, tally.opened⟩

variable {idleTimeout : Duration} {number now : Nat} {as : List Action}

theorem Step.running (taken : Step port action port') (running : port'.shutdown = false) :
    port.shutdown = false := by
  cases taken with
  | cancel => cases running
  | _ => exact running

/-- The books of every run before the shutdown. -/
theorem tally_run (complete : machine.run (start idleTimeout number now) as = some port)
    (running : port.shutdown = false) :
    ∃ lost, Tally (machine.count (fun _ a => a.breaks) (start idleTimeout number now) as)
      (machine.count drops (start idleTimeout number now) as) lost port := by
  have books := Machine.invariant_total (M := machine)
    (f := fun port a => (a.breaks.toNat, (drops port a).toNat))
    (P := fun (b : Nat × Nat) port => machine.Reachable (start idleTimeout number now) port ∧
      (port.shutdown = false → ∃ lost, Tally b.1 b.2 lost port)) (b := 0) ?_ ?_ complete
  · rw [zero_add, Machine.total_prodMk, ← Machine.count_eq_total, ← Machine.count_eq_total] at books
    exact books.2 running
  · rintro b port a port' ⟨reached, before⟩ taken
    refine ⟨reached.step taken, fun running => ?_⟩
    have step := Step.of_step taken
    obtain ⟨lost, tally⟩ := before (step.running running)
    exact tally.step (egress_reachable reached) step running
  · exact ⟨.refl _, fun _ => ⟨0, rfl, rfl, Iff.rfl, nofun, nofun⟩⟩

theorem foldl_wrappingAdd (sent : List Queued) (total : Nat) :
    sent.foldl (fun total q => wrappingAdd total q.packet.bytes) (total % u64Size) =
      (total + (sent.map fun q => q.packet.bytes).sum) % u64Size := by
  induction sent generalizing total with
  | nil => rfl
  | cons q sent ih =>
      rw [List.foldl_cons, wrappingAdd, Nat.mod_add_mod, ih, List.map_cons, List.sum_cons,
        Nat.add_assoc]

/-- The counter of bytes counts what has left. -/
theorem udpOutBytes_eq (reached : machine.Reachable (start idleTimeout number now) port) :
    port.udpOutBytes = (port.left.map fun q => q.packet.bytes).sum % u64Size := by
  refine reached.invariant (P := fun port =>
    port.udpOutBytes = (port.left.map fun q => q.packet.bytes).sum % u64Size) rfl ?_
  intro port action port' _ before taken
  cases Step.of_step taken with
  | flush =>
      rw [flushed]
      simp only [List.map_append, List.sum_append]
      rw [before]
      exact foldl_wrappingAdd ..
  | _ => exact before

/-- The packets that have left are those in the counter of bytes. At rest every reply is
accounted for exactly if no flush gave up and the counter of drops has not wrapped. -/
theorem accounted_iff (complete : machine.run (start idleTimeout number now) as = some port)
    (running : port.shutdown = false) (rest : AtRest port) :
    port.udpOutBytes = (port.left.map fun q => q.packet.bytes).sum % u64Size ∧
      (Accounted port ↔
        machine.Along (fun _ a => a.breaks = false) (start idleTimeout number now) as ∧
          machine.count drops (start idleTimeout number now) as < u64Size) := by
  refine ⟨udpOutBytes_eq ⟨as, complete⟩, ?_⟩
  obtain ⟨lost, tally⟩ := tally_run complete running
  have received := tally.received
  rw [rest.1, rest.2, held, List.length_nil] at received
  rw [← Machine.count_eq_zero_iff complete, ← tally.lost_iff, Accounted, tally.counted]
  have positive := u64Size_pos
  have le := Nat.mod_le (machine.count drops (start idleTimeout number now) as) u64Size
  constructor
  · intro accounted
    refine ⟨by omega, ?_⟩
    have same : machine.count drops (start idleTimeout number now) as % u64Size =
        machine.count drops (start idleTimeout number now) as := by omega
    exact same ▸ Nat.mod_lt _ positive
  · rintro ⟨none, few⟩
    rw [Nat.mod_eq_of_lt few]
    omega

/-- A client whose session has taken one reply. -/
def oneReply : List Action :=
  served (.v4 0x0a000001 4000) [1, 2] 0 ++ [.receiveReplies 1 (.ok [[4]]), .reply 1, .recvMany 1]

theorem oneReply_sent : (machine.run (start (.fromSecs 60) 9000 100)
    (oneReply ++ [.flush (.error .interrupted), .flush (.ok 1)])).isSome := by
  decide

theorem accounted_oneReply :
    let as := oneReply ++ [.flush (.error .interrupted), .flush (.ok 1)]
    let port := (machine.run (start (.fromSecs 60) 9000 100) as).get oneReply_sent
    port.udpOutBytes = (port.left.map fun q => q.packet.bytes).sum % u64Size ∧
      (Accounted port ↔
        machine.Along (fun _ a => a.breaks = false) (start (.fromSecs 60) 9000 100) as ∧
          machine.count drops (start (.fromSecs 60) 9000 100) as < u64Size) :=
  accounted_iff (Option.some_get oneReply_sent).symm (by decide) ⟨by decide, by decide⟩

theorem oneReply_unsent : (machine.run (start (.fromSecs 60) 9000 100)
    (oneReply ++ [.flush (.error .networkUnreachable)])).isSome := by
  decide

/-- A reply that cannot be sent is neither sent nor dropped. -/
theorem reply_unaccounted :
    ¬ ∀ port, machine.Reachable (start (.fromSecs 60) 9000 100) port →
      port.shutdown = false → AtRest port → Accounted port := by
  intro accounted
  have all := accounted _ (Machine.reachable_get oneReply_unsent) (by decide)
    ⟨by decide, by decide⟩
  revert all
  unfold Accounted
  decide

end UdpPort

end RangePorter
