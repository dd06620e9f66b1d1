import RangePorter.Listener.Udp

/-!
# From the target back to the clients

A reply passes through the buffer of its session's loop, the queue of the port and a batch
of the sender. `leaving` is the line of all packets behind the buffers, in the order in
which they leave. For every session, its packets in that line and what its loop has still
to handle are together a subsequence of its replies (`Egress.reading`). A session has only
one loop, so no other loop adds a packet of it.
-/

namespace RangePorter.UdpPort

open Interleaving
open UdpSessionTable (Task)
open scoped List

/-- The packets that the sender has still to send. -/
def held : Sender → List Queued
  | .flush batch start => batch.drop start
  | .recvMany | .exited => []

/-- The packets that have left the socket, followed by those that still may. -/
def leaving (port : UdpPort) : List Queued := port.left ++ held port.sender ++ port.queue

def payloadsOf (ref : SessionRef) (packets : List Queued) : List Payload :=
  (packets.filter fun q => q.session == ref).map fun q => q.packet.payload

/-- What a session has received from the target, empty datagrams included. -/
def repliesOf (ref : SessionRef) (replies : List (SessionRef × Payload)) : List Payload :=
  (replies.filter fun x => x.1 == ref).map Prod.snd

/-- The session whose reply loop this task runs. -/
def loopAt (table : Pool UdpSessionTable Task) (task : Nat) : Option SessionRef :=
  table.threads[task]?.bind Task.loopOf

def unhandled (b : Batch) : List Payload := b.pending.map Datagram.payload

/-- The buffers of the reply loops, and the packets that have gone through them. -/
structure Egress (table : Pool UdpSessionTable Task) (loops : Nat → Batch)
    (replies : List (SessionRef × Payload)) (out : List Queued) : Prop where
  known : ∀ q ∈ out, q.packet.payload ≠ [] ∧ q.packet.bytes = q.packet.payload.length ∧
    ∃ id, table.shared.identity q.session = some (q.packet.dst, id)
  ordered : ∀ ref, payloadsOf ref out <+ repliesOf ref replies
  reading : ∀ task ref, loopAt table task = some ref →
    payloadsOf ref out ++ unhandled (loops task) <+ repliesOf ref replies
  idle : ∀ task, loopAt table task = none → unhandled (loops task) = []

variable {table table' : Pool UdpSessionTable Task} {loops loops' : Nat → Batch}
  {replies : List (SessionRef × Payload)} {out out' : List Queued} {ref : SessionRef}
  {b : Batch} {d : Datagram} {task : Nat}

theorem payloadsOf_append (ref : SessionRef) (out out' : List Queued) :
    payloadsOf ref (out ++ out') = payloadsOf ref out ++ payloadsOf ref out' := by
  simp [payloadsOf]

theorem payloadsOf_sublist (ref : SessionRef) (fewer : out' <+ out) :
    payloadsOf ref out' <+ payloadsOf ref out := (fewer.filter _).map _

theorem repliesOf_append (ref : SessionRef) (replies replies' : List (SessionRef × Payload)) :
    repliesOf ref (replies ++ replies') = repliesOf ref replies ++ repliesOf ref replies' := by
  simp [repliesOf]

theorem repliesOf_own (ref : SessionRef) (payloads : List Payload) :
    repliesOf ref (payloads.map fun payload => (ref, payload)) = payloads := by
  simp [repliesOf, List.filter_map, Function.comp_def]

theorem unhandled_of_head (head : b.head = some d) :
    unhandled b = d.payload :: unhandled b.advance := by
  rw [unhandled, Batch.pending_of_head head, List.map_cons, unhandled]

theorem unhandled_session : unhandled .session = [] := rfl

/-! ### One component at a time -/

/-- The tasks of the table go on. A loop that ends drops its buffer. -/
theorem Egress.tasks (egress : Egress table loops replies out)
    (keeps : ∀ ref e, table.shared.identity ref = some e → table'.shared.identity ref = some e)
    (goesOn : ∀ task, unhandled (loops' task) = [] ∨ loops' task = loops task ∧
      ∀ ref, loopAt table task = some ref → loopAt table' task = some ref) :
    Egress table' loops' replies out where
  known := by
    intro q member
    obtain ⟨nonempty, bytes, id, known⟩ := egress.known q member
    exact ⟨nonempty, bytes, id, keeps _ _ known⟩
  ordered := egress.ordered
  reading := by
    intro task ref loop
    obtain none | ⟨same, kept⟩ := goesOn task
    · rw [none, List.append_nil]
      exact egress.ordered ref
    · rw [same]
      cases before : loopAt table task with
      | none =>
          -- The loop has just been spawned, and its buffer is new.
          rw [egress.idle task before, List.append_nil]
          exact egress.ordered ref
      | some ref' =>
          have unchanged := (kept ref' before).symm.trans loop
          cases unchanged
          exact egress.reading task ref before
  idle := by
    intro task ended
    obtain none | ⟨same, kept⟩ := goesOn task
    · exact none
    · rw [same]
      apply egress.idle
      cases before : loopAt table task with
      | none => rfl
      | some ref =>
          rw [kept ref before] at ended
          cases ended

/-- Packets and slots may get lost anywhere. -/
theorem Egress.drop (egress : Egress table loops replies out) (fewer : out' <+ out)
    (skipped : ∀ task, unhandled (loops' task) <+ unhandled (loops task)) :
    Egress table loops' replies out' where
  known q member := egress.known q (fewer.subset member)
  ordered ref := (payloadsOf_sublist ref fewer).trans (egress.ordered ref)
  reading task ref loop :=
    ((payloadsOf_sublist ref fewer).append (skipped task)).trans (egress.reading task ref loop)
  idle := by
    intro task ended
    have handled := skipped task
    rw [egress.idle task ended] at handled
    exact List.sublist_nil.mp handled

variable {port : UdpPort}

/-- A loop goes on behind the head of its buffer. -/
theorem Egress.skip (egress : Egress port.table port.loops port.replies out)
    (head : (port.loops task).head = some d) :
    Egress port.table (port.setLoop task (port.loops task).advance) port.replies out := by
  apply egress.drop (.refl _)
  intro other
  by_cases own : other = task
  · rw [own, setLoop_self, unhandled_of_head head]
    exact List.sublist_cons_self ..
  · rw [setLoop_of_ne _ own]

/-- A loop reads replies of its session into a buffer that it has handled. -/
theorem Egress.receive {payloads : List Payload}
    (egress : Egress port.table port.loops port.replies out)
    (loop : loopAt port.table task = some ref)
    (fits : b.Fits (payloads.map fun payload => ⟨none, payload⟩)) :
    Egress port.table
      (port.setLoop task (b.receive (payloads.map fun payload => ⟨none, payload⟩)))
      (port.replies ++ payloads.map fun payload => (ref, payload)) out where
  known := egress.known
  ordered := by
    intro ref'
    rw [repliesOf_append]
    exact (egress.ordered ref').trans (List.sublist_append_left ..)
  reading := by
    intro task' ref' loop'
    rw [repliesOf_append]
    by_cases own : task' = task
    · subst own
      rw [loop] at loop'
      cases loop'
      rw [setLoop_self, unhandled, Batch.pending_receive fits, List.map_map, repliesOf_own]
      have received : payloads.map (Datagram.payload ∘ fun payload => ⟨none, payload⟩) = payloads :=
        List.map_id payloads
      rw [received]
      exact (egress.ordered ref).append_right payloads
    · rw [setLoop_of_ne _ own]
      exact (egress.reading task' ref' loop').trans (List.sublist_append_left ..)
  idle := by
    intro task' ended
    by_cases own : task' = task
    · subst own
      rw [loop] at ended
      cases ended
    · rw [setLoop_of_ne _ own]
      exact egress.idle task' ended

/-- A reply moves from the head of the buffer to the end of the line. -/
theorem Egress.enqueue {q : Queued} {id : Nat}
    (egress : Egress port.table port.loops port.replies out)
    (only : ∀ task' ref', loopAt port.table task = some ref' → loopAt port.table task' = some ref' →
      task' = task)
    (loop : loopAt port.table task = some q.session)
    (head : (port.loops task).head = some d) (nonempty : d.payload ≠ [])
    (payload : q.packet.payload = d.payload) (bytes : q.packet.bytes = d.payload.length)
    (known : port.table.shared.identity q.session = some (q.packet.dst, id)) :
    Egress port.table (port.setLoop task (port.loops task).advance) port.replies (out ++ [q]) := by
  have line := egress.reading task q.session loop
  rw [unhandled_of_head head] at line
  have own : payloadsOf q.session [q] = [d.payload] := by
    simp [payloadsOf, payload]
  have others : ∀ ref, ref ≠ q.session → payloadsOf ref [q] = [] := by
    intro ref other
    simp [payloadsOf, Ne.symm other]
  constructor
  · intro q' member
    obtain old | last := List.mem_append.mp member
    · exact egress.known q' old
    · rw [List.mem_singleton.mp last, payload]
      exact ⟨nonempty, bytes, id, known⟩
  · intro ref
    rw [payloadsOf_append]
    by_cases same : ref = q.session
    · subst same
      rw [own]
      refine List.Sublist.trans ?_ line
      exact (List.singleton_sublist.mpr (List.mem_cons_self ..)).append_left _
    · rw [others ref same, List.append_nil]
      exact egress.ordered ref
  · intro task' ref loop'
    rw [payloadsOf_append]
    by_cases same : task' = task
    · subst same
      rw [loop] at loop'
      cases loop'
      rw [setLoop_self, own, List.append_assoc, List.singleton_append]
      exact line
    · have other : ref ≠ q.session := by
        rintro rfl
        exact same (only task' q.session loop loop')
      rw [setLoop_of_ne _ same, others ref other, List.append_nil]
      exact egress.reading task' ref loop'
  · intro task' ended
    have other : task' ≠ task := by
      rintro rfl
      rw [loop] at ended
      cases ended
    rw [setLoop_of_ne _ other]
    exact egress.idle task' ended

/-! ### Whole steps -/

theorem loopAt_of_found {t : Task} (found : table.threads[task]? = some t) :
    loopAt table task = t.loopOf := by
  rw [loopAt, found, Option.bind_some]

/-- A reply loop goes on until it takes its own exit. -/
theorem loopAt_kept {action : Interleaving.Action UdpSessionTable.Choice UdpSessionTable.Env}
    (taken : UdpSessionTable.machine.step table action = some table')
    (stays : action = .thread task .exit → table.threads[task]? ≠ some (.replyLoop ref))
    (loop : loopAt table task = some ref) : loopAt table' task = some ref := by
  obtain ⟨u, found, own⟩ := Option.bind_eq_some_iff.mp loop
  cases action with
  | thread i k =>
      obtain ⟨t, tab', t', new, present, step, rfl⟩ := Program.machine_thread_iff.mp taken
      by_cases same : task = i
      · subst same
        rw [present] at found
        cases found
        rw [loopAt_of_found (lookup_self (List.getElem?_eq_some_iff.mp present).1)]
        obtain same | ⟨ref', rfl, rfl, -⟩ := (UdpSessionTable.step_iff.mp step).loopOf
        · exact same.trans own
        · cases own
          exact absurd present (stays rfl)
      · rw [loopAt_of_found (lookup_other found same)]
        exact own
  | env e =>
      obtain ⟨tab', new, -, rfl⟩ := Program.machine_env_iff.mp taken
      rw [loopAt_of_found (lookup_append found)]
      exact own

theorem identity_kept {action : Interleaving.Action UdpSessionTable.Choice UdpSessionTable.Env}
    (taken : UdpSessionTable.machine.step table action = some table') (ref : SessionRef)
    (e : SocketAddr × Nat) (known : table.shared.identity ref = some e) :
    table'.shared.identity ref = some e := by
  cases action with
  | thread i k =>
      obtain ⟨t, tab', t', new, -, step, rfl⟩ := Program.machine_thread_iff.mp taken
      exact (UdpSessionTable.step_iff.mp step).identity known
  | env event =>
      obtain ⟨tab', new, step, rfl⟩ := Program.machine_env_iff.mp taken
      rw [UdpSessionTable.env_identity step, known]

/-- A step of the table that ends no reply loop. -/
theorem Egress.tableStep {action : Interleaving.Action UdpSessionTable.Choice UdpSessionTable.Env}
    (egress : Egress table loops replies out)
    (taken : UdpSessionTable.machine.step table action = some table')
    (stays : ∀ task ref, action = .thread task .exit →
      table.threads[task]? ≠ some (.replyLoop ref)) : Egress table' loops replies out :=
  egress.tasks (identity_kept taken)
    fun task => .inr ⟨rfl, fun ref => loopAt_kept taken (stays task ref)⟩

/-- A reply loop ends, and its buffer is dropped. -/
theorem Egress.loopEnds (egress : Egress port.table port.loops port.replies out)
    (taken : UdpSessionTable.machine.step port.table (.thread task .exit) = some table') :
    Egress table' (port.setLoop task .session) port.replies out := by
  apply egress.tasks (identity_kept taken)
  intro other
  by_cases own : other = task
  · rw [own, setLoop_self]
    exact .inl unhandled_session
  · refine .inr ⟨setLoop_of_ne _ own, fun ref => loopAt_kept taken ?_⟩
    intro same
    cases same
    exact absurd rfl own

/-- The sender keeps the order and only loses packets. -/
theorem leaving_flushed {batch : List Queued} {start : Nat} {result : Except ErrorKind Nat}
    (flushing : port.sender = .flush batch start) :
    leaving (port.flushed batch start result) <+ leaving port := by
  have rest : held (port.flushed batch start result).sender <+
      (batch.drop start).drop (result.toOption.getD 0) := by
    rw [flushed]
    split
    case h_1 next goesOn =>
        rw [flushNext_eq goesOn]
        split
        · rw [held, List.drop_drop]
        · exact List.nil_sublist _
    case h_2 => exact List.nil_sublist _
  rw [leaving, leaving, flushing]
  refine List.Sublist.append_right ?_ _
  rw [flushed, List.append_assoc]
  refine List.Sublist.append_left ?_ _
  calc
    (batch.drop start).take (result.toOption.getD 0) ++ _ <+
        (batch.drop start).take (result.toOption.getD 0) ++
          (batch.drop start).drop (result.toOption.getD 0) := rest.append_left _
    _ = batch.drop start := List.take_append_drop ..

theorem not_replyLoop_of_admits {k : UdpSessionTable.Choice}
    (admitted : port.admits (.thread task k) = true) :
    port.table.threads[task]? ≠ some (.replyLoop ref) := by
  intro loop
  simp [admits, loop] at admitted

variable {idleTimeout : Duration} {number now : Nat} {port' : UdpPort} {action : Action}

theorem Egress.step (egress : Egress port.table port.loops port.replies (leaving port))
    (reached : UdpSessionTable.machine.Reachable (UdpSessionTable.start idleTimeout number now)
      port.table)
    (taken : Step port action port') :
    Egress port'.table port'.loops port'.replies (leaving port') := by
  cases taken with
  | table admitted own =>
      apply egress.tableStep own
      rintro task ref rfl
      exact not_replyLoop_of_admits admitted
  | call _ _ _ own => exact egress.tableStep own nofun
  | listenerEnds _ _ own => exact egress.tableStep own nofun
  | receiveReplies loop handled fits => exact egress.receive (loopAt_of_found loop) fits
  | skipReply _ head | dropReply _ head => exact egress.skip head
  | @reply task ref d session table loop head nonempty found room own =>
      have only : ∀ other ref', loopAt port.table task = some ref' →
          loopAt port.table other = some ref' → other = task := by
        intro other ref' running running'
        obtain ⟨t, present, loops⟩ := Option.bind_eq_some_iff.mp running
        obtain ⟨u, present', loops'⟩ := Option.bind_eq_some_iff.mp running'
        exact UdpSessionTable.loop_unique reached present' present loops' loops
      have queued := egress.enqueue (q := ⟨ref, ⟨session.source, d.payload, d.payload.length⟩⟩)
        only (loopAt_of_found loop) head nonempty rfl rfl
        (UdpSessionTable.identity_of_session found)
      rw [leaving, ← List.append_assoc]
      exact queued.tableStep own nofun
  | loopEnds _ _ own => exact egress.loopEnds own
  | @recvMany n waiting =>
      have line : leaving port = port.left ++ (port.queue.take n ++ port.queue.drop n) := by
        rw [leaving, waiting, List.take_append_drop, held, List.append_nil]
      rw [line, ← List.append_assoc] at egress
      exact egress
  | flush flushing => exact egress.drop (leaving_flushed flushing) fun _ => .refl _
  | senderEnds waiting =>
      apply egress.drop _ fun _ => .refl _
      rw [leaving, leaving, waiting]
      exact (List.nil_sublist _).append_left _
  | _ => exact egress

theorem egress_reachable (reached : machine.Reachable (start idleTimeout number now) port) :
    Egress port.table port.loops port.replies (leaving port) := by
  refine reached.invariant
    (P := fun port => Egress port.table port.loops port.replies (leaving port)) ?_ ?_
  · refine ⟨?_, ?_, ?_, ?_⟩
    · intro q member
      cases member
    · exact fun _ => .refl _
    · intro task ref loop
      cases loop
    · exact fun _ _ => rfl
  · intro port action port' before egress taken
    exact egress.step (table_reachable before) (.of_step taken)

end RangePorter.UdpPort
