import RangePorter.Interleaving.Settling
import RangePorter.Listener.UdpReplies
import RangePorter.Listener.UdpRequests
import RangePorter.UdpSession.Lifecycle
import RangePorter.UdpSession.ReplyLoops
import RangePorter.UdpSession.Work

/-!
# Shutting down a UDP port

Once its token is cancelled the port comes to an end. The listener handles the rest of its
batch, leaves its loop and removes all sessions; the reply loops hand on what they have
received and end; the cleanup loop and the sender end. None of them waits for a task that
does not go on. As long as nothing comes in from outside, every step but a retried call
uses up work that is bounded beforehand. At the end no session is left, and each one there
was has been cancelled and closed once.
-/

namespace RangePorter.UdpPort

open Interleaving
open UdpSessionTable (Task)

variable {port port' : UdpPort} {action : Action} {idleTimeout : Duration} {number now : Nat}

/-- Nothing comes in: no datagram and no call from outside. Nor does a task bring new work: the
cleanup loop does not tick, and a scan visits only keys that it has still to visit. -/
def calm (port : UdpPort) : Action → Bool
  | .table (.thread i k) => port.table.threads[i]?.all fun t => !UdpSessionTable.disturbs t k
  | .table (.env e) =>
      match e with
      | .advance _ => true
      | _ => false
  | .receive (.ok _) | .receiveReplies _ (.ok _) => false
  | _ => true

/-- The port while nothing comes in. -/
def calmMachine : Machine UdpPort Action := machine.only calm

/-- Any step that is not a failed call that is made again. -/
def settles : Action → Bool
  | .cancel | .receive _ | .receiveReplies _ _ | .table (.env _) => false
  | .flush (.error error) => !error.retried
  | _ => true

/-! ### The work that is left -/

/-- How many sessions the map may still have at once. -/
def capacity (port : UdpPort) : Nat :=
  port.table.shared.sessions.keys.length + weight UdpSessionTable.inserting port.table.threads +
    port.undispatched.length

/-- A listener that has not left its loop will start a scan. -/
def workOfListener (K : Nat) : ListenerLoop → Nat
  | .slots => 5 * K + 3
  | .calling _ => 5 * K + 4
  | .ended => 0

def workOfSender : Sender → Nat
  | .recvMany => 1
  | .flush batch start => batch.length - start + 2
  | .exited => 0

/-- The replies that the loops of the first tasks have still to hand on. -/
def backlog (tasks : Nat) (loops : Nat → Batch) : Nat :=
  ((List.range tasks).map fun task => (loops task).pending.length).sum

/-- The work that is left while the map has at most `K` entries. -/
def workAt (K : Nat) (port : UdpPort) : Nat :=
  weight (UdpSessionTable.workOf K) port.table.threads +
    (workOfListener K port.listener + 18 * port.undispatched.length) +
    (6 * backlog port.table.threads.length port.loops + 3 * port.queue.length +
      workOfSender port.sender)

def work (port : UdpPort) : Nat := workAt port.capacity port

variable {K K' n : Nat} {task : Nat} {t : Task} {table : Pool UdpSessionTable Task}
  {k : UdpSessionTable.Choice} {d : Datagram} {ref : SessionRef} {b : Batch}

theorem workAt_mono (le : K ≤ K') (port : UdpPort) : workAt K port ≤ workAt K' port := by
  have tasks : weight (UdpSessionTable.workOf K) port.table.threads ≤
      weight (UdpSessionTable.workOf K') port.table.threads :=
    weight_le_weight fun t _ => UdpSessionTable.workOf_mono le t
  have listener : workOfListener K port.listener ≤ workOfListener K' port.listener := by
    unfold workOfListener
    split <;> omega
  unfold workAt
  omega

/-! ### Tasks of the table -/

/-- A task's step that brings no work uses some up, and no room in the map. -/
theorem table_work (found : port.table.threads[task]? = some t)
    (quiet : UdpSessionTable.disturbs t k = false)
    (taken : UdpSessionTable.machine.step port.table (.thread task k) = some table)
    (bound : port.table.shared.sessions.keys.length ≤ K) :
    weight (UdpSessionTable.workOf K) table.threads <
        weight (UdpSessionTable.workOf K) port.table.threads ∧
      table.shared.sessions.keys.length + weight UdpSessionTable.inserting table.threads ≤
        port.table.shared.sessions.keys.length +
          weight UdpSessionTable.inserting port.table.threads := by
  obtain ⟨u, tab, t', new, there, own, rfl⟩ := Program.machine_thread_iff.mp taken
  cases found.symm.trans there
  have step := UdpSessionTable.step_iff.mp own
  have less := step.work quiet bound
  have room := step.inserting_le
  have exchange := weight_set (UdpSessionTable.workOf K) t' found
  have exchange' := weight_set UdpSessionTable.inserting t' found
  simp only [weight_append]
  omega

/-- A loop that ends, or touches its session, spawns nothing and inserts nothing. -/
theorem loop_work (loop : port.table.threads[task]? = some (.replyLoop ref))
    (taken : UdpSessionTable.machine.step port.table (.thread task k) = some table) :
    table.threads.length = port.table.threads.length ∧
      weight (UdpSessionTable.workOf K) table.threads + (if k = .go then 0 else 3) =
        weight (UdpSessionTable.workOf K) port.table.threads + 2 ∧
      table.shared.sessions.keys.length + weight UdpSessionTable.inserting table.threads =
        port.table.shared.sessions.keys.length +
          weight UdpSessionTable.inserting port.table.threads := by
  obtain ⟨u, tab, t', new, there, own, rfl⟩ := Program.machine_thread_iff.mp taken
  cases loop.symm.trans there
  have exchange := weight_set (UdpSessionTable.workOf K) t' loop
  have exchange' := weight_set UdpSessionTable.inserting t' loop
  cases UdpSessionTable.step_iff.mp own with
  | replied | replyEnds =>
      simp [UdpSessionTable.workOf, UdpSessionTable.workOfTouchCaller,
        UdpSessionTable.workOfRemoveCaller, UdpSessionTable.inserting] at exchange exchange' ⊢
      omega

/-! ### The buffers of the reply loops -/

theorem backlog_setLoop (port : UdpPort) (bound : task < n) (b : Batch) :
    backlog n (port.setLoop task b) + (port.loops task).pending.length =
      backlog n port.loops + b.pending.length := by
  have set : (fun i => (port.setLoop task b i).pending.length) =
      fun i => if i = task then b.pending.length else (port.loops i).pending.length := by
    funext i
    exact apply_ite (fun b : Batch => b.pending.length) ..
  rw [backlog, set]
  exact sum_range_update (fun task => (port.loops task).pending.length) bound b.pending.length

theorem backlog_advance (loop : port.table.threads[task]? = some (.replyLoop ref))
    (head : (port.loops task).head = some d) :
    backlog port.table.threads.length (port.setLoop task (port.loops task).advance) + 1 =
      backlog port.table.threads.length port.loops := by
  have exchange := backlog_setLoop port (lt_length_of_loop loop) (port.loops task).advance
  rw [Batch.pending_of_head head, List.length_cons] at exchange
  omega

/-- New tasks have no batch yet. -/
theorem backlog_tableStep {table table' : Pool UdpSessionTable Task} {loops : Nat → Batch}
    {replies : List (SessionRef × Payload)} {out : List Queued}
    {action : Interleaving.Action UdpSessionTable.Choice UdpSessionTable.Env}
    (egress : Egress table loops replies out)
    (taken : UdpSessionTable.machine.step table action = some table') :
    backlog table'.threads.length loops = backlog table.threads.length loops := by
  apply sum_range_extend (threads_length_le taken)
  intro task beyond
  have idle : unhandled (loops task) = [] := by
    apply egress.idle
    rw [loopAt, List.getElem?_eq_none beyond, Option.bind_none]
  rw [List.map_eq_nil_iff.mp idle, List.length_nil]

/-! ### Steps of the port -/

theorem flushed_work (batch : List Queued) (start : Nat) (result : Except ErrorKind Nat)
    (port : UdpPort) :
    workOfSender (port.flushed batch start result).sender + (settles (.flush result)).toNat ≤
      workOfSender (.flush batch start) := by
  have goes_on : ∀ next, start ≤ next →
      workOfSender (if next < batch.length then .flush batch next else .recvMany) ≤
        batch.length - start + 2 - min (next - start) 1 := by
    intro next le
    split <;> simp only [workOfSender] <;> omega
  cases result with
  | ok sent =>
      cases sent with
      | zero => simp [flushed, flushNext, settles, workOfSender]
      | succ sent =>
          have later := goes_on (start + (sent + 1)) (Nat.le_add_right ..)
          simp only [flushed, flushNext, settles, workOfSender, Bool.toNat_true] at later ⊢
          omega
  | error error =>
      cases retried : error.retried with
      | false => simp [flushed, flushNext, settles, workOfSender, retried]
      | true =>
          have again := goes_on start (Nat.le_refl _)
          simp [flushed, flushNext, settles, retried, workOfSender] at again ⊢
          omega

/-- No step brings work, and a step that settles uses some up. -/
theorem Step.workAt {out : List Queued} (taken : Step port action port')
    (quiet : calm port action = true)
    (egress : Egress port.table port.loops port.replies out)
    (bound : port.table.shared.sessions.keys.length ≤ K) :
    UdpPort.workAt K port' + (settles action).toNat ≤ UdpPort.workAt K port ∧
      capacity port' ≤ capacity port := by
  cases taken with
  | @table action table admitted own =>
      cases action with
      | thread task k =>
          obtain ⟨t, tab, t', new, found, -⟩ := Program.machine_thread_iff.mp own
          have still : UdpSessionTable.disturbs t k = false := by simpa [calm, found] using quiet
          obtain ⟨less, room⟩ := table_work found still own bound
          have loops := backlog_tableStep egress own
          simp only [UdpPort.workAt, capacity, undispatched, settles, Bool.toNat_true] at room ⊢
          omega
      | env e =>
          cases e with
          | advance seconds =>
              cases own
              simp [UdpPort.workAt, capacity, undispatched, settles]
          | _ => cases quiet
  | cancel => exact ⟨Nat.le_refl _, Nat.le_refl _⟩
  | receiveFails => exact ⟨Nat.le_refl _, Nat.le_refl _⟩
  | receive => cases quiet
  | skip slots head =>
      simp only [UdpPort.workAt, capacity, undispatched, slots, Batch.pending_of_head head,
        List.length_cons, settles, Bool.toNat_true]
      omega
  | @call source payload table slots head nonempty own =>
      have loops := backlog_tableStep egress own
      cases own
      simp only [UdpPort.workAt, capacity, undispatched, slots, Batch.pending_of_head head,
        List.length_cons, settles, Bool.toNat_true] at loops ⊢
      simp [workOfListener, UdpSessionTable.workOf, UdpSessionTable.workOfCall,
        UdpSessionTable.workOfReturn, UdpSessionTable.inserting] at loops ⊢
      omega
  | callReturns calling found returned =>
      simp only [UdpPort.workAt, capacity, undispatched, calling, workOfListener, settles,
        Bool.toNat_true]
      omega
  | listenerEnds slots handled own =>
      have loops := backlog_tableStep egress own
      cases own
      simp [UdpPort.workAt, capacity, undispatched, slots, workOfListener, settles,
        UdpSessionTable.workOf, UdpSessionTable.workOfSweep, UdpSessionTable.inserting] at loops ⊢
      omega
  | receiveRepliesFails => exact ⟨Nat.le_refl _, Nat.le_refl _⟩
  | receiveReplies => cases quiet
  | skipReply loop head | dropReply loop head =>
      have loops := backlog_advance loop head
      simp only [UdpPort.workAt, capacity, undispatched, settles, Bool.toNat_true]
      omega
  | reply loop head nonempty found room own =>
      have loops := backlog_advance loop head
      obtain ⟨same, work, kept⟩ := loop_work (K := K) loop own
      simp only [UdpPort.workAt, capacity, undispatched, settles, Bool.toNat_true, same,
        List.length_append, List.length_singleton, if_pos] at work kept ⊢
      omega
  | @loopEnds action task ref table loop cause own =>
      have loops := backlog_setLoop port (lt_length_of_loop loop) .session
      obtain ⟨same, work, kept⟩ := loop_work (K := K) loop own
      have none : Batch.session.pending.length = 0 := rfl
      have most : (settles action).toNat ≤ 1 := Bool.toNat_le _
      simp only [UdpPort.workAt, capacity, undispatched, same, reduceCtorEq, if_false]
        at work kept ⊢
      omega
  | recvMany waiting positive le =>
      simp only [UdpPort.workAt, capacity, undispatched, waiting, workOfSender, settles,
        Bool.toNat_true, List.length_drop, List.length_take]
      omega
  | @flush batch start result flushing le =>
      have sender := flushed_work batch start result port
      rw [← flushing] at sender
      simp only [UdpPort.workAt, capacity, undispatched, flushed] at sender ⊢
      omega
  | senderEnds waiting =>
      simp only [UdpPort.workAt, capacity, undispatched, waiting, workOfSender, settles,
        Bool.toNat_true, List.length_nil]
      omega

/-! ### Somebody can always go on -/

/-- Nothing runs any more, and no session is left: those there were have been cancelled
and closed once. -/
structure Ended (port : UdpPort) : Prop where
  listener : port.listener = .ended
  sender : port.sender = .exited
  tasks : ∀ t ∈ port.table.threads, t.ended = true
  sessions : port.table.shared.sessions = ∅
  closed : ∀ ref ∈ port.table.shared.history.inserted,
    (∃ s, port.table.shared.heap[ref]? = some s ∧ s.shutdown = true) ∧
      (port.table.shared.history.closes.map Prod.fst).count ref = 1

theorem ended_of_tasks (reached : machine.Reachable (start idleTimeout number now) port)
    (listener : port.listener = .ended) (sender : port.sender = .exited)
    (tasks : ∀ t ∈ port.table.threads, t.ended = true) : Ended port := by
  have inside := table_reachable reached
  have empty : port.table.shared.sessions = ∅ := by
    refine AList.ext (List.eq_nil_iff_forall_not_mem.mpr ?_)
    rintro ⟨source, ref⟩ member
    have found := AList.mem_lookup_iff.mpr member
    obtain ⟨id, known⟩ := (UdpSessionTable.identified inside).filed source ref found
    obtain ⟨t, running, tends⟩ := UdpSessionTable.allTended inside source ref id found known
    have ended := tasks t running
    cases t with
    | returned | finished => cases tends
    | _ => cases ended
  refine ⟨listener, sender, tasks, empty, ?_⟩
  intro ref inserted
  have filed := UdpSessionTable.mapped_add_removed inside (· == ref)
  have positive := List.count_pos_iff.mpr inserted
  have none : UdpSessionTable.mapped port.table.shared = [] := by
    rw [UdpSessionTable.mapped, empty]
    rfl
  rw [none, List.countP_nil, Nat.zero_add] at filed
  apply UdpSessionTable.cancelled_and_closed_once inside
  · apply List.count_pos_iff.mp
    simp only [List.count] at positive ⊢
    omega
  · intro t member next
    have ended := tasks t member
    cases t with
    | returned | finished =>
        intro same
        cases same
    | _ => cases ended

/-- A listener waits for a task that exists. -/
theorem calling_lt (reached : machine.Reachable (start idleTimeout number now) port) :
    ∀ task, port.listener = .calling task → task < port.table.threads.length := by
  refine reached.invariant (P := fun port => ∀ task, port.listener = .calling task →
    task < port.table.threads.length) nofun ?_
  intro port action port' _ before taken task calling
  cases Step.of_step taken with
  | table _ own => exact (before task calling).trans_le (threads_length_le own)
  | call _ _ _ own =>
      cases own
      cases calling
      simp
  | callReturns | listenerEnds => cases calling
  | reply _ _ _ _ _ own => exact (before task calling).trans_le (threads_length_le own)
  | loopEnds _ _ own => exact (before task calling).trans_le (threads_length_le own)
  | _ => exact before task calling

/-- The token is cancelled. -/
structure ShuttingDown (idleTimeout : Duration) (number now : Nat) (port : UdpPort) : Prop where
  reached : machine.Reachable (start idleTimeout number now) port
  shutdown : port.shutdown = true

theorem Step.shutdown (taken : Step port action port') (before : port.shutdown = true) :
    port'.shutdown = true := by
  cases still : port'.shutdown with
  | true => rfl
  | false =>
      have running := taken.running still
      rw [before] at running
      cases running

theorem ShuttingDown.step (down : ShuttingDown idleTimeout number now port)
    (taken : machine.step port action = some port') :
    ShuttingDown idleTimeout number now port' :=
  ⟨down.reached.step taken, (Step.of_step taken).shutdown down.shutdown⟩

theorem goes_on_of (a : Action) (own : settles a = true) (quiet : calm port a = true)
    (taken : (machine.step port a).isSome) :
    ∃ a q, settles a = true ∧ calmMachine.step port a = some q := by
  obtain ⟨q, taken⟩ := Option.isSome_iff_exists.mp taken
  exact ⟨a, q, own, Machine.only_step_iff.mpr ⟨quiet, taken⟩⟩

/-- A reply loop hands on what it has received, and then ends. -/
theorem loop_goes_on (shutdown : port.shutdown = true) {session : UdpSession}
    (loop : port.table.threads[task]? = some (.replyLoop ref))
    (found : port.table.shared.heap[ref]? = some session) :
    ∃ a q, settles a = true ∧ calmMachine.step port a = some q := by
  have own := replyLoop_of_found loop
  obtain ⟨ended, exit⟩ : ∃ table,
      UdpSessionTable.machine.step port.table (.thread task .exit) = some table :=
    ⟨_, Program.machine_thread_iff.mpr
      ⟨_, _, _, _, loop, UdpSessionTable.step_iff.mpr (.replyEnds found), rfl⟩⟩
  obtain ⟨touched, go⟩ : ∃ table,
      UdpSessionTable.machine.step port.table (.thread task .go) = some table :=
    ⟨_, Program.machine_thread_iff.mpr
      ⟨_, _, _, _, loop, UdpSessionTable.step_iff.mpr .replied, rfl⟩⟩
  cases head : (port.loops task).head with
  | none =>
      apply goes_on_of (.replyLoopEnds task) rfl rfl
      simp [machine, step, own, found, head, shutdown, endLoop, exit]
  | some d =>
      apply goes_on_of (.reply task) rfl rfl
      simp only [machine, step, own, found, head]
      split
      · rfl
      · split
        · simp [endLoop, exit]
        · split
          · simp [enqueue, go]
          · rfl

theorem task_goes_on (down : ShuttingDown idleTimeout number now port)
    (found : port.table.threads[task]? = some t) (runs : t.ended = false) :
    ∃ a q, settles a = true ∧ calmMachine.step port a = some q := by
  have identified := UdpSessionTable.identified (table_reachable down.reached)
  have knows := identified.knows.get found
  by_cases loop : ∃ ref, t = .replyLoop ref
  · obtain ⟨ref, rfl⟩ := loop
    obtain ⟨source, id, known⟩ := knows
    obtain ⟨session, stored, -⟩ := UdpSessionTable.session_of_identity known
    exact loop_goes_on down.shutdown found stored
  · obtain ⟨k, tab, t', new, still, taken⟩ :=
      UdpSessionTable.goes_on identified.filed knows runs
    have admitted : port.admits (.thread task k) = true := by
      simp only [admits, found]
      split
      · exact absurd ⟨_, Option.some.inj ‹_›⟩ loop
      · rfl
    have own : UdpSessionTable.machine.step port.table (.thread task k) = some _ :=
      Program.machine_thread_iff.mpr
        ⟨t, tab, t', new, found, UdpSessionTable.step_iff.mpr taken, rfl⟩
    apply goes_on_of (.table (.thread task k)) rfl
    · simp [calm, found, still]
    · simp only [machine, step, admitted, if_true, own]
      rfl

/-- With no task left the listener can go on, and after it the sender. -/
theorem ShuttingDown.goes_on (down : ShuttingDown idleTimeout number now port)
    (busy : ¬ Ended port) : ∃ a q, settles a = true ∧ calmMachine.step port a = some q := by
  by_cases running : ∃ t ∈ port.table.threads, t.ended = false
  · obtain ⟨t, member, runs⟩ := running
    obtain ⟨task, found⟩ := List.mem_iff_getElem?.mp member
    exact task_goes_on down found runs
  · have tasks : ∀ t ∈ port.table.threads, t.ended = true := by simpa using running
    cases place : port.listener with
    | slots =>
        cases head : port.batch.head with
        | none =>
            apply goes_on_of .listenerEnds rfl rfl
            simp only [machine, UdpPort.step, place, head, down.shutdown, and_self, if_true]
            rfl
        | some d =>
            apply goes_on_of .dispatch rfl rfl
            simp only [machine, UdpPort.step, place, head, if_true]
            split
            · rename_i absent
              cases absent
            · rfl
            · split <;> rfl
    | calling task =>
        have bound := calling_lt down.reached task place
        have found := List.getElem?_eq_getElem bound
        have ended := tasks _ (List.getElem_mem bound)
        apply goes_on_of .callReturns rfl rfl
        simp only [machine, UdpPort.step, place, found]
        cases same : port.table.threads[task] with
        | returned | finished => rfl
        | _ =>
            rw [same] at ended
            cases ended
    | ended =>
        cases sender : port.sender with
        | recvMany =>
            apply goes_on_of .senderEnds rfl rfl
            simp [machine, UdpPort.step, sender, down.shutdown]
        | flush batch start =>
            apply goes_on_of (.flush (.ok 0)) rfl rfl
            simp [machine, UdpPort.step, sender, Except.toOption]
        | exited => exact absurd (ended_of_tasks down.reached place sender tasks) busy

theorem ShuttingDown.work_step (down : ShuttingDown idleTimeout number now port)
    (quiet : calm port action = true) (taken : machine.step port action = some port') :
    work port' + (settles action).toNat ≤ work port := by
  have room : port.table.shared.sessions.keys.length ≤ port.capacity := by
    unfold capacity
    omega
  obtain ⟨less, smaller⟩ :=
    (Step.of_step taken).workAt quiet (egress_reachable down.reached) room
  exact (Nat.add_le_add_right (workAt_mono smaller port') _).trans less

theorem settles_calm (idleTimeout : Duration) (number now : Nat) :
    calmMachine.Settles (ShuttingDown idleTimeout number now) settles work Ended := by
  refine .of_work ?_ ?_ fun port down busy => down.goes_on busy
  · intro port action port' down taken
    exact down.step (Machine.only_step_iff.mp taken).2
  · intro port action port' down taken
    obtain ⟨quiet, own⟩ := Machine.only_step_iff.mp taken
    exact down.work_step quiet own

/-! ### The shutdown ends -/

/-- Whatever comes in first: as long as nothing comes in, the steps are bounded and nothing
blocks before the end; once nothing comes in any more, a run that does not starve these
steps gets there. -/
structure ShutsDown (port : UdpPort) : Prop where
  bounded : ∀ as q, calmMachine.run port as = some q →
    calmMachine.count (fun _ a => settles a) port as ≤ work port
  unblocked : ∀ as q, machine.run port as = some q →
    (∀ a, settles a = true → calmMachine.step q a = none) → Ended q
  completes : ∀ as q, machine.run port as = some q →
    ∃ bs r, calmMachine.run q bs = some r ∧ Ended r
  eventually : ∀ state action, state 0 = port → machine.Forever state action →
    (∃ n, ∀ m, n ≤ m → calm (state m) (action m) = true) →
    (∀ n, ¬ Ended (state n) → ∃ m, n ≤ m ∧ settles (action m) = true) →
    ∃ n, Ended (state n)

theorem shuts_down (reached : machine.Reachable (start idleTimeout number now) port)
    (shutdown : port.shutdown = true) : ShutsDown port := by
  have rests := settles_calm idleTimeout number now
  have down : ShuttingDown idleTimeout number now port := ⟨reached, shutdown⟩
  have later : ∀ as q, machine.run port as = some q → ShuttingDown idleTimeout number now q :=
    fun as q complete => Machine.invariant_run
      (P := ShuttingDown idleTimeout number now) (fun _ _ _ down taken => down.step taken) down
      complete
  constructor
  · intro as q complete
    exact (Nat.le_add_right ..).trans (rests.count_add_le down complete)
  · intro as q complete
    exact rests.done_of_stuck (later as q complete)
  · intro as q complete
    obtain ⟨bs, r, rest, -, ended⟩ := rests.completes (later as q complete)
    exact ⟨bs, r, rest, ended⟩
  · rintro state action rfl forever quiet fair
    exact rests.eventually_only forever (fun n => later _ _ (forever.run n)) quiet fair

/-- The token is cancelled while a reply loop has a reply to hand on. -/
def replyAtHand : List Action :=
  .table (.env .cleanupLoop) :: served (.v4 0x0a000001 4000) [1, 2] 1 ++
    [.receiveReplies 2 (.ok [[4]]), .cancel]

theorem replyAtHand_accepted :
    (machine.run (start (.fromSecs 60) 9000 100) replyAtHand).isSome := by
  decide

theorem shuts_down_replyAtHand :
    ShutsDown ((machine.run (start (.fromSecs 60) 9000 100) replyAtHand).get
      replyAtHand_accepted) :=
  shuts_down (Machine.reachable_get replyAtHand_accepted) (by decide)

end RangePorter.UdpPort
