import RangePorter.Listener.UdpIsolation

/-!
# What becomes of the requests

A datagram that a client sends is still in the listener's batch, with the call the listener
waits for, sent to the target, or given up: because no socket could be opened for its
session or because the send failed. Empty datagrams, and those without an address, are
skipped. The counter of incoming bytes counts what was sent, a moment later.
-/

namespace RangePorter

namespace UdpSessionTable

open Interleaving

variable {tab tab' : UdpSessionTable} {t t' : Task} {k : Choice} {new : List Task}
  {idleTimeout : Duration} {port now : Nat} {p : Pool UdpSessionTable Task}

/-- A step sends the task's datagram, or gives it up because a call fails, or keeps it. -/
theorem Step.carries (taken : Step tab t k tab' t' new) :
    (∃ ref payload, t = .forward ref payload ∧ k = .go ∧ t'.forwarding = none ∧
        tab'.history.sent = tab.history.sent ++ [(ref, payload)]) ∨
      k = .fail ∧ t'.forwarding = none ∧ tab'.history.sent = tab.history.sent ∨
      k ≠ .fail ∧ t'.forwarding = t.forwarding ∧ tab'.history.sent = tab.history.sent := by
  cases taken with
  | send => exact .inl ⟨_, _, rfl, rfl, rfl, rfl⟩
  | connectFails | sendFails => exact .inr (.inl ⟨rfl, rfl, rfl⟩)
  | spawn => exact .inr (.inr ⟨nofun, forwarding_return .., rfl⟩)
  | @touchNow _ caller => exact .inr (.inr ⟨nofun, by cases caller <;> rfl, rfl⟩)
  | @touchStore _ _ caller =>
      cases caller with
      | getOrCreate => exact .inr (.inr ⟨nofun, forwarding_return .., rfl⟩)
      | _ => exact .inr (.inr ⟨nofun, rfl, rfl⟩)
  | removeAbsent | removeOther | markAgain | flowClose =>
      exact .inr (.inr ⟨nofun, forwarding_removeResume _, rfl⟩)
  | @scanEnd sweep found =>
      exact .inr (.inr ⟨nofun, forwarding_removeResume (.sweeping sweep found), rfl⟩)
  | _ => exact .inr (.inr ⟨nofun, rfl, rfl⟩)

/-! ### The counter of incoming bytes -/

/-- Bytes that the task has sent and not yet counted. -/
def owesUdpIn : Task → Nat
  | .touch _ _ (.forward payload) | .addUdpIn payload => payload.length
  | _ => 0

theorem owesUdpIn_return (call : Call) (own : Option SessionRef) (ref : SessionRef) :
    owesUdpIn (call.return own ref) = 0 :=
  Call.return_cases (fun _ _ => rfl) fun _ => rfl

theorem owesUdpIn_removeResume (caller : RemoveCaller) : owesUdpIn caller.resume = 0 :=
  RemoveCaller.resume_cases (fun _ _ _ _ => rfl) rfl rfl

def bytesSent (tab : UdpSessionTable) : Nat := (tab.history.sent.map fun x => x.2.length).sum

theorem udpInBytes_apply (s : PortStats) (op : CounterOp) (other : op.counter ≠ .udpInBytes) :
    (s.apply op).udpInBytes = s.udpInBytes :=
  PortStats.load_apply_of_ne s (d := .udpInBytes) (Ne.symm other)

/-- Bytes that the task counts in this step. -/
def countsUdpIn : Task → Choice → Nat
  | .addUdpIn payload, .go => payload.length
  | _, _ => 0

/-- What a step counts it takes from what its task owes. -/
theorem Step.owes (taken : Step tab t k tab' t' new) :
    countsUdpIn t k + owesUdpIn t' + weight owesUdpIn new + tab.bytesSent =
      owesUdpIn t + tab'.bytesSent := by
  -- Most steps neither send nor count.
  have frame (idle : countsUdpIn t k = 0) (sent : tab'.bytesSent = tab.bytesSent)
      (owed : owesUdpIn t' + weight owesUdpIn new = owesUdpIn t) :
      countsUdpIn t k + owesUdpIn t' + weight owesUdpIn new + tab.bytesSent =
        owesUdpIn t + tab'.bytesSent := by
    omega
  cases taken with
  | @send ref payload =>
      simp only [countsUdpIn, bytesSent, UdpSessionTable.send, List.map_append, List.sum_append,
        owesUdpIn, weight_nil, List.map_singleton, List.sum_singleton]
      omega
  | addUdpIn => simp [countsUdpIn, owesUdpIn, bytesSent]
  | flowClose => exact frame rfl rfl (owesUdpIn_removeResume _)
  | spawn => exact frame rfl rfl (owesUdpIn_return ..)
  | @touchNow _ caller => exact frame rfl rfl (by cases caller <;> rfl)
  | @touchStore _ _ caller =>
      cases caller with
      | getOrCreate => exact frame rfl rfl (owesUdpIn_return ..)
      | _ => exact frame rfl rfl rfl
  | removeAbsent | removeOther | markAgain => exact frame rfl rfl (owesUdpIn_removeResume _)
  | @scanEnd sweep found => exact frame rfl rfl (owesUdpIn_removeResume (.sweeping sweep found))
  | _ => exact frame rfl rfl rfl

theorem Step.udpInBytes (taken : Step tab t k tab' t' new) {counted : Nat}
    (before : tab.stats.udpInBytes = counted % u64Size) :
    tab'.stats.udpInBytes = (counted + countsUdpIn t k) % u64Size := by
  cases taken with
  | @addUdpIn payload =>
      show wrappingAdd tab.stats.udpInBytes payload.length = _
      rw [before, wrappingAdd, Nat.mod_add_mod]
      rfl
  | flowOpen | flowClose => exact (udpInBytes_apply _ _ (by decide)).trans before
  | _ => exact before

/-- The counter has counted what was sent, but for what some task has still to count. -/
theorem udpInBytes_eq (reached : machine.Reachable (start idleTimeout port now) p) :
    ∃ counted, p.shared.stats.udpInBytes = counted % u64Size ∧
      counted + weight owesUdpIn p.threads = p.shared.bytesSent := by
  refine Program.reachable_induction (J := fun p =>
    ∃ counted, p.shared.stats.udpInBytes = counted % u64Size ∧
      counted + weight owesUdpIn p.threads = p.shared.bytesSent) reached ⟨0, rfl, rfl⟩ ?_ ?_
  · rintro p i k t tab t' new - ⟨counted, before, balance⟩ found taken
    have step := step_iff.mp taken
    have change := step.owes
    have exchange := weight_set owesUdpIn t' found
    refine ⟨_, step.udpInBytes before, ?_⟩
    simp only [weight_append]
    omega
  · rintro p e tab new - ⟨counted, before, balance⟩ taken
    have same : tab.bytesSent = p.shared.bytesSent := by cases e <;> cases taken <;> rfl
    have idle : weight owesUdpIn new = 0 := by cases e <;> cases taken <;> rfl
    refine ⟨counted, by cases e <;> cases taken <;> exact before, ?_⟩
    simp only [weight_append]
    omega

end UdpSessionTable

namespace UdpPort

open Interleaving
open UdpSessionTable (Task)

/-- A datagram that the listener forwards. -/
def Deliverable (d : Datagram) : Bool := d.source.isSome && !d.payload.isEmpty

/-- The listener has received this many of them. -/
def requests (port : UdpPort) : Nat := port.arrived.countP Deliverable

/-- What the listener has not made a call for yet. -/
def undispatched (port : UdpPort) : List Datagram :=
  match port.listener with
  | .calling _ => port.batch.advance.pending
  | _ => port.batch.pending

/-- The task has a datagram to send. -/
def inHand (t : Task) : Nat := t.forwarding.isSome.toNat

/-- A call fails that has a datagram to send. -/
def givesUp (table : Pool UdpSessionTable Task) :
    Interleaving.Action UdpSessionTable.Choice UdpSessionTable.Env → Bool
  | .thread i k => decide (k = .fail) && carries table i
  | .env _ => false

def fails (port : UdpPort) : Action → Bool
  | .table action => givesUp port.table action
  | _ => false

/-- Every request is sent, given up, in a task's hands, or waits in the batch. -/
def Balanced (given : Nat) (port : UdpPort) : Prop :=
  port.requests = port.table.shared.history.sent.length + given +
    weight inHand port.table.threads + port.undispatched.countP Deliverable

variable {port port' : UdpPort} {action : Action} {table table' : Pool UdpSessionTable Task}
  {idleTimeout : Duration} {number now : Nat} {given : Nat}

theorem deliverable_of_call {source : SocketAddr} {payload : Payload} (nonempty : payload ≠ []) :
    Deliverable ⟨some source, payload⟩ = true := by
  cases payload with
  | nil => exact absurd rfl nonempty
  | cons => rfl

theorem countP_pending {d : Datagram} {batch : Batch} (head : batch.head = some d) :
    batch.pending.countP Deliverable =
      batch.advance.pending.countP Deliverable + (Deliverable d).toNat := by
  rw [Batch.pending_of_head head, List.countP_cons]
  cases Deliverable d <;> rfl

/-! ### Steps of the table -/

theorem inHand_of_none {t : Task} (none : t.forwarding = none) : inHand t = 0 := by
  rw [inHand, none]
  rfl

theorem inHand_thread {tab' : UdpSessionTable} {t t' : Task} {new : List Task} {i : Nat}
    {k : UdpSessionTable.Choice} (found : table.threads[i]? = some t)
    (taken : UdpSessionTable.Step table.shared t k tab' t' new) :
    weight inHand (table.threads.set i t' ++ new) + tab'.history.sent.length +
        (givesUp table (.thread i k)).toNat =
      weight inHand table.threads + table.shared.history.sent.length := by
  have exchange := weight_set inHand t' found
  have spawned : weight inHand new = 0 :=
    weight_eq_zero_iff.mpr fun u member => inHand_of_none (taken.new_forwarding member)
  rw [weight_append, spawned]
  obtain ⟨ref, payload, rfl, rfl, done, sent⟩ | ⟨rfl, done, sent⟩ | ⟨other, same, sent⟩ :=
    taken.carries
  · have kept : (givesUp table (.thread i .go)).toNat = 0 := rfl
    have one : inHand (.forward ref payload) = 1 := rfl
    rw [inHand_of_none done] at exchange
    rw [sent, kept, List.length_append, List.length_singleton]
    omega
  · have given : (givesUp table (.thread i .fail)).toNat = inHand t := by
      simp [givesUp, carries_of_found found, inHand]
    rw [inHand_of_none done] at exchange
    rw [sent, given]
    omega
  · have kept : (givesUp table (.thread i k)).toNat = 0 := by simp [givesUp, other]
    rw [inHand, inHand, same] at exchange
    rw [sent, kept]
    omega

theorem inHand_step {action : Interleaving.Action UdpSessionTable.Choice UdpSessionTable.Env}
    (taken : UdpSessionTable.machine.step table action = some table')
    (idle : ∀ call, action = .env (.getOrCreate call) → call.payload = none) :
    weight inHand table'.threads + table'.shared.history.sent.length +
        (givesUp table action).toNat =
      weight inHand table.threads + table.shared.history.sent.length := by
  cases action with
  | thread i k =>
      obtain ⟨t, tab', t', new, found, own, rfl⟩ := Program.machine_thread_iff.mp taken
      exact inHand_thread found (UdpSessionTable.step_iff.mp own)
  | env e =>
      obtain ⟨tab', new, own, rfl⟩ := Program.machine_env_iff.mp taken
      have spawned : weight inHand new = 0 := weight_eq_zero_iff.mpr fun u member =>
        inHand_of_none (UdpSessionTable.env_forwarding own
          (fun call same => idle call (by rw [same])) member)
      have sent : tab'.history.sent = table.shared.history.sent := by
        cases e <;> cases own <;> rfl
      have kept : (givesUp table (.env e)).toNat = 0 := rfl
      rw [weight_append, spawned, sent, kept, Nat.add_zero, Nat.add_zero]

/-! ### Steps of the listener -/

/-- The listener skips only what it cannot forward. -/
theorem dispatch_cases (taken : machine.step port .dispatch = some port') :
    port.listener = .slots ∧
      ((∃ d, port.batch.head = some d ∧ Deliverable d = false ∧
          port' = { port with batch := port.batch.advance }) ∨
        ∃ source payload, port.batch.head = some ⟨some source, payload⟩ ∧ payload ≠ [] ∧
          port.call source payload = some port') := by
  simp only [machine, step] at taken
  split at taken
  case isFalse => cases taken
  case isTrue slots =>
      refine ⟨slots, ?_⟩
      split at taken
      · cases taken
      case h_2 payload head =>
          cases taken
          exact .inl ⟨_, head, rfl, rfl⟩
      case h_3 source payload head =>
          split at taken
          case isTrue empty =>
              cases taken
              exact .inl ⟨_, head, by rw [empty]; rfl, rfl⟩
          case isFalse nonempty => exact .inr ⟨source, payload, head, nonempty, taken⟩

theorem Balanced.dispatch (before : Balanced given port)
    (taken : machine.step port .dispatch = some port') : Balanced given port' := by
  obtain ⟨slots, ⟨d, head, kept, rfl⟩ | ⟨source, payload, head, nonempty, called⟩⟩ :=
    dispatch_cases taken
  · rw [Balanced, undispatched, slots, countP_pending head, kept, Bool.toNat_false] at before
    rw [Balanced, undispatched]
    simp only [slots]
    exact before
  · obtain ⟨table, own, rfl⟩ := Option.map_eq_some_iff.mp called
    cases own
    rw [Balanced, undispatched, slots, countP_pending head, deliverable_of_call nonempty,
      Bool.toNat_true] at before
    show port.requests = port.table.shared.history.sent.length + given +
      weight inHand (port.table.threads ++ [.getOrCreate ⟨source, some payload⟩ .get]) +
        port.batch.advance.pending.countP Deliverable
    rw [weight_append, weight_cons, weight_nil]
    have one : inHand (.getOrCreate ⟨source, some payload⟩ .get) = 1 := rfl
    omega

/-- A step of the table keeps the balance; the listener's own place may change with it. -/
theorem Balanced.tableStep
    {action : Interleaving.Action UdpSessionTable.Choice UdpSessionTable.Env}
    (before : Balanced given port)
    (taken : UdpSessionTable.machine.step port.table action = some table')
    (idle : ∀ call, action = .env (.getOrCreate call) → call.payload = none)
    (moved : port'.table = table') (arrived : port'.arrived = port.arrived)
    (same : port'.undispatched = port.undispatched) :
    Balanced (given + (givesUp port.table action).toNat) port' := by
  have change := inHand_step taken idle
  rw [Balanced, requests] at before
  rw [Balanced, requests, moved, arrived, same]
  omega

theorem Balanced.step (before : Balanced given port)
    (taken : machine.step port action = some port') :
    Balanced (given + (fails port action).toNat) port' := by
  cases Step.of_step taken with
  | @table action _ admitted own =>
      refine before.tableStep own ?_ rfl rfl rfl
      rintro call rfl
      exact Option.isNone_iff_eq_none.mp admitted
  | skip | call => exact before.dispatch taken
  | @receive ds slots handled fits =>
      rw [Balanced, undispatched, slots, Batch.pending_of_none handled] at before
      rw [Balanced, undispatched]
      simp only [slots, Batch.pending_receive fits, requests, List.countP_append]
      rw [requests, List.countP_nil] at before
      rw [before]
      rfl
  | callReturns calling found returned =>
      rw [Balanced, undispatched, calling] at before
      exact before
  | listenerEnds slots handled own =>
      refine before.tableStep own nofun rfl rfl ?_
      simp only [undispatched, slots]
  | reply _ _ _ _ _ own => exact before.tableStep own nofun rfl rfl rfl
  | @loopEnds action task ref table loop cause own =>
      have quiet : fails port action = false := by
        obtain ⟨rfl, -⟩ | ⟨rfl | ⟨error, rfl⟩, -⟩ := cause <;> rfl
      rw [quiet]
      exact before.tableStep own nofun rfl rfl rfl
  | _ => exact before

/-- What has become of the requests after so many calls that gave theirs up. -/
structure Relayed (given : Nat) (port : UdpPort) : Prop where
  balanced : Balanced given port
  /-- What is sent or still to be sent has arrived, in this order and nothing twice. -/
  ordered : (forwarded port.table.shared ++
    unsent port.table port.batch port.listener).Sublist port.arrived
  /-- Between two batches each of them has either been sent or given up. -/
  handled : port.batch.head = none → (∀ i, port.listener ≠ .calling i) →
    port.requests = port.table.shared.history.sent.length + given
  /-- The counter of bytes counts what was sent, once the tasks have got to it. -/
  counted : (∀ t ∈ port.table.threads, UdpSessionTable.owesUdpIn t = 0) →
    port.table.shared.stats.udpInBytes = port.table.shared.bytesSent % u64Size

theorem relayed {as : List Action}
    (complete : machine.run (start idleTimeout number now) as = some port) :
    Relayed (machine.count fails (start idleTimeout number now) as) port := by
  have reached : machine.Reachable (start idleTimeout number now) port := ⟨as, complete⟩
  have balanced : Balanced (machine.count fails (start idleTimeout number now) as) port := by
    rw [Machine.count_eq_total, ← Nat.zero_add (machine.total ..)]
    exact Machine.invariant_total (P := Balanced)
      (fun _ _ _ _ before taken => before.step taken) rfl complete
  have ingress := ingress_reachable reached
  refine ⟨balanced, ingress.ordered, ?_, ?_⟩
  · intro none waits
    have empty : weight inHand port.table.threads = 0 :=
      weight_eq_zero_iff.mpr fun t member => by
        obtain ⟨i, found⟩ := List.mem_iff_getElem?.mp member
        exact inHand_of_none (ingress.none_of_ne (waits i) found)
    have left : port.undispatched = [] := by
      unfold undispatched
      split
      · exact absurd ‹_› (waits _)
      · exact Batch.pending_of_none none
    rw [Balanced, empty, left] at balanced
    exact balanced
  · intro rest
    obtain ⟨counted, same, total⟩ := UdpSessionTable.udpInBytes_eq (table_reachable reached)
    rw [weight_eq_zero_iff.mpr rest, Nat.add_zero] at total
    rw [same, total]

/-- One datagram of two gets through; the call for the other finds no socket. -/
def oneOfTwo : List Action :=
  served (.v4 0x0a000001 4000) [1, 2] 0 ++
    [.receive (.ok [⟨some (.v4 0x0a000002 4000), [3]⟩, ⟨none, [4]⟩]), .dispatch,
      .table (.thread 2 .go), .table (.thread 2 .fail), .callReturns, .dispatch]

theorem oneOfTwo_accepted :
    (machine.run (start (.fromSecs 60) 9000 100) oneOfTwo).isSome := by
  decide

theorem relayed_oneOfTwo :
    let port := (machine.run (start (.fromSecs 60) 9000 100) oneOfTwo).get oneOfTwo_accepted
    Relayed (machine.count fails (start (.fromSecs 60) 9000 100) oneOfTwo) port ∧
      port.requests = 2 ∧ port.table.shared.stats.udpInBytes = 2 :=
  ⟨relayed (Option.some_get oneOfTwo_accepted).symm, by decide, by decide⟩

end UdpPort

end RangePorter
