import RangePorter.Listener.UdpEgress
import RangePorter.Listener.UdpIngress

/-!
# Clients keep to themselves

All clients of a port share its listener, its queue of replies and its sender. Each of
them still sees its own datagrams only, in order and at most once (`Isolates`): what the
target gets on the socket of a session has come from the session's source, and what
leaves the port because of a session goes back to that source.
-/

namespace RangePorter.UdpPort

open Interleaving
open scoped List

/-- The non-empty datagrams among those that have come from a source. -/
def arrivedFrom (source : SocketAddr) (arrived : List Datagram) : List Payload :=
  (arrived.filter fun d => d.source = some source ∧ d.payload ≠ []).map Datagram.payload

/-- The session is connected to the target by this socket. -/
def uses (tab : UdpSessionTable) (upstream : Nat) (ref : SessionRef) : Bool :=
  tab.heap[ref]?.any fun s => s.upstream == upstream

/-- What was sent to the target on an upstream socket. -/
def sentOn (port : UdpPort) (upstream : Nat) : List Payload :=
  (port.table.shared.history.sent.filter fun x => uses port.table.shared upstream x.1).map Prod.snd

/-- The non-empty datagrams received on an upstream socket. -/
def receivedOn (port : UdpPort) (upstream : Nat) : List Payload :=
  ((port.replies.filter fun x => uses port.table.shared upstream x.1).map Prod.snd).filter (· ≠ [])

/-- Relaying, for all clients of the port at once. -/
structure Isolates (port : UdpPort) : Prop where
  /-- No datagram is sent twice, or on a session of another source. -/
  forwarded : forwarded port.table.shared <+ port.arrived
  ingress : ∀ (ref : SessionRef) s, port.table.shared.heap[ref]? = some s →
    sentOn port s.upstream <+ arrivedFrom s.source port.arrived
  egress : ∀ (ref : SessionRef) s, port.table.shared.heap[ref]? = some s →
    payloadsOf ref port.left <+ receivedOn port s.upstream
  /-- Every packet leaves because of a session, and goes to its source. -/
  destination : ∀ q ∈ port.left, ∃ s, port.table.shared.heap[q.session]? = some s ∧
    q.packet.dst = s.source
  queue : port.queue.length ≤ replyQueueCapacity

variable {idleTimeout : Duration} {number now : Nat} {port : UdpPort} {ref : SessionRef}
  {s : UdpSession}

/-- A socket belongs to one session only. -/
theorem uses_eq (reached : machine.Reachable (start idleTimeout number now) port)
    (session : port.table.shared.heap[ref]? = some s) (other : SessionRef) :
    uses port.table.shared s.upstream other = (other == ref) := by
  rw [Bool.eq_iff_iff, uses, Option.any_eq_true, beq_iff_eq]
  constructor
  · rintro ⟨s', session', same⟩
    exact UdpSessionTable.upstream_unique (table_reachable reached) session' session
      (beq_iff_eq.mp same)
  · rintro rfl
    exact ⟨s, session, beq_self_eq_true _⟩

theorem filter_sublist_filter {α : Type*} {p q : α → Bool} {l : List α}
    (weaker : ∀ x ∈ l, p x = true → q x = true) : l.filter p <+ l.filter q := by
  have both : l.filter p = (l.filter q).filter p := by
    rw [List.filter_filter]
    apply List.filter_congr
    intro x member
    exact Bool.eq_self_and.mpr (weaker x member)
  rw [both]
  exact List.filter_sublist

theorem sentOn_sublist (reached : machine.Reachable (start idleTimeout number now) port)
    (session : port.table.shared.heap[ref]? = some s) :
    sentOn port s.upstream <+ arrivedFrom s.source port.arrived := by
  have ingress := ingress_reachable reached
  have come : forwarded port.table.shared <+ port.arrived :=
    (List.sublist_append_left ..).trans ingress.ordered
  refine List.Sublist.trans ?_ ((come.filter _).map _)
  rw [forwarded, List.filter_map, List.map_map]
  refine (filter_sublist_filter ?_).map Prod.snd
  intro x member own
  rw [uses_eq reached session, beq_iff_eq] at own
  rw [Function.comp_apply, own, UdpSessionTable.identity_of_session session]
  exact decide_eq_true ⟨rfl, ingress.nonempty x member⟩

theorem left_sublist (reached : machine.Reachable (start idleTimeout number now) port)
    (session : port.table.shared.heap[ref]? = some s) :
    payloadsOf ref port.left <+ receivedOn port s.upstream := by
  have egress := egress_reachable reached
  have gone : port.left <+ leaving port :=
    (List.sublist_append_left ..).trans (List.sublist_append_left ..)
  have nonempty : (payloadsOf ref port.left).filter (· ≠ []) = payloadsOf ref port.left := by
    apply List.filter_eq_self.mpr
    intro payload member
    obtain ⟨q, found, rfl⟩ := List.mem_map.mp member
    exact decide_eq_true (egress.known q (gone.subset (List.mem_of_mem_filter found))).1
  simp only [receivedOn, uses_eq reached session]
  rw [← nonempty]
  exact ((payloadsOf_sublist ref gone).trans (egress.ordered ref)).filter _

theorem queue_bounded (reached : machine.Reachable (start idleTimeout number now) port) :
    port.queue.length ≤ replyQueueCapacity := by
  refine reached.invariant (P := fun port => port.queue.length ≤ replyQueueCapacity)
    (Nat.zero_le _) ?_
  intro port action port' _ bounded taken
  cases Step.of_step taken with
  | reply _ _ _ _ room =>
      rw [List.length_append]
      exact room
  | recvMany =>
      rw [List.length_drop]
      exact (Nat.sub_le ..).trans bounded
  | senderEnds => exact Nat.zero_le _
  | _ => exact bounded

/-- Every run of a port isolates its clients. -/
theorem isolates (reached : machine.Reachable (start idleTimeout number now) port) :
    Isolates port where
  forwarded := (List.sublist_append_left ..).trans (ingress_reachable reached).ordered
  ingress _ _ := sentOn_sublist reached
  egress _ _ := left_sublist reached
  destination := by
    intro q member
    obtain ⟨-, -, id, known⟩ := (egress_reachable reached).known q
      (List.mem_append_left _ (List.mem_append_left _ member))
    obtain ⟨s, session, source, -⟩ := UdpSessionTable.session_of_identity known
    exact ⟨s, session, source.symm⟩
  queue := queue_bounded reached

/-- The call of one datagram: it opens a session, spawns the loop in the next task, and
sends. -/
def served (source : SocketAddr) (payload : Payload) (task : Nat) : List Action :=
  [.receive (.ok [⟨some source, payload⟩]), .dispatch] ++
    List.replicate 11 (.table (.thread task .go)) ++ [.callReturns]

/-- Two clients, and a reply to each; both replies leave in one batch, in two sends. -/
def twoClients : List Action :=
  served (.v4 0x0a000001 4000) [1, 2] 0 ++ served (.v4 0x0a000002 4000) [3] 2 ++
    [.receiveReplies 3 (.ok [[4]]), .receiveReplies 1 (.ok [[5, 6]]), .reply 3, .reply 1,
      .recvMany 2, .flush (.ok 1), .flush (.error .interrupted), .flush (.ok 1)]

theorem twoClients_accepted :
    (machine.run (start (.fromSecs 60) 9000 100) twoClients).isSome := by
  decide

theorem isolates_twoClients :
    let port := (machine.run (start (.fromSecs 60) 9000 100) twoClients).get twoClients_accepted
    Isolates port ∧ port.left.map Queued.packet =
      [⟨.v4 0x0a000002 4000, [4], 1⟩, ⟨.v4 0x0a000001 4000, [5, 6], 2⟩] :=
  ⟨isolates (Machine.reachable_get twoClients_accepted), by decide⟩

end RangePorter.UdpPort
