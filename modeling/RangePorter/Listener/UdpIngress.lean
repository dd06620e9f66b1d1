import RangePorter.Listener.Udp

/-!
# From the clients to the target

What the sessions have sent to the target, followed by what the listener has still to
forward, is a subsequence of what has arrived (`Ingress.ordered`). The listener forwards
one datagram at a time, so at most one task carries one, and the session it reaches is
filed under the datagram's source.
-/

namespace RangePorter.UdpPort

open Interleaving
open UdpSessionTable (Task)
open scoped List

/-- What was sent to the target, each payload with the source of its session. -/
def forwarded (tab : UdpSessionTable) : List Datagram :=
  tab.history.sent.map fun x => ⟨(tab.identity x.1).map Prod.fst, x.2⟩

/-- Whether a task has a datagram to send. -/
def carries (table : Pool UdpSessionTable Task) (i : Nat) : Bool :=
  table.threads[i]?.any fun t => t.forwarding.isSome

/-- What the listener has received and no session has sent yet. -/
def unsent (table : Pool UdpSessionTable Task) (batch : Batch) : ListenerLoop → List Datagram
  | .calling i => if carries table i then batch.pending else batch.advance.pending
  | _ => batch.pending

/-- The listener, its batch and the task that works for it. -/
structure Ingress (table : Pool UdpSessionTable Task) (listener : ListenerLoop) (batch : Batch)
    (arrived : List Datagram) : Prop where
  only : ∀ (i : Nat) t, table.threads[i]? = some t → t.forwarding = none ∨ listener = .calling i
  current : ∀ i, listener = .calling i → ∃ source payload,
    batch.head = some ⟨some source, payload⟩ ∧ payload ≠ [] ∧
      ∀ t, table.threads[i]? = some t →
        t.forwarding = none ∨ t.forwarding = some payload ∧ table.shared.Serves source t
  ordered : forwarded table.shared ++ unsent table batch listener <+ arrived
  nonempty : ∀ x ∈ table.shared.history.sent, x.2 ≠ []

/-- A task has a datagram to send only if it had it before, for the same source. -/
def Inherits (table table' : Pool UdpSessionTable Task) : Prop :=
  ∀ (i : Nat) u, table'.threads[i]? = some u → u.forwarding = none ∨
    ∃ t, table.threads[i]? = some t ∧ u.forwarding = t.forwarding ∧
      ∀ source, table.shared.Serves source t → table'.shared.Serves source u

variable {table table' : Pool UdpSessionTable Task} {tab' : UdpSessionTable}
  {listener : ListenerLoop} {batch : Batch} {arrived : List Datagram} {t t' : Task}
  {new : List Task} {i : Nat} {k : UdpSessionTable.Choice}

theorem unsent_slots : unsent table batch .slots = batch.pending := rfl

theorem carries_of_found (found : table.threads[i]? = some t) :
    carries table i = t.forwarding.isSome := by
  rw [carries, found, Option.any_some]

theorem Inherits.carries (inherits : Inherits table table')
    (carried : UdpPort.carries table' i = true) : UdpPort.carries table i = true := by
  obtain ⟨u, found, some⟩ := (Option.any_eq_true ..).mp carried
  obtain none | ⟨t, before, same, -⟩ := inherits i u found
  · rw [none] at some
    cases some
  · rw [carries_of_found before, ← same]
    exact some

/-- What was sent keeps its sources as long as the sessions do. -/
theorem forwarded_eq {tab : UdpSessionTable}
    (sent : ∀ x ∈ tab.history.sent, ∃ e, tab.identity x.1 = some e)
    (keeps : ∀ ref e, tab.identity ref = some e → tab'.identity ref = some e) :
    tab.history.sent.map (fun x => (⟨(tab'.identity x.1).map Prod.fst, x.2⟩ : Datagram)) =
      forwarded tab := by
  apply List.map_congr_left
  intro x member
  obtain ⟨e, known⟩ := sent x member
  rw [known, keeps _ _ known]

/-- While nothing is sent, datagrams only get lost. -/
theorem Ingress.frame (ingress : Ingress table listener batch arrived)
    (sent : ∀ x ∈ table.shared.history.sent, ∃ e, table.shared.identity x.1 = some e)
    (keeps : ∀ ref e, table.shared.identity ref = some e → table'.shared.identity ref = some e)
    (same : table'.shared.history.sent = table.shared.history.sent)
    (inherits : Inherits table table') : Ingress table' listener batch arrived where
  only := by
    intro j u found
    obtain none | ⟨t, before, same, -⟩ := inherits j u found
    · exact .inl none
    · rw [same]
      exact ingress.only j t before
  current := by
    intro j calling
    obtain ⟨source, payload, head, nonempty, work⟩ := ingress.current j calling
    refine ⟨source, payload, head, nonempty, ?_⟩
    intro u found
    obtain none | ⟨t, before, same, serves⟩ := inherits j u found
    · exact .inl none
    · rw [same]
      exact (work t before).imp_right fun carried => ⟨carried.1, serves source carried.2⟩
  ordered := by
    have fewer : unsent table' batch listener <+ unsent table batch listener := by
      cases listener with
      | slots => exact .refl _
      | ended => exact .refl _
      | calling j =>
          obtain ⟨source, payload, head, -, -⟩ := ingress.current j rfl
          have skipped : batch.advance.pending <+ batch.pending := by
            rw [Batch.pending_of_head head]
            exact List.sublist_cons_self ..
          simp only [unsent]
          split
          case isTrue carried => rw [if_pos (inherits.carries carried)]
          case isFalse =>
              split
              · exact skipped
              · exact .refl _
    rw [forwarded, same, forwarded_eq sent keeps]
    exact (fewer.append_left _).trans ingress.ordered
  nonempty := by
    rw [same]
    exact ingress.nonempty

/-! ### Steps of the table -/

/-- The listener's task sends the datagram at the head of the batch. -/
theorem Ingress.sends (ingress : Ingress table listener batch arrived)
    (sent : ∀ x ∈ table.shared.history.sent, ∃ e, table.shared.identity x.1 = some e)
    (keeps : ∀ ref e, table.shared.identity ref = some e → tab'.identity ref = some e)
    (found : table.threads[i]? = some t) (step : UdpSessionTable.Sends table.shared t tab' t')
    (spawned : ∀ u ∈ new, u.forwarding = none) :
    Ingress ⟨tab', table.threads.set i t' ++ new⟩ listener batch arrived := by
  obtain ⟨ref, payload, rfl, done, sends⟩ := step
  have bound : i < table.threads.length := (List.getElem?_eq_some_iff.mp found).1
  obtain none | rfl := ingress.only i _ found
  · cases none
  obtain ⟨source, payload', head, nonempty, work⟩ := ingress.current i rfl
  obtain none | ⟨same, id, known⟩ := work _ found
  · cases none
  cases same
  have carried : carries table i = true := carries_of_found found
  have given : carries ⟨tab', table.threads.set i t' ++ new⟩ i = false := by
    rw [carries_of_found (lookup_self bound), done, Option.isSome_none]
  constructor
  · intro j u after
    obtain ⟨rfl, rfl⟩ | ⟨-, before⟩ | ⟨-, fresh⟩ := lookup_thread bound after
    · exact .inl done
    · exact ingress.only j u before
    · exact .inl (spawned u fresh)
  · rintro j ⟨⟩
    refine ⟨source, payload, head, nonempty, ?_⟩
    intro u after
    rw [lookup_self bound] at after
    cases after
    exact .inl done
  · have before := ingress.ordered
    simp only [unsent, carried, given, if_true, Bool.false_eq_true, if_false] at before ⊢
    rw [forwarded, sends, List.map_append, forwarded_eq sent keeps, List.map_singleton,
      keeps _ _ known, List.append_assoc]
    rwa [Batch.pending_of_head head] at before
  · intro x member
    rw [sends] at member
    obtain old | last := List.mem_append.mp member
    · exact ingress.nonempty x old
    · rw [List.mem_singleton.mp last]
      exact nonempty

theorem Ingress.thread (ingress : Ingress table listener batch arrived)
    (sent : ∀ x ∈ table.shared.history.sent, ∃ e, table.shared.identity x.1 = some e)
    (knows : table.shared.Knows t) (found : table.threads[i]? = some t)
    (taken : UdpSessionTable.Step table.shared t k tab' t' new) :
    Ingress ⟨tab', table.threads.set i t' ++ new⟩ listener batch arrived := by
  have bound : i < table.threads.length := (List.getElem?_eq_some_iff.mp found).1
  have keeps : ∀ ref e, table.shared.identity ref = some e → tab'.identity ref = some e :=
    fun _ _ known => taken.identity known
  have spawned : ∀ u ∈ new, u.forwarding = none := fun _ member => taken.new_forwarding member
  obtain step | ⟨same, carried⟩ := taken.forwarding knows
  · exact ingress.sends sent keeps found step spawned
  · apply ingress.frame sent keeps same
    intro j u after
    obtain ⟨rfl, rfl⟩ | ⟨-, before⟩ | ⟨-, fresh⟩ := lookup_thread bound after
    · exact carried.imp_right fun kept => ⟨t, found, kept⟩
    · exact .inr ⟨u, before, rfl, fun _ serves => serves.mono keeps⟩
    · exact .inl (spawned u fresh)

theorem Ingress.env {e : UdpSessionTable.Env} (ingress : Ingress table listener batch arrived)
    (sent : ∀ x ∈ table.shared.history.sent, ∃ e, table.shared.identity x.1 = some e)
    (taken : table.shared.env e = some (tab', new)) (idle : ∀ u ∈ new, u.forwarding = none) :
    Ingress ⟨tab', table.threads ++ new⟩ listener batch arrived := by
  have keeps : ∀ ref id, table.shared.identity ref = some id → tab'.identity ref = some id := by
    intro ref id known
    rw [UdpSessionTable.env_identity taken, known]
  have same : tab'.history.sent = table.shared.history.sent := by
    cases e <;> cases taken <;> rfl
  apply ingress.frame sent keeps same
  intro j u after
  obtain before | ⟨-, fresh⟩ := lookup_env after
  · exact .inr ⟨u, before, rfl, fun _ serves => serves.mono keeps⟩
  · exact .inl (idle u fresh)

variable {idleTimeout : Duration} {number now : Nat} {port : UdpPort}

theorem Ingress.tableStep {action : Interleaving.Action UdpSessionTable.Choice UdpSessionTable.Env}
    (ingress : Ingress table listener batch arrived)
    (reached : UdpSessionTable.machine.Reachable (UdpSessionTable.start idleTimeout number now)
      table)
    (taken : UdpSessionTable.machine.step table action = some table')
    (idle : ∀ call, action = .env (.getOrCreate call) → call.payload = none) :
    Ingress table' listener batch arrived := by
  have sent := UdpSessionTable.sent_identified reached
  cases action with
  | thread i k =>
      obtain ⟨t, tab', t', new, found, own, rfl⟩ := Program.machine_thread_iff.mp taken
      have knows := (UdpSessionTable.identified reached).knows.get found
      exact ingress.thread sent knows found (UdpSessionTable.step_iff.mp own)
  | env e =>
      obtain ⟨tab', new, own, rfl⟩ := Program.machine_env_iff.mp taken
      apply ingress.env sent own
      intro u member
      exact UdpSessionTable.env_forwarding own (fun call same => idle call (by rw [same])) member

/-! ### Steps of the listener -/

/-- Between two slots no task has a datagram to send. -/
theorem Ingress.none_of_ne (ingress : Ingress table listener batch arrived)
    (other : listener ≠ .calling i) (found : table.threads[i]? = some t) : t.forwarding = none :=
  (ingress.only i t found).resolve_right other

theorem Ingress.ended (ingress : Ingress table .slots batch arrived) :
    Ingress table .ended batch arrived where
  only _ _ found := .inl (ingress.none_of_ne (by simp) found)
  current := by
    intro i calling
    cases calling
  ordered := ingress.ordered
  nonempty := ingress.nonempty

theorem Ingress.skip {d : Datagram} (ingress : Ingress table .slots batch arrived)
    (head : batch.head = some d) : Ingress table .slots batch.advance arrived where
  only := ingress.only
  current := by
    intro i calling
    cases calling
  ordered := by
    have before := ingress.ordered
    rw [unsent_slots, Batch.pending_of_head head] at before
    exact ((List.sublist_cons_self ..).append_left _).trans before
  nonempty := ingress.nonempty

theorem Ingress.receive {ds : List Datagram} (ingress : Ingress table .slots batch arrived)
    (handled : batch.head = none) (fits : batch.Fits ds) :
    Ingress table .slots (batch.receive ds) (arrived ++ ds) where
  only := ingress.only
  current := by
    intro i calling
    cases calling
  ordered := by
    have before := ingress.ordered
    rw [unsent_slots, Batch.pending_of_none handled, List.append_nil] at before
    rw [unsent_slots, Batch.pending_receive fits]
    exact before.append_right ds
  nonempty := ingress.nonempty

theorem Ingress.call {source : SocketAddr} {payload : Payload}
    (ingress : Ingress table .slots batch arrived)
    (head : batch.head = some ⟨some source, payload⟩) (nonempty : payload ≠ []) :
    Ingress ⟨table.shared, table.threads ++ [.getOrCreate ⟨source, some payload⟩ .get]⟩
      (.calling table.threads.length) batch arrived := by
  have called : (table.threads ++ [Task.getOrCreate ⟨source, some payload⟩ .get])[
      table.threads.length]? = some (.getOrCreate ⟨source, some payload⟩ .get) := by simp
  constructor
  · intro j u after
    obtain before | ⟨past, -⟩ := lookup_env after
    · exact .inl (ingress.none_of_ne (by simp) before)
    · have bound : j < table.threads.length + 1 := by
        simpa using (List.getElem?_eq_some_iff.mp after).1
      exact .inr (congrArg ListenerLoop.calling (by omega))
  · rintro j ⟨⟩
    refine ⟨source, payload, head, nonempty, ?_⟩
    intro u after
    rw [called] at after
    cases after
    exact .inr ⟨rfl, rfl⟩
  · have carried : carries ⟨table.shared, table.threads ++
        [Task.getOrCreate ⟨source, some payload⟩ .get]⟩ table.threads.length = true := by
      rw [carries_of_found called]
      rfl
    rw [unsent, if_pos carried]
    exact ingress.ordered
  · exact ingress.nonempty

theorem Ingress.callReturns (ingress : Ingress table (.calling i) batch arrived)
    (found : table.threads[i]? = some t) (returned : t.forwarding = none) :
    Ingress table .slots batch.advance arrived where
  only := by
    intro j u present
    obtain none | same := ingress.only j u present
    · exact .inl none
    · cases same
      rw [found] at present
      cases present
      exact .inl returned
  current := by
    intro i calling
    cases calling
  ordered := by
    have before := ingress.ordered
    rw [unsent, carries_of_found found, returned] at before
    exact before
  nonempty := ingress.nonempty

/-- The rest of the port has no part in it. -/
theorem Ingress.step {action : UdpPort.Action} {port' : UdpPort}
    (ingress : Ingress port.table port.listener port.batch port.arrived)
    (reached : UdpSessionTable.machine.Reachable (UdpSessionTable.start idleTimeout number now)
      port.table)
    (taken : Step port action port') :
    Ingress port'.table port'.listener port'.batch port'.arrived := by
  cases taken with
  | @table action table admitted own =>
      apply ingress.tableStep reached own
      rintro call rfl
      exact Option.isNone_iff_eq_none.mp admitted
  | receive slots handled fits =>
      rw [slots] at ingress ⊢
      exact ingress.receive handled fits
  | skip slots head =>
      rw [slots] at ingress ⊢
      exact ingress.skip head
  | call slots head nonempty own =>
      rw [slots] at ingress
      cases own
      exact ingress.call head nonempty
  | callReturns calling found returned =>
      rw [calling] at ingress
      exact ingress.callReturns found returned
  | listenerEnds slots handled own =>
      rw [slots] at ingress
      exact (ingress.tableStep reached own nofun).ended
  | reply _ _ _ _ _ own => exact ingress.tableStep reached own nofun
  | loopEnds _ _ own => exact ingress.tableStep reached own nofun
  | _ => exact ingress

theorem ingress_reachable (reached : machine.Reachable (start idleTimeout number now) port) :
    Ingress port.table port.listener port.batch port.arrived := by
  refine reached.invariant
    (P := fun port => Ingress port.table port.listener port.batch port.arrived) ?_ ?_
  · refine ⟨?_, ?_, List.Sublist.refl _, ?_⟩
    · intro i t found
      cases found
    · intro i calling
      cases calling
    · intro x member
      cases member
  · intro port action port' before ingress taken
    exact ingress.step (table_reachable before) (.of_step taken)

end RangePorter.UdpPort
