import RangePorter.App.Following

/-!
# The books of the application

What the connections and the sockets have done is recorded, or some task has still to record
it: `done` and `owed` say how much of it there is for each port and counter.
-/

namespace RangePorter

open Interleaving

theorem amounts_append (c : Counter) (ops ops' : List CounterOp) :
    amounts c (ops ++ ops') = amounts c ops + amounts c ops' := by
  simp [amounts]

/-! ### Connections -/

namespace RunningApp

def owes (i : Nat) (c : Counter) (t : Task) : Nat :=
  if t.port = i then amounts c t.updates else 0

/-- The task's connection is accepted, or at its end. -/
def counted (c : Counter) : Task → Bool
  | .listener _ (.record _) | .connection _ .connect | .connection _ (.copy ..) =>
      decide (c = .tcpAccepted)
  | .connection .. => decide (c = .tcpAccepted ∨ c = .tcpClosed)
  | _ => false

def counts (i : Nat) (c : Counter) (t : Task) : Nat :=
  if t.port = i ∧ counted c t = true then 1 else 0

def bytesFor (c : Counter) (copied : Bytes) : Nat :=
  match c with
  | .tcpInBytes => copied.1
  | .tcpOutBytes => copied.2
  | _ => 0

/-- The bytes of the connections that have ended well. -/
def copiedBytes (i : Nat) (c : Counter) (copied : List (Nat × Bytes)) : Nat :=
  ((copied.filter fun x => x.1 = i).map fun x => bytesFor c x.2).sum

variable {app app' : RunningApp} {t t' : Task} {k : Choice} {new : List Task} {i : Nat}
  {c : Counter}

theorem take_inMethod (ops : List CounterOp) : (inMethod ops).take 1 = ops.take 1 := by
  unfold inMethod
  split <;> rfl

theorem amounts_recordTcpAccept (cumulative : c.gauge = false) :
    amounts c PortStats.recordTcpAccept = if c = .tcpAccepted then 1 else 0 := by
  cases c with
  | tcpActive => cases cumulative
  | _ => rfl

theorem amounts_recordTcpClose (c : Counter) :
    amounts c PortStats.recordTcpClose = if c = .tcpClosed then 1 else 0 := by
  cases c <;> rfl

theorem accepted_or_closed (c : Counter) : (if c = .tcpAccepted ∨ c = .tcpClosed then 1 else 0) =
    (if c = .tcpAccepted then 1 else 0) + if c = .tcpClosed then 1 else 0 := by
  cases c <;> rfl

theorem amounts_addTcpBytes (c : Counter) (inBytes outBytes : Nat) :
    amounts c (PortStats.addTcpBytes inBytes outBytes) = bytesFor c (inBytes, outBytes) := by
  cases c <;> simp [PortStats.addTcpBytes, bytesFor, CounterOp.amount]

theorem copiedBytes_singleton (port : Nat) (bytes : Bytes) :
    copiedBytes i c [(port, bytes)] = if port = i then bytesFor c bytes else 0 := by
  by_cases own : port = i <;> simp [copiedBytes, own]

theorem copiedBytes_append (copied copied' : List (Nat × Bytes)) :
    copiedBytes i c (copied ++ copied') = copiedBytes i c copied + copiedBytes i c copied' := by
  simp [copiedBytes]

/-- A connection that is interrupted has copied nothing that counts. -/
theorem copied_of_branch (t : Task)
    (branch : k = .fail ∨ k = .shutdown ∧ app.shutdown = true) : t.copied k = [] := by
  unfold Task.copied
  split
  · obtain ⟨⟨⟩⟩ | ⟨⟨⟩, -⟩ := branch
  · rfl

theorem copiedBytes_of_ne (other : t.port ≠ i) : copiedBytes i c (t.copied k) = 0 := by
  unfold Task.copied
  split
  · rw [copiedBytes_singleton]
    exact if_neg other
  · rfl

theorem Step.new_port (taken : Step app t k app' t' new) : ∀ u ∈ new, u.port = t.port := by
  cases taken with
  | spawn =>
      intro u member
      rw [List.mem_singleton.mp member]
      rfl
  | _ => exact fun _ member => absurd member List.not_mem_nil

/-- A task makes the next of its updates, or begins to owe what it has just done. -/
theorem Step.books (taken : Step app t k app' t' new) (i : Nat) (cumulative : c.gauge = false) :
    (if t.port = i then amounts c (t.updates.take 1) else 0) + owes i c t' +
        weight (owes i c) new + counts i c t =
      owes i c t + counts i c t' + weight (counts i c) new + copiedBytes i c (t.copied k) := by
  by_cases own : t.port = i
  · subst own
    cases taken with
    | accept =>
        simp [owes, Task.updates, counts, counted, Task.copied, copiedBytes,
          amounts_recordTcpAccept cumulative]
    | copied =>
        simp [owes, Task.updates, counts, counted, Task.copied, copiedBytes_singleton,
          amounts_append, amounts_addTcpBytes, amounts_recordTcpClose, accepted_or_closed]
        omega
    | connectInterrupted branch | copyInterrupted branch =>
        rw [copied_of_branch _ branch]
        simp [owes, Task.updates, counts, counted, copiedBytes, amounts_recordTcpClose,
          accepted_or_closed]
        omega
    | _ => simp [owes, Task.updates, counts, counted, Task.copied, copiedBytes]
  · have owed : weight (owes i c) new = 0 := weight_eq_zero_iff.mpr fun u member =>
      if_neg (taken.new_port u member ▸ own)
    have done : weight (counts i c) new = 0 := weight_eq_zero_iff.mpr fun u member =>
      if_neg fun both => own (taken.new_port u member ▸ both.1)
    rw [owed, done, copiedBytes_of_ne own]
    simp [owes, counts, taken.lengths.2.2, own]

end RunningApp

/-! ### Sessions and sockets -/

namespace UdpSessionTable

variable {t : Task} {k : Choice} {c : Counter} {table table' : Pool UdpSessionTable Task}
  {action : Interleaving.Action Choice Env}

theorem single_of_recording {recording : Recording} (called : t.recording k = some recording) :
    recording.single = true := by
  unfold Task.recording at called
  split at called <;> cases called <;> rfl

theorem amounts_recording (cumulative : c.gauge = false) (t : Task) (k : Choice) :
    amounts c (opsOf (t.recording k)) = if c = .udpInBytes then countsUdpIn t k else 0 := by
  unfold Task.recording
  split
  case h_1 =>
      cases c with
      | udpActiveFlows => cases cumulative
      | _ => rfl
  case h_2 payload => cases c <;> simp [opsOf, Recording.ops, PortStats.addUdpIn, countsUdpIn,
    CounterOp.amount]
  case h_3 => cases c <;> rfl
  case h_4 _ _ _ idle _ =>
      have none : countsUdpIn t k = 0 := by
        unfold countsUdpIn
        split
        · exact absurd rfl (idle _ rfl)
        · rfl
      rw [none, ite_self]
      rfl

theorem udpIn_step (taken : machine.step table action = some table') :
    amounts .udpInBytes (opsOf (recording table action)) + weight owesUdpIn table'.threads +
        table.shared.bytesSent =
      weight owesUdpIn table.threads + table'.shared.bytesSent := by
  refine Program.machine_cases (P := program) (motive := fun action table' =>
    amounts .udpInBytes (opsOf (recording table action)) + weight owesUdpIn table'.threads +
        table.shared.bytesSent =
      weight owesUdpIn table.threads + table'.shared.bytesSent) ?_ ?_ taken
  · intro i k t tab t' new found own
    have change := (step_iff.mp own).owes
    have exchange := weight_set owesUdpIn t' found
    have counted : amounts .udpInBytes (opsOf (recording table (.thread i k))) =
        countsUdpIn t k := by
      simp only [recording, found, Option.bind_some]
      exact (amounts_recording rfl t k).trans (if_pos rfl)
    show _ + weight owesUdpIn (table.threads.set i t' ++ new) + _ = _ + tab.bytesSent
    rw [counted, weight_append]
    omega
  · intro e tab new own
    have same : tab.bytesSent = table.shared.bytesSent := by cases e <;> cases own <;> rfl
    have idle : weight owesUdpIn new = 0 := by cases e <;> cases own <;> rfl
    rw [weight_append, same, idle]
    simp [recording, opsOf]

end UdpSessionTable

namespace UdpPort

variable {port port' : UdpPort} {action : Action} {c : Counter}

theorem single_of_recording {recording : Recording}
    (called : port.recording action = some recording) : recording.single = true := by
  cases action with
  | table action =>
      cases action with
      | thread i k =>
          obtain ⟨t, -, called⟩ := Option.bind_eq_some_iff.mp called
          exact UdpSessionTable.single_of_recording called
      | env e => cases called
  | reply task =>
      change (if port.drops (.reply task) then some Recording.udpDrop else none) = _ at called
      split at called <;> cases called
      rfl
  | _ => cases called

/-- But for incoming bytes, only drops are counted. -/
theorem amounts_recording (cumulative : c.gauge = false) (other : c ≠ .udpInBytes)
    (port : UdpPort) (action : Action) :
    amounts c (opsOf (port.recording action)) =
      if c = .udpDropped then (port.drops action).toNat else 0 := by
  have silent (none : opsOf (port.recording action) = []) (kept : port.drops action = false) :
      amounts c (opsOf (port.recording action)) =
        if c = .udpDropped then (port.drops action).toNat else 0 := by
    rw [none, kept, Bool.toNat_false, ite_self]
    rfl
  cases action with
  | table action =>
      have kept : port.drops (.table action) = false := rfl
      rw [kept, Bool.toNat_false, ite_self]
      cases action with
      | env e => rfl
      | thread i k =>
          show amounts c (opsOf (port.table.threads[i]?.bind fun t => t.recording k)) = 0
          cases port.table.threads[i]? with
          | none => rfl
          | some t =>
              exact (UdpSessionTable.amounts_recording cumulative t k).trans (if_neg other)
  | reply task =>
      show amounts c (opsOf (if port.drops (.reply task) then some .udpDrop else none)) = _
      cases port.drops (.reply task) with
      | false => simp [opsOf]
      | true => cases c <;> rfl
  | _ => exact silent rfl rfl

/-- Only a flush sends anything. -/
theorem Step.left_eq (taken : Step port action port') :
    (port'.left.map fun q => q.packet.bytes) =
      (port.left.map fun q => q.packet.bytes) ++ port.sends action := by
  cases taken with
  | flush flushing le => simp [UdpPort.flushed, sends, flushing]
  | @loopEnds action task ref table loop cause own =>
      obtain ⟨rfl, -⟩ | ⟨rfl | ⟨error, rfl⟩, -⟩ := cause <;> simp [sends]
  | _ => simp [sends]

theorem recording_reply (task : Nat) :
    port.recording (.reply task) = none ∨ port.recording (.reply task) = some .udpDrop := by
  cases dropped : port.drops (.reply task) with
  | false => exact .inl (by rw [recording, dropped]; rfl)
  | true => exact .inr (by rw [recording, dropped]; rfl)

/-- A loop that finds the channel closed drops nothing. -/
theorem drops_of_exited (exited : port.sender = .exited) (task : Nat) :
    port.drops (.reply task) = false := by
  simp only [drops, exited]
  split
  · simp
  · rfl

/-- What a step records is what its table records, but for the drops. -/
theorem Step.recording_eq (taken : Step port action port') :
    (∃ b, UdpSessionTable.machine.step port.table b = some port'.table ∧
        port.recording action = UdpSessionTable.recording port.table b) ∨
      port'.table = port.table ∧
        (port.recording action = none ∨ port.recording action = some .udpDrop) := by
  have quiet {task : Nat} {ref : SessionRef}
      (loop : port.table.threads[task]? = some (.replyLoop ref)) (k : UdpSessionTable.Choice) :
      UdpSessionTable.recording port.table (.thread task k) = none := by
    simp [UdpSessionTable.recording, loop, UdpSessionTable.Task.recording]
  cases taken with
  | table admitted own => exact .inl ⟨_, own, rfl⟩
  | call slots head nonempty own | listenerEnds slots handled own => exact .inl ⟨_, own, rfl⟩
  | @reply task ref d session table loop head nonempty found room own =>
      have kept : port.drops (.reply task) = false := by
        rw [drops_reply loop head]
        exact decide_eq_false fun all => Nat.not_le.mpr room all.2.2
      refine .inl ⟨_, own, ?_⟩
      rw [quiet loop, recording, kept]
      rfl
  | @loopEnds action task ref table loop cause own =>
      refine .inl ⟨_, own, ?_⟩
      rw [quiet loop]
      obtain ⟨rfl, exited⟩ | ⟨rfl | ⟨error, rfl⟩, -⟩ := cause
      · rw [recording, drops_of_exited exited]
        rfl
      · rfl
      · rfl
  | skipReply | dropReply => exact .inr ⟨rfl, recording_reply _⟩
  | _ => exact .inr ⟨rfl, .inl rfl⟩

theorem Step.udpIn (taken : Step port action port') :
    amounts .udpInBytes (opsOf (port.recording action)) +
        weight UdpSessionTable.owesUdpIn port'.table.threads + port.table.shared.bytesSent =
      weight UdpSessionTable.owesUdpIn port.table.threads + port'.table.shared.bytesSent := by
  obtain ⟨b, own, same⟩ | ⟨same, none | drop⟩ := taken.recording_eq
  · rw [same]
    exact UdpSessionTable.udpIn_step own
  · rw [same, none]
    exact congrArg (· + port.table.shared.bytesSent) (Nat.zero_add _)
  · rw [same, drop]
    exact congrArg (· + port.table.shared.bytesSent) (Nat.zero_add _)

end UdpPort

/-! ### All ports -/

namespace App

/-- What the UDP side has done and not yet counted. -/
def Udp.owed (u : Udp) : Counter → Nat
  | .udpInBytes => weight UdpSessionTable.owesUdpIn u.port.table.threads
  | .udpOutBytes => u.uncounted.sum
  | _ => 0

/-- Bytes sent to the target, bytes sent to the clients, and replies that found their queue
full. -/
def Udp.done (u : Udp) : Counter → Nat
  | .udpInBytes => u.port.table.shared.bytesSent
  | .udpOutBytes => (u.port.left.map fun q => q.packet.bytes).sum
  | .udpDropped => u.dropped
  | _ => 0

/-- What the tasks of the port at this position have still to record. -/
def owed (app : App) (i : Nat) (c : Counter) : Nat :=
  weight (RunningApp.owes i c) app.tcp.threads + (app.udp[i]?.map fun u => u.owed c).getD 0

/-- Connections accepted and ended, bytes copied for connections that have ended well, and
what the UDP side has done. -/
def done (app : App) (i : Nat) (c : Counter) : Nat :=
  weight (RunningApp.counts i c) app.tcp.threads + RunningApp.copiedBytes i c app.copied +
    (app.udp[i]?.map fun u => u.done c).getD 0

/-- What is done is recorded or owed. -/
def Balanced (app : App) : Prop :=
  ∀ i (c : Counter), c.gauge = false → app.stats.shared.recordedFor i c + app.owed i c = app.done i c

variable {app app' : App} {a : Action} {u : Udp} {port : UdpPort} {action : UdpPort.Action}
  {c : Counter} {config : Config.RuntimeConfig}
  {ascending : config.listenPorts.Pairwise (· < ·)} {now i : Nat}

theorem Udp.books (taken : UdpPort.Step u.port action port) (cumulative : c.gauge = false) :
    let u' : Udp := ⟨port, u.uncounted ++ u.port.sends action,
      u.dropped + (u.port.drops action).toNat⟩
    amounts c (opsOf (u.port.recording action)) + u'.owed c + u.done c =
      u.owed c + u'.done c := by
  by_cases incoming : c = .udpInBytes
  · subst incoming
    exact taken.udpIn
  · rw [UdpPort.amounts_recording cumulative incoming]
    cases c with
    | udpInBytes => exact absurd rfl incoming
    | udpOutBytes =>
        simp only [Udp.owed, Udp.done, taken.left_eq, List.sum_append, reduceCtorEq, if_false]
        omega
    | udpDropped =>
        simp only [Udp.owed, Udp.done, if_true]
        omega
    | _ => rfl

theorem threads_env {tcp tcp' : Pool RunningApp RunningApp.Task} {e : RunningApp.Env}
    (taken : RunningApp.machine.step tcp (.env e) = some tcp') : tcp'.threads = tcp.threads := by
  obtain ⟨shared, new, own, rfl⟩ := Program.machine_env_iff.mp taken
  obtain ⟨-, -, -, -, rfl⟩ := RunningApp.env_frame own
  exact List.append_nil _

/-- A part of one port is replaced. -/
theorem at_set {us : List Udp} {j : Nat} {u' : Udp} (f : Udp → Nat) (found : us[j]? = some u) :
    ((us.set j u')[i]?.map f).getD 0 = if j = i then f u' else (us[i]?.map f).getD 0 := by
  by_cases own : j = i
  · subst own
    simp [(List.getElem?_eq_some_iff.mp found).1]
  · simp [own]

theorem recordedFor_stats {stats : Pool StatsRegistry StatsRegistry.Task} {k : StatsRegistry.Choice}
    (admitted : app.admits i k = true)
    (own : StatsRegistry.machine.step app.stats (.thread i k) = some stats) (j : Nat) :
    stats.shared.recordedFor j c = app.stats.shared.recordedFor j c := by
  obtain ⟨t, registry, t', new, found, taken, rfl⟩ := Program.machine_thread_iff.mp own
  cases StatsRegistry.step_iff.mp taken with
  | record => simp [admits, found] at admitted
  | _ => rfl

/-- A step of a port that calls a method which makes one update. -/
theorem Balanced.counts {j : Nat} {u' : Udp} {called : Option Recording}
    {stats : Pool StatsRegistry StatsRegistry.Task} (before : app.Balanced)
    (parts : Parts config ascending now app) (found : app.udp[j]? = some u)
    (single : ∀ recording ∈ called, recording.single = true)
    (books : ∀ c : Counter, c.gauge = false →
      amounts c (opsOf called) + u'.owed c + u.done c = u.owed c + u'.done c)
    (follows : StatsRegistry.machine.run app.stats (App.counts app.stats j called) = some stats) :
    Balanced { app with udp := app.udp.set j u', stats := stats } := by
  intro i c cumulative
  have balance := before i c cumulative
  have recorded := shared_counts single parts.distinct (parts.udp_known found) follows
  have books := books c cumulative
  unfold owed done at balance ⊢
  rw [recorded, StatsRegistry.recordedFor_recordNext, take_opsOf single, at_set _ found,
    at_set _ found]
  by_cases here : j = i
  · subst here
    simp only [found, Option.map_some, Option.getD_some] at balance
    simp only [if_true]
    omega
  · simp only [here, if_false]
    exact balance

theorem Udp.books_addUdpOut {bytes : Nat} {rest : List Nat} (sent : u.uncounted = bytes :: rest)
    (c : Counter) :
    let u' : Udp := { u with uncounted := rest }
    amounts c (opsOf (some (.udpOut bytes))) + u'.owed c + u.done c = u.owed c + u'.done c := by
  cases c <;> simp [opsOf, Recording.ops, PortStats.addUdpOut, Udp.owed, Udp.done, sent,
    CounterOp.amount]

theorem Balanced.step (before : app.Balanced) (parts : Parts config ascending now app)
    (taken : Step app a app') : app'.Balanced := by
  intro i c cumulative
  have balance := before i c cumulative
  unfold owed done at balance ⊢
  cases taken with
  | cancel own =>
      have kept : ((app.udp.map Udp.cancel)[i]?.map fun u => u.owed c) =
            app.udp[i]?.map (fun u => u.owed c) ∧
          ((app.udp.map Udp.cancel)[i]?.map fun u => u.done c) =
            app.udp[i]?.map fun u => u.done c := by
        simp only [List.getElem?_map, Option.map_map]
        exact ⟨rfl, rfl⟩
      rw [threads_env own, kept.1, kept.2]
      exact balance
  | close own =>
      rw [threads_env own]
      exact balance
  | @tcp j k t t' shared new stats found own follows =>
      have recorded := shared_makes parts.distinct (parts.tcp_known found) follows
      have books := own.books i cumulative
      have owed := weight_set (RunningApp.owes i c) t' found
      have counted := weight_set (RunningApp.counts i c) t' found
      rw [recorded, StatsRegistry.recordedFor_recordNext, RunningApp.Task.method,
        RunningApp.take_inMethod]
      simp only [weight_append, RunningApp.copiedBytes_append]
      omega
  | @udp j action u port stats found admitted own follows =>
      exact before.counts parts found (fun _ called => UdpPort.single_of_recording called)
        (fun _ cumulative => Udp.books (.of_step own) cumulative) follows i c cumulative
  | @addUdpOut j u bytes rest stats found sent follows =>
      exact before.counts parts found (Recording.single_udpOut bytes)
        (fun c _ => Udp.books_addUdpOut sent c) follows i c cumulative
  | stats admitted own =>
      rw [recordedFor_stats admitted own]
      exact balance
  | snapshot own =>
      obtain ⟨registry, new, called, rfl⟩ := Program.machine_env_iff.mp own
      cases called
      exact balance

theorem Balanced.start : (App.start config ascending now).Balanced := by
  intro i c _
  have idle : ∀ t ∈ (App.start config ascending now).tcp.threads,
      RunningApp.owes i c t = 0 ∧ RunningApp.counts i c t = 0 := by
    intro t member
    obtain ⟨port, -, rfl⟩ := List.mem_map.mp member
    exact ⟨ite_self 0, if_neg fun both => Bool.noConfusion both.2⟩
  have owed : (App.start config ascending now).owed i c = 0 := by
    rw [App.owed, weight_eq_zero_iff.mpr fun t member => (idle t member).1]
    simp only [App.start, List.getElem?_map]
    cases config.listenPorts[i]? with
    | none => rfl
    | some port => cases c <;> rfl
  have done : (App.start config ascending now).done i c = 0 := by
    rw [App.done, weight_eq_zero_iff.mpr fun t member => (idle t member).2]
    simp only [App.start, List.getElem?_map]
    cases config.listenPorts[i]? with
    | none => rfl
    | some port => cases c <;> rfl
  rw [owed, done]
  rfl

/-- In every run all that is done is recorded or owed. -/
theorem balanced (reached : machine.Reachable (start config ascending now) app) :
    app.Balanced := by
  refine reached.invariant (P := Balanced) .start ?_
  intro app a app' reached before taken
  exact before.step (parts reached) (.of_step taken)

end App

end RangePorter
