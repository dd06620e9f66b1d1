import RangePorter.Interleaving.Refinement
import RangePorter.Listener.TcpBytes
import RangePorter.Listener.UdpReplies
import RangePorter.Listener.UdpRequests
import RangePorter.Runtime
import RangePorter.Stats.Numbers

/-!
# The whole application

The TCP listeners with their connections, the UDP side of each port and the registry of
statistics, as they run together after `runtime::start`. The tasks of each part take the
steps of its own machine, in any order.

What connects the parts are the counters. When a task of the listeners calls a recording
method of its port, the method becomes a task of the registry, and from then on the two
take their steps together: an update that the caller makes is the update of the method.
The methods for UDP make one update each, so they are called and over in one step. The
sender of replies calls `add_udp_out` for one packet after the other, once `send_batch` has
returned.

`copied` and `dropped` are no part of the program: they record which connections ended well,
and how many replies found their queue full.
-/

namespace RangePorter

open Interleaving

namespace RunningApp

/-- The updates that the task has still to make. -/
def Task.updates : Task → List CounterOp
  | .listener _ (.record ops) | .connection _ (.record ops) => ops
  | _ => []

/-- What is left of the method that these updates begin with: `add_tcp_bytes` is over before
`record_tcp_close` is called. -/
def inMethod : List CounterOp → List CounterOp
  | [inBytes, outBytes, _, _] => [inBytes, outBytes]
  | [outBytes, _, _] => [outBytes]
  | ops => ops

/-- What is left of the recording method that the task is in. -/
def Task.method (t : Task) : List CounterOp := inMethod t.updates

/-- The recording method that the task has just called. -/
def Task.called : Task → Option RangePorter.Recording
  | .listener _ (.record ops) =>
      if ops = PortStats.recordTcpAccept then some .tcpAccept else none
  | .connection _ (.record ops) =>
      match ops with
      | [.fetchAdd .tcpInBytes inBytes, .fetchAdd .tcpOutBytes outBytes, _, _] =>
          some (.tcpBytes inBytes outBytes)
      | _ => if ops = PortStats.recordTcpClose then some .tcpClose else none
  | _ => none

/-- What `copy_bidirectional` returns in this step, if it ends well. -/
def Task.copied : Task → Choice → List (Nat × Bytes)
  | .connection port (.copy inBytes outBytes true true), .go => [(port, inBytes, outBytes)]
  | _, _ => []

end RunningApp

namespace UdpSessionTable

/-- The recording method that a task calls in this step. -/
def Task.recording : Task → Choice → Option Recording
  | .getOrCreate _ (.flowOpen _), .go => some .udpFlowOpen
  | .addUdpIn payload, .go => some (.udpIn payload.length)
  | .closing _ _ .flowClose _, .go => some .udpFlowClose
  | _, _ => none

def recording (table : Pool UdpSessionTable Task) : Interleaving.Action Choice Env → Option Recording
  | .thread i k => table.threads[i]?.bind fun t => t.recording k
  | .env _ => none

end UdpSessionTable

namespace UdpPort

/-- The recording method that the step calls, but for those of the sender. -/
def recording (port : UdpPort) : Action → Option Recording
  | .table action => UdpSessionTable.recording port.table action
  | .reply task => if port.drops (.reply task) then some .udpDrop else none
  | _ => none

/-- The sizes of the packets that `send_batch` has sent in this step. -/
def sends (port : UdpPort) : Action → List Nat
  | .flush result =>
      match port.sender with
      | .flush batch start =>
          ((batch.drop start).take (result.toOption.getD 0)).map fun q => q.packet.bytes
      | _ => []
  | _ => []

end UdpPort

/-- The UDP side of a port in the application. -/
structure App.Udp where
  port : UdpPort
  /-- The sizes of the packets that the sender has sent and still has to count. -/
  uncounted : List Nat
  dropped : Nat

structure App where
  /-- Whether the token of the application is cancelled. -/
  shutdown : Bool
  tcp : Pool RunningApp RunningApp.Task
  udp : List App.Udp
  stats : Pool StatsRegistry StatsRegistry.Task
  copied : List (Nat × RunningApp.Bytes)

namespace App

/-- An action of the registry's machine. -/
abbrev StatsAction := Interleaving.Action StatsRegistry.Choice StatsRegistry.Env

inductive Action where
  /-- `RunningApp::shutdown` cancels the token, and with it every child token. -/
  | cancel
  /-- It closes the semaphore. -/
  | close
  /-- A step of a listener or connection. -/
  | tcp (task : Nat) (choice : RunningApp.Choice)
  | udp (port : Nat) (action : UdpPort.Action)
  /-- The sender of this port counts the next packet that it has sent. -/
  | addUdpOut (port : Nat)
  /-- A step of `run_rollup`, or of a task that takes a snapshot. -/
  | stats (task : Nat) (choice : StatsRegistry.Choice)
  | snapshot

/-! ### The registry follows -/

/-- The next update of the method of which these are left. -/
def makes (stats : Pool StatsRegistry StatsRegistry.Task) (port : Nat) :
    List CounterOp → List StatsAction
  | [] => []
  | op :: ops => [.thread (stats.threads.idxOf (.recording port (op :: ops))) .go]

/-- A call of a recording method of the port at this position. -/
def calls (stats : Pool StatsRegistry StatsRegistry.Task) (port : Nat) :
    Option Recording → List StatsAction
  | none => []
  | some recording =>
      stats.shared.numbers[port]?.toList.map fun number => .env (.record number recording)

/-- A method that makes one update, from its call to its end. -/
def counts (stats : Pool StatsRegistry StatsRegistry.Task) (port : Nat) :
    Option Recording → List StatsAction
  | none => []
  | some recording => calls stats port recording ++ [.thread stats.threads.length .go]

/-- What the registry does in a step of the application. -/
def events (app : App) : Action → List StatsAction
  | .cancel | .close => []
  | .tcp i k =>
      match app.tcp.threads[i]?,
        (RunningApp.machine.step app.tcp (.thread i k)).bind fun tcp => tcp.threads[i]? with
      | some t, some t' => makes app.stats t.port t.method ++ calls app.stats t.port t'.called
      | _, _ => []
  | .udp i action =>
      match app.udp[i]? with
      | some u => counts app.stats i (u.port.recording action)
      | none => []
  | .addUdpOut i =>
      match app.udp[i]?.bind fun u => u.uncounted.head? with
      | some bytes => counts app.stats i (some (.udpOut bytes))
      | none => []
  | .stats i k => [.thread i k]
  | .snapshot => [.env .snapshot]

/-! ### The other parts -/

/-- The token is cancelled for all ports at once, and the sender counts what it has sent
before it goes on. -/
def Udp.admits (u : Udp) : UdpPort.Action → Bool
  | .cancel => false
  | .recvMany _ | .flush _ | .senderEnds => u.uncounted.isEmpty
  | _ => true

def Udp.step (u : Udp) (action : UdpPort.Action) : Option Udp :=
  if u.admits action then
    (UdpPort.machine.step u.port action).map fun port =>
      ⟨port, u.uncounted ++ u.port.sends action, u.dropped + (u.port.drops action).toNat⟩
  else none

def Udp.cancel (u : Udp) : Udp := { u with port := { u.port with shutdown := true } }

/-- A recording method takes its steps with its caller only, and `run_rollup` is told to
stop by the token. -/
def admits (app : App) (i : Nat) (k : StatsRegistry.Choice) : Bool :=
  match app.stats.threads[i]?, k with
  | some (.recording ..), _ => false
  | _, .shutdown _ => app.shutdown
  | _, _ => true

/-- A step without what the registry does in it. -/
def moved (app : App) : Action → Option App
  | .cancel =>
      (RunningApp.machine.step app.tcp (.env .cancel)).map fun tcp =>
        { app with shutdown := true, tcp := tcp, udp := app.udp.map Udp.cancel }
  | .close =>
      (RunningApp.machine.step app.tcp (.env .close)).map fun tcp => { app with tcp := tcp }
  | .tcp i k =>
      app.tcp.threads[i]?.bind fun t =>
        (RunningApp.machine.step app.tcp (.thread i k)).map fun tcp =>
          { app with tcp := tcp, copied := app.copied ++ t.copied k }
  | .udp i action =>
      app.udp[i]?.bind fun u =>
        (u.step action).map fun u' => { app with udp := app.udp.set i u' }
  | .addUdpOut i =>
      app.udp[i]?.bind fun u =>
        match u.uncounted with
        | [] => none
        | _ :: rest => some { app with udp := app.udp.set i { u with uncounted := rest } }
  | .stats i k => if app.admits i k then some app else none
  | .snapshot => some app

def step (app : App) (a : Action) : Option App :=
  (app.moved a).bind fun app' =>
    (StatsRegistry.machine.run app.stats (app.events a)).map fun stats =>
      { app' with stats := stats }

/-- All interleavings of the application's tasks. -/
def machine : Machine App Action := ⟨step⟩

/-- What `runtime::start` spawns. -/
def start (config : Config.RuntimeConfig) (ascending : config.listenPorts.Pairwise (· < ·))
    (now : Nat) : App where
  shutdown := false
  tcp := RunningApp.start (Runtime.listenersView config ascending)
  udp := config.listenPorts.map fun port =>
    ⟨UdpPort.start config.udpIdleTimeout port.toNat now, [], 0⟩
  stats := StatsRegistry.start (config.listenPorts.map BitVec.toNat)
    (.ofList config.target.display) config.statsWindow.toNat now
  copied := []

/-! ### What one step can do -/

inductive Step (app : App) : Action → App → Prop where
  | cancel {tcp} (own : RunningApp.machine.step app.tcp (.env .cancel) = some tcp) :
      Step app .cancel
        { app with shutdown := true, tcp := tcp, udp := app.udp.map Udp.cancel }
  | close {tcp} (own : RunningApp.machine.step app.tcp (.env .close) = some tcp) :
      Step app .close { app with tcp := tcp }
  | tcp {i k t t' shared new stats} (found : app.tcp.threads[i]? = some t)
      (own : RunningApp.Step app.tcp.shared t k shared t' new)
      (follows : StatsRegistry.machine.run app.stats
        (makes app.stats t.port t.method ++ calls app.stats t.port t'.called) = some stats) :
      Step app (.tcp i k)
        { app with
          tcp := ⟨shared, app.tcp.threads.set i t' ++ new⟩
          stats := stats
          copied := app.copied ++ t.copied k }
  | udp {i action u port stats} (found : app.udp[i]? = some u) (admitted : u.admits action = true)
      (own : UdpPort.machine.step u.port action = some port)
      (follows : StatsRegistry.machine.run app.stats
        (counts app.stats i (u.port.recording action)) = some stats) :
      Step app (.udp i action)
        { app with
          udp := app.udp.set i ⟨port, u.uncounted ++ u.port.sends action,
            u.dropped + (u.port.drops action).toNat⟩
          stats := stats }
  | addUdpOut {i u bytes rest stats} (found : app.udp[i]? = some u)
      (sent : u.uncounted = bytes :: rest)
      (follows : StatsRegistry.machine.run app.stats
        (counts app.stats i (some (.udpOut bytes))) = some stats) :
      Step app (.addUdpOut i)
        { app with udp := app.udp.set i { u with uncounted := rest }, stats := stats }
  | stats {i k stats} (admitted : app.admits i k = true)
      (own : StatsRegistry.machine.step app.stats (.thread i k) = some stats) :
      Step app (.stats i k) { app with stats := stats }
  | snapshot {stats} (own : StatsRegistry.machine.step app.stats (.env .snapshot) = some stats) :
      Step app .snapshot { app with stats := stats }

variable {app app' : App} {a : Action}

theorem Step.of_step (taken : machine.step app a = some app') : Step app a app' := by
  obtain ⟨next, move, taken⟩ := Option.bind_eq_some_iff.mp taken
  obtain ⟨stats, follows, rfl⟩ := Option.map_eq_some_iff.mp taken
  unfold moved at move
  cases a with
  | cancel =>
      obtain ⟨tcp, own, rfl⟩ := Option.map_eq_some_iff.mp move
      obtain rfl : app.stats = stats := Option.some.inj follows
      exact .cancel own
  | close =>
      obtain ⟨tcp, own, rfl⟩ := Option.map_eq_some_iff.mp move
      obtain rfl : app.stats = stats := Option.some.inj follows
      exact .close own
  | tcp i k =>
      obtain ⟨t, found, move⟩ := Option.bind_eq_some_iff.mp move
      obtain ⟨tcp, own, rfl⟩ := Option.map_eq_some_iff.mp move
      obtain ⟨t₁, shared, t', new, found', step, rfl⟩ := Program.machine_thread_iff.mp own
      cases found.symm.trans found'
      have bound := (List.getElem?_eq_some_iff.mp found).1
      have after : (app.tcp.threads.set i t' ++ new)[i]? = some t' := lookup_self bound
      simp only [events, found, own, Option.bind_some, after] at follows
      exact .tcp found (RunningApp.step_iff.mp step) follows
  | udp i action =>
      obtain ⟨u, found, advance⟩ := Option.bind_eq_some_iff.mp move
      obtain ⟨u', stepped, rfl⟩ := Option.map_eq_some_iff.mp advance
      obtain ⟨admitted, reached⟩ := Option.ite_none_right_eq_some.mp stepped
      obtain ⟨port, own, rfl⟩ := Option.map_eq_some_iff.mp reached
      simp only [events, found] at follows
      exact .udp found admitted own follows
  | addUdpOut i =>
      obtain ⟨u, found, move⟩ := Option.bind_eq_some_iff.mp move
      cases sent : u.uncounted with
      | nil =>
          rw [sent] at move
          cases move
      | cons bytes rest =>
          rw [sent] at move
          cases move
          simp only [events, found, Option.bind_some, sent, List.head?_cons] at follows
          exact .addUdpOut found sent follows
  | stats i k =>
      obtain ⟨admitted, same⟩ := Option.ite_none_right_eq_some.mp move
      cases same
      exact .stats admitted (Machine.run_singleton.mp follows)
  | snapshot =>
      cases move
      exact .snapshot (Machine.run_singleton.mp follows)

end App

end RangePorter
