import RangePorter.Interleaving.Pool
import RangePorter.Stats.Port

/-!
# TCP listeners and their connections

One listener per port and one task per accepted connection share the semaphore
that caps connections over all ports. A permit is taken before `accept`, moves
into the connection's task with the connection, and is dropped where its owner
ends. Every counter update is a step of its own.

`connections` is the `JoinSet` of a listener. It is shared here because a task
that ends marks itself as finished in the set of its listener.

`updates` is no part of the program: it records every counter update with the
value it found.
-/

namespace RangePorter

open Interleaving

/-- What the listeners use of `RuntimeConfig`. Positions in `listenPorts` stand for
the ports below. -/
structure RuntimeConfig where
  listenPorts : List (BitVec 16)
  maxTcpConnections : Nat
  distinct : listenPorts.Nodup
  nonempty : listenPorts ≠ []
  positive : 0 < maxTcpConnections
  fits : maxTcpConnections < u64Size

structure Semaphore where
  available : Nat
  closed : Bool
  deriving DecidableEq, Repr

/-- The tasks of a `JoinSet`, by whether they have finished. -/
structure JoinSet where
  running : Nat
  finished : Nat
  deriving DecidableEq, Repr

/-- One counter update of a port, with the value it found. -/
structure Update where
  port : Nat
  op : CounterOp
  before : Nat
  deriving DecidableEq, Repr

structure RunningApp where
  semaphore : Semaphore
  /-- Whether the shutdown token, and with it every child token, is cancelled. -/
  shutdown : Bool
  stats : List PortStats
  connections : List JoinSet
  updates : List Update
  deriving DecidableEq, Repr

/-- The next step of `listener::tcp::run`. -/
inductive TcpRun where
  | acquire
  | accept
  /-- A connection is accepted; these updates of `record_tcp_accept` are left. -/
  | record (ops : List CounterOp)
  /-- `accept` failed and the permit is dropped for the next round. -/
  | refuse
  /-- The loop has ended with the permit still held. -/
  | leave
  | joinNext
  | returned
  deriving DecidableEq, Repr

/-- The next step of a connection's task. -/
inductive TcpProxy where
  | connect
  /-- `copy_bidirectional`: the bytes copied so far and the directions at their end. -/
  | copy (inBytes outBytes : Nat) (inEnded outEnded : Bool)
  /-- These counter updates are left; after the last the permit is dropped. -/
  | record (ops : List CounterOp)
  | finish
  | finished
  deriving DecidableEq, Repr

namespace RunningApp

inductive Task where
  | listener (port : Nat) (next : TcpRun)
  | connection (port : Nat) (next : TcpProxy)
  deriving DecidableEq, Repr

/-- Which branch of a `select!` is taken, and what a system call returns. -/
inductive Choice where
  | go
  | fail
  /-- The branch `shutdown.cancelled()`. -/
  | shutdown
  /-- `acquire_owned` returns because the semaphore is closed. -/
  | closed
  | copyIn (bytes : Nat)
  | copyOut (bytes : Nat)
  | endIn
  | endOut
  deriving DecidableEq, Repr

/-- `RunningApp::shutdown` cancels the token and then closes the semaphore. -/
inductive Env where
  | cancel
  | close
  deriving DecidableEq, Repr

/-! ### Single operations -/

@[simp] def acquire (app : RunningApp) : RunningApp :=
  { app with semaphore := { app.semaphore with available := app.semaphore.available - 1 } }

@[simp] def dropPermit (app : RunningApp) : RunningApp :=
  { app with semaphore := { app.semaphore with available := app.semaphore.available + 1 } }

def counter (app : RunningApp) (port : Nat) (c : Counter) : Nat :=
  (app.stats[port]?.map fun s => s.load c).getD 0

def update (app : RunningApp) (port : Nat) (op : CounterOp) : RunningApp :=
  { app with
    stats := app.stats.modify port fun s => s.apply op
    updates := app.updates ++ [⟨port, op, app.counter port op.counter⟩] }

def spawn (app : RunningApp) (port : Nat) : RunningApp :=
  { app with
    connections := app.connections.modify port fun set => { set with running := set.running + 1 } }

def finish (app : RunningApp) (port : Nat) : RunningApp :=
  { app with
    connections := app.connections.modify port fun set =>
      ⟨set.running - 1, set.finished + 1⟩ }

def joinNext (app : RunningApp) (port : Nat) : RunningApp :=
  { app with
    connections := app.connections.modify port fun set =>
      { set with finished := set.finished - 1 } }

/-! ### Steps -/

/-- One step of `listener::tcp::run`. -/
def stepListener (app : RunningApp) (port : Nat) :
    TcpRun → Choice → Option (RunningApp × TcpRun × List Task)
  | .acquire, .go =>
      if app.semaphore.closed || app.semaphore.available = 0 then none
      else some (app.acquire, .accept, [])
  | .acquire, .shutdown => if app.shutdown then some (app, .joinNext, []) else none
  | .acquire, .closed => if app.semaphore.closed then some (app, .joinNext, []) else none
  | .accept, .go => some (app, .record PortStats.recordTcpAccept, [])
  | .accept, .fail => some (app, .refuse, [])
  | .accept, .shutdown => if app.shutdown then some (app, .leave, []) else none
  | .record (op :: ops), .go => some (app.update port op, .record ops, [])
  | .record [], .go => some (app.spawn port, .acquire, [.connection port .connect])
  | .refuse, .go => some (app.dropPermit, .acquire, [])
  | .leave, .go => some (app.dropPermit, .joinNext, [])
  | .joinNext, .go =>
      match app.connections[port]? with
      | none => none
      | some set =>
          if 0 < set.finished then some (app.joinNext port, .joinNext, [])
          else if set.running = 0 then some (app, .returned, [])
          else none
  | _, _ => none

/-- One step of a task that runs `forward::tcp::proxy`. -/
def stepConnection (app : RunningApp) (port : Nat) :
    TcpProxy → Choice → Option (RunningApp × TcpProxy)
  | .connect, .go => some (app, .copy 0 0 false false)
  | .connect, .fail => some (app, .record PortStats.recordTcpClose)
  | .connect, .shutdown =>
      if app.shutdown then some (app, .record PortStats.recordTcpClose) else none
  | .copy i o false outEnded, .copyIn bytes => some (app, .copy (i + bytes) o false outEnded)
  | .copy i o inEnded false, .copyOut bytes => some (app, .copy i (o + bytes) inEnded false)
  | .copy i o _ outEnded, .endIn => some (app, .copy i o true outEnded)
  | .copy i o inEnded _, .endOut => some (app, .copy i o inEnded true)
  | .copy i o true true, .go =>
      some (app, .record (PortStats.addTcpBytes i o ++ PortStats.recordTcpClose))
  | .copy .., .fail => some (app, .record PortStats.recordTcpClose)
  | .copy .., .shutdown =>
      if app.shutdown then some (app, .record PortStats.recordTcpClose) else none
  | .record (op :: ops), .go => some (app.update port op, .record ops)
  | .record [], .go => some (app.dropPermit, .finish)
  | .finish, .go => some (app.finish port, .finished)
  | _, _ => none

def step (app : RunningApp) : Task → Choice → Option (RunningApp × Task × List Task)
  | .listener port next, k =>
      (app.stepListener port next k).map fun r => (r.1, .listener port r.2.1, r.2.2)
  | .connection port next, k =>
      (app.stepConnection port next k).map fun r => (r.1, .connection port r.2, [])

def env (app : RunningApp) : Env → Option (RunningApp × List Task)
  | .cancel => some ({ app with shutdown := true }, [])
  | .close =>
      if app.shutdown then
        some ({ app with semaphore := { app.semaphore with closed := true } }, [])
      else none

def program : Program RunningApp Task Choice Env := ⟨step, env⟩

/-- All interleavings of the listeners, the connections and the shutdown. -/
def machine : Machine (Pool RunningApp Task) (Action Choice Env) := program.machine

/-- `runtime::start`: a semaphore for the cap and one listener per port. -/
def start (config : RuntimeConfig) : Pool RunningApp Task where
  shared :=
    { semaphore := ⟨config.maxTcpConnections, false⟩
      shutdown := false
      stats := config.listenPorts.map fun port => .new port.toNat
      connections := config.listenPorts.map fun _ => ⟨0, 0⟩
      updates := [] }
  threads := (List.range config.listenPorts.length).map fun port => .listener port .acquire

/-! ### The steps by name -/

inductive Step (app : RunningApp) : Task → Choice → RunningApp → Task → List Task → Prop where
  | acquire {port} (opened : app.semaphore.closed = false) (free : 0 < app.semaphore.available) :
      Step app (.listener port .acquire) .go app.acquire (.listener port .accept) []
  | acquireCancelled {port} (shutdown : app.shutdown = true) :
      Step app (.listener port .acquire) .shutdown app (.listener port .joinNext) []
  | acquireClosed {port} (closed : app.semaphore.closed = true) :
      Step app (.listener port .acquire) .closed app (.listener port .joinNext) []
  | accept {port} :
      Step app (.listener port .accept) .go app
        (.listener port (.record PortStats.recordTcpAccept)) []
  | acceptFails {port} :
      Step app (.listener port .accept) .fail app (.listener port .refuse) []
  | acceptCancelled {port} (shutdown : app.shutdown = true) :
      Step app (.listener port .accept) .shutdown app (.listener port .leave) []
  | recordAccept {port op ops} :
      Step app (.listener port (.record (op :: ops))) .go (app.update port op)
        (.listener port (.record ops)) []
  | spawn {port} :
      Step app (.listener port (.record [])) .go (app.spawn port) (.listener port .acquire)
        [.connection port .connect]
  | refuse {port} :
      Step app (.listener port .refuse) .go app.dropPermit (.listener port .acquire) []
  | leave {port} :
      Step app (.listener port .leave) .go app.dropPermit (.listener port .joinNext) []
  | joinNext {port set} (tracked : app.connections[port]? = some set)
      (finished : 0 < set.finished) :
      Step app (.listener port .joinNext) .go (app.joinNext port) (.listener port .joinNext) []
  | joined {port set} (tracked : app.connections[port]? = some set)
      (none : set.finished = 0 ∧ set.running = 0) :
      Step app (.listener port .joinNext) .go app (.listener port .returned) []
  | connect {port} :
      Step app (.connection port .connect) .go app (.connection port (.copy 0 0 false false)) []
  | copyIn {port i o outEnded bytes} :
      Step app (.connection port (.copy i o false outEnded)) (.copyIn bytes) app
        (.connection port (.copy (i + bytes) o false outEnded)) []
  | copyOut {port i o inEnded bytes} :
      Step app (.connection port (.copy i o inEnded false)) (.copyOut bytes) app
        (.connection port (.copy i (o + bytes) inEnded false)) []
  | endIn {port i o inEnded outEnded} :
      Step app (.connection port (.copy i o inEnded outEnded)) .endIn app
        (.connection port (.copy i o true outEnded)) []
  | endOut {port i o inEnded outEnded} :
      Step app (.connection port (.copy i o inEnded outEnded)) .endOut app
        (.connection port (.copy i o inEnded true)) []
  | copied {port i o} :
      Step app (.connection port (.copy i o true true)) .go app
        (.connection port (.record (PortStats.addTcpBytes i o ++ PortStats.recordTcpClose))) []
  | connectInterrupted {port k} (branch : k = .fail ∨ k = .shutdown ∧ app.shutdown = true) :
      Step app (.connection port .connect) k app
        (.connection port (.record PortStats.recordTcpClose)) []
  | copyInterrupted {port i o inEnded outEnded k}
      (branch : k = .fail ∨ k = .shutdown ∧ app.shutdown = true) :
      Step app (.connection port (.copy i o inEnded outEnded)) k app
        (.connection port (.record PortStats.recordTcpClose)) []
  | recordClose {port op ops} :
      Step app (.connection port (.record (op :: ops))) .go (app.update port op)
        (.connection port (.record ops)) []
  | dropPermit {port} :
      Step app (.connection port (.record [])) .go app.dropPermit (.connection port .finish) []
  | finish {port} :
      Step app (.connection port .finish) .go (app.finish port) (.connection port .finished) []

theorem Step.of_step {app app' : RunningApp} {t t' : Task} {k : Choice} {new : List Task}
    (taken : app.step t k = some (app', t', new)) : Step app t k app' t' new := by
  cases t with
  | listener port next =>
      obtain ⟨⟨app₁, next', new₁⟩, own, same⟩ := Option.map_eq_some_iff.mp taken
      cases same
      unfold stepListener at own
      split at own <;> (repeat' split at own) <;> cases own
      all_goals first
        | exact .acquireCancelled ‹_›
        | exact .acquireClosed ‹_›
        | exact .acceptCancelled ‹_›
        | exact .joinNext ‹_› ‹_›
        | exact .joined ‹_› ⟨by omega, ‹_›⟩
        | (rename_i free; exact .acquire (by simp_all) (by simp_all; omega))
        | constructor
  | connection port next =>
      obtain ⟨⟨app₁, next'⟩, own, same⟩ := Option.map_eq_some_iff.mp taken
      cases same
      unfold stepConnection at own
      split at own <;> (repeat' split at own) <;> cases own
      all_goals first
        | exact .connectInterrupted (.inl rfl)
        | exact .connectInterrupted (.inr ⟨rfl, ‹_›⟩)
        | exact .copyInterrupted (.inl rfl)
        | exact .copyInterrupted (.inr ⟨rfl, ‹_›⟩)
        | constructor

theorem Step.to_step {app app' : RunningApp} {t t' : Task} {k : Choice} {new : List Task}
    (taken : Step app t k app' t' new) : app.step t k = some (app', t', new) := by
  cases taken with
  | connectInterrupted branch | copyInterrupted branch =>
      rcases branch with rfl | ⟨rfl, shutdown⟩ <;> simp_all [step, stepConnection]
  | acquire opened free => simp [step, stepListener, opened, Nat.ne_of_gt free]
  | _ => simp_all [step, stepListener, stepConnection]

theorem step_iff {app app' : RunningApp} {t t' : Task} {k : Choice} {new : List Task} :
    app.step t k = some (app', t', new) ↔ Step app t k app' t' new :=
  ⟨.of_step, Step.to_step⟩

/-- Cancelling and closing leave the counters, the permits and the tasks alone. -/
theorem env_frame {app app' : RunningApp} {e : Env} {new : List Task}
    (taken : app.env e = some (app', new)) :
    app'.semaphore.available = app.semaphore.available ∧ app'.stats = app.stats ∧
      app'.connections = app.connections ∧ app'.updates = app.updates ∧ new = [] := by
  cases e with
  | cancel =>
      cases taken
      exact ⟨rfl, rfl, rfl, rfl, rfl⟩
  | close =>
      simp only [env, Option.ite_none_right_eq_some, Option.some.injEq, Prod.mk.injEq] at taken
      obtain ⟨-, rfl, rfl⟩ := taken
      exact ⟨rfl, rfl, rfl, rfl, rfl⟩

end RunningApp

end RangePorter
