import RangePorter.Net

/-!
# Counters of one port

`PortStats` holds nine atomic counters. A recording method of the source is the
list of atomic operations it performs, in order; other tasks may run between two
of them. Every operation touches one counter only, so its effect on the others
is nothing (`load_apply_of_ne`).
-/

namespace RangePorter

/-- The atomic fields of `PortStats`. -/
inductive Counter where
  | tcpAccepted
  | tcpActive
  | tcpClosed
  | udpActiveFlows
  | tcpInBytes
  | tcpOutBytes
  | udpInBytes
  | udpOutBytes
  | udpDropped
  deriving DecidableEq, Repr

structure PortStats where
  port : Nat
  tcpAccepted : Nat
  tcpActive : Nat
  tcpClosed : Nat
  udpActiveFlows : Nat
  tcpInBytes : Nat
  tcpOutBytes : Nat
  udpInBytes : Nat
  udpOutBytes : Nat
  udpDropped : Nat
  deriving DecidableEq, Repr

/-- One atomic read-modify-write of a counter. -/
inductive CounterOp where
  | fetchAdd (counter : Counter) (amount : Nat)
  | saturatingDecrement (counter : Counter)
  deriving DecidableEq, Repr

namespace CounterOp

def counter : CounterOp → Counter
  | fetchAdd c _ => c
  | saturatingDecrement c => c

/-- The value an operation leaves in its counter. -/
def result : CounterOp → Nat → Nat
  | fetchAdd _ amount, current => wrappingAdd current amount
  | saturatingDecrement _, current => current - 1

section

variable (c : Counter) (amount current : Nat)

@[simp] theorem counter_fetchAdd : (fetchAdd c amount).counter = c := rfl
@[simp] theorem counter_saturatingDecrement : (saturatingDecrement c).counter = c := rfl
@[simp] theorem result_fetchAdd :
    (fetchAdd c amount).result current = wrappingAdd current amount := rfl
@[simp] theorem result_saturatingDecrement :
    (saturatingDecrement c).result current = current - 1 := rfl

end

end CounterOp

namespace PortStats

def new (port : Nat) : PortStats := ⟨port, 0, 0, 0, 0, 0, 0, 0, 0, 0⟩

def load (s : PortStats) : Counter → Nat
  | .tcpAccepted => s.tcpAccepted
  | .tcpActive => s.tcpActive
  | .tcpClosed => s.tcpClosed
  | .udpActiveFlows => s.udpActiveFlows
  | .tcpInBytes => s.tcpInBytes
  | .tcpOutBytes => s.tcpOutBytes
  | .udpInBytes => s.udpInBytes
  | .udpOutBytes => s.udpOutBytes
  | .udpDropped => s.udpDropped

def store (s : PortStats) (c : Counter) (value : Nat) : PortStats :=
  match c with
  | .tcpAccepted => { s with tcpAccepted := value }
  | .tcpActive => { s with tcpActive := value }
  | .tcpClosed => { s with tcpClosed := value }
  | .udpActiveFlows => { s with udpActiveFlows := value }
  | .tcpInBytes => { s with tcpInBytes := value }
  | .tcpOutBytes => { s with tcpOutBytes := value }
  | .udpInBytes => { s with udpInBytes := value }
  | .udpOutBytes => { s with udpOutBytes := value }
  | .udpDropped => { s with udpDropped := value }

@[simp] theorem load_new (port : Nat) (c : Counter) : (new port).load c = 0 := by
  cases c <;> rfl

@[simp] theorem load_store_self (s : PortStats) (c : Counter) (value : Nat) :
    (s.store c value).load c = value := by
  cases c <;> rfl

theorem load_store_of_ne (s : PortStats) {c d : Counter} (value : Nat) (ne : d ≠ c) :
    (s.store c value).load d = s.load d := by
  cases c <;> cases d <;> first | rfl | exact absurd rfl ne

@[simp] theorem port_store (s : PortStats) (c : Counter) (value : Nat) :
    (s.store c value).port = s.port := by
  cases c <;> rfl

/-- Perform one atomic operation. -/
def apply (s : PortStats) (op : CounterOp) : PortStats :=
  s.store op.counter (op.result (s.load op.counter))

@[simp] theorem load_apply_self (s : PortStats) (op : CounterOp) :
    (s.apply op).load op.counter = op.result (s.load op.counter) :=
  load_store_self ..

theorem load_apply_of_ne (s : PortStats) {op : CounterOp} {d : Counter} (ne : d ≠ op.counter) :
    (s.apply op).load d = s.load d :=
  load_store_of_ne s _ ne

/-! ### Recording methods -/

def recordTcpAccept : List CounterOp :=
  [.fetchAdd .tcpAccepted 1, .fetchAdd .tcpActive 1]

def recordTcpClose : List CounterOp :=
  [.saturatingDecrement .tcpActive, .fetchAdd .tcpClosed 1]

def addTcpBytes (inBytes outBytes : Nat) : List CounterOp :=
  [.fetchAdd .tcpInBytes inBytes, .fetchAdd .tcpOutBytes outBytes]

def recordUdpFlowOpen : List CounterOp := [.fetchAdd .udpActiveFlows 1]

def recordUdpFlowClose : List CounterOp := [.saturatingDecrement .udpActiveFlows]

def addUdpIn (bytes : Nat) : List CounterOp := [.fetchAdd .udpInBytes bytes]

def addUdpOut (bytes : Nat) : List CounterOp := [.fetchAdd .udpOutBytes bytes]

def recordUdpDrop : List CounterOp := [.fetchAdd .udpDropped 1]

end PortStats

/-- A call of one of the recording methods. -/
inductive Recording where
  | tcpAccept
  | tcpClose
  | tcpBytes (inBytes outBytes : Nat)
  | udpFlowOpen
  | udpFlowClose
  | udpIn (bytes : Nat)
  | udpOut (bytes : Nat)
  | udpDrop
  deriving DecidableEq, Repr

def Recording.ops : Recording → List CounterOp
  | tcpAccept => PortStats.recordTcpAccept
  | tcpClose => PortStats.recordTcpClose
  | tcpBytes inBytes outBytes => PortStats.addTcpBytes inBytes outBytes
  | udpFlowOpen => PortStats.recordUdpFlowOpen
  | udpFlowClose => PortStats.recordUdpFlowClose
  | udpIn bytes => PortStats.addUdpIn bytes
  | udpOut bytes => PortStats.addUdpOut bytes
  | udpDrop => PortStats.recordUdpDrop

/-- Gauges go down as well; all other counters are only ever added to. -/
def Counter.gauge : Counter → Bool
  | tcpActive | udpActiveFlows => true
  | _ => false

def CounterOp.amount : CounterOp → Nat
  | fetchAdd _ amount => amount
  | saturatingDecrement _ => 0

theorem Recording.result_eq {recording : Recording} {op : CounterOp} (member : op ∈ recording.ops)
    (cumulative : op.counter.gauge = false) (current : Nat) :
    op.result current = wrappingAdd current op.amount := by
  cases op with
  | fetchAdd => rfl
  | saturatingDecrement c =>
      -- Only the two gauges are ever decremented.
      have gauge : c.gauge = true := by
        cases recording <;>
          simp [ops, PortStats.recordTcpAccept, PortStats.recordTcpClose, PortStats.addTcpBytes,
            PortStats.recordUdpFlowOpen, PortStats.recordUdpFlowClose, PortStats.addUdpIn,
            PortStats.addUdpOut, PortStats.recordUdpDrop] at member
        all_goals
          subst member
          rfl
      exact absurd cumulative (by simp [gauge])

/-- The counters of accepts and closes. -/
def Counter.ofTcpConnection : Counter → Bool
  | tcpAccepted | tcpActive | tcpClosed => true
  | _ => false

/-- The updates of accepts and closes, by what comes after them. -/
theorem Recording.suffix_cases {recording : Recording} {op : CounterOp} {ops : List CounterOp}
    (suffix : op :: ops <:+ recording.ops) :
    (op = .fetchAdd .tcpAccepted 1 ∧ ops = [.fetchAdd .tcpActive 1]) ∨
    (op = .fetchAdd .tcpActive 1 ∧ ops = []) ∨
    (op = .saturatingDecrement .tcpActive ∧ ops = [.fetchAdd .tcpClosed 1]) ∨
    (op = .fetchAdd .tcpClosed 1 ∧ ops = []) ∨
    ∀ op' ∈ op :: ops, op'.counter.ofTcpConnection = false := by
  cases recording with
  | tcpAccept =>
      have accept : op = .fetchAdd .tcpAccepted 1 ∧ ops = [.fetchAdd .tcpActive 1] ∨
          op = .fetchAdd .tcpActive 1 ∧ ops = [] := by
        simpa [Recording.ops, PortStats.recordTcpAccept, List.suffix_cons_iff] using suffix
      exact accept.imp_right .inl
  | tcpClose =>
      have close : op = .saturatingDecrement .tcpActive ∧ ops = [.fetchAdd .tcpClosed 1] ∨
          op = .fetchAdd .tcpClosed 1 ∧ ops = [] := by
        simpa [Recording.ops, PortStats.recordTcpClose, List.suffix_cons_iff] using suffix
      exact .inr (.inr (close.imp_right .inl))
  | _ =>
      refine .inr (.inr (.inr (.inr fun op' member => ?_)))
      have inside := suffix.subset member
      simp only [Recording.ops, PortStats.addTcpBytes, PortStats.recordUdpFlowOpen,
        PortStats.recordUdpFlowClose, PortStats.addUdpIn, PortStats.addUdpOut,
        PortStats.recordUdpDrop, List.mem_cons, List.not_mem_nil, or_false] at inside
      obtain rfl | rfl := inside <;> rfl

/-! ### Snapshots -/

structure PortSnapshot where
  port : Nat
  tcpAccepted : Nat
  tcpActive : Nat
  tcpClosed : Nat
  udpActiveFlows : Nat
  tcpInBytes : Nat
  tcpOutBytes : Nat
  udpInBytes : Nat
  udpOutBytes : Nat
  udpDropped : Nat
  deriving DecidableEq, Repr

namespace PortSnapshot

/-- A snapshot before its first load. -/
def blank (port : Nat) : PortSnapshot := ⟨port, 0, 0, 0, 0, 0, 0, 0, 0, 0⟩

def get (snapshot : PortSnapshot) : Counter → Nat
  | .tcpAccepted => snapshot.tcpAccepted
  | .tcpActive => snapshot.tcpActive
  | .tcpClosed => snapshot.tcpClosed
  | .udpActiveFlows => snapshot.udpActiveFlows
  | .tcpInBytes => snapshot.tcpInBytes
  | .tcpOutBytes => snapshot.tcpOutBytes
  | .udpInBytes => snapshot.udpInBytes
  | .udpOutBytes => snapshot.udpOutBytes
  | .udpDropped => snapshot.udpDropped

def set (snapshot : PortSnapshot) (c : Counter) (value : Nat) : PortSnapshot :=
  match c with
  | .tcpAccepted => { snapshot with tcpAccepted := value }
  | .tcpActive => { snapshot with tcpActive := value }
  | .tcpClosed => { snapshot with tcpClosed := value }
  | .udpActiveFlows => { snapshot with udpActiveFlows := value }
  | .tcpInBytes => { snapshot with tcpInBytes := value }
  | .tcpOutBytes => { snapshot with tcpOutBytes := value }
  | .udpInBytes => { snapshot with udpInBytes := value }
  | .udpOutBytes => { snapshot with udpOutBytes := value }
  | .udpDropped => { snapshot with udpDropped := value }

@[simp] theorem get_set_self (snapshot : PortSnapshot) (c : Counter) (value : Nat) :
    (snapshot.set c value).get c = value := by
  cases c <;> rfl

theorem get_set_of_ne (snapshot : PortSnapshot) {c d : Counter} (value : Nat) (ne : d ≠ c) :
    (snapshot.set c value).get d = snapshot.get d := by
  cases c <;> cases d <;> first | rfl | exact absurd rfl ne

end PortSnapshot

/-- The order in which `PortStats::snapshot` loads the counters. -/
def PortStats.loadOrder : List Counter :=
  [.tcpAccepted, .tcpActive, .tcpClosed, .udpActiveFlows, .tcpInBytes, .tcpOutBytes, .udpInBytes,
    .udpOutBytes, .udpDropped]

theorem PortStats.mem_loadOrder (c : Counter) : c ∈ loadOrder := by
  cases c <;> decide

end RangePorter
