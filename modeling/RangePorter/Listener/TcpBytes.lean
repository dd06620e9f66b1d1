import RangePorter.Listener.TcpAccounting

/-!
# The bytes of one connection

`copy_bidirectional` returns its two counts only when both directions have ended. A
connection that ends in any other way adds nothing to the byte counters, whatever it has
copied until then. `Ledger` compares what a connection has written with how far the
counters of its port have risen at its steps and what its updates have still to add.
-/

namespace RangePorter

/-- The connection has been recorded as closed. -/
def TcpProxy.Closed : TcpProxy → Prop
  | .record ops => ops = []
  | .finish | .finished => True
  | .connect | .copy .. => False

namespace RunningApp

open Interleaving

/-- Bytes to the target and bytes to the client. -/
abbrev Bytes := Nat × Nat

/-- What the task `j` writes to the target and to the client in this step. -/
def written (j : Nat) (_ : Pool RunningApp Task) : Action Choice Env → Bytes
  | .thread i (.copyIn bytes) => if i = j then (bytes, 0) else 0
  | .thread i (.copyOut bytes) => if i = j then (0, bytes) else 0
  | _ => 0

/-- By how much `tcp_in_bytes` and `tcp_out_bytes` of the connection's port rise, as `u64`s,
when its task `j` takes this step. -/
def risen (j : Nat) (p : Pool RunningApp Task) : Action Choice Env → Bytes
  | .thread i k =>
      if i = j then
        match p.threads[i]?, machine.step p (.thread i k) with
        | some (.connection port _), some q =>
            (wrappingSub (q.shared.counter port .tcpInBytes) (p.shared.counter port .tcpInBytes),
              wrappingSub (q.shared.counter port .tcpOutBytes) (p.shared.counter port .tcpOutBytes))
        | _, _ => 0
      else 0
  | .env _ => 0

/-- `copy_bidirectional` returns `Ok` in the task `j`. -/
def copies (j : Nat) (p : Pool RunningApp Task) : Action Choice Env → Bool
  | .thread i .go =>
      if i = j then
        match p.threads[i]? with
        | some (.connection _ (.copy _ _ true true)) => true
        | _ => false
      else false
  | _ => false

/-- What an update adds to `tcp_in_bytes` and `tcp_out_bytes`. -/
def added : CounterOp → Bytes
  | .fetchAdd .tcpInBytes bytes => (bytes % u64Size, 0)
  | .fetchAdd .tcpOutBytes bytes => (0, bytes % u64Size)
  | _ => 0

/-- What the next step of the task adds to them. -/
def Task.adds : Task → Bytes
  | .connection _ (.record (op :: _)) => added op
  | _ => 0

/-- Bytes as a `u64` counts them. -/
def wrapped (bytes : Bytes) : Bytes := (bytes.1 % u64Size, bytes.2 % u64Size)

/-- The updates `ops` are left of a connection that has written so much and at whose steps
the counters have risen so much, and whose copying has ended well so many times. -/
def Settles (written risen : Bytes) (ended : Nat) (ops : List CounterOp) : Prop :=
  ended = 0 ∧ risen + (ops.map added).sum = 0 ∨
    ended = 1 ∧ risen + (ops.map added).sum = wrapped written

def Ledger (written risen : Bytes) (ended : Nat) : TcpProxy → Prop
  | .connect => written = 0 ∧ risen = 0 ∧ ended = 0
  | .copy i o _ _ => written = (i, o) ∧ risen = 0 ∧ ended = 0
  | .record ops => Settles written risen ended ops
  | .finish | .finished => Settles written risen ended []

/-- Before it is spawned, and for a listener, there is nothing to compare. -/
def LedgerOf (written risen : Bytes) (ended : Nat) : Option Task → Prop
  | some (.connection _ next) => Ledger written risen ended next
  | _ => written = 0 ∧ risen = 0 ∧ ended = 0

variable {config : RuntimeConfig} {p : Pool RunningApp Task} {w r : Bytes} {n : Nat}

theorem added_recordTcpClose : (PortStats.recordTcpClose.map added).sum = 0 := rfl

theorem added_addTcpBytes (i o : Nat) :
    ((PortStats.addTcpBytes i o ++ PortStats.recordTcpClose).map added).sum = wrapped (i, o) := by
  simp [PortStats.addTcpBytes, PortStats.recordTcpClose, added, wrapped]

/-- A connection that is interrupted adds nothing. -/
theorem settles_interrupted (risen : r = 0) (ended : n = 0) :
    Settles w r n PortStats.recordTcpClose := by
  refine .inl ⟨ended, ?_⟩
  rw [risen, added_recordTcpClose, add_zero]

/-- A counter is a `u64`. -/
theorem counter_lt (reached : machine.Reachable (start config) p) (i : Nat) (c : Counter) :
    p.shared.counter i c < u64Size := by
  have result_lt : ∀ (op : CounterOp) {current : Nat}, current < u64Size →
      op.result current < u64Size := by
    intro op current small
    cases op with
    | fetchAdd => exact Nat.mod_lt _ u64Size_pos
    | saturatingDecrement => exact (Nat.sub_le ..).trans_lt small
  have update_lt : ∀ (app : RunningApp) port op, port < app.stats.length →
      app.counter i c < u64Size → (app.update port op).counter i c < u64Size := by
    intro app port op bound small
    rw [counter_update bound]
    split
    · exact result_lt op small
    · exact small
  refine Program.reachable_induction (J := fun p => p.shared.counter i c < u64Size) reached ?_ ?_ ?_
  · rw [counter_start]
    exact u64Size_pos
  · intro p j k t app t' new reached before found taken
    have own := (valid reached).get found
    cases step_iff.mp taken with
    | recordAccept | recordClose => exact update_lt _ _ _ own.counted before
    | _ => exact before
  · intro p e app new _ before taken
    obtain ⟨-, stats, -, -, -⟩ := env_frame taken
    simpa [counter, stats] using before

/-- At an update the counter rises by what is added, and at other steps not at all. -/
theorem risen_eq {app' : RunningApp} {t t' : Task} {k : Choice} {new : List Task} {j : Nat}
    (reached : machine.Reachable (start config) p) (found : p.threads[j]? = some t)
    (step : Step p.shared t k app' t' new) : risen j p (.thread j k) = t.adds := by
  have own : program.step p.shared t k = some (app', t', new) := step_iff.mpr step
  have taken : machine.step p (.thread j k) = some ⟨app', p.threads.set j t' ++ new⟩ :=
    Program.machine_thread_iff.mpr ⟨t, app', t', new, found, own, rfl⟩
  have valid := (valid reached).get found
  simp only [risen, if_pos, found, taken]
  cases step with
  | @recordClose port op ops =>
      obtain ⟨i, o, suffix⟩ := valid.recording
      have small := fun c => (counter_lt reached port c).le
      have bound : port < p.shared.stats.length := valid.counted
      obtain ⟨rfl, -⟩ | ⟨rfl, -⟩ | ⟨rfl, -⟩ | ⟨rfl, -⟩ := recordClose_cases suffix <;>
        simp [counter_update bound, Task.adds, added, wrappingSub_wrappingAdd (small _)]
  | dropPermit | finish => exact Prod.ext (wrappingSub_self _) (wrappingSub_self _)
  | _ => simp [Task.adds]

/-- By how much the byte counters of the port rise when one of its connections takes this
step. -/
def risenAt (i : Nat) (p : Pool RunningApp Task) : Action Choice Env → Bytes
  | .thread j k =>
      match p.threads[j]? with
      | some (.connection port _) => if port = i then risen j p (.thread j k) else 0
      | _ => 0
  | .env _ => 0

def byteCounters (app : RunningApp) (i : Nat) : Bytes :=
  (app.counter i .tcpInBytes, app.counter i .tcpOutBytes)

/-- Bytes are what a `u64` counts of them exactly if they fit. -/
theorem wrapped_eq_iff {bytes : Bytes} :
    wrapped bytes = bytes ↔ bytes.1 < u64Size ∧ bytes.2 < u64Size := by
  rw [wrapped, Prod.ext_iff, Nat.mod_eq_iff_lt u64Size_pos.ne', Nat.mod_eq_iff_lt u64Size_pos.ne']

/-- Nothing but the connections of a port changes its byte counters. -/
theorem byteCounters_step {q : Pool RunningApp Task} {a : Action Choice Env} (i : Nat)
    (reached : machine.Reachable (start config) p) (taken : machine.step p a = some q) :
    q.shared.byteCounters i = wrapped (p.shared.byteCounters i + risenAt i p a) := by
  have fits : wrapped (p.shared.byteCounters i) = p.shared.byteCounters i :=
    wrapped_eq_iff.mpr ⟨counter_lt reached i _, counter_lt reached i _⟩
  cases a with
  | env e =>
      obtain ⟨app, new, own, rfl⟩ := Program.machine_env_iff.mp taken
      obtain ⟨-, stats, -, -, -⟩ := env_frame own
      rw [show risenAt i p (.env e) = 0 from rfl, add_zero, fits]
      simp [byteCounters, counter, stats]
  | thread j k =>
      obtain ⟨t, app, t', new, found, own, rfl⟩ := Program.machine_thread_iff.mp taken
      have valid := (valid reached).get found
      have step := step_iff.mp own
      by_cases here : ∃ next, t = .connection i next
      · obtain ⟨next, rfl⟩ := here
        have reached' := reached.step taken
        have low := fun c => (counter_lt reached i c).le
        have small := fun c => counter_lt reached' i c
        simp only [risenAt, found, if_pos, risen, taken]
        exact (Prod.ext (wrappingAdd_wrappingSub (small _) (low _))
          (wrappingAdd_wrappingSub (small _) (low _))).symm
      · have none : risenAt i p (.thread j k) = 0 := by
          simp only [risenAt, found]
          split
          · next port next same =>
              cases same
              exact if_neg fun own => here ⟨next, by rw [own]⟩
          · rfl
        rw [none, add_zero, fits]
        cases step with
        | @recordAccept port op ops =>
            have bound : port < p.shared.stats.length := valid.counted
            obtain ⟨rfl, -⟩ | ⟨rfl, -⟩ := recordAccept_cases valid.recording <;>
              simp [byteCounters, counter_update bound]
        | @recordClose port op ops =>
            have bound : port < p.shared.stats.length := valid.counted
            have other : port ≠ i := fun same => here ⟨_, by rw [same]⟩
            simp [byteCounters, counter_update bound, other]
        | _ => rfl

/-- The byte counters of a port have risen at the steps of its connections and at no others. -/
theorem byteCounters_eq {as : List (Action Choice Env)} (i : Nat)
    (complete : machine.run (start config) as = some p) :
    p.shared.byteCounters i = wrapped (machine.total (risenAt i) (start config) as) := by
  have both : machine.Reachable (start config) p ∧
      p.shared.byteCounters i = wrapped (0 + machine.total (risenAt i) (start config) as) := by
    refine Machine.invariant_total (P := fun b p =>
      machine.Reachable (start config) p ∧ p.shared.byteCounters i = wrapped b) ?_
      ⟨.refl _, ?_⟩ complete
    · rintro b p a q ⟨reached, before⟩ taken
      refine ⟨reached.step taken, ?_⟩
      rw [byteCounters_step i reached taken, before]
      simp [wrapped]
    · simp [byteCounters, counter_start, wrapped]
  rw [both.2, zero_add]

/-- What the steps of a thread contribute shows in its own ledger. -/
theorem Step.ledger {app' : RunningApp} {t t' : Task} {k : Choice} {new : List Task} {j : Nat}
    (found : p.threads[j]? = some t) (taken : Step p.shared t k app' t' new)
    (ledger : LedgerOf w r n (some t)) :
    LedgerOf (w + written j p (.thread j k)) (r + t.adds) (n + (copies j p (.thread j k)).toNat)
      (some t') := by
  cases taken with
  | copyIn =>
      obtain ⟨rfl, rfl, rfl⟩ := ledger
      simp [LedgerOf, Ledger, written, Task.adds, copies]
  | copyOut =>
      obtain ⟨rfl, rfl, rfl⟩ := ledger
      simp [LedgerOf, Ledger, written, Task.adds, copies]
  | copied =>
      obtain ⟨rfl, rfl, rfl⟩ := ledger
      simp [LedgerOf, Ledger, Settles, written, Task.adds, copies, found, added_addTcpBytes,
        -List.map_append]
  | connectInterrupted branch =>
      obtain ⟨rfl, rfl, rfl⟩ := ledger
      obtain rfl | ⟨rfl, -⟩ := branch <;>
        simpa [LedgerOf, Ledger, written, Task.adds, copies, found] using
          settles_interrupted rfl rfl
  | copyInterrupted branch =>
      obtain ⟨rfl, rfl, rfl⟩ := ledger
      obtain rfl | ⟨rfl, -⟩ := branch <;>
        simpa [LedgerOf, Ledger, written, Task.adds, copies, found] using
          settles_interrupted rfl rfl
  | recordClose =>
      simpa [LedgerOf, Ledger, Settles, written, Task.adds, copies, found, add_assoc] using ledger
  | connect =>
      obtain ⟨rfl, rfl, rfl⟩ := ledger
      refine ⟨rfl, ?_, ?_⟩ <;> simp [Task.adds, copies, found]
  | _ => simpa [LedgerOf, Ledger, written, Task.adds, copies, found] using ledger

/-- The steps of all others leave it alone. -/
theorem contributes_own {j : Nat} {a : Action Choice Env} (other : ∀ k, a ≠ .thread j k) :
    written j p a = 0 ∧ risen j p a = 0 ∧ copies j p a = false := by
  cases a with
  | env e => exact ⟨rfl, rfl, rfl⟩
  | thread i k =>
      have ne : i ≠ j := by
        rintro rfl
        exact other k rfl
      cases k <;> simp [written, risen, copies, ne]

/-- The ledger of a connection in every run. -/
theorem ledger_run {as : List (Action Choice Env)} (j : Nat)
    (complete : machine.run (start config) as = some p) :
    LedgerOf (machine.total (written j) (start config) as)
      (machine.total (risen j) (start config) as) (machine.count (copies j) (start config) as)
      p.threads[j]? := by
  have ledger := Machine.invariant_total (M := machine) (β := Bytes × Bytes × Nat)
    (f := fun p a => (written j p a, risen j p a, (copies j p a).toNat))
    (P := fun x p => machine.Reachable (start config) p ∧ LedgerOf x.1 x.2.1 x.2.2 p.threads[j]?)
    (b := 0) ?_ ⟨.refl _, ?_⟩ complete
  · rw [zero_add, Machine.total_prodMk (written j), Machine.total_prodMk (risen j),
      ← Machine.count_eq_total] at ledger
    exact ledger.2
  · rintro ⟨w, r, n⟩ p a q ⟨reached, before⟩ taken
    refine ⟨reached.step taken, ?_⟩
    cases a with
    | env e =>
        obtain ⟨app, new, own, rfl⟩ := Program.machine_env_iff.mp taken
        obtain ⟨-, -, -, -, rfl⟩ := env_frame own
        rw [List.append_nil]
        exact before
    | thread i k =>
        obtain ⟨t, app, t', new, found, own, rfl⟩ := Program.machine_thread_iff.mp taken
        have step := step_iff.mp own
        have bound := (List.getElem?_eq_some_iff.mp found).1
        by_cases same : i = j
        · subst same
          simp only [lookup_self bound, risen_eq reached found step]
          exact step.ledger found (found ▸ before)
        · obtain ⟨none, none', none''⟩ := contributes_own (p := p) (a := .thread i k) (j := j)
            (by rintro k' ⟨⟩; exact same rfl)
          simp only [none, none', none'', add_zero, Bool.toNat_false, Prod.mk_add_mk]
          refine lookup_frame (P := LedgerOf w r n) bound (Ne.symm same) before ?_
          intro fresh u spawned
          rw [fresh] at before
          cases step with
          | spawn =>
              rw [List.mem_singleton.mp spawned]
              exact before
          | _ => cases spawned
  · have idle : ∀ t ∈ (start config).threads, LedgerOf 0 0 0 (some t) := by
      intro t member
      obtain ⟨port, -, rfl⟩ := List.mem_map.mp member
      exact ⟨rfl, rfl, rfl⟩
    cases found : (start config).threads[j]? with
    | none => exact ⟨rfl, rfl, rfl⟩
    | some t => exact idle t (List.mem_of_getElem? found)

/-- When a connection has been recorded as closed, the byte counters of its port have risen at
its steps by the bytes written exactly if nothing was written, or the copying has ended well
and the bytes fit into the counters. -/
theorem risen_eq_written_iff {as : List (Action Choice Env)} {j port : Nat} {next : TcpProxy}
    (complete : machine.run (start config) as = some p)
    (found : p.threads[j]? = some (.connection port next)) (closed : next.Closed) :
    machine.total (risen j) (start config) as = machine.total (written j) (start config) as ↔
      machine.total (written j) (start config) as = 0 ∨
        0 < machine.count (copies j) (start config) as ∧
          (machine.total (written j) (start config) as).1 < u64Size ∧
          (machine.total (written j) (start config) as).2 < u64Size := by
  have ledger := ledger_run j complete
  rw [found] at ledger
  have settled : Settles (machine.total (written j) (start config) as)
      (machine.total (risen j) (start config) as)
      (machine.count (copies j) (start config) as) [] := by
    cases next with
    | record ops => exact closed ▸ ledger
    | finish | finished => exact ledger
    | connect | copy => cases closed
  simp only [Settles, List.map_nil, List.sum_nil, add_zero] at settled
  obtain ⟨failed, none⟩ | ⟨ended, all⟩ := settled
  · rw [none, failed, eq_comm]
    simp
  · rw [all, ended, wrapped_eq_iff]
    constructor
    · exact fun fits => .inr ⟨Nat.one_pos, fits⟩
    · rintro (none | ⟨-, fits⟩)
      · rw [none]
        exact ⟨u64Size_pos, u64Size_pos⟩
      · exact fits

theorem oneConnection_finished :
    ((machine.run (start twoPorts) oneConnection).get oneConnection_accepted).threads[2]? =
      some (.connection 0 .finished) := by decide

theorem oneConnection_bytes :
    machine.total (risen 2) (start twoPorts) oneConnection =
        machine.total (written 2) (start twoPorts) oneConnection ↔
      machine.total (written 2) (start twoPorts) oneConnection = 0 ∨
        0 < machine.count (copies 2) (start twoPorts) oneConnection ∧
          (machine.total (written 2) (start twoPorts) oneConnection).1 < u64Size ∧
          (machine.total (written 2) (start twoPorts) oneConnection).2 < u64Size :=
  risen_eq_written_iff (Option.some_get oneConnection_accepted).symm oneConnection_finished trivial

/-- A connection that fails after five bytes were written to the target. -/
def brokenConnection : List (Action Choice Env) :=
  List.replicate 5 (.thread 0 .go) ++ [.thread 2 .go, .thread 2 (.copyIn 5), .thread 2 .fail] ++
    List.replicate 4 (.thread 2 .go)

theorem brokenConnection_accepted :
    (machine.run (start twoPorts) brokenConnection).isSome := by decide

/-- The five bytes are not counted. -/
theorem brokenConnection_uncounted :
    ¬ ∀ as p j port next, machine.run (start twoPorts) as = some p →
      p.threads[j]? = some (.connection port next) → next.Closed →
      machine.total (risen j) (start twoPorts) as =
        machine.total (written j) (start twoPorts) as := by
  intro counted
  exact absurd (counted brokenConnection _ 2 0 .finished
    (Option.some_get brokenConnection_accepted).symm (by decide) trivial) (by decide)

end RunningApp

end RangePorter
