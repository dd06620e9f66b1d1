import RangePorter.Stats.Conservation

/-!
# A snapshot against itself

A snapshot loads the counters of a port one after the other, `tcp_accepted` first.
Connections that are accepted and closed after that load and before a later one are
missing from the first value and contained in the second. So a loaded gauge or a loaded
number of closes exceeds the loaded number of accepts, and by at most the accepts that
were recorded between the two loads.
-/

namespace RangePorter

open Interleaving

/-- Counters of connections that have been accepted before. -/
def Counter.afterAccept : Counter → Bool
  | tcpActive | tcpClosed => true
  | _ => false

theorem CounterOp.result_le (op : CounterOp) (current : Nat) :
    op.result current ≤ current + op.amount := by
  cases op with
  | fetchAdd c amount => exact Nat.mod_le ..
  | saturatingDecrement c => exact Nat.sub_le ..

namespace StatsRegistry

variable {listenPorts : List Nat} {target : String} {windowMinutes now : Nat}
  {registry registry' : StatsRegistry} {t t' : Task} {k : Choice} {new : List Task}
  {p q : Pool StatsRegistry Task} {i j n : Nat} {c : Counter} {as : List (Action Choice Env)}

/-! ### Accepts and closes -/

/-- An accept that has raised `tcp_accepted` and not yet `tcp_active`. -/
def midAccept (i : Nat) : Task → Nat
  | .recording port ops => if port = i ∧ ops = [.fetchAdd .tcpActive 1] then 1 else 0
  | _ => 0

/-- A close that has not yet raised `tcp_closed`. -/
def midClose (i : Nat) : Task → Nat
  | .recording port ops => if port = i ∧ .fetchAdd .tcpClosed 1 ∈ ops then 1 else 0
  | _ => 0

/-- The closes of a port that have begun. -/
def begunCloses (p : Pool StatsRegistry Task) (i : Nat) : Nat :=
  p.shared.recordedFor i .tcpClosed + weight (midClose i) p.threads

/-- A close begins, and the port has no finished accept left to which it could belong. -/
def premature (p : Pool StatsRegistry Task) : Action Choice Env → Bool
  | .env (.record port .tcpClose) =>
      (p.shared.port port).any fun i => p.shared.recordedFor i .tcpActive ≤ begunCloses p i
  | _ => false

/-- No counter, gauges included, exceeds what was added to it. -/
theorem load_le (reached : machine.Reachable (start listenPorts target windowMinutes now) p) :
    ∀ i s, p.shared.ports[i]? = some s → ∀ c, s.load c ≤ p.shared.recordedFor i c := by
  refine Program.reachable_induction
    (J := fun p => ∀ i s, p.shared.ports[i]? = some s → ∀ c, s.load c ≤ p.shared.recordedFor i c)
    reached ?_ ?_ ?_
  · intro i s found c
    obtain ⟨port, -, rfl⟩ := List.mem_map.mp (List.mem_of_getElem? found)
    simp
  · intro p j k t sh t' new _ before _ taken
    cases step_iff.mp taken with
    | @record port op ops =>
        intro i s found c
        simp only [record, List.getElem?_modify] at found
        obtain ⟨s', found', rfl⟩ := Option.map_eq_some_iff.mp found
        have le := before i s' found' c
        rw [recordedFor_record]
        by_cases same : port = i ∧ op.counter = c
        · obtain ⟨rfl, rfl⟩ := same
          have result := op.result_le (s'.load op.counter)
          simp only [if_true, PortStats.load_apply_self, and_self]
          omega
        · by_cases own : port = i
          · have other : c ≠ op.counter := fun equal => same ⟨own, equal.symm⟩
            simp only [own, if_true, PortStats.load_apply_of_ne _ other]
            omega
          · simp only [own, if_false, false_and]
            omega
    | _ => exact before
  · intro p e sh new _ before taken
    rw [env_registry taken]
    exact before

theorem mid_of_other (i port : Nat) {ops : List CounterOp}
    (other : ∀ op ∈ ops, op.counter.ofTcpConnection = false) :
    midAccept i (.recording port ops) = 0 ∧ midClose i (.recording port ops) = 0 := by
  constructor
  · apply if_neg
    rintro ⟨-, rfl⟩
    exact absurd (other _ (List.mem_singleton_self _)) (by simp [Counter.ofTcpConnection])
  · apply if_neg
    rintro ⟨-, member⟩
    exact absurd (other _ member) (by simp [Counter.ofTcpConnection])

/-- What one step does to the accepts and closes of a port. -/
theorem Step.accounts (taken : Step registry t k registry' t' new) (continues : t.Continues)
    (i : Nat) :
    (registry'.recordedFor i .tcpActive + midAccept i t' + registry.recordedFor i .tcpAccepted =
      registry.recordedFor i .tcpActive + midAccept i t + registry'.recordedFor i .tcpAccepted) ∧
    registry'.recordedFor i .tcpClosed + midClose i t' =
      registry.recordedFor i .tcpClosed + midClose i t ∧
    registry.recordedFor i .tcpActive ≤ registry'.recordedFor i .tcpActive := by
  cases taken with
  | @record port op ops =>
      obtain ⟨recording, suffix⟩ := continues _ _ rfl
      simp only [recordedFor_record]
      obtain ⟨rfl, rfl⟩ | ⟨rfl, rfl⟩ | ⟨rfl, rfl⟩ | ⟨rfl, rfl⟩ | other :=
        recording.suffix_cases suffix
      · simp [midAccept, midClose, CounterOp.amount]
        omega
      · simp [midAccept, midClose, CounterOp.amount]
      · simp [midAccept, midClose, CounterOp.amount]
      · simp [midAccept, midClose, CounterOp.amount]
      · have before := mid_of_other i port other
        have after := mid_of_other i port
          fun op' member => other op' (List.mem_cons_of_mem op member)
        have ne : ∀ c : Counter, c.ofTcpConnection = true → op.counter ≠ c := by
          rintro c of rfl
          rw [other op (List.mem_cons_self ..)] at of
          cases of
        have accepted := ne .tcpAccepted rfl
        have active := ne .tcpActive rfl
        have closed := ne .tcpClosed rfl
        simp [before, after, accepted, active, closed]
  | rollup =>
      exact RollupCaller.resume_cases ⟨rfl, rfl, Nat.le_refl _⟩ ⟨rfl, rfl, Nat.le_refl _⟩
  | _ => exact ⟨rfl, rfl, Nat.le_refl _⟩

/-- Every recorded accept has raised both counters, or is still to raise the second. -/
theorem accepted_eq (reached : machine.Reachable (start listenPorts target windowMinutes now) p)
    (i : Nat) : p.shared.recordedFor i .tcpActive + weight (midAccept i) p.threads =
      p.shared.recordedFor i .tcpAccepted := by
  have balance : InBalance (fun registry => registry.recordedFor i .tcpActive)
      (fun registry => registry.recordedFor i .tcpAccepted) (midAccept i) (fun _ => 0) p := by
    refine .of_reachable reached ?_ ?_ ?_
    · simp [InBalance, start, StatsRegistry.new, recordedFor, recordedOf, midAccept]
    · intro p j k t sh t' new reached _ found taken
      have step := step_iff.mp taken
      have accounts := step.accounts ((continues reached).get found) i
      rw [step.new_eq]
      simp only [weight_nil]
      omega
    · intro p e sh new _ taken
      obtain ⟨rfl, t, rfl, call⟩ := env_iff.mp taken
      have whole : midAccept i t = 0 := by
        cases call with
        | @record port recording k known =>
            apply if_neg
            rintro ⟨-, same⟩
            cases recording <;> cases same
        | _ => rfl
      simp [whole, Nat.add_comm]
  simpa [InBalance] using balance

theorem midClose_eq_zero {recording : Recording} (other : recording ≠ .tcpClose) (i port : Nat) :
    midClose i (.recording port recording.ops) = 0 := by
  apply if_neg
  rintro ⟨-, member⟩
  cases recording <;> simp_all [Recording.ops, PortStats.recordTcpAccept, PortStats.addTcpBytes,
    PortStats.recordUdpFlowOpen, PortStats.recordUdpFlowClose, PortStats.addUdpIn,
    PortStats.addUdpOut, PortStats.recordUdpDrop]

/-- At no port have the closes got ahead of the accepts. -/
def ClosesBehind (p : Pool StatsRegistry Task) : Prop :=
  ∀ i, begunCloses p i ≤ p.shared.recordedFor i .tcpActive

theorem ClosesBehind.call {t : Task} {e : Env} (behind : ClosesBehind p)
    (timely : premature p (.env e) = false) (call : Call p.shared e t) :
    ClosesBehind ⟨p.shared, p.threads ++ [t]⟩ := by
  intro i
  have within := behind i
  have added : begunCloses ⟨p.shared, p.threads ++ [t]⟩ i = begunCloses p i + midClose i t := by
    simp [begunCloses, Nat.add_assoc]
  rw [added]
  cases call with
  | @record port recording k known =>
      by_cases close : recording = .tcpClose
      · subst close
        have free : begunCloses p k < p.shared.recordedFor k .tcpActive := by
          simpa [premature, known] using timely
        by_cases own : k = i
        · subst own
          simp only [midClose]
          split <;> omega
        · simpa [midClose, own] using within
      · rw [midClose_eq_zero close]
        exact within
  | _ => exact within

theorem ClosesBehind.step
    (reached : machine.Reachable (start listenPorts target windowMinutes now) p)
    (behind : ClosesBehind p) {a : Action Choice Env} (timely : premature p a = false)
    (taken : machine.step p a = some q) : ClosesBehind q := by
  cases a with
  | thread j k =>
      obtain ⟨t, sh, t', new, found, own, rfl⟩ := Program.machine_thread_iff.mp taken
      have step := step_iff.mp own
      rw [step.new_eq]
      intro i
      have before : Bounded (fun registry => registry.recordedFor i .tcpClosed)
        (fun registry => registry.recordedFor i .tcpActive) (midClose i) p := behind i
      have accounts := step.accounts ((continues reached).get found) i
      refine before.thread found ?_
      simp only [weight_nil]
      omega
  | env e =>
      obtain ⟨sh, new, own, rfl⟩ := Program.machine_env_iff.mp taken
      obtain ⟨rfl, t, rfl, call⟩ := env_iff.mp own
      exact behind.call timely call

/-- Gauge and closes of a port stay below its accepts. -/
theorem load_le_accepted
    (reached : machine.Reachable (start listenPorts target windowMinutes now) p)
    (behind : ClosesBehind p) {s : PortStats} (found : p.shared.ports[i]? = some s)
    (after : c.afterAccept = true) : s.load c ≤ p.shared.recordedFor i .tcpAccepted := by
  have accepted := accepted_eq reached i
  have begun := behind i
  have loaded := load_le reached i s found c
  rw [begunCloses] at begun
  cases c with
  | tcpActive | tcpClosed => omega
  | _ => cases after

/-! ### The loads of one snapshot -/

/-- `tcp_accepted` is the first field of each port. -/
structure AcceptedFirst (pending : List (Nat × Counter)) : Prop where
  none_before : pending.Pairwise fun x y => x.1 = y.1 → y.2 ≠ .tcpAccepted
  all_after : ∀ i c, (i, .tcpAccepted) ∈ pending → (i, c) ∈ pending

theorem AcceptedFirst.load (registry : StatsRegistry) : AcceptedFirst registry.load.pending where
  none_before := by
    apply List.pairwise_flatMap.mpr
    constructor
    · intro i _
      simp [PortStats.loadOrder]
    · refine List.pairwise_lt_range.imp fun less x member y member' same => ?_
      obtain ⟨c, -, rfl⟩ := List.mem_map.mp member
      obtain ⟨d, -, rfl⟩ := List.mem_map.mp member'
      exact absurd same (Nat.ne_of_lt less)
  all_after := by
    intro i c member
    obtain ⟨k, inside, member'⟩ := List.mem_flatMap.mp member
    obtain ⟨d, -, same⟩ := List.mem_map.mp member'
    cases same
    exact List.mem_flatMap.mpr
      ⟨_, inside, List.mem_map.mpr ⟨c, PortStats.mem_loadOrder c, rfl⟩⟩

theorem AcceptedFirst.tail {x : Nat × Counter} {rest : List (Nat × Counter)}
    (first : AcceptedFirst (x :: rest)) : AcceptedFirst rest where
  none_before := first.none_before.of_cons
  all_after := by
    intro i c member
    obtain rfl | inside := List.mem_cons.mp (first.all_after i c (List.mem_cons_of_mem x member))
    · exact absurd rfl (List.rel_of_pairwise_cons first.none_before member rfl)
    · exact inside

/-- The task records an accept of port `i` while the snapshot of task `j` has loaded the
port's `tcp_accepted` and not yet its counter `c`. -/
def acceptsWithin (j i : Nat) (c : Counter) (p : Pool StatsRegistry Task) :
    Action Choice Env → Bool
  | .thread m .go =>
      match p.threads[m]?, p.threads[j]? with
      | some (.recording port (op :: _)), some (.snapshot loading) =>
          port = i && op.counter = .tcpAccepted && !loading.awaits i .tcpAccepted &&
            loading.awaits i c
      | _, _ => false
  | _ => false

/-- What the snapshot has loaded and is still to load. -/
def Task.view : Task → Option (List (Nat × Counter) × List PortSnapshot)
  | .snapshot loading => some (loading.pending, loading.snapshots)
  | .copied ports _ => some ([], ports)
  | .returned s => some ([], s.ports)
  | _ => none

/-- The loaded `tcp_accepted` of a port is short of its accepts by at most `n` as long as
`c` is still to be loaded, and then short of the loaded value of `c` by at most `n`. -/
structure ShortBy (registry : StatsRegistry) (i : Nat) (c : Counter) (n : Nat)
    (pending : List (Nat × Counter)) (snapshots : List PortSnapshot) : Prop where
  first : AcceptedFirst pending
  accepts : ∀ snapshot, snapshots[i]? = some snapshot → (i, .tcpAccepted) ∉ pending →
    (i, c) ∈ pending → registry.recordedFor i .tcpAccepted ≤ snapshot.get .tcpAccepted + n
  loaded : ∀ snapshot, snapshots[i]? = some snapshot → (i, c) ∉ pending →
    snapshot.get c ≤ snapshot.get .tcpAccepted + n

variable {pending rest : List (Nat × Counter)} {snapshots : List PortSnapshot}

theorem ShortBy.load (registry : StatsRegistry) (i : Nat) (c : Counter) (n : Nat) :
    ShortBy registry i c n registry.load.pending registry.load.snapshots := by
  have waits : ∀ snapshot, registry.load.snapshots[i]? = some snapshot → ∀ d,
      (i, d) ∈ registry.load.pending := by
    intro snapshot found d
    have bound := (List.getElem?_eq_some_iff.mp found).1
    exact mem_load registry (by simpa [StatsRegistry.load] using bound) d
  exact ⟨.load registry, fun snapshot found gone => absurd (waits snapshot found _) gone,
    fun snapshot found gone => absurd (waits snapshot found _) gone⟩

theorem ShortBy.mono (short : ShortBy registry i c n pending snapshots) (extra : Nat)
    (accepts : (i, .tcpAccepted) ∉ pending → (i, c) ∈ pending →
      registry'.recordedFor i .tcpAccepted ≤ registry.recordedFor i .tcpAccepted + extra) :
    ShortBy registry' i c (n + extra) pending snapshots where
  first := short.first
  accepts := by
    intro snapshot found gone waits
    have before := short.accepts snapshot found gone waits
    have grown := accepts gone waits
    omega
  loaded := by
    intro snapshot found gone
    have before := short.loaded snapshot found gone
    omega

theorem ShortBy.next {m : Nat} {d : Counter} {s : PortStats}
    (short : ShortBy registry i c n ((m, d) :: rest) snapshots) (after : c.afterAccept = true)
    (accepted : m = i → s.load .tcpAccepted = registry.recordedFor i .tcpAccepted)
    (below : m = i → s.load c ≤ registry.recordedFor i .tcpAccepted) :
    ShortBy registry i c n rest (snapshots.modify m fun snapshot => snapshot.set d (s.load d)) := by
  have ne : c ≠ .tcpAccepted := by
    rintro rfl
    cases after
  refine ⟨short.first.tail, ?_, ?_⟩
  · intro snapshot' found gone waits
    rw [List.getElem?_modify] at found
    obtain ⟨snapshot, found', rfl⟩ := Option.map_eq_some_iff.mp found
    by_cases own : (m, d) = (i, .tcpAccepted)
    · cases own
      simp [accepted rfl]
    · have before := short.accepts snapshot found'
        (fun member => (List.mem_cons.mp member).elim (fun same => own same.symm) gone)
        (List.mem_cons_of_mem _ waits)
      by_cases port : m = i
      · have other : Counter.tcpAccepted ≠ d := fun same => own (by rw [port, same])
        simpa [port, PortSnapshot.get_set_of_ne _ _ other] using before
      · simpa [port] using before
  · intro snapshot' found gone
    rw [List.getElem?_modify] at found
    obtain ⟨snapshot, found', rfl⟩ := Option.map_eq_some_iff.mp found
    by_cases own : (m, d) = (i, c)
    · -- The counter just loaded is below the accepts of this moment.
      cases own
      have gone' : (i, .tcpAccepted) ∉ (i, c) :: rest := by
        intro member
        obtain same | later := List.mem_cons.mp member
        · cases same
          exact ne rfl
        · exact List.rel_of_pairwise_cons short.first.none_before later rfl rfl
      have before := short.accepts snapshot found' gone' (List.mem_cons_self ..)
      have now := below rfl
      simp only [if_true, PortSnapshot.get_set_self, PortSnapshot.get_set_of_ne _ _ ne.symm]
      omega
    · have gone' : (i, c) ∉ (m, d) :: rest :=
        fun member => (List.mem_cons.mp member).elim (fun same => own same.symm) gone
      have before := short.loaded snapshot found' gone'
      by_cases port : m = i
      · have other : c ≠ d := fun same => own (by rw [port, same])
        have other' : Counter.tcpAccepted ≠ d := by
          rintro rfl
          subst port
          exact gone' (short.first.all_after m c (List.mem_cons_self ..))
        simpa [port, PortSnapshot.get_set_of_ne _ _ other, PortSnapshot.get_set_of_ne _ _ other']
          using before
      · simpa [port] using before

theorem amount_eq_one {recording : Recording} {op : CounterOp} {ops : List CounterOp}
    (suffix : op :: ops <:+ recording.ops) (accept : op.counter = .tcpAccepted) :
    op.amount = 1 := by
  obtain ⟨rfl, -⟩ | ⟨rfl, -⟩ | ⟨rfl, -⟩ | ⟨rfl, -⟩ | other := recording.suffix_cases suffix
  · rfl
  · rfl
  · cases accept
  · rfl
  · have of := other op (List.mem_cons_self ..)
    rw [accept] at of
    cases of

/-- An accept that a task records while a snapshot is between the two loads is counted. -/
theorem Step.accepts_le (taken : Step p.shared t k registry' t' new) (continues : t.Continues)
    {m : Nat} (found : p.threads[m]? = some t) {loading : Loading}
    (reading : p.threads[j]? = some (.snapshot loading))
    (gone : (i, .tcpAccepted) ∉ loading.pending) (waits : (i, c) ∈ loading.pending) :
    registry'.recordedFor i .tcpAccepted ≤
      p.shared.recordedFor i .tcpAccepted + (acceptsWithin j i c p (.thread m k)).toNat := by
  cases taken with
  | @record port op ops =>
      obtain ⟨recording, suffix⟩ := continues _ _ rfl
      rw [recordedFor_record]
      apply Nat.add_le_add_left
      by_cases accept : port = i ∧ op.counter = .tcpAccepted
      · obtain ⟨rfl, counter⟩ := accept
        have counted : acceptsWithin j port c p (.thread m .go) = true := by
          simp [acceptsWithin, found, reading, counter, Loading.awaits, gone, waits]
        simp [counted, counter, amount_eq_one suffix counter]
      · simp [accept]
  | _ => exact Nat.le_add_right ..

theorem view_resume (caller : RollupCaller) : caller.resume.view = none :=
  RollupCaller.resume_cases rfl rfl

/-- What a snapshot has loaded is short by no more than the accepts counted so far. -/
def ShortInPool (j i : Nat) (c : Counter) (n : Nat) (p : Pool StatsRegistry Task) : Prop :=
  p.shared.recordedFor i .tcpAccepted < u64Size → ∀ t pending snapshots,
    p.threads[j]? = some t → t.view = some (pending, snapshots) →
    ShortBy p.shared i c n pending snapshots

theorem ShortInPool.thread {m : Nat}
    (short : ShortInPool j i c n p) (after : c.afterAccept = true)
    (reached : machine.Reachable (start listenPorts target windowMinutes now) p)
    (behind : ClosesBehind p) (found : p.threads[m]? = some t)
    (taken : Step p.shared t k registry' t' new) :
    ShortInPool j i c (n + (acceptsWithin j i c p (.thread m k)).toNat)
      ⟨registry', p.threads.set m t' ++ new⟩ := by
  intro fits u pending snapshots found' view
  have fits' : p.shared.recordedFor i .tcpAccepted < u64Size :=
    (recordedOf_mono taken.recorded).trans_lt fits
  have before := short fits'
  have bound := (List.getElem?_eq_some_iff.mp found).1
  obtain ⟨rfl, rfl⟩ | ⟨-, old⟩ | ⟨-, none⟩ := lookup_thread bound found'
  · cases taken with
    | @snapshotLoad loading l d rest next pending' loaded =>
        cases view
        obtain ⟨s, here, rfl⟩ := Option.map_eq_some_iff.mp loaded
        have counts := counts reached l s here .tcpAccepted rfl
        have old := before _ _ _ found rfl
        rw [pending'] at old
        refine (old.next after ?_ ?_).mono _ fun _ _ => Nat.le_add_right ..
        · rintro rfl
          rw [counts]
          exact Nat.mod_eq_of_lt fits'
        · rintro rfl
          exact load_le_accepted reached behind here after
    | copy pending' =>
        cases view
        have old := before _ _ _ found rfl
        rw [pending'] at old
        exact old.mono _ fun _ _ => Nat.le_add_right ..
    | stamp =>
        cases view
        exact (before _ _ _ found rfl).mono _ fun _ _ => Nat.le_add_right ..
    | rollup =>
        rw [view_resume] at view
        cases view
    | _ => cases view
  · refine (before _ _ _ old view).mono _ fun gone waits => ?_
    cases u with
    | snapshot loading =>
        cases view
        exact taken.accepts_le ((continues reached).get found) found old gone waits
    | copied | returned =>
        cases view
        cases waits
    | _ => cases view
  · rw [taken.new_eq] at none
    cases none

theorem ShortInPool.call {e : Env} (short : ShortInPool j i c n p) (call : Call p.shared e t) :
    ShortInPool j i c n ⟨p.shared, p.threads ++ [t]⟩ := by
  intro fits u pending snapshots found view
  obtain old | ⟨-, member⟩ := lookup_env found
  · exact short fits u pending snapshots old view
  · rw [List.mem_singleton.mp member] at view
    cases call with
    | snapshot =>
        cases view
        exact .load ..
    | _ => cases view

theorem shortInPool (after : c.afterAccept = true)
    (orderly : machine.Along (fun p a => premature p a = false)
      (start listenPorts target windowMinutes now) as)
    (complete : machine.run (start listenPorts target windowMinutes now) as = some p) :
    ShortInPool j i c (machine.count (acceptsWithin j i c)
      (start listenPorts target windowMinutes now) as) p := by
  have all : machine.Reachable (start listenPorts target windowMinutes now) p ∧ ClosesBehind p ∧
      ShortInPool j i c (0 + machine.count (acceptsWithin j i c)
        (start listenPorts target windowMinutes now) as) p := by
    refine Machine.invariant_count (P := fun n p =>
      machine.Reachable (start listenPorts target windowMinutes now) p ∧ ClosesBehind p ∧
        ShortInPool j i c n p) ?_ ⟨.refl _, ?_, ?_⟩ orderly complete
    · rintro n p a q ⟨reached, behind, short⟩ timely taken
      refine ⟨reached.step taken, behind.step reached timely taken, ?_⟩
      cases a with
      | thread m k =>
          obtain ⟨t, sh, t', new, found, own, rfl⟩ := Program.machine_thread_iff.mp taken
          exact short.thread after reached behind found (step_iff.mp own)
      | env e =>
          obtain ⟨sh, new, own, rfl⟩ := Program.machine_env_iff.mp taken
          obtain ⟨rfl, t, rfl, call⟩ := env_iff.mp own
          exact short.call call
    · intro i
      simp [begunCloses, start, StatsRegistry.new, recordedFor, recordedOf, midClose]
    · intro _ t pending snapshots found view
      have first := List.mem_of_getElem? found
      rw [List.mem_singleton.mp first] at view
      cases view
  rw [Nat.zero_add] at all
  exact all.2.2

/-! ### Answers -/

/-- No value of the answer contradicts the number of accepts in it. -/
def Coherent (s : StatsSnapshot) : Prop :=
  (∀ snapshot ∈ s.ports, snapshot.tcpClosed ≤ snapshot.tcpAccepted ∧
    snapshot.tcpActive ≤ snapshot.tcpAccepted) ∧
  s.totals.tcpClosed ≤ s.totals.tcpAccepted ∧ s.totals.tcpActive ≤ s.totals.tcpAccepted

/-- A snapshot contradicts its accepts by at most those recorded between two of its loads. -/
theorem excess_le
    (orderly : machine.Along (fun p a => premature p a = false)
      (start listenPorts target windowMinutes now) as)
    (complete : machine.run (start listenPorts target windowMinutes now) as = some p)
    (fits : p.shared.trueSum .tcpAccepted < u64Size) {s : StatsSnapshot}
    (found : p.threads[j]? = some (.returned s)) (after : c.afterAccept = true) :
    (∀ i snapshot, s.ports[i]? = some snapshot → snapshot.get c ≤ snapshot.tcpAccepted +
      machine.count (acceptsWithin j i c) (start listenPorts target windowMinutes now) as) ∧
    s.totals.get c ≤ s.totals.tcpAccepted + ((List.range s.ports.length).map fun i =>
      machine.count (acceptsWithin j i c) (start listenPorts target windowMinutes now) as).sum := by
  have reached : machine.Reachable (start listenPorts target windowMinutes now) p := ⟨as, complete⟩
  have answers := (answers reached).get found
  obtain ⟨since, observed⟩ := answers.observed s.ports s.minuteBuckets rfl
  have ports : ∀ (i : Nat) snapshot, s.ports[i]? = some snapshot →
      snapshot.get c ≤ snapshot.get .tcpAccepted + machine.count (acceptsWithin j i c)
        (start listenPorts target windowMinutes now) as := by
    intro i snapshot here
    have bound : i < p.shared.ports.length :=
      observed.length_eq ▸ (List.getElem?_eq_some_iff.mp here).1
    have fits' : p.shared.recordedFor i .tcpAccepted < u64Size :=
      (recordedOf_le_total bound).trans_lt fits
    exact (shortInPool after orderly complete fits' _ _ _ found rfl).loaded snapshot here
      List.not_mem_nil
  refine ⟨ports, ?_⟩
  show s.totals.get c ≤ s.totals.get .tcpAccepted + _
  rw [answers.aggregated s rfl, get_aggregate_of_fits observed rfl fits, get_aggregate]
  exact (Nat.mod_le ..).trans (sum_map_le ports)

/-- A connection is accepted after the load of `tcp_accepted`, and closed before that of
`tcp_closed`. -/
def shortConnection : List (Action Choice Env) :=
  [.env .snapshot, .thread 1 .go, .env (.record 9000 .tcpAccept), .thread 2 .go, .thread 2 .go,
    .env (.record 9000 .tcpClose), .thread 3 .go, .thread 3 .go] ++
    List.replicate 9 (.thread 1 .go) ++ [.thread 1 (.clock 60)]

theorem shortConnection_accepted :
    (machine.run (start [9000] "localhost:53" 3 60) shortConnection).isSome := by decide

theorem shortConnection_orderly :
    machine.count premature (start [9000] "localhost:53" 3 60) shortConnection = 0 := by decide

/-- Of this connection the answer shows the close and not the accept. -/
def closeOnly : StatsSnapshot where
  target := "localhost:53"
  startedAtEpoch := 60
  generatedAtEpoch := 60
  windowMinutes := 3
  totals := { AggregateTotals.default with tcpClosed := 1 }
  ports := [{ PortSnapshot.blank 9000 with tcpClosed := 1 }]
  minuteBuckets := (BucketRing.new 3).snapshot

theorem shortConnection_answer :
    ((machine.run (start [9000] "localhost:53" 3 60) shortConnection).get
      shortConnection_accepted).threads[1]? = some (.returned closeOnly) := rfl

theorem excess_shortConnection :
    (∀ i snapshot, closeOnly.ports[i]? = some snapshot →
      snapshot.get .tcpClosed ≤ snapshot.tcpAccepted + machine.count (acceptsWithin 1 i .tcpClosed)
        (start [9000] "localhost:53" 3 60) shortConnection) ∧
    closeOnly.totals.get .tcpClosed ≤ closeOnly.totals.tcpAccepted +
      ((List.range closeOnly.ports.length).map fun i => machine.count
        (acceptsWithin 1 i .tcpClosed) (start [9000] "localhost:53" 3 60) shortConnection).sum :=
  excess_le ((Machine.count_eq_zero_iff (Option.some_get shortConnection_accepted).symm).mp
    shortConnection_orderly) (Option.some_get shortConnection_accepted).symm (by decide)
    shortConnection_answer rfl

theorem shortConnection_incoherent :
    ¬ ∀ as p, machine.run (start [9000] "localhost:53" 3 60) as = some p →
      machine.Along (fun p a => premature p a = false) (start [9000] "localhost:53" 3 60) as →
      ∀ (j : Nat) s, p.threads[j]? = some (.returned s) → Coherent s := by
  intro coherent
  have complete := (Option.some_get shortConnection_accepted).symm
  have answer := coherent shortConnection _ complete
    ((Machine.count_eq_zero_iff complete).mp shortConnection_orderly) 1 _ shortConnection_answer
  exact absurd answer.2.1 (by decide)

end StatsRegistry

end RangePorter
