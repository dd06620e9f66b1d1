import RangePorter.Target.Dynamic

/-!
# Safety of the target cache

The flag and the refreshes are tied by one equation: the flag is set exactly while a
refresh is in progress (`inflight_eq`). A refresh is therefore the only writer of the
cache for as long as it lasts, and the old address that a failed one has read is still
the current one when it is written back (`Holds`).
-/

namespace RangePorter.DynamicTarget

open Interleaving

variable {raw host : String} {port : BitVec 16} {lookup : Except String LookupIp} {now : Instant}
  {target target' : DynamicTarget} {t t' : Task} {k : Choice} {new : List Task}
  {p q : Pool DynamicTarget Task} {i : Nat}

/-! ### The flag -/

/-- A refresh is in progress from its spawn to its final store. -/
def refreshing : Task → Nat
  | .refresh .finished => 0
  | .refresh _ => 1
  | .current _ => 0

/-- The flag is set exactly while one refresh is in progress. -/
theorem inflight_eq (idle : target.refreshInflight = false)
    (reached : machine.Reachable (start target) p) :
    p.shared.refreshInflight.toNat = weight refreshing p.threads := by
  have balance : InBalance (fun target => target.refreshInflight.toNat) (fun _ => 0)
      (fun _ => 0) refreshing p := by
    refine .of_reachable reached ?_ ?_ ?_
    · simp [InBalance, start, idle]
    · intro p i k t sh t' new _ before found taken
      have counted := le_weight refreshing found
      simp only [InBalance, weight_zero] at before
      cases step_iff.mp taken with
      | spawn idle => simp [refreshing, idle]
      | store =>
          -- The refresh that ends was counted, so the flag is set.
          have set : p.shared.refreshInflight.toNat ≤ 1 := Bool.toNat_le _
          simp only [refreshing] at counted
          simp [refreshing]
          omega
      | @write next outcome => cases outcome <;> simp [refreshing]
      | _ => simp [refreshing]
    · intro p e sh new _ taken
      cases e with
      | current =>
          cases taken
          simp [refreshing]
      | advance =>
          cases taken
          simp
  simpa [InBalance] using balance

theorem refreshing_le_one (idle : target.refreshInflight = false)
    (reached : machine.Reachable (start target) p) : weight refreshing p.threads ≤ 1 := by
  rw [← inflight_eq idle reached]
  exact Bool.toNat_le _

/-! ### The cache -/

/-- The cache holds the address of the latest successful lookup. -/
structure Latest (target : DynamicTarget) : Prop where
  current : target.answers.getLast? = some target.current.addr
  ports : ∀ addr ∈ target.answers, addr.port = target.port

/-- The address was the latest one when the caller read the cache. -/
def Seen (target : DynamicTarget) (addr : SocketAddr) (seen : Nat) : Prop :=
  (target.answers.take seen).getLast? = some addr ∧ seen ≤ target.answers.length

/-- What a task may rely on in between its steps. -/
def Holds (target : DynamicTarget) : Task → Prop
  | .current .read => True
  | .current (.compare resolved seen) => target.Seen resolved.addr seen
  | .current (.exchange resolved seen) => target.Seen resolved.addr seen
  | .current (.returned addr seen) => target.Seen addr seen
  | .refresh .lookup => True
  | .refresh (.stale failed) => failed ≤ target.clock
  | .refresh (.backOff failed addr) => addr = target.current.addr ∧ failed ≤ target.clock
  | .refresh (.write next .answered) => next.addr.port = target.port
  | .refresh (.write next (.failed time)) => next.addr = target.current.addr ∧
      ∃ now, time ≤ now ∧ now ≤ target.clock ∧ next.validUntil = now + dnsFailureRefresh
  | .refresh .store => True
  | .refresh .finished => True

theorem Seen.mono {addr : SocketAddr} {seen : Nat} (before : target.Seen addr seen)
    (grows : target.answers <+: target'.answers) : target'.Seen addr seen := by
  obtain ⟨rest, answers⟩ := grows
  refine ⟨?_, ?_⟩
  · rw [← answers, List.take_append_of_le_length before.2]
    exact before.1
  · rw [← answers, List.length_append]
    exact Nat.le_trans before.2 (Nat.le_add_right ..)

/-- The task relies on the address in the cache: a refresh whose lookup has failed and
which has read the old address. -/
def reliesOnCurrent : Task → Bool
  | .refresh (.backOff ..) | .refresh (.write _ (.failed _)) => true
  | _ => false

/-- What a task relies on survives if answers are only added and time only advances,
and if the address in the cache stays as it is for those who rely on it. -/
theorem Holds.mono (before : target.Holds t) (grows : target.answers <+: target'.answers)
    (clock : target.clock ≤ target'.clock) (port : target'.port = target.port)
    (same : reliesOnCurrent t = true → target'.current.addr = target.current.addr) :
    target'.Holds t := by
  cases t with
  | current next =>
      cases next with
      | read => trivial
      | compare => exact Seen.mono before grows
      | exchange => exact Seen.mono before grows
      | returned => exact Seen.mono before grows
  | refresh next =>
      cases next with
      | stale => exact Nat.le_trans before clock
      | backOff failed addr =>
          exact ⟨before.1.trans (same rfl).symm, Nat.le_trans before.2 clock⟩
      | write next outcome =>
          cases outcome with
          | answered => exact Eq.trans before port.symm
          | failed time =>
              obtain ⟨addr, now, low, high, deadline⟩ := before
              exact ⟨addr.trans (same rfl).symm, now, low, Nat.le_trans high clock, deadline⟩
      | lookup | store | finished => trivial

theorem refreshing_of_relies (relies : reliesOnCurrent t = true) : 0 < refreshing t := by
  cases t with
  | current => cases relies
  | refresh next =>
      cases next with
      | backOff | write => exact Nat.one_pos
      | _ => cases relies

theorem Latest.seen (latest : target.Latest) :
    target.Seen target.current.addr target.answers.length :=
  ⟨by rw [List.take_length, latest.current], Nat.le_refl _⟩

theorem resolveOnce_port {resolved : Resolved} {ttl : Duration}
    (success : resolveOnce host port lookup now = .ok (resolved, ttl)) :
    resolved.addr.port = port := by
  obtain ⟨⟨answer, ip, rest, -, -, addr⟩, -⟩ := resolveOnce_ok success
  rw [addr, SocketAddr.port_new]

/-- The only step that changes the address is the write of a successful refresh. -/
theorem Step.addr_eq (taken : Step target t k target' t' new) (holds : target.Holds t) :
    target'.current.addr = target.current.addr ∨ ∃ next, t = .refresh (.write next .answered) := by
  cases taken with
  | @write next outcome =>
      cases outcome with
      | answered => exact .inr ⟨next, rfl⟩
      | failed => exact .inl holds.1
  | _ => exact .inl rfl

theorem Step.frame (taken : Step target t k target' t' new) :
    target.answers <+: target'.answers ∧ target'.clock = target.clock ∧
      target'.port = target.port := by
  cases taken with
  | @write next outcome =>
      cases outcome with
      | answered => exact ⟨List.prefix_append .., rfl, rfl⟩
      | failed => exact ⟨List.prefix_rfl, rfl, rfl⟩
  | _ => exact ⟨List.prefix_rfl, rfl, rfl⟩

theorem Step.latest (taken : Step target t k target' t' new) (latest : target.Latest)
    (holds : target.Holds t) : target'.Latest := by
  cases taken with
  | @write next outcome =>
      cases outcome with
      | answered =>
          refine ⟨by simp, ?_⟩
          intro addr member
          obtain old | same := List.mem_append.mp member
          · exact latest.ports addr old
          · rw [List.mem_singleton.mp same]
            exact holds
      | failed => exact ⟨latest.current.trans (congrArg some holds.1.symm), latest.ports⟩
  | _ => exact ⟨latest.current, latest.ports⟩

theorem Step.holds (taken : Step target t k target' t' new) (latest : target.Latest)
    (holds : target.Holds t) : target'.Holds t' := by
  cases taken with
  | read => exact latest.seen
  | expired | valid | refused | spawn => exact holds
  | answered success => exact resolveOnce_port success
  | failed => exact Nat.le_refl _
  | stale => exact ⟨rfl, holds⟩
  | backOff => exact ⟨holds.1, _, holds.2, Nat.le_refl _, rfl⟩
  | write => trivial
  | store => trivial

/-- In every reachable state the cache is up to date and every task may rely on what it
has read. -/
theorem holds (idle : target.refreshInflight = false) (latest : target.Latest)
    (reached : machine.Reachable (start target) p) :
    p.shared.Latest ∧ AllThreads Holds p := by
  refine Program.reachable_induction (J := fun p => p.shared.Latest ∧ AllThreads Holds p) reached
    ⟨latest, fun t member => absurd member List.not_mem_nil⟩ ?_ ?_
  · rintro p i k t sh t' new reached ⟨latest, all⟩ found taken
    have step := step_iff.mp taken
    have own := all.get found
    obtain ⟨grows, clock, port⟩ := step.frame
    refine ⟨step.latest latest own, all.thread (step.holds latest own) ?_ ?_⟩
    · cases step with
      | spawn =>
          intro u member
          rw [List.mem_singleton.mp member]
          trivial
      | _ => exact fun _ member => absurd member List.not_mem_nil
    · intro u member before
      refine before.mono grows (Nat.le_of_eq clock.symm) port ?_
      intro relies
      obtain same | ⟨next, rfl⟩ := step.addr_eq own
      · exact same
      · -- The writer is the only refresh in progress, and it relies on nothing.
        obtain ⟨j, found'⟩ := List.mem_iff_getElem?.mp member
        have index := index_unique_of_weight_le_one (refreshing_le_one idle reached) found found'
          Nat.one_pos (refreshing_of_relies relies)
        subst index
        rw [found, Option.some.injEq] at found'
        subst found'
        cases relies
  · rintro p e sh new reached ⟨latest, all⟩ taken
    cases e with
    | current =>
        cases taken
        refine ⟨latest, all.env ?_ fun _ _ before => before⟩
        intro u member
        rw [List.mem_singleton.mp member]
        trivial
    | advance =>
        cases taken
        refine ⟨⟨latest.current, latest.ports⟩, all.env ?_ ?_⟩
        · exact fun _ member => absurd member List.not_mem_nil
        · exact fun u _ before =>
            before.mono List.prefix_rfl (Nat.le_add_right ..) rfl fun _ => rfl

/-! ### Callers and refreshes -/

theorem thread_step (found : p.threads[i]? = some t)
    (taken : machine.step p (.thread i k) = some q) :
    ∃ t' new, Step p.shared t k q.shared t' new ∧ q.threads = p.threads.set i t' ++ new := by
  obtain ⟨u, sh, t', new, found', own, rfl⟩ := Program.machine_thread_iff.mp taken
  rw [found, Option.some.injEq] at found'
  subst found'
  exact ⟨t', new, step_iff.mp own, rfl⟩

theorem Latest.of_bind (bound : bind raw host port lookup now = .ok target) :
    target.Latest ∧ target.refreshInflight = false := by
  cases resolving : resolveOnce host port lookup now with
  | error => simp [bind, resolving] at bound
  | ok pair =>
      obtain ⟨resolved, ttl⟩ := pair
      simp only [bind, resolving, Except.ok.injEq] at bound
      subst bound
      refine ⟨⟨rfl, ?_⟩, rfl⟩
      intro addr member
      rw [List.mem_singleton.mp member]
      exact resolveOnce_port resolving

/-- What a caller remembers of its reading: the address, and how many answers there were. -/
def Task.remembers : Task → Option (SocketAddr × Nat)
  | .current (.compare resolved seen) | .current (.exchange resolved seen) =>
      some (resolved.addr, seen)
  | .current (.returned addr seen) => some (addr, seen)
  | _ => none

theorem Step.remembers (taken : Step target t k target' t' new) {x : SocketAddr × Nat}
    (before : t.remembers = some x) : t'.remembers = some x := by
  cases taken with
  | expired | valid | refused | spawn => exact before
  | _ => cases before

/-- A caller returns the address that was in the cache when it read it, and the count it
carries is the number of answers that had been written then. -/
theorem returned_read {r : Pool DynamicTarget Task} {as : List (Action Choice Env)}
    {addr : SocketAddr} {seen : Nat} (found : p.threads[i]? = some (.current .read))
    (taken : machine.step p (.thread i .go) = some q) (complete : machine.run q as = some r)
    (returned : r.threads[i]? = some (.current (.returned addr seen))) :
    addr = p.shared.current.addr ∧ seen = p.shared.answers.length := by
  have remembered : ∃ t, r.threads[i]? = some t ∧
      t.remembers = some (p.shared.current.addr, p.shared.answers.length) := by
    refine Machine.invariant_run (P := fun q : Pool DynamicTarget Task => ∃ t,
      q.threads[i]? = some t ∧ t.remembers = some (p.shared.current.addr,
        p.shared.answers.length)) ?_ ?_ complete
    · rintro q a r ⟨t, there, remembers⟩ taken
      cases a with
      | env e =>
          obtain ⟨sh, new, -, rfl⟩ := Program.machine_env_iff.mp taken
          exact ⟨t, lookup_append there, remembers⟩
      | thread j k =>
          obtain ⟨u, sh, u', new, found, own, rfl⟩ := Program.machine_thread_iff.mp taken
          by_cases same : i = j
          · subst same
            cases found.symm.trans there
            exact ⟨u', lookup_self (List.getElem?_eq_some_iff.mp found).1,
              (step_iff.mp own).remembers remembers⟩
          · exact ⟨t, lookup_other there same, remembers⟩
    · obtain ⟨t, sh, t', new, there, own, rfl⟩ := Program.machine_thread_iff.mp taken
      cases found.symm.trans there
      refine ⟨t', lookup_self (List.getElem?_eq_some_iff.mp found).1, ?_⟩
      cases own
      rfl
  obtain ⟨t, there, remembers⟩ := remembered
  cases returned.symm.trans there
  exact Prod.mk.inj (Option.some.inj remembers)

/-- A refresh fails and gives the old address another thirty seconds. -/
def failedRefresh : List (Action Choice Env) :=
  [.env (.advance (.fromSecs 5)), .env .current, .thread 0 .go, .thread 0 .go, .thread 0 .go,
    .thread 1 (.answer (.error "timed out")), .thread 1 .go, .thread 1 .go, .thread 1 .go,
    .thread 1 .go]

/-- A target bound to the address 10.0.0.1 for the shortest time. -/
def boundTarget : DynamicTarget :=
  ⟨"example.com:9000", "example.com", 9000, ⟨.v4 0x0a000001 9000, 5000000000⟩, false, 0,
    [.v4 0x0a000001 9000]⟩

theorem bind_boundTarget :
    bind "example.com:9000" "example.com" 9000 (.ok ⟨0, [.v4 0x0a000001]⟩) 0 = .ok boundTarget :=
  rfl

end RangePorter.DynamicTarget
