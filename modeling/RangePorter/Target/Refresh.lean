import RangePorter.Interleaving.Watch
import RangePorter.Target.CacheSafety

/-!
# When refreshes start

A caller compares the clock with a copy of the cache entry, and starts a refresh later, if
the flag is clear then. In between another caller's refresh may run from its start to its
store; it clears the flag behind itself, and its new entry is the one the late caller then
has refreshed (`lateCaller`). As long as no refresh writes between a caller's reading of the
cache and its exchange, every refresh starts for an entry that has expired.
-/

namespace RangePorter.DynamicTarget

open Interleaving

variable {raw host : String} {port : BitVec 16} {lookup : Except String LookupIp} {now : Instant}
  {target : DynamicTarget} {p q : Pool DynamicTarget Task} {a : Action Choice Env}
  {as : List (Action Choice Env)}

/-! ### Starts and writes -/

/-- The copy of the caller whose `compare_exchange` succeeds in this step. -/
def exchanged (p : Pool DynamicTarget Task) : Action Choice Env → Option Resolved
  | .thread i .go =>
      match p.threads[i]? with
      | some (.current (.exchange resolved _)) =>
          if p.shared.refreshInflight then none else some resolved
      | _ => none
  | _ => none

/-- The step spawns a refresh. -/
def spawns (p : Pool DynamicTarget Task) (a : Action Choice Env) : Bool := (exchanged p a).isSome

/-- The step replaces the entry in the cache. -/
def writes (p : Pool DynamicTarget Task) : Action Choice Env → Bool
  | .thread i .go =>
      match p.threads[i]? with
      | some (.refresh (.write _ _)) => true
      | _ => false
  | _ => false

/-- Which callers have read the cache since it was last written. -/
def noteReads (fresh : Nat → Bool) (p : Pool DynamicTarget Task) : Action Choice Env → Nat → Bool
  | .thread i .go, j =>
      match p.threads[i]? with
      | some (.current .read) => if i = j then true else fresh j
      | some (.refresh (.write _ _)) => false
      | _ => fresh j
  | _, j => fresh j

/-- All interleavings, with a watcher who notes the readings. -/
def watched : Machine (Pool DynamicTarget Task × (Nat → Bool)) (Action Choice Env) :=
  machine.watch noteReads

/-- The target right after `bind`, before any caller has read the cache. -/
def watchedStart (target : DynamicTarget) : Pool DynamicTarget Task × (Nat → Bool) :=
  (start target, fun _ => false)

/-- A caller's `compare_exchange` succeeds, and since the caller has read the cache a refresh
has written it. -/
def overtaken (x : Pool DynamicTarget Task × (Nat → Bool)) : Action Choice Env → Bool
  | .thread i k => spawns x.1 (.thread i k) && !x.2 i
  | .env _ => false

theorem exchanged_eq_some {resolved : Resolved} (succeeds : exchanged p a = some resolved) :
    ∃ (i : Nat) (seen : Nat), a = .thread i .go ∧
      p.threads[i]? = some (.current (.exchange resolved seen)) ∧
      p.shared.refreshInflight = false := by
  unfold exchanged at succeeds
  split at succeeds
  case h_1 i =>
      split at succeeds
      case h_1 copy seen found =>
          split at succeeds
          case isTrue => cases succeeds
          case isFalse idle =>
              cases succeeds
              exact ⟨i, seen, rfl, found, Bool.eq_false_iff.mpr idle⟩
      case h_2 => cases succeeds
  case h_2 => cases succeeds

/-- What a caller has found expired stays expired. -/
def FoundExpired (target : DynamicTarget) : Task → Prop
  | .current (.exchange resolved _) => resolved.validUntil ≤ target.clock
  | _ => True

theorem FoundExpired.mono {target' : DynamicTarget} {t : Task} (before : target.FoundExpired t)
    (clock : target.clock ≤ target'.clock) : target'.FoundExpired t := by
  cases t with
  | current next =>
      cases next with
      | exchange => exact Nat.le_trans before clock
      | _ => trivial
  | refresh => trivial

theorem foundExpired (reached : machine.Reachable (start target) p) :
    AllThreads FoundExpired p := by
  refine .of_reachable reached (fun t member => absurd member List.not_mem_nil) ?_ ?_
  · intro p i k t sh t' new _ before found taken
    have step := step_iff.mp taken
    obtain ⟨-, clock, -⟩ := step.frame
    refine ⟨?_, ?_, fun u _ before => before.mono clock.ge⟩
    · cases step with
      | expired late => exact late
      | _ => trivial
    · cases step with
      | spawn =>
          intro u member
          rw [List.mem_singleton.mp member]
          trivial
      | _ => exact fun _ member => absurd member List.not_mem_nil
  · intro p e sh new _ taken
    cases e with
    | current =>
        cases taken
        refine ⟨?_, fun u _ before => before⟩
        intro u member
        rw [List.mem_singleton.mp member]
        trivial
    | advance =>
        cases taken
        exact ⟨fun _ member => absurd member List.not_mem_nil,
          fun u _ before => before.mono (Nat.le_add_right ..)⟩

/-- The copy that a caller has of the cache entry. -/
def Task.copy : Task → Option Resolved
  | .current (.compare resolved _) | .current (.exchange resolved _) => some resolved
  | _ => none

/-- Callers that have read the cache since it was last written have a copy of its entry. -/
def Current (x : Pool DynamicTarget Task × (Nat → Bool)) : Prop :=
  ∀ i : Nat, x.2 i = true → ∀ t, x.1.threads[i]? = some t → ∀ resolved, t.copy = some resolved →
    resolved = x.1.shared.current

/-- A step copies the entry of the cache, writes the cache, or leaves both alone. -/
theorem Step.copy {target' : DynamicTarget} {t t' : Task} {k : Choice} {new : List Task}
    (taken : Step target t k target' t' new) :
    t = .current .read ∧ k = .go ∧ target' = target ∧ t'.copy = some target.current ∨
      (∃ next outcome, t = .refresh (.write next outcome)) ∧ k = .go ∨
      t ≠ .current .read ∧ (∀ next outcome, t ≠ .refresh (.write next outcome)) ∧
        target'.current = target.current ∧
        ∀ resolved, t'.copy = some resolved → t.copy = some resolved := by
  cases taken with
  | read => exact .inl ⟨rfl, rfl, rfl, rfl⟩
  | write => exact .inr (.inl ⟨⟨_, _, rfl⟩, rfl⟩)
  | _ => exact .inr (.inr ⟨nofun, nofun, rfl, by simp [Task.copy]⟩)

theorem Step.copy_new {target' : DynamicTarget} {t t' : Task} {k : Choice} {new : List Task}
    (taken : Step target t k target' t' new) : ∀ u ∈ new, u.copy = none := by
  cases taken with
  | spawn =>
      intro u member
      rw [List.mem_singleton.mp member]
      rfl
  | _ => exact fun _ member => absurd member List.not_mem_nil

theorem Current.step {x y : Pool DynamicTarget Task × (Nat → Bool)} (before : Current x)
    (taken : watched.step x a = some y) : Current y := by
  obtain ⟨taken, noted⟩ := Machine.watch_step_iff.mp taken
  intro j fresh u there resolved copied
  rw [noted] at fresh
  cases a with
  | env e =>
      obtain ⟨sh, new, own, pool⟩ := Program.machine_env_iff.mp taken
      rw [pool] at there ⊢
      have kept : sh.current = x.1.shared.current := by cases e <;> cases own <;> rfl
      obtain old | ⟨-, member⟩ := lookup_env there
      · exact (before j fresh u old resolved copied).trans kept.symm
      · cases e with
        | current =>
            cases own
            rw [List.mem_singleton.mp member] at copied
            cases copied
        | advance =>
            cases own
            cases member
  | thread i k =>
      obtain ⟨t, sh, t', new, found, own, pool⟩ := Program.machine_thread_iff.mp taken
      rw [pool] at there ⊢
      have step := step_iff.mp own
      have bound := (List.getElem?_eq_some_iff.mp found).1
      obtain ⟨rfl, rfl, rfl, copy⟩ | ⟨⟨next, outcome, rfl⟩, rfl⟩ | ⟨reads, writes, kept, copy⟩ :=
        step.copy
      · simp only [noteReads, found] at fresh
        obtain ⟨rfl, rfl⟩ | ⟨other, old⟩ | ⟨-, member⟩ := lookup_thread bound there
        · exact Option.some.inj (copied.symm.trans copy)
        · rw [if_neg other.symm] at fresh
          exact before j fresh u old resolved copied
        · rw [step.copy_new u member] at copied
          cases copied
      · simp only [noteReads, found] at fresh
        cases fresh
      · have same : noteReads x.2 x.1 (.thread i k) j = x.2 j := by
          cases k with
          | answer => rfl
          | go =>
              simp only [noteReads, found]
              split
              · next same => exact absurd (Option.some.inj same) reads
              · next same => exact absurd (Option.some.inj same) (writes _ _)
              · rfl
        rw [same] at fresh
        obtain ⟨rfl, rfl⟩ | ⟨other, old⟩ | ⟨-, member⟩ := lookup_thread bound there
        · exact (before j fresh t found resolved (copy resolved copied)).trans kept.symm
        · exact (before j fresh u old resolved copied).trans kept.symm
        · rw [step.copy_new u member] at copied
          cases copied

/-- A caller that is not overtaken has the entry refreshed that it has found expired. -/
theorem expired_of_not_overtaken {x : Pool DynamicTarget Task × (Nat → Bool)}
    (reached : watched.Reachable (watchedStart target) x) (kept : overtaken x a = false)
    (starts : spawns x.1 a = true) : x.1.shared.current.validUntil ≤ x.1.shared.clock := by
  have copies : Current x := by
    refine reached.invariant (P := Current) ?_ fun _ _ _ _ before taken => before.step taken
    exact fun _ fresh => Bool.noConfusion fresh
  obtain ⟨resolved, succeeds⟩ := Option.isSome_iff_exists.mp starts
  obtain ⟨i, seen, rfl, found, -⟩ := exchanged_eq_some succeeds
  have fresh : x.2 i = true := by simpa [overtaken, starts] using kept
  have late : resolved.validUntil ≤ x.1.shared.clock := (foundExpired reached.of_watch).get found
  rwa [copies i fresh _ found resolved rfl] at late

/-! ### Runs -/

/-- A run starts refreshes for expired entries only. -/
structure RefreshesExpired (target : DynamicTarget) (as : List (Action Choice Env)) : Prop where
  /-- Whenever a `compare_exchange` succeeds, the entry then in the cache has expired. -/
  expired : machine.Along
    (fun p a => spawns p a = true → p.shared.current.validUntil ≤ p.shared.clock) (start target) as
  /-- Between two starts the entry has been replaced. -/
  replaced : ∀ before a during b after p q, as = before ++ a :: (during ++ b :: after) →
    machine.run (start target) before = some p → machine.run p (a :: during) = some q →
    spawns p a = true → spawns q b = true → 0 < machine.count writes p (a :: during)
  /-- While the entry of a failed refresh is in the cache, no refresh starts before the time
  to back off is over. -/
  backsOff : ∀ before i next time during b after p q r,
    as = before ++ .thread i .go :: (during ++ b :: after) →
    machine.run (start target) before = some p →
    p.threads[i]? = some (.refresh (.write next (.failed time))) →
    machine.step p (.thread i .go) = some q → machine.run q during = some r →
    r.shared.current = q.shared.current → spawns r b = true →
    time + dnsFailureRefresh ≤ r.shared.clock

/-- A refresh is in progress, and none has written its entry yet. -/
def Unwritten (p : Pool DynamicTarget Task) : Prop :=
  p.shared.refreshInflight = true ∧ AllThreads (fun _ t => t ≠ .refresh .store) p

/-- It takes a write to get to the store that clears the flag. -/
theorem Unwritten.step (unwritten : Unwritten p) (taken : machine.step p a = some q)
    (other : writes p a = false) : Unwritten q := by
  obtain ⟨inflight, none⟩ := unwritten
  cases a with
  | env e =>
      obtain ⟨sh, new, own, rfl⟩ := Program.machine_env_iff.mp taken
      cases e with
      | current =>
          cases own
          refine ⟨inflight, none.env ?_ fun _ _ before => before⟩
          intro u member
          rw [List.mem_singleton.mp member]
          rintro ⟨⟩
      | advance =>
          cases own
          exact ⟨inflight, none.env (fun _ member => absurd member List.not_mem_nil)
            fun _ _ before => before⟩
  | thread i k =>
      obtain ⟨t, sh, t', new, found, own, rfl⟩ := Program.machine_thread_iff.mp taken
      have step := step_iff.mp own
      have here : t ≠ .refresh .store := none.get found
      have flag : sh.refreshInflight = true ∧ t' ≠ .refresh .store ∧
          ∀ u ∈ new, u ≠ .refresh .store := by
        cases step with
        | spawn idle =>
            rw [idle] at inflight
            cases inflight
        | store => exact absurd rfl here
        | write => simp [writes, found] at other
        | _ => simp [inflight]
      exact ⟨flag.1, none.thread flag.2.1 flag.2.2 fun _ _ before => before⟩

theorem unwritten_of_spawns (idle : target.refreshInflight = false)
    (reached : machine.Reachable (start target) p) (succeeds : spawns p a = true)
    (taken : machine.step p a = some q) : Unwritten q := by
  obtain ⟨resolved, exchange⟩ := Option.isSome_iff_exists.mp succeeds
  obtain ⟨i, seen, rfl, found, clear⟩ := exchanged_eq_some exchange
  have count := inflight_eq idle reached
  rw [clear, Bool.toNat_false] at count
  have none : AllThreads (fun _ t => t ≠ .refresh .store) p := by
    rintro t member rfl
    have weightless := weight_eq_zero_iff.mp count.symm _ member
    cases weightless
  obtain ⟨t', new, step, threads⟩ := thread_step found taken
  obtain ⟨sh, ts⟩ := q
  cases threads
  cases step with
  | refused inflight =>
      rw [clear] at inflight
      cases inflight
  | spawn =>
      refine ⟨rfl, none.thread ?_ ?_ fun _ _ before => before⟩
      · rintro ⟨⟩
      · intro u member
        rw [List.mem_singleton.mp member]
        rintro ⟨⟩

/-- Between two starts the refresh of the first one has replaced the entry. -/
theorem writes_between (idle : target.refreshInflight = false)
    (reached : machine.Reachable (start target) p) {b : Action Choice Env}
    (complete : machine.run p (a :: as) = some q) (first : spawns p a = true)
    (second : spawns q b = true) : 0 < machine.count writes p (a :: as) := by
  rw [Nat.pos_iff_ne_zero, ne_eq, Machine.count_eq_zero_iff complete]
  rintro ⟨-, others⟩
  obtain ⟨r, taken, rest⟩ := Machine.run_cons_iff.mp complete
  have unwritten : Unwritten q :=
    Machine.invariant_along (fun p a q before other taken => before.step taken other)
      (unwritten_of_spawns idle reached first taken) (others r taken) rest
  obtain ⟨resolved, exchange⟩ := Option.isSome_iff_exists.mp second
  obtain ⟨-, -, -, -, clear⟩ := exchanged_eq_some exchange
  rw [unwritten.1] at clear
  cases clear

/-- A failed refresh leaves an entry behind that lives for the time to back off. -/
theorem validUntil_of_failed (bound : bind raw host port lookup now = .ok target)
    (reached : machine.Reachable (start target) p) {i : Nat} {next : Resolved} {time : Instant}
    (found : p.threads[i]? = some (.refresh (.write next (.failed time))))
    (taken : machine.step p (.thread i .go) = some q) :
    time + dnsFailureRefresh ≤ q.shared.current.validUntil := by
  obtain ⟨initial, idle⟩ := Latest.of_bind bound
  obtain ⟨latest, all⟩ := holds idle initial reached
  obtain ⟨-, now, low, -, deadline⟩ := all.get found
  obtain ⟨t', new, step, -⟩ := thread_step found taken
  generalize q.shared = after at step ⊢
  cases step with
  | write =>
      show time + dnsFailureRefresh ≤ next.validUntil
      rw [deadline]
      exact Nat.add_le_add_right low _

/-- If no refresh writes between a caller's reading of the cache and its exchange, refreshes
start for expired entries only, with all that follows from it. -/
theorem refreshesExpired (bound : bind raw host port lookup now = .ok target)
    (orderly : watched.Along (fun x a => overtaken x a = false) (watchedStart target) as) :
    RefreshesExpired target as := by
  obtain ⟨-, idle⟩ := Latest.of_bind bound
  have fresh : watched.Along
      (fun x a => spawns x.1 a = true → x.1.shared.current.validUntil ≤ x.1.shared.clock)
      (watchedStart target) as :=
    orderly.of_reachable (fun x a => expired_of_not_overtaken) (.refl _)
  have expired : machine.Along
      (fun p a => spawns p a = true → p.shared.current.validUntil ≤ p.shared.clock)
      (start target) as := Machine.along_of_watch fresh
  constructor
  case expired => exact expired
  case replaced =>
      rintro before a during b after p q - first rest spawned spawned'
      exact writes_between idle ⟨before, first⟩ rest spawned spawned'
  case backsOff =>
      rintro before i next time during b after p q r rfl first found taken rest same spawned
      have split : before ++ .thread i .go :: (during ++ b :: after) =
          (before ++ .thread i .go :: during) ++ b :: after := by simp
      rw [split] at expired
      have complete : machine.run (start target) (before ++ .thread i .go :: during) = some r :=
        Machine.run_trans first (Machine.run_cons_iff.mpr ⟨q, taken, rest⟩)
      calc
        time + dnsFailureRefresh ≤ q.shared.current.validUntil :=
          validUntil_of_failed bound ⟨before, first⟩ found taken
        _ = r.shared.current.validUntil := by rw [same]
        _ ≤ r.shared.clock := expired.at_step complete spawned

/-- Two callers find the entry expired. The refresh of the first one fails and is over when
the second one comes to its exchange. -/
def lateCaller : List (Action Choice Env) :=
  [.env (.advance (.fromSecs 5)), .env .current, .env .current, .thread 0 .go, .thread 0 .go,
    .thread 1 .go, .thread 1 .go, .thread 0 .go, .thread 2 (.answer (.error "timed out")),
    .thread 2 .go, .thread 2 .go, .thread 2 .go, .thread 2 .go]

theorem lateCaller_accepted : (machine.run (start boundTarget) lateCaller).isSome := by
  decide

/-- The second caller starts a refresh while the entry has thirty seconds to live. -/
theorem lateCaller_refreshes : ¬ RefreshesExpired boundTarget (lateCaller ++ [.thread 1 .go]) := by
  intro refreshes
  have early := refreshes.expired.at_step (Option.some_get lateCaller_accepted).symm
  exact absurd (early (by decide)) (by decide)

theorem failedRefresh_watched :
    (watched.run (watchedStart boundTarget) failedRefresh).isSome := by decide

theorem refreshesExpired_failedRefresh : RefreshesExpired boundTarget failedRefresh :=
  refreshesExpired bind_boundTarget
    ((Machine.count_eq_zero_iff (Option.some_get failedRefresh_watched).symm).mp (by decide))

end RangePorter.DynamicTarget
