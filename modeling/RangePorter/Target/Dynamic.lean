import RangePorter.Interleaving.Pool
import RangePorter.Net

/-!
# Targets that are looked up by name

`DynamicTarget` caches one resolved address. A caller of `current` takes whatever is in
the cache; if the entry it took has expired, it tries to start a refresh. The flag
`refresh_inflight` admits one refresh at a time. A failed refresh reads the old address
under one lock and writes it back under another, with a new deadline.

The resolver is not part of the model: every answer it may give is a choice. Errors
are chains of messages, the outermost first.

`DynamicTarget.answers`, and the counts and times that tasks carry for it, are no part
of the program.
-/

namespace RangePorter

open Interleaving

/-- Nanoseconds on the monotonic clock. -/
abbrev Instant := Nat

/-- The messages of an `anyhow` error. -/
abbrev ErrorChain := List String

structure Resolved where
  addr : SocketAddr
  validUntil : Instant
  deriving DecidableEq, Repr

/-- What a successful `lookup_ip` returns. -/
structure LookupIp where
  validUntil : Instant
  addrs : List IpAddr
  deriving DecidableEq, Repr

def dnsPositiveMinTtl : Duration := .fromSecs 5
def dnsPositiveMaxTtl : Duration := .fromSecs 600
def dnsFailureRefresh : Duration := .fromSecs 30

/-- `Duration::clamp`. -/
def Duration.clamp (d low high : Duration) : Duration := max low (min d high)

/-- One lookup that ends at time `now`, with the time the entry is kept for. -/
def resolveOnce (host : String) (port : BitVec 16) (lookup : Except String LookupIp)
    (now : Instant) : Except ErrorChain (Resolved × Duration) :=
  match lookup with
  | .error cause => .error [s!"DNS lookup for `{host}` failed", cause]
  | .ok lookup =>
      match lookup.addrs with
      | [] => .error [s!"DNS lookup for `{host}` returned no records"]
      | addr :: _ =>
          let rawTtl := lookup.validUntil - now
          let clampedTtl := Duration.clamp rawTtl dnsPositiveMinTtl dnsPositiveMaxTtl
          .ok (⟨.new addr port, now + clampedTtl⟩, clampedTtl)

/-- A resolved entry has the first address, the port asked for and a bounded lifetime. -/
theorem resolveOnce_ok {host : String} {port : BitVec 16} {lookup : Except String LookupIp}
    {now : Instant} {resolved : Resolved} {ttl : Duration}
    (success : resolveOnce host port lookup now = .ok (resolved, ttl)) :
    (∃ answer ip rest, lookup = .ok answer ∧ answer.addrs = ip :: rest ∧
      resolved.addr = .new ip port) ∧
    resolved.validUntil = now + ttl ∧ dnsPositiveMinTtl ≤ ttl ∧ ttl ≤ dnsPositiveMaxTtl := by
  cases lookup with
  | error => cases success
  | ok answer =>
      cases addrs : answer.addrs with
      | nil => simp [resolveOnce, addrs] at success
      | cons ip rest =>
          simp only [resolveOnce, addrs, Except.ok.injEq, Prod.mk.injEq] at success
          obtain ⟨rfl, rfl⟩ := success
          refine ⟨⟨answer, ip, rest, rfl, addrs, rfl⟩, rfl, Nat.le_max_left .., ?_⟩
          exact Nat.max_le.mpr ⟨by decide, Nat.min_le_right ..⟩

structure DynamicTarget where
  raw : String
  host : String
  port : BitVec 16
  current : Resolved
  refreshInflight : Bool
  clock : Instant
  /-- The addresses of all successful lookups written to the cache, the initial one first. -/
  answers : List SocketAddr
  deriving DecidableEq, Repr

/-- How the lookup of a refresh ended; a failure carries its time. -/
inductive Outcome where
  | answered
  | failed (time : Instant)
  deriving DecidableEq, Repr

/-- The next step of `current`. A caller remembers how many answers had been written
when it read the cache. -/
inductive Current where
  | read
  | compare (resolved : Resolved) (seen : Nat)
  | exchange (resolved : Resolved) (seen : Nat)
  | returned (addr : SocketAddr) (seen : Nat)
  deriving DecidableEq, Repr

/-- The next step of a refresh. -/
inductive Refresh where
  | lookup
  /-- The lookup has failed: read the old address, and then the clock. -/
  | stale (failed : Instant)
  | backOff (failed : Instant) (addr : SocketAddr)
  | write (next : Resolved) (outcome : Outcome)
  | store
  | finished
  deriving DecidableEq, Repr

namespace DynamicTarget

inductive Task where
  | current (next : Current)
  | refresh (next : Refresh)
  deriving DecidableEq, Repr

inductive Choice where
  | go
  /-- The lookup ends like this. -/
  | answer (lookup : Except String LookupIp)

inductive Env where
  | current
  | advance (d : Duration)
  deriving DecidableEq, Repr

/-- `TargetAddr::bind` once it has a host name and its port: look it up, or fail. -/
def bind (raw host : String) (port : BitVec 16) (lookup : Except String LookupIp)
    (now : Instant) : Except ErrorChain DynamicTarget :=
  match resolveOnce host port lookup now with
  | .error error => .error (s!"failed to resolve target host `{host}`" :: error)
  | .ok (resolved, _) =>
      .ok ⟨raw, host, port, resolved, false, now, [resolved.addr]⟩

/-! ### Single operations -/

@[simp] def exchange (target : DynamicTarget) : DynamicTarget :=
  { target with refreshInflight := true }

@[simp] def write (target : DynamicTarget) (next : Resolved) : Outcome → DynamicTarget
  | .answered => { target with current := next, answers := target.answers ++ [next.addr] }
  | .failed _ => { target with current := next }

@[simp] def store (target : DynamicTarget) : DynamicTarget :=
  { target with refreshInflight := false }

/-! ### Steps -/

/-- One atomic step. A successful exchange spawns the refresh at once: nothing shared is
touched in between. -/
def step (target : DynamicTarget) : Task → Choice → Option (DynamicTarget × Task × List Task)
  | .current .read, .go =>
      some (target, .current (.compare target.current target.answers.length), [])
  | .current (.compare resolved seen), .go =>
      if resolved.validUntil ≤ target.clock then
        some (target, .current (.exchange resolved seen), [])
      else some (target, .current (.returned resolved.addr seen), [])
  | .current (.exchange resolved seen), .go =>
      if target.refreshInflight then
        some (target, .current (.returned resolved.addr seen), [])
      else
        some (target.exchange, .current (.returned resolved.addr seen), [.refresh .lookup])
  | .refresh .lookup, .answer lookup =>
      match resolveOnce target.host target.port lookup target.clock with
      | .ok (resolved, _) => some (target, .refresh (.write resolved .answered), [])
      | .error _ => some (target, .refresh (.stale target.clock), [])
  | .refresh (.stale failed), .go =>
      some (target, .refresh (.backOff failed target.current.addr), [])
  | .refresh (.backOff failed addr), .go =>
      some (target, .refresh (.write ⟨addr, target.clock + dnsFailureRefresh⟩ (.failed failed)), [])
  | .refresh (.write next outcome), .go =>
      some (target.write next outcome, .refresh .store, [])
  | .refresh .store, .go => some (target.store, .refresh .finished, [])
  | _, _ => none

/-- Callers come at any time, and the clock may advance at any time. -/
def env (target : DynamicTarget) : Env → Option (DynamicTarget × List Task)
  | .current => some (target, [.current .read])
  | .advance d => some ({ target with clock := target.clock + d }, [])

def program : Program DynamicTarget Task Choice Env := ⟨step, env⟩

/-- All interleavings of callers and refreshes of one target. -/
def machine : Machine (Pool DynamicTarget Task) (Action Choice Env) := program.machine

/-- The target right after `bind`. -/
def start (target : DynamicTarget) : Pool DynamicTarget Task := ⟨target, []⟩

/-! ### What one step can do -/

inductive Step (target : DynamicTarget) :
    Task → Choice → DynamicTarget → Task → List Task → Prop where
  | read :
      Step target (.current .read) .go target
        (.current (.compare target.current target.answers.length)) []
  | expired {resolved seen} (late : resolved.validUntil ≤ target.clock) :
      Step target (.current (.compare resolved seen)) .go target
        (.current (.exchange resolved seen)) []
  | valid {resolved seen} (early : target.clock < resolved.validUntil) :
      Step target (.current (.compare resolved seen)) .go target
        (.current (.returned resolved.addr seen)) []
  | refused {resolved seen} (inflight : target.refreshInflight = true) :
      Step target (.current (.exchange resolved seen)) .go target
        (.current (.returned resolved.addr seen)) []
  | spawn {resolved seen} (idle : target.refreshInflight = false) :
      Step target (.current (.exchange resolved seen)) .go target.exchange
        (.current (.returned resolved.addr seen)) [.refresh .lookup]
  | answered {lookup resolved ttl}
      (success : resolveOnce target.host target.port lookup target.clock = .ok (resolved, ttl)) :
      Step target (.refresh .lookup) (.answer lookup) target
        (.refresh (.write resolved .answered)) []
  | failed {lookup error}
      (failure : resolveOnce target.host target.port lookup target.clock = .error error) :
      Step target (.refresh .lookup) (.answer lookup) target
        (.refresh (.stale target.clock)) []
  | stale {failed} :
      Step target (.refresh (.stale failed)) .go target
        (.refresh (.backOff failed target.current.addr)) []
  | backOff {failed addr} :
      Step target (.refresh (.backOff failed addr)) .go target
        (.refresh (.write ⟨addr, target.clock + dnsFailureRefresh⟩ (.failed failed))) []
  | write {next outcome} :
      Step target (.refresh (.write next outcome)) .go (target.write next outcome)
        (.refresh .store) []
  | store : Step target (.refresh .store) .go target.store (.refresh .finished) []

variable {target target' : DynamicTarget} {t t' : Task} {k : Choice} {new : List Task}

theorem Step.of_step (taken : target.step t k = some (target', t', new)) :
    Step target t k target' t' new := by
  unfold step at taken
  split at taken
  case h_2 =>
      split at taken
      case isTrue late =>
          cases taken
          exact .expired late
      case isFalse early =>
          cases taken
          exact .valid (Nat.not_le.mp early)
  case h_3 =>
      split at taken
      case isTrue inflight =>
          cases taken
          exact .refused inflight
      case isFalse idle =>
          cases taken
          exact .spawn (Bool.eq_false_iff.mpr idle)
  case h_4 =>
      split at taken
      case h_1 success =>
          cases taken
          exact .answered success
      case h_2 failure =>
          cases taken
          exact .failed failure
  all_goals
    cases taken
    try constructor

theorem Step.to_step (taken : Step target t k target' t' new) :
    target.step t k = some (target', t', new) := by
  cases taken with
  | expired late => simp [step, late]
  | valid early => simp [step, Nat.not_le.mpr early]
  | refused inflight => simp [step, inflight]
  | spawn idle => simp [step, idle]
  | answered success => simp [step, success]
  | failed failure => simp [step, failure]
  | _ => rfl

theorem step_iff : target.step t k = some (target', t', new) ↔ Step target t k target' t' new :=
  ⟨.of_step, Step.to_step⟩

end DynamicTarget

end RangePorter
