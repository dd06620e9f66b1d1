import RangePorter.Net.RoundTrip
import RangePorter.Target.CacheSafety
import RangePorter.Target.HostPort

/-!
# Binding a target

`TargetAddr::bind` reads the text twice: `split_host_port` looks for the host and the
port, and the parser of socket addresses decides whether the resolver is needed at all.
Where both accept the text they agree on the port (`splitHostPort_spells`), so the port in
the text is the port of every address that the target hands out later.

What the resolvers answer is a parameter.
-/

namespace RangePorter

open Text Interleaving

def SocketAddr.ip : SocketAddr → IpAddr
  | .v4 ip _ => .v4 ip
  | .v6 ip _ _ _ => .v6 ip

/-- What `lookup_ip` answers to the first lookup of a host. -/
abbrev Resolver := String → Except String LookupIp

/-- The resolvers: one for a given name server, and the one that the system configures. -/
structure Dns where
  configured : IpAddr → BitVec 16 → Resolver
  system : Except ErrorChain Resolver

structure StaticTarget where
  raw : Str
  addr : SocketAddr
  deriving DecidableEq, Repr

inductive TargetAddr where
  | static (target : StaticTarget)
  | dynamic (target : DynamicTarget)
  deriving DecidableEq, Repr

namespace TargetAddr

def buildResolver (dns : Dns) : Option SocketAddr → Except ErrorChain Resolver
  | some addr => .ok (dns.configured addr.ip addr.port)
  | none =>
      match dns.system with
      | .ok resolver => .ok resolver
      | .error cause => .error ("failed to initialize system DNS resolver" :: cause)

/-- `none` stands for a panic. -/
def bind (dns : Dns) (raw : Str) (dnsServer : Option SocketAddr) (now : Instant) :
    Option (Except ErrorChain TargetAddr) := do
  match ← splitHostPort raw with
  | .error message => some (.error [message])
  | .ok (host, port) =>
      match SocketAddr.parse raw with
      | some addr => some (.ok (.static ⟨raw, addr⟩))
      | none =>
          match buildResolver dns dnsServer with
          | .error cause => some (.error cause)
          | .ok resolver =>
              let host := String.ofList host
              some ((DynamicTarget.bind (String.ofList raw) host port (resolver host) now).map
                .dynamic)

def display : TargetAddr → Str
  | .static target => target.raw
  | .dynamic target => target.raw.toList

/-- The address may be returned by `current` at some time after `bind`, whatever callers and
refreshes do in between. -/
def Returns : TargetAddr → SocketAddr → Prop
  | .static target, addr => addr = target.addr
  | .dynamic target, addr => ∃ p seen,
      DynamicTarget.machine.Reachable (DynamicTarget.start target) p ∧
        .current (.returned addr seen) ∈ p.threads

variable {dns : Dns} {raw text : Str} {dnsServer : Option SocketAddr} {now : Instant}
  {addr : SocketAddr} {port : BitVec 16} {target : TargetAddr}

/-! ### Two readings of one text -/

theorem parsePort_spellsPort (isPort : SocketAddr.SpellsPort text port) :
    parsePort text raw = if port = 0 then .error (invalidTarget raw "port must be non-zero")
      else .ok port := by
  obtain ⟨n, isNumber, rfl⟩ := isPort
  rw [parsePort, isNumber.parseUnsigned]

theorem map_parsePort_spellsPort {host : Str} (isPort : SocketAddr.SpellsPort text port) :
    (parsePort text raw).map (fun port => (host, port)) =
      if port = 0 then .error (invalidTarget raw "port must be non-zero")
      else .ok (host, port) := by
  rw [parsePort_spellsPort isPort]
  split <;> rfl

/-- The text of a socket address is split into its host and its port. -/
theorem splitHostPort_spells (spells : SocketAddr.Spells raw addr) :
    ∃ host, splitHostPort raw = some (
      if addr.port = 0 then .error (invalidTarget raw "port must be non-zero")
      else .ok (host, addr.port)) := by
  cases spells with
  | @v4 host text ip port isIp isPort =>
      have nonempty : host ≠ [] := by
        obtain ⟨octet, n, others, rfl, -⟩ := isIp.first
        simp
      have plain : host.head? ≠ some '[' := fun opened =>
        isIp.not_mem (by decide) (by decide) (List.mem_of_mem_head? opened)
      have cut : rsplitOnce ':' (host ++ ':' :: text) = some (host, text) :=
        rsplitOnce_eq_some_iff.mpr ⟨rfl, isPort.not_mem (by decide)⟩
      refine ⟨host, ?_⟩
      rw [splitHostPort_plain (head?_append_ne nonempty plain), cut]
      simp only [List.isEmpty_iff, nonempty, if_false]
      rw [map_parsePort_spellsPort isPort]
      rfl
  | @v6 host scope text ip port scopeId isIp isScope isPort =>
      have closed : ']' ∉ host ++ scope := by
        have inHost : ']' ∉ host := isIp.not_mem (by decide) (by decide) (by decide)
        obtain ⟨rfl, -⟩ | ⟨digits, n, rfl, isNumber, -⟩ := isScope
        · simp [inHost]
        · simp [inHost, isNumber.not_mem (c := ']') (by decide)]
      have cut : splitOnce ']' (host ++ scope ++ ']' :: ':' :: text) =
          some (host ++ scope, ':' :: text) :=
        splitOnce_eq_some_iff.mpr ⟨rfl, closed⟩
      have stripped : stripPrefix ':' (':' :: text) = some text := stripPrefix_eq_some_iff.mpr rfl
      refine ⟨host ++ scope, ?_⟩
      rw [splitHostPort_bracketed, cut]
      simp only [stripped]
      rw [map_parsePort_spellsPort isPort]
      rfl

/-! ### What `bind` can do -/

inductive Bound (dns : Dns) (raw : Str) (dnsServer : Option SocketAddr) (now : Instant) :
    Except ErrorChain TargetAddr → Prop where
  | invalid {message} (split : splitHostPort raw = some (.error message)) :
      Bound dns raw dnsServer now (.error [message])
  | static {host port addr} (split : splitHostPort raw = some (.ok (host, port)))
      (parsed : SocketAddr.parse raw = some addr) :
      Bound dns raw dnsServer now (.ok (.static ⟨raw, addr⟩))
  | noResolver {host port cause} (split : splitHostPort raw = some (.ok (host, port)))
      (name : SocketAddr.parse raw = none) (failed : buildResolver dns dnsServer = .error cause) :
      Bound dns raw dnsServer now (.error cause)
  | unresolved {host port resolver cause} (split : splitHostPort raw = some (.ok (host, port)))
      (name : SocketAddr.parse raw = none) (built : buildResolver dns dnsServer = .ok resolver)
      (failed : DynamicTarget.bind (.ofList raw) (.ofList host) port
        (resolver (.ofList host)) now = .error cause) :
      Bound dns raw dnsServer now (.error cause)
  | dynamic {host port resolver target} (split : splitHostPort raw = some (.ok (host, port)))
      (name : SocketAddr.parse raw = none) (built : buildResolver dns dnsServer = .ok resolver)
      (resolved : DynamicTarget.bind (.ofList raw) (.ofList host) port
        (resolver (.ofList host)) now = .ok target) :
      Bound dns raw dnsServer now (.ok (.dynamic target))

theorem exists_bound (dns : Dns) (raw : Str) (dnsServer : Option SocketAddr) (now : Instant) :
    ∃ result, bind dns raw dnsServer now = some result ∧ Bound dns raw dnsServer now result := by
  cases split : splitHostPort raw with
  | none => exact absurd split (splitHostPort_total raw)
  | some parts =>
      simp only [bind, split, Option.bind_eq_bind, Option.bind_some]
      cases parts with
      | error message => exact ⟨_, rfl, .invalid split⟩
      | ok parts =>
          cases name : SocketAddr.parse raw with
          | some addr => exact ⟨_, rfl, .static split name⟩
          | none =>
              cases built : buildResolver dns dnsServer with
              | error cause => exact ⟨_, rfl, .noResolver split name built⟩
              | ok resolver =>
                  simp only
                  cases resolved : DynamicTarget.bind (.ofList raw) (.ofList parts.1) parts.2
                      (resolver (.ofList parts.1)) now with
                  | error cause => exact ⟨_, rfl, .unresolved split name built resolved⟩
                  | ok target => exact ⟨_, rfl, .dynamic split name built resolved⟩

theorem Bound.of_bind {result : Except ErrorChain TargetAddr}
    (bound : bind dns raw dnsServer now = some result) : Bound dns raw dnsServer now result := by
  obtain ⟨other, same, isBound⟩ := exists_bound dns raw dnsServer now
  rw [bound, Option.some.injEq] at same
  exact same ▸ isBound

/-! ### Static targets -/

theorem bind_of_spells (spells : SocketAddr.Spells raw addr) :
    bind dns raw dnsServer now = some (
      if addr.port = 0 then .error [invalidTarget raw "port must be non-zero"]
      else .ok (.static ⟨raw, addr⟩)) := by
  obtain ⟨host, split⟩ := splitHostPort_spells spells
  by_cases zero : addr.port = 0
  · rw [if_pos zero] at split ⊢
    rw [bind, split]
    rfl
  · rw [if_neg zero] at split ⊢
    rw [bind, split, SocketAddr.parse_eq_some_iff.mpr spells]
    rfl

theorem port_ne_zero_of_static (spells : SocketAddr.Spells raw addr)
    (bound : bind dns raw dnsServer now = some (.ok target)) : addr.port ≠ 0 := by
  intro zero
  rw [bind_of_spells spells, if_pos zero] at bound
  cases bound

/-- The static branch is taken for the texts of socket addresses with a port, whatever the
resolvers do. -/
theorem bind_static_iff {target : StaticTarget} :
    bind dns raw dnsServer now = some (.ok (.static target)) ↔
      target.raw = raw ∧ SocketAddr.Spells raw target.addr ∧ target.addr.port ≠ 0 := by
  constructor
  · intro bound
    cases Bound.of_bind bound with
    | @static host port addr split parsed =>
        have spells := SocketAddr.parse_eq_some_iff.mp parsed
        exact ⟨rfl, spells, port_ne_zero_of_static spells bound⟩
  · rintro ⟨rfl, spells, nonzero⟩
    rw [bind_of_spells spells, if_neg nonzero]

/-- The standard text of an address is bound to that address. -/
theorem bind_display (nonzero : addr.port ≠ 0) (plain : addr.flowinfo = 0) :
    bind dns addr.display dnsServer now = some (.ok (.static ⟨addr.display, addr⟩)) := by
  rw [bind_of_spells (SocketAddr.spells_display plain), if_neg nonzero]

/-- The system has no resolver, and no name server answers. -/
def noDns : Dns := ⟨fun _ _ _ => .error "timed out", .error ["no configuration"]⟩

/-- An address mapped from IPv4, with a scope. -/
def mappedAddr : SocketAddr := .v6 0xffff01020304 443 0 7

theorem bind_display_mapped :
    mappedAddr.display = "[::ffff:1.2.3.4%7]:443".toList ∧
      bind noDns mappedAddr.display none 0 =
        some (.ok (.static ⟨mappedAddr.display, mappedAddr⟩)) :=
  ⟨by decide, bind_display (by decide) rfl⟩

/-! ### The port -/

/-- What is bound keeps its text, and hands out addresses with the port in the text only. -/
structure KeepsPort (raw : Str) (target : TargetAddr) : Prop where
  display : target.display = raw
  ports : ∃ host port, splitHostPort raw = some (.ok (host, port)) ∧ port ≠ 0 ∧
    ∀ addr, target.Returns addr → addr.port = port

end TargetAddr

namespace DynamicTarget

variable {raw host : String} {port : BitVec 16} {lookup : Except String LookupIp} {now : Instant}
  {target : DynamicTarget} {p : Pool DynamicTarget Task}

theorem bind_fields (bound : bind raw host port lookup now = .ok target) :
    target.raw = raw ∧ target.port = port := by
  unfold bind at bound
  split at bound
  · cases bound
  · cases bound
    exact ⟨rfl, rfl⟩

/-- No caller and no refresh changes the port of the target. -/
theorem port_eq (reached : machine.Reachable (start target) p) :
    p.shared.port = target.port := by
  refine Program.reachable_induction (J := fun p => p.shared.port = target.port) reached rfl ?_ ?_
  · intro p i k t sh t' new _ before _ taken
    exact (step_iff.mp taken).frame.2.2.trans before
  · intro p e sh new _ before taken
    cases e with
    | current | advance =>
        cases taken
        exact before

/-- Every caller, at any time, gets an address with the port that was bound. -/
theorem port_of_returned {addr : SocketAddr} {seen : Nat}
    (bound : bind raw host port lookup now = .ok target)
    (reached : machine.Reachable (start target) p)
    (returned : .current (.returned addr seen) ∈ p.threads) : addr.port = port := by
  obtain ⟨initial, idle⟩ := Latest.of_bind bound
  obtain ⟨latest, all⟩ := holds idle initial reached
  have own : p.shared.Seen addr seen := all _ returned
  calc
    addr.port = p.shared.port :=
        latest.ports addr (List.mem_of_mem_take (List.mem_of_getLast? own.1))
    _ = target.port := port_eq reached
    _ = port := (bind_fields bound).2

end DynamicTarget

namespace TargetAddr

variable {dns : Dns} {raw : Str} {dnsServer : Option SocketAddr} {now : Instant}
  {target : TargetAddr}

theorem port_ne_zero {host : Str} {port : BitVec 16}
    (split : splitHostPort raw = some (.ok (host, port))) : port ≠ 0 := by
  by_cases opened : raw.head? = some '['
  · obtain ⟨rest, rfl⟩ := List.head?_eq_some_iff.mp opened
    obtain ⟨text, -, -, isPort⟩ := splitHostPort_bracketed_eq_ok_iff.mp split
    exact isPort.2
  · obtain ⟨text, -, -, isPort⟩ := (splitHostPort_plain_eq_ok_iff opened).mp split
    exact isPort.2

theorem keepsPort (bound : bind dns raw dnsServer now = some (.ok target)) :
    KeepsPort raw target := by
  cases Bound.of_bind bound with
  | @static host port addr split parsed =>
      have spells := SocketAddr.parse_eq_some_iff.mp parsed
      have nonzero := port_ne_zero_of_static spells bound
      obtain ⟨host', split'⟩ := splitHostPort_spells spells
      rw [if_neg nonzero] at split'
      exact ⟨rfl, host', addr.port, split', nonzero, fun _ same => congrArg SocketAddr.port same⟩
  | @dynamic host port resolver target split name built resolved =>
      have kept := (DynamicTarget.bind_fields resolved).1
      refine ⟨by simp [display, kept], host, port, split, port_ne_zero split, ?_⟩
      rintro addr ⟨p, seen, reached, returned⟩
      exact DynamicTarget.port_of_returned resolved reached returned

/-- The resolver of the system knows one address for every host. -/
def oneAddr : Dns := ⟨fun _ _ _ => .error "timed out", .ok fun _ => .ok ⟨0, [.v4 0x0a000001]⟩⟩

theorem bind_oneAddr : bind oneAddr "example.com:9000".toList none 0 =
    some (.ok (.dynamic DynamicTarget.boundTarget)) := by
  decide

theorem keepsPort_oneAddr :
    KeepsPort "example.com:9000".toList (.dynamic DynamicTarget.boundTarget) :=
  keepsPort bind_oneAddr

end TargetAddr

end RangePorter
