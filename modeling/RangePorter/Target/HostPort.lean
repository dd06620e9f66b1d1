import RangePorter.Net.Display
import RangePorter.Text.Number

/-!
# Hosts and ports of targets

`split_host_port` cuts a bracketed host at the first `]`, and any other host at the last
colon. What it accepts is exactly a host joined to the text of a port, so the standard
text of every socket address is accepted.
-/

namespace RangePorter.TargetAddr

open Text

def invalidTarget (raw : Str) (reason : String) : String :=
  "invalid target `" ++ String.ofList raw ++ "`: " ++ reason

def parsePort (portPart raw : Str) : Except String (BitVec 16) :=
  match parseUnsigned 16 portPart with
  | none => .error (invalidTarget raw ("`" ++ String.ofList portPart ++ "` is not a valid port"))
  | some port =>
      if port = 0 then .error (invalidTarget raw "port must be non-zero") else .ok port

/-- `none` stands for a panic: a slice that is out of range, or not on the boundary of a
character. -/
def splitHostPort (raw : Str) : Option (Except String (Str × BitVec 16)) :=
  match stripPrefix '[' raw with
  | some rest =>
      match find ']' rest with
      | none => some (.error (invalidTarget raw "missing `]` in bracketed host"))
      | some stop => do
          let host ← sliceTo rest stop
          let after ← sliceFrom rest (stop + 1)
          match stripPrefix ':' after with
          | none => some (.error (invalidTarget raw "expected `:port` after `]`"))
          | some portPart => some ((parsePort portPart raw).map fun port => (host, port))
  | none =>
      match rsplitOnce ':' raw with
      | none => some (.error (invalidTarget raw "expected `host:port`"))
      | some (host, portPart) =>
          if host.isEmpty then some (.error (invalidTarget raw "host is empty"))
          else some ((parsePort portPart raw).map fun port => (host, port))

/-- The text of a port that is not zero. -/
def IsPort (text : Str) (port : BitVec 16) : Prop := parseUnsigned 16 text = some port ∧ port ≠ 0

variable {raw host text : Str} {port : BitVec 16}

theorem parsePort_eq_ok_iff : parsePort text raw = .ok port ↔ IsPort text port := by
  unfold parsePort IsPort
  cases parseUnsigned 16 text with
  | none => simp
  | some read =>
      by_cases zero : read = 0
      · simp only [zero, if_true, reduceCtorEq, Option.some.injEq, false_iff, not_and, not_not]
        exact Eq.symm
      · simp only [zero, if_false, Except.ok.injEq, Option.some.injEq]
        exact ⟨fun same => ⟨same, same ▸ zero⟩, And.left⟩

theorem IsPort.absent {c : Char} (isPort : IsPort text port) (other : ¬ (c.isDigit ∨ c = '+')) :
    c ∉ text :=
  fun member => other ((parseUnsigned_eq_some_iff.mp isPort.1).isDigit_or_sign member)

theorem isPort_toDigits (nonzero : port ≠ 0) : IsPort (Nat.toDigits 10 port.toNat) port :=
  ⟨parseUnsigned_toDigits port, nonzero⟩

/-! ### The two branches -/

/-- The slices of the bracketed branch always exist. -/
theorem splitHostPort_bracketed (rest : Str) :
    splitHostPort ('[' :: rest) = some (match splitOnce ']' rest with
      | none => .error (invalidTarget ('[' :: rest) "missing `]` in bracketed host")
      | some (host, after) =>
          match stripPrefix ':' after with
          | none => .error (invalidTarget ('[' :: rest) "expected `:port` after `]`")
          | some portPart => (parsePort portPart ('[' :: rest)).map fun port => (host, port)) := by
  have opened : stripPrefix '[' ('[' :: rest) = some rest := stripPrefix_eq_some_iff.mpr rfl
  rw [splitHostPort, opened]
  cases found : find ']' rest with
  | none =>
      have closed := splitOnce_eq_none_iff.mpr (find_eq_none_iff.mp found)
      simp [closed, found]
  | some stop =>
      obtain ⟨host, after, split, upTo, beyond⟩ := sliceTo_find found
      have size : Char.utf8Size ']' = 1 := by decide
      rw [size] at beyond
      simp only [found, split, upTo, beyond, Option.bind_eq_bind, Option.bind_some]
      cases stripPrefix ':' after <;> rfl

theorem splitHostPort_plain (plain : raw.head? ≠ some '[') :
    splitHostPort raw = some (match rsplitOnce ':' raw with
      | none => .error (invalidTarget raw "expected `host:port`")
      | some (host, portPart) =>
          if host.isEmpty then .error (invalidTarget raw "host is empty")
          else (parsePort portPart raw).map fun port => (host, port)) := by
  have unopened : stripPrefix '[' raw = none := by
    cases raw with
    | nil => rfl
    | cons c raw =>
        have other : c ≠ '[' := fun same => plain (congrArg some same)
        simp [stripPrefix, other]
  rw [splitHostPort, unopened]
  cases rsplitOnce ':' raw with
  | none => rfl
  | some parts =>
      simp only
      split <;> rfl

theorem map_parsePort_eq_ok_iff {head : Str} :
    (parsePort text raw).map (fun port => (head, port)) = .ok (host, port) ↔
      head = host ∧ IsPort text port := by
  rw [← parsePort_eq_ok_iff]
  cases parsePort text raw with
  | error => simp [Except.map]
  | ok read => simp [Except.map]

theorem splitHostPort_bracketed_eq_ok_iff {rest : Str} :
    splitHostPort ('[' :: rest) = some (.ok (host, port)) ↔
      ∃ text, rest = host ++ ']' :: ':' :: text ∧ ']' ∉ host ∧ IsPort text port := by
  rw [splitHostPort_bracketed, Option.some.injEq]
  constructor
  · intro success
    split at success
    · cases success
    · rename_i head after cut
      split at success
      · cases success
      · rename_i portPart stripped
        obtain ⟨rfl, isPort⟩ := map_parsePort_eq_ok_iff.mp success
        obtain ⟨rfl, absent⟩ := splitOnce_eq_some_iff.mp cut
        rw [stripPrefix_eq_some_iff.mp stripped]
        exact ⟨portPart, rfl, absent, isPort⟩
  · rintro ⟨text, rfl, absent, isPort⟩
    have cut : splitOnce ']' (host ++ ']' :: ':' :: text) = some (host, ':' :: text) :=
      splitOnce_eq_some_iff.mpr ⟨rfl, absent⟩
    have stripped : stripPrefix ':' (':' :: text) = some text := stripPrefix_eq_some_iff.mpr rfl
    simp only [cut, stripped]
    exact map_parsePort_eq_ok_iff.mpr ⟨rfl, isPort⟩

theorem splitHostPort_plain_eq_ok_iff (plain : raw.head? ≠ some '[') :
    splitHostPort raw = some (.ok (host, port)) ↔
      ∃ text, raw = host ++ ':' :: text ∧ host ≠ [] ∧ IsPort text port := by
  rw [splitHostPort_plain plain, Option.some.injEq]
  constructor
  · intro success
    split at success
    · cases success
    · rename_i head portPart cut
      split at success
      · cases success
      · rename_i nonempty
        obtain ⟨rfl, isPort⟩ := map_parsePort_eq_ok_iff.mp success
        obtain ⟨rfl, -⟩ := rsplitOnce_eq_some_iff.mp cut
        exact ⟨portPart, rfl, by simpa using nonempty, isPort⟩
  · rintro ⟨text, rfl, nonempty, isPort⟩
    have cut : rsplitOnce ':' (host ++ ':' :: text) = some (host, text) :=
      rsplitOnce_eq_some_iff.mpr ⟨rfl, isPort.absent (by decide)⟩
    simp only [cut, List.isEmpty_iff, nonempty, if_false]
    exact map_parsePort_eq_ok_iff.mpr ⟨rfl, isPort⟩

theorem splitHostPort_total (raw : Str) : splitHostPort raw ≠ none := by
  by_cases opened : raw.head? = some '['
  · obtain ⟨rest, rfl⟩ := List.head?_eq_some_iff.mp opened
    simp [splitHostPort_bracketed]
  · simp [splitHostPort_plain opened]

/-! ### Socket addresses -/

theorem displayV4_ne_nil (ip : BitVec 32) : IpAddr.displayV4 ip ≠ [] := by
  have dots := IpAddr.length_le_count '.' ((IpAddr.octets ip).map (Nat.toDigits 10))
  have four : ((IpAddr.octets ip).map (Nat.toDigits 10)).length = 4 := rfl
  intro empty
  rw [← IpAddr.displayV4, empty, four, List.count_nil] at dots
  omega

theorem displayHost_closes (addr : SocketAddr) : ']' ∉ addr.displayHost := by
  have bracket := IpAddr.not_isLiteralChar_of_bracket (.inr rfl : ']' = '[' ∨ ']' = ']')
  cases addr with
  | v4 ip port => exact fun member => bracket ((IpAddr.isIpv4_displayV4 ip).literal member)
  | v6 ip port flowinfo scopeId =>
      have absent : ']' ∉ IpAddr.displayV6 ip :=
        fun member => bracket ((IpAddr.isIpv6_displayV6 ip).literal member)
      have digits : ']' ∉ Nat.toDigits 10 scopeId.toNat := fun member =>
        absurd (Nat.isDigit_of_mem_toDigits (by decide) (by decide) member) (by decide)
      have withScope : ']' ∉ IpAddr.displayV6 ip ++ '%' :: Nat.toDigits 10 scopeId.toNat := by
        simp [absent, digits]
      rw [SocketAddr.displayHost]
      split
      · exact absent
      · exact withScope

theorem displayHost_v4 (ip : BitVec 32) (port : BitVec 16) :
    ((SocketAddr.v4 ip port).displayHost).head? ≠ some '[' := by
  intro opened
  have member : '[' ∈ IpAddr.displayV4 ip := List.mem_of_mem_head? opened
  exact IpAddr.not_isLiteralChar_of_bracket (.inl rfl) ((IpAddr.isIpv4_displayV4 ip).literal member)

/-! ### Splitting and joining -/

/-- Splitting never panics, drops or reorders nothing, and undoes joining. -/
structure InvertsJoin (split : Str → Option (Except String (Str × BitVec 16))) : Prop where
  total : ∀ raw, split raw ≠ none
  sound : ∀ raw host port, split raw = some (.ok (host, port)) → port ≠ 0 ∧
    ∃ text, parseUnsigned 16 text = some port ∧
      (raw = '[' :: (host ++ ']' :: ':' :: text) ∧ ']' ∉ host ∨
        raw.head? ≠ some '[' ∧ raw = host ++ ':' :: text ∧ ':' ∉ text)
  plain : ∀ port text, port ≠ 0 → parseUnsigned 16 text = some port → ∀ host : Str,
    host ≠ [] → ':' ∉ host → host.head? ≠ some '[' →
    split (host ++ ':' :: text) = some (.ok (host, port))
  bracketed : ∀ port text, port ≠ 0 → parseUnsigned 16 text = some port → ∀ host : Str,
    host ≠ [] → ']' ∉ host →
    split ('[' :: (host ++ ']' :: ':' :: text)) = some (.ok (host, port))
  socketAddr : ∀ addr : SocketAddr, addr.port ≠ 0 →
    split addr.display = some (.ok (addr.displayHost, addr.port))

theorem head?_append_ne {text : Str} (nonempty : host ≠ []) (plain : host.head? ≠ some '[') :
    (host ++ text).head? ≠ some '[' := by
  cases host with
  | nil => exact absurd rfl nonempty
  | cons c host => exact plain

theorem splitHostPort_invertsJoin : InvertsJoin splitHostPort where
  total := splitHostPort_total
  sound := by
    intro raw host port success
    by_cases opened : raw.head? = some '['
    · obtain ⟨rest, rfl⟩ := List.head?_eq_some_iff.mp opened
      obtain ⟨text, rfl, absent, isPort⟩ := splitHostPort_bracketed_eq_ok_iff.mp success
      exact ⟨isPort.2, text, isPort.1, .inl ⟨rfl, absent⟩⟩
    · obtain ⟨text, rfl, -, isPort⟩ := (splitHostPort_plain_eq_ok_iff opened).mp success
      exact ⟨isPort.2, text, isPort.1, .inr ⟨opened, rfl, isPort.absent (by decide)⟩⟩
  plain := by
    intro port text nonzero reads host nonempty _ plain
    apply (splitHostPort_plain_eq_ok_iff (head?_append_ne nonempty plain)).mpr
    exact ⟨text, rfl, nonempty, reads, nonzero⟩
  bracketed := by
    intro port text nonzero reads host _ absent
    exact splitHostPort_bracketed_eq_ok_iff.mpr ⟨text, rfl, absent, reads, nonzero⟩
  socketAddr := by
    intro addr nonzero
    have isPort := isPort_toDigits nonzero
    cases addr with
    | v4 ip port =>
        have nonempty := displayV4_ne_nil ip
        apply (splitHostPort_plain_eq_ok_iff
          (head?_append_ne nonempty (displayHost_v4 ip port))).mpr
        exact ⟨_, rfl, nonempty, isPort⟩
    | v6 ip port flowinfo scopeId =>
        exact splitHostPort_bracketed_eq_ok_iff.mpr ⟨_, rfl, displayHost_closes _, isPort⟩

end RangePorter.TargetAddr
