import RangePorter.Net
import RangePorter.Net.Literal

/-!
# The standard text of addresses

`Display` of the standard library: an IPv4 address in dotted decimal; an IPv6 address in
groups of hexadecimal digits without leading zeros, with the first longest run of two or
more zero groups left out, and the last two groups in dotted decimal if the address is
mapped from IPv4. A socket address has its port after a colon, an IPv6 address with its
scope, if it has one, in brackets.
-/

namespace RangePorter

open Text

namespace IpAddr

def octets (ip : BitVec 32) : List Nat :=
  [24, 16, 8, 0].map fun shift => ip.toNat / 2 ^ shift % 256

def displayV4 (ip : BitVec 32) : Str := ['.'].intercalate ((octets ip).map (Nat.toDigits 10))

def segments (ip : BitVec 128) : List Nat :=
  [112, 96, 80, 64, 48, 32, 16, 0].map fun shift => ip.toNat / 2 ^ shift % 65536

/-- The IPv4 address if the IPv6 address is one of `::ffff:0:0/96`. -/
def toIpv4Mapped (ip : BitVec 128) : Option (BitVec 32) :=
  if ip.toNat / 2 ^ 32 = 0xffff then some (ip.truncate 32) else none

structure Span where
  start : Nat
  len : Nat
  deriving DecidableEq, Repr

/-- One round of the loop that looks for the longest run of zeros; the second span is the
current one. -/
def findZeros (spans : Span × Span) (segment : Nat × Nat) : Span × Span :=
  if segment.1 = 0 then
    let current : Span :=
      ⟨if spans.2.len = 0 then segment.2 else spans.2.start, spans.2.len + 1⟩
    (if spans.1.len < current.len then current else spans.1, current)
  else (spans.1, ⟨0, 0⟩)

def longestZeros (segments : List Nat) : Span :=
  (segments.zipIdx.foldl findZeros (⟨0, 0⟩, ⟨0, 0⟩)).1

def fmtSubslice (chunk : List Nat) : Str := [':'].intercalate (chunk.map (Nat.toDigits 16))

def displayV6 (ip : BitVec 128) : Str :=
  match toIpv4Mapped ip with
  | some ipv4 => "::ffff:".toList ++ displayV4 ipv4
  | none =>
      let zeroes := longestZeros (segments ip)
      if 1 < zeroes.len then
        fmtSubslice ((segments ip).take zeroes.start) ++ ':' :: ':' ::
          fmtSubslice ((segments ip).drop (zeroes.start + zeroes.len))
      else fmtSubslice (segments ip)

/-! ### The texts are literals -/

theorem isIpv4_displayV4 (ip : BitVec 32) : IsIpv4 (displayV4 ip) := by
  refine ⟨(octets ip).map (Nat.toDigits 10), rfl, ?_, rfl⟩
  intro octet member
  obtain ⟨n, inside, rfl⟩ := List.mem_map.mp member
  obtain ⟨shift, -, rfl⟩ := List.mem_map.mp inside
  exact ⟨_, Nat.mod_lt _ (by decide), rfl⟩

theorem isHexDigit_digitChar {n : Nat} (bound : n < 16) : (Nat.digitChar n).isHexDigit := by
  have all : ∀ n < 16, (Nat.digitChar n).isHexDigit := by decide
  exact all n bound

theorem isHexDigit_of_mem_toDigits {c : Char} (n : Nat) (member : c ∈ Nat.toDigits 16 n) :
    c.isHexDigit := by
  induction n using Nat.strongRecOn with
  | ind n ih =>
      rw [Nat.toDigits_eq_if (by decide)] at member
      split at member
      · rename_i small
        rw [List.mem_singleton.mp member]
        exact isHexDigit_digitChar small
      · obtain high | low := List.mem_append.mp member
        · exact ih (n / 16) (by omega) high
        · rw [List.mem_singleton.mp low]
          exact isHexDigit_digitChar (Nat.mod_lt _ (by decide))

theorem isGroup_toDigits {n : Nat} (bound : n < 65536) : IsGroup (Nat.toDigits 16 n) :=
  ⟨Nat.toDigits_ne_nil, (Nat.length_toDigits_le_iff (by decide) (by decide)).mpr bound,
    fun _ => isHexDigit_of_mem_toDigits n⟩

theorem isGroups_fmtSubslice {chunk : List Nat} (bound : ∀ n ∈ chunk, n < 65536) :
    IsGroups chunk.length (fmtSubslice chunk) := by
  refine ⟨chunk.map (Nat.toDigits 16), List.length_map .., ?_, rfl⟩
  intro group member
  obtain ⟨n, inside, rfl⟩ := List.mem_map.mp member
  exact isGroup_toDigits (bound n inside)

/-- Both spans lie within the first `k` segments, and the current one ends there. -/
structure SpansWithin (k : Nat) (spans : Span × Span) : Prop where
  longest : spans.1.start + spans.1.len ≤ k
  current : spans.2.len = 0 ∨ spans.2.start + spans.2.len = k

theorem SpansWithin.findZeros {k : Nat} {spans : Span × Span} (within : SpansWithin k spans)
    (segment : Nat) : SpansWithin (k + 1) (findZeros spans (segment, k)) := by
  obtain ⟨longest, current⟩ := within
  by_cases zero : segment = 0
  · have extended : (if spans.2.len = 0 then k else spans.2.start) + (spans.2.len + 1) = k + 1 := by
      split <;> omega
    simp only [IpAddr.findZeros, zero, if_true]
    refine ⟨?_, .inr extended⟩
    split
    · exact extended.le
    · exact Nat.le_add_right_of_le longest
  · simp only [IpAddr.findZeros, zero, if_false]
    exact ⟨Nat.le_add_right_of_le longest, .inl rfl⟩

theorem SpansWithin.foldl (segments : List Nat) {k : Nat} {spans : Span × Span}
    (within : SpansWithin k spans) :
    SpansWithin (k + segments.length) ((segments.zipIdx k).foldl IpAddr.findZeros spans) := by
  induction segments generalizing k spans with
  | nil => exact within
  | cons segment segments ih =>
      rw [List.zipIdx_cons, List.foldl_cons, List.length_cons, Nat.add_comm segments.length,
        ← Nat.add_assoc]
      exact ih (within.findZeros segment)

/-- The run of zeros lies within the address. -/
theorem longestZeros_le (segments : List Nat) :
    (longestZeros segments).start + (longestZeros segments).len ≤ segments.length := by
  have start : SpansWithin 0 (⟨0, 0⟩, ⟨0, 0⟩) := ⟨Nat.le_refl 0, .inl rfl⟩
  have within := (start.foldl segments).longest
  rw [Nat.zero_add] at within
  exact within

theorem isIpv6_displayV6 (ip : BitVec 128) : IsIpv6 (displayV6 ip) := by
  have bound : ∀ n ∈ segments ip, n < 65536 := by
    intro n member
    obtain ⟨shift, -, rfl⟩ := List.mem_map.mp member
    exact Nat.mod_lt _ (by decide)
  unfold displayV6
  split
  · rename_i ipv4 _
    refine .inr ⟨0, 3, [], "ffff:".toList ++ displayV4 ipv4, ⟨[], rfl, nofun, rfl⟩, .inr ?_,
      by decide, rfl⟩
    have group : IsGroup "ffff".toList := isGroup_toDigits (n := 0xffff) (by decide)
    refine ⟨["ffff".toList], displayV4 ipv4, rfl, ?_, isIpv4_displayV4 ipv4, ?_⟩
    · intro other member
      rw [List.mem_singleton.mp member]
      exact group
    · rw [List.singleton_append, List.intercalate_cons_cons, List.intercalate_singleton]
      rfl
  · have within := longestZeros_le (segments ip)
    have eight : (segments ip).length = 8 := rfl
    simp only
    split
    · refine .inr ⟨_, _, _, _,
        isGroups_fmtSubslice fun n member => bound n (List.mem_of_mem_take member),
        .inl (isGroups_fmtSubslice fun n member => bound n (List.mem_of_mem_drop member)), ?_, rfl⟩
      rw [List.length_take, List.length_drop]
      omega
    · exact .inl (.inl (isGroups_fmtSubslice bound))

end IpAddr

namespace SocketAddr

/-- What stands before the colon and the port. -/
def displayHost : SocketAddr → Str
  | .v4 ip _ => IpAddr.displayV4 ip
  | .v6 ip _ _ scopeId =>
      if scopeId = 0 then IpAddr.displayV6 ip
      else IpAddr.displayV6 ip ++ '%' :: Nat.toDigits 10 scopeId.toNat

def display (addr : SocketAddr) : Str :=
  match addr with
  | .v4 .. => addr.displayHost ++ ':' :: Nat.toDigits 10 addr.port.toNat
  | .v6 .. => '[' :: (addr.displayHost ++ ']' :: ':' :: Nat.toDigits 10 addr.port.toNat)

end SocketAddr

end RangePorter
