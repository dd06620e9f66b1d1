import Mathlib.Algebra.GroupWithZero.Nat
import Mathlib.Logic.Basic

/-!
# Addresses, durations and machine words

The values that the components exchange. Machine words are natural numbers;
operations that wrap say so through `wrappingAdd` and `wrappingSub`. Durations count nanoseconds.
-/

namespace RangePorter

/-- The number of values of a `u64`, and of a `usize` on the supported targets. -/
def u64Size : Nat := 2 ^ 64

theorem u64Size_pos : 0 < u64Size := by decide

/-- Addition of `u64` values, as `fetch_add` performs it. -/
def wrappingAdd (a b : Nat) : Nat := (a + b) % u64Size

theorem wrappingAdd_eq {a b : Nat} (fits : a + b < u64Size) : wrappingAdd a b = a + b :=
  Nat.mod_eq_of_lt fits

/-- How far a `u64` has risen from `b` to `a`, if it may have wrapped once. -/
def wrappingSub (a b : Nat) : Nat := (a + u64Size - b) % u64Size

@[simp] theorem wrappingSub_self (a : Nat) : wrappingSub a a = 0 := by
  rw [wrappingSub, Nat.add_sub_cancel_left, Nat.mod_self]

theorem wrappingSub_wrappingAdd {a b : Nat} (le : a ≤ u64Size) :
    wrappingSub (wrappingAdd a b) a = b % u64Size := by
  simp only [wrappingSub, wrappingAdd, u64Size] at le ⊢
  omega

theorem wrappingAdd_wrappingSub {a b : Nat} (small : a < u64Size) (le : b ≤ u64Size) :
    wrappingAdd b (wrappingSub a b) = a := by
  simp only [wrappingSub, wrappingAdd, u64Size] at small le ⊢
  omega

/-- A span of time in nanoseconds. -/
abbrev Duration := Nat

namespace Duration

def fromSecs (secs : Nat) : Duration := secs * 1000000000

/-- Whole seconds; the fraction is dropped. -/
def asSecs (d : Duration) : Nat := d / 1000000000

end Duration

inductive IpAddr where
  | v4 (ip : BitVec 32)
  | v6 (ip : BitVec 128)
  deriving DecidableEq, Repr

inductive SocketAddr where
  | v4 (ip : BitVec 32) (port : BitVec 16)
  | v6 (ip : BitVec 128) (port : BitVec 16) (flowinfo scopeId : BitVec 32)
  deriving DecidableEq, Repr

namespace SocketAddr

/-- Flow information and scope id of a new IPv6 socket address are zero. -/
def new : IpAddr → BitVec 16 → SocketAddr
  | .v4 ip, port => .v4 ip port
  | .v6 ip, port => .v6 ip port 0 0

def port : SocketAddr → BitVec 16
  | .v4 _ port => port
  | .v6 _ port _ _ => port

@[simp] theorem port_new (ip : IpAddr) (port : BitVec 16) : (new ip port).port = port := by
  cases ip <;> rfl

end SocketAddr

/-- The bytes of one datagram. -/
abbrev Payload := List UInt8

end RangePorter
