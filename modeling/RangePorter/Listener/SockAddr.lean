import RangePorter.Bytes.Order
import RangePorter.Listener.UdpBatch

/-!
# Socket addresses in memory

The kernel takes and gives socket addresses as `sockaddr_in` and `sockaddr_in6`, at the
front of a `sockaddr_storage`. Ports and IP addresses are in network order there, all other
fields in the order of the host. `Encodes` is that layout, as far as the decoder looks at
it; what `socket2` writes and what the kernel writes is only known to have it.
-/

namespace RangePorter

open Bytes

def afInet : Nat := 2
def afInet6 : Nat := 10

/-- The size of `sockaddr_storage`. -/
def sizeSockaddrStorage : Nat := 128

/-- `sockaddr_storage` as `mem::zeroed` leaves it. -/
def zeroedStorage : List UInt8 := List.replicate sizeSockaddrStorage 0

/-- The bytes of a field. -/
def field (bytes : List UInt8) (offset width : Nat) : List UInt8 := (bytes.drop offset).take width

/-- A field of what lies at the front is a field of the whole. -/
theorem field_of_prefix {bytes storage : List UInt8} {offset width : Nat}
    (front : bytes <+: storage) (inside : offset + width ≤ bytes.length) :
    field storage offset width = field bytes offset width := by
  obtain ⟨rest, rfl⟩ := front
  have enough : width ≤ (bytes.drop offset).length := by
    rw [List.length_drop]
    omega
  rw [field, field, List.drop_append_of_le_length (by omega), List.take_append_of_le_length enough]

/-- The size of the structure that holds the address. -/
def SocketAddr.sockaddrLen : SocketAddr → Nat
  | .v4 .. => 16
  | .v6 .. => 28

/-- On a host of this byte order, these are the bytes of the address. -/
inductive Encodes (e : Endian) : SocketAddr → List UInt8 → Prop where
  | sockaddrIn {ip port bytes} (length : bytes.length = 16)
      (sinFamily : field bytes 0 2 = e.encode 2 afInet)
      (sinPort : field bytes 2 2 = Endian.big.encode 2 port.toNat)
      (sinAddr : field bytes 4 4 = Endian.big.encode 4 ip.toNat) :
      Encodes e (.v4 ip port) bytes
  | sockaddrIn6 {ip port flowinfo scopeId bytes} (length : bytes.length = 28)
      (sin6Family : field bytes 0 2 = e.encode 2 afInet6)
      (sin6Port : field bytes 2 2 = Endian.big.encode 2 port.toNat)
      (sin6Flowinfo : field bytes 4 4 = e.encode 4 flowinfo.toNat)
      (sin6Addr : field bytes 8 16 = Endian.big.encode 16 ip.toNat)
      (sin6ScopeId : field bytes 24 4 = e.encode 4 scopeId.toNat) :
      Encodes e (.v6 ip port flowinfo scopeId) bytes

/-- Copy the bytes of the address to the front of the storage. `SockAddr::from` is code of
the `socket2` package. -/
def socketAddrToSockaddrStorage (sockAddr : SocketAddr → List UInt8) (addr : SocketAddr)
    (storage : List UInt8) : List UInt8 × Nat :=
  (overwrite storage 0 (sockAddr addr), (sockAddr addr).length)

def sockaddrStorageToSocketAddr (e : Endian) (storage : List UInt8) : Option SocketAddr :=
  let ssFamily := e.decode (field storage 0 2)
  if ssFamily = afInet then
    some (.v4 (.ofNat 32 (fromBe e 4 (e.decode (field storage 4 4))))
      (.ofNat 16 (fromBe e 2 (e.decode (field storage 2 2)))))
  else if ssFamily = afInet6 then
    -- The address is an array of bytes, so there is nothing to swap.
    some (.v6 (.ofNat 128 (Endian.big.decode (field storage 8 16)))
      (.ofNat 16 (fromBe e 2 (e.decode (field storage 2 2))))
      (.ofNat 32 (e.decode (field storage 4 4))) (.ofNat 32 (e.decode (field storage 24 4))))
  else none

variable {e : Endian} {a b : SocketAddr} {bytes storage : List UInt8}

theorem Encodes.length_eq (encodes : Encodes e a bytes) : bytes.length = a.sockaddrLen := by
  cases encodes with
  | sockaddrIn length => exact length
  | sockaddrIn6 length => exact length

/-- A field that is read in the order it was written in. -/
theorem decode_field {bits width : Nat} {x : BitVec bits} {bytes : List UInt8}
    (whole : bits = 8 * width) (written : bytes = e.encode width x.toNat) :
    BitVec.ofNat bits (e.decode bytes) = x := by
  rw [written, Endian.ofNat_decode_encode e whole]

/-- A field in network order that the host reads as one of its own numbers. -/
theorem fromBe_field {bits width : Nat} {x : BitVec bits} {bytes : List UInt8}
    (whole : bits = 8 * width) (written : bytes = Endian.big.encode width x.toNat) :
    BitVec.ofNat bits (fromBe e width (e.decode bytes)) = x := by
  have length : bytes.length = width := by rw [written, Endian.length_encode]
  have read := fromBe_decode e bytes
  rw [length] at read
  rw [read, decode_field whole written]

/-- The decoder finds the address whose bytes lie at the front of the storage. -/
theorem Encodes.decode (encodes : Encodes e a bytes) (front : bytes <+: storage) :
    sockaddrStorageToSocketAddr e storage = some a := by
  have fields : ∀ offset width, offset + width ≤ bytes.length →
      field storage offset width = field bytes offset width :=
    fun offset width => field_of_prefix front
  rw [sockaddrStorageToSocketAddr]
  cases encodes with
  | sockaddrIn length sinFamily sinPort sinAddr =>
      rw [length] at fields
      rw [fields 0 2 (by decide), fields 2 2 (by decide), fields 4 4 (by decide), sinFamily,
        Endian.decode_encode e (by decide), if_pos rfl, fromBe_field rfl sinPort,
        fromBe_field rfl sinAddr]
  | sockaddrIn6 length sin6Family sin6Port sin6Flowinfo sin6Addr sin6ScopeId =>
      rw [length] at fields
      rw [fields 0 2 (by decide), fields 2 2 (by decide), fields 4 4 (by decide),
        fields 8 16 (by decide), fields 24 4 (by decide), sin6Family,
        Endian.decode_encode e (by decide), if_neg (by decide), if_pos rfl,
        fromBe_field rfl sin6Port, decode_field rfl sin6Addr, decode_field rfl sin6Flowinfo,
        decode_field rfl sin6ScopeId]

theorem prefix_overwrite (storage bytes : List UInt8) : bytes <+: overwrite storage 0 bytes := by
  rw [overwrite, List.take_zero, List.nil_append]
  exact List.prefix_append ..

/-- An address is never longer than the storage. -/
theorem SocketAddr.sockaddrLen_le (addr : SocketAddr) : addr.sockaddrLen ≤ sizeSockaddrStorage := by
  cases addr <;> simp [sockaddrLen, sizeSockaddrStorage]

/-- Socket addresses survive the way through a zeroed `sockaddr_storage`, on hosts of either
byte order: the address is found again, the length is that of its structure and fits the
storage, and different addresses differ in their bytes. -/
theorem sockaddr_round_trip {sockAddr : SocketAddr → List UInt8}
    (layout : ∀ addr, Encodes e addr (sockAddr addr)) (addr : SocketAddr) :
    sockaddrStorageToSocketAddr e (socketAddrToSockaddrStorage sockAddr addr zeroedStorage).1 =
      some addr ∧
    (socketAddrToSockaddrStorage sockAddr addr zeroedStorage).2 = addr.sockaddrLen ∧
    (socketAddrToSockaddrStorage sockAddr addr zeroedStorage).2 ≤ zeroedStorage.length ∧
    (socketAddrToSockaddrStorage sockAddr addr zeroedStorage).1.length = zeroedStorage.length ∧
    ∀ other, other ≠ addr →
      sockAddr other ≠ sockAddr addr ∧
      (socketAddrToSockaddrStorage sockAddr other zeroedStorage).1 ≠
        (socketAddrToSockaddrStorage sockAddr addr zeroedStorage).1 := by
  have found : ∀ addr, sockaddrStorageToSocketAddr e (overwrite zeroedStorage 0 (sockAddr addr)) =
      some addr := fun addr => (layout addr).decode (prefix_overwrite ..)
  have length := (layout addr).length_eq
  have fits : (sockAddr addr).length ≤ zeroedStorage.length :=
    calc
      (sockAddr addr).length = addr.sockaddrLen := length
      _ ≤ sizeSockaddrStorage := addr.sockaddrLen_le
      _ = zeroedStorage.length := List.length_replicate.symm
  refine ⟨found addr, length, fits, length_overwrite (by rwa [Nat.zero_add]), ?_⟩
  intro other ne
  have differ : overwrite zeroedStorage 0 (sockAddr other) ≠
      overwrite zeroedStorage 0 (sockAddr addr) := by
    intro same
    have found' := found other
    rw [same, found addr, Option.some.injEq] at found'
    exact ne found'.symm
  exact ⟨fun same => differ (by rw [same]), differ⟩

/-- The layout with everything else set to zero. -/
def zeroPadded (e : Endian) : SocketAddr → List UInt8
  | .v4 ip port =>
      e.encode 2 afInet ++ Endian.big.encode 2 port.toNat ++ Endian.big.encode 4 ip.toNat ++
        List.replicate 8 0
  | .v6 ip port flowinfo scopeId =>
      e.encode 2 afInet6 ++ Endian.big.encode 2 port.toNat ++ e.encode 4 flowinfo.toNat ++
        Endian.big.encode 16 ip.toNat ++ e.encode 4 scopeId.toNat

theorem encodes_zeroPadded (e : Endian) (addr : SocketAddr) :
    Encodes e addr (zeroPadded e addr) := by
  cases addr <;> constructor <;>
    simp [zeroPadded, field, List.drop_append, List.drop_of_length_le, List.take_of_length_le]

theorem sockaddr_round_trip_localhost :
    sockaddrStorageToSocketAddr .little (socketAddrToSockaddrStorage (zeroPadded .little)
        (.v4 0x7f000001 4000) zeroedStorage).1 = some (.v4 0x7f000001 4000) ∧
    (socketAddrToSockaddrStorage (zeroPadded .little) (.v4 0x7f000001 4000) zeroedStorage).2 =
      (SocketAddr.v4 0x7f000001 4000).sockaddrLen ∧
    (socketAddrToSockaddrStorage (zeroPadded .little) (.v4 0x7f000001 4000) zeroedStorage).2 ≤
      zeroedStorage.length ∧
    (socketAddrToSockaddrStorage (zeroPadded .little) (.v4 0x7f000001 4000)
      zeroedStorage).1.length = zeroedStorage.length ∧
    ∀ other, other ≠ SocketAddr.v4 0x7f000001 4000 →
      zeroPadded .little other ≠ zeroPadded .little (.v4 0x7f000001 4000) ∧
      (socketAddrToSockaddrStorage (zeroPadded .little) other zeroedStorage).1 ≠
        (socketAddrToSockaddrStorage (zeroPadded .little) (.v4 0x7f000001 4000)
          zeroedStorage).1 :=
  sockaddr_round_trip (encodes_zeroPadded .little) _

end RangePorter
