import RangePorter.Listener.SockAddr

/-!
# Receiving in batches and one by one

One `BatchBuf` serves all calls of a receiving loop. Each call has the kernel overwrite the
front of some slots and updates the lengths of these slots, and of their addresses unless
the socket is connected. The loop then reads as many slots as the call has filled.

A run is the list of what the calls return. Whatever it is, the loop reads the datagrams
that have arrived and nothing else (`readAll_of_each`), so that it cannot tell a system that
receives batches from one that receives datagrams one by one.
-/

namespace RangePorter

open Bytes

universe u v

/-- A datagram as the kernel hands it over, with the bytes it writes to `msg_name`. -/
structure Message (e : Endian) where
  source : SocketAddr
  name : List UInt8
  payload : Payload
  named : Encodes e source name

def Message.datagram {e : Endian} (m : Message e) : Datagram := ⟨some m.source, m.payload⟩

namespace BatchBuf

/-! ### Reading -/

/-- `addr(index)`, or `none` if the index is out of range. -/
def readAddr (buf : BatchBuf) (index : Nat) : Option (Option SocketAddr) := buf.addrs[index]?

/-- `slot(index)`, or `none` if an index or the slice is out of range. -/
def readSlot (buf : BatchBuf) (index : Nat) : Option Payload :=
  buf.lens[index]?.bind fun length =>
    if index * buf.slotSize + length ≤ buf.data.length then
      some ((buf.data.drop (index * buf.slotSize)).take length)
    else none

/-- The loop of the listener over one batch. -/
def readDatagrams (buf : BatchBuf) (count : Nat) : Option (List Datagram) :=
  (List.range count).mapM fun index =>
    (buf.readAddr index).bind fun source =>
      (buf.readSlot index).map fun payload => ⟨source, payload⟩

/-- The loop of a session over one batch. -/
def readPayloads (buf : BatchBuf) (count : Nat) : Option (List Payload) :=
  (List.range count).mapM buf.readSlot

variable {buf : BatchBuf} {index other count : Nat}

theorem readAddr_eq (inside : index < buf.batchSize) :
    buf.readAddr index = some (buf.addr index) := by
  rw [← buf.length_addrs] at inside
  rw [readAddr, addr, List.getD_eq_getElem?_getD, List.getElem?_eq_getElem inside, Option.getD_some]

theorem readSlot_eq (inside : index < buf.batchSize) :
    buf.readSlot index = some (buf.slot index) := by
  have fits := fits_of_lt inside (buf.getD_lens_le index)
  rw [← buf.length_lens] at inside
  rw [List.getD_eq_getElem?_getD, List.getElem?_eq_getElem inside, Option.getD_some] at fits
  rw [readSlot, slot, List.getD_eq_getElem?_getD, List.getElem?_eq_getElem inside, Option.bind_some,
    if_pos fits, Option.getD_some]

theorem mapM_eq_some_map {α : Type u} {β : Type v} {f : α → Option β} {g : α → β} {l : List α}
    (each : ∀ a ∈ l, f a = some (g a)) : l.mapM f = some (l.map g) := by
  induction l with
  | nil => rfl
  | cons a l ih =>
      have rest := ih fun b member => each b (List.mem_cons_of_mem a member)
      rw [List.mapM_cons, each a (List.mem_cons_self ..), rest]
      rfl

/-- The loop of the listener reads the datagrams in the slots. -/
theorem readDatagrams_eq (fits : count ≤ buf.batchSize) :
    buf.readDatagrams count = some (buf.slots 0 count) := by
  rw [slots, Nat.sub_zero, ← List.range_eq_range']
  refine mapM_eq_some_map fun index member => ?_
  have inside := Nat.lt_of_lt_of_le (List.mem_range.mp member) fits
  rw [readAddr_eq inside, readSlot_eq inside]
  rfl

theorem readPayloads_eq (fits : count ≤ buf.batchSize) :
    buf.readPayloads count = some ((buf.slots 0 count).map Datagram.payload) := by
  rw [slots, Nat.sub_zero, ← List.range_eq_range', List.map_map]
  exact mapM_eq_some_map fun index member =>
    readSlot_eq (Nat.lt_of_lt_of_le (List.mem_range.mp member) fits)

/-! ### Receiving -/

variable {e : Endian}

/-- The datagram that the kernel has written to the scratch arrays of one call. The storage
for the name is zeroed before. -/
def received (m : Message e) : Datagram :=
  ⟨sockaddrStorageToSocketAddr e (overwrite zeroedStorage 0 m.name), m.payload⟩

/-- `recv_batch` on Linux, with the count it returns. -/
def recvBatchLinux (buf : BatchBuf) (messages : List (Message e)) : BatchBuf × Nat :=
  (buf.recvBatch (messages.map received), messages.length)

/-- `recv_batch` elsewhere: one datagram, into the first slot. -/
def recvBatchPortable (buf : BatchBuf) (m : Message e) : BatchBuf × Nat :=
  (buf.fill 0 m.datagram, 1)

/-- The kernel fills a slot, and the address of the slot stays as it is. -/
def fillConnected (buf : BatchBuf) (index : Nat) (payload : Payload) : BatchBuf :=
  buf.fill index ⟨buf.addr index, payload⟩

def fillConnectedFrom (buf : BatchBuf) (index : Nat) : List Payload → BatchBuf
  | [] => buf
  | payload :: payloads => (buf.fillConnected index payload).fillConnectedFrom (index + 1) payloads

/-- `recv_batch_connected` on Linux, which leaves `msg_name` null. -/
def recvBatchConnectedLinux (buf : BatchBuf) (messages : List (Message e)) : BatchBuf × Nat :=
  (buf.fillConnectedFrom 0 (messages.map Message.payload), messages.length)

/-- `recv_batch_connected` elsewhere. -/
def recvBatchConnectedPortable (buf : BatchBuf) (m : Message e) : BatchBuf × Nat :=
  (buf.fillConnected 0 m.payload, 1)

theorem received_eq (m : Message e) : received m = m.datagram := by
  rw [received, m.named.decode (prefix_overwrite ..), Message.datagram]

/-- After a call the loop reads what the call has returned. -/
theorem readDatagrams_recvBatch (buf : BatchBuf) (ds : List Datagram)
    (fit : ds.length ≤ buf.batchSize)
    (small : ∀ d ∈ ds, d.payload.length ≤ buf.slotSize) :
    (buf.recvBatch ds).readDatagrams ds.length = some ds := by
  have fit' : ds.length ≤ (buf.recvBatch ds).batchSize := by rwa [recvBatch, batchSize_fillFrom]
  rw [readDatagrams_eq fit', slots_recvBatch fit small]

theorem readPayloads_recvBatch (buf : BatchBuf) (ds : List Datagram)
    (fit : ds.length ≤ buf.batchSize)
    (small : ∀ d ∈ ds, d.payload.length ≤ buf.slotSize) :
    (buf.recvBatch ds).readPayloads ds.length = some (ds.map Datagram.payload) := by
  have fit' : ds.length ≤ (buf.recvBatch ds).batchSize := by rwa [recvBatch, batchSize_fillFrom]
  rw [readPayloads_eq fit', slots_recvBatch fit small]

/-- A connected socket fills the slots as one would that happens to find the addresses which
are there already. -/
theorem fillConnectedFrom_eq (buf : BatchBuf) (index : Nat) (payloads : List Payload) :
    ∃ ds, buf.fillConnectedFrom index payloads = buf.fillFrom index ds ∧
      ds.map Datagram.payload = payloads := by
  induction payloads generalizing buf index with
  | nil => exact ⟨[], rfl, rfl⟩
  | cons payload payloads ih =>
      obtain ⟨ds, same, rest⟩ := ih (buf.fillConnected index payload) (index + 1)
      refine ⟨⟨buf.addr index, payload⟩ :: ds, ?_, ?_⟩
      · rw [fillConnectedFrom, same]
        rfl
      · rw [List.map_cons, rest]

/-! ### Runs -/

/-- A run of a receiving loop: what it reads, and the buffer at the end. A call that fails
leaves the buffer alone and is followed by the next one. -/
def readAll {μ : Type u} {ρ : Type v} (recv : BatchBuf → μ → BatchBuf × Nat)
    (read : BatchBuf → Nat → Option (List ρ)) :
    BatchBuf → List (Except ErrorKind μ) → Option (List ρ × BatchBuf)
  | buf, [] => some ([], buf)
  | buf, .error _ :: calls => readAll recv read buf calls
  | buf, .ok m :: calls =>
      (read (recv buf m).1 (recv buf m).2).bind fun front =>
        (readAll recv read (recv buf m).1 calls).map fun rest => (front ++ rest.1, rest.2)

/-- What the calls of a run have returned. -/
def arrivals {μ : Type u} (calls : List (Except ErrorKind μ)) : List μ :=
  calls.filterMap Except.toOption

/-- The buffer has the shape it was made with. -/
def Shaped (batchSize slotSize : Nat) (buf : BatchBuf) : Prop :=
  buf.batchSize = batchSize ∧ buf.slotSize = slotSize

/-- If after every call the loop reads what the call has returned, a run reads what all
calls have returned. -/
theorem readAll_of_each {μ : Type u} {ρ : Type v} {recv : BatchBuf → μ → BatchBuf × Nat}
    {read : BatchBuf → Nat → Option (List ρ)} {spec : μ → List ρ} {batchSize slotSize : Nat}
    {calls : List (Except ErrorKind μ)}
    (each : ∀ m ∈ arrivals calls, ∀ buf, Shaped batchSize slotSize buf →
      Shaped batchSize slotSize (recv buf m).1 ∧
        read (recv buf m).1 (recv buf m).2 = some (spec m))
    {buf : BatchBuf} (shaped : Shaped batchSize slotSize buf) :
    ∃ last, readAll recv read buf calls = some ((arrivals calls).flatMap spec, last) ∧
      Shaped batchSize slotSize last := by
  induction calls generalizing buf with
  | nil => exact ⟨buf, rfl, shaped⟩
  | cons call calls ih =>
      cases call with
      | error error => exact ih each shaped
      | ok m =>
          have later : ∀ m' ∈ arrivals calls, m' ∈ arrivals (.ok m :: calls) :=
            fun m' member => List.mem_cons_of_mem m member
          obtain ⟨kept, reads⟩ := each m (List.mem_cons_self ..) buf shaped
          obtain ⟨last, rest, final⟩ := ih (fun m' member => each m' (later m' member)) kept
          refine ⟨last, ?_, final⟩
          rw [readAll, reads, Option.bind_some, rest]
          rfl

/-- The run reads this and nothing else, without an index or a slice out of range, and no two
slots of the buffer it leaves behind share a byte. -/
def Reads {μ : Type u} {ρ : Type v} (recv : BatchBuf → μ → BatchBuf × Nat)
    (read : BatchBuf → Nat → Option (List ρ)) (buf : BatchBuf) (calls : List (Except ErrorKind μ))
    (expected : List ρ) : Prop :=
  ∃ last, readAll recv read buf calls = some (expected, last) ∧
    ∀ index other, index ≠ other →
      index * last.slotSize + last.lens.getD index 0 ≤ other * last.slotSize ∨
        other * last.slotSize + last.lens.getD other 0 ≤ index * last.slotSize

theorem Reads.of_each {μ : Type u} {ρ : Type v} {recv : BatchBuf → μ → BatchBuf × Nat}
    {read : BatchBuf → Nat → Option (List ρ)} (spec : μ → List ρ) {expected : List ρ}
    {calls : List (Except ErrorKind μ)}
    (each : ∀ m ∈ arrivals calls, ∀ buf', Shaped buf.batchSize buf.slotSize buf' →
      Shaped buf.batchSize buf.slotSize (recv buf' m).1 ∧
        read (recv buf' m).1 (recv buf' m).2 = some (spec m))
    (all : (arrivals calls).flatMap spec = expected) : Reads recv read buf calls expected := by
  obtain ⟨last, reads, -⟩ := readAll_of_each each ⟨rfl, rfl⟩
  refine ⟨last, all ▸ reads, fun index other ne => ?_⟩
  exact slots_apart ne (last.getD_lens_le index) (last.getD_lens_le other)

variable {batchSize slotSize : Nat} {messages : List (Message e)} {m : Message e}

theorem shaped_recvBatch (shaped : Shaped batchSize slotSize buf) (ds : List Datagram) :
    Shaped batchSize slotSize (buf.recvBatch ds) :=
  ⟨(batchSize_fillFrom ..).trans shaped.1, (slotSize_fillFrom ..).trans shaped.2⟩

theorem recvBatchLinux_reads (shaped : Shaped batchSize slotSize buf)
    (count : messages.length ≤ batchSize)
    (small : ∀ m ∈ messages, m.payload.length ≤ slotSize) :
    Shaped batchSize slotSize (buf.recvBatchLinux messages).1 ∧
      (buf.recvBatchLinux messages).1.readDatagrams (buf.recvBatchLinux messages).2 =
        some (messages.map Message.datagram) := by
  obtain ⟨rfl, rfl⟩ := shaped
  have same : messages.map received = messages.map Message.datagram :=
    List.map_congr_left fun m _ => received_eq m
  rw [recvBatchLinux, same]
  refine ⟨shaped_recvBatch ⟨rfl, rfl⟩ _, ?_⟩
  have reads := buf.readDatagrams_recvBatch (messages.map Message.datagram)
    (by rwa [List.length_map]) (by simpa [Message.datagram] using small)
  rwa [List.length_map] at reads

theorem recvBatchPortable_reads (shaped : Shaped batchSize slotSize buf)
    (small : m.payload.length ≤ slotSize) :
    Shaped batchSize slotSize (buf.recvBatchPortable m).1 ∧
      (buf.recvBatchPortable m).1.readDatagrams (buf.recvBatchPortable m).2 =
        some [m.datagram] := by
  obtain ⟨rfl, rfl⟩ := shaped
  refine ⟨shaped_recvBatch ⟨rfl, rfl⟩ [m.datagram], ?_⟩
  exact buf.readDatagrams_recvBatch [m.datagram] buf.positive (by simpa [Message.datagram])

theorem recvBatchConnectedLinux_reads (shaped : Shaped batchSize slotSize buf)
    (count : messages.length ≤ batchSize)
    (small : ∀ m ∈ messages, m.payload.length ≤ slotSize) :
    Shaped batchSize slotSize (buf.recvBatchConnectedLinux messages).1 ∧
      (buf.recvBatchConnectedLinux messages).1.readPayloads
        (buf.recvBatchConnectedLinux messages).2 = some (messages.map Message.payload) := by
  obtain ⟨rfl, rfl⟩ := shaped
  obtain ⟨ds, same, payloads⟩ := buf.fillConnectedFrom_eq 0 (messages.map Message.payload)
  have length : ds.length = messages.length := by
    have lengths := congrArg List.length payloads
    rwa [List.length_map, List.length_map] at lengths
  have small' : ∀ d ∈ ds, d.payload.length ≤ buf.slotSize := by
    intro d member
    have payload : d.payload ∈ messages.map Message.payload :=
      payloads ▸ List.mem_map_of_mem member
    obtain ⟨m, member', equal⟩ := List.mem_map.mp payload
    rw [← equal]
    exact small m member'
  rw [recvBatchConnectedLinux, same]
  refine ⟨shaped_recvBatch ⟨rfl, rfl⟩ ds, ?_⟩
  have reads := buf.readPayloads_recvBatch ds (length ▸ count) small'
  rwa [length, payloads] at reads

theorem recvBatchConnectedPortable_reads (shaped : Shaped batchSize slotSize buf)
    (small : m.payload.length ≤ slotSize) :
    Shaped batchSize slotSize (buf.recvBatchConnectedPortable m).1 ∧
      (buf.recvBatchConnectedPortable m).1.readPayloads
        (buf.recvBatchConnectedPortable m).2 = some [m.payload] := by
  have count : [m].length ≤ batchSize := shaped.1 ▸ buf.positive
  exact recvBatchConnectedLinux_reads shaped count (by simpa using small)

/-- However the kernel divides the datagrams among the calls, with whatever errors in
between, the loops read them as they arrived, on Linux as on a system that receives them one
by one. -/
theorem batched_receive (positive : 0 < batchSize) (bounded : batchSize ≤ maxBatchSize)
    {calls : List (Except ErrorKind (List (Message e)))}
    {singles : List (Except ErrorKind (Message e))}
    (counts : ∀ messages ∈ arrivals calls, messages.length ≤ batchSize)
    (small : ∀ messages ∈ arrivals calls, ∀ m ∈ messages, m.payload.length ≤ slotSize)
    (same : arrivals singles = (arrivals calls).flatten) :
    Reads recvBatchLinux readDatagrams (new batchSize slotSize positive bounded) calls
      ((arrivals calls).flatten.map Message.datagram) ∧
    Reads recvBatchPortable readDatagrams (new batchSize slotSize positive bounded) singles
      ((arrivals calls).flatten.map Message.datagram) ∧
    Reads recvBatchConnectedLinux readPayloads (new batchSize slotSize positive bounded) calls
      ((arrivals calls).flatten.map Message.payload) ∧
    Reads recvBatchConnectedPortable readPayloads (new batchSize slotSize positive bounded) singles
      ((arrivals calls).flatten.map Message.payload) := by
  have single : ∀ m ∈ arrivals singles, m.payload.length ≤ slotSize := by
    rw [same]
    intro m member
    obtain ⟨messages, call, member'⟩ := List.mem_flatten.mp member
    exact small messages call m member'
  refine ⟨.of_each (List.map Message.datagram) ?_ ?_, .of_each (fun m => [m.datagram]) ?_ ?_,
    .of_each (List.map Message.payload) ?_ ?_, .of_each (fun m => [m.payload]) ?_ ?_⟩
  · exact fun messages call buf shaped =>
      recvBatchLinux_reads shaped (counts messages call) (small messages call)
  · exact (List.map_flatten ..).symm
  · exact fun m call buf shaped => recvBatchPortable_reads shaped (single m call)
  · rw [← same, List.map_eq_flatMap]
  · exact fun messages call buf shaped =>
      recvBatchConnectedLinux_reads shaped (counts messages call) (small messages call)
  · exact (List.map_flatten ..).symm
  · exact fun m call buf shaped => recvBatchConnectedPortable_reads shaped (single m call)
  · rw [← same, List.map_eq_flatMap]

/-- A long datagram and a short one that comes to lie in the same slot. -/
def localMessage (payload : Payload) : Message .little where
  source := .v4 0x7f000001 4000
  name := zeroPadded .little (.v4 0x7f000001 4000)
  payload := payload
  named := encodes_zeroPadded ..

def twoCalls : List (Except ErrorKind (List (Message .little))) :=
  [.ok [localMessage [1, 2, 3], localMessage [4]], .error .interrupted, .ok [localMessage [5]]]

theorem batched_receive_twoCalls :
    Reads recvBatchLinux readDatagrams (new 2 4 (by decide) (by decide)) twoCalls
      ((arrivals twoCalls).flatten.map Message.datagram) ∧
    Reads recvBatchPortable readDatagrams (new 2 4 (by decide) (by decide))
      ((arrivals twoCalls).flatten.map .ok)
      ((arrivals twoCalls).flatten.map Message.datagram) ∧
    Reads recvBatchConnectedLinux readPayloads (new 2 4 (by decide) (by decide)) twoCalls
      ((arrivals twoCalls).flatten.map Message.payload) ∧
    Reads recvBatchConnectedPortable readPayloads (new 2 4 (by decide) (by decide))
      ((arrivals twoCalls).flatten.map .ok)
      ((arrivals twoCalls).flatten.map Message.payload) := by
  refine batched_receive (by decide) (by decide) ?_ ?_ rfl
  · simp [twoCalls, arrivals, Except.toOption]
  · simp [twoCalls, arrivals, Except.toOption, localMessage]

end BatchBuf

end RangePorter
