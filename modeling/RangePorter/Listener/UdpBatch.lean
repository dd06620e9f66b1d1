import RangePorter.Net
import Mathlib.Data.List.TakeWhile

/-!
# Batched receive and send

A `BatchBuf` is one flat buffer, cut into slots of equal size, with a length and a
source address for each slot. It is reused for every batch: a receive overwrites the
front of some slots and nothing else. `slots_recvBatch` says that the slots of one batch
read as the datagrams just received, whatever an earlier batch has left in the buffer.

`sendBatch` offers packets to the kernel in order. What the kernel does with a packet is
a function of its own state; the number it reports is the number it has accepted.
-/

namespace RangePorter

def maxBatchSize : Nat := 32
def maxDatagram : Nat := 65535

def listenerBatchSize : Nat := 32
def listenerSlotSize : Nat := maxDatagram

def sessionBatchSize : Nat := 8
def sessionSlotSize : Nat := maxDatagram

/-- The kinds of `io::Error` that the program tells apart. -/
inductive ErrorKind where
  | wouldBlock
  | interrupted
  | connectionRefused
  | hostUnreachable
  | networkUnreachable
  | other
  deriving DecidableEq, Repr

/-- A datagram as it arrives: a source that is neither IPv4 nor IPv6 has no address. -/
structure Datagram where
  source : Option SocketAddr
  payload : Payload
  deriving DecidableEq, Repr

/-! ### Flat memory -/

/-- Write bytes into memory from an offset on. -/
def overwrite (data : List UInt8) (offset : Nat) (bytes : List UInt8) : List UInt8 :=
  data.take offset ++ bytes ++ data.drop (offset + bytes.length)

section

variable {data bytes : List UInt8} {offset : Nat}

theorem length_overwrite (fits : offset + bytes.length ≤ data.length) :
    (overwrite data offset bytes).length = data.length := by
  simp only [overwrite, List.length_append, List.length_take, List.length_drop]
  omega

theorem drop_take_overwrite (fits : offset + bytes.length ≤ data.length) :
    ((overwrite data offset bytes).drop offset).take bytes.length = bytes := by
  have front : (data.take offset).length = offset := List.length_take_of_le (by omega)
  rw [overwrite, List.append_assoc, List.drop_append_of_le_length front.ge,
    List.drop_of_length_le front.le, List.nil_append, List.take_left]

/-- What lies before the bytes written, or behind them, is as it was. -/
theorem drop_take_overwrite_apart {start length : Nat}
    (fits : offset + bytes.length ≤ data.length)
    (apart : start + length ≤ offset ∨ offset + bytes.length ≤ start) :
    ((overwrite data offset bytes).drop start).take length = (data.drop start).take length := by
  apply List.ext_getElem?
  intro i
  have front : (data.take offset).length = offset := List.length_take_of_le (by omega)
  by_cases inside : i < length
  · simp only [List.getElem?_take, if_pos inside, List.getElem?_drop, overwrite]
    obtain before | behind := apart
    · rw [List.append_assoc, List.getElem?_append_left (by omega), List.getElem?_take,
        if_pos (by omega)]
    · rw [List.getElem?_append_right (by rw [List.length_append]; omega), List.getElem?_drop,
        List.length_append, front]
      congr 1
      omega
  · simp only [List.getElem?_take, if_neg inside]

end

/-! ### Receive buffers -/

structure BatchBuf where
  data : List UInt8
  lens : List Nat
  addrs : List (Option SocketAddr)
  batchSize : Nat
  slotSize : Nat
  positive : 0 < batchSize
  bounded : batchSize ≤ maxBatchSize
  length_data : data.length = batchSize * slotSize
  length_lens : lens.length = batchSize
  length_addrs : addrs.length = batchSize
  short : ∀ length ∈ lens, length ≤ slotSize

namespace BatchBuf

def new (batchSize slotSize : Nat) (positive : 0 < batchSize) (bounded : batchSize ≤ maxBatchSize) :
    BatchBuf where
  data := List.replicate (batchSize * slotSize) 0
  lens := List.replicate batchSize 0
  addrs := List.replicate batchSize none
  batchSize := batchSize
  slotSize := slotSize
  positive := positive
  bounded := bounded
  length_data := List.length_replicate ..
  length_lens := List.length_replicate ..
  length_addrs := List.length_replicate ..
  short := by
    intro length member
    rw [List.eq_of_mem_replicate member]
    exact Nat.zero_le _

def slot (buf : BatchBuf) (index : Nat) : Payload :=
  (buf.data.drop (index * buf.slotSize)).take (buf.lens.getD index 0)

def addr (buf : BatchBuf) (index : Nat) : Option SocketAddr := buf.addrs.getD index none

/-- Slot `index` as a datagram. -/
def datagram (buf : BatchBuf) (index : Nat) : Datagram := ⟨buf.addr index, buf.slot index⟩

theorem fits_of_lt {buf : BatchBuf} {index length : Nat} (inside : index < buf.batchSize)
    (small : length ≤ buf.slotSize) : index * buf.slotSize + length ≤ buf.data.length := by
  rw [buf.length_data]
  calc
    index * buf.slotSize + length ≤ index * buf.slotSize + buf.slotSize := by omega
    _ = (index + 1) * buf.slotSize := (Nat.succ_mul ..).symm
    _ ≤ buf.batchSize * buf.slotSize := Nat.mul_le_mul_right _ inside

/-- The kernel fills one slot, as far as the slot reaches. -/
def fill (buf : BatchBuf) (index : Nat) (d : Datagram) : BatchBuf :=
  if inside : index < buf.batchSize then
    { buf with
      data := overwrite buf.data (index * buf.slotSize) (d.payload.take buf.slotSize)
      lens := buf.lens.set index (d.payload.take buf.slotSize).length
      addrs := buf.addrs.set index d.source
      length_data := by
        rw [length_overwrite (fits_of_lt inside (List.length_take_le ..)), buf.length_data]
      length_lens := by rw [List.length_set, buf.length_lens]
      length_addrs := by rw [List.length_set, buf.length_addrs]
      short := by
        intro length member
        obtain old | rfl := List.mem_or_eq_of_mem_set member
        · exact buf.short length old
        · exact List.length_take_le .. }
  else buf

/-- Fill the slots from `index` on, in order. -/
def fillFrom (buf : BatchBuf) (index : Nat) : List Datagram → BatchBuf
  | [] => buf
  | d :: ds => (buf.fill index d).fillFrom (index + 1) ds

/-- `recv_batch` once the kernel has delivered these datagrams. -/
def recvBatch (buf : BatchBuf) (received : List Datagram) : BatchBuf := buf.fillFrom 0 received

/-- The slots from `start` to `stop`, as the loops over a batch read them. -/
def slots (buf : BatchBuf) (start stop : Nat) : List Datagram :=
  (List.range' start (stop - start)).map buf.datagram

section

variable {buf : BatchBuf} {index other : Nat} {d : Datagram}

@[simp] theorem batchSize_fill : (buf.fill index d).batchSize = buf.batchSize := by
  unfold fill
  split <;> rfl

@[simp] theorem slotSize_fill : (buf.fill index d).slotSize = buf.slotSize := by
  unfold fill
  split <;> rfl

theorem datagram_fill_self (inside : index < buf.batchSize)
    (small : d.payload.length ≤ buf.slotSize) : (buf.fill index d).datagram index = d := by
  have whole : d.payload.take buf.slotSize = d.payload := List.take_of_length_le small
  have slot : ((overwrite buf.data (index * buf.slotSize) d.payload).drop
      (index * buf.slotSize)).take d.payload.length = d.payload :=
    drop_take_overwrite (fits_of_lt inside small)
  simp [datagram, addr, BatchBuf.slot, fill, inside, whole, slot, buf.length_lens,
    buf.length_addrs]

theorem getD_lens_le (buf : BatchBuf) (index : Nat) : buf.lens.getD index 0 ≤ buf.slotSize := by
  rw [List.getD_eq_getElem?_getD]
  cases found : buf.lens[index]? with
  | none => exact Nat.zero_le _
  | some length => exact buf.short length (List.mem_of_getElem? found)

/-- Parts of two slots never share a byte. -/
theorem slots_apart {size a b : Nat} (ne : index ≠ other) (short : a ≤ size) (short' : b ≤ size) :
    index * size + a ≤ other * size ∨ other * size + b ≤ index * size := by
  obtain low | high := Nat.lt_or_gt_of_ne ne
  · have turn := Nat.mul_le_mul_right size (show index + 1 ≤ other from low)
    rw [Nat.succ_mul] at turn
    omega
  · have turn := Nat.mul_le_mul_right size (show other + 1 ≤ index from high)
    rw [Nat.succ_mul] at turn
    omega

/-- The slots do not overlap, so filling one leaves the others as they are. -/
theorem datagram_fill_other (ne : other ≠ index) :
    (buf.fill index d).datagram other = buf.datagram other := by
  have short := buf.getD_lens_le other
  by_cases inside : index < buf.batchSize
  · have apart : other * buf.slotSize + buf.lens.getD other 0 ≤ index * buf.slotSize ∨
        index * buf.slotSize + (d.payload.take buf.slotSize).length ≤ other * buf.slotSize :=
      slots_apart ne short (List.length_take_le ..)
    have same := drop_take_overwrite_apart
      (fits_of_lt inside (List.length_take_le (i := buf.slotSize) (l := d.payload))) apart
    simp only [datagram, addr, BatchBuf.slot, fill, inside, dif_pos, List.getD_eq_getElem?_getD,
      List.getElem?_set_ne (Ne.symm ne)] at same ⊢
    rw [same]
  · simp [fill, inside]

@[simp] theorem batchSize_fillFrom (buf : BatchBuf) (index : Nat) (ds : List Datagram) :
    (buf.fillFrom index ds).batchSize = buf.batchSize := by
  induction ds generalizing buf index with
  | nil => rfl
  | cons d ds ih => rw [fillFrom, ih, batchSize_fill]

@[simp] theorem slotSize_fillFrom (buf : BatchBuf) (index : Nat) (ds : List Datagram) :
    (buf.fillFrom index ds).slotSize = buf.slotSize := by
  induction ds generalizing buf index with
  | nil => rfl
  | cons d ds ih => rw [fillFrom, ih, slotSize_fill]

theorem datagram_fillFrom_before (ds : List Datagram) (before : other < index) :
    (buf.fillFrom index ds).datagram other = buf.datagram other := by
  induction ds generalizing buf index with
  | nil => rfl
  | cons d ds ih => rw [fillFrom, ih (by omega), datagram_fill_other (by omega)]

@[simp] theorem slots_self (buf : BatchBuf) (start : Nat) : buf.slots start start = [] := by
  simp [slots]

theorem slots_of_lt {start stop : Nat} (lt : start < stop) :
    buf.slots start stop = buf.datagram start :: buf.slots (start + 1) stop := by
  rw [slots, show stop - start = (stop - (start + 1)) + 1 by omega, List.range'_succ,
    List.map_cons, slots]

theorem slots_fillFrom {ds : List Datagram} (fit : index + ds.length ≤ buf.batchSize)
    (small : ∀ d ∈ ds, d.payload.length ≤ buf.slotSize) :
    (buf.fillFrom index ds).slots index (index + ds.length) = ds := by
  induction ds generalizing buf index with
  | nil => simp
  | cons d ds ih =>
      rw [List.length_cons] at fit ⊢
      have head := small d (List.mem_cons_self ..)
      have fit' : index + 1 + ds.length ≤ (buf.fill index d).batchSize := by
        rw [batchSize_fill]
        omega
      have small' : ∀ d' ∈ ds, d'.payload.length ≤ (buf.fill index d).slotSize := by
        intro d' member
        rw [slotSize_fill]
        exact small d' (List.mem_cons_of_mem d member)
      have rest := ih fit' small'
      rw [slots_of_lt (by omega), fillFrom, datagram_fillFrom_before ds (by omega),
        datagram_fill_self (by omega) head]
      rw [show index + (ds.length + 1) = index + 1 + ds.length by omega, rest]

/-- The slots of a batch read as the datagrams just received. -/
theorem slots_recvBatch {received : List Datagram} (fit : received.length ≤ buf.batchSize)
    (small : ∀ d ∈ received, d.payload.length ≤ buf.slotSize) :
    (buf.recvBatch received).slots 0 received.length = received := by
  have all : (buf.fillFrom 0 received).slots 0 (0 + received.length) = received :=
    slots_fillFrom (by rwa [Nat.zero_add]) small
  rwa [Nat.zero_add] at all

end

end BatchBuf

/-! ### Sending -/

structure ReplyPacket where
  dst : SocketAddr
  payload : Payload
  bytes : Nat
  deriving DecidableEq, Repr

inductive Platform where
  | linux
  /-- Any other system, where packets are sent one by one. -/
  | portable
  deriving DecidableEq, Repr

section

universe u v

variable {κ : Type u} {π : Type v}

/-- What the kernel does with one packet: it accepts it or reports an error. -/
abbrev Attempt (κ : Type u) (π : Type v) := κ → π → Option ErrorKind × κ

/-- Attempt packets in order up to the first failure: how many were accepted, and the
error that ended the attempts if there was one. -/
def attemptAll (attempt : Attempt κ π) : κ → List π → Nat × Option ErrorKind × κ
  | k, [] => (0, none, k)
  | k, packet :: packets =>
      match attempt k packet with
      | (some error, k') => (0, some error, k')
      | (none, k') =>
          let (sent, error, k'') := attemptAll attempt k' packets
          (sent + 1, error, k'')

/-- `send_batch`: the packets that one call offers, and what it reports of them. An error
is reported only if no packet was accepted before it. -/
def sendBatch (platform : Platform) (attempt : Attempt κ π) (k : κ) (packets : List π) :
    Except ErrorKind Nat × κ :=
  let offered := match platform with
    | .linux => packets.take maxBatchSize
    | .portable => packets
  match attemptAll attempt k offered with
  | (0, some error, k') => (.error error, k')
  | (sent, _, k') => (.ok sent, k')

variable {attempt : Attempt κ π} {k k' : κ} {p : π} {packets : List π} {error : ErrorKind}

theorem attemptAll_cons_of_some (failed : attempt k p = (some error, k')) :
    attemptAll attempt k (p :: packets) = (0, some error, k') := by
  rw [attemptAll, failed]

theorem attemptAll_cons_of_none (accepted : attempt k p = (none, k')) :
    attemptAll attempt k (p :: packets) =
      ((attemptAll attempt k' packets).1 + 1, (attemptAll attempt k' packets).2) := by
  rw [attemptAll, accepted]

/-- Either all packets were accepted, or an error came after fewer. -/
theorem attemptAll_cases (attempt : Attempt κ π) (k : κ) (packets : List π) :
    (∃ k', attemptAll attempt k packets = (packets.length, none, k')) ∨
    ∃ sent error k', attemptAll attempt k packets = (sent, some error, k') ∧
      sent < packets.length := by
  induction packets generalizing k with
  | nil => exact .inl ⟨k, rfl⟩
  | cons p packets ih =>
      rcases outcome : attempt k p with ⟨_ | error, k₁⟩
      · rw [attemptAll_cons_of_none outcome]
        obtain ⟨k', all⟩ | ⟨sent, error, k', stops, less⟩ := ih k₁
        · exact .inl ⟨k', by rw [all, List.length_cons]⟩
        · exact .inr ⟨sent + 1, error, k', by rw [stops], Nat.succ_lt_succ less⟩
      · exact .inr ⟨0, error, k₁, attemptAll_cons_of_some outcome, Nat.succ_pos _⟩

theorem attemptAll_count (attempt : Attempt κ π) (k : κ) (packets : List π) :
    (attemptAll attempt k packets).1 ≤ packets.length := by
  obtain ⟨k', all⟩ | ⟨sent, error, k', stops, less⟩ := attemptAll_cases attempt k packets
  · rw [all]
  · rw [stops]
    exact less.le

/-- What follows a failure is not attempted; otherwise the attempts go on. -/
theorem attemptAll_append (attempt : Attempt κ π) (k : κ) (front back : List π) :
    attemptAll attempt k (front ++ back) =
      match attemptAll attempt k front with
      | (sent, some error, k') => (sent, some error, k')
      | (sent, none, k') =>
          (sent + (attemptAll attempt k' back).1, (attemptAll attempt k' back).2) := by
  induction front generalizing k with
  | nil => simp only [List.nil_append, attemptAll, Nat.zero_add]
  | cons p front ih =>
      rw [List.cons_append]
      rcases outcome : attempt k p with ⟨_ | error, k₁⟩
      · rw [attemptAll_cons_of_none outcome, attemptAll_cons_of_none outcome, ih]
        rcases attemptAll attempt k₁ front with ⟨sent, _ | error, k'⟩
        · exact Prod.ext (Nat.add_right_comm ..) rfl
        · rfl
      · rw [attemptAll_cons_of_some outcome, attemptAll_cons_of_some outcome]

/-- What a call reports of its attempts. -/
def report : Nat × Option ErrorKind × κ → Except ErrorKind Nat × κ
  | (0, some error, k') => (.error error, k')
  | (sent, _, k') => (.ok sent, k')

/-- A call reports the number of packets accepted, and an error only if that is zero. -/
theorem report_cases (sent : Nat) (error : Option ErrorKind) (k' : κ) :
    report (sent, error, k') = (.ok sent, k') ∨
      sent = 0 ∧ ∃ e, error = some e ∧ report (sent, error, k') = (.error e, k') := by
  rcases sent with _ | sent
  · rcases error with _ | e
    · exact .inl rfl
    · exact .inr ⟨rfl, e, rfl, rfl⟩
  · exact .inl rfl

theorem report_snd (attempts : Nat × Option ErrorKind × κ) :
    (report attempts).2 = attempts.2.2 := by
  rcases attempts with ⟨_ | sent, _ | error, k'⟩ <;> rfl

theorem report_count (attempts : Nat × Option ErrorKind × κ) :
    (report attempts).1.toOption.getD 0 = attempts.1 := by
  rcases attempts with ⟨_ | sent, _ | error, k'⟩ <;> rfl

/-- The packets that one call offers. -/
def offered : Platform → List π → List π
  | .linux, packets => packets.take maxBatchSize
  | .portable, packets => packets

theorem prefix_offered (platform : Platform) (packets : List π) :
    offered platform packets <+: packets := by
  cases platform with
  | linux => exact List.take_prefix ..
  | portable => exact List.prefix_rfl

/-- The first packet is always among them. -/
theorem offered_cons (platform : Platform) (p : π) (packets : List π) :
    ∃ rest, offered platform (p :: packets) = p :: rest := by
  cases platform with
  | linux => exact ⟨packets.take 31, rfl⟩
  | portable => exact ⟨packets, rfl⟩

theorem sendBatch_eq (platform : Platform) (attempt : Attempt κ π) (k : κ) (packets : List π) :
    sendBatch platform attempt k packets =
      report (attemptAll attempt k (offered platform packets)) := by
  cases platform <;> rfl

/-- A call whose first packet fails reports that and attempts no other. -/
theorem sendBatch_cons_of_some (platform : Platform) (failed : attempt k p = (some error, k')) :
    sendBatch platform attempt k (p :: packets) = (.error error, k') := by
  obtain ⟨rest, first⟩ := offered_cons platform p packets
  rw [sendBatch_eq, first, attemptAll_cons_of_some failed]
  rfl

/-- One call reports how many packets of those given to it have been sent. -/
theorem sendBatch_count (attempt : Attempt κ π) (platform : Platform) (k : κ)
    (packets : List π) :
    (sendBatch platform attempt k packets).1.toOption.getD 0 ≤ packets.length := by
  rw [sendBatch_eq, report_count]
  exact (attemptAll_count ..).trans (prefix_offered platform packets).length_le

/-- A call never reports packets behind the end of the batch. -/
theorem sendBatch_within {platform : Platform} {batch : List π} {start : Nat}
    {result : Except ErrorKind Nat} (more : start < batch.length)
    (answer : sendBatch platform attempt k (batch.drop start) = (result, k')) :
    start + result.toOption.getD 0 ≤ batch.length := by
  have count := sendBatch_count attempt platform k (batch.drop start)
  rw [answer, List.length_drop] at count
  dsimp only at count
  omega

end

end RangePorter
