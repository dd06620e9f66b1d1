import RangePorter.Listener.UdpSend

/-!
# What one flush sends

`flush` is a loop whose state is what it would leave behind if it ended here. The packets
before the offset are those the kernel has taken, once each, and those `udp_out_bytes`
has been told of. That holds whatever `send_batch` answers, so it is proved here for every
sequence of answers; each round either uses up one answer that is worth a retry or moves
the offset.
-/

namespace RangePorter

universe v

/-! ### Counted packets -/

section

variable {π : Type v} (packet : π → ReplyPacket)

theorem addUdpOutAll_append (stats : PortStats) (ps qs : List π) :
    addUdpOutAll packet stats (ps ++ qs) = addUdpOutAll packet (addUdpOutAll packet stats ps) qs :=
  List.foldl_append ..

/-- Only `udp_out_bytes` rises, and by the bytes of the packets. -/
theorem load_addUdpOutAll (stats : PortStats) (ps : List π)
    (fits : stats.load .udpOutBytes < u64Size) :
    (addUdpOutAll packet stats ps).load .udpOutBytes =
      wrappingAdd (stats.load .udpOutBytes) (ps.map fun p => (packet p).bytes).sum ∧
    ∀ c ≠ Counter.udpOutBytes, (addUdpOutAll packet stats ps).load c = stats.load c := by
  induction ps generalizing stats with
  | nil => exact ⟨(Nat.mod_eq_of_lt fits).symm, fun _ _ => rfl⟩
  | cons p ps ih =>
      let op := CounterOp.fetchAdd .udpOutBytes (packet p).bytes
      have own : (stats.apply op).load .udpOutBytes =
          wrappingAdd (stats.load .udpOutBytes) (packet p).bytes := stats.load_apply_self op
      have less : (stats.apply op).load .udpOutBytes < u64Size := own ▸ Nat.mod_lt _ u64Size_pos
      obtain ⟨bytes, others⟩ := ih (stats.apply op) less
      refine ⟨?_, fun c ne => (others c ne).trans (stats.load_apply_of_ne ne)⟩
      calc
        (addUdpOutAll packet stats (p :: ps)).load .udpOutBytes =
            wrappingAdd ((stats.apply op).load .udpOutBytes)
              (ps.map fun p => (packet p).bytes).sum := bytes
        _ = _ := by
          rw [own, wrappingAdd, wrappingAdd, wrappingAdd, Nat.mod_add_mod, List.map_cons,
            List.sum_cons, Nat.add_assoc]

end

/-! ### Every sequence of answers -/

/-- A kernel that has answered some calls, and what it has sent for them. -/
structure Answered (π : Type v) where
  calls : Nat
  sent : List π
  deriving DecidableEq, Repr

section

variable {π : Type v} (packet : π → ReplyPacket) (results : Nat → Except ErrorKind Nat)

/-- Each call has the next result. With `Ok(k)` the first `k` packets offered are sent,
with an error none. -/
def answering (k : Answered π) (offered : List π) : Except ErrorKind Nat × Answered π :=
  (results k.calls,
    ⟨k.calls + 1, k.sent ++ offered.take ((results k.calls).toOption.getD 0)⟩)

/-- How many packets the calls before the `i`-th one have sent. -/
def sentBefore : Nat → Nat
  | 0 => 0
  | i + 1 => sentBefore i + (results i).toOption.getD 0

/-- No call of a flush of so many packets reports more than it was offered. What comes
after the last call does not matter. -/
def Admissible (length : Nat) : Prop :=
  ∀ i, (∀ j < i, breaks (results j) = false) → sentBefore results i < length →
    sentBefore results i + (results i).toOption.getD 0 ≤ length

/-- What holds before every round. -/
structure Progress (stats : PortStats) (batch : List π) (s : Flushed (Answered π)) : Prop where
  offset : s.start = sentBefore results s.kernel.calls
  within : s.start ≤ batch.length
  sent : s.kernel.sent = batch.take s.start
  counted : s.stats = addUdpOutAll packet stats (batch.take s.start)
  goesOn : ∀ i < s.kernel.calls, breaks (results i) = false

/-- What holds when the loop has ended. -/
structure SentPrefix (stats : PortStats) (batch : List π) (flushed : Flushed (Answered π)) :
    Prop where
  within : flushed.start ≤ batch.length
  /-- The packets sent are a prefix of the batch, each sent once and in order. -/
  sent : flushed.kernel.sent = batch.take flushed.start
  counted : flushed.stats = addUdpOutAll packet stats (batch.take flushed.start)
  /-- The prefix is the whole batch unless some call had a result that ends the loop. -/
  stopped : flushed.start = batch.length ∨ ∃ i < flushed.kernel.calls, breaks (results i) = true

variable {packet results} {stats : PortStats} {batch : List π} {s t : Flushed (Answered π)}

/-- One round keeps the books, and it neither panics nor ends too soon. -/
theorem Progress.next (progress : Progress packet results stats batch s)
    (admissible : Admissible results batch.length) {round}
    (taken : FlushRound packet (answering results) batch s round) :
    (∃ t, round = .inl t ∧ Progress packet results stats batch t ∧ s.start < batch.length ∧
      t.kernel.calls = s.kernel.calls + 1 ∧
      t.start = s.start + (results s.kernel.calls).toOption.getD 0) ∨
    ∃ flushed, round = .inr (.ok flushed) ∧ SentPrefix packet results stats batch flushed := by
  cases taken with
  | goesOn more answer within retries =>
      cases answer
      refine .inl ⟨_, rfl, ?_, more, rfl, rfl⟩
      constructor
      case offset => simp only [progress.offset, sentBefore]
      case within => exact within
      case sent => simp only [progress.sent, List.take_add]
      case counted => rw [progress.counted, ← addUdpOutAll_append, ← List.take_add]
      case goesOn =>
          intro i lt
          obtain old | rfl := Nat.lt_succ_iff_lt_or_eq.mp lt
          · exact progress.goesOn i old
          · exact retries
  | breaks more answer ends =>
      cases answer
      refine .inr ⟨_, rfl, ?_⟩
      have none := (flushNext_of_breaks ends s.start).2
      constructor
      case within => exact progress.within
      case sent => rw [none, List.take_zero, List.append_nil, progress.sent]
      case counted => exact progress.counted
      case stopped => exact .inr ⟨s.kernel.calls, Nat.lt_succ_self _, ends⟩
  | panics more answer outside =>
      cases answer
      have offset := progress.offset
      have inside := admissible s.kernel.calls progress.goesOn (offset ▸ more)
      exact absurd (offset ▸ inside) (Nat.not_le.mpr outside)
  | complete all =>
      have whole := Nat.le_antisymm progress.within all
      exact .inr ⟨s, rfl, progress.within, progress.sent, progress.counted, .inl whole⟩

variable (packet stats) in
/-- With finitely many results that are worth a retry, the flush ends. -/
theorem flush_returns (admissible : Admissible results batch.length) {last : Nat}
    (finite : ∀ i ≥ last, ∀ error, results i = .error error → error.retried = false) :
    ∃ r, Loop.run (flushRound packet (answering results) batch) (last + batch.length + 1)
        ⟨⟨0, []⟩, stats, 0⟩ = some r ∧
      ∃ flushed, r = .ok flushed ∧ SentPrefix packet results stats batch flushed := by
  have spec := flushRound_spec packet (answering results) batch
  have initial : Progress packet results stats batch ⟨⟨0, []⟩, stats, 0⟩ :=
    ⟨rfl, Nat.zero_le _, rfl, rfl, nofun⟩
  refine Loop.run_of_variant (Progress packet results stats batch)
    (fun s => (last - s.kernel.calls) + (batch.length - s.start)) ?_ initial (Nat.lt_succ_self _)
  intro s progress
  obtain ⟨t, goesOn, progress', more, calls, start⟩ | ⟨flushed, ends, sent⟩ :=
    progress.next admissible (spec s)
  · refine .inl ⟨t, goesOn, progress', ?_⟩
    have within := progress'.within
    have goesOn' : breaks (results s.kernel.calls) = false :=
      progress'.goesOn s.kernel.calls (by omega)
    -- Either packets were sent, or one of the finitely many retries has been used.
    obtain sends | ⟨error, failed, retried⟩ := sends_or_retries goesOn'
    · omega
    · have early : s.kernel.calls < last := by
        by_contra late
        have hard := finite s.kernel.calls (Nat.not_lt.mp late) error failed
        rw [retried] at hard
        cases hard
      omega
  · exact .inr ⟨_, ends, flushed, rfl, sent⟩

/-- Whatever `send_batch` answers, as long as it does not ask for a retry for ever: the
flush ends, it has sent a prefix of the batch and counted exactly that prefix, and it has
sent the whole batch unless some call had a result that ends the loop. -/
theorem flush_sends_prefix (fits : stats.load .udpOutBytes < u64Size)
    (filled : ∀ p ∈ batch, (packet p).bytes = (packet p).payload.length)
    (admissible : Admissible results batch.length)
    (finite : ∃ last, ∀ i ≥ last, ∀ error, results i = .error error → error.retried = false) :
    ∃ flushed enough,
      (∀ fuel ≥ enough,
        flush packet (answering results) fuel ⟨0, []⟩ stats batch 0 = .ok flushed) ∧
      flushed.start ≤ batch.length ∧
      flushed.kernel.sent = batch.take flushed.start ∧
      flushed.stats.load .udpOutBytes = wrappingAdd (stats.load .udpOutBytes)
        ((batch.take flushed.start).map fun p => (packet p).payload.length).sum ∧
      (∀ c ≠ Counter.udpOutBytes, flushed.stats.load c = stats.load c) ∧
      (flushed.start = batch.length ∨
        ∃ i < flushed.kernel.calls, breaks (results i) = true) := by
  obtain ⟨last, finite⟩ := finite
  obtain ⟨r, found, flushed, rfl, prefixSent⟩ := flush_returns packet stats admissible finite
  obtain ⟨bytes, others⟩ := load_addUdpOutAll packet stats (batch.take flushed.start) fits
  have lengths : (batch.take flushed.start).map (fun p => (packet p).bytes) =
      (batch.take flushed.start).map fun p => (packet p).payload.length :=
    List.map_congr_left fun p member => filled p (List.mem_of_mem_take member)
  refine ⟨flushed, last + batch.length + 1, ?_, prefixSent.within, prefixSent.sent, ?_, ?_,
    prefixSent.stopped⟩
  · intro fuel le
    have run := flush_eq_run packet (answering results) fuel ⟨⟨0, []⟩, stats, 0⟩ batch
    rw [run, Loop.run_mono found le, Option.getD_some]
  · rw [prefixSent.counted, bytes, lengths]
  · rw [prefixSent.counted]
    exact others

end

/-- An interrupt, one packet, a full socket and the other packet. -/
def interruptedResults : Nat → Except ErrorKind Nat
  | 0 => .error .interrupted
  | 2 => .error .wouldBlock
  | _ => .ok 1

theorem admissible_interruptedResults : Admissible interruptedResults 2 := by
  intro i _ unsent
  match i, unsent with
  | 0, _ | 1, _ | 2, _ | 3, _ => decide
  | i + 4, unsent =>
      have grows : ∀ i, 2 ≤ sentBefore interruptedResults (i + 4) := by
        intro i
        induction i with
        | zero => decide
        | succ i ih => exact Nat.le_add_right_of_le ih
      exact absurd unsent (Nat.not_lt.mpr (grows i))

theorem flush_interruptedResults :
    ∃ flushed enough,
      (∀ fuel ≥ enough,
        flush id (answering interruptedResults) fuel ⟨0, []⟩ (.new 9000) unreachableFirst 0 =
          .ok flushed) ∧
      flushed.start ≤ unreachableFirst.length ∧
      flushed.kernel.sent = unreachableFirst.take flushed.start ∧
      flushed.stats.load .udpOutBytes = wrappingAdd ((PortStats.new 9000).load .udpOutBytes)
        ((unreachableFirst.take flushed.start).map fun p => p.payload.length).sum ∧
      (∀ c ≠ Counter.udpOutBytes, flushed.stats.load c = (PortStats.new 9000).load c) ∧
      (flushed.start = unreachableFirst.length ∨
        ∃ i < flushed.kernel.calls, breaks (interruptedResults i) = true) := by
  refine flush_sends_prefix u64Size_pos (by decide) admissible_interruptedResults ⟨3, ?_⟩
  intro i late error failed
  match i with
  | i + 3 => cases failed

end RangePorter
