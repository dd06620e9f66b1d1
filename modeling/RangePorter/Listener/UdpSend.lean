import RangePorter.Listener.UdpBatch
import RangePorter.Loop.Rounds
import RangePorter.Stats.Port

/-!
# Flushing a batch of replies

`flush` calls `send_batch` at a moving offset until the batch is sent or a call ends the
loop. One batch mixes packets of many clients.

The loop runs on fuel. A kernel that never accepts and never fails for good would keep
it going for ever; against the kernels below one round for each packet and one more is
enough.
-/

namespace RangePorter

/-- The queue of replies holds at most this many packets. -/
def replyQueueCapacity : Nat := 512

/-- The sender takes at most this many packets at once. -/
def sendBatchSize : Nat := 32

/-- Errors after which the same packets are offered again: `async_io` waits until the
socket is writable, and `flush` goes on after an interrupt. -/
def ErrorKind.retried : ErrorKind → Bool
  | wouldBlock | interrupted => true
  | _ => false

/-- The offset at which the loop of `flush` goes on, or `none` if it breaks. -/
def flushNext (start : Nat) : Except ErrorKind Nat → Option Nat
  | .ok 0 => none
  | .ok sent => some (start + sent)
  | .error error => if error.retried then some start else none

/-- The loop of `flush` breaks after these results. -/
def breaks : Except ErrorKind Nat → Bool
  | .ok sent => sent == 0
  | .error error => !error.retried

theorem flushNext_of_breaks {result : Except ErrorKind Nat} (ends : breaks result = true)
    (start : Nat) : flushNext start result = none ∧ result.toOption.getD 0 = 0 := by
  cases result with
  | ok sent =>
      rw [breaks, beq_iff_eq] at ends
      subst ends
      exact ⟨rfl, rfl⟩
  | error error =>
      rw [breaks, Bool.not_eq_true'] at ends
      simp [flushNext, ends, Except.toOption]

theorem flushNext_of_not_breaks {result : Except ErrorKind Nat} (goesOn : breaks result = false)
    (start : Nat) : flushNext start result = some (start + result.toOption.getD 0) := by
  cases result with
  | ok sent =>
      cases sent with
      | zero => cases goesOn
      | succ sent => rfl
  | error error =>
      rw [breaks, Bool.not_eq_false'] at goesOn
      simp [flushNext, goesOn, Except.toOption]

theorem sends_or_retries {result : Except ErrorKind Nat} (goesOn : breaks result = false) :
    0 < result.toOption.getD 0 ∨ ∃ error, result = .error error ∧ error.retried = true := by
  cases result with
  | ok sent =>
      rw [breaks, beq_eq_false_iff_ne] at goesOn
      exact .inl (Nat.pos_of_ne_zero goesOn)
  | error error =>
      rw [breaks, Bool.not_eq_false'] at goesOn
      exact .inr ⟨error, rfl, goesOn⟩

/-- The loop goes on behind the packets just sent. -/
theorem flushNext_eq {start next : Nat} {result : Except ErrorKind Nat}
    (goesOn : flushNext start result = some next) : next = start + result.toOption.getD 0 := by
  cases ends : breaks result with
  | true =>
      rw [(flushNext_of_breaks ends start).1] at goesOn
      cases goesOn
  | false =>
      rw [flushNext_of_not_breaks ends, Option.some.injEq] at goesOn
      exact goesOn.symm

/-- How a loop can fail to return. -/
inductive Halt where
  | outOfFuel
  /-- A slice out of range. -/
  | panic
  deriving DecidableEq, Repr

/-- What `flush` leaves behind: the kernel, the counters and the offset. -/
structure Flushed (κ : Type*) where
  kernel : κ
  stats : PortStats
  start : Nat
  deriving DecidableEq, Repr

section

universe u v

variable {κ : Type u} {π : Type v} (packet : π → ReplyPacket)

/-- `add_udp_out` for each packet. -/
def addUdpOutAll (stats : PortStats) (packets : List π) : PortStats :=
  packets.foldl (fun stats p => (PortStats.addUdpOut (packet p).bytes).foldl .apply stats) stats

/-- `flush` from an offset on. Packets may carry more than the source's packet does. -/
def flush (send : κ → List π → Except ErrorKind Nat × κ) :
    Nat → κ → PortStats → List π → Nat → Except Halt (Flushed κ)
  | 0, _, _, _, _ => .error .outOfFuel
  | fuel + 1, k, stats, batch, start =>
      if start < batch.length then
        match send k (batch.drop start) with
        | (result, k') =>
            let sent := result.toOption.getD 0
            if start + sent ≤ batch.length then
              let stats' := addUdpOutAll packet stats ((batch.drop start).take sent)
              match flushNext start result with
              | some next => flush send fuel k' stats' batch next
              | none => .ok ⟨k', stats', start⟩
            else .error .panic
      else .ok ⟨k, stats, start⟩

/-! ### Rounds -/

section

variable (send : κ → List π → Except ErrorKind Nat × κ)

/-- One round of `flush`, from the state it would leave behind by ending before it. -/
def flushRound (batch : List π) : Loop.Body (Flushed κ) (Except Halt (Flushed κ)) := fun s =>
  if s.start < batch.length then
    match send s.kernel (batch.drop s.start) with
    | (result, k') =>
        let sent := result.toOption.getD 0
        if s.start + sent ≤ batch.length then
          let stats' := addUdpOutAll packet s.stats ((batch.drop s.start).take sent)
          match flushNext s.start result with
          | some next => .inl ⟨k', stats', next⟩
          | none => .inr (.ok ⟨k', stats', s.start⟩)
        else .inr (.error .panic)
  else .inr (.ok s)

theorem flush_eq_run (fuel : Nat) (s : Flushed κ) (batch : List π) :
    flush packet send fuel s.kernel s.stats batch s.start =
      (Loop.run (flushRound packet send batch) fuel s).getD (.error .outOfFuel) := by
  induction fuel generalizing s with
  | zero => rfl
  | succ fuel ih =>
      rw [flush, Loop.run, flushRound]
      by_cases more : s.start < batch.length
      · rw [if_pos more, if_pos more]
        cases answer : send s.kernel (batch.drop s.start) with
        | mk result k' =>
            by_cases within : s.start + result.toOption.getD 0 ≤ batch.length
            · cases next : flushNext s.start result with
              | some next => simp only [if_pos within, next, ← ih]
              | none => simp only [if_pos within, next, Option.getD_some]
            · simp only [if_neg within, Option.getD_some]
      · rw [if_neg more, if_neg more, Option.getD_some]

/-- What one round can do. -/
inductive FlushRound (batch : List π) (s : Flushed κ) :
    Flushed κ ⊕ Except Halt (Flushed κ) → Prop where
  | goesOn {result k'} (more : s.start < batch.length)
      (answer : send s.kernel (batch.drop s.start) = (result, k'))
      (within : s.start + result.toOption.getD 0 ≤ batch.length)
      (retries : breaks result = false) :
      FlushRound batch s (.inl ⟨k',
        addUdpOutAll packet s.stats ((batch.drop s.start).take (result.toOption.getD 0)),
        s.start + result.toOption.getD 0⟩)
  | breaks {result k'} (more : s.start < batch.length)
      (answer : send s.kernel (batch.drop s.start) = (result, k'))
      (ends : breaks result = true) :
      FlushRound batch s (.inr (.ok ⟨k', s.stats, s.start⟩))
  | panics {result k'} (more : s.start < batch.length)
      (answer : send s.kernel (batch.drop s.start) = (result, k'))
      (outside : batch.length < s.start + result.toOption.getD 0) :
      FlushRound batch s (.inr (.error .panic))
  | complete (all : batch.length ≤ s.start) : FlushRound batch s (.inr (.ok s))

theorem flushRound_spec (batch : List π) (s : Flushed κ) :
    FlushRound packet send batch s (flushRound packet send batch s) := by
  rw [flushRound]
  by_cases more : s.start < batch.length
  · rw [if_pos more]
    cases answer : send s.kernel (batch.drop s.start) with
    | mk result k' =>
        cases ends : breaks result with
        | true =>
            obtain ⟨next, none⟩ := flushNext_of_breaks ends s.start
            simp only [next, none, Nat.add_zero, if_pos (Nat.le_of_lt more), List.take_zero]
            exact .breaks more answer ends
        | false =>
            by_cases within : s.start + result.toOption.getD 0 ≤ batch.length
            · simp only [flushNext_of_not_breaks ends, if_pos within]
              exact .goesOn more answer within ends
            · simp only [if_neg within]
              exact .panics more answer (Nat.not_le.mp within)
  · rw [if_neg more]
    exact .complete (Nat.not_lt.mp more)

/-- A round does the only thing it can do. -/
theorem FlushRound.eq {batch : List π} {s : Flushed κ} {round}
    (taken : FlushRound packet send batch s round) : flushRound packet send batch s = round := by
  cases taken with
  | goesOn more answer within retries =>
      simp only [flushRound, if_pos more, answer, if_pos within, flushNext_of_not_breaks retries]
  | breaks more answer ends =>
      obtain ⟨next, none⟩ := flushNext_of_breaks ends s.start
      simp only [flushRound, if_pos more, answer, next, none, Nat.add_zero,
        if_pos (Nat.le_of_lt more), List.take_zero]
      rfl
  | panics more answer outside =>
      simp only [flushRound, if_pos more, answer, if_neg (Nat.not_le.mpr outside)]
  | complete all => rw [flushRound, if_neg (Nat.not_lt.mpr all)]

end

/-! ### Packets that fail for good -/

/-- An error that no retry mends. -/
abbrev HardError := { error : ErrorKind // error.retried = false }

/-- A kernel that accepts a packet or fails it with the same error each time, and that
remembers what it has accepted. -/
def persistent (fate : π → Option HardError) : Attempt (List π) π := fun sent p =>
  match fate p with
  | none => (none, sent ++ [p])
  | some error => (some error.1, sent)

def acceptable (fate : π → Option HardError) (p : π) : Bool := (fate p).isNone

variable (fate : π → Option HardError)

theorem attemptAll_persistent (sent packets : List π) :
    ∃ error : Option HardError, attemptAll (persistent fate) sent packets =
      ((packets.takeWhile (acceptable fate)).length, error.map Subtype.val,
        sent ++ packets.takeWhile (acceptable fate)) := by
  induction packets generalizing sent with
  | nil => exact ⟨none, by simp [attemptAll]⟩
  | cons p packets ih =>
      cases outcome : fate p with
      | none =>
          obtain ⟨error, rest⟩ := ih (sent ++ [p])
          refine ⟨error, ?_⟩
          simp [attemptAll, persistent, outcome, rest, acceptable]
      | some error =>
          refine ⟨some error, ?_⟩
          simp [attemptAll, persistent, outcome, acceptable]

/-- A call sends the acceptable packets that come first, at least one if there is one, and
it ends the loop if there is none. -/
theorem sendBatch_persistent (platform : Platform) (sent packets : List π) :
    ∃ result n, sendBatch platform (persistent fate) sent packets =
        (result, sent ++ packets.take n) ∧
      result.toOption.getD 0 = n ∧ (∀ p ∈ packets.take n, acceptable fate p = true) ∧
      (breaks result = true ↔ n = 0) ∧ (n = 0 → packets.takeWhile (acceptable fate) = []) := by
  obtain ⟨error, attempts⟩ := attemptAll_persistent fate sent (offered platform packets)
  have front : (offered platform packets).takeWhile (acceptable fate) <+: packets :=
    (List.takeWhile_prefix _).trans (prefix_offered platform packets)
  have taken := List.prefix_iff_eq_take.mp front
  generalize length : ((offered platform packets).takeWhile (acceptable fate)).length = n
    at attempts taken
  rw [taken] at attempts
  refine ⟨(report (n, error.map Subtype.val, sent ++ packets.take n)).1, n, ?_, report_count _,
    ?_, ?_, ?_⟩
  · rw [sendBatch_eq, attempts]
    exact Prod.ext rfl (report_snd (n, error.map Subtype.val, sent ++ packets.take n))
  · rw [← taken]
    exact fun p member => List.mem_takeWhile_imp member
  · cases n with
    | zero =>
        cases error with
        | none => simp [report, breaks]
        | some error => simp [report, breaks, error.2]
    | succ n => simp [report, breaks]
  · rintro rfl
    cases packets with
    | nil => rfl
    | cons p packets =>
        obtain ⟨rest, first⟩ := offered_cons platform p packets
        have fails : acceptable fate p = false := by
          by_contra accepted
          simp [first, Bool.not_eq_false _ ▸ accepted] at length
        rw [List.takeWhile_cons, fails]
        rfl

/-- What the rounds keep: what has been sent, and the acceptable packets that come next. -/
structure SendsFront (batch all : List π) (s : Flushed (List π)) : Prop where
  within : s.start ≤ batch.length
  front : s.kernel ++ (batch.drop s.start).takeWhile (acceptable fate) = all

variable {packet fate} in
/-- Every round sends some packets, or it is the last one. -/
theorem SendsFront.next {platform : Platform} {batch all : List π} {s : Flushed (List π)}
    (sends : SendsFront fate batch all s) {round}
    (taken : FlushRound packet (sendBatch platform (persistent fate)) batch s round) :
    (∃ t, round = .inl t ∧ SendsFront fate batch all t ∧
      batch.length - t.start < batch.length - s.start) ∨
    ∃ r, round = .inr r ∧ ∃ flushed, r = .ok flushed ∧ flushed.kernel = all := by
  obtain ⟨result, n, call, count, accepted, last, none⟩ :=
    sendBatch_persistent fate platform s.kernel (batch.drop s.start)
  cases taken with
  | goesOn more answer within retries =>
      rw [call, Prod.mk.injEq] at answer
      obtain ⟨rfl, rfl⟩ := answer
      have positive : n ≠ 0 := by
        rw [ne_eq, ← last, retries]
        exact Bool.false_ne_true
      rw [count] at within
      refine .inl ⟨_, rfl, ⟨by rwa [count], ?_⟩, ?_⟩
      all_goals dsimp only
      · rw [← sends.front, count, List.append_assoc, ← List.drop_drop,
          ← List.takeWhile_append_of_pos accepted, List.take_append_drop]
      · rw [count]
        omega
  | breaks more answer ends =>
      rw [call, Prod.mk.injEq] at answer
      obtain ⟨rfl, rfl⟩ := answer
      have stops := last.mp ends
      refine .inr ⟨_, rfl, _, rfl, ?_⟩
      rw [← sends.front, none stops, stops, List.take_zero]
  | panics more answer outside =>
      exact absurd (sendBatch_within more answer) (Nat.not_le.mpr outside)
  | complete whole =>
      refine .inr ⟨_, rfl, s, rfl, ?_⟩
      rw [← sends.front, List.drop_of_length_le whole, List.takeWhile_nil, List.append_nil]

/-- `flush` returns, and it has sent the packets before the first one that fails. -/
theorem flush_persistent (platform : Platform) (stats : PortStats) (fuel : Nat)
    (sent batch : List π) (start : Nat) (inside : start ≤ batch.length)
    (enough : batch.length - start < fuel) :
    ∃ flushed, flush packet (sendBatch platform (persistent fate)) fuel sent stats batch start =
      .ok flushed ∧ flushed.kernel = sent ++ (batch.drop start).takeWhile (acceptable fate) := by
  have spec := flushRound_spec packet (sendBatch platform (persistent fate)) batch
  have initial : SendsFront fate batch (sent ++ (batch.drop start).takeWhile (acceptable fate))
      ⟨sent, stats, start⟩ := ⟨inside, rfl⟩
  obtain ⟨r, found, flushed, rfl, kernel⟩ :=
    Loop.run_of_variant (SendsFront fate batch _) (fun s => batch.length - s.start)
      (fun s sends => sends.next (spec s)) initial enough
  have run := flush_eq_run packet (sendBatch platform (persistent fate)) fuel
    ⟨sent, stats, start⟩ batch
  rw [found, Option.getD_some] at run
  exact ⟨flushed, run, kernel⟩

/-- The packets before the first failure are all acceptable ones exactly if no failing
packet comes before an acceptable one. -/
theorem takeWhile_eq_filter_iff {α : Type*} {ok : α → Bool} {l : List α} :
    l.takeWhile ok = l.filter ok ↔ l.Pairwise fun a b => ok b = true → ok a = true := by
  induction l with
  | nil => simp
  | cons a l ih =>
      cases counts : ok a with
      | true => simp [counts, ih]
      | false =>
          simp only [List.takeWhile_cons, List.filter_cons, counts, List.pairwise_cons]
          simp only [Bool.false_eq_true, if_false, imp_false, Bool.not_eq_true]
          constructor
          · intro none
            have all : ∀ b ∈ l, ok b = false := by
              simpa using List.filter_eq_nil_iff.mp none.symm
            refine ⟨all, List.pairwise_of_forall_mem_list ?_⟩
            intro b _ c member accepted
            rw [all c member] at accepted
            cases accepted
          · rintro ⟨all, -⟩
            exact (List.filter_eq_nil_iff.mpr (by simpa using all)).symm

/-- `flush` returns, and it has sent all acceptable packets once and in order. -/
def SendsAcceptable (platform : Platform) (stats : PortStats) (batch : List π) : Prop :=
  ∃ flushed, flush packet (sendBatch platform (persistent fate)) (batch.length + 1) [] stats batch
    0 = .ok flushed ∧ flushed.kernel = batch.filter (acceptable fate)

/-- A failing packet costs other clients theirs exactly if it comes before them. -/
theorem sendsAcceptable_iff (platform : Platform) (stats : PortStats) (batch : List π) :
    SendsAcceptable packet fate platform stats batch ↔
      batch.Pairwise fun p q => fate q = none → fate p = none := by
  obtain ⟨flushed, returns, kernel⟩ :=
    flush_persistent packet fate platform stats (batch.length + 1) [] batch 0 (Nat.zero_le _)
      (by omega)
  have sends : SendsAcceptable packet fate platform stats batch ↔
      batch.takeWhile (acceptable fate) = batch.filter (acceptable fate) := by
    rw [List.drop_zero, List.nil_append] at kernel
    rw [SendsAcceptable, returns, ← kernel]
    simp
  rw [sends, takeWhile_eq_filter_iff]
  simp only [acceptable, Option.isNone_iff_eq_none]

end

/-- Two replies, of which the first goes to a network that cannot be reached. -/
def unreachableFirst : List ReplyPacket :=
  [⟨.v4 0xcb007101 4000, [1], 1⟩, ⟨.v4 0x7f000001 4001, [2], 1⟩]

def unreachable (p : ReplyPacket) : Option HardError :=
  if p.dst = .v4 0xcb007101 4000 then some ⟨.networkUnreachable, rfl⟩ else none

/-- The second reply is lost with the first. -/
theorem unreachableFirst_lost :
    ¬ SendsAcceptable id unreachable .linux (.new 9000) unreachableFirst := by
  rintro ⟨flushed, returns, kernel⟩
  cases returns
  revert kernel
  decide

end RangePorter
