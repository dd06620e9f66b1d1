import RangePorter.Listener.UdpFlush

/-!
# The two ways of sending

On Linux one call of `send_batch` offers at most `maxBatchSize` packets to the kernel,
elsewhere it goes through all that are left. Wherever an attempt fails, both drop the
error if something was sent before it in the same call, and `flush` attempts the packet
again. The flush on Linux is the portable one in smaller rounds: after a full piece it has
the portable round still before it.

One case does not fit. If the packet after a full piece fails for good, it is the first
packet of a call on Linux, where its error ends the loop, and it comes after packets of
the same call elsewhere, where its error is dropped.
-/

namespace RangePorter

universe u v

section

variable {κ : Type u} {π : Type v} {attempt : Attempt κ π}

/-! ### Rounds on the two systems -/

/-- The next packet is there, and its next attempt fails for good. -/
def FailsNext (attempt : Attempt κ π) (batch : List π) (s : Flushed κ) : Prop :=
  ∃ p error, batch[s.start]? = some p ∧ (attempt s.kernel p).1 = some error ∧
    error.retried = false

variable {packet : π → ReplyPacket} {batch : List π} {s t : Flushed κ}

/-- The rounds agree if the call on Linux offers all packets that are left, or if one of
those that it offers is not accepted. -/
theorem rounds_eq (same : attemptAll attempt s.kernel ((batch.drop s.start).take maxBatchSize) =
    attemptAll attempt s.kernel (batch.drop s.start)) :
    flushRound packet (sendBatch .linux attempt) batch s =
      flushRound packet (sendBatch .portable attempt) batch s := by
  rw [flushRound, flushRound, sendBatch_eq, sendBatch_eq, offered, offered, same]

/-- A call after which the loop breaks has failed for good at its first packet. -/
theorem failed_of_breaks (platform : Platform) {k : κ} {p : π} {packets : List π}
    (ends : breaks (sendBatch platform attempt k (p :: packets)).1 = true) :
    ∃ error, (attempt k p).1 = some error ∧ error.retried = false := by
  rcases outcome : attempt k p with ⟨_ | error, k₁⟩
  · -- The first packet is accepted, so the call reports a positive number.
    obtain ⟨rest, first⟩ := offered_cons platform p packets
    rw [sendBatch_eq, first, attemptAll_cons_of_none outcome] at ends
    cases ends
  · rw [sendBatch_cons_of_some platform outcome] at ends
    exact ⟨error, rfl, Bool.not_eq_true' _ ▸ ends⟩

/-- After a piece that was accepted as a whole, a portable call does what a call for the
rest would do. -/
theorem portable_append {k k' : κ} {front : List π} {n : Nat} (positive : 0 < n)
    (all : attemptAll attempt k front = (n, none, k')) (back : List π) :
    ∃ result k'', sendBatch .portable attempt k' back = (result, k'') ∧
      sendBatch .portable attempt k (front ++ back) =
        (.ok (n + result.toOption.getD 0), k'') := by
  rcases attempts : attemptAll attempt k' back with ⟨sent, error, k''⟩
  refine ⟨(report (sent, error, k'')).1, k'', ?_, ?_⟩
  · rw [sendBatch_eq, offered, attempts]
    exact Prod.ext rfl (report_snd (sent, error, k''))
  · rw [sendBatch_eq, offered, attemptAll_append, all, report_count (sent, error, k'')]
    simp only [attempts]
    obtain reported | ⟨none, -⟩ := report_cases (n + sent) error k''
    · exact reported
    · omega

/-- After a full piece that was accepted as a whole, the portable round is still to come,
unless the next packet fails for good. -/
theorem round_after_piece (longer : t.start < batch.length)
    (all : attemptAll attempt s.kernel ((batch.drop s.start).take maxBatchSize) =
      (maxBatchSize, none, t.kernel))
    (start : t.start = s.start + maxBatchSize)
    (stats : t.stats = addUdpOutAll packet s.stats ((batch.drop s.start).take maxBatchSize))
    (uncut : ¬ FailsNext attempt batch t) :
    flushRound packet (sendBatch .portable attempt) batch t =
      flushRound packet (sendBatch .portable attempt) batch s := by
  have back : batch.drop t.start = batch[t.start] :: batch.drop (t.start + 1) :=
    List.drop_eq_getElem_cons longer
  have behind : (batch.drop s.start).drop maxBatchSize = batch.drop t.start := by
    rw [List.drop_drop, start]
  have goesOn : breaks (sendBatch .portable attempt t.kernel (batch.drop t.start)).1 = false := by
    by_contra ends
    rw [back] at ends
    obtain ⟨e, failed, hard⟩ := failed_of_breaks .portable (Bool.not_eq_false _ ▸ ends)
    exact uncut ⟨_, e, List.getElem?_eq_getElem longer, failed, hard⟩
  obtain ⟨result, k', answer, whole⟩ := portable_append (by decide) all (batch.drop t.start)
  rw [← behind, List.take_append_drop] at whole
  rw [answer] at goesOn
  have within : t.start + result.toOption.getD 0 ≤ batch.length := sendBatch_within longer answer
  have within' : s.start + (maxBatchSize + result.toOption.getD 0) ≤ batch.length := by omega
  have positive : breaks (.ok (maxBatchSize + result.toOption.getD 0)) = false := by
    simp [breaks, maxBatchSize]
  have after : flushRound packet (sendBatch .portable attempt) batch t = _ :=
    (FlushRound.goesOn longer answer within goesOn).eq
  have before : flushRound packet (sendBatch .portable attempt) batch s = _ :=
    (FlushRound.goesOn (by omega) whole within' positive).eq
  have counted : addUdpOutAll packet t.stats ((batch.drop t.start).take (result.toOption.getD 0)) =
      addUdpOutAll packet s.stats
        ((batch.drop s.start).take (maxBatchSize + result.toOption.getD 0)) := by
    rw [stats, ← addUdpOutAll_append, ← behind, ← List.take_add]
  rw [after, before, counted, start, Nat.add_assoc]
  rfl

/-- The flush on Linux takes the portable rounds in smaller ones. -/
theorem divides_of_uncut (s : Flushed κ)
    (uncut : ∀ t, flushRound packet (sendBatch .linux attempt) batch s = .inl t →
      t.start = s.start + maxBatchSize → ¬ FailsNext attempt batch t) :
    Loop.Divides (flushRound packet (sendBatch .portable attempt) batch)
      (flushRound packet (sendBatch .linux attempt) batch)
      (fun s => batch.length - s.start) s := by
  by_cases longer : s.start + maxBatchSize < batch.length
  · obtain ⟨k', all⟩ | ⟨sent, error, k', stops, -⟩ :=
      attemptAll_cases attempt s.kernel ((batch.drop s.start).take maxBatchSize)
    · have full : ((batch.drop s.start).take maxBatchSize).length = maxBatchSize := by
        rw [List.length_take, List.length_drop]
        omega
      rw [full] at all
      have answer : sendBatch .linux attempt s.kernel (batch.drop s.start) =
          (.ok maxBatchSize, k') := by
        rw [sendBatch_eq, offered, all]
        rfl
      have piece : flushRound packet (sendBatch .linux attempt) batch s = _ :=
        (FlushRound.goesOn (by omega) answer longer.le rfl).eq
      refine .inr ⟨_, piece, ?_, ?_⟩
      · exact round_after_piece longer all rfl rfl (uncut _ piece rfl)
      · show batch.length - (s.start + maxBatchSize) < batch.length - s.start
        have : 0 < maxBatchSize := by decide
        omega
    · have whole := attemptAll_append attempt s.kernel
        ((batch.drop s.start).take maxBatchSize) ((batch.drop s.start).drop maxBatchSize)
      rw [List.take_append_drop, stops] at whole
      exact .inl (rounds_eq (stops.trans whole.symm))
  · have all : (batch.drop s.start).length ≤ maxBatchSize := by
      rw [List.length_drop]
      omega
    exact .inl (rounds_eq (by rw [List.take_of_length_le all]))

/-! ### Where the two systems part -/

/-- A round that moves the offset by a full piece has sent all of that piece. -/
theorem piece_of_linux
    (goesOn : flushRound packet (sendBatch .linux attempt) batch s = .inl t)
    (start : t.start = s.start + maxBatchSize) :
    attemptAll attempt s.kernel ((batch.drop s.start).take maxBatchSize) =
      (maxBatchSize, none, t.kernel) ∧
    t.stats = addUdpOutAll packet s.stats ((batch.drop s.start).take maxBatchSize) := by
  have spec := flushRound_spec packet (sendBatch .linux attempt) batch s
  rw [goesOn] at spec
  cases spec with
  | goesOn more answer within retries =>
      have count := report_count
        (attemptAll attempt s.kernel ((batch.drop s.start).take maxBatchSize))
      have kernel := report_snd
        (attemptAll attempt s.kernel ((batch.drop s.start).take maxBatchSize))
      have linux := sendBatch_eq .linux attempt s.kernel (batch.drop s.start)
      rw [offered] at linux
      rw [← linux, answer] at count kernel
      have full := Nat.add_left_cancel start
      rw [full]
      refine ⟨?_, rfl⟩
      rw [full] at count
      obtain ⟨k', all⟩ | ⟨sent, error, k', stops, less⟩ :=
        attemptAll_cases attempt s.kernel ((batch.drop s.start).take maxBatchSize)
      · rw [all] at count kernel ⊢
        exact Prod.ext count.symm (Prod.ext rfl kernel.symm)
      · rw [stops] at count
        have short : ((batch.drop s.start).take maxBatchSize).length ≤ maxBatchSize :=
          List.length_take_le ..
        exact absurd (count ▸ less) (Nat.not_lt.mpr short)

/-- If the packet after a full piece fails for good, the loop ends on Linux and goes on
elsewhere, from the same state. -/
theorem parts_of_failsNext
    (goesOn : flushRound packet (sendBatch .linux attempt) batch s = .inl t)
    (start : t.start = s.start + maxBatchSize) (fails : FailsNext attempt batch t) :
    ∃ u, flushRound packet (sendBatch .linux attempt) batch t = .inr (.ok u) ∧
      flushRound packet (sendBatch .portable attempt) batch s = .inl u ∧
      u.start < batch.length := by
  obtain ⟨all, stats⟩ := piece_of_linux goesOn start
  obtain ⟨p, error, found, failed, hard⟩ := fails
  obtain ⟨longer, next⟩ := List.getElem?_eq_some_iff.mp found
  obtain ⟨k', failed⟩ : ∃ k', attempt t.kernel p = (some error, k') := ⟨_, Prod.ext failed rfl⟩
  have back : batch.drop t.start = p :: batch.drop (t.start + 1) := by
    rw [List.drop_eq_getElem_cons longer, next]
  have parts : batch.drop s.start =
      (batch.drop s.start).take maxBatchSize ++ batch.drop t.start := by
    rw [start, ← List.drop_drop, List.take_append_drop]
  refine ⟨⟨k', t.stats, t.start⟩, ?_, ?_, longer⟩
  · have answer : sendBatch .linux attempt t.kernel (batch.drop t.start) = (.error error, k') := by
      rw [back]
      exact sendBatch_cons_of_some .linux failed
    exact (FlushRound.breaks longer answer (by rw [breaks, hard]; rfl)).eq
  · have answer : sendBatch .portable attempt s.kernel (batch.drop s.start) =
        (.ok maxBatchSize, k') := by
      rw [sendBatch_eq, offered, parts, attemptAll_append, all, back]
      simp only [attemptAll_cons_of_some failed]
      rfl
    have within : s.start + maxBatchSize ≤ batch.length := by omega
    have round : flushRound packet (sendBatch .portable attempt) batch s = _ :=
      (FlushRound.goesOn (by omega) answer within rfl).eq
    rw [round, stats, start]
    rfl

end

/-! ### Attempts on record -/

section

variable {π : Type v} (packet : π → ReplyPacket) (outcomes : Nat → Option ErrorKind)

/-- A kernel that remembers all attempts. What becomes of an attempt depends on its
position among them. -/
def recorded : Attempt (List (π × Option ErrorKind)) π := fun log p =>
  (outcomes log.length, log ++ [(p, outcomes log.length)])

/-- One round of `flush` against this kernel. -/
def recordedRound (platform : Platform) (batch : List π) :
    Loop.Body (Flushed (List (π × Option ErrorKind)))
      (Except Halt (Flushed (List (π × Option ErrorKind)))) :=
  flushRound packet (sendBatch platform (recorded outcomes)) batch

/-- The loop comes through this state, or it leaves it behind at its end. -/
def Shows (platform : Platform) (stats : PortStats) (batch : List π)
    (s : Flushed (List (π × Option ErrorKind))) : Prop :=
  Loop.Passes (recordedRound packet outcomes platform batch) ⟨[], stats, 0⟩ s ∨
    Loop.Returns (recordedRound packet outcomes platform batch) ⟨[], stats, 0⟩ (.ok s)

/-- The `n`-th attempt of the flush is made on this packet and ends like this. -/
def Attempted (platform : Platform) (stats : PortStats) (batch : List π) (n : Nat)
    (a : π × Option ErrorKind) : Prop :=
  ∃ s, Shows packet outcomes platform stats batch s ∧ s.kernel[n]? = some a

/-- The flushes on the two systems do the same. -/
structure Agree (stats : PortStats) (batch : List π) : Prop where
  /-- They make the same attempts in the same order. -/
  attempts : ∀ n a, Attempted packet outcomes .linux stats batch n a ↔
    Attempted packet outcomes .portable stats batch n a
  /-- Whatever the portable one has attempted and counted when it goes on, the other one has
  as well at some point, even if neither ever ends. -/
  passes : ∀ s, Loop.Passes (recordedRound packet outcomes .portable batch) ⟨[], stats, 0⟩ s →
    Loop.Passes (recordedRound packet outcomes .linux batch) ⟨[], stats, 0⟩ s
  /-- They leave the same behind. -/
  returns : ∀ flushed,
    (∃ fuel, flush packet (sendBatch .linux (recorded outcomes)) fuel [] stats batch 0 =
      .ok flushed) ↔
    ∃ fuel, flush packet (sendBatch .portable (recorded outcomes)) fuel [] stats batch 0 =
      .ok flushed

/-- On Linux some call sends a full piece, and the first packet of the next call fails for
good. -/
def CutOff (stats : PortStats) (batch : List π) : Prop :=
  ∃ s t, Loop.Passes (recordedRound packet outcomes .linux batch) ⟨[], stats, 0⟩ s ∧
    recordedRound packet outcomes .linux batch s = .inl t ∧
    t.start = s.start + maxBatchSize ∧ FailsNext (recorded outcomes) batch t

variable {packet outcomes} {platform : Platform} {stats : PortStats} {batch packets : List π}
  {s t : Flushed (List (π × Option ErrorKind))} {log : List (π × Option ErrorKind)} {n : Nat}

/-! ### The record grows -/

/-- Attempts are added to the record, at least one if there is a packet. -/
theorem attemptAll_recorded (packets : List π) (log : List (π × Option ErrorKind)) :
    log <+: (attemptAll (recorded outcomes) log packets).2.2 ∧
      (packets ≠ [] → log.length < (attemptAll (recorded outcomes) log packets).2.2.length) := by
  induction packets generalizing log with
  | nil => exact ⟨List.prefix_rfl, fun none => absurd rfl none⟩
  | cons p packets ih =>
      have first : log <+: log ++ [(p, outcomes log.length)] := List.prefix_append ..
      have longer : log.length < (log ++ [(p, outcomes log.length)]).length := by simp
      cases outcome : outcomes log.length with
      | none =>
          have accepted : recorded outcomes log p = (none, log ++ [(p, none)]) := by
            rw [recorded, outcome]
          rw [outcome] at first longer
          rw [attemptAll_cons_of_none accepted]
          have rest := (ih (log ++ [(p, none)])).1
          exact ⟨first.trans rest, fun _ => Nat.lt_of_lt_of_le longer rest.length_le⟩
      | some error =>
          have failed : recorded outcomes log p = (some error, log ++ [(p, some error)]) := by
            rw [recorded, outcome]
          rw [outcome] at first longer
          rw [attemptAll_cons_of_some failed]
          exact ⟨first, fun _ => longer⟩

theorem sendBatch_recorded (outcomes : Nat → Option ErrorKind) (platform : Platform)
    (log : List (π × Option ErrorKind)) (packets : List π) :
    log <+: (sendBatch platform (recorded outcomes) log packets).2 ∧
      (packets ≠ [] →
        log.length < (sendBatch platform (recorded outcomes) log packets).2.length) := by
  rw [sendBatch_eq, report_snd]
  refine (attemptAll_recorded _ log).imp_right fun longer some => longer ?_
  cases packets with
  | nil => exact absurd rfl some
  | cons p packets =>
      obtain ⟨rest, first⟩ := offered_cons platform p packets
      rw [first]
      exact List.cons_ne_nil p rest

variable (packet outcomes platform batch) in
/-- A round never panics, and it attempts a packet if there is one. -/
theorem recordedRound_cases (s : Flushed (List (π × Option ErrorKind))) :
    ∃ t, (recordedRound packet outcomes platform batch s = .inl t ∨
        recordedRound packet outcomes platform batch s = .inr (.ok t)) ∧
      s.kernel <+: t.kernel ∧ (s.start < batch.length → s.kernel.length < t.kernel.length) := by
  have spec := flushRound_spec packet (sendBatch platform (recorded outcomes)) batch s
  obtain ⟨grows, longer⟩ := sendBatch_recorded outcomes platform s.kernel (batch.drop s.start)
  rw [recordedRound]
  generalize flushRound packet (sendBatch platform (recorded outcomes)) batch s = round at spec ⊢
  have nonempty : s.start < batch.length → batch.drop s.start ≠ [] := fun more none =>
    absurd (List.drop_eq_nil_iff.mp none) (Nat.not_le.mpr more)
  cases spec with
  | goesOn more answer within retries =>
      rw [answer] at grows longer
      exact ⟨_, .inl rfl, grows, fun more => longer (nonempty more)⟩
  | breaks more answer ends =>
      rw [answer] at grows longer
      exact ⟨_, .inr rfl, grows, fun more => longer (nonempty more)⟩
  | panics more answer outside =>
      exact absurd (sendBatch_within more answer) (Nat.not_le.mpr outside)
  | complete all =>
      exact ⟨s, .inr rfl, List.prefix_rfl, fun more => absurd all (Nat.not_le.mpr more)⟩

theorem flush_ok_iff {flushed : Flushed (List (π × Option ErrorKind))} :
    (∃ fuel, flush packet (sendBatch platform (recorded outcomes)) fuel [] stats batch 0 =
      .ok flushed) ↔
    Loop.Returns (recordedRound packet outcomes platform batch) ⟨[], stats, 0⟩ (.ok flushed) := by
  have step : ∀ fuel, flush packet (sendBatch platform (recorded outcomes)) fuel [] stats batch 0 =
      (Loop.run (recordedRound packet outcomes platform batch) fuel ⟨[], stats, 0⟩).getD
        (.error .outOfFuel) :=
    fun fuel => flush_eq_run packet _ fuel ⟨[], stats, 0⟩ batch
  rw [Loop.returns_iff_run]
  refine exists_congr fun fuel => ?_
  rw [step]
  cases Loop.run (recordedRound packet outcomes platform batch) fuel ⟨[], stats, 0⟩ with
  | none => simp
  | some r => simp

theorem getElem?_of_prefix {α : Type*} {l l' : List α} {a : α} (initial : l <+: l')
    (found : l[n]? = some a) : l'[n]? = some a := by
  obtain ⟨inside, rfl⟩ := List.getElem?_eq_some_iff.mp found
  exact List.prefix_iff_getElem?.mp initial n inside

/-- Nothing on record is lost until the end. -/
theorem prefix_of_returns {flushed : Flushed (List (π × Option ErrorKind))}
    (returns : Loop.Returns (recordedRound packet outcomes platform batch) s (.ok flushed)) :
    s.kernel <+: flushed.kernel := by
  obtain ⟨last, passes, ends⟩ := returns
  have before : s.kernel <+: last.kernel := by
    refine passes.invariant (fun t => s.kernel <+: t.kernel) List.prefix_rfl ?_
    intro t u before goesOn
    obtain ⟨v, goesOn' | ends, grows, -⟩ := recordedRound_cases packet outcomes platform batch t
    · rw [goesOn, Sum.inl.injEq] at goesOn'
      exact before.trans (goesOn' ▸ grows)
    · rw [goesOn] at ends
      cases ends
  obtain ⟨v, goesOn | ends', grows, -⟩ := recordedRound_cases packet outcomes platform batch last
  · rw [ends] at goesOn
    cases goesOn
  · rw [ends] at ends'
    cases ends'
    exact before.trans grows

/-! ### Agreement -/

theorem agree_of_not_cutOff (uncut : ¬ CutOff packet outcomes stats batch) :
    Agree packet outcomes stats batch := by
  have divides : ∀ t, Loop.Passes (recordedRound packet outcomes .linux batch) ⟨[], stats, 0⟩ t →
      Loop.Divides (recordedRound packet outcomes .portable batch)
        (recordedRound packet outcomes .linux batch) (fun s => batch.length - s.start) t :=
    fun t passes => divides_of_uncut t fun u goesOn start fails =>
      uncut ⟨t, u, passes, goesOn, start, fails⟩
  have returns : ∀ r,
      Loop.Returns (recordedRound packet outcomes .portable batch) ⟨[], stats, 0⟩ r ↔
        Loop.Returns (recordedRound packet outcomes .linux batch) ⟨[], stats, 0⟩ r :=
    fun r => Loop.returns_iff_of_divides divides
  constructor
  case attempts =>
      rintro n a
      constructor
      · rintro ⟨s, passes | ends, found⟩
        · -- The portable loop is at a state with the same round, which keeps the record.
          obtain ⟨u, there, same⟩ := Loop.coupled passes fun v _ first _ _ => divides v first
          obtain ⟨t, round, grows, -⟩ := recordedRound_cases packet outcomes .portable batch s
          rw [same] at round
          refine ⟨t, round.imp there.next fun ends => ⟨u, there, ends⟩, ?_⟩
          exact getElem?_of_prefix grows found
        · exact ⟨s, .inr ((returns _).mpr ends), found⟩
      · rintro ⟨s, passes | ends, found⟩
        · exact ⟨s, .inl (Loop.passes_fine divides passes), found⟩
        · exact ⟨s, .inr ((returns _).mp ends), found⟩
  case passes => exact fun s passes => Loop.passes_fine divides passes
  case returns =>
      intro flushed
      rw [flush_ok_iff, flush_ok_iff, returns]

/-- A round after which the loop on Linux goes on twice was not cut. -/
theorem divides_of_goesOn {v w : Flushed (List (π × Option ErrorKind))}
    (first : recordedRound packet outcomes .linux batch v = .inl w)
    (passes : Loop.Passes (recordedRound packet outcomes .linux batch) w s)
    (goesOn : recordedRound packet outcomes .linux batch s = .inl t) :
    Loop.Divides (recordedRound packet outcomes .portable batch)
      (recordedRound packet outcomes .linux batch) (fun s => batch.length - s.start) v := by
  refine divides_of_uncut v fun w' first' start fails => ?_
  obtain ⟨u, ends, -⟩ := parts_of_failsNext first' start fails
  obtain rfl : w = w' := Sum.inl.inj (first.symm.trans first')
  obtain rfl | ⟨x, later, -⟩ := passes.cases_body
  · cases goesOn.symm.trans ends
  · cases later.symm.trans ends

/-- After a cut the portable flush makes an attempt that the other one does not make. -/
theorem not_agree_of_cutOff (cut : CutOff packet outcomes stats batch) :
    ¬ Agree packet outcomes stats batch := by
  rintro ⟨attempts, -, -⟩
  obtain ⟨s, t, passes, goesOn, start, fails⟩ := cut
  obtain ⟨u, ends, onwards, more⟩ := parts_of_failsNext goesOn start fails
  have returns : Loop.Returns (recordedRound packet outcomes .linux batch) ⟨[], stats, 0⟩ (.ok u) :=
    ⟨t, passes.next goesOn, ends⟩
  obtain ⟨v, there, same⟩ := Loop.coupled passes fun v w _ first rest =>
    divides_of_goesOn first rest goesOn
  have portable : Loop.Passes (recordedRound packet outcomes .portable batch) ⟨[], stats, 0⟩ u :=
    there.next (same.symm.trans onwards)
  -- The portable loop goes on from `u` and attempts another packet.
  obtain ⟨x, round, -, longer⟩ := recordedRound_cases packet outcomes .portable batch u
  have shown : Shows packet outcomes .portable stats batch x :=
    round.imp portable.next fun ends => ⟨u, portable, ends⟩
  obtain ⟨y, reached, found⟩ := (attempts u.kernel.length _).mpr
    ⟨x, shown, List.getElem?_eq_getElem (longer more)⟩
  -- On Linux `u` is what the loop leaves behind, with everything on record.
  have final : y.kernel <+: u.kernel := by
    obtain passes' | ends' := reached
    · exact prefix_of_returns ((Loop.returns_iff_of_passes passes').mp returns)
    · cases returns.unique ends'
      exact List.prefix_rfl
  exact absurd (List.getElem?_eq_some_iff.mp found).1 (Nat.not_lt.mpr final.length_le)

variable (packet outcomes stats batch) in
/-- The two systems agree, whatever becomes of the attempts, unless a flush on Linux is cut
off behind a full piece. No list of at most one piece can be cut off. -/
theorem paths_agree :
    (batch.length ≤ maxBatchSize → Agree packet outcomes stats batch) ∧
    (Agree packet outcomes stats batch ↔ ¬ CutOff packet outcomes stats batch) := by
  have agree : Agree packet outcomes stats batch ↔ ¬ CutOff packet outcomes stats batch :=
    ⟨fun agree cut => not_agree_of_cutOff cut agree, agree_of_not_cutOff⟩
  refine ⟨fun short => agree.mpr ?_, agree⟩
  rintro ⟨s, t, -, -, start, p, error, found, -⟩
  have inside := (List.getElem?_eq_some_iff.mp found).1
  omega

end

/-- Thirty-three packets. -/
def oneTooMany : List ReplyPacket := List.replicate 33 ⟨.v4 0x7f000001 4000, [1], 1⟩

/-- The packet after the first thirty-two fails once. -/
def failsOnce (n : Nat) : Option ErrorKind := if n = 32 then some .networkUnreachable else none

/-- On Linux the last packet is given up, elsewhere it is attempted again and sent. -/
theorem oneTooMany_parts : ¬ Agree id failsOnce (.new 9000) oneTooMany := by
  have piece : recordedRound id failsOnce .linux oneTooMany ⟨[], .new 9000, 0⟩ =
      .inl ⟨(oneTooMany.take 32).map fun p => (p, none),
        { PortStats.new 9000 with udpOutBytes := 32 }, 32⟩ := by
    rfl
  refine not_agree_of_cutOff ⟨_, _, .refl, piece, rfl, ?_⟩
  exact ⟨⟨.v4 0x7f000001 4000, [1], 1⟩, .networkUnreachable, rfl, rfl, rfl⟩

example : ((flush id (sendBatch .linux (recorded failsOnce)) 3 [] (.new 9000) oneTooMany 0).map
    Flushed.start).toOption = some 32 ∧
    ((flush id (sendBatch .portable (recorded failsOnce)) 3 [] (.new 9000) oneTooMany 0).map
      Flushed.start).toOption = some 33 := by
  decide

end RangePorter
