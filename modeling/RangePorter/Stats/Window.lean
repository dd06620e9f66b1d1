import RangePorter.Stats.Bucket

/-!
# Buckets and the window

The ring has one bucket per minute of the window, and a bucket gives up its minute only
when a roll-up in another minute comes to the same place. As long as there is a roll-up in
every minute, this keeps the snapshot within the window. After a gap the buckets of before
stay where no later roll-up comes.
-/

namespace RangePorter

open LazyRing

variable {windowMinutes m : Nat} {calls : List RollupCall}

def RollupCall.minuteEpoch (call : RollupCall) : Nat := call.nowEpochSeconds / 60

/-- The snapshot after the last call shows only minutes of the window that ends with it,
and of these every one with a call. -/
def RespectsWindow (windowMinutes : Nat) (calls : List RollupCall) : Prop :=
  ∀ last, calls.getLast? = some last →
    (∀ bucket ∈ (rollups windowMinutes calls).1.snapshot,
      last.minuteEpoch < bucket.minuteEpoch + windowMinutes ∧
        bucket.minuteEpoch ≤ last.minuteEpoch) ∧
    ∀ call ∈ calls, call.minuteEpoch ≠ 0 →
      last.minuteEpoch < call.minuteEpoch + windowMinutes →
      ∃ bucket ∈ (rollups windowMinutes calls).1.snapshot,
        bucket.minuteEpoch = call.minuteEpoch

/-- Every minute that has left the window was followed by a later one at the same place. -/
def Overtaken (windowMinutes : Nat) (calls : List RollupCall) : Prop :=
  ∀ last, calls.getLast? = some last → ∀ call ∈ calls, call.minuteEpoch ≠ 0 →
    call.minuteEpoch + windowMinutes ≤ last.minuteEpoch →
    ∃ later ∈ calls, call.minuteEpoch < later.minuteEpoch ∧
      later.minuteEpoch % windowMinutes = call.minuteEpoch % windowMinutes

/-- Epochs that never go back. -/
def Ordered (calls : List RollupCall) : Prop :=
  calls.Pairwise fun a b => a.nowEpochSeconds ≤ b.nowEpochSeconds

theorem map_minuteEpoch (previousTotals : AggregateTotals) (calls : List RollupCall) :
    (withPrevious previousTotals calls).map Rollup.minuteEpoch =
      calls.map RollupCall.minuteEpoch := by
  induction calls generalizing previousTotals with
  | nil => rfl
  | cons call calls ih => simp [withPrevious, ih, RollupCall.minuteEpoch]

theorem Ordered.minutes (ordered : Ordered calls) :
    calls.Pairwise fun a b => a.minuteEpoch ≤ b.minuteEpoch :=
  ordered.imp fun le => Nat.div_le_div_right le

theorem Ordered.keys (ordered : Ordered calls) :
    (withPrevious .default calls).Pairwise fun x y => minuteRing.key x ≤ minuteRing.key y := by
  have minutes : ((withPrevious .default calls).map Rollup.minuteEpoch).Pairwise (· ≤ ·) := by
    rw [map_minuteEpoch]
    exact List.pairwise_map.mpr ordered.minutes
  exact List.pairwise_map.mp minutes

/-- A property of the minutes of some roll-up is one of the minutes of some call. -/
theorem exists_rollup_iff {P : Nat → Prop} {previousTotals : AggregateTotals} :
    (∃ x ∈ withPrevious previousTotals calls, P x.minuteEpoch) ↔
      ∃ call ∈ calls, P call.minuteEpoch := by
  have minutes := map_minuteEpoch previousTotals calls
  constructor
  · rintro ⟨x, member, holds⟩
    have member' := List.mem_map_of_mem (f := Rollup.minuteEpoch) member
    rw [minutes] at member'
    obtain ⟨call, inside, same⟩ := List.mem_map.mp member'
    exact ⟨call, inside, same ▸ holds⟩
  · rintro ⟨call, inside, holds⟩
    have inside' := List.mem_map_of_mem (f := RollupCall.minuteEpoch) inside
    rw [← minutes] at inside'
    obtain ⟨x, member, same⟩ := List.mem_map.mp inside'
    exact ⟨x, member, same ▸ holds⟩

/-- A minute has a bucket if the slot of the minute holds it. -/
theorem shown_iff_holder (used : m ≠ 0) :
    (∃ bucket ∈ (rollups windowMinutes calls).1.snapshot, bucket.minuteEpoch = m) ↔
      minuteRing.holder (max windowMinutes 1) (m % max windowMinutes 1)
        (withPrevious .default calls) = m := by
  constructor
  · rintro ⟨bucket, member, rfl⟩
    exact (holder_of_mem member).1
  · intro holder
    have bound : m % max windowMinutes 1 < max windowMinutes 1 := Nat.mod_lt _ (by omega)
    have slot := Ring.slot_eq (R := minuteRing) _ (withPrevious .default calls) bound
    have owner := Ring.owner_of_slot bound slot
    rw [holder] at owner slot
    refine ⟨_, mem_snapshot.mpr ⟨?_, ?_⟩, owner⟩
    · rw [buckets_eq]
      exact List.mem_of_getElem? slot
    · exact fun zero => used (owner.symm.trans zero)

/-- A minute has a bucket if it is the latest of the minutes at its place. -/
theorem shown_iff (positive : 1 ≤ windowMinutes) (ordered : Ordered calls) (used : m ≠ 0) :
    (∃ bucket ∈ (rollups windowMinutes calls).1.snapshot, bucket.minuteEpoch = m) ↔
      (∃ call ∈ calls, call.minuteEpoch = m) ∧
        ¬ ∃ call ∈ calls, m < call.minuteEpoch ∧
          call.minuteEpoch % windowMinutes = m % windowMinutes := by
  have window : max windowMinutes 1 = windowMinutes := Nat.max_eq_left positive
  rw [shown_iff_holder used, Ring.holder_eq_iff used]
  refine (Ring.last_sharing_iff (R := minuteRing) ordered.keys).trans ?_
  rw [window, ← exists_rollup_iff (P := fun minute => minute = m),
    ← exists_rollup_iff (P := fun minute => m < minute ∧
      minute % windowMinutes = m % windowMinutes)]
  constructor
  · rintro ⟨⟨x, member, -, same⟩, latest⟩
    refine ⟨⟨x, member, same⟩, ?_⟩
    rintro ⟨y, member', later, place⟩
    exact Nat.not_lt.mpr (latest y member' place) later
  · rintro ⟨⟨x, member, same⟩, none⟩
    refine ⟨⟨x, member, congrArg (· % windowMinutes) same, same⟩, fun y member' place => ?_⟩
    exact Nat.not_lt.mp fun later => none ⟨y, member', later, place⟩

theorem minuteEpoch_le_last (ordered : Ordered calls) {last call : RollupCall}
    (final : calls.getLast? = some last) (member : call ∈ calls) :
    call.minuteEpoch ≤ last.minuteEpoch := by
  have greatest := (Ring.getLast_eq_iff ordered.minutes).mp (congrArg (Option.map _) final)
  exact greatest.2 call member

/-- The snapshot respects the window exactly if every old minute was overtaken. -/
theorem respectsWindow_iff (positive : 1 ≤ windowMinutes) (ordered : Ordered calls) :
    RespectsWindow windowMinutes calls ↔ Overtaken windowMinutes calls := by
  constructor
  · intro respects last final call member used old
    -- Otherwise the old minute still has its bucket.
    by_contra none
    have shown := (shown_iff positive ordered used).mpr
      ⟨⟨call, member, rfl⟩, fun ⟨later, inside, after⟩ => none ⟨later, inside, after⟩⟩
    obtain ⟨bucket, inSnapshot, same⟩ := shown
    have recent := ((respects last final).1 bucket inSnapshot).1
    omega
  · intro overtaken last final
    constructor
    · intro bucket inSnapshot
      have used := (mem_snapshot.mp inSnapshot).2
      obtain ⟨⟨call, member, same⟩, none⟩ :=
        (shown_iff positive ordered used).mp ⟨bucket, inSnapshot, rfl⟩
      rw [← same] at none used ⊢
      refine ⟨?_, minuteEpoch_le_last ordered final member⟩
      by_contra old
      exact none (overtaken last final call member used (Nat.not_lt.mp old))
    · intro call member used recent
      refine (shown_iff positive ordered used).mpr ⟨⟨call, member, rfl⟩, ?_⟩
      rintro ⟨later, inside, after, place⟩
      -- Two minutes of the window with one place are the same minute.
      have le := minuteEpoch_le_last ordered final inside
      have same : later.minuteEpoch = call.minuteEpoch :=
        Nat.ModEq.eq_of_abs_lt place (abs_lt.mpr (by omega))
      omega

/-- A roll-up in minute 1 and, after a gap, one in minute 5. -/
def acrossGap : List RollupCall := [⟨60, .default⟩, ⟨300, .default⟩]

theorem respectsWindow_acrossGap :
    RespectsWindow 4 acrossGap ↔ Overtaken 4 acrossGap :=
  respectsWindow_iff (by decide) (by simp [Ordered, acrossGap])

/-- With a window of three minutes, the bucket of minute 1 is still shown in minute 5. -/
theorem not_respectsWindow_acrossGap :
    Ordered acrossGap ∧ ¬ RespectsWindow 3 acrossGap := by
  refine ⟨by simp [Ordered, acrossGap], fun respects => ?_⟩
  have stale : MinuteBucket.fresh 1 ∈ (rollups 3 acrossGap).1.snapshot :=
    mem_snapshot.mpr ⟨by decide, by decide⟩
  exact absurd ((respects _ rfl).1 _ stale).1 (by decide)

end RangePorter
