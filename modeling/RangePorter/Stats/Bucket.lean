import RangePorter.Ring.Lazy
import RangePorter.Stats.Port
import Mathlib.Algebra.Order.BigOperators.Group.List

/-!
# Minute buckets

`BucketRing` keeps one bucket per minute of the window. A roll-up adds to the bucket
of its minute what the totals have grown by since the roll-up before, and resets the
bucket first if it still holds another minute. The ring is the lazy ring of the
library, with minutes as keys (`buckets_eq`).

The five cumulative fields are handled alike, and so are the two peaks: `Cumulative`
and `Peak` name them.
-/

namespace RangePorter

open LazyRing

structure AggregateTotals where
  tcpAccepted : Nat
  tcpActive : Nat
  tcpClosed : Nat
  udpActiveFlows : Nat
  tcpInBytes : Nat
  tcpOutBytes : Nat
  udpInBytes : Nat
  udpOutBytes : Nat
  udpDropped : Nat
  deriving DecidableEq, Repr

namespace AggregateTotals

def default : AggregateTotals := ⟨0, 0, 0, 0, 0, 0, 0, 0, 0⟩

/-- The total of one counter. -/
def get (totals : AggregateTotals) : Counter → Nat
  | .tcpAccepted => totals.tcpAccepted
  | .tcpActive => totals.tcpActive
  | .tcpClosed => totals.tcpClosed
  | .udpActiveFlows => totals.udpActiveFlows
  | .tcpInBytes => totals.tcpInBytes
  | .tcpOutBytes => totals.tcpOutBytes
  | .udpInBytes => totals.udpInBytes
  | .udpOutBytes => totals.udpOutBytes
  | .udpDropped => totals.udpDropped

@[simp] theorem get_default (c : Counter) : default.get c = 0 := by
  cases c <;> rfl

end AggregateTotals

structure MinuteBucket where
  minuteEpoch : Nat
  tcpNewConn : Nat
  tcpActivePeak : Nat
  udpActiveFlowsPeak : Nat
  tcpInBytes : Nat
  tcpOutBytes : Nat
  udpInBytes : Nat
  udpOutBytes : Nat
  deriving DecidableEq, Repr

/-- The cumulative fields of a bucket. -/
inductive Cumulative where
  | tcpNewConn
  | tcpInBytes
  | tcpOutBytes
  | udpInBytes
  | udpOutBytes
  deriving DecidableEq, Repr

/-- The peak fields of a bucket. -/
inductive Peak where
  | tcpActivePeak
  | udpActiveFlowsPeak
  deriving DecidableEq, Repr

namespace Cumulative

/-- The counter whose growth the field collects. -/
def counter : Cumulative → Counter
  | tcpNewConn => .tcpAccepted
  | tcpInBytes => .tcpInBytes
  | tcpOutBytes => .tcpOutBytes
  | udpInBytes => .udpInBytes
  | udpOutBytes => .udpOutBytes

def field : Cumulative → MinuteBucket → Nat
  | tcpNewConn => MinuteBucket.tcpNewConn
  | tcpInBytes => MinuteBucket.tcpInBytes
  | tcpOutBytes => MinuteBucket.tcpOutBytes
  | udpInBytes => MinuteBucket.udpInBytes
  | udpOutBytes => MinuteBucket.udpOutBytes

end Cumulative

namespace Peak

def counter : Peak → Counter
  | tcpActivePeak => .tcpActive
  | udpActiveFlowsPeak => .udpActiveFlows

def field : Peak → MinuteBucket → Nat
  | tcpActivePeak => MinuteBucket.tcpActivePeak
  | udpActiveFlowsPeak => MinuteBucket.udpActiveFlowsPeak

end Peak

namespace MinuteBucket

/-- The default bucket, with its minute set. -/
def fresh (minuteEpoch : Nat) : MinuteBucket := ⟨minuteEpoch, 0, 0, 0, 0, 0, 0, 0⟩

/-- Add the growth of the totals; `saturating_sub` is subtraction of naturals. -/
def add (bucket : MinuteBucket) (totals previousTotals : AggregateTotals) : MinuteBucket where
  minuteEpoch := bucket.minuteEpoch
  tcpNewConn := wrappingAdd bucket.tcpNewConn (totals.tcpAccepted - previousTotals.tcpAccepted)
  tcpActivePeak := max bucket.tcpActivePeak totals.tcpActive
  udpActiveFlowsPeak := max bucket.udpActiveFlowsPeak totals.udpActiveFlows
  tcpInBytes := wrappingAdd bucket.tcpInBytes (totals.tcpInBytes - previousTotals.tcpInBytes)
  tcpOutBytes := wrappingAdd bucket.tcpOutBytes (totals.tcpOutBytes - previousTotals.tcpOutBytes)
  udpInBytes := wrappingAdd bucket.udpInBytes (totals.udpInBytes - previousTotals.udpInBytes)
  udpOutBytes := wrappingAdd bucket.udpOutBytes (totals.udpOutBytes - previousTotals.udpOutBytes)

@[simp] theorem cumulative_fresh (c : Cumulative) (minuteEpoch : Nat) :
    c.field (fresh minuteEpoch) = 0 := by
  cases c <;> rfl

@[simp] theorem peak_fresh (c : Peak) (minuteEpoch : Nat) : c.field (fresh minuteEpoch) = 0 := by
  cases c <;> rfl

theorem cumulative_add (c : Cumulative) (bucket : MinuteBucket)
    (totals previousTotals : AggregateTotals) :
    c.field (bucket.add totals previousTotals) =
      wrappingAdd (c.field bucket) (totals.get c.counter - previousTotals.get c.counter) := by
  cases c <;> rfl

theorem peak_add (c : Peak) (bucket : MinuteBucket) (totals previousTotals : AggregateTotals) :
    c.field (bucket.add totals previousTotals) =
      max (c.field bucket) (totals.get c.counter) := by
  cases c <;> rfl

end MinuteBucket

structure BucketRing where
  buckets : List MinuteBucket
  nonempty : buckets ≠ []
  deriving DecidableEq

namespace BucketRing

def new (windowMinutes : Nat) : BucketRing where
  buckets := List.replicate (max windowMinutes 1) (.fresh 0)
  nonempty := by simp

/-- Add the totals to the bucket of the minute; the new previous totals come second. -/
def rollup (ring : BucketRing) (nowEpochSeconds : Nat) (totals previousTotals : AggregateTotals) :
    BucketRing × AggregateTotals :=
  let minuteEpoch := nowEpochSeconds / 60
  let index := minuteEpoch % ring.buckets.length
  (⟨ring.buckets.modify index fun bucket =>
      (if bucket.minuteEpoch ≠ minuteEpoch then .fresh minuteEpoch else bucket).add totals
        previousTotals,
    by simp [ring.nonempty]⟩, totals)

/-- The buckets in use, sorted by minute. -/
def snapshot (ring : BucketRing) : List MinuteBucket :=
  (ring.buckets.filter fun bucket => bucket.minuteEpoch ≠ 0).mergeSort
    fun a b => a.minuteEpoch ≤ b.minuteEpoch

end BucketRing

/-! ### Sequences of roll-ups -/

/-- The arguments of one `rollup` call. -/
structure RollupCall where
  nowEpochSeconds : Nat
  totals : AggregateTotals
  deriving DecidableEq, Repr

/-- A `rollup` call with the previous totals it found. -/
structure Rollup where
  minuteEpoch : Nat
  totals : AggregateTotals
  previousTotals : AggregateTotals
  deriving DecidableEq, Repr

/-- What the call adds to a cumulative field. -/
def Rollup.growth (c : Cumulative) (x : Rollup) : Nat :=
  x.totals.get c.counter - x.previousTotals.get c.counter

/-- The ring and the previous totals after a sequence of calls. -/
def rollups (windowMinutes : Nat) (calls : List RollupCall) : BucketRing × AggregateTotals :=
  calls.foldl (fun state call => state.1.rollup call.nowEpochSeconds call.totals state.2)
    (.new windowMinutes, .default)

/-- Every call with the totals of the call before it. -/
def withPrevious (previousTotals : AggregateTotals) : List RollupCall → List Rollup
  | [] => []
  | call :: calls =>
      ⟨call.nowEpochSeconds / 60, call.totals, previousTotals⟩ :: withPrevious call.totals calls

/-- Minutes as keys of a lazy ring of buckets. -/
def minuteRing : Ring Rollup MinuteBucket where
  key := Rollup.minuteEpoch
  owner := MinuteBucket.minuteEpoch
  fresh := .fresh
  add bucket x := bucket.add x.totals x.previousTotals
  owner_fresh _ := rfl
  owner_add _ _ := rfl

theorem buckets_foldl (ring : BucketRing) (previousTotals : AggregateTotals)
    (calls : List RollupCall) :
    (calls.foldl (fun state call => state.1.rollup call.nowEpochSeconds call.totals state.2)
      (ring, previousTotals)).1.buckets =
      (withPrevious previousTotals calls).foldl minuteRing.push ring.buckets := by
  induction calls generalizing ring previousTotals with
  | nil => rfl
  | cons call calls ih =>
      rw [List.foldl_cons, ih, withPrevious, List.foldl_cons]
      congr 1
      simp only [BucketRing.rollup, Ring.push, minuteRing]
      congr 1
      funext bucket
      simp only [Ring.touch, ne_eq, ite_not]

/-- The source's ring is the lazy ring of the calls. -/
theorem buckets_eq (windowMinutes : Nat) (calls : List RollupCall) :
    (rollups windowMinutes calls).1.buckets =
      minuteRing.run (max windowMinutes 1) (withPrevious .default calls) :=
  buckets_foldl _ _ calls

/-! ### The value of a bucket -/

theorem cumulative_foldl (c : Cumulative) {bucket : MinuteBucket} (xs : List Rollup)
    (small : c.field bucket < u64Size) :
    c.field (xs.foldl minuteRing.add bucket) =
      (c.field bucket + (xs.map fun x => x.growth c).sum) % u64Size := by
  induction xs generalizing bucket with
  | nil => exact (Nat.mod_eq_of_lt small).symm
  | cons x xs ih =>
      have added : c.field (minuteRing.add bucket x) = (c.field bucket + x.growth c) % u64Size :=
        MinuteBucket.cumulative_add ..
      rw [List.foldl_cons, ih (added ▸ Nat.mod_lt _ u64Size_pos), added, List.map_cons,
        List.sum_cons, Nat.mod_add_mod, Nat.add_assoc]

theorem peak_foldl (c : Peak) (bucket : MinuteBucket) (xs : List Rollup) :
    c.field (xs.foldl minuteRing.add bucket) =
      (xs.map fun x => x.totals.get c.counter).foldl max (c.field bucket) := by
  induction xs generalizing bucket with
  | nil => rfl
  | cons x xs ih =>
      rw [List.foldl_cons, ih, List.map_cons, List.foldl_cons]
      exact congrArg (List.foldl max · _) (MinuteBucket.peak_add ..)

theorem le_foldl_max (l : List Nat) (a : Nat) : a ≤ l.foldl max a ∧ ∀ x ∈ l, x ≤ l.foldl max a := by
  induction l generalizing a with
  | nil => simp
  | cons y l ih =>
      obtain ⟨start, rest⟩ := ih (max a y)
      refine ⟨by simp only [List.foldl_cons]; omega, ?_⟩
      intro x member
      rcases List.mem_cons.mp member with rfl | member
      · simp only [List.foldl_cons]
        omega
      · exact rest x member

theorem foldl_max_mem (l : List Nat) (a : Nat) : l.foldl max a = a ∨ l.foldl max a ∈ l := by
  induction l generalizing a with
  | nil => simp
  | cons y l ih =>
      rw [List.foldl_cons]
      rcases ih (max a y) with same | member
      · rcases Nat.le_total a y with le | le
        · exact .inr (by rw [same, Nat.max_eq_right le]; exact List.mem_cons_self ..)
        · exact .inl (by rw [same, Nat.max_eq_left le])
      · exact .inr (List.mem_cons_of_mem y member)

/-! ### What a snapshot contains -/

/-- The calls whose minute shares a bucket with `m`. -/
def sharingCalls (windowMinutes m : Nat) (calls : List RollupCall) : List Rollup :=
  (withPrevious .default calls).filter fun x =>
    x.minuteEpoch % max windowMinutes 1 = m % max windowMinutes 1

/-- Of these, the calls with minute `m` after the last one with another minute. -/
def trailingCalls (windowMinutes m : Nat) (calls : List RollupCall) : List Rollup :=
  (sharingCalls windowMinutes m calls).rtakeWhile fun x => x.minuteEpoch = m

/-- The snapshot after the calls, as the calls determine it. -/
structure SnapshotOf (windowMinutes : Nat) (calls : List RollupCall)
    (snapshot : List MinuteBucket) : Prop where
  ascending : snapshot.Pairwise fun a b => a.minuteEpoch < b.minuteEpoch
  length_le : snapshot.length ≤ max 1 windowMinutes
  mem_iff : ∀ m, m ≠ 0 → ((∃ bucket ∈ snapshot, bucket.minuteEpoch = m) ↔
    (sharingCalls windowMinutes m calls).getLast?.map Rollup.minuteEpoch = some m)
  /-- Bucket additions wrap as `u64`s do; as long as they fit, the sum is exact. -/
  cumulative : ∀ bucket ∈ snapshot, ∀ c : Cumulative,
    ((trailingCalls windowMinutes bucket.minuteEpoch calls).map fun x => x.growth c).sum <
      u64Size →
    c.field bucket =
      ((trailingCalls windowMinutes bucket.minuteEpoch calls).map fun x => x.growth c).sum
  peak : ∀ bucket ∈ snapshot, ∀ c : Peak,
    (∀ x ∈ trailingCalls windowMinutes bucket.minuteEpoch calls,
      x.totals.get c.counter ≤ c.field bucket) ∧
    ∃ x ∈ trailingCalls windowMinutes bucket.minuteEpoch calls,
      c.field bucket = x.totals.get c.counter

theorem mem_snapshot {ring : BucketRing} {bucket : MinuteBucket} :
    bucket ∈ ring.snapshot ↔ bucket ∈ ring.buckets ∧ bucket.minuteEpoch ≠ 0 := by
  simp [BucketRing.snapshot]

section

variable {windowMinutes : Nat} {calls : List RollupCall} {bucket : MinuteBucket}

/-- A bucket in use belongs to the minute of the last call that shares it. -/
theorem holder_of_mem (member : bucket ∈ (rollups windowMinutes calls).1.snapshot) :
    minuteRing.holder (max windowMinutes 1) (bucket.minuteEpoch % max windowMinutes 1)
      (withPrevious .default calls) = bucket.minuteEpoch ∧
    (minuteRing.run (max windowMinutes 1) (withPrevious .default calls))[
      bucket.minuteEpoch % max windowMinutes 1]? = some bucket := by
  obtain ⟨inRing, used⟩ := mem_snapshot.mp member
  rw [buckets_eq] at inRing
  obtain ⟨r, slot⟩ := List.mem_iff_getElem?.mp inRing
  have bound : r < max windowMinutes 1 := by
    simpa using (List.getElem?_eq_some_iff.mp slot).1
  have owner : bucket.minuteEpoch = _ := Ring.owner_of_slot bound slot
  have here := (Ring.holder_mod (R := minuteRing)).resolve_left (owner ▸ used)
  rw [← owner] at here
  rw [here]
  exact ⟨owner.symm, slot⟩

/-- A bucket in use holds the trailing calls of its minute. -/
theorem bucket_eq (member : bucket ∈ (rollups windowMinutes calls).1.snapshot) :
    bucket = (trailingCalls windowMinutes bucket.minuteEpoch calls).foldl minuteRing.add
      (.fresh bucket.minuteEpoch) := by
  obtain ⟨holder, slot⟩ := holder_of_mem member
  have bound : bucket.minuteEpoch % max windowMinutes 1 < max windowMinutes 1 :=
    Nat.mod_lt _ (by omega)
  rw [Ring.slot_eq _ _ bound, Ring.trailing, holder, Option.some.injEq] at slot
  exact slot.symm

theorem trailingCalls_ne_nil (member : bucket ∈ (rollups windowMinutes calls).1.snapshot) :
    trailingCalls windowMinutes bucket.minuteEpoch calls ≠ [] := by
  obtain ⟨holder, -⟩ := holder_of_mem member
  have used := (mem_snapshot.mp member).2
  have last : (sharingCalls windowMinutes bucket.minuteEpoch calls).getLast?.map
      Rollup.minuteEpoch = some bucket.minuteEpoch := (Ring.holder_eq_iff used).mp holder
  intro none
  rw [trailingCalls, List.rtakeWhile_eq_nil_iff] at none
  obtain ⟨x, final, same⟩ := Option.map_eq_some_iff.mp last
  have nonempty : sharingCalls windowMinutes bucket.minuteEpoch calls ≠ [] :=
    List.ne_nil_of_mem (List.mem_of_getLast? final)
  rw [List.getLast?_eq_getLast_of_ne_nil nonempty, Option.some.injEq] at final
  exact none nonempty (by rw [final]; simpa using same)

theorem snapshot_ascending (ring : BucketRing)
    (apart : ring.buckets.Pairwise fun a b => a.minuteEpoch ≠ 0 → a.minuteEpoch ≠ b.minuteEpoch) :
    ring.snapshot.Pairwise fun a b => a.minuteEpoch < b.minuteEpoch := by
  have sorted : ring.snapshot.Pairwise fun a b => decide (a.minuteEpoch ≤ b.minuteEpoch) :=
    List.pairwise_mergeSort
      (fun a b c ab bc => by simp only [decide_eq_true_eq] at ab bc ⊢; omega)
      (fun a b => by simp only [Bool.or_eq_true, decide_eq_true_eq]; omega) _
  have used : (ring.buckets.filter fun bucket => bucket.minuteEpoch ≠ 0).Pairwise
      fun a b => a.minuteEpoch ≠ b.minuteEpoch := by
    refine (apart.filter _).imp_of_mem ?_
    intro a b member _ apart
    exact apart (by simpa using (List.mem_filter.mp member).2)
  have distinct : ring.snapshot.Pairwise fun a b => a.minuteEpoch ≠ b.minuteEpoch :=
    ((List.mergeSort_perm _ _).pairwise_iff Ne.symm).mpr used
  refine sorted.imp₂ ?_ distinct
  intro a b le ne
  simp only [decide_eq_true_eq] at le
  omega

theorem snapshot_length_le (ring : BucketRing) : ring.snapshot.length ≤ ring.buckets.length := by
  simpa [BucketRing.snapshot] using List.length_filter_le _ ring.buckets

/-- What a snapshot contains is determined by the calls, bucket by bucket. -/
theorem snapshot_rollups (windowMinutes : Nat) (calls : List RollupCall) :
    SnapshotOf windowMinutes calls (rollups windowMinutes calls).1.snapshot where
  ascending := by
    refine snapshot_ascending _ ?_
    rw [buckets_eq]
    exact minuteRing.run_pairwise _ _
  length_le := by
    have le := snapshot_length_le (rollups windowMinutes calls).1
    rw [buckets_eq, Ring.length_run] at le
    omega
  mem_iff := by
    intro m positive
    rw [← show (minuteRing.sharing (max windowMinutes 1) (m % max windowMinutes 1)
      (withPrevious .default calls)) = sharingCalls windowMinutes m calls from rfl]
    rw [show Rollup.minuteEpoch = minuteRing.key from rfl, ← Ring.holder_eq_iff positive]
    constructor
    · rintro ⟨bucket, member, rfl⟩
      exact (holder_of_mem member).1
    · intro holder
      have bound : m % max windowMinutes 1 < max windowMinutes 1 := Nat.mod_lt _ (by omega)
      have slot := Ring.slot_eq (R := minuteRing) _ (withPrevious .default calls) bound
      have owner := Ring.owner_of_slot bound slot
      rw [holder] at owner slot
      refine ⟨_, mem_snapshot.mpr ⟨?_, ?_⟩, owner⟩
      · rw [buckets_eq]
        exact List.mem_of_getElem? slot
      · exact fun zero => positive (owner.symm.trans zero)
  cumulative := by
    intro bucket member c fits
    have value := congrArg c.field (bucket_eq member)
    rw [cumulative_foldl c _ (by simp [u64Size_pos]), MinuteBucket.cumulative_fresh, Nat.zero_add,
      Nat.mod_eq_of_lt fits] at value
    exact value
  peak := by
    intro bucket member c
    have value := congrArg c.field (bucket_eq member)
    rw [peak_foldl, MinuteBucket.peak_fresh] at value
    rw [value]
    refine ⟨fun x trailing => (le_foldl_max _ 0).2 _ (List.mem_map_of_mem trailing), ?_⟩
    rcases foldl_max_mem ((trailingCalls windowMinutes bucket.minuteEpoch calls).map
      fun x => x.totals.get c.counter) 0 with zero | reached
    · -- A maximum of zero is the value of every call of the run.
      obtain ⟨x, trailing⟩ := List.exists_mem_of_ne_nil _ (trailingCalls_ne_nil member)
      have le := (le_foldl_max _ 0).2 _
        (List.mem_map_of_mem (f := fun x : Rollup => x.totals.get c.counter) trailing)
      rw [zero] at le ⊢
      exact ⟨x, trailing, (Nat.le_zero.mp le).symm⟩
    · obtain ⟨x, trailing, same⟩ := List.mem_map.mp reached
      exact ⟨x, trailing, same.symm⟩

end

/-! ### What all buckets together contain -/

section

variable {windowMinutes : Nat} {calls : List RollupCall} {c : Cumulative}

/-- The totals of the last call. -/
def lastTotals (calls : List RollupCall) : AggregateTotals :=
  (calls.getLast?.map RollupCall.totals).getD .default

@[simp] theorem lastTotals_concat (call : RollupCall) :
    lastTotals (calls ++ [call]) = call.totals := by
  simp [lastTotals]

@[simp] theorem rollups_concat (call : RollupCall) :
    rollups windowMinutes (calls ++ [call]) =
      (rollups windowMinutes calls).1.rollup call.nowEpochSeconds call.totals
        (rollups windowMinutes calls).2 := by
  simp [rollups]

theorem rollups_previous (windowMinutes : Nat) (calls : List RollupCall) :
    (rollups windowMinutes calls).2 = lastTotals calls := by
  induction calls using List.reverseRecOn with
  | nil => rfl
  | append_singleton calls call _ => rw [rollups_concat, lastTotals_concat, BucketRing.rollup]

theorem withPrevious_concat (previousTotals : AggregateTotals) (calls : List RollupCall)
    (call : RollupCall) :
    withPrevious previousTotals (calls ++ [call]) = withPrevious previousTotals calls ++
      [⟨call.nowEpochSeconds / 60, call.totals,
        (calls.getLast?.map RollupCall.totals).getD previousTotals⟩] := by
  induction calls generalizing previousTotals with
  | nil => rfl
  | cons first calls ih =>
      rw [List.cons_append, withPrevious, withPrevious, ih, List.cons_append]
      cases calls with
      | nil => rfl
      | cons second calls =>
          rw [List.getLast?_cons_cons]
          simp [List.getLast?_cons]

/-- No call finds a smaller total than the call before it. -/
def Untruncated (c : Cumulative) (calls : List RollupCall) : Prop :=
  ∀ before call after, calls = before ++ call :: after →
    (lastTotals before).get c.counter ≤ call.totals.get c.counter

theorem Untruncated.concat_iff {call : RollupCall} : Untruncated c (calls ++ [call]) ↔
    Untruncated c calls ∧ (lastTotals calls).get c.counter ≤ call.totals.get c.counter := by
  constructor
  · intro all
    refine ⟨?_, all calls call [] rfl⟩
    rintro before first after rfl
    exact all before first (after ++ [call]) (by simp)
  · rintro ⟨all, le⟩ before first after same
    cases after using List.reverseRecOn with
    | nil =>
        obtain ⟨rfl, rfl⟩ := List.append_singleton_inj.mp same
        exact le
    | append_singleton after last =>
        rw [← List.cons_append, ← List.append_assoc] at same
        obtain ⟨rfl, -⟩ := List.append_singleton_inj.mp same
        exact all before first after rfl

/-- What the calls have added to the buckets telescopes. -/
theorem sum_growth (untruncated : Untruncated c calls) :
    ((withPrevious .default calls).map fun x => x.growth c).sum =
      (lastTotals calls).get c.counter := by
  induction calls using List.reverseRecOn with
  | nil => simp [withPrevious, lastTotals]
  | append_singleton calls call ih =>
      obtain ⟨before, le⟩ := Untruncated.concat_iff.mp untruncated
      rw [withPrevious_concat, List.map_append, List.sum_append, ih before, lastTotals_concat]
      show _ + (call.totals.get c.counter - (lastTotals calls).get c.counter + 0) = _
      omega

/-- The bucket that a call adds to, after a reset if there is one. -/
def BucketRing.touched (ring : BucketRing) (nowEpochSeconds : Nat) : Option MinuteBucket :=
  let minuteEpoch := nowEpochSeconds / 60
  ring.buckets[minuteEpoch % ring.buckets.length]?.map fun bucket =>
    if bucket.minuteEpoch ≠ minuteEpoch then .fresh minuteEpoch else bucket

/-- A bucket holds no more than all calls together have added. -/
theorem field_touched_le {bucket : MinuteBucket} {nowEpochSeconds : Nat}
    (touched : (rollups windowMinutes calls).1.touched nowEpochSeconds = some bucket) :
    c.field bucket ≤ ((withPrevious .default calls).map fun x => x.growth c).sum := by
  obtain ⟨old, slot, rfl⟩ := Option.map_eq_some_iff.mp touched
  by_cases other : old.minuteEpoch ≠ nowEpochSeconds / 60
  · simp [other]
  · rw [if_neg other]
    rw [buckets_eq, Ring.length_run] at slot
    have bound : nowEpochSeconds / 60 % max windowMinutes 1 < max windowMinutes 1 :=
      Nat.mod_lt _ (by omega)
    rw [Ring.slot_eq _ _ bound, Option.some.injEq] at slot
    rw [← slot, cumulative_foldl c _ (by simp [minuteRing, u64Size_pos])]
    simp only [minuteRing, MinuteBucket.cumulative_fresh, Nat.zero_add]
    refine (Nat.mod_le _ _).trans (List.Sublist.sum_le_sum ?_ fun _ _ => Nat.zero_le _)
    exact Ring.trailing_sublist.map _

theorem mem_withPrevious {x : Rollup} {previousTotals : AggregateTotals}
    (member : x ∈ withPrevious previousTotals calls) :
    ∃ call ∈ calls, x.minuteEpoch = call.nowEpochSeconds / 60 := by
  induction calls generalizing previousTotals with
  | nil => cases member
  | cons call calls ih =>
      cases List.mem_cons.mp member with
      | inl same => exact ⟨call, List.mem_cons_self .., congrArg Rollup.minuteEpoch same⟩
      | inr later =>
          obtain ⟨call', inside, same⟩ := ih later
          exact ⟨call', List.mem_cons_of_mem call inside, same⟩

/-- The calls go to minutes from 1 on that differ by less than the window. -/
def WithinWindow (windowMinutes : Nat) (calls : List RollupCall) : Prop :=
  ∃ first, 0 < first ∧ ∀ call ∈ calls, first ≤ call.nowEpochSeconds / 60 ∧
    call.nowEpochSeconds / 60 < first + max windowMinutes 1

theorem WithinWindow.keys (within : WithinWindow windowMinutes calls) :
    ∃ first, 0 < first ∧ ∀ x ∈ withPrevious .default calls,
      first ≤ minuteRing.key x ∧ minuteRing.key x < first + max windowMinutes 1 := by
  obtain ⟨first, positive, range⟩ := within
  refine ⟨first, positive, ?_⟩
  intro x member
  obtain ⟨call, inside, same⟩ := mem_withPrevious member
  show first ≤ x.minuteEpoch ∧ x.minuteEpoch < _
  rw [same]
  exact range call inside

/-- A slot holds no more than the calls that share it have added. -/
theorem field_slot_le (r : Nat) :
    c.field ((minuteRing.trailing (max windowMinutes 1) r (withPrevious .default calls)).foldl
      minuteRing.add (minuteRing.fresh (minuteRing.holder (max windowMinutes 1) r
        (withPrevious .default calls)))) ≤
      ((minuteRing.sharing (max windowMinutes 1) r (withPrevious .default calls)).map
        fun x => x.growth c).sum := by
  have fresh : ∀ k, c.field (minuteRing.fresh k) = 0 := MinuteBucket.cumulative_fresh c
  rw [cumulative_foldl c _ (by rw [fresh]; exact u64Size_pos), fresh, Nat.zero_add]
  refine (Nat.mod_le _ _).trans (List.Sublist.sum_le_sum ?_ fun _ _ => Nat.zero_le _)
  exact (List.rtakeWhile_suffix ..).sublist.map _

/-- A snapshot shows no more than all calls together have added. -/
theorem sum_snapshot_le :
    ((rollups windowMinutes calls).1.snapshot.map c.field).sum ≤
      ((withPrevious .default calls).map fun x => x.growth c).sum := by
  have shown : ((rollups windowMinutes calls).1.snapshot.map c.field).sum = _ :=
    ((List.mergeSort_perm _ _).map c.field).sum_eq
  calc
    _ ≤ ((rollups windowMinutes calls).1.buckets.map c.field).sum :=
        shown.trans_le ((List.filter_sublist.map c.field).sum_le_sum fun _ _ => Nat.zero_le _)
    _ ≤ ((List.range (max windowMinutes 1)).map fun r => ((minuteRing.sharing
          (max windowMinutes 1) r (withPrevious .default calls)).map
            fun x => x.growth c).sum).sum := by
        rw [buckets_eq, Ring.run_eq_map, List.map_map]
        exact List.sum_le_sum fun r _ => field_slot_le r
    _ = ((withPrevious .default calls).map fun x => x.growth c).sum :=
        Ring.sum_sharing _ (by omega) _

/-- Leaving out what does not count leaves the sum as it is. -/
theorem sum_filter_eq {l : List MinuteBucket} {used : MinuteBucket → Bool}
    {f : MinuteBucket → Nat} (zero : ∀ b ∈ l, used b = false → f b = 0) :
    ((l.filter used).map f).sum = (l.map f).sum := by
  induction l with
  | nil => rfl
  | cons b l ih =>
      have rest := ih fun b' member => zero b' (List.mem_cons_of_mem b member)
      cases counts : used b with
      | true => simp [counts, rest]
      | false => simp [counts, rest, zero b (List.mem_cons_self ..) counts]

/-- Within one window nothing is reset, so the snapshot shows everything added. -/
theorem sum_snapshot (within : WithinWindow windowMinutes calls)
    (untruncated : Untruncated c calls) (fits : (lastTotals calls).get c.counter < u64Size) :
    ((rollups windowMinutes calls).1.snapshot.map c.field).sum =
      (lastTotals calls).get c.counter := by
  obtain ⟨first, positive, keys⟩ := within.keys
  have sorted : ((rollups windowMinutes calls).1.snapshot.map c.field).sum = _ :=
    ((List.mergeSort_perm _ _).map c.field).sum_eq
  have slot : ∀ r, c.field ((minuteRing.trailing (max windowMinutes 1) r
      (withPrevious .default calls)).foldl minuteRing.add (.fresh (minuteRing.holder
        (max windowMinutes 1) r (withPrevious .default calls)))) =
      ((minuteRing.sharing (max windowMinutes 1) r (withPrevious .default calls)).map
        fun x => x.growth c).sum := by
    intro r
    have le : ((minuteRing.sharing (max windowMinutes 1) r (withPrevious .default calls)).map
        fun x => x.growth c).sum ≤ (lastTotals calls).get c.counter := by
      rw [← sum_growth untruncated]
      exact (List.filter_sublist.map _).sum_le_sum fun _ _ => Nat.zero_le _
    rw [Ring.trailing_eq_sharing keys, cumulative_foldl c _ (by simp [u64Size_pos]),
      MinuteBucket.cumulative_fresh, Nat.zero_add, Nat.mod_eq_of_lt (by omega)]
  rw [sorted, sum_filter_eq, buckets_eq, Ring.run_eq_map, List.map_map]
  · calc
      _ = ((List.range (max windowMinutes 1)).map fun r =>
            ((minuteRing.sharing (max windowMinutes 1) r (withPrevious .default calls)).map
              fun x => x.growth c).sum).sum :=
          congrArg List.sum (List.map_congr_left fun r _ => slot r)
      _ = ((withPrevious .default calls).map fun x => x.growth c).sum :=
          Ring.sum_sharing _ (by omega) _
      _ = (lastTotals calls).get c.counter := sum_growth untruncated
  · -- A bucket not in use belongs to minute zero, to which no call goes.
    intro bucket member unused
    rw [buckets_eq, Ring.run_eq_map] at member
    obtain ⟨r, -, rfl⟩ := List.mem_map.mp member
    simp only [ne_eq, decide_not, Bool.not_eq_false', decide_eq_true_eq] at unused
    have owner : minuteRing.holder (max windowMinutes 1) r (withPrevious .default calls) = 0 := by
      have zero := Ring.owner_foldl (R := minuteRing) (minuteRing.fresh (minuteRing.holder
        (max windowMinutes 1) r (withPrevious .default calls)))
          (minuteRing.trailing (max windowMinutes 1) r (withPrevious .default calls))
      rw [minuteRing.owner_fresh] at zero
      exact zero.symm.trans unused
    have none : minuteRing.trailing (max windowMinutes 1) r (withPrevious .default calls) = [] := by
      rw [List.eq_nil_iff_forall_not_mem]
      intro x trailing
      have key := Ring.key_of_trailing trailing
      have low := (keys x (Ring.trailing_sublist.subset trailing)).1
      omega
    rw [none]
    exact MinuteBucket.cumulative_fresh c _

end

end RangePorter
