import RangePorter.SortedSet
import RangePorter.Text.Number
import RangePorter.Text.Segments

/-!
# Listen port expressions

`parse_portset` splits the expression at commas and reads each segment as a
port or as a range of ports. The relations `Denotes` and `Rejected` say what a
segment means and what is wrong with it; the parser returns the union of the
meanings, or the error of the first segment that has none.
-/

namespace RangePorter.PortSet

open Text

/-- A Rust `u16`. -/
abbrev Port := BitVec 16

structure PortSetError where
  message : String
  deriving DecidableEq, Repr

namespace PortSetError

def emptyExpression : PortSetError := ⟨"listen port expression cannot be empty"⟩

def emptySegment : PortSetError := ⟨"listen port expression contains an empty segment"⟩

def invalidPort (segment : Str) : PortSetError :=
  ⟨"invalid port value: " ++ String.ofList segment⟩

def portZero : PortSetError := ⟨"port 0 is not a valid listen port"⟩

def invalidRange (segment : Str) : PortSetError :=
  ⟨"invalid port range " ++ String.ofList segment ++ ": start must be <= end"⟩

end PortSetError

open PortSetError

/-- The ports of `start..=stop`, in ascending order. -/
def rangeInclusive (start stop : Port) : List Port :=
  (List.range' start.toNat (stop.toNat + 1 - start.toNat)).map (BitVec.ofNat 16)

/-- The text is trimmed before it is read; the error shows it as it came. -/
def parsePort (segment : Str) : Except PortSetError Port :=
  match parseUnsigned 16 (trim segment) with
  | none => .error (invalidPort segment)
  | some port => if port = 0 then .error portZero else .ok port

/-- One round of the loop over the segments. -/
def addSegment (ports : SortedSet Port) (segment : Str) :
    Except PortSetError (SortedSet Port) :=
  let segment := trim segment
  if segment.isEmpty then .error emptySegment
  else
    match splitOnce '-' segment with
    | some (start, stop) => do
        let start ← parsePort start
        let stop ← parsePort stop
        if start > stop then .error (invalidRange segment)
        else .ok (ports.extend (rangeInclusive start stop))
    | none => do
        let port ← parsePort segment
        .ok (ports.insert port)

def parsePortset (input : Str) : Except PortSetError (List Port) :=
  if (trim input).isEmpty then .error emptyExpression
  else do
    let ports ← (input.splitOn ',').foldlM addSegment .empty
    .ok ports.toList

/-! ### What a segment means -/

def IsPort (text : Str) (port : Port) : Prop := Reads 16 text port ∧ port ≠ 0

/-- A trimmed segment is a port, or two ports around its first dash. -/
inductive Denotes (segment : Str) : Port → Port → Prop
  | port {p : Port} (read : IsPort (trim segment) p) : Denotes segment p p
  | range {left right : Str} {start stop : Port}
      (shape : trim segment = left ++ '-' :: right) (first : '-' ∉ left)
      (readStart : IsPort (trim left) start) (readStop : IsPort (trim right) stop)
      (order : start ≤ stop) : Denotes segment start stop

def Accepted (segment : Str) : Prop := ∃ start stop, Denotes segment start stop

inductive BadPort (text : Str) : PortSetError → Prop
  | unreadable (none : ∀ port, ¬ Reads 16 (trim text) port) : BadPort text (invalidPort text)
  | zero (read : Reads 16 (trim text) 0) : BadPort text portZero

/-- What is wrong with a segment, in the order in which it is looked at. -/
inductive Rejected (segment : Str) : PortSetError → Prop
  | empty (blank : trim segment = []) : Rejected segment emptySegment
  | port {error : PortSetError} (nonempty : trim segment ≠ []) (plain : '-' ∉ trim segment)
      (bad : BadPort (trim segment) error) : Rejected segment error
  | start {left right : Str} {error : PortSetError}
      (shape : trim segment = left ++ '-' :: right) (first : '-' ∉ left)
      (bad : BadPort left error) : Rejected segment error
  | stop {left right : Str} {start : Port} {error : PortSetError}
      (shape : trim segment = left ++ '-' :: right) (first : '-' ∉ left)
      (readStart : IsPort (trim left) start) (bad : BadPort right error) :
      Rejected segment error
  | inverted {left right : Str} {start stop : Port}
      (shape : trim segment = left ++ '-' :: right) (first : '-' ∉ left)
      (readStart : IsPort (trim left) start) (readStop : IsPort (trim right) stop)
      (order : stop < start) : Rejected segment (invalidRange (trim segment))

variable {segment text : Str} {port start stop : Port} {error : PortSetError}
variable {ports : SortedSet Port}

theorem mem_rangeInclusive : port ∈ rangeInclusive start stop ↔ start ≤ port ∧ port ≤ stop := by
  simp only [rangeInclusive, List.mem_map, List.mem_range'_1, BitVec.le_def]
  constructor
  · rintro ⟨n, ⟨lower, upper⟩, rfl⟩
    have small : n < 2 ^ 16 := by have := stop.isLt; omega
    simp only [BitVec.toNat_ofNat, Nat.mod_eq_of_lt small]
    omega
  · intro between
    exact ⟨port.toNat, by omega, by simp⟩

/-- A sign, a digit or nothing at all: a text that is read has no dash. -/
theorem not_mem_of_reads (read : Reads 16 text port) : '-' ∉ text := by
  intro member
  exact absurd (read.isDigit_or_sign member) (by decide)

theorem not_reads_nil : ¬ Reads 16 [] port := by
  rintro ⟨digits, shape, nonempty, -, -⟩
  cases shape with
  | inl plain => exact nonempty plain.symm
  | inr signed => cases signed

/-! ### One port -/

theorem parsePort_eq_ok_iff : parsePort text = .ok port ↔ IsPort (trim text) port := by
  unfold parsePort IsPort
  rw [← parseUnsigned_eq_some_iff]
  cases parseUnsigned 16 (trim text) with
  | none => simp
  | some value =>
      by_cases zero : value = 0
      · simp only [zero, if_true, reduceCtorEq, Option.some.injEq, false_iff, not_and, not_not]
        exact Eq.symm
      · simp only [zero, if_false, Except.ok.injEq, Option.some.injEq]
        exact ⟨fun same => ⟨same, same ▸ zero⟩, fun both => both.1⟩

theorem parsePort_eq_error_iff : parsePort text = .error error ↔ BadPort text error := by
  constructor
  · intro failed
    unfold parsePort at failed
    split at failed
    · rename_i unread
      cases failed
      apply BadPort.unreadable
      intro port read
      rw [parseUnsigned_eq_some_iff.2 read] at unread
      cases unread
    · rename_i value read
      split at failed
      · rename_i zero
        cases failed
        exact .zero (parseUnsigned_eq_some_iff.1 (zero ▸ read))
      · cases failed
  · intro bad
    unfold parsePort
    cases bad with
    | unreadable none =>
        cases read : parseUnsigned 16 (trim text) with
        | none => rfl
        | some value => exact absurd (parseUnsigned_eq_some_iff.1 read) (none value)
    | zero read => rw [parseUnsigned_eq_some_iff.2 read]; rfl

/-! ### One segment -/

theorem addSegment_blank (blank : trim segment = []) :
    addSegment ports segment = .error emptySegment := by
  simp [addSegment, blank]

theorem addSegment_plain (nonempty : trim segment ≠ []) (plain : '-' ∉ trim segment) :
    addSegment ports segment = (parsePort (trim segment)).map ports.insert := by
  simp only [addSegment, List.isEmpty_iff, nonempty, if_false, splitOnce_eq_none_iff.2 plain]
  cases parsePort (trim segment) <;> rfl

theorem addSegment_range {left right : Str} (shape : trim segment = left ++ '-' :: right)
    (first : '-' ∉ left) :
    addSegment ports segment = (do
      let start ← parsePort left
      let stop ← parsePort right
      if start > stop then .error (invalidRange (trim segment))
      else .ok (ports.extend (rangeInclusive start stop))) := by
  have nonempty : trim segment ≠ [] := by simp [shape]
  simp only [addSegment, List.isEmpty_iff, nonempty, if_false,
    splitOnce_eq_some_iff.2 ⟨shape, first⟩]

/-- The three forms of a segment. -/
theorem segment_cases (segment : Str) :
    trim segment = [] ∨ (trim segment ≠ [] ∧ '-' ∉ trim segment) ∨
      ∃ left right, trim segment = left ++ '-' :: right ∧ '-' ∉ left := by
  by_cases blank : trim segment = []
  · exact .inl blank
  · cases cut : splitOnce '-' (trim segment) with
    | none => exact .inr (.inl ⟨blank, splitOnce_eq_none_iff.1 cut⟩)
    | some parts => exact .inr (.inr ⟨parts.1, parts.2, splitOnce_eq_some_iff.1 cut⟩)

theorem first_unique {left right left' right' : Str}
    (shape : trim segment = left ++ '-' :: right) (first : '-' ∉ left)
    (shape' : trim segment = left' ++ '-' :: right') (first' : '-' ∉ left') :
    left = left' ∧ right = right' := by
  have cut := splitOnce_eq_some_iff.2 ⟨shape, first⟩
  have cut' := splitOnce_eq_some_iff.2 ⟨shape', first'⟩
  simpa using cut.symm.trans cut'

theorem not_denotes_blank (blank : trim segment = []) : ¬ Denotes segment start stop := by
  intro denotes
  cases denotes with
  | port read => exact not_reads_nil (blank ▸ read.1)
  | range shape => simp [blank] at shape

theorem denotes_plain_iff (plain : '-' ∉ trim segment) :
    Denotes segment start stop ↔ IsPort (trim segment) start ∧ start = stop := by
  constructor
  · intro denotes
    cases denotes with
    | port read => exact ⟨read, rfl⟩
    | range shape => simp [shape] at plain
  · rintro ⟨read, rfl⟩
    exact .port read

theorem denotes_range_iff {left right : Str} (shape : trim segment = left ++ '-' :: right)
    (first : '-' ∉ left) :
    Denotes segment start stop ↔
      IsPort (trim left) start ∧ IsPort (trim right) stop ∧ start ≤ stop := by
  constructor
  · intro denotes
    cases denotes with
    | port read => exact absurd (by simp [shape]) (not_mem_of_reads read.1)
    | range shape' first' readStart readStop order =>
        obtain ⟨rfl, rfl⟩ := first_unique shape first shape' first'
        exact ⟨readStart, readStop, order⟩
  · rintro ⟨readStart, readStop, order⟩
    exact .range shape first readStart readStop order

theorem insert_eq_extend : ports.insert port = ports.extend (rangeInclusive port port) := by
  simp [rangeInclusive, SortedSet.extend]

theorem parsePort_trim : parsePort (trim text) = .ok port ↔ IsPort (trim text) port := by
  rw [parsePort_eq_ok_iff, trim_trim]

/-- An accepted segment adds the ports from its first to its last one. -/
theorem addSegment_eq_ok_iff {ports' : SortedSet Port} :
    addSegment ports segment = .ok ports' ↔
      ∃ range : Port × Port, Denotes segment range.1 range.2 ∧
        ports' = ports.extend (rangeInclusive range.1 range.2) := by
  obtain blank | ⟨nonempty, plain⟩ | ⟨left, right, shape, first⟩ := segment_cases segment
  · simp [addSegment_blank blank, not_denotes_blank blank]
  · rw [addSegment_plain nonempty plain]
    constructor
    · intro accepted
      cases read : parsePort (trim segment) with
      | error _ => simp [read, Except.map] at accepted
      | ok port =>
          simp only [read, Except.map, Except.ok.injEq] at accepted
          refine ⟨(port, port), (denotes_plain_iff plain).2 ⟨parsePort_trim.1 read, rfl⟩, ?_⟩
          rw [← accepted, insert_eq_extend]
    · rintro ⟨⟨start, stop⟩, denotes, rfl⟩
      obtain ⟨isPort, same⟩ : IsPort (trim segment) start ∧ start = stop :=
        (denotes_plain_iff plain).1 denotes
      subst same
      rw [parsePort_trim.2 isPort, ← insert_eq_extend]
      rfl
  · rw [addSegment_range shape first]
    simp only [denotes_range_iff shape first, ← parsePort_eq_ok_iff]
    constructor
    · intro accepted
      cases readStart : parsePort left with
      | error _ => simp [readStart, bind, Except.bind] at accepted
      | ok start =>
          cases readStop : parsePort right with
          | error _ => simp [readStart, readStop, bind, Except.bind] at accepted
          | ok stop =>
              simp only [readStart, readStop, bind, Except.bind] at accepted
              split at accepted
              · cases accepted
              · rename_i order
                cases accepted
                exact ⟨(start, stop), ⟨rfl, rfl, BitVec.not_lt.1 order⟩, rfl⟩
    · rintro ⟨⟨start, stop⟩, ⟨readStart, readStop, order⟩, rfl⟩
      simp only [readStart, readStop, bind, Except.bind]
      exact if_neg (BitVec.not_lt.2 order)

/-! ### A refused segment -/

theorem rejected_blank_iff (blank : trim segment = []) :
    Rejected segment error ↔ error = emptySegment := by
  constructor
  · intro rejected
    cases rejected with
    | empty => rfl
    | port nonempty => exact absurd blank nonempty
    | start shape => simp [blank] at shape
    | stop shape => simp [blank] at shape
    | inverted shape => simp [blank] at shape
  · rintro rfl
    exact .empty blank

theorem rejected_plain_iff (nonempty : trim segment ≠ []) (plain : '-' ∉ trim segment) :
    Rejected segment error ↔ BadPort (trim segment) error := by
  constructor
  · intro rejected
    cases rejected with
    | empty blank => exact absurd blank nonempty
    | port _ _ bad => exact bad
    | start shape => simp [shape] at plain
    | stop shape => simp [shape] at plain
    | inverted shape => simp [shape] at plain
  · exact .port nonempty plain

theorem rejected_range_iff {left right : Str} (shape : trim segment = left ++ '-' :: right)
    (first : '-' ∉ left) :
    Rejected segment error ↔
      BadPort left error ∨ ∃ start, IsPort (trim left) start ∧ (BadPort right error ∨
        ∃ stop, IsPort (trim right) stop ∧ stop < start ∧ error = invalidRange (trim segment)) := by
  constructor
  · intro rejected
    cases rejected with
    | empty blank => simp [blank] at shape
    | port _ plain => exact absurd (by simp [shape]) plain
    | start shape' first' bad =>
        obtain ⟨rfl, rfl⟩ := first_unique shape first shape' first'
        exact .inl bad
    | stop shape' first' readStart bad =>
        obtain ⟨rfl, rfl⟩ := first_unique shape first shape' first'
        exact .inr ⟨_, readStart, .inl bad⟩
    | inverted shape' first' readStart readStop order =>
        obtain ⟨rfl, rfl⟩ := first_unique shape first shape' first'
        exact .inr ⟨_, readStart, .inr ⟨_, readStop, order, rfl⟩⟩
  · rintro (bad | ⟨start, readStart, bad | ⟨stop, readStop, order, rfl⟩⟩)
    · exact .start shape first bad
    · exact .stop shape first readStart bad
    · exact .inverted shape first readStart readStop order

theorem addSegment_eq_error_iff :
    addSegment ports segment = .error error ↔ Rejected segment error := by
  obtain blank | ⟨nonempty, plain⟩ | ⟨left, right, shape, first⟩ := segment_cases segment
  · rw [addSegment_blank blank, rejected_blank_iff blank, Except.error.injEq, eq_comm]
  · rw [addSegment_plain nonempty plain, rejected_plain_iff nonempty plain,
      ← parsePort_eq_error_iff]
    cases parsePort (trim segment) <;> simp [Except.map]
  · rw [addSegment_range shape first, rejected_range_iff shape first]
    simp only [← parsePort_eq_ok_iff, ← parsePort_eq_error_iff]
    cases parsePort left with
    | error _ => simp [bind, Except.bind]
    | ok start =>
        cases parsePort right with
        | error _ => simp [bind, Except.bind]
        | ok stop =>
            simp only [bind, Except.bind, reduceCtorEq, Except.ok.injEq, false_or, exists_eq_left']
            split
            · rename_i order
              simp only [Except.error.injEq]
              exact ⟨fun same => ⟨order, same.symm⟩, fun both => both.2.symm⟩
            · rename_i order
              simp only [reduceCtorEq, false_iff, not_and]
              exact fun inverted => absurd inverted order

/-- The loop body reads one segment. -/
theorem reader : Reader addSegment
    (fun ports (range : Port × Port) => ports.extend (rangeInclusive range.1 range.2))
    (fun segment range => Denotes segment range.1 range.2) Rejected where
  ok_iff _ _ _ := addSegment_eq_ok_iff
  error_iff _ _ _ := addSegment_eq_error_iff

/-! ### The whole expression -/

theorem IsPort.unique {port' : Port} (read : IsPort text port) (read' : IsPort text port') :
    port = port' := by
  have parsed := parseUnsigned_eq_some_iff.2 read.1
  have parsed' := parseUnsigned_eq_some_iff.2 read'.1
  simpa using parsed.symm.trans parsed'

theorem Denotes.unique {start' stop' : Port} (denotes : Denotes segment start stop)
    (denotes' : Denotes segment start' stop') : start = start' ∧ stop = stop' := by
  cases denotes with
  | port read =>
      obtain ⟨read', same⟩ := (denotes_plain_iff (not_mem_of_reads read.1)).1 denotes'
      have first := read.unique read'
      exact ⟨first, first.trans same⟩
  | range shape first readStart readStop =>
      obtain ⟨readStart', readStop', -⟩ := (denotes_range_iff shape first).1 denotes'
      exact ⟨readStart.unique readStart', readStop.unique readStop'⟩

theorem mem_foldl_extend {ranges : List (Port × Port)} :
    port ∈ (ranges.foldl (fun ports range => ports.extend (rangeInclusive range.1 range.2))
        ports).toList ↔
      (∃ range ∈ ranges, range.1 ≤ port ∧ port ≤ range.2) ∨ port ∈ ports.toList := by
  induction ranges generalizing ports with
  | nil => simp
  | cons range ranges ih =>
      simp only [List.foldl_cons, ih, SortedSet.mem_extend, mem_rangeInclusive, List.mem_cons,
        exists_eq_or_imp]
      rw [or_left_comm, or_assoc]

/-- A blank expression is one blank segment. -/
theorem splitOn_blank {input : Str} (blank : trim input = []) : input.splitOn ',' = [input] := by
  apply List.splitOn_eq_singleton
  intro comma
  exact absurd (trim_eq_nil_iff.1 blank ',' comma) (by decide)

theorem accepted_iff :
    Accepted segment ↔ ∃ range : Port × Port, Denotes segment range.1 range.2 := by
  simp [Accepted, Prod.exists]

theorem parsePortset_blank {input : Str} (blank : trim input = []) :
    parsePortset input = .error emptyExpression := by
  simp [parsePortset, blank]

theorem parsePortset_nonblank {input : Str} (visible : trim input ≠ []) :
    parsePortset input =
      ((input.splitOn ',').foldlM addSegment .empty).map SortedSet.toList := by
  simp only [parsePortset, List.isEmpty_iff, visible, if_false]
  cases (input.splitOn ',').foldlM addSegment .empty <;> rfl

theorem parsePortset_eq_ok_iff {input : Str} {result : List Port} :
    parsePortset input = .ok result ↔
      ∃ ranges : List (Port × Port),
        List.Forall₂ (fun segment range => Denotes segment range.1 range.2)
          (input.splitOn ',') ranges ∧
        result = (ranges.foldl (fun ports range => ports.extend (rangeInclusive range.1 range.2))
          SortedSet.empty).toList := by
  by_cases blank : trim input = []
  · rw [parsePortset_blank blank, splitOn_blank blank]
    constructor
    · intro absurd
      cases absurd
    · rintro ⟨ranges, all, -⟩
      cases all with
      | cons denotes _ => exact absurd denotes (not_denotes_blank blank)
  · rw [parsePortset_nonblank blank]
    constructor
    · intro parsed
      cases run : (input.splitOn ',').foldlM addSegment .empty with
      | error _ => simp [run, Except.map] at parsed
      | ok ports =>
          obtain ⟨ranges, all, rfl⟩ := reader.foldlM_ok_iff.1 run
          simp only [run, Except.map, Except.ok.injEq] at parsed
          exact ⟨ranges, all, parsed.symm⟩
    · rintro ⟨ranges, all, rfl⟩
      rw [reader.foldlM_ok_iff.2 ⟨ranges, all, rfl⟩]
      rfl

theorem parsePortset_eq_error_iff {input : Str} :
    parsePortset input = .error error ↔
      (trim input = [] ∧ error = emptyExpression) ∨
      (trim input ≠ [] ∧ ∃ before segment after,
        input.splitOn ',' = before ++ segment :: after ∧
          (∀ earlier ∈ before, Accepted earlier) ∧ Rejected segment error) := by
  by_cases blank : trim input = []
  · simp [parsePortset_blank blank, blank, eq_comm]
  · have failed : ∀ outcome : Except PortSetError (SortedSet Port),
        outcome.map SortedSet.toList = .error error ↔ outcome = .error error := by
      intro outcome
      cases outcome <;> simp [Except.map]
    rw [parsePortset_nonblank blank, failed, reader.foldlM_error_iff]
    simp [blank, accepted_iff]

/-- The outcome for every expression: it is accepted if each of its segments
denotes ports, the result then lists these ports in ascending order, and
otherwise the first segment without a meaning decides the error. -/
theorem parsePortset_outcome (input : Str) :
    ((∃ ports, parsePortset input = .ok ports) ↔
      ∀ segment ∈ input.splitOn ',', Accepted segment) ∧
    (∀ ports, parsePortset input = .ok ports →
      ports.Pairwise (· < ·) ∧
        ∀ port, port ∈ ports ↔ ∃ segment ∈ input.splitOn ',', ∃ start stop,
          Denotes segment start stop ∧ start ≤ port ∧ port ≤ stop) ∧
    (∀ error, parsePortset input = .error error ↔
      ((∀ c ∈ input, isWhiteSpace c) ∧ error = emptyExpression) ∨
      (¬ (∀ c ∈ input, isWhiteSpace c) ∧ ∃ before segment after,
        input.splitOn ',' = before ++ segment :: after ∧
          (∀ earlier ∈ before, Accepted earlier) ∧ ¬ Accepted segment ∧
            Rejected segment error)) := by
  refine ⟨?_, ?_, ?_⟩
  · simp only [accepted_iff, ← Reader.exists_meanings_iff, parsePortset_eq_ok_iff]
    constructor
    · rintro ⟨_, ranges, all, -⟩
      exact ⟨ranges, all⟩
    · rintro ⟨ranges, all⟩
      exact ⟨_, ranges, all, rfl⟩
  · intro ports parsed
    obtain ⟨ranges, all, rfl⟩ := parsePortset_eq_ok_iff.1 parsed
    refine ⟨SortedSet.ascending _, fun port => ?_⟩
    have meanings : ∀ range, range ∈ ranges ↔
        ∃ segment ∈ input.splitOn ',', Denotes segment range.1 range.2 :=
      fun _ => Reader.mem_meanings_iff
        (fun _ _ _ denotes denotes' => Prod.ext_iff.2 (denotes.unique denotes')) all
    simp only [mem_foldl_extend, SortedSet.toList_empty, List.not_mem_nil, or_false, meanings]
    constructor
    · rintro ⟨range, ⟨segment, mem, denotes⟩, between⟩
      exact ⟨segment, mem, range.1, range.2, denotes, between⟩
    · rintro ⟨segment, mem, start, stop, denotes, between⟩
      exact ⟨(start, stop), ⟨segment, mem, denotes⟩, between⟩
  · intro error
    have unread : ∀ segment, Rejected segment error → ¬ Accepted segment := by
      intro segment rejected accepted
      obtain ⟨range, denotes⟩ := accepted_iff.1 accepted
      exact reader.not_bad .empty denotes rejected
    rw [parsePortset_eq_error_iff, ← trim_eq_nil_iff]
    refine or_congr_right (and_congr_right fun _ => ?_)
    constructor
    · rintro ⟨before, segment, after, shape, accepted, rejected⟩
      exact ⟨before, segment, after, shape, accepted, unread segment rejected, rejected⟩
    · rintro ⟨before, segment, after, shape, accepted, -, rejected⟩
      exact ⟨before, segment, after, shape, accepted, rejected⟩

example : parsePortset "80, 443, 10000-10002, 443".toList =
    .ok [80, 443, 10000, 10001, 10002] := by decide

example : parsePortset "100-90".toList = .error (invalidRange "100-90".toList) := by decide

end RangePorter.PortSet
