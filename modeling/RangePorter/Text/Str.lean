import Mathlib.Algebra.GroupWithZero.Nat
import Mathlib.Data.List.DropRight

/-!
# Texts

A text is the list of its Unicode characters. Positions in a text are byte
offsets of its UTF-8 encoding; a slice at an offset that is out of range or
inside a character does not exist.
-/

open scoped List

namespace Text

abbrev Str := List Char

/-! ### White space -/

/-- The Unicode property `White_Space`. -/
def isWhiteSpace (c : Char) : Bool :=
  let n := c.toNat
  (9 ≤ n && n ≤ 13) || n == 0x20 || n == 0x85 || n == 0xA0 || n == 0x1680 ||
    (0x2000 ≤ n && n ≤ 0x200A) || n == 0x2028 || n == 0x2029 || n == 0x202F || n == 0x205F ||
    n == 0x3000

/-- Remove the white space at both ends. -/
def trim (s : Str) : Str := (s.dropWhile isWhiteSpace).rdropWhile isWhiteSpace

theorem trim_eq_nil_iff {s : Str} : trim s = [] ↔ ∀ c ∈ s, isWhiteSpace c := by
  rw [trim, List.rdropWhile_eq_nil_iff]
  constructor
  · intro blank c mem
    by_contra visible
    have kept := List.takeWhile_append_dropWhile (p := isWhiteSpace) (l := s)
    rw [← kept, List.mem_append] at mem
    cases mem with
    | inl left => exact visible (List.mem_takeWhile_imp left)
    | inr right => exact visible (blank c right)
  · intro blank c mem
    exact blank c ((List.dropWhile_suffix _).subset mem)

@[simp] theorem trim_nil : trim [] = [] := rfl

/-- What is left after trimming does not start with white space. -/
theorem dropWhile_trim (s : Str) : (trim s).dropWhile isWhiteSpace = trim s := by
  rw [List.dropWhile_eq_self_iff]
  intro nonempty
  have start : trim s <+: s.dropWhile isWhiteSpace := List.rdropWhile_prefix _ _
  have nonempty' : 0 < (s.dropWhile isWhiteSpace).length := nonempty.trans_le start.length_le
  have first : (trim s)[0] = (s.dropWhile isWhiteSpace)[0] := start.getElem nonempty
  rw [first]
  exact List.dropWhile_get_zero_not _ s _

@[simp] theorem trim_trim (s : Str) : trim (trim s) = trim s := by
  show ((trim s).dropWhile isWhiteSpace).rdropWhile isWhiteSpace = trim s
  rw [dropWhile_trim]
  exact List.rdropWhile_idempotent _ _

/-! ### Splitting -/

/-- Cut at the first separator, which is dropped. -/
def splitOnce (separator : Char) : Str → Option (Str × Str)
  | [] => none
  | c :: s =>
      if c = separator then some ([], s)
      else (splitOnce separator s).map fun parts => (c :: parts.1, parts.2)

/-- Cut at the last separator, which is dropped. -/
def rsplitOnce (separator : Char) (s : Str) : Option (Str × Str) :=
  (splitOnce separator s.reverse).map fun parts => (parts.2.reverse, parts.1.reverse)

def stripPrefix (first : Char) : Str → Option Str
  | [] => none
  | c :: s => if c = first then some s else none

variable {separator c : Char} {s t before after : Str}

theorem splitOnce_eq_some_iff :
    splitOnce separator s = some (before, after) ↔
      s = before ++ separator :: after ∧ separator ∉ before := by
  induction s generalizing before with
  | nil => simp [splitOnce]
  | cons c s ih =>
      by_cases here : c = separator
      · cases before with
        | nil => simp [splitOnce, here, eq_comm]
        | cons b before =>
            simp only [splitOnce, here, if_true, Option.some.injEq, Prod.mk.injEq,
              List.cons_append, List.cons.injEq, List.mem_cons, not_or]
            constructor
            · rintro ⟨absurd, -⟩
              cases absurd
            · rintro ⟨⟨same, -⟩, other, -⟩
              exact absurd same other
      · cases before with
        | nil => simp [splitOnce, here]
        | cons b before =>
            simp only [splitOnce, here, if_false, Option.map_eq_some_iff, Prod.exists,
              Prod.mk.injEq, List.cons.injEq, List.cons_append, List.mem_cons, not_or]
            constructor
            · rintro ⟨left, right, found, ⟨rfl, rfl⟩, rfl⟩
              obtain ⟨rfl, absent⟩ := ih.1 found
              exact ⟨⟨rfl, rfl⟩, fun same => here same.symm, absent⟩
            · rintro ⟨⟨rfl, rest⟩, -, absent⟩
              exact ⟨before, after, ih.2 ⟨rest, absent⟩, ⟨rfl, rfl⟩, rfl⟩

theorem splitOnce_eq_none_iff : splitOnce separator s = none ↔ separator ∉ s := by
  induction s with
  | nil => simp [splitOnce]
  | cons c s ih =>
      by_cases here : c = separator
      · simp [splitOnce, here]
      · simp [splitOnce, here, ih, Ne.symm here]

theorem rsplitOnce_eq_some_iff :
    rsplitOnce separator s = some (before, after) ↔
      s = before ++ separator :: after ∧ separator ∉ after := by
  simp only [rsplitOnce, Option.map_eq_some_iff, Prod.exists, Prod.mk.injEq, splitOnce_eq_some_iff]
  constructor
  · rintro ⟨left, right, ⟨joined, absent⟩, rfl, rfl⟩
    refine ⟨?_, by simpa using absent⟩
    simpa using congrArg List.reverse joined
  · rintro ⟨rfl, absent⟩
    exact ⟨after.reverse, before.reverse, by simpa using absent, by simp, by simp⟩

theorem stripPrefix_eq_some_iff : stripPrefix c s = some t ↔ s = c :: t := by
  cases s with
  | nil => simp [stripPrefix]
  | cons d s => by_cases same : d = c <;> simp [stripPrefix, same]

/-! ### Byte offsets -/

/-- The length of the UTF-8 encoding. -/
def utf8Len (s : Str) : Nat := (s.map Char.utf8Size).sum

/-- The offset of the first occurrence of a character. -/
def find (c : Char) : Str → Option Nat
  | [] => none
  | d :: s => if d = c then some 0 else (find c s).map (d.utf8Size + ·)

/-- Cut at an offset, if it is in range and on the boundary of a character. -/
def splitAt : Nat → Str → Option (Str × Str)
  | 0, s => some ([], s)
  | _ + 1, [] => none
  | n + 1, c :: s =>
      if c.utf8Size ≤ n + 1 then
        (splitAt (n + 1 - c.utf8Size) s).map fun parts => (c :: parts.1, parts.2)
      else none

/-- `&s[..stop]`. -/
def sliceTo (s : Str) (stop : Nat) : Option Str := (splitAt stop s).map Prod.fst

/-- `&s[start..]`. -/
def sliceFrom (s : Str) (start : Nat) : Option Str := (splitAt start s).map Prod.snd

@[simp] theorem utf8Len_nil : utf8Len [] = 0 := rfl

@[simp] theorem utf8Len_cons (c : Char) (s : Str) : utf8Len (c :: s) = c.utf8Size + utf8Len s := by
  simp [utf8Len]

@[simp] theorem utf8Len_append (s t : Str) : utf8Len (s ++ t) = utf8Len s + utf8Len t := by
  simp [utf8Len]

theorem find_append (c : Char) (after : Str) (absent : c ∉ before) :
    find c (before ++ c :: after) = some (utf8Len before) := by
  induction before with
  | nil => simp [find]
  | cons d before ih =>
      simp only [List.mem_cons, not_or] at absent
      simp [find, Ne.symm absent.1, ih absent.2]

theorem find_eq_none_iff : find c s = none ↔ c ∉ s := by
  induction s with
  | nil => simp [find]
  | cons d s ih =>
      by_cases here : d = c
      · simp [find, here]
      · simp [find, here, ih, Ne.symm here]

theorem splitAt_append (s t : Str) : splitAt (utf8Len s) (s ++ t) = some (s, t) := by
  induction s with
  | nil => cases t <;> rfl
  | cons c s ih =>
      have positive := c.utf8Size_pos
      obtain ⟨n, length⟩ : ∃ n, utf8Len (c :: s) = n + 1 :=
        ⟨utf8Len (c :: s) - 1, by rw [utf8Len_cons]; omega⟩
      have fits : c.utf8Size ≤ n + 1 := by
        rw [← length, utf8Len_cons]
        exact Nat.le_add_right ..
      have rest : n + 1 - c.utf8Size = utf8Len s := by
        rw [← length, utf8Len_cons]
        exact Nat.add_sub_cancel_left ..
      simp [length, splitAt, fits, rest, ih]

/-- The text up to the first occurrence of a character. -/
theorem sliceTo_find {stop : Nat} (found : find c s = some stop) :
    ∃ before after, splitOnce c s = some (before, after) ∧ sliceTo s stop = some before ∧
      sliceFrom s (stop + c.utf8Size) = some after := by
  cases split : splitOnce c s with
  | none =>
      rw [find_eq_none_iff.mpr (splitOnce_eq_none_iff.mp split)] at found
      cases found
  | some parts =>
      obtain ⟨before, after⟩ := parts
      obtain ⟨rfl, absent⟩ := splitOnce_eq_some_iff.mp split
      rw [find_append c after absent, Option.some.injEq] at found
      subst found
      refine ⟨before, after, rfl, ?_, ?_⟩
      · rw [sliceTo, splitAt_append, Option.map_some]
      · have whole := splitAt_append (before ++ [c]) after
        rw [List.append_assoc, utf8Len_append, utf8Len_cons, utf8Len_nil, Nat.add_zero] at whole
        rw [sliceFrom, show before ++ c :: after = before ++ ([c] ++ after) from rfl, whole,
          Option.map_some]

end Text
