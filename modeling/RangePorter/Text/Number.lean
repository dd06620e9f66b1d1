import RangePorter.Text.Str

/-!
# Unsigned decimal numbers

Reading an unsigned integer of `w` bits from a text: an optional `+`, then at
least one decimal digit, with the value checked against the width after every
digit (`parseUnsigned`). `Reads` says the same without the loop.
-/

namespace Text

/-- The text without its sign, if it has one. -/
def stripSign (s : Str) : Str := (stripPrefix '+' s).getD s

/-- One round of the loop over the digits; `none` for a character that is no
digit and for a value that does not fit. -/
def pushDigit (w n : Nat) (c : Char) : Option Nat :=
  if c.isDigit then
    let next := 10 * n + (c.toNat - '0'.toNat)
    if next < 2 ^ w then some next else none
  else none

def parseUnsigned (w : Nat) (s : Str) : Option (BitVec w) :=
  match stripSign s with
  | [] => none
  | digits => (digits.foldlM (pushDigit w) 0).map (BitVec.ofNat w)

/-- The text is a sign or nothing, then digits that denote the value. -/
def Reads (w : Nat) (s : Str) (value : BitVec w) : Prop :=
  ∃ digits, (s = digits ∨ s = '+' :: digits) ∧ digits ≠ [] ∧ (∀ c ∈ digits, c.isDigit) ∧
    Nat.ofDigitChars 10 digits 0 = value.toNat

variable {w n m : Nat} {s : Str} {value : BitVec w}

theorem pushDigit_eq_some_iff {c : Char} :
    pushDigit w n c = some m ↔
      c.isDigit ∧ 10 * n + (c.toNat - '0'.toNat) = m ∧ m < 2 ^ w := by
  unfold pushDigit
  by_cases digit : c.isDigit
  · simp only [digit, if_true, true_and]
    split
    · rename_i fits
      simp only [Option.some.injEq]
      exact ⟨fun same => ⟨same, same ▸ fits⟩, fun both => both.1⟩
    · rename_i large
      constructor
      · intro absurd
        cases absurd
      · rintro ⟨same, fits⟩
        exact absurd (same ▸ fits) large
  · simp [digit]

/-- More digits never make a number smaller. -/
theorem le_ofDigitChars (digits : Str) (n : Nat) : n ≤ Nat.ofDigitChars 10 digits n := by
  induction digits generalizing n with
  | nil => simp
  | cons c digits ih =>
      rw [Nat.ofDigitChars_cons]
      exact le_trans (by omega) (ih _)

/-- The loop reads digits, and no value on the way is larger than the last one. -/
theorem foldlM_pushDigit_eq_some_iff {digits : Str} (start : n < 2 ^ w) :
    digits.foldlM (pushDigit w) n = some m ↔
      (∀ c ∈ digits, c.isDigit) ∧ Nat.ofDigitChars 10 digits n = m ∧ m < 2 ^ w := by
  induction digits generalizing n with
  | nil =>
      simp only [List.foldlM_nil, List.not_mem_nil, false_implies, implies_true, true_and,
        Nat.ofDigitChars_nil]
      exact ⟨fun same => by cases same; exact ⟨rfl, start⟩, fun both => congrArg some both.1⟩
  | cons c digits ih =>
      simp only [List.foldlM_cons, Option.bind_eq_bind, Option.bind_eq_some_iff,
        pushDigit_eq_some_iff, List.forall_mem_cons, Nat.ofDigitChars_cons]
      constructor
      · rintro ⟨next, ⟨digit, rfl, fits⟩, rest⟩
        obtain ⟨digits, total, bound⟩ := (ih fits).1 rest
        exact ⟨⟨digit, digits⟩, total, bound⟩
      · rintro ⟨⟨digit, digits⟩, rfl, bound⟩
        have fits : 10 * n + (c.toNat - '0'.toNat) < 2 ^ w :=
          lt_of_le_of_lt (le_ofDigitChars _ _) bound
        exact ⟨_, ⟨digit, rfl, fits⟩, (ih fits).2 ⟨digits, rfl, bound⟩⟩

theorem stripSign_eq_iff {digits : Str} :
    stripSign s = digits ↔ s = '+' :: digits ∨ (s = digits ∧ s.head? ≠ some '+') := by
  cases s with
  | nil => simp [stripSign, stripPrefix]
  | cons c s => by_cases sign : c = '+' <;> simp [stripSign, stripPrefix, sign]

theorem parseUnsigned_eq_some_iff : parseUnsigned w s = some value ↔ Reads w s value := by
  have loop : ∀ digits : Str, (digits.foldlM (pushDigit w) 0).map (BitVec.ofNat w) = some value ↔
      (∀ c ∈ digits, c.isDigit) ∧ Nat.ofDigitChars 10 digits 0 = value.toNat := by
    intro digits
    simp only [Option.map_eq_some_iff, foldlM_pushDigit_eq_some_iff (Nat.two_pow_pos w)]
    constructor
    · rintro ⟨n, ⟨digits, rfl, fits⟩, rfl⟩
      exact ⟨digits, (Nat.mod_eq_of_lt fits).symm⟩
    · rintro ⟨digits, total⟩
      exact ⟨_, ⟨digits, total, value.isLt⟩, by simp⟩
  have parsed : parseUnsigned w s = some value ↔
      stripSign s ≠ [] ∧ (∀ c ∈ stripSign s, c.isDigit) ∧
        Nat.ofDigitChars 10 (stripSign s) 0 = value.toNat := by
    unfold parseUnsigned
    cases stripSign s with
    | nil => simp
    | cons c digits => simpa using loop (c :: digits)
  rw [parsed]
  constructor
  · rintro ⟨nonempty, digits, total⟩
    refine ⟨stripSign s, ?_, nonempty, digits, total⟩
    cases stripSign_eq_iff.1 rfl with
    | inl signed => exact .inr signed
    | inr plain => exact .inl plain.1
  · rintro ⟨digits, shape, nonempty, all, total⟩
    have stripped : stripSign s = digits := by
      apply stripSign_eq_iff.2
      cases shape with
      | inr signed => exact .inl signed
      | inl plain =>
          -- a sign is not a digit
          refine .inr ⟨plain, fun sign => ?_⟩
          have digit := all '+' (List.mem_of_mem_head? (plain ▸ sign))
          exact absurd digit (by decide)
    rw [stripped]
    exact ⟨nonempty, all, total⟩

theorem Reads.isDigit_or_sign {c : Char} (read : Reads w s value) (member : c ∈ s) :
    c.isDigit ∨ c = '+' := by
  obtain ⟨digits, shape, -, all, -⟩ := read
  obtain rfl | rfl := shape
  · exact .inl (all c member)
  · exact (List.mem_cons.mp member).symm.imp_left (all c)

/-- A number is read back from its decimal digits. -/
theorem parseUnsigned_toDigits (value : BitVec w) :
    parseUnsigned w (Nat.toDigits 10 value.toNat) = some value :=
  parseUnsigned_eq_some_iff.mpr ⟨_, .inl rfl, Nat.toDigits_ne_nil,
    fun _ => Nat.isDigit_of_mem_toDigits (by decide) (by decide), Nat.ofDigitChars_ten_toDigits⟩

end Text
