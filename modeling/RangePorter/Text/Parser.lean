import RangePorter.Text.Number

/-!
# Reading a prefix of a text

A parser takes a prefix of a text and leaves the rest. `readNumber` takes all the digits
there are, and then looks at their count, their value and a leading zero; `readSlots`
takes a fixed number of items with separators in between. Each is described without its
loop, by the texts that it takes (`IsNumber`, `Separated`) and by what may follow them.
-/

namespace Text

/-- `char::to_digit`. -/
def toDigit (radix : Nat) (c : Char) : Option Nat :=
  let digit :=
    if c.isDigit then c.toNat - '0'.toNat
    else if c.isLower then c.toNat - 'a'.toNat + 10
    else if c.isUpper then c.toNat - 'A'.toNat + 10
    else radix
  if digit < radix then some digit else none

/-- No digit of the base stands at the head of the text. -/
def EndsNumber (radix : Nat) (rest : Str) : Prop := ∀ c ∈ rest.head?, toDigit radix c = none

variable {radix w n m count k : Nat} {maxDigits : Option Nat} {allowZeroPrefix : Bool}
  {s t rest : Str} {c : Char}

theorem toDigit_lt (digit : toDigit radix c = some n) : n < radix := by
  simp only [toDigit, Option.ite_none_right_eq_some, Option.some.injEq] at digit
  exact digit.2 ▸ digit.1

/-- The digits of a base are digits of every larger one. -/
theorem toDigit_mono (larger : radix ≤ k) (digit : toDigit radix c = some n) :
    toDigit k c = some n := by
  have below := toDigit_lt digit
  simp only [toDigit, Option.ite_none_right_eq_some, Option.some.injEq] at digit ⊢
  grind

theorem endsNumber_nil : EndsNumber radix [] := nofun

theorem toDigit_eq_none (smaller : radix ≤ k) (other : toDigit k c = none) :
    toDigit radix c = none := by
  cases digit : toDigit radix c with
  | none => rfl
  | some n =>
      rw [toDigit_mono smaller digit] at other
      cases other

theorem EndsNumber.mono (ends : EndsNumber k rest) (smaller : radix ≤ k) :
    EndsNumber radix rest :=
  fun c member => toDigit_eq_none smaller (ends c member)

theorem endsNumber_cons : EndsNumber radix (c :: s) ↔ toDigit radix c = none := by
  simp [EndsNumber]

/-! ### Numerals -/

/-- The number that the digits denote after those that denote `n`; `none` if one of the
characters is no digit. -/
def numeral (radix n : Nat) : Str → Option Nat
  | [] => some n
  | c :: s => (toDigit radix c).bind fun digit => numeral radix (n * radix + digit) s

@[simp] theorem numeral_nil : numeral radix n [] = some n := rfl

theorem numeral_cons_eq_some_iff :
    numeral radix n (c :: s) = some m ↔
      ∃ digit, toDigit radix c = some digit ∧ numeral radix (n * radix + digit) s = some m :=
  Option.bind_eq_some_iff

theorem numeral_append (s t : Str) :
    numeral radix n (s ++ t) = (numeral radix n s).bind fun m => numeral radix m t := by
  induction s generalizing n with
  | nil => rfl
  | cons c s ih =>
      cases digit : toDigit radix c with
      | none => simp [numeral, digit]
      | some value => simp [numeral, digit, ih]

/-- More digits never make a number smaller. -/
theorem le_of_numeral (denotes : numeral radix n s = some m) : n ≤ m := by
  induction s generalizing n with
  | nil => exact Nat.le_of_eq (Option.some.inj denotes)
  | cons c s ih =>
      obtain ⟨digit, isDigit, rest⟩ := numeral_cons_eq_some_iff.mp denotes
      have positive : 0 < radix := Nat.zero_lt_of_lt (toDigit_lt isDigit)
      calc n ≤ n * radix := Nat.le_mul_of_pos_right n positive
        _ ≤ n * radix + digit := Nat.le_add_right ..
        _ ≤ m := ih rest

theorem isSome_toDigit_of_numeral (denotes : numeral radix n s = some m) (member : c ∈ s) :
    (toDigit radix c).isSome := by
  induction s generalizing n with
  | nil => cases member
  | cons first s ih =>
      obtain ⟨digit, isDigit, rest⟩ := numeral_cons_eq_some_iff.mp denotes
      obtain rfl | later := List.mem_cons.mp member
      · rw [isDigit]
        rfl
      · exact ih rest later

/-! ### The standard digits -/

theorem toDigit_digitChar (small : radix ≤ 16) (digit : n < radix) :
    toDigit radix n.digitChar = some n := by
  have all : ∀ radix ≤ 16, ∀ n < radix, toDigit radix n.digitChar = some n := by decide
  exact all radix small n digit

/-- A number is what its standard digits denote. -/
theorem numeral_toDigits (large : 1 < radix) (small : radix ≤ 16) (n : Nat) :
    numeral radix 0 (Nat.toDigits radix n) = some n := by
  induction n using Nat.strongRecOn with
  | ind n ih =>
      rw [Nat.toDigits_eq_if large]
      split
      · rename_i below
        simp [numeral, toDigit_digitChar small below]
      · rename_i above
        have rest := ih (n / radix) (Nat.div_lt_self (by omega) large)
        have last := toDigit_digitChar small (Nat.mod_lt n (Nat.zero_lt_of_lt large))
        rw [numeral_append, rest, Option.bind_some, numeral, last, Option.bind_some, numeral_nil,
          Nat.div_add_mod']

/-- The standard digits of a number have no leading zero. -/
theorem toDigits_leading (large : 1 < radix) (n : Nat) :
    (Nat.toDigits radix n).head? ≠ some '0' ∨ (Nat.toDigits radix n).length = 1 := by
  induction n using Nat.strongRecOn with
  | ind n ih =>
      rw [Nat.toDigits_eq_if large]
      split
      · exact .inr rfl
      · rename_i above
        left
        have positive : 0 < n / radix := Nat.div_pos (Nat.not_lt.mp above) (by omega)
        rw [List.head?_append_of_ne_nil _ Nat.toDigits_ne_nil]
        obtain leading | single := ih (n / radix) (Nat.div_lt_self (by omega) large)
        · exact leading
        · -- a single digit, and not zero
          rw [Nat.toDigits_eq_if large] at single ⊢
          split
          · simp only [List.head?_cons, ne_eq, Option.some.injEq, Nat.digitChar_eq_zero]
            omega
          · rename_i long
            rw [if_neg long, List.length_append, List.length_singleton] at single
            have some := Nat.length_toDigits_pos (b := radix) (n := n / radix / radix)
            omega

/-! ### Numbers -/

/-- The check after each digit: of their count, or else of the value so far. -/
def withinLimit (maxDigits : Option Nat) (w count result : Nat) : Bool :=
  match maxDigits with
  | some maxDigits => count ≤ maxDigits
  | none => result < 2 ^ w

/-- The loop over the digits. -/
def readDigits (radix : Nat) (maxDigits : Option Nat) (w : Nat) (count result : Nat) :
    Str → Option (Nat × Nat × Str)
  | [] => some (count, result, [])
  | c :: s =>
      match toDigit radix c with
      | none => some (count, result, c :: s)
      | some digit =>
          if withinLimit maxDigits w (count + 1) (result * radix + digit) then
            readDigits radix maxDigits w (count + 1) (result * radix + digit) s
          else none

/-- A number of `w` bits, with at most so many digits. -/
def readNumber (radix : Nat) (maxDigits : Option Nat) (allowZeroPrefix : Bool) (w : Nat)
    (s : Str) : Option (Nat × Str) :=
  match readDigits radix maxDigits w 0 0 s with
  | none => none
  | some (count, result, rest) =>
      if count = 0 then none
      else if !allowZeroPrefix && s.head? == some '0' && 1 < count then none
      else if result < 2 ^ w then some (result, rest)
      else none

/-- What `readNumber` takes. -/
structure IsNumber (radix : Nat) (maxDigits : Option Nat) (allowZeroPrefix : Bool) (w : Nat)
    (s : Str) (n : Nat) : Prop where
  denotes : numeral radix 0 s = some n
  nonempty : s ≠ []
  leading : allowZeroPrefix = true ∨ s.head? ≠ some '0' ∨ s.length = 1
  length : ∀ max ∈ maxDigits, s.length ≤ max
  fits : n < 2 ^ w

theorem withinLimit_mono (within : withinLimit maxDigits w k m) (fewer : count ≤ k)
    (smaller : n ≤ m) : withinLimit maxDigits w count n := by
  cases maxDigits with
  | none => exact decide_eq_true (Nat.lt_of_le_of_lt smaller (of_decide_eq_true within))
  | some max => exact decide_eq_true (Nat.le_trans fewer (of_decide_eq_true within))

/-- The loop takes digits up to the first character that is none, and the last check is the
strictest. -/
theorem readDigits_eq_some_iff :
    readDigits radix maxDigits w count n s = some (k, m, rest) ↔
      ∃ t, s = t ++ rest ∧ numeral radix n t = some m ∧ k = count + t.length ∧
        EndsNumber radix rest ∧ (t = [] ∨ withinLimit maxDigits w k m) := by
  induction s generalizing count n with
  | nil =>
      simp only [readDigits, Option.some.injEq, Prod.mk.injEq]
      constructor
      · rintro ⟨rfl, rfl, rfl⟩
        exact ⟨[], rfl, rfl, rfl, endsNumber_nil, .inl rfl⟩
      · rintro ⟨t, joined, denotes, rfl, -, -⟩
        obtain ⟨rfl, rfl⟩ := List.append_eq_nil_iff.mp joined.symm
        exact ⟨rfl, Option.some.inj denotes, rfl⟩
  | cons c s ih =>
      cases digit : toDigit radix c with
      | none =>
          simp only [readDigits, digit, Option.some.injEq, Prod.mk.injEq]
          constructor
          · rintro ⟨rfl, rfl, rfl⟩
            exact ⟨[], rfl, rfl, rfl, endsNumber_cons.mpr digit, .inl rfl⟩
          · rintro ⟨t, joined, denotes, rfl, -, -⟩
            cases t with
            | nil => exact ⟨rfl, Option.some.inj denotes, joined⟩
            | cons first t =>
                obtain ⟨rfl, -⟩ := List.cons.inj joined
                obtain ⟨value, isDigit, -⟩ := numeral_cons_eq_some_iff.mp denotes
                rw [digit] at isDigit
                cases isDigit
      | some value =>
          simp only [readDigits, digit, Option.ite_none_right_eq_some, ih]
          constructor
          · rintro ⟨within, t, rfl, denotes, rfl, ends, last⟩
            refine ⟨c :: t, rfl, numeral_cons_eq_some_iff.mpr ⟨value, digit, denotes⟩,
              by rw [List.length_cons]; omega, ends, .inr ?_⟩
            obtain rfl | last := last
            · cases denotes
              exact within
            · exact last
          · rintro ⟨t, joined, denotes, rfl, ends, last⟩
            cases t with
            | nil =>
                rw [List.nil_append] at joined
                rw [← joined, endsNumber_cons, digit] at ends
                cases ends
            | cons first t =>
                obtain ⟨rfl, rfl⟩ := List.cons.inj joined
                obtain ⟨value', isDigit, denotes⟩ := numeral_cons_eq_some_iff.mp denotes
                obtain rfl : value = value' := Option.some.inj (digit.symm.trans isDigit)
                have last := last.resolve_left (List.cons_ne_nil _ _)
                rw [List.length_cons] at last ⊢
                exact ⟨withinLimit_mono last (by omega) (le_of_numeral denotes), t, rfl, denotes,
                  by omega, ends, .inr last⟩

/-- A number is taken with all its digits. -/
theorem readNumber_eq_some_iff :
    readNumber radix maxDigits allowZeroPrefix w s = some (n, rest) ↔
      ∃ t, s = t ++ rest ∧ IsNumber radix maxDigits allowZeroPrefix w t n ∧
        EndsNumber radix rest := by
  constructor
  · intro read
    unfold readNumber at read
    split at read
    case h_1 => cases read
    case h_2 k m left loop =>
        obtain ⟨t, rfl, denotes, rfl, ends, limit⟩ := readDigits_eq_some_iff.mp loop
        simp only [Option.ite_none_left_eq_some, Option.ite_none_right_eq_some] at read
        obtain ⟨some, unprefixed, fits, same⟩ := read
        cases same
        have nonempty : t ≠ [] := fun empty => some (by simp [empty])
        refine ⟨t, rfl, ⟨denotes, nonempty, ?_, ?_, fits⟩, ends⟩
        · rw [List.head?_append_of_ne_nil _ nonempty] at unprefixed
          have positive := List.length_pos_of_ne_nil nonempty
          by_cases allowed : allowZeroPrefix = true
          · exact .inl allowed
          · by_cases zero : t.head? = Option.some '0'
            · simp [allowed, zero] at unprefixed
              exact .inr (.inr (by omega))
            · exact .inr (.inl zero)
        · rintro max rfl
          have within := limit.resolve_left nonempty
          simpa [withinLimit] using within
  · rintro ⟨t, rfl, isNumber, ends⟩
    have within : withinLimit maxDigits w t.length n := by
      cases maxDigits with
      | none => exact decide_eq_true isNumber.fits
      | some max => exact decide_eq_true (isNumber.length max rfl)
    have loop : readDigits radix maxDigits w 0 0 (t ++ rest) = some (t.length, n, rest) :=
      readDigits_eq_some_iff.mpr
        ⟨t, rfl, isNumber.denotes, (Nat.zero_add _).symm, ends, .inr within⟩
    have positive := List.length_pos_of_ne_nil isNumber.nonempty
    have unprefixed : ¬ (!allowZeroPrefix && (t ++ rest).head? == some '0' &&
        decide (1 < t.length)) = true := by
      rw [List.head?_append_of_ne_nil _ isNumber.nonempty]
      obtain allowed | other | single := isNumber.leading
      · simp [allowed]
      · simp [other]
      · simp [single]
    simp only [readNumber, loop]
    rw [if_neg (Nat.pos_iff_ne_zero.mp positive), if_neg unprefixed, if_pos isNumber.fits]

theorem IsNumber.not_endsNumber (isNumber : IsNumber radix maxDigits allowZeroPrefix w t n)
    (rest : Str) : ¬ EndsNumber radix (t ++ rest) := by
  cases t with
  | nil => exact absurd rfl isNumber.nonempty
  | cons c t =>
      intro ends
      obtain ⟨digit, isDigit, -⟩ := numeral_cons_eq_some_iff.mp isNumber.denotes
      rw [List.cons_append, endsNumber_cons, isDigit] at ends
      cases ends

theorem readNumber_eq_none (ends : EndsNumber radix s) :
    readNumber radix maxDigits allowZeroPrefix w s = none := by
  cases read : readNumber radix maxDigits allowZeroPrefix w s with
  | none => rfl
  | some result =>
      obtain ⟨t, rfl, isNumber, -⟩ := readNumber_eq_some_iff.mp read
      exact absurd ends (isNumber.not_endsNumber _)

/-- The standard digits of a number are taken, if it is small enough. -/
theorem isNumber_toDigits (large : 1 < radix) (small : radix ≤ 16)
    (length : ∀ max ∈ maxDigits, 0 < max ∧ n < radix ^ max) (fits : n < 2 ^ w) :
    IsNumber radix maxDigits allowZeroPrefix w (Nat.toDigits radix n) n where
  denotes := numeral_toDigits large small n
  nonempty := Nat.toDigits_ne_nil
  leading := .inr (toDigits_leading large n)
  length max member :=
    (Nat.length_toDigits_le_iff large (length max member).1).mpr (length max member).2
  fits := fits

theorem IsNumber.not_mem (isNumber : IsNumber radix maxDigits allowZeroPrefix w t n)
    (other : toDigit radix c = none) : c ∉ t := by
  intro member
  have digit := isSome_toDigit_of_numeral isNumber.denotes member
  rw [other] at digit
  cases digit

theorem numeral_ten (denotes : numeral 10 n s = some m) :
    (∀ c ∈ s, c.isDigit) ∧ Nat.ofDigitChars 10 s n = m := by
  induction s generalizing n with
  | nil => exact ⟨nofun, Nat.ofDigitChars_nil.trans (Option.some.inj denotes)⟩
  | cons c s ih =>
      obtain ⟨digit, isDigit, rest⟩ := numeral_cons_eq_some_iff.mp denotes
      obtain ⟨digits, total⟩ := ih rest
      obtain ⟨decimal, same⟩ : c.isDigit ∧ c.toNat - '0'.toNat = digit := by
        simp only [toDigit, Option.ite_none_right_eq_some, Option.some.injEq] at isDigit
        grind
      rw [List.forall_mem_cons, Nat.ofDigitChars_cons, same, Nat.mul_comm]
      exact ⟨⟨decimal, digits⟩, total⟩

/-- A decimal number is read in the same way on its own. -/
theorem IsNumber.parseUnsigned (isNumber : IsNumber 10 maxDigits allowZeroPrefix w t n) :
    parseUnsigned w t = some (BitVec.ofNat w n) := by
  obtain ⟨digits, total⟩ := numeral_ten isNumber.denotes
  refine parseUnsigned_eq_some_iff.mpr ⟨t, .inl rfl, isNumber.nonempty, digits, ?_⟩
  rw [total, BitVec.toNat_ofNat, Nat.mod_eq_of_lt isNumber.fits]

/-! ### Exact parsers -/

universe u

variable {β : Type u} {item : β} {items : List β} {separator : Char} {index : Nat}
  {read : Str → Option (β × Str)} {Item : Str → β → Prop} {Ends : Str → Prop}

/-- The parser takes the texts of items, and these only, wherever they end. -/
def Parses (read : Str → Option (β × Str)) (Item : Str → β → Prop) (Ends : Str → Prop) : Prop :=
  ∀ s item rest, read s = some (item, rest) ↔ ∃ t, s = t ++ rest ∧ Item t item ∧ Ends rest

theorem parses_readNumber :
    Parses (readNumber radix maxDigits allowZeroPrefix w)
      (IsNumber radix maxDigits allowZeroPrefix w) (EndsNumber radix) :=
  fun _ _ _ => readNumber_eq_some_iff

theorem Parses.complete (parses : Parses read Item Ends) (own : Item t item) (ends : Ends rest) :
    read (t ++ rest) = some (item, rest) :=
  (parses _ _ _).mpr ⟨t, rfl, own, ends⟩

/-! ### Sequences with separators -/

/-- A separator stands before every item but the first. -/
def readSeparator (separator : Char) (index : Nat) (inner : Str → Option (β × Str)) (s : Str) :
    Option (β × Str) :=
  if index = 0 then inner s else (stripPrefix separator s).bind inner

/-- The loop over the slots that are left, the first of them at the given index. -/
def readSlots (separator : Char) (inner : Str → Option (β × Str)) :
    (left index : Nat) → Str → Option (List β × Str)
  | 0, _, s => some ([], s)
  | left + 1, index, s => do
      let (slot, s) ← readSeparator separator index inner s
      let (slots, s) ← readSlots separator inner left (index + 1) s
      some (slot :: slots, s)

/-- What `readSeparator` takes before the item. -/
def lead (separator : Char) (index : Nat) : Str := if index = 0 then [] else [separator]

/-- The text consists of the texts of items from the given index on. -/
inductive Separated (separator : Char) (Item : Str → β → Prop) : Nat → Str → List β → Prop where
  | nil {index : Nat} : Separated separator Item index [] []
  | cons {index : Nat} {t s : Str} {item : β} {items : List β} (first : Item t item)
      (others : Separated separator Item (index + 1) s items) :
      Separated separator Item index (lead separator index ++ (t ++ s)) (item :: items)

@[simp] theorem lead_zero (separator : Char) : lead separator 0 = [] := rfl

@[simp] theorem lead_succ (separator : Char) (index : Nat) :
    lead separator (index + 1) = [separator] := rfl

theorem readSeparator_lead (s : Str) :
    readSeparator separator index read (lead separator index ++ s) = read s := by
  cases index with
  | zero => rfl
  | succ index => simp [readSeparator, stripPrefix]

theorem readSeparator_eq_some_iff :
    readSeparator separator index read s = some (item, rest) ↔
      ∃ t, s = lead separator index ++ t ∧ read t = some (item, rest) := by
  constructor
  · intro taken
    cases index with
    | zero => exact ⟨s, rfl, taken⟩
    | succ index =>
        obtain ⟨t, stripped, own⟩ := Option.bind_eq_some_iff.mp taken
        exact ⟨t, stripPrefix_eq_some_iff.mp stripped, own⟩
  · rintro ⟨t, rfl, own⟩
    rw [readSeparator_lead, own]

theorem readSlots_succ_eq_some_iff {left : Nat} :
    readSlots separator read (left + 1) index s = some (items, rest) ↔
      ∃ slot slots middle, items = slot :: slots ∧
        readSeparator separator index read s = some (slot, middle) ∧
        readSlots separator read left (index + 1) middle = some (slots, rest) := by
  simp only [readSlots, Option.bind_eq_bind, Option.bind_eq_some_iff, Prod.exists,
    Option.some.injEq, Prod.mk.injEq]
  constructor
  · rintro ⟨slot, middle, first, slots, _, others, rfl, rfl⟩
    exact ⟨slot, slots, middle, rfl, first, others⟩
  · rintro ⟨slot, slots, middle, rfl, first, others⟩
    exact ⟨slot, middle, first, slots, rest, others, rfl, rfl⟩

/-- Slots are filled with as many items, if the separator always ends an item. -/
theorem Parses.readSlots (parses : Parses read Item Ends) (ends : ∀ s, Ends (separator :: s))
    (left index : Nat) :
    Parses (readSlots separator read (left + 1) index)
      (fun t items => Separated separator Item index t items ∧ items.length = left + 1) Ends := by
  intro s items rest
  induction left generalizing index s items with
  | zero =>
      simp only [readSlots_succ_eq_some_iff, readSeparator_eq_some_iff]
      constructor
      · rintro ⟨slot, _, middle, rfl, ⟨t, rfl, own⟩, ⟨⟩⟩
        obtain ⟨u, rfl, isItem, ended⟩ := (parses _ _ _).mp own
        refine ⟨lead separator index ++ (u ++ []), ?_, ⟨.cons isItem .nil, rfl⟩, ended⟩
        rw [List.append_nil, List.append_assoc]
      · rintro ⟨_, rfl, ⟨separated, count⟩, ended⟩
        cases separated with
        | nil => cases count
        | @cons _ t _ item items first others =>
            rw [List.length_cons, Nat.zero_add, Nat.add_eq_right] at count
            obtain rfl := List.length_eq_zero_iff.mp count
            cases others
            refine ⟨item, [], rest, rfl, ⟨t ++ rest, ?_, parses.complete first ended⟩, rfl⟩
            rw [List.append_nil, List.append_assoc]
  | succ left ih =>
      rw [readSlots_succ_eq_some_iff]
      constructor
      · rintro ⟨slot, slots, middle, rfl, taken, others⟩
        obtain ⟨t, rfl, own⟩ := readSeparator_eq_some_iff.mp taken
        obtain ⟨u, rfl, isItem, -⟩ := (parses _ _ _).mp own
        obtain ⟨v, rfl, ⟨separated, count⟩, ended⟩ := (ih _ _ _).mp others
        refine ⟨lead separator index ++ (u ++ v), ?_, ⟨.cons isItem separated, ?_⟩, ended⟩
        · rw [List.append_assoc, List.append_assoc]
        · rw [List.length_cons, count]
      · rintro ⟨_, rfl, ⟨separated, count⟩, ended⟩
        cases separated with
        | nil => cases count
        | @cons _ t v item items first others =>
            have fewer : items.length = left + 1 := Nat.succ.inj count
            have more := (ih (index + 1) (v ++ rest) items).mpr ⟨v, rfl, ⟨others, fewer⟩, ended⟩
            refine ⟨item, items, v ++ rest, rfl, readSeparator_eq_some_iff.mpr
              ⟨t ++ (v ++ rest), by rw [List.append_assoc, List.append_assoc], ?_⟩, more⟩
            refine parses.complete first ?_
            cases others with
            | nil => cases fewer
            | cons => exact ends _

theorem Separated.not_mem (separated : Separated separator Item index s items)
    (each : ∀ t item, Item t item → c ∉ t) (other : c ≠ separator) : c ∉ s := by
  induction separated with
  | nil => exact List.not_mem_nil
  | @cons index t s item items first others ih =>
      have outside : c ∉ lead separator index := by
        cases index <;> simp [other]
      simp [outside, each t item first, ih]

/-- Items written one after the other, with the separator in between. -/
theorem separated_intercalate {write : β → Str} (each : ∀ item ∈ items, Item (write item) item) :
    Separated separator Item 0 ([separator].intercalate (items.map write)) items := by
  have joined : ∀ (item : β) (items : List β) (index : Nat),
      (∀ other ∈ item :: items, Item (write other) other) →
      Separated separator Item index
        (lead separator index ++ [separator].intercalate ((item :: items).map write))
        (item :: items) := by
    intro item items index each
    induction items generalizing item index with
    | nil =>
        rw [List.map_cons, List.map_nil, List.intercalate_singleton, ← List.append_nil (write item)]
        exact .cons (each item (List.mem_singleton_self _)) .nil
    | cons next items ih =>
        rw [List.map_cons, List.map_cons, List.intercalate_cons_cons, List.append_assoc]
        apply Separated.cons (each item (List.mem_cons_self ..))
        exact ih next (index + 1) fun other member => each other (List.mem_cons_of_mem _ member)
  cases items with
  | nil => exact .nil
  | cons item items => exact joined item items 0 each

end Text
