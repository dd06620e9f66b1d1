import RangePorter.Text.Str

/-!
# Literals of IP addresses

An IPv4 address is written as four decimal bytes. An IPv6 address is written as eight
groups of up to four hexadecimal digits; zero groups that follow each other may be left
out in one place, and the last two groups may be written as an IPv4 address. These are
the spellings without brackets, port and scope.
-/

namespace RangePorter.IpAddr

open Text

/-- A byte in decimal, without leading zeros. -/
def IsOctet (s : Str) : Prop := ∃ n, n < 256 ∧ s = Nat.toDigits 10 n

def IsIpv4 (s : Str) : Prop :=
  ∃ octets : List Str, octets.length = 4 ∧ (∀ octet ∈ octets, IsOctet octet) ∧
    s = ['.'].intercalate octets

def IsGroup (s : Str) : Prop := s ≠ [] ∧ s.length ≤ 4 ∧ ∀ c ∈ s, c.isHexDigit

/-- The text consists of `n` groups. -/
def IsGroups (n : Nat) (s : Str) : Prop :=
  ∃ groups : List Str, groups.length = n ∧ (∀ group ∈ groups, IsGroup group) ∧
    s = [':'].intercalate groups

/-- The text consists of `n` groups, of which an IPv4 address may stand for the last two. -/
def IsTail (n : Nat) (s : Str) : Prop :=
  IsGroups n s ∨ ∃ (groups : List Str) (ip : Str), groups.length + 2 = n ∧
    (∀ group ∈ groups, IsGroup group) ∧ IsIpv4 ip ∧ s = [':'].intercalate (groups ++ [ip])

def IsIpv6 (s : Str) : Prop :=
  IsTail 8 s ∨ ∃ n m head tail, IsGroups n head ∧ IsTail m tail ∧ n + m ≤ 7 ∧
    s = head ++ ':' :: ':' :: tail

variable {s : Str} {c separator : Char} {n : Nat} {parts : List Str}

/-! ### Characters -/

theorem mem_intercalate (member : c ∈ [separator].intercalate parts) :
    c = separator ∨ ∃ part ∈ parts, c ∈ part := by
  induction parts with
  | nil => cases member
  | cons part parts ih =>
      cases parts with
      | nil => exact .inr ⟨part, List.mem_singleton_self _, by simpa using member⟩
      | cons next parts =>
          simp only [List.intercalate_cons_cons, List.mem_append, List.mem_singleton] at member
          obtain (own | same) | later := member
          · exact .inr ⟨part, List.mem_cons_self .., own⟩
          · exact .inl same
          · exact (ih later).imp_right fun ⟨other, inside, here⟩ =>
              ⟨other, List.mem_cons_of_mem _ inside, here⟩

theorem length_le_count (separator : Char) (parts : List Str) :
    parts.length ≤ ([separator].intercalate parts).count separator + 1 := by
  induction parts with
  | nil => exact Nat.zero_le _
  | cons part parts ih =>
      cases parts with
      | nil => exact Nat.le_add_left ..
      | cons next parts =>
          simp only [List.intercalate_cons_cons, List.count_append, List.count_singleton_self,
            List.length_cons] at ih ⊢
          omega

theorem IsOctet.isDigit (octet : IsOctet s) (member : c ∈ s) : c.isDigit := by
  obtain ⟨n, -, rfl⟩ := octet
  exact Nat.isDigit_of_mem_toDigits (by decide) (by decide) member

theorem IsIpv4.chars (ip : IsIpv4 s) (member : c ∈ s) : c.isDigit ∨ c = '.' := by
  obtain ⟨octets, -, each, rfl⟩ := ip
  obtain same | ⟨octet, inside, here⟩ := mem_intercalate member
  · exact .inr same
  · exact .inl ((each octet inside).isDigit here)

/-- Digits of all bases, and the separators. -/
def IsLiteralChar (c : Char) : Prop := c.isHexDigit ∨ c = ':' ∨ c = '.'

theorem isLiteralChar_of_isDigit (digit : c.isDigit) : IsLiteralChar c :=
  .inl (by simp [Char.isHexDigit, digit])

theorem IsIpv4.literal (ip : IsIpv4 s) (member : c ∈ s) : IsLiteralChar c :=
  (ip.chars member).elim isLiteralChar_of_isDigit fun dot => .inr (.inr dot)

theorem IsGroups.literal (groups : IsGroups n s) (member : c ∈ s) : IsLiteralChar c := by
  obtain ⟨parts, -, each, rfl⟩ := groups
  obtain same | ⟨group, inside, here⟩ := mem_intercalate member
  · exact .inr (.inl same)
  · exact .inl ((each group inside).2.2 c here)

theorem IsTail.literal (tail : IsTail n s) (member : c ∈ s) : IsLiteralChar c := by
  obtain groups | ⟨parts, ip, -, each, isIp, rfl⟩ := tail
  · exact groups.literal member
  · obtain same | ⟨group, inside, here⟩ := mem_intercalate member
    · exact .inr (.inl same)
    · obtain plain | last := List.mem_append.mp inside
      · exact .inl ((each group plain).2.2 c here)
      · rw [List.mem_singleton.mp last] at here
        exact isIp.literal here

theorem IsIpv6.literal (ip : IsIpv6 s) (member : c ∈ s) : IsLiteralChar c := by
  obtain tail | ⟨n, m, head, tail, isHead, isTail, -, rfl⟩ := ip
  · exact tail.literal member
  · obtain first | rest := List.mem_append.mp member
    · exact isHead.literal first
    · obtain same | rest := List.mem_cons.mp rest
      · exact .inr (.inl same)
      · obtain same | last := List.mem_cons.mp rest
        · exact .inr (.inl same)
        · exact isTail.literal last

/-- Every spelling of an IPv6 address has two colons at least. -/
theorem IsIpv6.two_le_count (ip : IsIpv6 s) : 2 ≤ s.count ':' := by
  obtain (⟨parts, length, -, rfl⟩ | ⟨parts, ip, length, -, -, rfl⟩) |
    ⟨_, _, _, _, -, -, -, rfl⟩ := ip
  · have le := length_le_count ':' parts
    omega
  · have le := length_le_count ':' (parts ++ [ip])
    rw [List.length_append, List.length_singleton] at le
    omega
  · simp only [List.count_append, List.count_cons_self]
    omega

theorem not_isLiteralChar_of_bracket (bracket : c = '[' ∨ c = ']') : ¬ IsLiteralChar c := by
  obtain rfl | rfl := bracket <;> simp [IsLiteralChar] <;> decide

end RangePorter.IpAddr
