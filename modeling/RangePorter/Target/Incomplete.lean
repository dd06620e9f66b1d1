import RangePorter.Target.HostPort

/-!
# Targets without host or port

A text without a port should be rejected, and so should one without a host. The branch
for hosts without brackets looks for the last colon only, so it takes the last group of
some IPv6 addresses for a port; the branch for hosts in brackets does not ask whether
the host is empty. No other text without host or port is accepted.
-/

namespace RangePorter.TargetAddr

open Text IpAddr

/-- A host name has none of the characters that delimit hosts and ports. -/
def IsHostName (s : Str) : Prop := s ≠ [] ∧ ':' ∉ s ∧ '[' ∉ s ∧ ']' ∉ s

/-- A host name or an address on its own. -/
def LacksPort (raw : Str) : Prop := IsHostName raw ∨ IsIpv4 raw ∨ IsIpv6 raw

structure RejectsIncomplete (raw : Str) : Prop where
  port : LacksPort raw → ∃ message, splitHostPort raw = some (.error message)
  host : ∀ host port, splitHostPort raw = some (.ok (host, port)) → host ≠ []

/-- An IPv6 address whose text after the last colon is a port that is not zero. -/
def EndsInPort (raw : Str) : Prop :=
  IsIpv6 raw ∧ ∃ groups text port, raw = groups ++ ':' :: text ∧ IsPort text port

/-- Empty brackets and a port that is not zero. -/
def BracketsNothing (raw : Str) : Prop :=
  ∃ text port, raw = '[' :: ']' :: ':' :: text ∧ IsPort text port

variable {raw host text : Str} {port : BitVec 16}

theorem not_opened_of_literal (literal : ∀ c ∈ raw, IsLiteralChar c) : raw.head? ≠ some '[' :=
  fun opened => not_isLiteralChar_of_bracket (.inl rfl) (literal _ (List.mem_of_mem_head? opened))

/-- Before the last colon of an IPv6 address there is another one. -/
theorem groups_ne_nil {groups : Str} (ip : IsIpv6 (groups ++ ':' :: text)) (absent : ':' ∉ text) :
    groups ≠ [] := by
  rintro rfl
  have colons := ip.two_le_count
  rw [List.nil_append, List.count_cons_self, List.count_eq_zero_of_not_mem absent] at colons
  omega

theorem splitHostPort_of_endsInPort (ends : EndsInPort raw) :
    ∃ host port, splitHostPort raw = some (.ok (host, port)) := by
  obtain ⟨ip, groups, text, port, rfl, isPort⟩ := ends
  have nonempty := groups_ne_nil ip (isPort.absent (by decide))
  exact ⟨groups, port, (splitHostPort_plain_eq_ok_iff
    (not_opened_of_literal fun _ member => ip.literal member)).mpr ⟨text, rfl, nonempty, isPort⟩⟩

/-- A text that is not accepted is rejected with a message. -/
theorem rejected_of_not_accepted
    (none : ∀ host port, splitHostPort raw ≠ some (.ok (host, port))) :
    ∃ message, splitHostPort raw = some (.error message) := by
  cases outcome : splitHostPort raw with
  | none => exact absurd outcome (splitHostPort_total raw)
  | some result =>
      cases result with
      | error message => exact ⟨message, rfl⟩
      | ok parts => exact absurd outcome (none parts.1 parts.2)

theorem rejects_without_colon (plain : raw.head? ≠ some '[') (absent : ':' ∉ raw) :
    ∃ message, splitHostPort raw = some (.error message) := by
  apply rejected_of_not_accepted
  intro host port accepted
  obtain ⟨text, rfl, -, -⟩ := (splitHostPort_plain_eq_ok_iff plain).mp accepted
  exact absent (by simp)

theorem rejects_lacksPort (lacks : LacksPort raw) (fine : ¬ EndsInPort raw) :
    ∃ message, splitHostPort raw = some (.error message) := by
  obtain ⟨-, absent, unopened, -⟩ | ip | ip := lacks
  · exact rejects_without_colon (fun opened => unopened (List.mem_of_mem_head? opened)) absent
  · apply rejects_without_colon (not_opened_of_literal fun _ member => ip.literal member)
    exact fun member => absurd (ip.chars member) (by decide)
  · apply rejected_of_not_accepted
    intro host port accepted
    have plain := not_opened_of_literal fun _ member => ip.literal member
    obtain ⟨text, rfl, -, isPort⟩ := (splitHostPort_plain_eq_ok_iff plain).mp accepted
    exact fine ⟨ip, host, text, port, rfl, isPort⟩

theorem host_eq_nil_iff :
    (∃ port, splitHostPort raw = some (.ok ([], port))) ↔ BracketsNothing raw := by
  by_cases opened : raw.head? = some '['
  · obtain ⟨rest, rfl⟩ := List.head?_eq_some_iff.mp opened
    simp only [splitHostPort_bracketed_eq_ok_iff, BracketsNothing]
    constructor
    · rintro ⟨port, text, rfl, -, isPort⟩
      exact ⟨text, port, rfl, isPort⟩
    · rintro ⟨text, port, same, isPort⟩
      exact ⟨port, text, (List.cons.inj same).2, List.not_mem_nil, isPort⟩
  · simp only [splitHostPort_plain_eq_ok_iff opened, BracketsNothing]
    constructor
    · rintro ⟨port, text, -, nonempty, -⟩
      exact absurd rfl nonempty
    · rintro ⟨text, port, rfl, -⟩
      exact absurd rfl opened

/-- Incomplete targets are rejected, two kinds of text apart. -/
theorem rejectsIncomplete_iff :
    RejectsIncomplete raw ↔ ¬ EndsInPort raw ∧ ¬ BracketsNothing raw := by
  constructor
  · intro rejects
    refine ⟨fun ends => ?_, fun nothing => ?_⟩
    · obtain ⟨host, port, accepted⟩ := splitHostPort_of_endsInPort ends
      obtain ⟨message, rejected⟩ := rejects.port (.inr (.inr ends.1))
      rw [accepted] at rejected
      cases rejected
    · obtain ⟨port, accepted⟩ := host_eq_nil_iff.mpr nothing
      exact rejects.host [] port accepted rfl
  · rintro ⟨fine, something⟩
    refine ⟨fun lacks => rejects_lacksPort lacks fine, ?_⟩
    rintro host port accepted rfl
    exact something (host_eq_nil_iff.mp ⟨port, accepted⟩)

theorem isIpv6_loopback : IsIpv6 "::1".toList :=
  .inr ⟨0, 1, [], ['1'], ⟨[], rfl, nofun, rfl⟩,
    .inl ⟨[['1']], rfl, by simp [IsGroup, Char.isHexDigit], rfl⟩, by decide, rfl⟩

/-- The loopback address is taken for host `:` and port 1, and empty brackets for a host. -/
theorem accepts_incomplete :
    splitHostPort "::1".toList = some (.ok (":".toList, 1)) ∧
      ¬ RejectsIncomplete "::1".toList ∧
    splitHostPort "[]:80".toList = some (.ok ([], 80)) ∧
      ¬ RejectsIncomplete "[]:80".toList := by
  have loopback : splitHostPort "::1".toList = some (.ok (":".toList, 1)) := by decide
  have empty : splitHostPort "[]:80".toList = some (.ok ([], 80)) := by decide
  refine ⟨loopback, fun rejects => ?_, empty, fun rejects => rejects.host [] 80 empty rfl⟩
  obtain ⟨message, rejected⟩ := rejects.port (.inr (.inr isIpv6_loopback))
  rw [loopback] at rejected
  cases rejected

end RangePorter.TargetAddr
