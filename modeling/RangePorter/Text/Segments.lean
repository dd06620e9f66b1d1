import Mathlib.Data.List.Forall2

/-!
# Reading a sequence of segments

A reader folds the segments of a text into an accumulator and stops at the
first segment it cannot read. If one segment is described by two relations,
`Good` for what it means and `Bad` for its error, and the two do not depend on
the accumulator, then so is the whole sequence.
-/

namespace Text

universe u v w x

/-- One segment: an accepted one adds its meaning, another one stops the reader. -/
structure Reader {α : Type u} {β : Type v} {γ : Type w} {ε : Type x}
    (read : γ → α → Except ε γ) (add : γ → β → γ)
    (Good : α → β → Prop) (Bad : α → ε → Prop) : Prop where
  ok_iff : ∀ state segment state',
    read state segment = .ok state' ↔ ∃ meaning, Good segment meaning ∧ state' = add state meaning
  error_iff : ∀ state segment error, read state segment = .error error ↔ Bad segment error

namespace Reader

variable {α : Type u} {β : Type v} {γ : Type w} {ε : Type x}
variable {read : γ → α → Except ε γ} {add : γ → β → γ}
variable {Good : α → β → Prop} {Bad : α → ε → Prop} {segments : List α} {state state' : γ}

/-- A sequence is accepted if each segment is, and then it means the sum of their meanings. -/
theorem foldlM_ok_iff (reader : Reader read add Good Bad) :
    segments.foldlM read state = .ok state' ↔
      ∃ meanings, List.Forall₂ Good segments meanings ∧ state' = meanings.foldl add state := by
  induction segments generalizing state with
  | nil => simp [pure, Except.pure, eq_comm]
  | cons segment segments ih =>
      rw [List.foldlM_cons]
      constructor
      · intro accepted
        obtain ⟨middle, first, rest⟩ := (bind_eq_ok _ _ _).1 accepted
        obtain ⟨meaning, good, rfl⟩ := (reader.ok_iff _ _ _).1 first
        obtain ⟨meanings, all, rfl⟩ := ih.1 rest
        exact ⟨meaning :: meanings, .cons good all, rfl⟩
      · rintro ⟨meanings, all, rfl⟩
        cases all with
        | cons good all =>
            exact (bind_eq_ok _ _ _).2
              ⟨_, (reader.ok_iff _ _ _).2 ⟨_, good, rfl⟩, ih.2 ⟨_, all, rfl⟩⟩
where
  bind_eq_ok (first : Except ε γ) (next : γ → Except ε γ) (result : γ) :
      first >>= next = .ok result ↔ ∃ middle, first = .ok middle ∧ next middle = .ok result := by
    cases first <;> simp [bind, Except.bind]

/-- The meanings of a sequence are the meanings of its segments. -/
theorem mem_meanings_iff {meanings : List β} {meaning : β}
    (unique : ∀ segment meaning meaning', Good segment meaning → Good segment meaning' →
      meaning = meaning')
    (all : List.Forall₂ Good segments meanings) :
    meaning ∈ meanings ↔ ∃ segment ∈ segments, Good segment meaning := by
  induction all with
  | nil => simp
  | @cons segment first _ _ good _ ih =>
      have here : meaning = first ↔ Good segment meaning :=
        ⟨fun same => same ▸ good, fun other => unique _ _ _ other good⟩
      simp [ih, here]

/-- A sequence has meanings if each of its segments has one. -/
theorem exists_meanings_iff :
    (∃ meanings, List.Forall₂ Good segments meanings) ↔
      ∀ segment ∈ segments, ∃ meaning, Good segment meaning := by
  induction segments with
  | nil => simp
  | cons segment segments ih =>
      rw [List.forall_mem_cons, ← ih]
      constructor
      · rintro ⟨_, all⟩
        cases all with
        | cons good all => exact ⟨⟨_, good⟩, ⟨_, all⟩⟩
      · rintro ⟨⟨meaning, good⟩, ⟨meanings, all⟩⟩
        exact ⟨meaning :: meanings, .cons good all⟩

/-- No segment is both accepted and refused. -/
theorem not_bad (reader : Reader read add Good Bad) (state : γ) {segment : α} {meaning : β}
    {error : ε} (good : Good segment meaning) : ¬ Bad segment error := by
  intro bad
  have accepted := (reader.ok_iff state segment _).2 ⟨meaning, good, rfl⟩
  have refused := (reader.error_iff state segment error).2 bad
  rw [accepted] at refused
  cases refused

/-- A sequence is refused with the error of its first segment that is not accepted. -/
theorem foldlM_error_iff (reader : Reader read add Good Bad) {error : ε} :
    segments.foldlM read state = .error error ↔
      ∃ before segment after, segments = before ++ segment :: after ∧
        (∀ earlier ∈ before, ∃ meaning, Good earlier meaning) ∧ Bad segment error := by
  induction segments generalizing state with
  | nil => simp [pure, Except.pure]
  | cons first rest ih =>
      rw [List.foldlM_cons]
      cases outcome : read state first with
      | error problem =>
          have bad := (reader.error_iff _ _ _).1 outcome
          constructor
          · intro stopped
            cases stopped
            exact ⟨[], first, rest, rfl, by simp, bad⟩
          · rintro ⟨before, segment, after, shape, accepted, rejected⟩
            cases before with
            | nil =>
                cases shape
                have same := outcome.symm.trans ((reader.error_iff state _ _).2 rejected)
                cases same
                rfl
            | cons earlier before =>
                cases shape
                obtain ⟨_, good⟩ := accepted first (by simp)
                exact absurd bad (reader.not_bad state good)
      | ok middle =>
          obtain ⟨meaning, good, -⟩ := (reader.ok_iff _ _ _).1 outcome
          show rest.foldlM read middle = .error error ↔ _
          rw [ih]
          constructor
          · rintro ⟨before, segment, after, rfl, accepted, rejected⟩
            refine ⟨first :: before, segment, after, rfl, ?_, rejected⟩
            exact List.forall_mem_cons.2 ⟨⟨meaning, good⟩, accepted⟩
          · rintro ⟨before, segment, after, shape, accepted, rejected⟩
            cases before with
            | nil =>
                cases shape
                exact absurd rejected (reader.not_bad state good)
            | cons earlier before =>
                cases shape
                exact ⟨before, segment, after, rfl,
                  fun other mem => accepted other (List.mem_cons_of_mem _ mem), rejected⟩

end Reader

end Text
