import Mathlib.Logic.Relation

/-!
# Loops

A loop is given by its body, which maps a state to the next state or to the result the
loop ends with. `run` executes it on fuel; `Passes` and `Returns` leave the number of
rounds open. Bodies are functions, so a loop has at most one result.

`run_of_variant` is the rule of total correctness. `Divides` compares two loops of
which one takes several rounds for one round of the other.
-/

namespace Loop

universe u v

variable {σ : Type u} {ρ : Type v}

/-- One round: go on in another state, or end with a result. -/
abbrev Body (σ : Type u) (ρ : Type v) := σ → σ ⊕ ρ

/-- At most this many rounds. `none` means that the fuel did not suffice. -/
def run (body : Body σ ρ) : Nat → σ → Option ρ
  | 0, _ => none
  | fuel + 1, s =>
      match body s with
      | .inl t => run body fuel t
      | .inr r => some r

/-- The loop comes from one state to the other. -/
def Passes (body : Body σ ρ) : σ → σ → Prop :=
  Relation.ReflTransGen fun s t => body s = .inl t

/-- The loop ends with this result. -/
def Returns (body : Body σ ρ) (s : σ) (r : ρ) : Prop := ∃ t, Passes body s t ∧ body t = .inr r

variable {body coarse fine : Body σ ρ} {s t u : σ} {r : ρ} {fuel more : Nat}

theorem Passes.refl : Passes body s s := Relation.ReflTransGen.refl

theorem Passes.single (goesOn : body s = .inl t) : Passes body s t :=
  Relation.ReflTransGen.single goesOn

theorem Passes.trans (first : Passes body s t) (second : Passes body t u) : Passes body s u :=
  Relation.ReflTransGen.trans first second

theorem Passes.next (before : Passes body s t) (goesOn : body t = .inl u) : Passes body s u :=
  Relation.ReflTransGen.tail before goesOn

theorem Passes.invariant (inv : σ → Prop) (passes : Passes body s t) (initial : inv s)
    (keeps : ∀ s t, inv s → body s = .inl t → inv t) : inv t := by
  induction passes with
  | refl => exact initial
  | tail _ goesOn ih => exact keeps _ _ ih goesOn

/-- The rounds after a state depend on what its own round does only. -/
theorem Passes.cases_body (passes : Passes body s t) :
    s = t ∨ ∃ u, body s = .inl u ∧ Passes body u t :=
  (Relation.ReflTransGen.cases_head_iff.mp passes).imp_left id

theorem Returns.done (ends : body s = .inr r) : Returns body s r := ⟨s, .refl, ends⟩

theorem returns_iff_of_next (goesOn : body s = .inl t) : Returns body s r ↔ Returns body t r := by
  constructor
  · rintro ⟨last, passes, ends⟩
    obtain rfl | ⟨u, goesOn', rest⟩ := passes.cases_body
    · rw [goesOn] at ends
      cases ends
    · rw [goesOn, Sum.inl.injEq] at goesOn'
      subst goesOn'
      exact ⟨last, rest, ends⟩
  · rintro ⟨last, rest, ends⟩
    exact ⟨last, (Passes.single goesOn).trans rest, ends⟩

theorem returns_iff_of_ends {r' : ρ} (ends : body s = .inr r') :
    Returns body s r ↔ r' = r := by
  constructor
  · rintro ⟨last, passes, ends'⟩
    obtain rfl | ⟨u, goesOn, -⟩ := passes.cases_body
    · rwa [ends, Sum.inr.injEq] at ends'
    · rw [ends] at goesOn
      cases goesOn
  · rintro rfl
    exact .done ends

/-- Every state that the loop passes leads to its result. -/
theorem returns_iff_of_passes (passes : Passes body s t) : Returns body s r ↔ Returns body t r := by
  induction passes with
  | refl => exact Iff.rfl
  | tail _ goesOn ih => exact ih.trans (returns_iff_of_next goesOn)

theorem Returns.unique {r' : ρ} (returns : Returns body s r) (returns' : Returns body s r') :
    r = r' := by
  obtain ⟨last, passes, ends⟩ := returns
  exact (returns_iff_of_ends ends).mp ((returns_iff_of_passes passes).mp returns')

/-! ### Fuel -/

theorem run_mono (found : run body fuel s = some r) (le : fuel ≤ more) :
    run body more s = some r := by
  induction fuel generalizing s more with
  | zero => cases found
  | succ fuel ih =>
      cases more with
      | zero => cases le
      | succ more =>
          rw [run] at found ⊢
          split at found
          case h_1 t goesOn => exact ih found (Nat.le_of_succ_le_succ le)
          case h_2 => exact found

/-- The loop returns exactly if some fuel suffices. -/
theorem returns_iff_run : Returns body s r ↔ ∃ fuel, run body fuel s = some r := by
  constructor
  · rintro ⟨last, passes, ends⟩
    induction passes using Relation.ReflTransGen.head_induction_on with
    | refl => exact ⟨1, by rw [run, ends]⟩
    | head goesOn _ ih =>
        obtain ⟨fuel, found⟩ := ih
        exact ⟨fuel + 1, by rw [run, goesOn]; exact found⟩
  · rintro ⟨fuel, found⟩
    induction fuel generalizing s with
    | zero => cases found
    | succ fuel ih =>
        rw [run] at found
        cases round : body s with
        | inl t =>
            rw [round] at found
            exact (returns_iff_of_next round).mpr (ih found)
        | inr r' =>
            rw [round] at found
            cases found
            exact .done round

/-- If every round that goes on keeps the invariant and lowers the variant, the loop ends
before it has made more rounds than the variant says, and its last round vouches for the
result. -/
theorem run_of_variant (inv : σ → Prop) (variant : σ → Nat) {post : ρ → Prop}
    (round : ∀ s, inv s → (∃ t, body s = .inl t ∧ inv t ∧ variant t < variant s) ∨
      ∃ r, body s = .inr r ∧ post r)
    (initial : inv s) (bound : variant s < fuel) : ∃ r, run body fuel s = some r ∧ post r := by
  induction fuel generalizing s with
  | zero => cases bound
  | succ fuel ih =>
      rw [run]
      obtain ⟨t, goesOn, kept, lower⟩ | ⟨r, ends, holds⟩ := round s initial
      · rw [goesOn]
        exact ih kept (Nat.lt_of_lt_of_le lower (Nat.le_of_lt_succ bound))
      · rw [ends]
        exact ⟨r, rfl, holds⟩

/-! ### Loops in smaller steps -/

/-- At this state the fine loop does what the coarse one does, or it takes a first part of
it: the coarse loop does the same from where that part ends, which is closer to the end. -/
def Divides (coarse fine : Body σ ρ) (size : σ → Nat) (s : σ) : Prop :=
  fine s = coarse s ∨ ∃ t, fine s = .inl t ∧ coarse t = coarse s ∧ size t < size s

section

variable {size : σ → Nat}

/-- The fine loop completes every round of the coarse one. -/
theorem exists_whole_round (divides : ∀ t, Passes fine s t → Divides coarse fine size t) :
    ∃ t, Passes fine s t ∧ fine t = coarse s := by
  induction bound : size s using Nat.strongRecOn generalizing s with
  | ind n ih =>
      obtain same | ⟨t, first, rest, less⟩ := divides s .refl
      · exact ⟨s, .refl, same⟩
      · obtain ⟨u, passes, whole⟩ := ih (size t) (bound ▸ less)
          (fun v passes => divides v ((Passes.single first).trans passes)) rfl
        exact ⟨u, (Passes.single first).trans passes, whole.trans rest⟩

/-- The fine loop passes every state that the coarse loop passes. -/
theorem passes_fine (divides : ∀ t, Passes fine s t → Divides coarse fine size t)
    (passes : Passes coarse s t) : Passes fine s t := by
  induction passes with
  | refl => exact .refl
  | tail _ goesOn ih =>
      obtain ⟨u, onwards, whole⟩ :=
        exists_whole_round fun v passes => divides v (ih.trans passes)
      exact (ih.trans onwards).next (whole.trans goesOn)

/-- Every state of the fine loop is on its way through one round of the coarse loop. -/
theorem coupled (passes : Passes fine s t)
    (divides : ∀ u v, Passes fine s u → fine u = .inl v → Passes fine v t →
      Divides coarse fine size u) :
    ∃ u, Passes coarse s u ∧ coarse t = coarse u := by
  induction passes with
  | refl => exact ⟨s, .refl, rfl⟩
  | @tail t t' before goesOn ih =>
      obtain ⟨u, passes, same⟩ := ih fun v w first second rest =>
        divides v w first second (Passes.next rest goesOn)
      obtain equal | ⟨w, first, rest, -⟩ := divides t t' before goesOn .refl
      · exact ⟨t', passes.next (same.symm.trans (equal.symm.trans goesOn)), rfl⟩
      · rw [goesOn, Sum.inl.injEq] at first
        subst first
        exact ⟨u, passes, rest.trans same⟩

/-- The two loops end with the same results. -/
theorem returns_iff_of_divides (divides : ∀ t, Passes fine s t → Divides coarse fine size t) :
    Returns coarse s r ↔ Returns fine s r := by
  constructor
  · rintro ⟨last, passes, ends⟩
    have there := passes_fine divides passes
    obtain ⟨u, onwards, whole⟩ :=
      exists_whole_round fun v passes => divides v (there.trans passes)
    exact ⟨u, there.trans onwards, whole.trans ends⟩
  · rintro ⟨last, passes, ends⟩
    obtain ⟨u, there, same⟩ := coupled passes fun v _ first _ _ => divides v first
    obtain equal | ⟨w, goesOn, -⟩ := divides last passes
    · exact ⟨u, there, same.symm.trans (equal.symm.trans ends)⟩
    · rw [ends] at goesOn
      cases goesOn

end

end Loop
