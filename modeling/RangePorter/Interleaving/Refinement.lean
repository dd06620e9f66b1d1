import RangePorter.Interleaving.Machine

/-!
# Traces and refinement

A step of a machine may be seen from outside as some events; the trace of a run lists them
in order. A machine refines another one if the events of each of its steps are a run of the
other machine between the two abstractions of its states. Then so is the trace of every
run.

A run passes through its states one after the other; `Sometime` says what holds in one of
them.
-/

namespace Interleaving

universe u v w x

namespace Machine

variable {σ : Type u} {α : Type v} {τ : Type w} {β : Type x} {M : Machine σ α}
  {events : σ → α → List β}

/-- The events of a run, in order. -/
def trace (M : Machine σ α) (events : σ → α → List β) : σ → List α → List β
  | _, [] => []
  | s, a :: as => events s a ++
      match M.step s a with
      | some t => M.trace events t as
      | none => []

theorem trace_cons {s t : σ} {a : α} {as : List α} (taken : M.step s a = some t) :
    M.trace events s (a :: as) = events s a ++ M.trace events t as := by
  simp only [trace, taken]

theorem trace_map {γ : Type*} (f : β → γ) (s : σ) (as : List α) :
    M.trace (fun s a => (events s a).map f) s as = (M.trace events s as).map f := by
  induction as generalizing s with
  | nil => rfl
  | cons a as ih =>
      simp only [trace, List.map_append]
      cases M.step s a with
      | none => rfl
      | some t => simp only [ih t]

theorem trace_append {s t : σ} {as : List α} (first : M.run s as = some t) (bs : List α) :
    M.trace events s (as ++ bs) = M.trace events s as ++ M.trace events t bs := by
  induction as generalizing s with
  | nil =>
      cases first
      rfl
  | cons a as ih =>
      obtain ⟨u, taken, rest⟩ := run_cons_iff.mp first
      rw [List.cons_append, trace_cons taken, trace_cons taken, ih rest, List.append_assoc]

/-- An invariant that speaks of the events so far. -/
theorem invariant_trace {P : List β → σ → Prop}
    (preserved : ∀ es s a t, P es s → M.step s a = some t → P (es ++ events s a) t)
    {es : List β} {s t : σ} {as : List α} (start : P es s) (complete : M.run s as = some t) :
    P (es ++ M.trace events s as) t := by
  induction as generalizing es s with
  | nil =>
      cases complete
      simpa [trace] using start
  | cons a as ih =>
      obtain ⟨u, taken, rest⟩ := run_cons_iff.mp complete
      rw [trace_cons taken, ← List.append_assoc]
      exact ih (preserved es s a u start taken) rest

/-- Each step of `M` from a state in `P`, which every step keeps, is a run of `A`. -/
structure Refines (M : Machine σ α) (A : Machine τ β) (P : σ → Prop) (abs : σ → τ)
    (events : σ → α → List β) : Prop where
  keeps : ∀ s a t, P s → M.step s a = some t → P t
  step : ∀ s a t, P s → M.step s a = some t → A.run (abs s) (events s a) = some (abs t)

theorem Refines.run {A : Machine τ β} {P : σ → Prop} {abs : σ → τ}
    (refines : M.Refines A P abs events) {s t : σ} {as : List α} (start : P s)
    (complete : M.run s as = some t) : A.run (abs s) (M.trace events s as) = some (abs t) := by
  have both : P t ∧ A.run (abs s) ([] ++ M.trace events s as) = some (abs t) := by
    apply invariant_trace (P := fun es t => P t ∧ A.run (abs s) es = some (abs t)) ?_
      ⟨start, rfl⟩ complete
    rintro es u a v ⟨inside, before⟩ taken
    exact ⟨refines.keeps u a v inside taken,
      run_trans before (refines.step u a v inside taken)⟩
  exact both.2

/-! ### Moments of a run -/

section Moments

variable {φ : σ → Prop} {s t : σ} {as : List α}

/-- At some moment of the run `φ` holds. -/
def Sometime (M : Machine σ α) (φ : σ → Prop) (s : σ) (as : List α) : Prop :=
  ∃ bs cs t, as = bs ++ cs ∧ M.run s bs = some t ∧ φ t

theorem Sometime.append (sometime : M.Sometime φ s as) (rest : List α) :
    M.Sometime φ s (as ++ rest) := by
  obtain ⟨bs, cs, t, rfl, complete, holds⟩ := sometime
  exact ⟨bs, cs ++ rest, t, List.append_assoc .., complete, holds⟩

/-- What holds before a step has held at some moment of the run. -/
theorem sometime_of_step (complete : M.run s as = some t) (holds : φ t) (a : α) :
    M.Sometime φ s (as ++ [a]) :=
  ⟨as, [a], t, rfl, complete, holds⟩

/-- What is so in every reachable state is so at that moment. -/
theorem Sometime.imp {ψ : σ → Prop} (sometime : M.Sometime φ s as)
    (weaken : ∀ t, M.Reachable s t → φ t → ψ t) : M.Sometime ψ s as := by
  obtain ⟨bs, cs, t, same, complete, holds⟩ := sometime
  exact ⟨bs, cs, t, same, complete, weaken t ⟨bs, complete⟩ holds⟩

end Moments

end Machine

end Interleaving
