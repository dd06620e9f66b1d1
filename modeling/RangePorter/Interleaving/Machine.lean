import Mathlib.Algebra.Group.Nat.Defs
import Mathlib.Algebra.Group.Prod
import Mathlib.Algebra.GroupWithZero.Nat

/-!
# Machines with named actions

A machine either refuses an action in a state or moves to exactly one next
state. Everything the environment may choose (which task is scheduled, what a
system call returns, how far a clock has advanced) is part of the action's name,
so a run is fixed by its list of actions and can be evaluated.

`Along` restricts the steps of one run by a condition on the state before the
step and the action taken there. `count` counts the steps of a run that meet a
decidable condition, and `total` adds up what each step contributes. The rules at
the end turn what one step preserves into what every run preserves.
-/

namespace Interleaving

universe u v w x

/-- States `σ`, actions `α`, and the only state an accepted action leads to. -/
structure Machine (σ : Type u) (α : Type v) where
  step : σ → α → Option σ

namespace Machine

variable {σ : Type u} {α : Type v} {M : Machine σ α}

/-- Take the actions in order. `none` means that some action was refused. -/
def run (M : Machine σ α) : σ → List α → Option σ
  | s, [] => some s
  | s, a :: as => (M.step s a).bind fun t => M.run t as

@[simp] theorem run_nil (s : σ) : M.run s [] = some s := rfl

theorem run_cons (s : σ) (a : α) (as : List α) :
    M.run s (a :: as) = (M.step s a).bind fun t => M.run t as := rfl

theorem run_cons_iff {s t : σ} {a : α} {as : List α} :
    M.run s (a :: as) = some t ↔ ∃ u, M.step s a = some u ∧ M.run u as = some t := by
  rw [run_cons, Option.bind_eq_some_iff]

theorem run_singleton {s t : σ} {a : α} : M.run s [a] = some t ↔ M.step s a = some t := by
  simp [run_cons]

theorem run_append (s : σ) (as bs : List α) :
    M.run s (as ++ bs) = (M.run s as).bind fun t => M.run t bs := by
  induction as generalizing s with
  | nil => rfl
  | cons a as ih =>
      rw [List.cons_append, run_cons, run_cons]
      cases M.step s a with
      | none => rfl
      | some t => exact ih t

theorem run_append_iff {s t : σ} {as bs : List α} :
    M.run s (as ++ bs) = some t ↔ ∃ u, M.run s as = some u ∧ M.run u bs = some t := by
  rw [run_append, Option.bind_eq_some_iff]

/-- Run segments compose. -/
theorem run_trans {s t u : σ} {as bs : List α} (first : M.run s as = some t)
    (second : M.run t bs = some u) : M.run s (as ++ bs) = some u :=
  run_append_iff.mpr ⟨t, first, second⟩

/-- The states some run leads to. -/
def Reachable (M : Machine σ α) (init s : σ) : Prop := ∃ as, M.run init as = some s

theorem Reachable.refl (init : σ) : M.Reachable init init := ⟨[], rfl⟩

theorem Reachable.run {init s t : σ} {as : List α} (reached : M.Reachable init s)
    (rest : M.run s as = some t) : M.Reachable init t := by
  obtain ⟨before, first⟩ := reached
  exact ⟨before ++ as, run_trans first rest⟩

theorem Reachable.step {init s t : σ} {a : α} (reached : M.Reachable init s)
    (taken : M.step s a = some t) : M.Reachable init t := by
  have complete : M.run s [a] = some t := run_cons_iff.mpr ⟨t, taken, rfl⟩
  exact reached.run complete

/-- A run that is accepted leads to a reachable state. -/
theorem reachable_get {init : σ} {as : List α} (accepted : (M.run init as).isSome) :
    M.Reachable init ((M.run init as).get accepted) := ⟨as, (Option.some_get accepted).symm⟩

/-- Every step taken by the actions `as` from `s` meets `C`. -/
def Along (M : Machine σ α) (C : σ → α → Prop) : σ → List α → Prop
  | _, [] => True
  | s, a :: as => C s a ∧ ∀ t, M.step s a = some t → M.Along C t as

/-- How many steps of the run meet `C`. -/
def count (M : Machine σ α) (C : σ → α → Bool) : σ → List α → Nat
  | _, [] => 0
  | s, a :: as => (C s a).toNat +
      match M.step s a with
      | some t => M.count C t as
      | none => 0

theorem count_cons {s t : σ} {a : α} {as : List α} {C : σ → α → Bool}
    (taken : M.step s a = some t) :
    M.count C s (a :: as) = (C s a).toNat + M.count C t as := by
  simp only [count, taken]

/-- A run has no step meeting `C` exactly when all its steps avoid `C`. -/
theorem count_eq_zero_iff {s t : σ} {as : List α} {C : σ → α → Bool}
    (complete : M.run s as = some t) :
    M.count C s as = 0 ↔ M.Along (fun s a => C s a = false) s as := by
  induction as generalizing s with
  | nil => simp [count, Along]
  | cons a as ih =>
      obtain ⟨u, taken, rest⟩ := run_cons_iff.mp complete
      rw [count_cons taken, Along, Nat.add_eq_zero_iff, ih rest, Bool.toNat_eq_zero]
      simp only [taken, Option.some.injEq, forall_eq']

/-- What the steps of the run contribute together. -/
def total {β : Type w} [AddMonoid β] (M : Machine σ α) (f : σ → α → β) : σ → List α → β
  | _, [] => 0
  | s, a :: as => f s a +
      match M.step s a with
      | some t => M.total f t as
      | none => 0

theorem total_cons {β : Type w} [AddMonoid β] {f : σ → α → β} {s t : σ} {a : α} {as : List α}
    (taken : M.step s a = some t) : M.total f s (a :: as) = f s a + M.total f t as := by
  simp only [total, taken]

theorem count_eq_total (C : σ → α → Bool) (s : σ) (as : List α) :
    M.count C s as = M.total (fun s a => (C s a).toNat) s as := by
  induction as generalizing s with
  | nil => rfl
  | cons a as ih =>
      simp only [count, total]
      cases M.step s a with
      | none => rfl
      | some t => simp only [ih t]

theorem total_prodMk {β : Type w} {γ : Type x} [AddMonoid β] [AddMonoid γ] (f : σ → α → β)
    (g : σ → α → γ) (s : σ) (as : List α) :
    M.total (fun s a => (f s a, g s a)) s as = (M.total f s as, M.total g s as) := by
  induction as generalizing s with
  | nil => rfl
  | cons a as ih =>
      simp only [total]
      cases M.step s a with
      | none => simp
      | some t => simp [ih t]

theorem Along.mono {C D : σ → α → Prop} (weaken : ∀ s a, C s a → D s a) {s : σ}
    {as : List α} (h : M.Along C s as) : M.Along D s as := by
  induction as generalizing s with
  | nil => trivial
  | cons a as ih => exact ⟨weaken s a h.1, fun t taken => ih (h.2 t taken)⟩

/-- Only the states that the run can reach matter. -/
theorem Along.of_reachable {C D : σ → α → Prop} {init : σ}
    (weaken : ∀ s a, M.Reachable init s → C s a → D s a) {s : σ} (reached : M.Reachable init s)
    {as : List α} (h : M.Along C s as) : M.Along D s as := by
  induction as generalizing s with
  | nil => trivial
  | cons a as ih =>
      exact ⟨weaken s a reached h.1, fun t taken => ih (reached.step taken) (h.2 t taken)⟩

/-- Only the states between the start and the end of the run matter. -/
theorem Along.of_run {C D : σ → α → Prop} {s t : σ} {as : List α} (complete : M.run s as = some t)
    (weaken : ∀ u a, M.Reachable s u → M.Reachable u t → C u a → D u a)
    (h : M.Along C s as) : M.Along D s as := by
  induction as generalizing s with
  | nil => trivial
  | cons a as ih =>
      obtain ⟨u, taken, rest⟩ := run_cons_iff.mp complete
      refine ⟨weaken s a (.refl s) ⟨a :: as, complete⟩ h.1, fun u' taken' => ?_⟩
      cases taken.symm.trans taken'
      refine ih rest (fun v b reached left => weaken v b ?_ left) (h.2 u taken)
      obtain ⟨bs, complete'⟩ := reached
      exact ⟨a :: bs, run_cons_iff.mpr ⟨u, taken, complete'⟩⟩

/-- What holds along a run holds at each of its steps. -/
theorem Along.at_step {C : σ → α → Prop} {s t : σ} {as bs : List α} {a : α}
    (h : M.Along C s (as ++ a :: bs)) (first : M.run s as = some t) : C t a := by
  induction as generalizing s with
  | nil =>
      cases first
      exact h.1
  | cons b as ih =>
      obtain ⟨u, taken, rest⟩ := run_cons_iff.mp first
      exact ih (h.2 u taken) rest

theorem along_of_forall {C : α → Prop} {as : List α} (each : ∀ a ∈ as, C a) (s : σ) :
    M.Along (fun _ a => C a) s as := by
  induction as generalizing s with
  | nil => trivial
  | cons a as ih =>
      exact ⟨each a (List.mem_cons_self ..),
        fun t _ => ih (fun b member => each b (List.mem_cons_of_mem a member)) t⟩

/-! ### From one step to every run -/

/-- What every step meeting `C` preserves holds at the end of every run whose
steps meet `C`. -/
theorem invariant_along {C : σ → α → Prop} {P : σ → Prop}
    (preserved : ∀ s a t, P s → C s a → M.step s a = some t → P t)
    {s t : σ} {as : List α} (start : P s) (meets : M.Along C s as)
    (complete : M.run s as = some t) : P t := by
  induction as generalizing s with
  | nil =>
      cases complete
      exact start
  | cons a as ih =>
      obtain ⟨u, taken, rest⟩ := run_cons_iff.mp complete
      exact ih (preserved s a u start meets.1 taken) (meets.2 u taken) rest

/-- What every step meeting `C` preserves holds before each step of such a run. -/
theorem Along.invariant {C : σ → α → Prop} {P : σ → Prop}
    (preserved : ∀ s a t, P s → C s a → M.step s a = some t → P t)
    {s : σ} {as : List α} (start : P s) (meets : M.Along C s as) :
    M.Along (fun s _ => P s) s as := by
  induction as generalizing s with
  | nil => trivial
  | cons a as ih =>
      exact ⟨start, fun t taken => ih (preserved s a t start meets.1 taken) (meets.2 t taken)⟩

theorem invariant_run {P : σ → Prop} (preserved : ∀ s a t, P s → M.step s a = some t → P t)
    {s t : σ} {as : List α} (start : P s) (complete : M.run s as = some t) : P t := by
  induction as generalizing s with
  | nil =>
      cases complete
      exact start
  | cons a as ih =>
      obtain ⟨u, taken, rest⟩ := run_cons_iff.mp complete
      exact ih (preserved s a u start taken) rest

/-- The invariant rule: a property of the initial state that every step
preserves holds in every reachable state. Facts already known of all reachable
states may be used at each step. -/
theorem Reachable.invariant {P : σ → Prop} {init s : σ} (reached : M.Reachable init s)
    (start : P init)
    (preserved : ∀ s a t, M.Reachable init s → P s → M.step s a = some t → P t) : P s := by
  obtain ⟨as, complete⟩ := reached
  have both : M.Reachable init s ∧ P s :=
    invariant_run (P := fun s => M.Reachable init s ∧ P s)
      (fun s a t h taken => ⟨h.1.step taken, preserved s a t h.1 h.2 taken⟩)
      ⟨.refl init, start⟩ complete
  exact both.2

/-- An invariant indexed by what the steps have contributed so far, for a run whose steps
all meet `D`. -/
theorem invariant_total_along {β : Type w} [AddMonoid β] {f : σ → α → β} {D : σ → α → Prop}
    {P : β → σ → Prop}
    (preserved : ∀ b s a t, P b s → D s a → M.step s a = some t → P (b + f s a) t)
    {b : β} {s t : σ} {as : List α} (start : P b s) (meets : M.Along D s as)
    (complete : M.run s as = some t) : P (b + M.total f s as) t := by
  induction as generalizing b s with
  | nil =>
      cases complete
      simpa [total] using start
  | cons a as ih =>
      obtain ⟨u, taken, rest⟩ := run_cons_iff.mp complete
      rw [total_cons taken, ← add_assoc]
      exact ih (preserved b s a u start meets.1 taken) (meets.2 u taken) rest

theorem invariant_total {β : Type w} [AddMonoid β] {f : σ → α → β} {P : β → σ → Prop}
    (preserved : ∀ b s a t, P b s → M.step s a = some t → P (b + f s a) t)
    {b : β} {s t : σ} {as : List α} (start : P b s) (complete : M.run s as = some t) :
    P (b + M.total f s as) t :=
  invariant_total_along (D := fun _ _ => True) (fun b s a t holds _ => preserved b s a t holds)
    start (along_of_forall (fun _ _ => trivial) s) complete

/-- An invariant indexed by the number of steps that met `C` so far, for a run
whose steps all meet `D`. -/
theorem invariant_count {C : σ → α → Bool} {D : σ → α → Prop} {P : Nat → σ → Prop}
    (preserved : ∀ n s a t, P n s → D s a → M.step s a = some t → P (n + (C s a).toNat) t)
    {n : Nat} {s t : σ} {as : List α} (start : P n s) (meets : M.Along D s as)
    (complete : M.run s as = some t) : P (n + M.count C s as) t := by
  rw [count_eq_total]
  exact invariant_total_along preserved start meets complete

end Machine

end Interleaving
