import RangePorter.Interleaving.Machine

/-!
# Watching a run

A watcher follows a run beside the machine and notes what it wants of each step. It never
stands in the way of one. A condition on the order of steps, of which the states of the
machine may say nothing, is a condition on what has been noted.
-/

namespace Interleaving.Machine

universe u v w

variable {σ : Type u} {α : Type v} {μ : Type w} {M : Machine σ α} {note : μ → σ → α → μ}

/-- The machine with a watcher, who has noted nothing but what `note` tells him to. -/
def watch (M : Machine σ α) (note : μ → σ → α → μ) : Machine (σ × μ) α :=
  ⟨fun x a => (M.step x.1 a).map fun t => (t, note x.2 x.1 a)⟩

theorem watch_step_iff {x y : σ × μ} {a : α} :
    (M.watch note).step x a = some y ↔ M.step x.1 a = some y.1 ∧ y.2 = note x.2 x.1 a := by
  obtain ⟨t, m⟩ := y
  simp only [watch, Option.map_eq_some_iff, Prod.mk.injEq]
  constructor
  · rintro ⟨_, taken, rfl, rfl⟩
    exact ⟨taken, rfl⟩
  · rintro ⟨taken, rfl⟩
    exact ⟨t, taken, rfl, rfl⟩

/-- What is watched is a run of the machine. -/
theorem run_of_watch {x y : σ × μ} {as : List α} (complete : (M.watch note).run x as = some y) :
    M.run x.1 as = some y.1 := by
  induction as generalizing x with
  | nil =>
      cases complete
      rfl
  | cons a as ih =>
      obtain ⟨z, taken, rest⟩ := run_cons_iff.mp complete
      exact run_cons_iff.mpr ⟨z.1, (watch_step_iff.mp taken).1, ih rest⟩

theorem Reachable.of_watch {x y : σ × μ} (reached : (M.watch note).Reachable x y) :
    M.Reachable x.1 y.1 := by
  obtain ⟨as, complete⟩ := reached
  exact ⟨as, run_of_watch complete⟩

/-- Every run can be watched to its end. -/
theorem watch_run {s t : σ} {as : List α} (complete : M.run s as = some t) (m : μ) :
    ∃ m', (M.watch note).run (s, m) as = some (t, m') := by
  induction as generalizing s m with
  | nil =>
      cases complete
      exact ⟨m, rfl⟩
  | cons a as ih =>
      obtain ⟨u, taken, rest⟩ := run_cons_iff.mp complete
      obtain ⟨m', watched⟩ := ih rest (note m s a)
      exact ⟨m', run_cons_iff.mpr ⟨(u, note m s a), watch_step_iff.mpr ⟨taken, rfl⟩, watched⟩⟩

/-- What the machine itself says of the steps that are watched, it says of the run. -/
theorem along_of_watch {C : σ → α → Prop} {s : σ} {m : μ} {as : List α}
    (h : (M.watch note).Along (fun x a => C x.1 a) (s, m) as) : M.Along C s as := by
  induction as generalizing s m with
  | nil => trivial
  | cons a as ih =>
      refine ⟨h.1, fun t taken => ih (m := note m s a) ?_⟩
      exact h.2 (t, note m s a) (watch_step_iff.mpr ⟨taken, rfl⟩)

end Interleaving.Machine
