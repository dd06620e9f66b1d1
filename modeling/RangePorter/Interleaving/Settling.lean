import RangePorter.Interleaving.Machine
import Mathlib.Order.WellFounded

/-!
# Machines that come to rest

Some actions of a machine only wait for their turn: as long as there is work left one of
them is possible, and each of them leaves less work than before. Other actions may come in
between; they leave the work as it is. A run then has a bounded number of the former, a
state from which none of them is possible has no work left, and a run that goes on for ever
without starving them gets there.
-/

namespace Interleaving

universe u v

namespace Machine

variable {σ : Type u} {α : Type v} {M : Machine σ α}

/-- The machine that also refuses what `allowed` rules out. -/
def only (M : Machine σ α) (allowed : σ → α → Bool) : Machine σ α :=
  ⟨fun s a => if allowed s a then M.step s a else none⟩

theorem only_step_iff {allowed : σ → α → Bool} {s t : σ} {a : α} :
    (M.only allowed).step s a = some t ↔ allowed s a = true ∧ M.step s a = some t :=
  Option.ite_none_right_eq_some

/-- Within `P`, which every step keeps, the actions in `settles` use up the work that
`work` measures, and one of them is possible until `Done`. -/
structure Settles (M : Machine σ α) (P : σ → Prop) (settles : α → Bool) (work : σ → Nat)
    (Done : σ → Prop) : Prop where
  keeps : ∀ s a t, P s → M.step s a = some t → P t
  lowers : ∀ s a t, P s → settles a = true → M.step s a = some t → work t < work s
  leaves : ∀ s a t, P s → settles a = false → M.step s a = some t → work t ≤ work s
  progress : ∀ s, P s → ¬ Done s → ∃ a t, settles a = true ∧ M.step s a = some t

/-- A run that never ends. -/
structure Forever (M : Machine σ α) (state : Nat → σ) (action : Nat → α) : Prop where
  step : ∀ n, M.step (state n) (action n) = some (state (n + 1))

theorem Forever.run {state : Nat → σ} {action : Nat → α} (forever : M.Forever state action)
    (n : Nat) : M.run (state 0) ((List.range n).map action) = some (state n) := by
  induction n with
  | zero => rfl
  | succ n ih =>
      have last : M.run (state n) [action n] = some (state (n + 1)) :=
        run_cons_iff.mpr ⟨_, forever.step n, rfl⟩
      rw [List.range_succ, List.map_append]
      exact run_trans ih last

theorem Forever.drop {state : Nat → σ} {action : Nat → α} (forever : M.Forever state action)
    (n : Nat) : M.Forever (fun k => state (n + k)) (fun k => action (n + k)) :=
  ⟨fun k => forever.step (n + k)⟩

theorem Forever.only {allowed : σ → α → Bool} {state : Nat → σ} {action : Nat → α}
    (forever : M.Forever state action) (meets : ∀ n, allowed (state n) (action n) = true) :
    (M.only allowed).Forever state action :=
  ⟨fun n => only_step_iff.mpr ⟨meets n, forever.step n⟩⟩

namespace Settles

variable {P : σ → Prop} {settles : α → Bool} {work : σ → Nat} {Done : σ → Prop} {s t : σ}
  {as : List α} {allowed : σ → α → Bool}

/-- Each step uses up the work that it counts for. -/
theorem of_work (keeps : ∀ s a t, P s → M.step s a = some t → P t)
    (uses : ∀ s a t, P s → M.step s a = some t → work t + (settles a).toNat ≤ work s)
    (progress : ∀ s, P s → ¬ Done s → ∃ a t, settles a = true ∧ M.step s a = some t) :
    M.Settles P settles work Done where
  keeps := keeps
  lowers s a t start own taken := by
    have less := uses s a t start taken
    rwa [own, Bool.toNat_true] at less
  leaves s a t start _ taken := (Nat.le_add_right ..).trans (uses s a t start taken)
  progress := progress

theorem run (rests : M.Settles P settles work Done) (start : P s)
    (complete : M.run s as = some t) : P t :=
  invariant_run (fun s a t => rests.keeps s a t) start complete

/-- A run takes no more settling steps than there is work. -/
theorem count_add_le (rests : M.Settles P settles work Done) (start : P s)
    (complete : M.run s as = some t) :
    M.count (fun _ a => settles a) s as + work t ≤ work s := by
  induction as generalizing s with
  | nil =>
      cases complete
      simp [count]
  | cons a as ih =>
      obtain ⟨u, taken, rest⟩ := run_cons_iff.mp complete
      have later := ih (rests.keeps s a u start taken) rest
      rw [count_cons taken]
      cases own : settles a with
      | true =>
          have less := rests.lowers s a u start own taken
          rw [Bool.toNat_true]
          omega
      | false =>
          have same := rests.leaves s a u start own taken
          rw [Bool.toNat_false]
          omega

/-- Where no settling step is possible, nothing is left to do. -/
theorem done_of_stuck (rests : M.Settles P settles work Done) (start : P s)
    (stuck : ∀ a, settles a = true → M.step s a = none) : Done s := by
  by_contra busy
  obtain ⟨a, t, own, taken⟩ := rests.progress s start busy
  rw [stuck a own] at taken
  cases taken

/-- Settling steps alone lead to the end. -/
theorem completes (rests : M.Settles P settles work Done) (start : P s) :
    ∃ as t, M.run s as = some t ∧ (∀ a ∈ as, settles a = true) ∧ Done t := by
  induction left : work s using Nat.strongRecOn generalizing s with
  | ind n ih =>
      by_cases done : Done s
      · exact ⟨[], s, rfl, nofun, done⟩
      · obtain ⟨a, u, own, taken⟩ := rests.progress s start done
        have less := rests.lowers s a u start own taken
        obtain ⟨as, t, complete, all, done⟩ :=
          ih (work u) (left ▸ less) (rests.keeps s a u start taken) rfl
        exact ⟨a :: as, t, run_cons_iff.mpr ⟨u, taken, complete⟩,
          List.forall_mem_cons.mpr ⟨own, all⟩, done⟩

/-- A run that never ends and always gets back to a settling step reaches the end. -/
theorem eventually (rests : M.Settles P settles work Done) {state : Nat → σ}
    {action : Nat → α} (forever : M.Forever state action) (start : P (state 0))
    (fair : ∀ n, ¬ Done (state n) → ∃ m, n ≤ m ∧ settles (action m) = true) :
    ∃ n, Done (state n) := by
  by_contra never
  have busy : ∀ n, ¬ Done (state n) := fun n done => never ⟨n, done⟩
  have inside : ∀ n, P (state n) := fun n => rests.run start (forever.run n)
  have sinks : ∀ n k, work (state (n + k)) ≤ work (state n) := by
    intro n k
    induction k with
    | zero => exact Nat.le_refl _
    | succ k ih =>
        refine le_trans ?_ ih
        have taken := forever.step (n + k)
        cases own : settles (action (n + k)) with
        | true => exact (rests.lowers _ _ _ (inside _) own taken).le
        | false => exact rests.leaves _ _ _ (inside _) own taken
  -- Pick the state with the least work; a settling step after it leaves even less.
  obtain ⟨_, ⟨n, rfl⟩, least⟩ := WellFounded.has_min Nat.lt_wfRel.wf
    (Set.range fun n => work (state n)) ⟨_, 0, rfl⟩
  obtain ⟨m, later, own⟩ := fair n (busy n)
  have less := rests.lowers _ _ _ (inside m) own (forever.step m)
  have bound := sinks n (m - n)
  rw [Nat.add_sub_cancel' later] at bound
  exact least _ ⟨m + 1, rfl⟩ (lt_of_lt_of_le less bound)

/-- So does a run in which from some time on nothing happens that `allowed` rules out. -/
theorem eventually_only (rests : (M.only allowed).Settles P settles work Done)
    {state : Nat → σ} {action : Nat → α} (forever : M.Forever state action)
    (inside : ∀ n, P (state n)) (quiet : ∃ n, ∀ m, n ≤ m → allowed (state m) (action m) = true)
    (fair : ∀ n, ¬ Done (state n) → ∃ m, n ≤ m ∧ settles (action m) = true) :
    ∃ n, Done (state n) := by
  obtain ⟨n, quiet⟩ := quiet
  have still : (M.only allowed).Forever (fun k => state (n + k)) fun k => action (n + k) :=
    (forever.drop n).only fun k => quiet (n + k) (Nat.le_add_right n k)
  obtain ⟨k, done⟩ := rests.eventually still (inside (n + 0)) fun k busy => by
    obtain ⟨m, le, own⟩ := fair (n + k) busy
    refine ⟨m - n, by omega, ?_⟩
    rwa [Nat.add_sub_cancel' (by omega)]
  exact ⟨n + k, done⟩

end Settles

end Machine

end Interleaving
