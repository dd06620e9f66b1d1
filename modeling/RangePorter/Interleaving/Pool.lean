import RangePorter.Interleaving.Machine
import Mathlib.Algebra.BigOperators.Group.List.Basic
import Mathlib.Algebra.Order.BigOperators.Group.List
import Mathlib.Algebra.Order.Group.Nat

/-!
# Threads that interleave over shared memory

A program gives the atomic steps of one thread: from the shared memory, the
thread's own local state and a choice of the scheduler or environment, the next
memory and local state and the threads it spawns. A pool runs any number of such
threads; one action schedules one atomic step of one thread, or one step of the
environment, which may change the memory and start new threads.

Two kinds of invariant cover most proofs. A *local* invariant speaks about the
memory and one thread, and needs to survive the steps of the others
(`AllThreads`). An *accounting* invariant equates a quantity of the memory with
a sum over the threads (`InBalance`): each thread carries a weight for the work
it still owes, and one step only has to balance its own books.
-/

namespace Interleaving

universe u v w x w' x'

/-- The shared memory and the local states of all threads, finished or not. A
thread keeps its index for ever; spawned threads are appended. -/
structure Pool (σ : Type u) (τ : Type v) where
  shared : σ
  threads : List τ

/-- The atomic steps of one thread, and what the environment may do. -/
structure Program (σ : Type u) (τ : Type v) (κ : Type w) (ε : Type x) where
  step : σ → τ → κ → Option (σ × τ × List τ)
  env : σ → ε → Option (σ × List τ)

/-- Schedule a thread, or let the environment act. -/
inductive Action (κ : Type w) (ε : Type x) where
  | thread (index : Nat) (choice : κ)
  | env (event : ε)
  deriving DecidableEq

namespace Program

variable {σ : Type u} {τ : Type v} {κ : Type w} {ε : Type x}

/-- One action of the whole pool. -/
def next (P : Program σ τ κ ε) (p : Pool σ τ) : Action κ ε → Option (Pool σ τ)
  | .thread i k =>
      p.threads[i]?.bind fun t =>
        (P.step p.shared t k).map fun r => ⟨r.1, p.threads.set i r.2.1 ++ r.2.2⟩
  | .env e => (P.env p.shared e).map fun r => ⟨r.1, p.threads ++ r.2⟩

/-- The machine whose runs are all interleavings of the program's threads. -/
def machine (P : Program σ τ κ ε) : Machine (Pool σ τ) (Action κ ε) := ⟨P.next⟩

variable {P : Program σ τ κ ε}

theorem machine_thread_iff {p q : Pool σ τ} {i : Nat} {k : κ} :
    P.machine.step p (.thread i k) = some q ↔
      ∃ t sh t' new, p.threads[i]? = some t ∧ P.step p.shared t k = some (sh, t', new) ∧
        q = ⟨sh, p.threads.set i t' ++ new⟩ := by
  simp only [machine, next, Option.bind_eq_some_iff, Option.map_eq_some_iff, Prod.exists]
  constructor
  · rintro ⟨t, found, sh, t', new, taken, rfl⟩
    exact ⟨t, sh, t', new, found, taken, rfl⟩
  · rintro ⟨t, sh, t', new, found, taken, rfl⟩
    exact ⟨t, found, sh, t', new, taken, rfl⟩

theorem machine_env_iff {p q : Pool σ τ} {e : ε} :
    P.machine.step p (.env e) = some q ↔
      ∃ sh new, P.env p.shared e = some (sh, new) ∧ q = ⟨sh, p.threads ++ new⟩ := by
  simp only [machine, next, Option.map_eq_some_iff, Prod.exists]
  constructor
  · rintro ⟨sh, new, taken, rfl⟩
    exact ⟨sh, new, taken, rfl⟩
  · rintro ⟨sh, new, taken, rfl⟩
    exact ⟨sh, new, taken, rfl⟩

/-- Split a step of the pool into its two kinds. -/
theorem machine_cases {motive : Action κ ε → Pool σ τ → Prop} {p : Pool σ τ}
    (thread : ∀ i k t sh t' new, p.threads[i]? = some t →
      P.step p.shared t k = some (sh, t', new) →
      motive (.thread i k) ⟨sh, p.threads.set i t' ++ new⟩)
    (env : ∀ e sh new, P.env p.shared e = some (sh, new) →
      motive (.env e) ⟨sh, p.threads ++ new⟩)
    {a : Action κ ε} {q : Pool σ τ} (taken : P.machine.step p a = some q) : motive a q := by
  cases a with
  | thread i k =>
      obtain ⟨t, sh, t', new, found, own, rfl⟩ := machine_thread_iff.mp taken
      exact thread i k t sh t' new found own
  | env e =>
      obtain ⟨sh, new, own, rfl⟩ := machine_env_iff.mp taken
      exact env e sh new own

/-- What a thread does when it runs for a while without any other. -/
def runAlone (P : Program σ τ κ ε) : σ → τ → List κ → Option (σ × τ × List τ)
  | sh, t, [] => some (sh, t, [])
  | sh, t, k :: ks =>
      (P.step sh t k).bind fun r =>
        (P.runAlone r.1 r.2.1 ks).map fun r' => (r'.1, r'.2.1, r.2.2 ++ r'.2.2)

/-- A thread may run alone at any time. -/
theorem run_alone {p : Pool σ τ} {i : Nat} {t t' : τ} {sh : σ} {new : List τ} {ks : List κ}
    (found : p.threads[i]? = some t) (alone : P.runAlone p.shared t ks = some (sh, t', new)) :
    P.machine.run p (ks.map (.thread i)) = some ⟨sh, p.threads.set i t' ++ new⟩ := by
  induction ks generalizing p t new with
  | nil =>
      cases alone
      obtain ⟨bound, rfl⟩ := List.getElem?_eq_some_iff.mp found
      simp
  | cons k ks ih =>
      obtain ⟨⟨sh₁, t₁, new₁⟩, first, alone⟩ := Option.bind_eq_some_iff.mp alone
      obtain ⟨⟨sh₂, t₂, new₂⟩, rest, same⟩ := Option.map_eq_some_iff.mp alone
      cases same
      have bound := (List.getElem?_eq_some_iff.mp found).1
      have bound' : i < (p.threads.set i t₁).length := by simpa using bound
      have found' : (p.threads.set i t₁ ++ new₁)[i]? = some t₁ := by
        rw [List.getElem?_append_left bound']
        simp [bound]
      have taken := machine_thread_iff.mpr ⟨t, sh₁, t₁, new₁, found, first, rfl⟩
      rw [List.map_cons, Machine.run_cons_iff]
      refine ⟨_, taken, (ih (p := ⟨sh₁, _⟩) found' rest).trans ?_⟩
      simp [List.set_append_left _ _ bound', List.append_assoc]

/-- The invariant rule for pools: one obligation for the step of a thread, one for
the environment. -/
theorem reachable_induction {J : Pool σ τ → Prop} {init p : Pool σ τ}
    (reached : P.machine.Reachable init p) (start : J init)
    (thread : ∀ (p : Pool σ τ) (i : Nat) k t sh t' new, P.machine.Reachable init p → J p →
      p.threads[i]? = some t → P.step p.shared t k = some (sh, t', new) →
      J ⟨sh, p.threads.set i t' ++ new⟩)
    (env : ∀ (p : Pool σ τ) e sh new, P.machine.Reachable init p → J p →
      P.env p.shared e = some (sh, new) → J ⟨sh, p.threads ++ new⟩) : J p :=
  reached.invariant start fun p _ _ before holds taken =>
    machine_cases (motive := fun _ q => J q)
      (fun i k t sh t' new found own => thread p i k t sh t' new before holds found own)
      (fun e sh new own => env p e sh new before holds own) taken

end Program

/-! ### Threads after a step -/

section Lookup

variable {τ : Type v} {ts new : List τ} {i j : Nat} {t' u : τ}

/-- After one thread's step a position holds that thread, an older one or a new one. -/
theorem lookup_thread (bound : i < ts.length) (found : (ts.set i t' ++ new)[j]? = some u) :
    j = i ∧ u = t' ∨ j ≠ i ∧ ts[j]? = some u ∨ ts.length ≤ j ∧ u ∈ new := by
  by_cases inside : j < ts.length
  · rw [List.getElem?_append_left (by simpa using inside)] at found
    by_cases own : i = j
    · subst own
      rw [List.getElem?_set_self bound, Option.some.injEq] at found
      exact .inl ⟨rfl, found.symm⟩
    · rw [List.getElem?_set_ne own] at found
      exact .inr (.inl ⟨Ne.symm own, found⟩)
  · rw [List.getElem?_append_right (by simpa using inside)] at found
    exact .inr (.inr ⟨Nat.not_lt.mp inside, List.mem_of_getElem? found⟩)

theorem lookup_env (found : (ts ++ new)[j]? = some u) :
    ts[j]? = some u ∨ ts.length ≤ j ∧ u ∈ new := by
  by_cases inside : j < ts.length
  · rw [List.getElem?_append_left inside] at found
    exact .inl found
  · rw [List.getElem?_append_right (Nat.not_lt.mp inside)] at found
    exact .inr ⟨Nat.not_lt.mp inside, List.mem_of_getElem? found⟩

/-- The threads of before keep their positions. -/
theorem lookup_other (found : ts[j]? = some u) (other : j ≠ i) :
    (ts.set i t' ++ new)[j]? = some u := by
  have inside : j < ts.length := (List.getElem?_eq_some_iff.mp found).1
  rw [List.getElem?_append_left (by simpa using inside), List.getElem?_set_ne (Ne.symm other),
    found]

/-- What holds at a position stays when another thread takes a step, if it holds of the new
threads. -/
theorem lookup_frame {P : Option τ → Prop} (bound : i < ts.length) (other : j ≠ i)
    (before : P ts[j]?) (fresh : ts[j]? = none → ∀ u ∈ new, P (some u)) :
    P (ts.set i t' ++ new)[j]? := by
  cases old : ts[j]? with
  | some u =>
      rw [lookup_other old other]
      exact old ▸ before
  | none =>
      cases found : (ts.set i t' ++ new)[j]? with
      | none => exact old ▸ before
      | some u =>
          obtain ⟨own, -⟩ | ⟨-, older⟩ | ⟨-, spawned⟩ := lookup_thread bound found
          · exact absurd own other
          · rw [old] at older
            cases older
          · exact fresh old u spawned

theorem lookup_self (bound : i < ts.length) : (ts.set i t' ++ new)[i]? = some t' := by
  rw [List.getElem?_append_left (by simpa using bound), List.getElem?_set_self bound]

theorem lookup_append (found : ts[j]? = some u) : (ts ++ new)[j]? = some u := by
  rw [List.getElem?_append_left (List.getElem?_eq_some_iff.mp found).1, found]

end Lookup

/-! ### Sums over threads -/

section Weight

variable {τ : Type v}

/-- The sum of a weight over all threads. -/
def weight (w : τ → Nat) (ts : List τ) : Nat := (ts.map w).sum

@[simp] theorem weight_nil (w : τ → Nat) : weight w [] = 0 := rfl

@[simp] theorem weight_cons (w : τ → Nat) (t : τ) (ts : List τ) :
    weight w (t :: ts) = w t + weight w ts := by
  simp [weight]

@[simp] theorem weight_append (w : τ → Nat) (ts us : List τ) :
    weight w (ts ++ us) = weight w ts + weight w us := by
  simp [weight]

@[simp] theorem weight_zero (ts : List τ) : weight (fun _ => 0) ts = 0 := by
  induction ts with
  | nil => rfl
  | cons t ts ih => simp [ih]

theorem weight_map {α : Type w} (w : τ → Nat) (f : α → τ) (l : List α) :
    weight w (l.map f) = (l.map fun a => w (f a)).sum := by
  simp [weight, Function.comp_def]

/-- Replacing one thread trades its old weight for its new one. -/
theorem weight_set (w : τ → Nat) {ts : List τ} {i : Nat} {t : τ} (t' : τ)
    (found : ts[i]? = some t) : weight w (ts.set i t') + w t = weight w ts + w t' := by
  induction ts generalizing i with
  | nil => simp at found
  | cons u ts ih =>
      cases i with
      | zero =>
          simp only [List.getElem?_cons_zero, Option.some.injEq] at found
          subst found
          simp only [List.set_cons_zero, weight_cons]
          omega
      | succ i =>
          have rest := ih (by simpa using found)
          simp only [List.set_cons_succ, weight_cons]
          omega

theorem weight_modify (w : τ → Nat) {ts : List τ} {i : Nat} {t : τ} (f : τ → τ)
    (found : ts[i]? = some t) : weight w (ts.modify i f) + w t = weight w ts + w (f t) := by
  have same : ts.modify i f = ts.set i (f t) := by
    apply List.ext_getElem?
    intro j
    rw [List.getElem?_modify, List.getElem?_set]
    by_cases here : i = j
    · subst here
      obtain ⟨bound, rfl⟩ := List.getElem?_eq_some_iff.mp found
      simp [bound]
    · simp [here]
  rw [same]
  exact weight_set w (f t) found

theorem le_weight (w : τ → Nat) {ts : List τ} {i : Nat} {t : τ}
    (found : ts[i]? = some t) : w t ≤ weight w ts := by
  induction ts generalizing i with
  | nil => simp at found
  | cons u ts ih =>
      cases i with
      | zero =>
          simp only [List.getElem?_cons_zero, Option.some.injEq] at found
          subst found
          simp
      | succ i =>
          have rest := ih (by simpa using found)
          simp only [weight_cons]
          omega

theorem weight_eq_zero_iff {w : τ → Nat} {ts : List τ} :
    weight w ts = 0 ↔ ∀ t ∈ ts, w t = 0 := by
  induction ts with
  | nil => simp
  | cons t ts ih => simp [ih, Nat.add_eq_zero_iff]

theorem weight_le_weight {w w' : τ → Nat} {ts : List τ} (le : ∀ t ∈ ts, w t ≤ w' t) :
    weight w ts ≤ weight w' ts := by
  induction ts with
  | nil => simp
  | cons t ts ih =>
      have head := le t (List.mem_cons_self ..)
      have tail := ih fun u member => le u (List.mem_cons_of_mem t member)
      simp only [weight_cons]
      omega

theorem weight_add (w w' : τ → Nat) (ts : List τ) :
    weight (fun t => w t + w' t) ts = weight w ts + weight w' ts := by
  induction ts with
  | nil => rfl
  | cons t ts ih => simp only [weight_cons, ih]; omega

/-- Sums over threads and over a range commute. -/
theorem sum_weight (w : Nat → τ → Nat) (n : Nat) (ts : List τ) :
    ((List.range n).map fun i => weight (w i) ts).sum =
      weight (fun t => ((List.range n).map fun i => w i t).sum) ts := by
  induction n with
  | zero => simp
  | succ n ih => simp [List.range_succ, ih, weight_add]

/-- A sum with one term only. -/
theorem sum_range_of_unique {f : Nat → Nat} {k : Nat} (other : ∀ i, i ≠ k → f i = 0) (n : Nat) :
    ((List.range n).map f).sum = if k < n then f k else 0 := by
  induction n with
  | zero => simp
  | succ n ih =>
      simp only [List.range_succ, List.map_append, List.sum_append, List.map_singleton,
        List.sum_singleton, ih]
      rcases Nat.lt_trichotomy k n with low | rfl | high
      · simp [low, Nat.lt_succ_of_lt low, other n (Nat.ne_of_gt low)]
      · simp
      · have beyond : ¬ k < n + 1 := by omega
        simp [Nat.not_lt_of_gt high, beyond, other n (Nat.ne_of_lt high)]

/-- A sum in which one term is replaced. -/
theorem sum_range_update (f : Nat → Nat) {k n : Nat} (bound : k < n) (x : Nat) :
    ((List.range n).map fun i => if i = k then x else f i).sum + f k =
      ((List.range n).map f).sum + x := by
  induction n with
  | zero => cases bound
  | succ n ih =>
      simp only [List.range_succ, List.map_append, List.sum_append, List.map_singleton,
        List.sum_singleton]
      obtain low | same := Nat.lt_succ_iff_lt_or_eq.mp bound
      · have rest := ih low
        simp only [Nat.ne_of_gt low, if_false]
        omega
      · subst same
        have others : (List.range k).map (fun i => if i = k then x else f i) =
            (List.range k).map f := by
          apply List.map_congr_left
          intro i member
          exact if_neg (Nat.ne_of_lt (List.mem_range.mp member))
        rw [others, if_pos rfl]
        omega

/-- More terms, all of them zero. -/
theorem sum_range_extend {f : Nat → Nat} {n m : Nat} (le : n ≤ m) (zero : ∀ i, n ≤ i → f i = 0) :
    ((List.range m).map f).sum = ((List.range n).map f).sum := by
  induction le with
  | refl => rfl
  | @step m le ih => simp [List.range_succ, ih, zero m le]

/-- A sum over a list, position by position. -/
theorem sum_range_getElem? {α : Type w} (l : List α) (f : α → Nat) :
    ((List.range l.length).map fun i => (l[i]?.map f).getD 0).sum = (l.map f).sum := by
  congr 1
  apply List.ext_getElem (by simp)
  intro i _ bound
  rw [List.length_map] at bound
  simp [List.getElem?_eq_getElem bound]

/-- Sums over a list compare as its items do, with an allowance for each position. -/
theorem sum_map_le {α : Type w} {l : List α} {f g : α → Nat} {h : Nat → Nat}
    (le : ∀ (i : Nat) a, l[i]? = some a → f a ≤ g a + h i) :
    (l.map f).sum ≤ (l.map g).sum + ((List.range l.length).map h).sum := by
  rw [← sum_range_getElem? l f, ← sum_range_getElem? l g, ← List.sum_map_add]
  apply List.sum_le_sum
  intro i member
  have found := List.getElem?_eq_getElem (List.mem_range.mp member)
  simpa [found] using le i _ found

theorem sum_range_le {α : Type w} {l : List α} {f h : Nat → Nat} {g : α → Nat}
    (le : ∀ (i : Nat) a, l[i]? = some a → f i ≤ g a + h i) :
    ((List.range l.length).map f).sum ≤ (l.map g).sum + ((List.range l.length).map h).sum := by
  rw [← sum_range_getElem? l g, ← List.sum_map_add]
  apply List.sum_le_sum
  intro i member
  have found := List.getElem?_eq_getElem (List.mem_range.mp member)
  simpa [found] using le i _ found

/-- Two threads that both count cannot share a total of at most one. -/
theorem index_unique_of_weight_le_one {w : τ → Nat} {ts : List τ} {i j : Nat} {t u : τ}
    (total : weight w ts ≤ 1) (first : ts[i]? = some t) (second : ts[j]? = some u)
    (positive : 0 < w t) (positive' : 0 < w u) : i = j := by
  induction ts generalizing i j with
  | nil => simp at first
  | cons x ts ih =>
      simp only [weight_cons] at total
      cases i with
      | zero =>
          cases j with
          | zero => rfl
          | succ j =>
              simp only [List.getElem?_cons_zero, Option.some.injEq] at first
              subst first
              have counted : w u ≤ weight w ts := le_weight w (i := j) (by simpa using second)
              omega
      | succ i =>
          cases j with
          | zero =>
              simp only [List.getElem?_cons_zero, Option.some.injEq] at second
              subst second
              have counted : w t ≤ weight w ts := le_weight w (i := i) (by simpa using first)
              omega
          | succ j =>
              exact congrArg Nat.succ
                (ih (by omega) (by simpa using first) (by simpa using second))

end Weight

/-! ### Local and accounting invariants -/

section Invariants

variable {σ : Type u} {τ : Type v} {p : Pool σ τ} {i : Nat} {t t' : τ} {sh : σ} {new : List τ}

/-- `L` holds between the memory and every thread. -/
def AllThreads (L : σ → τ → Prop) (p : Pool σ τ) : Prop := ∀ t ∈ p.threads, L p.shared t

theorem AllThreads.get {L : σ → τ → Prop} (h : AllThreads L p) (found : p.threads[i]? = some t) :
    L p.shared t := h t (List.mem_of_getElem? found)

/-- The stepping thread and the threads it spawns establish `L` themselves; for
all others the step must not interfere. -/
theorem AllThreads.thread {L : σ → τ → Prop} (before : AllThreads L p) (own : L sh t')
    (spawned : ∀ u ∈ new, L sh u) (frame : ∀ u ∈ p.threads, L p.shared u → L sh u) :
    AllThreads L ⟨sh, p.threads.set i t' ++ new⟩ := by
  intro u member
  rcases List.mem_append.mp member with member | member
  · rcases List.mem_or_eq_of_mem_set member with member | rfl
    · exact frame u member (before u member)
    · exact own
  · exact spawned u member

theorem AllThreads.env {L : σ → τ → Prop} (before : AllThreads L p)
    (spawned : ∀ u ∈ new, L sh u) (frame : ∀ u ∈ p.threads, L p.shared u → L sh u) :
    AllThreads L ⟨sh, p.threads ++ new⟩ := by
  intro u member
  rcases List.mem_append.mp member with member | member
  · exact frame u member (before u member)
  · exact spawned u member

/-- The memory's credit and the threads' weights match the memory's debit and
the weights on the other side. -/
def InBalance (f g : σ → Nat) (w v : τ → Nat) (p : Pool σ τ) : Prop :=
  f p.shared + weight w p.threads = g p.shared + weight v p.threads

variable {f g : σ → Nat} {w v : τ → Nat}

/-- A step keeps the books if its own entries match: the weights of all other
threads cancel. -/
theorem InBalance.thread (before : InBalance f g w v p) (found : p.threads[i]? = some t)
    (change : f sh + w t' + weight w new + (g p.shared + v t) =
      f p.shared + w t + (g sh + v t' + weight v new)) :
    InBalance f g w v ⟨sh, p.threads.set i t' ++ new⟩ := by
  have left := weight_set w t' found
  have right := weight_set v t' found
  unfold InBalance at before ⊢
  simp only [weight_append]
  omega

theorem InBalance.env (before : InBalance f g w v p)
    (change : f sh + weight w new + g p.shared = f p.shared + (g sh + weight v new)) :
    InBalance f g w v ⟨sh, p.threads ++ new⟩ := by
  unfold InBalance at before ⊢
  simp only [weight_append]
  omega

/-- The memory's charge and the threads' weights together stay within the
memory's allowance. -/
def Bounded (f g : σ → Nat) (w : τ → Nat) (p : Pool σ τ) : Prop :=
  f p.shared + weight w p.threads ≤ g p.shared

theorem Bounded.thread (before : Bounded f g w p) (found : p.threads[i]? = some t)
    (change : f sh + w t' + weight w new + g p.shared ≤ f p.shared + w t + g sh) :
    Bounded f g w ⟨sh, p.threads.set i t' ++ new⟩ := by
  have exchange := weight_set w t' found
  unfold Bounded at before ⊢
  simp only [weight_append]
  omega

theorem Bounded.env (before : Bounded f g w p)
    (change : f sh + weight w new + g p.shared ≤ f p.shared + g sh) :
    Bounded f g w ⟨sh, p.threads ++ new⟩ := by
  unfold Bounded at before ⊢
  simp only [weight_append]
  omega

section Rules

variable {κ : Type w'} {ε : Type x'} {P : Program σ τ κ ε} {init : Pool σ τ}

/-- A balance that every step and every environment action keeps holds in every
reachable pool. -/
theorem InBalance.of_reachable (reached : P.machine.Reachable init p)
    (start : InBalance f g w v init)
    (thread : ∀ (p : Pool σ τ) (i : Nat) k t sh t' new, P.machine.Reachable init p →
      InBalance f g w v p → p.threads[i]? = some t → P.step p.shared t k = some (sh, t', new) →
      f sh + w t' + weight w new + (g p.shared + v t) =
        f p.shared + w t + (g sh + v t' + weight v new))
    (env : ∀ (p : Pool σ τ) e sh new, P.machine.Reachable init p →
      P.env p.shared e = some (sh, new) →
      f sh + weight w new + g p.shared = f p.shared + (g sh + weight v new)) :
    InBalance f g w v p :=
  Program.reachable_induction reached start
    (fun p i k t sh t' new reached before found taken =>
      before.thread found (thread p i k t sh t' new reached before found taken))
    (fun p e sh new reached before taken => before.env (env p e sh new reached taken))

theorem Bounded.of_reachable (reached : P.machine.Reachable init p)
    (start : Bounded f g w init)
    (thread : ∀ (p : Pool σ τ) (i : Nat) k t sh t' new, P.machine.Reachable init p →
      Bounded f g w p → p.threads[i]? = some t → P.step p.shared t k = some (sh, t', new) →
      f sh + w t' + weight w new + g p.shared ≤ f p.shared + w t + g sh)
    (env : ∀ (p : Pool σ τ) e sh new, P.machine.Reachable init p →
      P.env p.shared e = some (sh, new) →
      f sh + weight w new + g p.shared ≤ f p.shared + g sh) :
    Bounded f g w p :=
  Program.reachable_induction reached start
    (fun p i k t sh t' new reached before found taken =>
      before.thread found (thread p i k t sh t' new reached before found taken))
    (fun p e sh new reached before taken => before.env (env p e sh new reached taken))

/-- A local invariant that every step establishes for its own thread and for the
threads it spawns, and keeps for all others, holds in every reachable pool. -/
theorem AllThreads.of_reachable {L : σ → τ → Prop} (reached : P.machine.Reachable init p)
    (start : AllThreads L init)
    (thread : ∀ (p : Pool σ τ) (i : Nat) k t sh t' new, P.machine.Reachable init p →
      AllThreads L p → p.threads[i]? = some t → P.step p.shared t k = some (sh, t', new) →
      L sh t' ∧ (∀ u ∈ new, L sh u) ∧ ∀ u ∈ p.threads, L p.shared u → L sh u)
    (env : ∀ (p : Pool σ τ) e sh new, P.machine.Reachable init p →
      P.env p.shared e = some (sh, new) →
      (∀ u ∈ new, L sh u) ∧ ∀ u ∈ p.threads, L p.shared u → L sh u) :
    AllThreads L p :=
  Program.reachable_induction reached start
    (fun p i k t sh t' new reached before found taken => by
      obtain ⟨own, spawned, frame⟩ := thread p i k t sh t' new reached before found taken
      exact before.thread own spawned frame)
    (fun p e sh new reached before taken => by
      obtain ⟨spawned, frame⟩ := env p e sh new reached taken
      exact before.env spawned frame)

end Rules

end Invariants

end Interleaving
