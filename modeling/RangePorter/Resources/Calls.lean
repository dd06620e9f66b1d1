import Mathlib.Logic.Basic

/-!
# Resources acquired by fallible calls

A program makes calls to a system, and any of them may fail. Some calls open a resource,
which is closed when its owner is dropped. A program that fails on the way drops what it
holds by then, and adds what it was doing to the error.

`Follows` describes such a program by the calls that it makes if none fails: the first
call that does fail decides the error, and nothing stays open.
-/

namespace Resources

universe u

/-- A resource, named by the position of the call that opened it. -/
abbrev Handle := Nat

/-- Which calls fail, by their position, and with which message. -/
abbrev Kernel := Nat → Option String

structure System (κ : Type u) where
  made : List κ
  opened : List Handle
  deriving DecidableEq, Repr

/-- Errors are chains of messages, the outermost first. -/
def Program (κ : Type u) (α : Type) : Type u :=
  Kernel → System κ → Except (List String) α × System κ

namespace Program

variable {κ : Type u} {α β : Type}

def pure (a : α) : Program κ α := fun _ system => (.ok a, system)

def bind (p : Program κ α) (q : α → Program κ β) : Program κ β := fun kernel system =>
  match p kernel system with
  | (.ok a, system) => q a kernel system
  | (.error error, system) => (.error error, system)

instance : Monad (Program κ) where
  pure := pure
  bind := bind

/-- One call that opens nothing. -/
def call (c : κ) : Program κ Unit := fun kernel system =>
  (match kernel system.made.length with
    | none => .ok ()
    | some message => .error [message], { system with made := system.made ++ [c] })

/-- One call that opens a resource. -/
def acquire (c : κ) : Program κ Handle := fun kernel system =>
  match kernel system.made.length with
  | none => (.ok system.made.length,
      ⟨system.made ++ [c], system.opened ++ [system.made.length]⟩)
  | some message => (.error [message], { system with made := system.made ++ [c] })

/-- Calls that open nothing, one after the other. -/
def sequence : List κ → Program κ Unit
  | [] => pure ()
  | c :: cs => (call c).bind fun _ => sequence cs

/-- The scope that owns these resources: an early return closes them. -/
def holding (handles : List Handle) (p : Program κ α) : Program κ α := fun kernel system =>
  match p kernel system with
  | (.ok a, system) => (.ok a, system)
  | (.error error, system) =>
      (.error error, { system with opened := system.opened.filter (· ∉ handles) })

/-- `with_context`. -/
def context (message : String) (p : Program κ α) : Program κ α := fun kernel system =>
  match p kernel system with
  | (.ok a, system) => (.ok a, system)
  | (.error error, system) => (.error (message :: error), system)

end Program

/-! ### Plans -/

/-- The calls to make, each with what is added to its error; the value that is returned if
none fails, and the resources that are open then. -/
structure Plan (κ : Type u) (α : Type) where
  calls : List (List String × κ)
  value : α
  handles : List Handle

/-- How many calls are made up to the first one that fails, and the error. -/
def failure {κ : Type u} (kernel : Kernel) : Nat → List (List String × κ) →
    Option (Nat × List String)
  | _, [] => none
  | n, (contexts, _) :: calls =>
      match kernel n with
      | some message => some (1, contexts ++ [message])
      | none => (failure kernel (n + 1) calls).map fun f => (f.1 + 1, f.2)

variable {κ : Type u} {α β : Type} {kernel : Kernel} {n : Nat}
  {calls more : List (List String × κ)}

theorem failure_append :
    failure kernel n (calls ++ more) =
      match failure kernel n calls with
      | some f => some f
      | none => (failure kernel (n + calls.length) more).map
          fun f => (f.1 + calls.length, f.2) := by
  induction calls generalizing n with
  | nil => simp [failure]
  | cons call calls ih =>
      simp only [List.cons_append, failure]
      cases kernel n with
      | some message => rfl
      | none =>
          rw [ih]
          cases failure kernel (n + 1) calls with
          | some f => rfl
          | none =>
              simp [Nat.add_assoc, Nat.add_comm, Nat.add_left_comm, Function.comp_def]

theorem failure_le {f : Nat × List String} (fails : failure kernel n calls = some f) :
    f.1 ≤ calls.length := by
  induction calls generalizing n f with
  | nil => cases fails
  | cons call calls ih =>
      rw [failure] at fails
      split at fails
      · cases fails
        exact Nat.le_add_left ..
      · obtain ⟨g, later, rfl⟩ := Option.map_eq_some_iff.mp fails
        exact Nat.succ_le_succ (ih later)

theorem failure_eq_none_iff :
    failure kernel n calls = none ↔ ∀ i < calls.length, kernel (n + i) = none := by
  induction calls generalizing n with
  | nil => simp [failure]
  | cons call calls ih =>
      rw [failure]
      split
      · rename_i message fails
        simp only [reduceCtorEq, false_iff]
        intro succeeds
        have first := succeeds 0 (Nat.zero_lt_succ _)
        rw [Nat.add_zero, fails] at first
        cases first
      · rename_i succeeds
        rw [Option.map_eq_none_iff, ih]
        constructor
        · intro rest i bound
          cases i with
          | zero => exact succeeds
          | succ i =>
              rw [Nat.add_comm i, ← Nat.add_assoc]
              exact rest i (Nat.lt_of_succ_lt_succ bound)
        · intro all i bound
          rw [Nat.add_assoc, Nat.add_comm 1]
          exact all (i + 1) (Nat.succ_lt_succ bound)

theorem failure_of_first {i : Nat} {contexts : List String} {c : κ} {message : String}
    (found : calls[i]? = some (contexts, c)) (fails : kernel (n + i) = some message)
    (first : ∀ j < i, kernel (n + j) = none) :
    failure kernel n calls = some (i + 1, contexts ++ [message]) := by
  induction calls generalizing n i with
  | nil => cases found
  | cons call calls ih =>
      cases i with
      | zero =>
          rw [List.getElem?_cons_zero, Option.some.injEq] at found
          rw [found, failure, ← Nat.add_zero n, fails]
      | succ i =>
          have passes : kernel n = none := first 0 (Nat.zero_lt_succ i)
          have later : failure kernel (n + 1) calls = some (i + 1, contexts ++ [message]) := by
            apply ih found
            · rw [Nat.add_assoc, Nat.add_comm 1]
              exact fails
            · intro j below
              rw [Nat.add_assoc, Nat.add_comm 1]
              exact first (j + 1) (Nat.succ_lt_succ below)
          rw [failure, passes, later]
          rfl

/-- What a program does that follows the plan. -/
def Plan.outcome (plan : Plan κ α) (kernel : Kernel) (system : System κ) :
    Except (List String) α × System κ :=
  match failure kernel system.made.length plan.calls with
  | none => (.ok plan.value,
      ⟨system.made ++ plan.calls.map Prod.snd, system.opened ++ plan.handles⟩)
  | some (count, error) => (.error error,
      ⟨system.made ++ (plan.calls.map Prod.snd).take count, system.opened⟩)

/-- Open resources have been opened by calls that were made. -/
def System.Older (system : System κ) : Prop :=
  ∀ h : Nat, h ∈ system.opened → h < system.made.length

/-- The program follows the plan for the position of its first call. -/
structure Follows (p : Program κ α) (plan : Nat → Plan κ α) : Prop where
  runs : ∀ kernel system, system.Older →
    p kernel system = (plan system.made.length).outcome kernel system
  fresh : ∀ n h : Nat, h ∈ (plan n).handles → n ≤ h ∧ h < n + (plan n).calls.length

namespace Follows

variable {p : Program κ α} {plan : Nat → Plan κ α} {system : System κ}

/-- If no call fails, all of them are made and all resources stay open. -/
theorem succeeds (follows : Follows p plan) (older : system.Older)
    (passes : ∀ i < (plan system.made.length).calls.length,
      kernel (system.made.length + i) = none) :
    p kernel system = (.ok (plan system.made.length).value,
      ⟨system.made ++ (plan system.made.length).calls.map Prod.snd,
        system.opened ++ (plan system.made.length).handles⟩) := by
  rw [follows.runs kernel system older, Plan.outcome, failure_eq_none_iff.mpr passes]

/-- The first call that fails is the last one made, and nothing stays open. -/
theorem fails (follows : Follows p plan) (older : system.Older) {i : Nat}
    {contexts : List String} {c : κ} {message : String}
    (found : (plan system.made.length).calls[i]? = some (contexts, c))
    (fails : kernel (system.made.length + i) = some message)
    (first : ∀ j < i, kernel (system.made.length + j) = none) :
    p kernel system = (.error (contexts ++ [message]),
      ⟨system.made ++ ((plan system.made.length).calls.map Prod.snd).take (i + 1),
        system.opened⟩) := by
  rw [follows.runs kernel system older, Plan.outcome, failure_of_first found fails first]

end Follows

/-! ### Rules -/

/-- The calls of one plan, and then those of another one for what the first returns. -/
def Plan.andThen (first : Plan κ α) (n : Nat) (rest : α → Nat → Plan κ β) : Plan κ β :=
  let next := rest first.value (n + first.calls.length)
  ⟨first.calls ++ next.calls, next.value, first.handles ++ next.handles⟩

def Plan.context (plan : Plan κ α) (message : String) : Plan κ α :=
  { plan with calls := plan.calls.map fun call => (message :: call.1, call.2) }

namespace Follows

theorem pure (a : α) : Follows (κ := κ) (Program.pure a) fun _ => ⟨[], a, []⟩ where
  runs kernel system _ := by simp [Program.pure, Plan.outcome, failure]
  fresh _ _ member := absurd member List.not_mem_nil

theorem call (c : κ) : Follows (Program.call c) fun _ => ⟨[([], c)], (), []⟩ where
  runs kernel system _ := by
    cases fails : kernel system.made.length <;>
      simp [Program.call, Plan.outcome, failure, fails]
  fresh _ _ member := absurd member List.not_mem_nil

theorem acquire (c : κ) : Follows (Program.acquire c) fun n => ⟨[([], c)], n, [n]⟩ where
  runs kernel system _ := by
    cases fails : kernel system.made.length <;>
      simp [Program.acquire, Plan.outcome, failure, fails]
  fresh n h member := by
    rw [List.mem_singleton.mp member]
    exact ⟨Nat.le_refl n, Nat.lt_succ_self n⟩

theorem failure_context (message : String) :
    failure kernel n (calls.map fun call => (message :: call.1, call.2)) =
      (failure kernel n calls).map fun f => (f.1, message :: f.2) := by
  induction calls generalizing n with
  | nil => rfl
  | cons call calls ih =>
      simp only [List.map_cons, failure]
      cases kernel n with
      | some cause => rfl
      | none =>
          rw [ih, Option.map_map, Option.map_map]
          rfl

theorem context {p : Program κ α} {plan : Nat → Plan κ α} (follows : Follows p plan)
    (message : String) : Follows (p.context message) fun n => (plan n).context message where
  runs kernel system older := by
    rw [Program.context, follows.runs kernel system older]
    simp only [Plan.outcome, Plan.context, failure_context]
    cases failure kernel system.made.length (plan system.made.length).calls <;>
      simp [Function.comp_def]
  fresh n h member := by
    have bounds := follows.fresh n h member
    simpa [Plan.context] using bounds

/-- What the first program has opened is held while the second one runs. -/
theorem andThen {p : Program κ α} {q : α → Program κ β} {first : Nat → Plan κ α}
    {rest : α → Nat → Plan κ β} (followsFirst : Follows p first) (held : α → List Handle)
    (followsRest : ∀ a, Follows (q a) (rest a))
    (owns : ∀ n, (first n).handles = held (first n).value) :
    Follows (p >>= fun a => (q a).holding (held a)) fun n => (first n).andThen n rest where
  runs kernel system older := by
    have start := followsFirst.runs kernel system older
    have fresh := followsFirst.fresh system.made.length
    have owned := owns system.made.length
    change (p.bind fun a => (q a).holding (held a)) kernel system = _
    rw [Program.bind, start]
    generalize first system.made.length = plan at fresh owned
    cases fails : failure kernel system.made.length plan.calls with
    | some f =>
        have short : f.1 ≤ (plan.calls.map Prod.snd).length := by
          rw [List.length_map]
          exact failure_le fails
        simp [Plan.outcome, Plan.andThen, failure_append, fails,
          List.take_append_of_le_length short]
    | none =>
        have older' : System.Older ⟨system.made ++ plan.calls.map Prod.snd,
            system.opened ++ plan.handles⟩ := by
          intro h member
          rw [List.length_append, List.length_map]
          obtain before | own := List.mem_append.mp member
          · exact Nat.lt_add_right _ (older h before)
          · exact (fresh h own).2
        -- Nothing that was open before is among what is dropped.
        have kept : (system.opened ++ plan.handles).filter (· ∉ plan.handles) = system.opened := by
          rw [List.filter_append, List.filter_eq_self.mpr, List.filter_eq_nil_iff.mpr,
            List.append_nil]
          · simp
          · intro h member
            refine decide_eq_true fun own => ?_
            exact Nat.lt_irrefl _ (Nat.lt_of_lt_of_le (older h member) (fresh h own).1)
        have more := (followsRest plan.value).runs kernel _ older'
        simp only [Plan.outcome, fails, Program.holding, more, Plan.andThen, failure_append,
          List.length_append, List.length_map]
        generalize rest plan.value (system.made.length + plan.calls.length) = next
        cases failure kernel (system.made.length + plan.calls.length) next.calls with
        | some f =>
            have count : f.1 + plan.calls.length = (plan.calls.map Prod.snd).length + f.1 := by
              rw [List.length_map, Nat.add_comm]
            simp only [Option.map_some]
            rw [← owned, kept, List.map_append, count, List.take_length_add_append,
              List.append_assoc]
        | none => simp
  fresh n h member := by
    obtain early | late := List.mem_append.mp member
    · have bounds := followsFirst.fresh n h early
      simp only [Plan.andThen, List.length_append]
      omega
    · have bounds := (followsRest _).fresh _ h late
      simp only [Plan.andThen, List.length_append]
      omega

theorem congr {p : Program κ α} {plan plan' : Nat → Plan κ α} (follows : Follows p plan)
    (same : ∀ n, plan n = plan' n) : Follows p plan' :=
  (funext same : plan = plan') ▸ follows

theorem holding_nil (p : Program κ α) : p.holding [] = p := by
  funext kernel system
  rw [Program.holding]
  split
  · rename_i run
    exact run.symm
  · rename_i error after run
    rw [run, List.filter_eq_self.mpr (by simp)]

/-- What the first program leaves open needs no owner if there is nothing. -/
theorem bind {p : Program κ α} {q : α → Program κ β} {first : Nat → Plan κ α}
    {rest : α → Nat → Plan κ β} (followsFirst : Follows p first)
    (followsRest : ∀ a, Follows (q a) (rest a)) (nothing : ∀ n, (first n).handles = []) :
    Follows (p >>= q) fun n => (first n).andThen n rest := by
  have owned := followsFirst.andThen (fun _ => []) followsRest nothing
  simpa only [holding_nil] using owned

/-- What is done with the result makes no difference to the calls. -/
theorem map {p : Program κ α} {plan : Nat → Plan κ α} (follows : Follows p plan) (f : α → β) :
    Follows (p >>= fun a => Program.pure (f a)) fun n =>
      ⟨(plan n).calls, f (plan n).value, (plan n).handles⟩ where
  runs kernel system older := by
    change (p.bind fun a => Program.pure (f a)) kernel system = _
    rw [Program.bind, follows.runs kernel system older]
    simp only [Plan.outcome]
    cases failure kernel system.made.length (plan system.made.length).calls <;> rfl
  fresh := follows.fresh

theorem sequence (cs : List κ) :
    Follows (Program.sequence cs) fun _ => ⟨cs.map fun c => ([], c), (), []⟩ := by
  induction cs with
  | nil => exact Follows.pure ()
  | cons c cs ih => exact (Follows.call c).bind (fun _ => ih) fun _ => rfl

end Follows

end Resources
