import RangePorter.Interleaving.Refinement
import Mathlib.Data.List.Induction

/-!
# A table of bindings

The sequential table that a concurrent one should look like: a key is bound to one value or
to none, a value is bound once in its life, and a lookup answers with the value bound at
that moment. So an answer is the value of the last binding of its key, which has not been
undone since.
-/

namespace Interleaving

universe u v

variable {κ : Type u} {ν : Type v}

structure Bindings (κ : Type u) (ν : Type v) where
  bound : κ → Option ν
  /-- Every value that has been bound so far. -/
  used : List ν

namespace Bindings

inductive Event (κ : Type u) (ν : Type v) where
  /-- A lookup finds the key bound to the value. -/
  | answer (key : κ) (value : ν)
  | bind (key : κ) (value : ν)
  | unbind (key : κ) (value : ν)
  deriving DecidableEq, Repr

/-- The event makes or undoes a binding of the key. -/
def Event.Changes (key : κ) : Event κ ν → Prop
  | .answer .. => False
  | .bind key' _ | .unbind key' _ => key' = key

def empty : Bindings κ ν := ⟨fun _ => none, []⟩

variable [DecidableEq κ] [DecidableEq ν]

def set (table : Bindings κ ν) (key : κ) (value : Option ν) : κ → Option ν :=
  fun other => if other = key then value else table.bound other

omit [DecidableEq ν] in
@[simp] theorem set_self (table : Bindings κ ν) (key : κ) (value : Option ν) :
    table.set key value key = value := if_pos rfl

omit [DecidableEq ν] in
theorem set_of_ne (table : Bindings κ ν) {key other : κ} (value : Option ν) (ne : other ≠ key) :
    table.set key value other = table.bound other := if_neg ne

def step (table : Bindings κ ν) : Event κ ν → Option (Bindings κ ν)
  | .answer key value => if table.bound key = some value then some table else none
  | .bind key value =>
      if table.bound key = none ∧ value ∉ table.used then
        some ⟨table.set key (some value), table.used ++ [value]⟩
      else none
  | .unbind key value =>
      if table.bound key = some value then some { table with bound := table.set key none }
      else none

def machine : Machine (Bindings κ ν) (Event κ ν) := ⟨step⟩

variable {table table' : Bindings κ ν} {key : κ} {value : ν} {events : List (Event κ ν)}

theorem answer_iff : machine.step table (.answer key value) = some table' ↔
    table.bound key = some value ∧ table' = table := by
  simp [machine, step, eq_comm]

theorem bind_iff : machine.step table (.bind key value) = some table' ↔
    (table.bound key = none ∧ value ∉ table.used) ∧
      table' = ⟨table.set key (some value), table.used ++ [value]⟩ := by
  simp [machine, step, eq_comm]

theorem unbind_iff : machine.step table (.unbind key value) = some table' ↔
    table.bound key = some value ∧ table' = { table with bound := table.set key none } := by
  simp [machine, step, eq_comm]

/-- The last event that changed the key bound it to the value. -/
def BoundBy (events : List (Event κ ν)) (key : κ) (value : ν) : Prop :=
  ∃ before after, events = before ++ .bind key value :: after ∧
    ∀ event ∈ after, ¬ event.Changes key

omit [DecidableEq κ] [DecidableEq ν] in
theorem BoundBy.snoc {event : Event κ ν} (earlier : BoundBy events key value)
    (other : ¬ event.Changes key) : BoundBy (events ++ [event]) key value := by
  obtain ⟨before, after, rfl, quiet⟩ := earlier
  refine ⟨before, after ++ [event], by simp, ?_⟩
  intro e member
  obtain old | last := List.mem_append.mp member
  · exact quiet e old
  · rw [List.mem_singleton.mp last]
    exact other

/-- What the events say about the table they lead to. -/
structure Explains (events : List (Event κ ν)) (table : Bindings κ ν) : Prop where
  bound : ∀ key value, table.bound key = some value → BoundBy events key value
  used : table.used = events.filterMap fun
    | .bind _ value => some value
    | _ => none
  once : table.used.Nodup

theorem Explains.step {event : Event κ ν} (explains : Explains events table)
    (taken : machine.step table event = some table') : Explains (events ++ [event]) table' := by
  cases event with
  | answer key value =>
      obtain ⟨-, rfl⟩ := answer_iff.mp taken
      refine ⟨fun key value found => (explains.bound key value found).snoc id, ?_, explains.once⟩
      rw [explains.used]
      simp
  | bind key value =>
      obtain ⟨⟨-, fresh⟩, rfl⟩ := bind_iff.mp taken
      refine ⟨?_, by simp [explains.used], ?_⟩
      · intro other value' found
        by_cases same : other = key
        · subst same
          simp only [set_self, Option.some.injEq] at found
          subst found
          exact ⟨events, [], rfl, nofun⟩
        · simp only [set_of_ne _ _ same] at found
          exact (explains.bound other value' found).snoc fun changes => same changes.symm
      · rw [List.nodup_append]
        refine ⟨explains.once, by simp, ?_⟩
        rintro a member b last rfl
        rw [List.mem_singleton.mp last] at member
        exact fresh member
  | unbind key value =>
      obtain ⟨-, rfl⟩ := unbind_iff.mp taken
      refine ⟨?_, by simp [explains.used], explains.once⟩
      intro other value' found
      by_cases same : other = key
      · subst same
        simp at found
      · simp only [set_of_ne _ _ same] at found
        exact (explains.bound other value' found).snoc fun changes => same changes.symm

theorem explains_run (complete : machine.run empty events = some table) :
    Explains events table := by
  induction events using List.reverseRecOn generalizing table with
  | nil =>
      cases complete
      exact ⟨nofun, rfl, List.nodup_nil⟩
  | append_singleton events event ih =>
      obtain ⟨middle, first, rest⟩ := Machine.run_append_iff.mp complete
      obtain ⟨last, taken, done⟩ := Machine.run_cons_iff.mp rest
      cases done
      exact (ih first).step taken

/-- A lookup answers with what was bound last and has not been unbound since. -/
theorem boundBy_of_answer {before after : List (Event κ ν)}
    (complete : machine.run empty (before ++ .answer key value :: after) = some table) :
    BoundBy before key value := by
  obtain ⟨middle, first, rest⟩ := Machine.run_append_iff.mp complete
  obtain ⟨next, taken, -⟩ := Machine.run_cons_iff.mp rest
  exact (explains_run first).bound key value (answer_iff.mp taken).1

/-- Only what is bound can be unbound. -/
theorem boundBy_of_unbind {before after : List (Event κ ν)}
    (complete : machine.run empty (before ++ .unbind key value :: after) = some table) :
    BoundBy before key value := by
  obtain ⟨middle, first, rest⟩ := Machine.run_append_iff.mp complete
  obtain ⟨next, taken, -⟩ := Machine.run_cons_iff.mp rest
  exact (explains_run first).bound key value (unbind_iff.mp taken).1

end Bindings

end Interleaving
