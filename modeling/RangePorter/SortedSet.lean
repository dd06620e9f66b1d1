import Mathlib.Order.Defs.LinearOrder

/-!
# Ordered sets

A set of ordered values is kept as its strictly ascending list of members.
-/

/-- A list in strictly ascending order. -/
structure SortedSet (α : Type) [LT α] where
  toList : List α
  ascending : toList.Pairwise (· < ·)

namespace SortedSet

variable {α : Type} [LT α]

def empty : SortedSet α := ⟨[], List.Pairwise.nil⟩

@[simp] theorem toList_empty : (empty : SortedSet α).toList = [] := rfl

variable [DecidableLT α]

/-- The list with one more member, at its place. A member stays as it is. -/
def insertSorted (x : α) : List α → List α
  | [] => [x]
  | y :: ys =>
      if x < y then x :: y :: ys
      else if y < x then y :: insertSorted x ys
      else y :: ys

variable [LE α] [Std.IsLinearOrder α] [Std.LawfulOrderLT α] {x y : α}

theorem mem_insertSorted {xs : List α} : y ∈ insertSorted x xs ↔ y = x ∨ y ∈ xs := by
  induction xs with
  | nil => simp [insertSorted]
  | cons z zs ih =>
      unfold insertSorted
      split
      · simp
      · split
        · rw [List.mem_cons, ih, List.mem_cons, or_left_comm]
        · rename_i notBelow notAbove
          have same : x = z := Std.le_antisymm (Std.not_lt.1 notAbove) (Std.not_lt.1 notBelow)
          simp [same]

theorem insertSorted_ascending {xs : List α} (ascending : xs.Pairwise (· < ·)) :
    (insertSorted x xs).Pairwise (· < ·) := by
  induction ascending with
  | nil => simp [insertSorted]
  | @cons y ys below ascending ih =>
      unfold insertSorted
      split
      · rename_i first
        refine .cons ?_ (.cons below ascending)
        intro z mem
        cases mem with
        | head => exact first
        | tail _ mem => exact Std.lt_trans first (below z mem)
      · split
        · rename_i above
          refine .cons ?_ ih
          intro z mem
          cases mem_insertSorted.1 mem with
          | inl same => exact same ▸ above
          | inr mem => exact below z mem
        · exact .cons below ascending

def insert (set : SortedSet α) (x : α) : SortedSet α :=
  ⟨insertSorted x set.toList, insertSorted_ascending set.ascending⟩

def extend (set : SortedSet α) (xs : List α) : SortedSet α := xs.foldl insert set

variable {set : SortedSet α} {xs : List α}

@[simp] theorem mem_insert : y ∈ (set.insert x).toList ↔ y = x ∨ y ∈ set.toList :=
  mem_insertSorted

@[simp] theorem mem_extend : y ∈ (set.extend xs).toList ↔ y ∈ xs ∨ y ∈ set.toList := by
  induction xs generalizing set with
  | nil => simp [extend]
  | cons x xs ih =>
      rw [extend, List.foldl_cons, ← extend, ih, mem_insert, List.mem_cons, or_left_comm, or_assoc]

end SortedSet
