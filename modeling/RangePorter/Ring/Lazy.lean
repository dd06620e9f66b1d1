import Mathlib.Algebra.BigOperators.Group.Finset.Piecewise
import Mathlib.Data.Int.Order.Lemmas
import Mathlib.Data.List.DropRight
import Mathlib.Data.Nat.ModEq

/-!
# Rings with lazy reset

A ring has a fixed number of slots. An input with key `k` goes to the slot
`k % n`. A slot belongs to the key of its last input; an input with another key
resets the slot before it is added. So a slot holds exactly the inputs of the
*trailing run* of its key, among the inputs that share the slot (`slot_eq`).
-/

namespace LazyRing

universe u v

/-- How inputs `α` are accumulated in slots `β`. -/
structure Ring (α : Type u) (β : Type v) where
  key : α → Nat
  owner : β → Nat
  fresh : Nat → β
  add : β → α → β
  owner_fresh : ∀ k, owner (fresh k) = k
  owner_add : ∀ b x, owner (add b x) = owner b

namespace Ring

variable {α : Type u} {β : Type v} (R : Ring α β)

/-- Reset the slot if it belongs to another key, then add the input. -/
def touch (x : α) (b : β) : β :=
  R.add (if R.owner b = R.key x then b else R.fresh (R.key x)) x

def push (slots : List β) (x : α) : List β :=
  slots.modify (R.key x % slots.length) (R.touch x)

/-- The slots after the inputs `xs`, all of them fresh at first. -/
def run (n : Nat) (xs : List α) : List β := xs.foldl R.push (List.replicate n (R.fresh 0))

/-- The inputs that go to slot `r`. -/
def sharing (n r : Nat) (xs : List α) : List α := xs.filter fun x => R.key x % n = r

/-- The key that slot `r` belongs to; a slot without inputs belongs to zero. -/
def holder (n r : Nat) (xs : List α) : Nat := ((R.sharing n r xs).getLast?.map R.key).getD 0

/-- The inputs of slot `r` since it came to its key. -/
def trailing (n r : Nat) (xs : List α) : List α :=
  (R.sharing n r xs).rtakeWhile fun x => R.key x = R.holder n r xs

/-! ### One more input -/

@[simp] theorem length_push (slots : List β) (x : α) : (R.push slots x).length = slots.length := by
  simp [push]

theorem run_concat (n : Nat) (xs : List α) (x : α) :
    R.run n (xs ++ [x]) = R.push (R.run n xs) x := by
  simp [run]

@[simp] theorem length_run (n : Nat) (xs : List α) : (R.run n xs).length = n := by
  induction xs using List.reverseRecOn with
  | nil => simp [run]
  | append_singleton xs x ih => rw [run_concat, length_push, ih]

variable {R} {n r : Nat} {xs : List α} {x : α}

theorem sharing_concat_self (here : R.key x % n = r) :
    R.sharing n r (xs ++ [x]) = R.sharing n r xs ++ [x] := by
  simp [sharing, here]

theorem sharing_concat_other (elsewhere : R.key x % n ≠ r) :
    R.sharing n r (xs ++ [x]) = R.sharing n r xs := by
  simp [sharing, elsewhere]

theorem holder_concat_self (here : R.key x % n = r) : R.holder n r (xs ++ [x]) = R.key x := by
  simp [holder, sharing_concat_self here]

theorem holder_concat_other (elsewhere : R.key x % n ≠ r) :
    R.holder n r (xs ++ [x]) = R.holder n r xs := by
  rw [holder, sharing_concat_other elsewhere, holder]

theorem trailing_concat_other (elsewhere : R.key x % n ≠ r) :
    R.trailing n r (xs ++ [x]) = R.trailing n r xs := by
  rw [trailing, sharing_concat_other elsewhere, holder_concat_other elsewhere, trailing]

/-- An input of the key that holds the slot extends the run. -/
theorem trailing_concat_same (here : R.key x % n = r) (same : R.holder n r xs = R.key x) :
    R.trailing n r (xs ++ [x]) = R.trailing n r xs ++ [x] := by
  rw [trailing, sharing_concat_self here, holder_concat_self here, trailing, same]
  exact List.rtakeWhile_concat_pos _ _ _ (by simp)

/-- An input of another key starts a new run. -/
theorem trailing_concat_new (here : R.key x % n = r) (new : R.holder n r xs ≠ R.key x) :
    R.trailing n r (xs ++ [x]) = [x] := by
  have none : (R.sharing n r xs).rtakeWhile (fun y => R.key y = R.key x) = [] := by
    rw [List.rtakeWhile_eq_nil_iff]
    intro nonempty same
    refine new ?_
    rw [holder, List.getLast?_eq_getLast_of_ne_nil nonempty]
    simpa using same
  rw [trailing, sharing_concat_self here, holder_concat_self here,
    List.rtakeWhile_concat_pos _ _ _ (by simp), none, List.nil_append]

/-! ### What a slot holds -/

theorem owner_foldl (b : β) (xs : List α) : R.owner (xs.foldl R.add b) = R.owner b := by
  induction xs generalizing b with
  | nil => rfl
  | cons x xs ih => rw [List.foldl_cons, ih, R.owner_add]

/-- A slot holds the trailing run of its key. -/
theorem slot_eq (n : Nat) (xs : List α) {r : Nat} (bound : r < n) :
    (R.run n xs)[r]? =
      some ((R.trailing n r xs).foldl R.add (R.fresh (R.holder n r xs))) := by
  induction xs using List.reverseRecOn with
  | nil => simp [run, trailing, holder, sharing, bound]
  | append_singleton xs x ih =>
      rw [run_concat, push, length_run, List.getElem?_modify, ih]
      by_cases here : R.key x % n = r
      · rw [holder_concat_self here]
        by_cases same : R.holder n r xs = R.key x
        · simp [here, touch, owner_foldl, R.owner_fresh, same, trailing_concat_same here same]
        · simp [here, touch, owner_foldl, R.owner_fresh, same, trailing_concat_new here same]
      · simp [here, trailing_concat_other here, holder_concat_other here]

theorem owner_of_slot {b : β} (bound : r < n) (slot : (R.run n xs)[r]? = some b) :
    R.owner b = R.holder n r xs := by
  rw [slot_eq n xs bound, Option.some.injEq] at slot
  rw [← slot, owner_foldl, R.owner_fresh]

/-- A slot belongs to zero or to a key that goes to it. -/
theorem holder_mod : R.holder n r xs = 0 ∨ R.holder n r xs % n = r := by
  unfold holder
  cases last : (R.sharing n r xs).getLast? with
  | none => exact .inl rfl
  | some x =>
      have member := List.mem_of_getLast? last
      exact .inr (by simpa using (List.mem_filter.mp member).2)

theorem holder_eq_iff {k : Nat} (positive : k ≠ 0) :
    R.holder n (k % n) xs = k ↔ (R.sharing n (k % n) xs).getLast?.map R.key = some k := by
  unfold holder
  cases (R.sharing n (k % n) xs).getLast? with
  | none => simpa using positive.symm
  | some x => simp

/-- All slots at once. -/
theorem run_eq_map (n : Nat) (xs : List α) :
    R.run n xs = (List.range n).map fun r =>
      (R.trailing n r xs).foldl R.add (R.fresh (R.holder n r xs)) := by
  apply List.ext_getElem?
  intro r
  by_cases bound : r < n
  · rw [slot_eq n xs bound, List.getElem?_map, List.getElem?_range bound, Option.map_some]
  · rw [List.getElem?_eq_none (by simpa using bound), List.getElem?_eq_none (by simpa using bound)]

/-- No two slots belong to the same key, zero apart. -/
theorem run_pairwise (n : Nat) (xs : List α) :
    (R.run n xs).Pairwise fun a b => R.owner a ≠ 0 → R.owner a ≠ R.owner b := by
  rw [List.pairwise_iff_getElem]
  intro i j inside inside' lt positive same
  have low : i < n := by simpa using inside
  have high : j < n := by simpa using inside'
  have first : R.owner (R.run n xs)[i] = R.holder n i xs :=
    owner_of_slot low (List.getElem?_eq_getElem inside)
  have second : R.owner (R.run n xs)[j] = R.holder n j xs :=
    owner_of_slot high (List.getElem?_eq_getElem inside')
  rw [same, second] at positive
  rw [first, second] at same
  have mod : R.holder n j xs % n = j := holder_mod.resolve_left positive
  have mod' : R.holder n i xs % n = i := holder_mod.resolve_left (same ▸ positive)
  rw [same, mod] at mod'
  omega

/-! ### Inputs in the order of their keys -/

/-- The last input is one with the greatest key. -/
theorem getLast_eq_iff {f : α → Nat} {k : Nat} (ordered : xs.Pairwise fun x y => f x ≤ f y) :
    xs.getLast?.map f = some k ↔ (∃ x ∈ xs, f x = k) ∧ ∀ x ∈ xs, f x ≤ k := by
  cases xs using List.reverseRecOn with
  | nil => simp
  | append_singleton xs last =>
      have le : ∀ x ∈ xs, f x ≤ f last := fun x member =>
        (List.pairwise_append.mp ordered).2.2 x member last (List.mem_singleton.mpr rfl)
      rw [List.getLast?_concat, Option.map_some, Option.some.injEq]
      constructor
      · rintro rfl
        refine ⟨⟨last, by simp, rfl⟩, fun x member => ?_⟩
        cases List.mem_append.mp member with
        | inl before => exact le x before
        | inr own => exact (congrArg f (List.mem_singleton.mp own)).le
      · rintro ⟨⟨x, member, rfl⟩, greatest⟩
        refine Nat.le_antisymm (greatest last (by simp)) ?_
        cases List.mem_append.mp member with
        | inl before => exact le x before
        | inr own => exact (congrArg f (List.mem_singleton.mp own)).le

/-- A slot belongs to the greatest of the keys that go to it. -/
theorem last_sharing_iff {k : Nat} (ordered : xs.Pairwise fun x y => R.key x ≤ R.key y) :
    (R.sharing n r xs).getLast?.map R.key = some k ↔
      (∃ x ∈ xs, R.key x % n = r ∧ R.key x = k) ∧ ∀ x ∈ xs, R.key x % n = r → R.key x ≤ k := by
  rw [sharing, getLast_eq_iff (ordered.filter _)]
  simp [and_assoc]

/-! ### Inputs within one turn of the ring -/

/-- If all keys lie within one turn of the ring, nothing is ever reset. -/
theorem trailing_eq_sharing {first : Nat}
    (within : ∀ x ∈ xs, first ≤ R.key x ∧ R.key x < first + n) (r : Nat) :
    R.trailing n r xs = R.sharing n r xs := by
  rw [trailing, List.rtakeWhile_eq_self_iff]
  intro x member
  have nonempty : R.sharing n r xs ≠ [] := List.ne_nil_of_mem member
  obtain ⟨input, here⟩ := List.mem_filter.mp member
  obtain ⟨input', here'⟩ := List.mem_filter.mp (List.getLast_mem nonempty)
  rw [holder, List.getLast?_eq_getLast_of_ne_nil nonempty]
  simp only [decide_eq_true_eq] at here here'
  have same : R.key x ≡ R.key ((R.sharing n r xs).getLast nonempty) [MOD n] :=
    here.trans here'.symm
  have low := within x input
  have high := within _ input'
  have equal := same.eq_of_abs_lt (abs_lt.mpr (by omega))
  simpa using equal

theorem key_of_trailing (member : x ∈ R.trailing n r xs) : R.key x = R.holder n r xs := by
  simpa using List.mem_rtakeWhile_imp member

theorem trailing_sublist : List.Sublist (R.trailing n r xs) xs :=
  (List.rtakeWhile_suffix ..).sublist.trans List.filter_sublist

/-- The inputs of all slots together are the inputs. -/
theorem sum_sharing (f : α → Nat) (positive : 0 < n) (xs : List α) :
    ((List.range n).map fun r => ((R.sharing n r xs).map f).sum).sum = (xs.map f).sum := by
  induction xs with
  | nil => simp [sharing]
  | cons x xs ih =>
      have bound : R.key x % n < n := Nat.mod_lt _ positive
      have split : ∀ r, ((R.sharing n r (x :: xs)).map f).sum =
          (if r = R.key x % n then f x else 0) + ((R.sharing n r xs).map f).sum := by
        intro r
        by_cases here : R.key x % n = r
        · simp [sharing, here]
        · have elsewhere : r ≠ R.key x % n := fun same => here same.symm
          simp [sharing, here, elsewhere]
      simp only [split, List.sum_map_add, ih, List.map_cons, List.sum_cons]
      -- Only the slot of `x` gets more.
      change (∑ r ∈ Finset.range n, if r = R.key x % n then f x else 0) + _ = _
      rw [Finset.sum_ite_eq', if_pos (Finset.mem_range.mpr bound)]

end Ring

end LazyRing
