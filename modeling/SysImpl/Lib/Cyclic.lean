import Mathlib.Algebra.Group.Fin.Basic
import Mathlib.Algebra.GroupWithZero.Nat
import Mathlib.Data.List.FinRange
import Mathlib.Data.List.Rotate

/-! Cyclic search: the next element behind a position that passes a test, again and again.

The positions are looked at in the order that begins behind the current one and ends with it.
Moving to another position rotates that order. -/

namespace SysImpl.Cyclic

variable {n : Nat} [NeZero n]

/-- All positions, from the one behind the current one on. -/
def order (current : Fin n) : List (Fin n) := (List.finRange n).map fun i => current + i + 1

def turnOf (current pos : Fin n) : Nat := (pos - current - 1).val

def next (test : Fin n → Bool) (current : Fin n) : Option (Fin n) := (order current).find? test

def turns (test : Fin n → Bool) : Nat → Fin n → List (Fin n)
  | 0, _ => []
  | count + 1, current =>
      match next test current with
      | none => []
      | some pos => pos :: turns test count pos

variable {test : Fin n → Bool} {current pos : Fin n}

@[simp] theorem order_length (current : Fin n) : (order current).length = n := by simp [order]

theorem turnOf_lt (current pos : Fin n) : turnOf current pos < n := (pos - current - 1).isLt

theorem turnOf_step (current i : Fin n) : turnOf current (current + i + 1) = i.val := by
  have same : current + i + 1 - current - 1 = i := by
    rw [add_assoc, add_sub_cancel_left, add_sub_cancel_right]
  rw [turnOf, same]

theorem mem_order (current pos : Fin n) : pos ∈ order current := by
  refine List.mem_map.mpr ⟨pos - current - 1, List.mem_finRange _, ?_⟩
  rw [add_assoc, sub_add_cancel, add_sub_cancel]

theorem order_rising (current : Fin n) :
    (order current).Pairwise fun a b => turnOf current a < turnOf current b := by
  rw [order, List.pairwise_map]
  apply (List.pairwise_lt_finRange n).imp
  intro i j less
  rw [turnOf_step, turnOf_step]
  exact less

theorem order_nodup (current : Fin n) : (order current).Nodup :=
  (order_rising current).imp fun less same => absurd (congrArg (turnOf current) same) (Nat.ne_of_lt less)

theorem order_getElem {k : Nat} (inside : k < n) (there : k < (order current).length) :
    (order current)[k] = current + ⟨k, inside⟩ + 1 := by
  simp [order]

theorem order_rotate {k : Nat} (inside : k < n) :
    order (current + ⟨k, inside⟩ + 1) = (order current).rotate (k + 1) := by
  apply List.ext_getElem
  · simp
  · intro j here _
    rw [order_length] at here
    have positive : 0 < n := Nat.lt_of_le_of_lt (Nat.zero_le _) here
    simp only [List.getElem_rotate, order_length]
    rw [order_getElem here, order_getElem (Nat.mod_lt _ positive)]
    apply Fin.ext
    simp only [Fin.val_add, Fin.val_one', Nat.mod_add_mod, Nat.add_mod_mod]
    congr 1
    omega

/-- The searches that follow one that found something look at the rest first, and at what was
found last. -/
theorem filter_next (found : next test current = some pos) :
    ∃ later, (order current).filter test = pos :: later ∧
      (order pos).filter test = later ++ [pos] := by
  obtain ⟨passes, front, back, split, fails⟩ := List.find?_eq_some_iff_append.mp found
  have inside : front.length < n := by
    have length := congrArg List.length split
    rw [order_length, List.length_append, List.length_cons] at length
    omega
  have here : current + ⟨front.length, inside⟩ + 1 = pos := by
    rw [← order_getElem inside (by rw [order_length]; exact inside)]
    simp [split]
  have turned : order pos = back ++ (front ++ [pos]) := by
    have parts : front ++ pos :: back = (front ++ [pos]) ++ back := by simp
    rw [← here, order_rotate inside, here, split, parts,
      ← List.rotate_append_length_eq (front ++ [pos]) back, List.length_append]
    rfl
  have none : front.filter test = [] := by
    apply List.filter_eq_nil_iff.mpr
    intro a member
    simpa using fails a member
  refine ⟨back.filter test, ?_, ?_⟩
  · rw [split, List.filter_append, none, List.filter_cons_of_pos passes]
    rfl
  · rw [turned, List.filter_append, List.filter_append, none]
    simp [passes]

theorem next_eq_none : next test current = none ↔ ∀ pos, test pos = false := by
  rw [next, List.find?_eq_none]
  constructor
  · intro fails pos
    simpa using fails pos (mem_order current pos)
  · intro fails pos _
    simp [fails pos]

theorem next_first (found : next test current = some pos) :
    test pos = true ∧ ∀ other, test other = true → turnOf current pos ≤ turnOf current other := by
  obtain ⟨passes, front, back, split, fails⟩ := List.find?_eq_some_iff_append.mp found
  refine ⟨passes, ?_⟩
  intro other good
  have rising := order_rising current
  rw [split] at rising
  have member := mem_order current other
  rw [split] at member
  rcases List.mem_append.mp member with before | member
  · have bad := fails other before
    rw [good] at bad
    cases bad
  · rcases List.mem_cons.mp member with rfl | behind
    · exact Nat.le_refl _
    · have sorted := (List.pairwise_append.mp rising).2.1
      exact Nat.le_of_lt ((List.pairwise_cons.mp sorted).1 other behind)

/-- A position that passes but has not been found is closer to what has. -/
theorem turnOf_next_lt {other : Fin n} (found : next test current = some pos)
    (passes : test other = true) (differs : pos ≠ other) : turnOf pos other < turnOf current other := by
  have nearest := (next_first found).2 other passes
  have apart : pos - current - 1 ≠ other - current - 1 := fun same =>
    differs (sub_left_injective (sub_left_injective same))
  have behind : other - pos - 1 = other - current - 1 - (pos - current - 1) - 1 := by
    rw [sub_sub_sub_cancel_right, sub_sub_sub_cancel_right]
  have some : other - current - 1 - (pos - current - 1) ≠ 0 := sub_ne_zero.mpr apart.symm
  rw [turnOf, turnOf] at nearest ⊢
  rw [behind, Fin.val_sub_one_of_ne_zero some, Fin.sub_val_of_le nearest]
  have positive : (pos - current - 1).val < (other - current - 1).val :=
    Nat.lt_of_le_of_ne nearest fun same => apart (Fin.ext same)
  omega

/-- As many searches as there are positions that pass find all of them in order. -/
theorem turns_eq (test : Fin n → Bool) (current : Fin n) {count : Nat}
    (few : count ≤ ((order current).filter test).length) :
    turns test count current = ((order current).filter test).take count := by
  induction count generalizing current with
  | zero => rfl
  | succ count ih =>
      cases found : next test current with
      | none =>
          have fails := next_eq_none.mp found
          have none : (order current).filter test = [] := by
            apply List.filter_eq_nil_iff.mpr
            intro pos _
            simp [fails pos]
          rw [none] at few
          cases few
      | some pos =>
          obtain ⟨later, here, there⟩ := filter_next found
          rw [here, List.length_cons] at few
          have rest := ih pos (by rw [there, List.length_append]; omega)
          rw [there, List.take_append_of_le_length (by omega)] at rest
          simp only [turns, found, here, List.take_succ_cons, rest]

end SysImpl.Cyclic
