import Mathlib.Logic.Function.Basic
import Mathlib.Data.Nat.ModEq

/-! Ring buffers over an array of `size` places, one of which stays empty.

`start` is the index of the oldest element and `stop` the index after the newest. The
buffer is empty when the two are equal and full when `stop` would catch up with `start`. -/

namespace SysImpl.Rings

variable {α : Type}

structure Circular (α : Type) where
  slots : Nat → α
  start : Nat
  stop : Nat

namespace Circular

variable (size : Nat) (r : Circular α)

structure Inside : Prop where
  start : r.start < size
  stop : r.stop < size

def count : Nat := (r.stop + size - r.start) % size

def contents : List α := (List.range (r.count size)).map fun i => r.slots ((r.start + i) % size)

def push (a : α) : Circular α :=
  { r with slots := Function.update r.slots r.stop a, stop := (r.stop + 1) % size }

def drop : Circular α := { r with start := (r.start + 1) % size }

def unpush : Circular α := { r with stop := (r.stop + size - 1) % size }

def clear : Circular α := { r with start := 0, stop := 0 }

variable {size r}

theorem count_lt (inside : r.Inside size) : r.count size < size :=
  Nat.mod_lt _ (Nat.lt_of_le_of_lt (Nat.zero_le _) inside.start)

@[simp] theorem contents_length : (r.contents size).length = r.count size := by simp [contents]

theorem stop_eq (inside : r.Inside size) : r.stop = (r.start + r.count size) % size := by
  obtain ⟨start, stop⟩ := inside
  rw [count, Nat.add_mod_mod, Nat.add_comm, Nat.sub_add_cancel (by omega), Nat.add_mod_right,
    Nat.mod_eq_of_lt stop]

theorem count_eq_zero (inside : r.Inside size) : r.count size = 0 ↔ r.start = r.stop := by
  constructor
  · intro zero
    have stop := stop_eq inside
    rw [zero, Nat.add_zero, Nat.mod_eq_of_lt inside.start] at stop
    exact stop.symm
  · intro same
    rw [count, same, Nat.add_sub_cancel_left, Nat.mod_self]

theorem contents_eq_nil (inside : r.Inside size) : r.contents size = [] ↔ r.start = r.stop := by
  rw [← count_eq_zero inside, ← contents_length, List.length_eq_zero_iff]

theorem place_inj {i j : Nat} (before : i < size) (after : j < size)
    (same : (r.start + i) % size = (r.start + j) % size) : i = j := by
  have congruent : i ≡ j [MOD size] := Nat.ModEq.add_left_cancel' r.start same
  exact congruent.eq_of_lt_of_lt before after

theorem full_iff (inside : r.Inside size) :
    (r.stop + 1) % size = r.start ↔ r.count size = size - 1 := by
  have below := count_lt inside
  have positive : 0 < size := Nat.lt_of_le_of_lt (Nat.zero_le _) below
  rw [stop_eq inside, Nat.mod_add_mod, Nat.add_assoc]
  constructor
  · intro full
    by_contra room
    have less : r.count size + 1 < size := by omega
    have zero : r.count size + 1 = 0 := by
      apply place_inj (r := r) less positive
      rw [full, Nat.add_zero, Nat.mod_eq_of_lt inside.start]
    cases zero
  · intro last
    rw [last, Nat.sub_add_cancel positive, Nat.add_mod_right, Nat.mod_eq_of_lt inside.start]

theorem Inside.push (inside : r.Inside size) (a : α) : (r.push size a).Inside size :=
  ⟨inside.start, Nat.mod_lt _ (Nat.lt_of_le_of_lt (Nat.zero_le _) inside.start)⟩

theorem Inside.drop (inside : r.Inside size) : (r.drop size).Inside size :=
  ⟨Nat.mod_lt _ (Nat.lt_of_le_of_lt (Nat.zero_le _) inside.start), inside.stop⟩

theorem Inside.unpush (inside : r.Inside size) : (r.unpush size).Inside size :=
  ⟨inside.start, Nat.mod_lt _ (Nat.lt_of_le_of_lt (Nat.zero_le _) inside.start)⟩

theorem Inside.clear (inside : r.Inside size) : r.clear.Inside size :=
  ⟨Nat.lt_of_le_of_lt (Nat.zero_le _) inside.start, Nat.lt_of_le_of_lt (Nat.zero_le _) inside.start⟩

theorem count_of_stop {n : Nat} (inside : r.Inside size) (small : n < size)
    (stop : r.stop = (r.start + n) % size) : r.count size = n :=
  place_inj (r := r) (count_lt inside) small ((stop_eq inside).symm.trans stop)

theorem push_count (inside : r.Inside size) (a : α) (room : r.count size + 1 < size) :
    (r.push size a).count size = r.count size + 1 := by
  apply count_of_stop (inside.push a) room
  rw [push, stop_eq inside, Nat.mod_add_mod, Nat.add_assoc]

theorem push_contents (inside : r.Inside size) (a : α) (room : r.count size + 1 < size) :
    (r.push size a).contents size = r.contents size ++ [a] := by
  rw [contents, push_count inside a room, List.range_succ, List.map_append, List.map_singleton]
  have last : (r.start + r.count size) % size = r.stop := (stop_eq inside).symm
  congr 1
  · apply List.map_congr_left
    intro i member
    have earlier := List.mem_range.mp member
    apply Function.update_of_ne
    intro same
    have equal := place_inj (r := r) (by omega) (count_lt inside) (same.trans last.symm)
    omega
  · rw [List.singleton_inj]
    change Function.update r.slots r.stop a ((r.start + r.count size) % size) = a
    rw [last, Function.update_self]

theorem drop_count (inside : r.Inside size) (some : r.start ≠ r.stop) :
    (r.drop size).count size + 1 = r.count size := by
  have positive : r.count size ≠ 0 := fun zero => some ((count_eq_zero inside).mp zero)
  have below := count_lt inside
  have fewer : (r.drop size).count size = r.count size - 1 := by
    apply count_of_stop inside.drop (by omega)
    rw [drop, Nat.mod_add_mod, stop_eq inside]
    congr 1
    omega
  omega

theorem drop_contents (inside : r.Inside size) (some : r.start ≠ r.stop) :
    r.contents size = r.slots r.start :: (r.drop size).contents size := by
  rw [contents, ← drop_count inside some, List.range_succ_eq_map, List.map_cons, List.map_map,
    Nat.add_zero, Nat.mod_eq_of_lt inside.start, contents]
  congr 1
  apply List.map_congr_left
  intro i _
  simp only [Function.comp_apply, drop, Nat.mod_add_mod]
  congr 2
  omega

theorem unpush_contents (inside : r.Inside size) (some : r.start ≠ r.stop) :
    (r.unpush size).contents size = (r.contents size).dropLast := by
  have positive : r.count size ≠ 0 := fun zero => some ((count_eq_zero inside).mp zero)
  have below := count_lt inside
  have fewer : (r.unpush size).count size = r.count size - 1 := by
    apply count_of_stop inside.unpush (by omega)
    have back : r.stop + size - 1 = r.stop + (size - 1) := by omega
    rw [unpush, back, stop_eq inside, Nat.mod_add_mod,
      show r.start + r.count size + (size - 1) = r.start + (r.count size - 1) + size by omega,
      Nat.add_mod_right]
  rw [contents, fewer, contents, ← List.map_dropLast]
  obtain ⟨n, more⟩ := Nat.exists_eq_succ_of_ne_zero positive
  rw [more, List.range_succ, List.dropLast_concat]
  rfl

@[simp] theorem clear_contents : r.clear.contents size = [] := by
  simp [contents, count, clear]

end Circular

end SysImpl.Rings
