import Mathlib.Data.List.FinRange
import Mathlib.Logic.Function.Basic

/-! A table with a fixed number of cells, seen as a partial map on the numbers.

A number from the size of the table on is bound to nothing, so a position that comes
from outside needs no check before it is looked up. -/

namespace SysImpl.Slots

variable {α : Type} {size : Nat}

/-- A partial map that binds no position from `size` on. -/
@[ext]
structure Table (α : Type) (size : Nat) where
  get : Nat → Option α
  bounded : ∀ pos, size ≤ pos → get pos = none

def ofCells (cells : Fin size → Option α) : Table α size where
  get := fun pos => if inside : pos < size then cells ⟨pos, inside⟩ else none
  bounded := fun _ beyond => dif_neg (Nat.not_lt.mpr beyond)

def Table.unbind (table : Table α size) (pos : Nat) : Table α size where
  get := Function.update table.get pos none
  bounded := by
    intro other beyond
    by_cases same : other = pos
    · rw [same, Function.update_self]
    · rw [Function.update_of_ne same]
      exact table.bounded other beyond

def Table.bind (table : Table α size) (pos : Fin size) (value : α) : Table α size where
  get := Function.update table.get pos.val (some value)
  bounded := by
    intro other beyond
    have differs : other ≠ pos.val := by omega
    rw [Function.update_of_ne differs]
    exact table.bounded other beyond

structure Table.LowestFree (table : Table α size) (first : Nat) (pos : Fin size) : Prop where
  above : first ≤ pos.val
  free : table.get pos.val = none
  lowest : ∀ other, first ≤ other → other < pos.val → (table.get other).isSome

@[simp] theorem ofCells_get (cells : Fin size → Option α) (pos : Fin size) :
    (ofCells cells).get pos.val = cells pos := dif_pos pos.isLt

@[simp] theorem Table.unbind_self (table : Table α size) (pos : Nat) :
    (table.unbind pos).get pos = none := Function.update_self _ _ _

theorem Table.bind_bound {table : Table α size} {pos : Fin size} {value : α}
    (bound : table.get pos.val = some value) : table.bind pos value = table := by
  have same : Function.update table.get pos.val (some value) = table.get := by
    rw [← bound, Function.update_eq_self]
  exact Table.ext same

theorem Table.unbind_free {table : Table α size} {pos : Nat} (free : table.get pos = none) :
    table.unbind pos = table := by
  have same : Function.update table.get pos none = table.get := by
    rw [← free, Function.update_eq_self]
  exact Table.ext same

theorem ofCells_update (cells : Fin size → Option α) (pos : Fin size) :
    ofCells (Function.update cells pos none) = (ofCells cells).unbind pos.val ∧
      ∀ value, ofCells (Function.update cells pos (some value)) =
        (ofCells cells).bind pos value := by
  have written : ∀ cell : Option α, (ofCells (Function.update cells pos cell)).get =
      Function.update (ofCells cells).get pos.val cell := by
    intro cell
    funext other
    by_cases same : other = pos.val
    · rw [same, Function.update_self, ofCells_get, Function.update_self]
    · rw [Function.update_of_ne same]
      simp only [ofCells]
      split
      · next inside =>
          apply Function.update_of_ne
          intro equal
          exact same (congrArg Fin.val equal)
      · rfl
  exact ⟨Table.ext (written none), fun value => Table.ext (written (some value))⟩

/-- A search through the cells in order finds the lowest free position. -/
theorem lowestFree_of_find (cells : Fin size → Option α) {first : Nat} {pos : Fin size}
    {free : Fin size → Bool}
    (meaning : ∀ other, free other = true ↔ first ≤ other.val ∧ cells other = none)
    (found : (List.finRange size).find? free = some pos) :
    (ofCells cells).LowestFree first pos := by
  obtain ⟨chosen, index, inside, here, earlier⟩ := List.find?_eq_some_iff_getElem.mp found
  rw [List.getElem_finRange] at here
  have place : pos.val = index := by rw [← here]; rfl
  obtain ⟨above, empty⟩ := (meaning pos).mp chosen
  refine ⟨above, (ofCells_get cells pos).trans empty, ?_⟩
  intro other past below
  have inside : other < size := below.trans pos.isLt
  have skipped := earlier other (by omega)
  rw [List.getElem_finRange] at skipped
  have taken : ¬ free ⟨other, inside⟩ = true := by simpa using skipped
  rw [ofCells_get cells ⟨other, inside⟩, Option.isSome_iff_ne_none]
  intro empty
  exact taken ((meaning _).mpr ⟨past, empty⟩)

end SysImpl.Slots
