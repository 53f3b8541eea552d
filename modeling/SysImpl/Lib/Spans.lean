import Mathlib.Data.List.TakeWhile

/-! Lists cut where a condition on their elements first changes. -/

namespace SysImpl.Spans

theorem exists_cut {α : Type} (p : α → Bool) (whole : List α) :
    ∃ front back, whole = front ++ back ∧ (∀ x ∈ front, p x = true) ∧
      ∀ x ∈ back.head?, p x = false := by
  refine ⟨whole.takeWhile p, whole.dropWhile p, List.takeWhile_append_dropWhile.symm,
    fun _ member => List.mem_takeWhile_imp member, ?_⟩
  intro x first
  have stopped := List.head?_dropWhile_not p whole
  rw [first] at stopped
  exact stopped

end SysImpl.Spans
