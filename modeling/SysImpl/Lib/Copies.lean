import Mathlib.Logic.Function.Basic

/-! Loops that copy and fill cells one after the other.

A copy to lower addresses may overlap its source: a cell is read before a store reaches
it. The addresses of all stores are kept with the cells. -/

namespace SysImpl.Copies

variable {α : Type}

structure Traced (α : Type) where
  cells : Nat → α
  stores : List Nat

namespace Traced

def store (t : Traced α) (address : Nat) (value : α) : Traced α where
  cells := Function.update t.cells address value
  stores := t.stores ++ [address]

def copyFrom (dst src i : Nat) : Nat → Traced α → Traced α
  | 0, t => t
  | n + 1, t => copyFrom dst src (i + 1) n (t.store (dst + i) (t.cells (src + i)))

def fillFrom (dst : Nat) (value : α) (i : Nat) : Nat → Traced α → Traced α
  | 0, t => t
  | n + 1, t => fillFrom dst value (i + 1) n (t.store (dst + i) value)

def Keeps (within : Nat → Prop) (t : Traced α) : Prop := ∀ address ∈ t.stores, within address

variable {t : Traced α} {dst src x : Nat} {within : Nat → Prop}

theorem store_self (t : Traced α) (address : Nat) (value : α) :
    (t.store address value).cells address = value := Function.update_self _ _ _

theorem store_other {address : Nat} (value : α) (other : x ≠ address) :
    (t.store address value).cells x = t.cells x := Function.update_of_ne other _ _

theorem Keeps.store {address : Nat} (keeps : t.Keeps within) (value : α)
    (inside : within address) : (t.store address value).Keeps within := by
  intro other member
  rcases List.mem_append.mp member with before | here
  · exact keeps other before
  · rw [List.mem_singleton.mp here]
    exact inside

/-- A copy to lower addresses moves what was there before it. -/
theorem copyFrom_cells (i n : Nat) (lower : dst ≤ src) :
    (copyFrom dst src i n t).cells x =
      if dst + i ≤ x ∧ x < dst + i + n then t.cells (x - dst + src) else t.cells x := by
  induction n generalizing i t with
  | zero => rw [if_neg (by omega), copyFrom]
  | succ n ih =>
      rw [copyFrom, ih]
      by_cases here : x = dst + i
      · rw [if_neg (by omega), if_pos (by omega), here, store_self]
        congr 1
        omega
      · rw [store_other _ here]
        by_cases later : dst + (i + 1) ≤ x ∧ x < dst + (i + 1) + n
        · rw [if_pos later, if_pos (by omega), store_other _ (by omega)]
        · rw [if_neg later, if_neg (by omega)]

theorem fillFrom_cells (value : α) (i n : Nat) :
    (fillFrom dst value i n t).cells x =
      if dst + i ≤ x ∧ x < dst + i + n then value else t.cells x := by
  induction n generalizing i t with
  | zero => rw [if_neg (by omega), fillFrom]
  | succ n ih =>
      rw [fillFrom, ih]
      by_cases here : x = dst + i
      · rw [if_neg (by omega), if_pos (by omega), here, store_self]
      · rw [store_other _ here]
        exact if_congr (by omega) rfl rfl

theorem Keeps.copyFrom (i n : Nat) (keeps : t.Keeps within)
    (inside : ∀ k < n, within (dst + (i + k))) : (copyFrom dst src i n t).Keeps within := by
  induction n generalizing i t with
  | zero => exact keeps
  | succ n ih =>
      apply ih (i + 1) (keeps.store _ (inside 0 (Nat.zero_lt_succ n)))
      intro k below
      have there := inside (k + 1) (by omega)
      rwa [show i + (k + 1) = i + 1 + k by omega] at there

theorem Keeps.fillFrom (value : α) (i n : Nat) (keeps : t.Keeps within)
    (inside : ∀ k < n, within (dst + (i + k))) : (fillFrom dst value i n t).Keeps within := by
  induction n generalizing i t with
  | zero => exact keeps
  | succ n ih =>
      apply ih (i + 1) (keeps.store _ (inside 0 (Nat.zero_lt_succ n)))
      intro k below
      have there := inside (k + 1) (by omega)
      rwa [show i + (k + 1) = i + 1 + k by omega] at there

end Traced

end SysImpl.Copies
