import SysImpl.Lib.Bytes
import Mathlib.Order.Basic

/-! Singly linked lists threaded through memory cells.

A list is reached through a cell, the address of a pointer. `Chain` describes a
whole null-terminated list, `Path` a stretch of one, and `lastCell` names the cell
that the stretch ends in: inserting and unlinking are then one store each, at the
head of the list and in its middle alike. -/

namespace SysImpl.Links

open Bytes

variable (next : Nat)

/-- From the cell `cell`, the nodes of the list in order and then a null pointer. -/
def Chain (m : Mem) : Nat → List Nat → Prop
  | cell, [] => load32 m cell = 0
  | cell, node :: rest => load32 m cell = node ∧ Chain m (node + next) rest

def Path (m : Mem) : Nat → List Nat → Prop
  | _, [] => True
  | cell, node :: rest => load32 m cell = node ∧ Path m (node + next) rest

/-- The pointer cell after the given nodes. -/
def lastCell : Nat → List Nat → Nat
  | cell, [] => cell
  | _, node :: rest => lastCell (node + next) rest

def pathCells : Nat → List Nat → List Nat
  | _, [] => []
  | cell, node :: rest => cell :: pathCells (node + next) rest

def lastOr : Nat → List Nat → Nat
  | last, [] => last
  | _, node :: rest => lastOr node rest

def headOr : List Nat → Nat
  | [] => 0
  | node :: _ => node

variable {next}

theorem chain_append (m : Mem) (cell : Nat) (front back : List Nat) :
    Chain next m cell (front ++ back) ↔
      Path next m cell front ∧ Chain next m (lastCell next cell front) back := by
  induction front generalizing cell with
  | nil => simp [Path, lastCell]
  | cons node rest ih => simp only [List.cons_append, Chain, Path, lastCell, ih, and_assoc]

theorem chain_head {m : Mem} {cell : Nat} {nodes : List Nat} (chain : Chain next m cell nodes) :
    load32 m cell = headOr nodes := by
  cases nodes with
  | nil => exact chain
  | cons node rest => exact chain.1

theorem lastCell_eq (cell last : Nat) (nodes : List Nat) (passed : nodes ≠ []) :
    lastCell next cell nodes = lastOr last nodes + next := by
  induction nodes generalizing cell last with
  | nil => exact absurd rfl passed
  | cons node rest ih =>
      cases rest with
      | nil => rfl
      | cons other tail => exact ih (node + next) node (by simp)

theorem lastOr_mem (last : Nat) (nodes : List Nat) (passed : nodes ≠ []) :
    lastOr last nodes ∈ nodes := by
  induction nodes generalizing last with
  | nil => exact absurd rfl passed
  | cons node rest ih =>
      cases rest with
      | nil => simp [lastOr]
      | cons other tail => exact List.mem_cons_of_mem _ (ih node (by simp))

theorem path_congr {m m' : Mem} {cell : Nat} {nodes : List Nat}
    (agree : ∀ c ∈ pathCells next cell nodes, load32 m' c = load32 m c)
    (path : Path next m cell nodes) : Path next m' cell nodes := by
  induction nodes generalizing cell with
  | nil => trivial
  | cons node rest ih =>
      refine ⟨(agree cell (by simp [pathCells])).trans path.1, ih ?_ path.2⟩
      intro c member
      exact agree c (by simp [pathCells, member])

theorem chain_congr {m m' : Mem} {cell cell' : Nat} {nodes : List Nat}
    (here : load32 m' cell' = load32 m cell)
    (agree : ∀ node ∈ nodes, load32 m' (node + next) = load32 m (node + next))
    (chain : Chain next m cell nodes) : Chain next m' cell' nodes := by
  induction nodes generalizing cell cell' with
  | nil => exact here.trans chain
  | cons node rest ih =>
      refine ⟨here.trans chain.1, ih (agree node (by simp)) ?_ chain.2⟩
      intro other member
      exact agree other (by simp [member])

theorem lastCell_cases (next cell : Nat) (nodes : List Nat) :
    lastCell next cell nodes = cell ∨ ∃ node ∈ nodes, lastCell next cell nodes = node + next := by
  induction nodes generalizing cell with
  | nil => exact Or.inl rfl
  | cons node rest ih =>
      rcases ih (node + next) with same | ⟨other, member, equal⟩
      · exact Or.inr ⟨node, by simp, same⟩
      · exact Or.inr ⟨other, by simp [member], equal⟩

theorem pathCells_below {cell c : Nat} {nodes : List Nat}
    (rising : nodes.Pairwise fun a b => a + 4 ≤ b) (start : ∀ node ∈ nodes, cell + 4 ≤ node + next)
    (member : c ∈ pathCells next cell nodes) : c + 4 ≤ lastCell next cell nodes := by
  induction nodes generalizing cell with
  | nil => simp [pathCells] at member
  | cons node rest ih =>
      obtain ⟨first, rest_rising⟩ := List.pairwise_cons.mp rising
      have later : ∀ other ∈ rest, node + next + 4 ≤ other + next := by
        intro other inside
        have := first other inside
        omega
      rcases List.mem_cons.mp member with rfl | member
      · rcases lastCell_cases next (node + next) rest with same | ⟨other, inside, equal⟩
        · have := start node (by simp)
          simp only [lastCell, same]
          exact this
        · have := start other (by simp [inside])
          simp only [lastCell, equal]
          exact this
      · exact ih rest_rising later member

end SysImpl.Links
