import Mathlib.Combinatorics.Pigeonhole
import Mathlib.Data.Finset.Card
import Mathlib.Data.Finset.Range

/-! Walks along a partial successor function, up to a node where they stop.

A walk is determined by its start, so one that ends passes no node twice. -/

namespace SysImpl.Walks

variable {α : Type}

/-- The nodes passed from a start on, until one where the walk stops. -/
inductive Walk (next : α → Option α) (stop : α → Prop) : α → List α → Prop
  | stopped {a : α} (here : stop a) : Walk next stop a []
  | passed {a b : α} {rest : List α} (goes : ¬ stop a) (link : next a = some b)
      (later : Walk next stop b rest) : Walk next stop a (a :: rest)

variable {next : α → Option α} {stop : α → Prop} {a : α} {nodes : List α}

theorem Walk.unique {nodes' : List α} (walk : Walk next stop a nodes)
    (walk' : Walk next stop a nodes') : nodes = nodes' := by
  induction walk generalizing nodes' with
  | stopped here =>
      cases walk' with
      | stopped _ => rfl
      | passed goes _ _ => exact absurd here goes
  | passed goes link _ ih =>
      cases walk' with
      | stopped here => exact absurd here goes
      | passed _ link' later' =>
          rw [link] at link'
          rw [Option.some.inj link'] at ih
          exact congrArg _ (ih later')

theorem Walk.goes (walk : Walk next stop a nodes) : ∀ node ∈ nodes, ¬ stop node := by
  induction walk with
  | stopped _ =>
      intro node member
      cases member
  | passed goes _ _ ih =>
      intro node member
      rcases List.mem_cons.mp member with rfl | member
      · exact goes
      · exact ih node member

theorem Walk.from_mem (walk : Walk next stop a nodes) {node : α} (member : node ∈ nodes) :
    ∃ tail, Walk next stop node tail ∧ tail.length ≤ nodes.length := by
  induction walk with
  | stopped _ => cases member
  | @passed a b rest goes link later ih =>
      rcases List.mem_cons.mp member with rfl | member
      · exact ⟨_, Walk.passed goes link later, Nat.le_refl _⟩
      · obtain ⟨tail, found, short⟩ := ih member
        exact ⟨tail, found, Nat.le_succ_of_le short⟩

/-- A walk that ends passes no node twice. -/
theorem Walk.nodup (walk : Walk next stop a nodes) : nodes.Nodup := by
  induction walk with
  | stopped _ => exact List.nodup_nil
  | @passed a b rest goes link later ih =>
      refine List.nodup_cons.mpr ⟨?_, ih⟩
      intro member
      obtain ⟨tail, again, short⟩ := later.from_mem member
      have same := again.unique (Walk.passed goes link later)
      rw [same, List.length_cons] at short
      omega

theorem Walk.length_le {next : Nat → Option Nat} {stop : Nat → Prop} {start bound : Nat}
    {nodes : List Nat} (walk : Walk next stop start nodes)
    (below : ∀ node, ¬ stop node → node < bound) : nodes.length ≤ bound := by
  rw [← List.toFinset_card_of_nodup walk.nodup]
  calc nodes.toFinset.card
      ≤ (Finset.range bound).card := by
        apply Finset.card_le_card
        intro node member
        exact Finset.mem_range.mpr (below node (walk.goes node (List.mem_toFinset.mp member)))
    _ = bound := Finset.card_range bound

def onward (next : α → Option α) (a : α) : α := (next a).getD a

/-- Before a node where the walk stops, no node is met twice. -/
def NoReturn (next : α → Option α) (stop : α → Prop) (a : α) : Prop :=
  ∀ i j, i < j → (∀ k ≤ j, ¬ stop ((onward next)^[k] a)) →
    (onward next)^[i] a ≠ (onward next)^[j] a

theorem Walk.stops (walk : Walk next stop a nodes) : stop ((onward next)^[nodes.length] a) := by
  induction walk with
  | stopped here => exact here
  | @passed a b rest goes link later ih =>
      have step : onward next a = b := by
        simp only [onward, link, Option.getD_some]
      rw [List.length_cons, Function.iterate_succ_apply, step]
      exact ih

theorem Walk.getElem?_eq (walk : Walk next stop a nodes) {k : Nat} (inside : k < nodes.length) :
    nodes[k]? = some ((onward next)^[k] a) := by
  induction walk generalizing k with
  | stopped _ => exact absurd inside (Nat.not_lt_zero _)
  | @passed a b rest goes link later ih =>
      cases k with
      | zero => rfl
      | succ k =>
          have step : onward next a = b := by
            simp only [onward, link, Option.getD_some]
          rw [List.getElem?_cons_succ, Function.iterate_succ_apply, step]
          exact ih (Nat.lt_of_succ_lt_succ inside)

theorem Walk.noReturn (walk : Walk next stop a nodes) : NoReturn next stop a := by
  intro i j less goes same
  have inside : j < nodes.length := by
    by_contra past
    exact goes nodes.length (Nat.le_of_not_lt past) walk.stops
  have first := walk.getElem?_eq (Nat.lt_trans less inside)
  rw [same, ← walk.getElem?_eq inside] at first
  have index := (List.getElem?_inj (Nat.lt_trans less inside) walk.nodup).mp first
  omega

theorem NoReturn.later (fresh : NoReturn next stop a) (goes : ¬ stop a) :
    NoReturn next stop (onward next a) := by
  intro i j less on
  have later := fresh (i + 1) (j + 1) (Nat.succ_lt_succ less)
  rw [Function.iterate_succ_apply, Function.iterate_succ_apply] at later
  apply later
  intro k most
  cases k with
  | zero => exact goes
  | succ k =>
      rw [Function.iterate_succ_apply]
      exact on k (Nat.le_of_succ_le_succ most)

theorem NoReturn.walk {n : Nat} (fresh : NoReturn next stop a)
    (ends : stop ((onward next)^[n] a)) : ∃ nodes, Walk next stop a nodes := by
  induction n generalizing a with
  | zero => exact ⟨[], Walk.stopped ends⟩
  | succ n ih =>
      by_cases here : stop a
      · exact ⟨[], Walk.stopped here⟩
      · rw [Function.iterate_succ_apply] at ends
        obtain ⟨nodes, later⟩ := ih (fresh.later here) ends
        cases link : next a with
        | some b =>
            have step : onward next a = b := by
              simp only [onward, link, Option.getD_some]
            rw [step] at later
            exact ⟨a :: nodes, Walk.passed here link later⟩
        | none =>
            have stays : onward next a = a := by
              simp only [onward, link, Option.getD_none]
            refine absurd stays.symm (fresh 0 1 Nat.one_pos ?_)
            intro k most
            obtain rfl | rfl : k = 0 ∨ k = 1 := by omega
            · exact here
            · rw [Function.iterate_one, stays]
              exact here

/-- Among finitely many nodes, there is a walk from a start exactly if nothing returns. -/
theorem exists_walk_iff {next : Nat → Option Nat} {stop : Nat → Prop} {start bound : Nat}
    (below : ∀ node, ¬ stop node → node < bound) :
    (∃ nodes, Walk next stop start nodes) ↔ NoReturn next stop start := by
  constructor
  · rintro ⟨nodes, walk⟩
    exact walk.noReturn
  · intro fresh
    by_contra none
    have goes : ∀ k, ¬ stop ((onward next)^[k] start) := fun k ends => none (fresh.walk ends)
    -- One node more than there are: two of them are the same.
    obtain ⟨i, _, j, _, differ, same⟩ := Finset.exists_ne_map_eq_of_card_lt_of_maps_to
      (s := Finset.range (bound + 1)) (t := Finset.range bound)
      (f := fun k => (onward next)^[k] start) (by simp)
      (fun k _ => Finset.mem_coe.mpr (Finset.mem_range.mpr (below _ (goes k))))
    rcases Nat.lt_or_gt_of_ne differ with less | less
    · exact fresh i j less (fun k _ => goes k) same
    · exact fresh j i less (fun k _ => goes k) same.symm

end SysImpl.Walks
