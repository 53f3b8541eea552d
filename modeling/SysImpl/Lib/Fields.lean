import SysImpl.Lib.Spans

/-! The fields of a list: what is left between the separators, without the empty ones. -/

namespace SysImpl.Fields

open Spans

variable {α : Type} {sep : α → Bool}

def fields (sep : α → Bool) (whole : List α) : List (List α) :=
  (whole.splitOnP sep).filter fun field => !field.isEmpty

theorem fields_append (front back : List α) {x : α} (apart : sep x = true) :
    fields sep (front ++ x :: back) = fields sep front ++ fields sep back := by
  rw [fields, List.splitOnP_append_cons _ _ apart, List.filter_append]
  rfl

theorem fields_word {word : List α} (some : word ≠ []) (plain : ∀ x ∈ word, sep x = false) :
    fields sep word = [word] := by
  rw [fields, List.splitOnP_eq_singleton plain]
  simp [some]

@[simp] theorem fields_nil : fields sep [] = [] := rfl

theorem fields_cons {x : α} (apart : sep x = true) (rest : List α) :
    fields sep (x :: rest) = fields sep rest :=
  fields_append [] rest apart

theorem fields_gap {gap : List α} (all : ∀ x ∈ gap, sep x = true) (rest : List α) :
    fields sep (gap ++ rest) = fields sep rest := by
  induction gap with
  | nil => rfl
  | cons x gap ih =>
    rw [List.cons_append, fields_cons (all x List.mem_cons_self)]
    exact ih fun y member => all y (List.mem_cons_of_mem _ member)

theorem fields_ne_nil {whole field : List α} (member : field ∈ fields sep whole) : field ≠ [] := by
  simpa using (List.mem_filter.mp member).2

/-- A list begins with separators, and behind them a field that ends with the list or at
another separator. -/
inductive Next (sep : α → Bool) : List α → Prop
  | none {gap : List α} (all : ∀ x ∈ gap, sep x = true) : Next sep gap
  | last {gap word : List α} (all : ∀ x ∈ gap, sep x = true) (some : word ≠ [])
      (plain : ∀ x ∈ word, sep x = false) : Next sep (gap ++ word)
  | more {gap word rest : List α} {x : α} (all : ∀ x ∈ gap, sep x = true) (some : word ≠ [])
      (plain : ∀ x ∈ word, sep x = false) (apart : sep x = true) :
      Next sep (gap ++ (word ++ x :: rest))

theorem next (sep : α → Bool) (whole : List α) : Next sep whole := by
  obtain ⟨gap, behind, rfl, all, starts⟩ := exists_cut sep whole
  obtain ⟨word, back, rfl, plain, ends⟩ := exists_cut (fun x => !sep x) behind
  have plain : ∀ x ∈ word, sep x = false := by simpa using plain
  cases word with
  | nil =>
    cases back with
    | nil => simpa using Next.none all
    | cons x rest =>
      have one := starts x rfl
      have other := ends x rfl
      simp [one] at other
  | cons c word =>
    cases back with
    | nil => simpa using Next.last all (List.cons_ne_nil c word) plain
    | cons x rest => exact Next.more all (List.cons_ne_nil c word) plain (by simpa using ends x rfl)

end SysImpl.Fields
