import Mathlib.Data.Finmap
import Mathlib.Data.Fintype.Card

/-! Finite maps kept in an array of slots.

A slot is free or holds a key with its value, and no key is held twice. An entry goes to any
free slot; the map is full when no slot is free. -/

namespace SysImpl.Registries

variable {K V : Type} {n : Nat}

/-- The slots hold the entries of a map, each of them once. -/
structure Keyed [DecidableEq K] (cells : Fin n → Option (K × V)) (map : Finmap fun _ : K => V) :
    Prop where
  distinct : ∀ i j key one two, cells i = some (key, one) → cells j = some (key, two) → i = j
  entries : ∀ key value, map.lookup key = some value ↔ ∃ i, cells i = some (key, value)

variable [DecidableEq K] {cells : Fin n → Option (K × V)} {map : Finmap fun _ : K => V}
  {key : K} {value : V} {i : Fin n}

theorem Keyed.empty : Keyed (fun _ : Fin n => (none : Option (K × V))) ∅ := by
  refine ⟨?_, ?_⟩
  · intro _ _ _ _ _ there
    cases there
  · intro key value
    rw [Finmap.lookup_empty]
    constructor
    · intro found
      cases found
    · rintro ⟨_, there⟩
      cases there

theorem Keyed.lookup (keyed : Keyed cells map) (there : cells i = some (key, value)) :
    map.lookup key = some value := (keyed.entries key value).mpr ⟨i, there⟩

theorem Keyed.absent (keyed : Keyed cells map) (none : ∀ i value, cells i ≠ some (key, value)) :
    map.lookup key = Option.none := by
  cases found : map.lookup key with
  | none => rfl
  | some value =>
      obtain ⟨i, there⟩ := (keyed.entries key value).mp found
      exact absurd there (none i value)

theorem Keyed.erase (keyed : Keyed cells map) (there : cells i = some (key, value)) :
    Keyed (Function.update cells i none) (map.erase key) := by
  have rest : ∀ j key other, Function.update cells i none j = some (key, other) →
      j ≠ i ∧ cells j = some (key, other) := by
    intro j key other held
    by_cases here : j = i
    · rw [here, Function.update_self] at held
      cases held
    · rw [Function.update_of_ne here] at held
      exact ⟨here, held⟩
  refine ⟨?_, ?_⟩
  · intro one two key first second held kept
    exact keyed.distinct one two key first second (rest _ _ _ held).2 (rest _ _ _ kept).2
  · intro other kept
    by_cases same : other = key
    · rw [same, Finmap.lookup_erase]
      constructor
      · intro found
        cases found
      · rintro ⟨j, held⟩
        obtain ⟨elsewhere, held⟩ := rest _ _ _ held
        exact absurd (keyed.distinct j i key kept value held there) elsewhere
    · rw [Finmap.lookup_erase_ne same, keyed.entries]
      refine ⟨?_, fun ⟨j, held⟩ => ⟨j, (rest _ _ _ held).2⟩⟩
      rintro ⟨j, held⟩
      refine ⟨j, ?_⟩
      rw [Function.update_of_ne _, held]
      intro here
      rw [here, there] at held
      exact same (Prod.mk.inj (Option.some.inj held)).1.symm

theorem Keyed.insert (keyed : Keyed cells map) (free : cells i = none)
    (fresh : map.lookup key = none) (value : V) :
    Keyed (Function.update cells i (some (key, value))) (map.insert key value) := by
  have unheld : ∀ j other, cells j ≠ some (key, other) := by
    intro j other held
    rw [keyed.lookup held] at fresh
    cases fresh
  have after : ∀ j name other, Function.update cells i (some (key, value)) j = some (name, other) →
      (j = i ∧ name = key ∧ other = value) ∨
        (j ≠ i ∧ name ≠ key ∧ cells j = some (name, other)) := by
    intro j name other held
    by_cases here : j = i
    · rw [here, Function.update_self, Option.some.injEq, Prod.mk.injEq] at held
      exact Or.inl ⟨here, held.1.symm, held.2.symm⟩
    · rw [Function.update_of_ne here] at held
      refine Or.inr ⟨here, ?_, held⟩
      intro same
      rw [same] at held
      exact unheld j other held
  refine ⟨?_, ?_⟩
  · intro one two name first second held kept
    rcases after _ _ _ held with ⟨here, same, -⟩ | ⟨-, other, held⟩
    · rcases after _ _ _ kept with ⟨there, -, -⟩ | ⟨-, other, -⟩
      · rw [here, there]
      · exact absurd same other
    · rcases after _ _ _ kept with ⟨-, same, -⟩ | ⟨-, -, kept⟩
      · exact absurd same other
      · exact keyed.distinct one two name first second held kept
  · intro name other
    by_cases same : name = key
    · rw [same, Finmap.lookup_insert]
      constructor
      · intro found
        exact ⟨i, by rw [Function.update_self, Option.some.inj found]⟩
      · rintro ⟨j, held⟩
        rcases after _ _ _ held with ⟨-, -, equal⟩ | ⟨-, other, -⟩
        · rw [equal]
        · exact absurd rfl other
    · rw [Finmap.lookup_insert_of_ne _ same, keyed.entries]
      constructor
      · rintro ⟨j, held⟩
        refine ⟨j, ?_⟩
        rw [Function.update_of_ne _, held]
        intro here
        rw [here, free] at held
        cases held
      · rintro ⟨j, held⟩
        rcases after _ _ _ held with ⟨-, equal, -⟩ | ⟨-, -, held⟩
        · exact absurd equal same
        · exact ⟨j, held⟩

theorem Keyed.card (keyed : Keyed cells map) :
    map.keys.card = (Finset.univ.filter fun i => (cells i).isSome).card := by
  have names : map.keys.image some =
      (Finset.univ.filter fun i => (cells i).isSome).image fun i => (cells i).map Prod.fst := by
    ext name
    simp only [Finset.mem_image, Finset.mem_filter, Finset.mem_univ, true_and, Finmap.mem_keys]
    constructor
    · rintro ⟨key, member, rfl⟩
      obtain ⟨value, found⟩ := Finmap.mem_iff.mp member
      obtain ⟨i, there⟩ := (keyed.entries key value).mp found
      exact ⟨i, by rw [there]; rfl, by rw [there]; rfl⟩
    · rintro ⟨i, taken, rfl⟩
      obtain ⟨⟨key, value⟩, there⟩ := Option.isSome_iff_exists.mp taken
      exact ⟨key, Finmap.mem_of_lookup_eq_some (keyed.lookup there), by rw [there]; rfl⟩
  have count := congrArg Finset.card names
  rw [Finset.card_image_of_injective _ (Option.some_injective K),
    Finset.card_image_of_injOn] at count
  · exact count
  · intro one first two second same
    obtain ⟨⟨key, value⟩, held⟩ := Option.isSome_iff_exists.mp (Finset.mem_filter.mp first).2
    obtain ⟨⟨other, kept⟩, there⟩ := Option.isSome_iff_exists.mp (Finset.mem_filter.mp second).2
    have equal : some key = some other := by
      simpa [held, there] using same
    rw [← Option.some.inj equal] at there
    exact keyed.distinct one two key value kept held there

theorem Keyed.card_le (keyed : Keyed cells map) : map.keys.card ≤ n := by
  rw [keyed.card]
  have most := Finset.card_le_univ (Finset.univ.filter fun i => (cells i).isSome)
  rwa [Fintype.card_fin] at most

/-- The map is full exactly if no slot is free. -/
theorem Keyed.full_iff (keyed : Keyed cells map) :
    n ≤ map.keys.card ↔ ∀ i, cells i ≠ none := by
  have all : (Finset.univ.filter fun i => (cells i).isSome) = Finset.univ ↔
      ∀ i, cells i ≠ none := by
    simp [Finset.filter_eq_self, Option.isSome_iff_ne_none]
  rw [← all, ← Finset.card_eq_iff_eq_univ, ← keyed.card, Fintype.card_fin]
  have most := keyed.card_le
  omega

end SysImpl.Registries
