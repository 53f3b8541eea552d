import SysImpl.Lib.Registries
import SysImpl.Kernel.Syscall
import SysImpl.Fat.Names

/-! The registry of special paths.

`SpecialPathManager` keeps its objects in 16 slots. A slot with an empty name is free, and
its name takes part in the comparisons of the lookups like any other. The registry is shown
to be a map from names up to case, with room for 16. -/

namespace SysImpl.Kernel

open Registries

variable {α : Type}

/-- A slot: the name up to its terminator, and the object. -/
structure PathDevice (α : Type) where
  name : List UInt8
  obj : Option α

def maxSpecialPathNum : Nat := 16

structure SpecialPathManager (α : Type) where
  devices : Fin maxSpecialPathNum → PathDevice α

namespace SpecialPathManager

def create : SpecialPathManager α := ⟨fun _ => ⟨[], none⟩⟩

def locate (manager : SpecialPathManager α) (path : List UInt8) : Option (Fin maxSpecialPathNum) :=
  (List.finRange maxSpecialPathNum).find? fun i =>
    Fat.strcasecmp (manager.devices i).name path = 0

/-- `SpecialPathManager::removeObject`; it returns the positive `ENOENT`. -/
def removeObject (manager : SpecialPathManager α) (path : List UInt8) :
    Int × SpecialPathManager α :=
  match manager.locate path with
  | some i => (0, ⟨Function.update manager.devices i ⟨[], none⟩⟩)
  | none => (-enoent, manager)

/-- `SpecialPathManager::registerObject`; `strlcpy` leaves 15 characters of a name. -/
def registerObject (manager : SpecialPathManager α) (path : List UInt8) (obj : Option α) :
    Int × SpecialPathManager α :=
  let manager := (manager.removeObject path).2
  match (List.finRange maxSpecialPathNum).find? fun i => (manager.devices i).name = [] with
  | some i => (0, ⟨Function.update manager.devices i ⟨path.take 15, obj⟩⟩)
  | none => (enospc, manager)

def get (manager : SpecialPathManager α) (path : List UInt8) : Option α :=
  match manager.locate path with
  | some i => (manager.devices i).obj
  | none => none

end SpecialPathManager

inductive PathRequest (α : Type) where
  | registerObject (path : List UInt8) (obj : α)
  | removeObject (path : List UInt8)
  | get (path : List UInt8)

inductive PathAnswer (α : Type) where
  | code (result : Int)
  | object (obj : Option α)
  deriving DecidableEq, Repr

/-- Strings, which are not empty and fit into a slot where they are stored. -/
def PathRequest.Fair : PathRequest α → Prop
  | .registerObject path _ => path ≠ [] ∧ path.length ≤ 15 ∧ ∀ c ∈ path, c ≠ 0
  | .removeObject path => path ≠ [] ∧ path.length ≤ 15 ∧ ∀ c ∈ path, c ≠ 0
  | .get path => ∀ c ∈ path, c ≠ 0

def SpecialPathManager.serve (manager : SpecialPathManager α) :
    PathRequest α → PathAnswer α × SpecialPathManager α
  | .registerObject path obj =>
      let (result, manager) := manager.registerObject path (some obj)
      (.code result, manager)
  | .removeObject path =>
      let (result, manager) := manager.removeObject path
      (.code result, manager)
  | .get path => (.object (manager.get path), manager)

def SpecialPathManager.serveAll (manager : SpecialPathManager α) :
    List (PathRequest α) → List (PathAnswer α) × SpecialPathManager α
  | [] => ([], manager)
  | request :: rest =>
      let (answer, manager) := manager.serve request
      let (answers, manager) := manager.serveAll rest
      (answer :: answers, manager)

abbrev PathMap (α : Type) := Finmap fun _ : List UInt8 => α

def pathKey (path : List UInt8) : List UInt8 := path.map Fat.tolower

namespace PathMap

def register (map : PathMap α) (path : List UInt8) (obj : α) : Int × PathMap α :=
  if maxSpecialPathNum ≤ (map.erase (pathKey path)).keys.card then (enospc, map)
  else (0, map.insert (pathKey path) obj)

def remove (map : PathMap α) (path : List UInt8) : Int × PathMap α :=
  if pathKey path ∈ map then (0, map.erase (pathKey path)) else (-enoent, map)

def get (map : PathMap α) (path : List UInt8) : Option α := map.lookup (pathKey path)

def serve (map : PathMap α) : PathRequest α → PathAnswer α × PathMap α
  | .registerObject path obj =>
      let (result, map) := map.register path obj
      (.code result, map)
  | .removeObject path =>
      let (result, map) := map.remove path
      (.code result, map)
  | .get path => (.object (map.get path), map)

def serveAll (map : PathMap α) : List (PathRequest α) → List (PathAnswer α) × PathMap α
  | [] => ([], map)
  | request :: rest =>
      let (answer, map) := map.serve request
      let (answers, map) := map.serveAll rest
      (answer :: answers, map)

end PathMap

def PathDevice.entry (device : PathDevice α) : Option (List UInt8 × α) :=
  device.obj.map fun obj => (pathKey device.name, obj)

structure PathDevice.Fits (device : PathDevice α) : Prop where
  free : device.name = [] ↔ device.obj = none
  short : device.name.length ≤ 15
  string : ∀ c ∈ device.name, c ≠ 0

theorem PathDevice.fits_free : Fits (⟨[], none⟩ : PathDevice α) :=
  ⟨iff_of_true rfl rfl, Nat.zero_le _, fun _ member => absurd member List.not_mem_nil⟩

namespace SpecialPathManager

structure Represents (manager : SpecialPathManager α) (map : PathMap α) : Prop where
  fits : ∀ i, (manager.devices i).Fits
  keyed : Keyed (fun i => (manager.devices i).entry) map

variable {manager : SpecialPathManager α} {map : PathMap α} {path : List UInt8}
  {i : Fin maxSpecialPathNum}

theorem create_represents : Represents (create : SpecialPathManager α) ∅ where
  fits := fun _ => PathDevice.fits_free
  keyed := Keyed.empty

theorem pathKey_eq_iff {name other : List UInt8} :
    pathKey name = pathKey other ↔ Fat.sameName name other = true := by
  rw [Fat.sameName, decide_eq_true_iff]
  rfl

theorem locate_some (represents : manager.Represents map) (string : ∀ c ∈ path, c ≠ 0)
    (located : manager.locate path = some i) : pathKey (manager.devices i).name = pathKey path := by
  have compared := List.find?_some located
  rw [decide_eq_true_iff] at compared
  rw [pathKey_eq_iff, ← Fat.strcasecmp_eq_zero (represents.fits i).string string]
  exact compared

theorem locate_none (represents : manager.Represents map) (string : ∀ c ∈ path, c ≠ 0)
    (located : manager.locate path = none) (i : Fin maxSpecialPathNum) :
    pathKey (manager.devices i).name ≠ pathKey path := by
  have compared := List.find?_eq_none.mp located i (List.mem_finRange i)
  rw [decide_eq_true_iff] at compared
  rw [Ne, pathKey_eq_iff, ← Fat.strcasecmp_eq_zero (represents.fits i).string string]
  exact compared

/-- A slot with a name that is not empty holds an object. -/
theorem entry_of_name (represents : manager.Represents map) (named : path ≠ [])
    (same : pathKey (manager.devices i).name = pathKey path) :
    ∃ obj, (manager.devices i).obj = some obj ∧
      (manager.devices i).entry = some (pathKey path, obj) := by
  cases held : (manager.devices i).obj with
  | none =>
      have empty := (represents.fits i).free.mpr held
      rw [empty] at same
      have none : path = [] := List.map_eq_nil_iff.mp same.symm
      exact absurd none named
  | some obj => exact ⟨obj, rfl, by rw [PathDevice.entry, held, Option.map_some, same]⟩

theorem entry_some (represents : manager.Represents map) {key : List UInt8} {obj : α}
    (held : (manager.devices i).entry = some (key, obj)) :
    pathKey (manager.devices i).name = key ∧ (manager.devices i).obj = some obj ∧ key ≠ [] := by
  cases value : (manager.devices i).obj with
  | none =>
      rw [PathDevice.entry, value] at held
      cases held
  | some other =>
      rw [PathDevice.entry, value, Option.map_some, Option.some.injEq, Prod.mk.injEq] at held
      obtain ⟨name, rfl⟩ := held
      refine ⟨name, rfl, ?_⟩
      intro none
      rw [none] at name
      have free := (represents.fits i).free.mp (List.map_eq_nil_iff.mp name)
      rw [value] at free
      cases free

theorem entry_none (represents : manager.Represents map) :
    (manager.devices i).entry = none ↔ (manager.devices i).name = [] := by
  rw [PathDevice.entry, Option.map_eq_none_iff, (represents.fits i).free]

theorem lookup_none (represents : manager.Represents map) (string : ∀ c ∈ path, c ≠ 0)
    (located : manager.locate path = none) : map.lookup (pathKey path) = none := by
  apply represents.keyed.absent
  intro i value held
  exact locate_none represents string located i (entry_some represents held).1

theorem lookup_empty (represents : manager.Represents map) : map.lookup (pathKey []) = none := by
  apply represents.keyed.absent
  intro i value held
  exact (entry_some represents held).2.2 rfl

theorem get_eq (represents : manager.Represents map) (string : ∀ c ∈ path, c ≠ 0) :
    manager.get path = map.get path := by
  rw [get, PathMap.get]
  cases located : manager.locate path with
  | none => exact (lookup_none represents string located).symm
  | some i =>
      have same := locate_some represents string located
      by_cases named : path = []
      · rw [named] at same ⊢
        have free : (manager.devices i).name = [] := List.map_eq_nil_iff.mp same
        rw [lookup_empty represents]
        exact (represents.fits i).free.mp free
      · obtain ⟨obj, held, entry⟩ := entry_of_name represents named same
        rw [represents.keyed.lookup entry]
        exact held

theorem erase_absent (unbound : pathKey path ∉ map) : map.erase (pathKey path) = map := by
  apply Finmap.ext_lookup
  intro key
  by_cases here : key = pathKey path
  · rw [here, Finmap.lookup_erase, Finmap.lookup_eq_none.mpr unbound]
  · rw [Finmap.lookup_erase_ne here]

theorem insert_erase (map : PathMap α) (key : List UInt8) (obj : α) :
    (map.erase key).insert key obj = map.insert key obj := by
  apply Finmap.ext_lookup
  intro other
  by_cases here : other = key
  · rw [here, Finmap.lookup_insert, Finmap.lookup_insert]
  · rw [Finmap.lookup_insert_of_ne _ here, Finmap.lookup_insert_of_ne _ here,
      Finmap.lookup_erase_ne here]

theorem update_entry (manager : SpecialPathManager α) (device : PathDevice α) :
    (fun j => (Function.update manager.devices i device j).entry) =
      Function.update (fun j => (manager.devices j).entry) i device.entry :=
  Function.comp_update PathDevice.entry manager.devices i device

theorem update_fits (represents : manager.Represents map) {device : PathDevice α}
    (fits : device.Fits) (j : Fin maxSpecialPathNum) :
    (Function.update manager.devices i device j).Fits := by
  by_cases here : j = i
  · rw [here, Function.update_self]
    exact fits
  · rw [Function.update_of_ne here]
    exact represents.fits j

theorem removeObject_spec (represents : manager.Represents map) (string : ∀ c ∈ path, c ≠ 0)
    (named : path ≠ []) :
    (pathKey path ∉ map ∧ manager.removeObject path = (-enoent, manager)) ∨
      (pathKey path ∈ map ∧ ∃ i,
        manager.removeObject path =
            (0, ⟨Function.update manager.devices i ⟨[], none⟩⟩) ∧
          (manager.removeObject path).2.Represents (map.erase (pathKey path))) := by
  rw [removeObject]
  cases located : manager.locate path with
  | none =>
      exact Or.inl ⟨Finmap.lookup_eq_none.mp (lookup_none represents string located), rfl⟩
  | some i =>
      have same := locate_some represents string located
      obtain ⟨obj, held, entry⟩ := entry_of_name represents named same
      have bound := Finmap.mem_of_lookup_eq_some (represents.keyed.lookup entry)
      refine Or.inr ⟨bound, i, rfl, update_fits represents PathDevice.fits_free, ?_⟩
      rw [update_entry]
      exact represents.keyed.erase entry

theorem removal_represents (represents : manager.Represents map) (string : ∀ c ∈ path, c ≠ 0)
    (named : path ≠ []) :
    (manager.removeObject path).2.Represents (map.erase (pathKey path)) ∧
      ((manager.removeObject path).2 = manager ∨
        ∃ i, ((manager.removeObject path).2.devices i).name = []) := by
  rcases removeObject_spec represents string named with ⟨unbound, removed⟩ | ⟨-, i, removed, kept⟩
  · rw [removed, erase_absent unbound]
    exact ⟨represents, Or.inl rfl⟩
  · refine ⟨kept, Or.inr ⟨i, ?_⟩⟩
    rw [removed]
    simp only [Function.update_self]

theorem remove_spec (represents : manager.Represents map) (string : ∀ c ∈ path, c ≠ 0)
    (named : path ≠ []) :
    (manager.removeObject path).1 = (map.remove path).1 ∧
      (manager.removeObject path).2.Represents (map.remove path).2 := by
  rw [PathMap.remove]
  rcases removeObject_spec represents string named with
    ⟨unbound, removed⟩ | ⟨bound, i, removed, kept⟩
  · rw [removed, if_neg unbound]
    exact ⟨rfl, represents⟩
  · rw [if_pos bound]
    refine ⟨?_, kept⟩
    rw [removed]

theorem store_spec (represents : manager.Represents map) (string : ∀ c ∈ path, c ≠ 0)
    (named : path ≠ []) (short : path.length ≤ 15) (unbound : pathKey path ∉ map)
    (free : (manager.devices i).name = []) (obj : α) :
    Represents ⟨Function.update manager.devices i ⟨path.take 15, some obj⟩⟩
      (map.insert (pathKey path) obj) := by
  have whole : path.take 15 = path := List.take_of_length_le short
  rw [whole]
  refine ⟨update_fits represents ⟨iff_of_false named (Option.some_ne_none obj), short, string⟩, ?_⟩
  rw [update_entry]
  exact represents.keyed.insert ((entry_none represents).mpr free)
    (Finmap.lookup_eq_none.mpr unbound) obj

theorem register_spec (represents : manager.Represents map) (string : ∀ c ∈ path, c ≠ 0)
    (named : path ≠ []) (short : path.length ≤ 15) (obj : α) :
    (manager.registerObject path (some obj)).1 = (map.register path obj).1 ∧
      (manager.registerObject path (some obj)).2.Represents (map.register path obj).2 := by
  obtain ⟨removed, absent⟩ := removal_represents represents string named
  have unbound : pathKey path ∉ map.erase (pathKey path) := Finmap.notMem_erase_self
  simp only [registerObject, PathMap.register]
  cases found : (List.finRange maxSpecialPathNum).find? fun i =>
      decide (((manager.removeObject path).2.devices i).name = []) with
  | none =>
      have taken : ∀ i, ((manager.removeObject path).2.devices i).name ≠ [] := by
        intro i free
        exact List.find?_eq_none.mp found i (List.mem_finRange i) (decide_eq_true free)
      have full : maxSpecialPathNum ≤ (map.erase (pathKey path)).keys.card := by
        rw [removed.keyed.full_iff]
        intro i free
        exact taken i ((entry_none removed).mp free)
      rw [if_pos full]
      refine ⟨rfl, ?_⟩
      rcases absent with same | ⟨i, free⟩
      · rw [same]
        exact represents
      · exact absurd free (taken i)
  | some i =>
      have first := List.find?_some found
      have free : ((manager.removeObject path).2.devices i).name = [] := of_decide_eq_true first
      have room : ¬ maxSpecialPathNum ≤ (map.erase (pathKey path)).keys.card := by
        rw [removed.keyed.full_iff]
        intro taken
        exact taken i ((entry_none removed).mpr free)
      rw [if_neg room]
      refine ⟨rfl, ?_⟩
      have stored := store_spec removed string named short unbound free obj
      rwa [insert_erase] at stored

theorem serve_spec (represents : manager.Represents map) {request : PathRequest α}
    (fair : request.Fair) :
    (manager.serve request).1 = (map.serve request).1 ∧
      (manager.serve request).2.Represents (map.serve request).2 := by
  cases request with
  | registerObject path obj =>
      obtain ⟨named, short, string⟩ := fair
      obtain ⟨code, kept⟩ := register_spec represents string named short obj
      exact ⟨congrArg PathAnswer.code code, kept⟩
  | removeObject path =>
      obtain ⟨named, -, string⟩ := fair
      obtain ⟨code, kept⟩ := remove_spec represents string named
      exact ⟨congrArg PathAnswer.code code, kept⟩
  | get path => exact ⟨congrArg PathAnswer.object (get_eq represents fair), represents⟩

theorem serveAll_spec (represents : manager.Represents map) {requests : List (PathRequest α)}
    (fair : ∀ request ∈ requests, request.Fair) :
    (manager.serveAll requests).1 = (map.serveAll requests).1 ∧
      (manager.serveAll requests).2.Represents (map.serveAll requests).2 := by
  induction requests generalizing manager map with
  | nil => exact ⟨rfl, represents⟩
  | cons request rest ih =>
      obtain ⟨answer, kept⟩ := serve_spec represents (fair request List.mem_cons_self)
      obtain ⟨answers, last⟩ :=
        ih kept fun request member => fair request (List.mem_cons_of_mem _ member)
      exact ⟨congrArg₂ List.cons answer answers, last⟩

theorem get_long (represents : manager.Represents map) (long : path = [] ∨ 15 < path.length) :
    map.get path = none := by
  apply represents.keyed.absent
  intro i value held
  obtain ⟨same, -, named⟩ := entry_some represents held
  have length := congrArg List.length same
  rw [pathKey, pathKey, List.length_map, List.length_map] at length
  have short := (represents.fits i).short
  rcases long with none | long
  · exact named (by rw [none]; rfl)
  · omega

end SpecialPathManager

namespace PathMap

theorem get_register {map : PathMap α} (room : map.keys.card < maxSpecialPathNum)
    (path other : List UInt8) (obj : α) :
    (map.register path obj).2.get other =
      if pathKey path = pathKey other then some obj else map.get other := by
  have erased : ¬ maxSpecialPathNum ≤ (map.erase (pathKey path)).keys.card := by
    rw [Finmap.keys_erase]
    exact Nat.not_le.mpr (Nat.lt_of_le_of_lt Finset.card_erase_le room)
  rw [register, if_neg erased, get, get]
  by_cases same : pathKey path = pathKey other
  · rw [if_pos same, same, Finmap.lookup_insert]
  · rw [if_neg same, Finmap.lookup_insert_of_ne _ (Ne.symm same)]

theorem register_card (map : PathMap α) (path : List UInt8) (obj : α) :
    (map.register path obj).2.keys.card ≤ map.keys.card + 1 := by
  rw [register]
  split
  · exact Nat.le_succ _
  · have keys : (map.insert (pathKey path) obj).keys ⊆ insert (pathKey path) map.keys := by
      intro key member
      rw [Finmap.mem_keys, Finmap.mem_insert] at member
      rw [Finset.mem_insert, Finmap.mem_keys]
      exact member
    exact (Finset.card_le_card keys).trans (Finset.card_insert_le _ _)

theorem get_registerAll {map : PathMap α} {entries : List (List UInt8 × α)}
    (distinct : entries.Pairwise fun one two => pathKey one.1 ≠ pathKey two.1)
    (room : map.keys.card + entries.length ≤ maxSpecialPathNum) (path : List UInt8) :
    (map.serveAll (entries.map fun entry => .registerObject entry.1 entry.2)).2.get path =
      ((entries.find? fun entry => pathKey entry.1 == pathKey path).map Prod.snd).or
        (map.get path) := by
  induction entries generalizing map with
  | nil => rfl
  | cons entry rest ih =>
      obtain ⟨other, distinct⟩ := List.pairwise_cons.mp distinct
      rw [List.length_cons] at room
      have card := map.register_card entry.1 entry.2
      have later := @ih (map.register entry.1 entry.2).2 distinct (by omega)
      rw [get_register (by omega)] at later
      refine later.trans ?_
      by_cases same : pathKey entry.1 = pathKey path
      · have none : (rest.find? fun entry => pathKey entry.1 == pathKey path) = none := by
          rw [List.find?_eq_none]
          intro second member equal
          exact other second member (same.trans (beq_iff_eq.mp equal).symm)
        have first : (pathKey entry.1 == pathKey path) = true := beq_iff_eq.mpr same
        rw [List.find?_cons, first, none, if_pos same]
        rfl
      · have first : (pathKey entry.1 == pathKey path) = false := beq_eq_false_iff_ne.mpr same
        rw [List.find?_cons, first, if_neg same]

end PathMap

theorem pathKey_eq (path : List UInt8) : pathKey path = path.map toLower := by
  apply List.map_congr_left
  intro ch _
  rw [Fat.tolower, toLower]
  split
  · rw [UInt8.sub_eq_add_neg, UInt8.add_assoc]
    rfl
  · rfl

/-- The registry refines a map whose keys are names up to case and that has room for 16: all
calls answer as those of the map do, and after them every string is bound to what it is bound
to in the map, which is nothing for the empty string and for those longer than 15. -/
theorem special_paths_refine {requests : List (PathRequest α)}
    (fair : ∀ request ∈ requests, request.Fair) :
    (SpecialPathManager.create.serveAll requests).1 = (PathMap.serveAll ∅ requests).1 ∧
      (PathMap.serveAll ∅ requests).2.keys.card ≤ maxSpecialPathNum ∧
      ∀ path : List UInt8, (∀ c ∈ path, c ≠ 0) →
        (SpecialPathManager.create.serveAll requests).2.get path =
            (PathMap.serveAll ∅ requests).2.get path ∧
          (path = [] ∨ 15 < path.length →
            (SpecialPathManager.create.serveAll requests).2.get path = none) := by
  obtain ⟨answers, represents⟩ :=
    SpecialPathManager.serveAll_spec SpecialPathManager.create_represents fair
  refine ⟨answers, represents.keyed.card_le, ?_⟩
  intro path string
  refine ⟨SpecialPathManager.get_eq represents string, ?_⟩
  intro long
  rw [SpecialPathManager.get_eq represents string]
  exact SpecialPathManager.get_long represents long

theorem special_paths_refine_case :
    (SpecialPathManager.create.serveAll
        [.registerObject [97] 1, .registerObject [65] 2, .get [97]]).1 =
          [.code 0, .code 0, .object (some 2)] ∧
      (SpecialPathManager.create.serveAll
          [.registerObject [97] 1, .registerObject [65] 2, .get [97]]).1 =
        (PathMap.serveAll ∅ [.registerObject [97] 1, .registerObject [65] 2, .get [97]]).1 := by
  have fair : ∀ request ∈ [PathRequest.registerObject [97] 1, .registerObject [65] 2, .get [97]],
      request.Fair := by
    simp [PathRequest.Fair]
  exact ⟨by decide +kernel, (special_paths_refine fair).1⟩

def bootRequests : List (PathRequest Object) :=
  specialPaths.map fun entry => .registerObject entry.1.toUTF8.toList (.device entry.2)

/-- After the registrations of `main` the registry binds the special paths that `open` looks for
and no others. -/
theorem registry_specialPath {path : List UInt8} (string : ∀ c ∈ path, c ≠ 0) :
    (SpecialPathManager.create.serveAll bootRequests).2.get path = specialPath path := by
  have fair : ∀ request ∈ bootRequests, request.Fair := by
    intro request member
    simp only [bootRequests, specialPaths, List.map_cons, List.map_nil, List.mem_cons,
      List.not_mem_nil, or_false] at member
    rcases member with rfl | rfl | rfl | rfl
    all_goals exact ⟨by decide +kernel, by decide +kernel, by decide +kernel⟩
  obtain ⟨-, represents⟩ :=
    SpecialPathManager.serveAll_spec SpecialPathManager.create_represents fair
  have named : bootRequests = (specialPaths.map fun entry =>
      (entry.1.toUTF8.toList, Object.device entry.2)).map
        fun entry => .registerObject entry.1 entry.2 := rfl
  rw [SpecialPathManager.get_eq represents string, named,
    PathMap.get_registerAll (by decide +kernel) (by decide), List.find?_map, specialPath]
  have none : PathMap.get (∅ : PathMap Object) path = none := Finmap.lookup_empty _
  simp only [none, Option.or_none, Option.map_map, Function.comp_def, pathKey_eq]

end SysImpl.Kernel
