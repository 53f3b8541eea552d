import SysImpl.Fat.Resolution

/-! Where `Fat16FileSystem::openFile` stores the names of a path.

A name is copied into `filename`, which has `MAX_FILENAME_LENGTH + 1` places, with nothing
compared with that number. -/

namespace SysImpl.Fat

open Bytes

variable {disk : Disk}

/-- The indices of `filename` that the loop over the names stores to: each name with its zero.
Nothing is said of what follows a store behind the end. -/
def nameStores (fuel : Nat) (garbage : Mem) : Nat → Fat16FileSystem disk → OpenDirectory disk →
    List UInt8 → List Nat
  | 0, _, _, _ => []
  | rounds + 1, fs, scwd, cursor =>
      if cursor = [] then []
      else
        let (filename, cursor) := scanName cursor
        List.range (filename.length + 1) ++
          if filename.length ≤ maxFilenameLength then
            match scwd.toDirectory.openFile fuel fs filename garbage with
            | .ok (some file, fs) =>
                if cursor.head? = some slash then
                  match OpenDirectory.fromFile fuel (.cluster file) with
                  | .ok (some scwd) => nameStores fuel garbage rounds fs scwd (skipSlashes cursor)
                  | _ => []
                else []
            | _ => []
          else []

/-- All indices that a call of `openFile` stores to, the first of them before the loop. -/
def Fat16FileSystem.pathStores (fs : Fat16FileSystem disk) (fuel : Nat) (path : List UInt8)
    (garbage : Mem) : List Nat :=
  match fs.getRootDirectory fuel garbage with
  | .error _ => []
  | .ok scwd => 0 :: nameStores fuel garbage (path.length + 1) fs scwd (skipSlashes path)

def Overlong (path : List UInt8) : Prop := ∃ name ∈ components path, maxFilenameLength < name.length

/-- Every store is inside the buffer, and a path with a name that does not fit is not found. -/
structure StoresInside (fs : Fat16FileSystem disk) (fuel : Nat) (path : List UInt8)
    (garbage : Mem) : Prop where
  inside : ∀ i ∈ fs.pathStores fuel path garbage, i ≤ maxFilenameLength
  answer : Overlong path → fs.openFile fuel path garbage ≠ .error .nameOverrun ∧
    ∀ result last, fs.openFile fuel path garbage = .ok (result, last) → result = none

variable {fuel : Nat} {garbage : Mem}

theorem round_names {cursor : List UInt8} (start : cursor.head? ≠ some slash) (more : cursor ≠ []) :
    (scanName cursor).2 = [] ∧ components cursor = [(scanName cursor).1] ∨
      (scanName cursor).2.head? = some slash ∧ components cursor =
        (scanName cursor).1 :: components (skipSlashes (scanName cursor).2) ∧
        (skipSlashes (scanName cursor).2).length < cursor.length := by
  obtain ⟨member, shape⟩ := path_step start more
  obtain ⟨whole, _, _⟩ := scanName_spec cursor
  rcases shape with ⟨ends, names, _⟩ | ⟨goes, names, _, _⟩
  · exact Or.inl ⟨ends, names⟩
  · have length := skipSlashes_length (scanName cursor).2
    have total := congrArg List.length whole
    have passed := List.length_pos_of_ne_nil (components_nonempty member)
    rw [List.length_append] at total
    exact Or.inr ⟨goes, names, by omega⟩

theorem nameStores_iff {rounds : Nat} {fs : Fat16FileSystem disk} {scwd : OpenDirectory disk}
    {cursor : List UInt8} (start : cursor.head? ≠ some slash) (more : cursor.length < rounds) :
    (∀ i ∈ nameStores fuel garbage rounds fs scwd cursor, i ≤ maxFilenameLength) ↔
      ReachedShort fuel garbage fs scwd (components cursor) := by
  induction rounds generalizing fs scwd cursor with
  | zero => exact absurd more (Nat.not_lt_zero _)
  | succ rounds ih =>
      by_cases empty : cursor = []
      · subst empty
        refine iff_of_true (by simp [nameStores]) ?_
        exact ReachedShort.of_short (by intro name member; cases member)
      · simp only [nameStores, if_neg empty, List.forall_mem_append]
        have copied : (∀ i ∈ List.range ((scanName cursor).1.length + 1), i ≤ maxFilenameLength) ↔
            (scanName cursor).1.length ≤ maxFilenameLength := by
          constructor
          · intro inside
            exact inside _ (List.mem_range.mpr (Nat.lt_succ_self _))
          · intro short i member
            have below := List.mem_range.mp member
            omega
        rw [copied]
        rcases round_names start empty with ⟨ends, names⟩ | ⟨goes, names, shorter⟩
        · rw [names, reachedShort_cons]
          refine and_congr_right fun short => ?_
          simp only [if_pos short, ends, List.head?_nil, reduceCtorEq, if_false]
          refine iff_of_true ?_ ?_
          · intro i member
            split at member
            · cases member
            · cases member
          · intro _ _ _ _ _
            exact ReachedShort.of_short (by intro name member; cases member)
        · rw [names, reachedShort_cons]
          refine and_congr_right fun short => ?_
          simp only [if_pos short, if_pos goes]
          constructor
          · intro inside file fs' scwd' opened entered
            simp only [opened, entered] at inside
            exact (ih (skipSlashes_head _) (by omega)).mp inside
          · intro reached i member
            split at member
            · next file fs' opened =>
                split at member
                · next scwd' entered =>
                    exact (ih (skipSlashes_head _) (by omega)).mpr
                      (reached file fs' scwd' opened entered) i member
                · cases member
            · cases member

/-- While no name that is too long is reached, the call is not stopped by one, and finds
nothing if there is one. -/
theorem openNames_fits {rounds : Nat} {fs : Fat16FileSystem disk} {scwd : OpenDirectory disk}
    (file : File disk) {cursor : List UInt8} (start : cursor.head? ≠ some slash)
    (reached : ReachedShort fuel garbage fs scwd (components cursor)) (more : cursor.length < rounds) :
    openNames fuel garbage rounds fs scwd file cursor ≠ .error .nameOverrun ∧
      (Overlong cursor → ∀ result last,
        openNames fuel garbage rounds fs scwd file cursor = .ok (result, last) → result = none) := by
  induction rounds generalizing fs scwd file cursor with
  | zero => exact absurd more (Nat.not_lt_zero _)
  | succ rounds ih =>
      by_cases empty : cursor = []
      · subst empty
        refine ⟨by simp [openNames], ?_⟩
        rintro ⟨name, member, _⟩
        cases member
      · simp only [openNames, if_neg empty]
        rcases round_names start empty with ⟨ends, names⟩ | ⟨goes, names, shorter⟩
        · rw [names] at reached
          obtain ⟨short, -⟩ := reachedShort_cons.mp reached
          simp only [if_pos short, ends, List.head?_nil, reduceCtorEq, if_false]
          constructor
          · split <;> simp
          · rintro ⟨name, member, long⟩
            rw [names, List.mem_singleton] at member
            rw [member] at long
            exact absurd short (Nat.not_le.mpr long)
        · rw [names] at reached
          obtain ⟨short, later⟩ := reachedShort_cons.mp reached
          simp only [if_pos short, if_pos goes]
          have rest : Overlong cursor → Overlong (skipSlashes (scanName cursor).2) := by
            rintro ⟨name, member, long⟩
            rw [names] at member
            rcases List.mem_cons.mp member with rfl | member
            · exact absurd short (Nat.not_le.mpr long)
            · exact ⟨name, member, long⟩
          cases opened : scwd.toDirectory.openFile fuel fs (scanName cursor).1 garbage with
          | error fault => simp
          | ok pair =>
              obtain ⟨found, fs'⟩ := pair
              cases found with
              | none => simp +contextual [eq_comm]
              | some file' =>
                  simp only
                  cases entered : OpenDirectory.fromFile fuel (.cluster file') with
                  | error fault => simp
                  | ok dir =>
                      cases dir with
                      | none => simp +contextual [eq_comm]
                      | some scwd' =>
                          simp only
                          obtain ⟨unstopped, none⟩ := ih scwd'.file (skipSlashes_head _)
                            (later file' fs' scwd' opened entered) (by omega)
                          exact ⟨unstopped, fun long => none (rest long)⟩

theorem pathFits_of_error {fs : Fat16FileSystem disk} {path : List UInt8} {fault : FileFault}
    (failed : fs.getRootDirectory fuel garbage = .error fault) : PathFits fs fuel path garbage := by
  intro root opened
  rw [failed] at opened
  cases opened

theorem walk_overlong {contents : Target → List UInt8} {target : Target}
    {names : List (List UInt8)} {ending : Bool}
    (long : ∃ name ∈ names, maxFilenameLength < name.length) :
    walk contents target names ending = none := by
  induction names generalizing target with
  | nil =>
      obtain ⟨name, member, _⟩ := long
      cases member
  | cons first rest ih =>
      simp only [walk]
      cases found : (entriesOf contents target).find?
          (fun entry => sameName entry.filename first) with
      | none => rfl
      | some entry =>
          have member := List.mem_of_find?_eq_some found
          have same := List.find?_some found
          obtain ⟨record, _, made⟩ := List.mem_map.mp member
          have fits := entryName_length record
          have length := congrArg List.length (of_decide_eq_true same)
          rw [List.length_map, List.length_map, ← made] at length
          have later : ∃ name ∈ rest, maxFilenameLength < name.length := by
            obtain ⟨name, member, exceeds⟩ := long
            rcases List.mem_cons.mp member with rfl | member
            · simp only [entryInfo] at length
              simp only [maxFilenameLength] at exceeds
              omega
            · exact ⟨name, member, exceeds⟩
          have more : rest ≠ [] := by
            rintro rfl
            obtain ⟨name, member, _⟩ := later
            cases member
          simp only [more, false_and, if_false, ih later, ite_self]

/-- When no store is outside of `filename`: a name that is too long is only met behind one that
fits and is not found or not a directory. The path is then not found, in every volume whose
chains end. -/
theorem path_stores_iff (fs : Fat16FileSystem disk) (fuel : Nat) (path : List UInt8)
    (garbage : Mem) :
    (StoresInside fs fuel path garbage ↔ PathFits fs fuel path garbage) ∧
      (enoughFuel ≤ fuel → FiniteChains disk fs.info (contentsOf disk fs.info) →
        (∀ c ∈ path, c ≠ 0) → PathFits fs fuel path garbage → Overlong path →
          ∃ last, fs.openFile fuel path garbage = .ok (none, last)) := by
  have length := skipSlashes_length path
  constructor
  · cases opened : fs.getRootDirectory fuel garbage with
    | error fault =>
        refine iff_of_true ⟨?_, fun _ => ?_⟩ (pathFits_of_error opened)
        · simp [Fat16FileSystem.pathStores, opened]
        · simp [Fat16FileSystem.openFile, opened]
    | ok root =>
        have only : PathFits fs fuel path garbage ↔
            ReachedShort fuel garbage fs root (components (skipSlashes path)) := by
          simp only [PathFits, opened, components_skip, Except.ok.injEq, forall_eq']
        rw [only]
        constructor
        · intro stores
          rw [← nameStores_iff (skipSlashes_head path) (by omega : _ < path.length + 1)]
          intro i member
          apply stores.inside
          simp only [Fat16FileSystem.pathStores, opened]
          exact List.mem_cons_of_mem _ member
        · intro reached
          have fits := openNames_fits root.file (skipSlashes_head path) reached
            (by omega : _ < path.length + 1)
          refine ⟨?_, ?_⟩
          · intro i member
            simp only [Fat16FileSystem.pathStores, opened] at member
            rcases List.mem_cons.mp member with rfl | member
            · exact Nat.zero_le _
            · exact (nameStores_iff (skipSlashes_head path) (by omega)).mpr reached i member
          · intro long
            simp only [Overlong, components_skip] at fits
            simp only [Fat16FileSystem.openFile, opened]
            exact ⟨fits.1, fits.2 long⟩
  · intro enough finite nonzero fits long
    obtain ⟨result, last, done, found⟩ :=
      openFile_resolves enough garbage (finite.along InTree.root rfl _) nonzero fits
    rw [walk_overlong long] at found
    cases found
    exact ⟨last, done⟩

/-- A path of 16 letters. -/
theorem long_name_overruns :
    ¬ ∀ disk (fs : Fat16FileSystem disk) fuel path garbage,
      (∀ c ∈ path, c ≠ 0) → StoresInside fs fuel path garbage := by
  intro claim
  have stores := claim longDisk longVolume enoughFuel (List.replicate 16 0x61) (fun _ => 0)
    (by decide +kernel)
  obtain ⟨root, opened, -, -⟩ := getRootDirectory_spec (Nat.le_refl _) (fun _ => 0) longVolume
  have start : skipSlashes (List.replicate 16 0x61) = List.replicate 16 0x61 := by decide
  have inside := stores.inside 16
  simp only [Fat16FileSystem.pathStores, opened, start] at inside
  have stored : 16 ∈ nameStores enoughFuel (fun _ => 0) 17 longVolume root
      (List.replicate 16 0x61) := by
    rw [nameStores]
    simp only [show scanName (List.replicate 16 0x61) = (List.replicate 16 0x61, []) by decide]
    exact List.mem_append_left _ (by decide)
  exact absurd (inside (List.mem_cons_of_mem _ stored)) (by decide)

end SysImpl.Fat
