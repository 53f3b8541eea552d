import SysImpl.Fat.Resolution

/-! Where the cursor of a file stands that a path has opened.

A new file starts at its first byte. But a file that was read as a directory on the way, as
the last one of a path with a slash at its end was, is left behind its entries. -/

namespace SysImpl.Fat

open Bytes

variable {disk : Disk} {info : FSInfo}

/-- Where the reads of the entries of a directory end: behind the first record that is not one
of them, or at the end of the file. -/
def listingEnd (bytes : List UInt8) : Nat :=
  min bytes.length (32 * (records bytes).length + 32)

def throughSlash (path : List UInt8) : Bool := (components path).isEmpty || closed path

namespace ClusterFile

variable {file after : ClusterFile disk}

theorem getc_same {got : Option UInt8} (done : file.getc = .ok (got, after)) :
    SameFile after file := by
  simp only [getc] at done
  split_ifs at done with ends
  · simp only [Except.ok.injEq, Prod.mk.injEq] at done
    rw [← done.2]
    exact SameFile.refl file
  · split at done
    · cases done
    · next loaded load =>
        simp only [Except.ok.injEq, Prod.mk.injEq] at done
        obtain ⟨same, _⟩ := ensureCursorInBuffer_ok load
        rw [← done.2]
        exact ⟨same.info, same.stat, same.clusters, same.count⟩

theorem read_same {size : Nat} {bytes : List UInt8} (done : read size file = .ok (bytes, after)) :
    SameFile after file := by
  induction size generalizing file after bytes with
  | zero =>
      simp only [read, Except.ok.injEq, Prod.mk.injEq] at done
      rw [← done.2]
      exact SameFile.refl file
  | succ size ih =>
      simp only [read] at done
      split at done
      · cases done
      · next mid got =>
          simp only [Except.ok.injEq, Prod.mk.injEq] at done
          rw [← done.2]
          exact getc_same got
      · next ch mid got =>
          split at done
          · cases done
          · next rest last later =>
              simp only [Except.ok.injEq, Prod.mk.injEq] at done
              rw [← done.2]
              exact (ih later).trans (getc_same got)

theorem create_cursor {fuel start : Nat} {fs fs' : Fat16FileSystem disk} {stat : FileStat}
    {garbage : Mem} (done : create fuel fs start stat garbage = .ok (file, fs')) :
    file.cursor = 0 := by
  simp only [create] at done
  split at done
  · cases done
  · split at done
    · cases done
    · simp only [Except.ok.injEq, Prod.mk.injEq] at done
      rw [← done.1]

end ClusterFile

namespace File

variable {file other after : File disk}

theorem Same.symm (same : file.Same other) : other.Same file := by
  cases same with
  | sequential place => exact Same.sequential ⟨place.1.symm, place.2.symm⟩
  | cluster same =>
      exact Same.cluster ⟨same.info.symm, same.stat.symm, same.clusters.symm, same.count.symm⟩

theorem Same.directory (same : file.Same other) : file.directory = other.directory := by
  cases same with
  | sequential place => rfl
  | cluster same => exact congrArg FileStat.directory same.stat

theorem read_same {size : Nat} {bytes : List UInt8} (done : file.read size = .ok (bytes, after)) :
    after.Same file := by
  cases file with
  | sequential file =>
      simp only [File.read, Except.ok.injEq, Prod.mk.injEq] at done
      rw [← done.2]
      exact Same.sequential (SequentialFile.read_place size file)
  | cluster file =>
      simp only [File.read] at done
      cases got : file.read size with
      | error fault =>
          rw [got] at done
          cases done
      | ok result =>
          rw [got] at done
          simp only [Except.map, Except.ok.injEq, Prod.mk.injEq] at done
          rw [← done.2]
          exact Same.cluster (ClusterFile.read_same got)

end File

theorem readEntries_same {fuel : Nat} {file after : File disk} {entries : List (List UInt8)}
    (done : readEntries fuel file = .ok (entries, after)) : after.Same file := by
  induction fuel generalizing file after entries with
  | zero => cases done
  | succ fuel ih =>
      simp only [readEntries] at done
      split at done
      · cases done
      · next entry mid got =>
          split_ifs at done
          · cases later : readEntries fuel mid with
            | error fault =>
                rw [later] at done
                cases done
            | ok result =>
                rw [later] at done
                simp only [Except.map, Except.ok.injEq, Prod.mk.injEq] at done
                rw [← done.2]
                exact (ih later).trans (File.read_same got)
          · simp only [Except.ok.injEq, Prod.mk.injEq] at done
            rw [← done.2]
            exact File.read_same got

theorem readEntries_cursor {fuel : Nat} {file after : File disk} {bytes : List UInt8}
    {entries : List (List UInt8)} (holds : file.Holds bytes)
    (done : readEntries fuel file = .ok (entries, after)) :
    after.cursor = file.cursor + listingEnd (bytes.drop file.cursor) := by
  induction fuel generalizing file after entries with
  | zero => cases done
  | succ fuel ih =>
      obtain ⟨mid, got, same, cursor⟩ := holds.read 32
      have length : ((bytes.drop file.cursor).take 32).length =
          min 32 (bytes.length - file.cursor) := by
        rw [List.length_take, List.length_drop]
      simp only [readEntries, got] at done
      rw [entryByte_take] at done
      by_cases more : ((bytes.drop file.cursor).take 32).length = 32 ∧
          entryByte (bytes.drop file.cursor) 0 ≠ 0
      · rw [if_pos more] at done
        have step : records (bytes.drop file.cursor) = (bytes.drop file.cursor).take 32 ::
            records (bytes.drop (file.cursor + 32)) := by
          rw [records, if_pos ⟨by rw [List.length_drop]; omega, more.2⟩, List.drop_drop]
        cases later : readEntries fuel mid with
        | error fault =>
            rw [later] at done
            cases done
        | ok result =>
            rw [later] at done
            simp only [Except.map, Except.ok.injEq, Prod.mk.injEq] at done
            have rest := ih (same.holds holds) later
            rw [cursor, more.1] at rest
            rw [← done.2, rest]
            simp only [listingEnd, step, List.length_cons, List.length_drop]
            omega
      · rw [if_neg more] at done
        simp only [Except.ok.injEq, Prod.mk.injEq] at done
        have none : records (bytes.drop file.cursor) = [] := by
          rw [records, if_neg]
          rintro ⟨whole, starts⟩
          rw [List.length_drop] at whole
          exact more ⟨by omega, starts⟩
        rw [← done.2, cursor, length]
        simp only [listingEnd, none, List.length_nil, List.length_drop]
        omega

namespace OpenDirectory

theorem init_leaves {fuel : Nat} {file : File disk} {dir : OpenDirectory disk}
    (done : init fuel file = .ok dir) :
    dir.file.Same file ∧ ∀ bytes, file.Holds bytes → dir.file.cursor = listingEnd bytes := by
  obtain ⟨same, _⟩ := file.seek_start
  simp only [init] at done
  split at done
  · cases done
  · next counted mid first =>
      obtain ⟨sameAgain, again⟩ := mid.seek_start
      have back := sameAgain.trans ((readEntries_same first).trans same)
      split at done
      · cases done
      · next entries last second =>
          split at done
          · cases done
          · next infos stored =>
              simp only [Except.ok.injEq] at done
              rw [← done]
              refine ⟨(readEntries_same second).trans back, ?_⟩
              intro bytes holds
              have ends := readEntries_cursor (back.holds holds) second
              rw [again, Nat.zero_add, List.drop_zero] at ends
              exact ends

theorem fromFile_init {fuel : Nat} {file : File disk} {dir : OpenDirectory disk}
    (done : fromFile fuel file = .ok (some dir)) : init fuel file = .ok dir := by
  simp only [fromFile] at done
  split_ifs at done
  · cases read : init fuel file with
    | error fault =>
        rw [read] at done
        cases done
    | ok other =>
        rw [read] at done
        simp only [Except.map, Except.ok.injEq, Option.some.injEq] at done
        rw [done]
  · simp at done

end OpenDirectory

def File.Listed (file : File disk) : Prop :=
  ∃ fuel before dir, OpenDirectory.init fuel before = .ok dir ∧ file = dir.file

theorem File.Listed.cursor {file : File disk} (listed : file.Listed) {bytes : List UInt8}
    (holds : file.Holds bytes) : file.cursor = listingEnd bytes := by
  obtain ⟨fuel, before, dir, done, rfl⟩ := listed
  obtain ⟨same, place⟩ := OpenDirectory.init_leaves done
  exact place bytes (same.symm.holds holds)

theorem Directory.openFile_cursor {fuel : Nat} {fs fs' : Fat16FileSystem disk} {dir : Directory}
    {name : List UInt8} {garbage : Mem} {file : ClusterFile disk}
    (opened : dir.openFile fuel fs name garbage = .ok (some file, fs')) : file.cursor = 0 := by
  cases found : dir.lookup name with
  | none =>
      simp only [Directory.openFile, found] at opened
      cases opened
  | some entry => exact ClusterFile.create_cursor ((Directory.openFile_eq found _ _ _).mp opened)

theorem throughSlash_nil : throughSlash [] = true := rfl

/-- The last name of a path decides whether its file is read as a directory. -/
theorem openNames_place {fuel rounds : Nat} {garbage : Mem} {fs last : Fat16FileSystem disk}
    {scwd : OpenDirectory disk} {result : File disk} {cursor : List UInt8}
    (start : cursor.head? ≠ some slash) (listed : scwd.file.Listed)
    (done : openNames fuel garbage rounds fs scwd scwd.file cursor = .ok (some result, last)) :
    if throughSlash cursor then result.Listed else result.cursor = 0 := by
  induction rounds generalizing fs scwd cursor with
  | zero => cases done
  | succ rounds ih =>
      by_cases empty : cursor = []
      · subst empty
        simp only [openNames, if_true, Except.ok.injEq, Prod.mk.injEq, Option.some.injEq] at done
        rw [throughSlash_nil, if_pos rfl, ← done.1]
        exact listed
      · obtain ⟨_, shape⟩ := path_step start empty
        have named : (components cursor).isEmpty = false := by
          rw [List.isEmpty_eq_false_iff]
          exact components_ne_nil start empty
        have through : throughSlash cursor = closed cursor := by
          rw [throughSlash, named, Bool.false_or]
        simp only [openNames, if_neg empty] at done
        split at done
        · split at done
          · cases done
          · simp at done
          · next file mid opened =>
              have fresh := Directory.openFile_cursor opened
              rcases shape with ⟨ends, _, bare⟩ | ⟨goes, _, closes, keeps⟩
              · rw [ends, List.head?_nil, if_neg (by simp)] at done
                simp only [Except.ok.injEq, Prod.mk.injEq, Option.some.injEq] at done
                rw [through, bare, if_neg (by simp), ← done.1]
                exact fresh
              · rw [if_pos goes] at done
                split at done
                · cases done
                · simp at done
                · next dir entered =>
                    have later := ih (skipSlashes_head _)
                      ⟨fuel, _, dir, OpenDirectory.fromFile_init entered, rfl⟩ done
                    have same : throughSlash (skipSlashes (scanName cursor).2) = closed cursor := by
                      by_cases ends : skipSlashes (scanName cursor).2 = []
                      · rw [ends, throughSlash_nil, closes ends]
                      · rw [keeps ends, throughSlash, List.isEmpty_eq_false_iff.mpr
                          (components_ne_nil (skipSlashes_head _) ends), Bool.false_or]
                    rw [through, ← same]
                    exact later
        · cases done

theorem throughSlash_skip (path : List UInt8) :
    throughSlash (skipSlashes path) = throughSlash path := by
  by_cases ends : skipSlashes path = []
  · have none : components path = [] := by
      rw [← components_skip, ends]
      rfl
    rw [ends, throughSlash_nil, throughSlash, none]
    rfl
  · obtain ⟨slashes, whole, _⟩ := skipSlashes_suffix path
    have last : closed path = closed (skipSlashes path) := by
      nth_rewrite 1 [whole]
      exact closed_append slashes ends
    rw [throughSlash, throughSlash, components_skip, last]

/-- A file that is opened by a path stands at its start, or behind the entries if the path has
led through a slash behind it. -/
theorem Fat16FileSystem.openFile_place {fuel : Nat} {garbage : Mem}
    {fs last : Fat16FileSystem disk} {path : List UInt8} {result : File disk}
    (done : fs.openFile fuel path garbage = .ok (some result, last)) :
    if throughSlash path then result.Listed else result.cursor = 0 := by
  simp only [Fat16FileSystem.openFile] at done
  split at done
  · cases done
  · next root opened =>
      rw [← throughSlash_skip]
      exact openNames_place (skipSlashes_head path) ⟨fuel, _, root, opened, rfl⟩ done

end SysImpl.Fat
