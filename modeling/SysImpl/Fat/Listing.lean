import SysImpl.Fat.Resolution

/-! What `Directory::init` makes of the bytes of a directory. -/

namespace SysImpl.Fat

open Bytes

variable {disk : Disk}

def copyField : List UInt8 → List UInt8 → List UInt8
  | name, [] => name
  | name, c :: rest => if c ≠ 0 ∧ c ≠ 0x20 then copyField (name ++ [c]) rest else name

/-- What is in the buffer `filename` when a name is complete. -/
def decodeName (entry : List UInt8) : List UInt8 :=
  let name := copyField [] (entry.take 8)
  let name :=
    if entryByte entry 8 ≠ 0 ∧ entryByte entry 8 ≠ 0x20 then
      copyField (name ++ [0x2E]) ((entry.drop 8).take 3)
    else name
  name ++ [0]

def strcpy (source : List UInt8) : List UInt8 := source.takeWhile (· ≠ 0)

def filenameSize : Nat := 15

def wholeRecords (bytes : List UInt8) : List (List UInt8) :=
  (List.range (bytes.length / 32)).map fun i => (bytes.drop (32 * i)).take 32

/-- The records that are shown: those before the first that starts with a zero, without
volume labels, hidden and deleted ones. -/
def shownRecords (bytes : List UInt8) : List (List UInt8) :=
  ((wholeRecords bytes).takeWhile fun record => entryByte record 0 ≠ 0).filter listed

theorem wholeRecords_cons {bytes : List UInt8} (more : 32 ≤ bytes.length) :
    wholeRecords bytes = bytes.take 32 :: wholeRecords (bytes.drop 32) := by
  have count : bytes.length / 32 = (bytes.length - 32) / 32 + 1 := by omega
  rw [wholeRecords, wholeRecords, count, List.range_succ_eq_map, List.map_cons, List.map_map,
    List.length_drop]
  congr 1
  apply List.map_congr_left
  intro i _
  simp only [Function.comp_apply, List.drop_drop]
  congr 2
  omega

theorem wholeRecords_nil {bytes : List UInt8} (few : bytes.length < 32) :
    wholeRecords bytes = [] := by
  rw [wholeRecords, Nat.div_eq_of_lt few]
  rfl

theorem records_eq (bytes : List UInt8) :
    records bytes = (wholeRecords bytes).takeWhile fun record => entryByte record 0 ≠ 0 := by
  induction bytes using records.induct with
  | case1 bytes more ih =>
      rw [records, if_pos more, wholeRecords_cons more.1, List.takeWhile_cons_of_pos, ih]
      rw [entryByte_take]
      exact decide_eq_true more.2
  | case2 bytes stops =>
      rw [records, if_neg stops]
      by_cases more : 32 ≤ bytes.length
      · rw [wholeRecords_cons more, List.takeWhile_cons_of_neg]
        rw [entryByte_take]
        intro starts
        exact stops ⟨more, of_decide_eq_true starts⟩
      · rw [wholeRecords_nil (Nat.lt_of_not_le more)]
        rfl

theorem listing_eq (bytes : List UInt8) : listing bytes = (shownRecords bytes).map entryInfo := by
  rw [listing, records_eq, shownRecords]

theorem wholeRecords_length {bytes record : List UInt8} (member : record ∈ wholeRecords bytes) :
    record.length = 32 := by
  obtain ⟨i, inside, rfl⟩ := List.mem_map.mp member
  have inside := List.mem_range.mp inside
  rw [List.length_take, List.length_drop]
  omega

theorem shownRecords_whole {bytes record : List UInt8} (member : record ∈ shownRecords bytes) :
    record ∈ wholeRecords bytes :=
  (List.takeWhile_sublist _).subset (List.mem_filter.mp member).1

theorem copyField_eq (name field : List UInt8) : copyField name field = name ++ nameField field := by
  induction field generalizing name with
  | nil => simp [copyField, nameField]
  | cons c rest ih =>
      simp only [copyField, nameField]
      by_cases stops : c ≠ 0 ∧ c ≠ 0x20
      · rw [if_pos stops, ih, List.takeWhile_cons_of_pos (by simpa using stops)]
        simp [nameField]
      · rw [if_neg stops, List.takeWhile_cons_of_neg (by simpa using stops), List.append_nil]

theorem extension_eq_nil {entry : List UInt8} (length : entry.length = 32) :
    nameField ((entry.drop 8).take 3) = [] ↔
      ¬ (entryByte entry 8 ≠ 0 ∧ entryByte entry 8 ≠ 0x20) := by
  cases rest : entry.drop 8 with
  | nil =>
      have short := congrArg List.length rest
      rw [List.length_drop, List.length_nil] at short
      omega
  | cons c more =>
      have first : entryByte entry 8 = c := by
        have here := congrArg (fun bytes => bytes[0]?) rest
        simp only [List.getElem?_drop, List.getElem?_cons_zero] at here
        simp [entryByte, here]
      rw [first, List.take_succ_cons, nameField]
      by_cases stops : c ≠ 0 ∧ c ≠ 0x20
      · rw [List.takeWhile_cons_of_pos (by simpa using stops)]
        simp [stops]
      · rw [List.takeWhile_cons_of_neg (by simpa using stops)]
        simp [stops]

theorem decodeName_eq {entry : List UInt8} (length : entry.length = 32) :
    decodeName entry = entryName entry ++ [0] := by
  simp only [decodeName, entryName, copyField_eq, List.nil_append]
  by_cases ends : entryByte entry 8 ≠ 0 ∧ entryByte entry 8 ≠ 0x20
  · rw [if_pos ends, if_neg fun none => (extension_eq_nil length).mp none ends]
    simp
  · rw [if_neg ends, if_pos ((extension_eq_nil length).mpr ends), List.append_nil]

theorem strcpy_terminated {name : List UInt8} (nonzero : ∀ c ∈ name, c ≠ 0) :
    strcpy (name ++ [0]) = name := by
  rw [strcpy, List.takeWhile_append_of_pos (by simpa using nonzero)]
  simp

/-- `init` lists the shown records in order, as many as its first pass has counted, each under
the name that its buffer holds; that name fits in the buffer and in `FileInfo::filename`. -/
theorem directory_listing {file : File disk} {bytes : List UInt8} {fuel : Nat}
    (holds : file.Holds bytes) (enough : bytes.length < 32 * fuel) :
    ∃ dir, OpenDirectory.init fuel file = .ok dir ∧
      dir.infos = (shownRecords bytes).map entryInfo ∧
      (∃ counted mid, readEntries fuel (file.seek 0 0) = .ok (counted, mid) ∧
        dir.infos.length = counted.countP listed) ∧
      ∀ record ∈ shownRecords bytes,
        strcpy (decodeName record) = (entryInfo record).filename ∧
          (decodeName record).length ≤ filenameSize := by
  obtain ⟨dir, done, infos, -⟩ := OpenDirectory.init_spec holds enough
  obtain ⟨same, start⟩ := file.seek_start
  obtain ⟨mid, counted, -⟩ := readEntries_spec (same.holds holds) (by rw [start]; omega)
  rw [start, List.drop_zero] at counted
  refine ⟨dir, done, infos.trans (listing_eq bytes), ⟨records bytes, mid, counted, ?_⟩, ?_⟩
  · rw [infos, listing, List.length_map, List.countP_eq_length_filter]
  · intro record member
    have length := wholeRecords_length (shownRecords_whole member)
    rw [decodeName_eq length, strcpy_terminated (entryName_nonzero record)]
    refine ⟨rfl, ?_⟩
    have short := entryName_length record
    simp only [List.length_append, List.length_singleton, filenameSize]
    omega

theorem directory_listing_root :
    ∃ dir, OpenDirectory.init enoughFuel (.sequential (rootFile longVolume fun _ => 0)) = .ok dir ∧
      dir.infos = (shownRecords (contentsOf longDisk longVolume.info .root)).map entryInfo := by
  have short : (contentsOf longDisk longVolume.info .root).length < 32 * enoughFuel :=
    (contentsOf_length .root).trans_le (by decide)
  obtain ⟨dir, done, infos, -⟩ := directory_listing (rootFile_holds longVolume fun _ => 0) short
  exact ⟨dir, done, infos⟩

end SysImpl.Fat
