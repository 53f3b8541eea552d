import Mathlib.Data.List.Nodup
import SysImpl.Fat.Listing
import SysImpl.Kernel.Arguments

/-! Names of directory entries that are in order: each opens its own entry. -/

namespace SysImpl.Fat

open Bytes

variable {disk : Disk}

/-- A character of a name in a field: neither the padding nor the dot nor a lower-case
letter. -/
def NameChar (c : UInt8) : Prop := c ≠ 0 ∧ c ≠ 0x20 ∧ c ≠ 0x2E ∧ ¬ (97 ≤ c ∧ c ≤ 122)

/-- A field whose spaces are all at its end. -/
def PaddedField (field : List UInt8) : Prop :=
  ∃ chars spaces, field = chars ++ List.replicate spaces 0x20 ∧ ∀ c ∈ chars, NameChar c

def nameFields (record : List UInt8) : List UInt8 × List UInt8 :=
  (record.take 8, (record.drop 8).take 3)

/-- A record with a valid 8.3 name, or one of the records of the directory itself and of its
parent. -/
inductive ValidRecord (record : List UInt8) : Prop
  | name (base : PaddedField (nameFields record).1) (nonempty : entryByte record 0 ≠ 0x20)
      (extension : PaddedField (nameFields record).2)
  | dot (fields : nameFields record = (0x2E :: List.replicate 7 0x20, List.replicate 3 0x20))
  | dotdot
      (fields : nameFields record = (0x2E :: 0x2E :: List.replicate 6 0x20, List.replicate 3 0x20))

def FileInfoEx.reported (entry : FileInfoEx) : Kernel.FileInfo :=
  ⟨entry.filename, entry.size, entry.directory⟩

def readdirName (m : Mem) (address : Nat) (entry : FileInfoEx) : List UInt8 :=
  Kernel.loadString (Kernel.storeInfo m address entry.reported) address

/-- An open of the name makes a file of the cluster, the size and the directory flag of the
entry, and returns it if the chain from its cluster on ends. -/
def OpensEntry (disk : Disk) (dir : Directory) (name : List UInt8) (entry : FileInfoEx) : Prop :=
  ∀ fuel (fs : Fat16FileSystem disk) garbage,
    dir.openFile fuel fs name garbage =
        (ClusterFile.create fuel fs entry.cluster ⟨entry.size, entry.directory⟩ garbage).map
          (fun made => (some made.1, made.2)) ∧
      ∀ clusters, FatChain disk fs.info (entry.cluster % 2 ^ 16) clusters →
        clusters.length < fuel →
          ∃ file last, dir.openFile fuel fs name garbage = .ok (some file, last) ∧
            ClusterFile.Made file fs.info clusters ⟨entry.size, entry.directory⟩

theorem tolower_inj {c d : UInt8} (first : ¬ (97 ≤ c ∧ c ≤ 122)) (second : ¬ (97 ≤ d ∧ d ≤ 122))
    (same : tolower c = tolower d) : c = d := by
  simp only [tolower] at same
  grind

theorem sameName_upper {name other : List UInt8} (first : ∀ c ∈ name, ¬ (97 ≤ c ∧ c ≤ 122))
    (second : ∀ c ∈ other, ¬ (97 ≤ c ∧ c ≤ 122)) (same : sameName name other = true) :
    name = other := by
  have folded : name.map tolower = other.map tolower := of_decide_eq_true same
  induction name generalizing other with
  | nil => exact (List.map_eq_nil_iff.mp folded.symm).symm
  | cons c rest ih =>
      cases other with
      | nil => cases folded
      | cons d more =>
          rw [List.map_cons, List.map_cons] at folded
          obtain ⟨head, tail⟩ := List.cons.inj folded
          rw [tolower_inj (first c List.mem_cons_self) (second d List.mem_cons_self) head]
          congr 1
          exact ih (fun c member => first c (List.mem_cons_of_mem _ member))
            (fun c member => second c (List.mem_cons_of_mem _ member)) (decide_eq_true tail) tail

theorem sameName_comm (name other : List UInt8) : sameName name other = sameName other name := by
  simp only [sameName, eq_comm]

theorem sameName_trans {name other third : List UInt8} (one : sameName name other = true)
    (two : sameName other third = true) : sameName name third = true := by
  simp only [sameName, decide_eq_true_eq] at one two ⊢
  exact one.trans two

namespace PaddedField

variable {field : List UInt8}

theorem split (padded : PaddedField field) :
    field = nameField field ++ List.replicate (field.length - (nameField field).length) 0x20 := by
  obtain ⟨chars, spaces, rfl, plain⟩ := padded
  have kept : nameField (chars ++ List.replicate spaces 0x20) = chars := by
    rw [nameField, List.takeWhile_append_of_pos]
    · cases spaces with
      | zero => simp
      | succ spaces => simp [List.replicate_succ]
    · intro c member
      simp [(plain c member).1, (plain c member).2.1]
  rw [kept, List.length_append, List.length_replicate, Nat.add_sub_cancel_left]

theorem chars (padded : PaddedField field) : ∀ c ∈ nameField field, NameChar c := by
  obtain ⟨chars, spaces, rfl, plain⟩ := padded
  intro c member
  have kept := List.mem_takeWhile_imp member
  rcases List.mem_append.mp ((List.takeWhile_sublist _).subset member) with here | padding
  · exact plain c here
  · rw [List.eq_of_mem_replicate padding] at kept
    cases kept

theorem eq_of_name {other : List UInt8} (padded : PaddedField field) (again : PaddedField other)
    (length : field.length = other.length) (same : nameField field = nameField other) :
    field = other := by
  rw [padded.split, again.split, length, same]

end PaddedField

theorem name_parts {base other extension later : List UInt8} (plain : 0x2E ∉ base)
    (second : 0x2E ∉ other)
    (same : (base ++ if extension = [] then [] else 0x2E :: extension) =
      other ++ if later = [] then [] else 0x2E :: later) :
    base = other ∧ extension = later := by
  have stops : ∀ front back : List UInt8, 0x2E ∉ front →
      (front ++ if back = [] then [] else 0x2E :: back).takeWhile (· ≠ 0x2E) = front := by
    intro front back free
    rw [List.takeWhile_append_of_pos]
    · split_ifs
      · simp
      · simp
    · intro c member
      simp only [ne_eq, decide_not, Bool.not_eq_eq_eq_not, Bool.not_true, decide_eq_false_iff_not]
      rintro rfl
      exact free member
  have bases : base = other := by
    rw [← stops base extension plain, same, stops other later second]
  refine ⟨bases, ?_⟩
  rw [bases, List.append_cancel_left_eq] at same
  split_ifs at same with none gone gone
  · rw [none, gone]
  · exact (List.cons.inj same).2

theorem entryName_fields (record : List UInt8) :
    entryName record = nameField (nameFields record).1 ++
      if nameField (nameFields record).2 = [] then [] else
        0x2E :: nameField (nameFields record).2 := rfl

namespace ValidRecord

variable {record other : List UInt8}

theorem entryName_dot
    (fields : nameFields record = (0x2E :: List.replicate 7 0x20, List.replicate 3 0x20)) :
    entryName record = [0x2E] := by
  rw [entryName_fields, fields]
  decide

theorem entryName_dotdot
    (fields : nameFields record = (0x2E :: 0x2E :: List.replicate 6 0x20, List.replicate 3 0x20)) :
    entryName record = [0x2E, 0x2E] := by
  rw [entryName_fields, fields]
  decide

theorem entryName_name (base : PaddedField (nameFields record).1)
    (nonempty : entryByte record 0 ≠ 0x20) (length : record.length = 32) :
    ∃ c rest, entryName record = c :: rest ∧ NameChar c := by
  cases name : nameField (nameFields record).1 with
  | cons c rest =>
      have plain : NameChar c := base.chars c (by rw [name]; exact List.mem_cons_self)
      rw [entryName_fields, name, List.cons_append]
      exact ⟨c, _, rfl, plain⟩
  | nil =>
      have spaces := base.split
      rw [name, List.nil_append, List.length_nil, Nat.sub_zero] at spaces
      have size : (nameFields record).1.length = 8 := by
        simp only [nameFields, List.length_take]
        omega
      rw [size] at spaces
      have first := congrArg (fun field => field[0]?) spaces
      simp only [nameFields, List.getElem?_take, Nat.ofNat_pos, if_true] at first
      refine absurd ?_ nonempty
      rw [entryByte, List.getD_eq_getElem?_getD, first]
      rfl

theorem upper (valid : ValidRecord record) :
    ∀ c ∈ entryName record, ¬ (97 ≤ c ∧ c ≤ 122) := by
  cases valid with
  | name base _ extension =>
      intro c member
      rw [entryName_fields, List.mem_append] at member
      rcases member with member | member
      · exact (base.chars c member).2.2.2
      · split_ifs at member
        · cases member
        · rcases List.mem_cons.mp member with rfl | member
          · decide
          · exact (extension.chars c member).2.2.2
  | dot fields =>
      rw [entryName_dot fields]
      decide +kernel
  | dotdot fields =>
      rw [entryName_dotdot fields]
      decide +kernel

theorem fields_of_name (valid : ValidRecord record) (again : ValidRecord other)
    (length : record.length = 32) (second : other.length = 32)
    (same : entryName record = entryName other) : nameFields record = nameFields other := by
  have dotless : ∀ {c : UInt8} {rest name : List UInt8}, NameChar c → c :: rest ≠ 0x2E :: name := by
    intro c rest name plain equal
    exact plain.2.2.1 (List.cons.inj equal).1
  cases valid with
  | name base nonempty extension =>
      obtain ⟨c, rest, first, plain⟩ := entryName_name base nonempty length
      cases again with
      | name base' nonempty' extension' =>
          rw [entryName_fields, entryName_fields] at same
          obtain ⟨bases, extensions⟩ := name_parts (fun dot => (base.chars _ dot).2.2.1 rfl)
            (fun dot => (base'.chars _ dot).2.2.1 rfl) same
          apply Prod.ext
          · refine base.eq_of_name base' ?_ bases
            simp only [nameFields, List.length_take, length, second]
          · refine extension.eq_of_name extension' ?_ extensions
            simp only [nameFields, List.length_take, List.length_drop, length, second]
      | dot fields =>
          rw [first, entryName_dot fields] at same
          exact absurd same (dotless plain)
      | dotdot fields =>
          rw [first, entryName_dotdot fields] at same
          exact absurd same (dotless plain)
  | dot fields =>
      rw [entryName_dot fields] at same
      cases again with
      | name base' nonempty' _ =>
          obtain ⟨c, rest, first, plain⟩ := entryName_name base' nonempty' second
          rw [first] at same
          exact absurd same.symm (dotless plain)
      | dot fields' => rw [fields, fields']
      | dotdot fields' =>
          rw [entryName_dotdot fields'] at same
          cases same
  | dotdot fields =>
      rw [entryName_dotdot fields] at same
      cases again with
      | name base' nonempty' _ =>
          obtain ⟨c, rest, first, plain⟩ := entryName_name base' nonempty' second
          rw [first] at same
          exact absurd same.symm (dotless plain)
      | dot fields' =>
          rw [entryName_dot fields'] at same
          cases same
      | dotdot fields' => rw [fields, fields']

end ValidRecord

theorem readdirName_eq (m : Mem) (address : Nat) (record : List UInt8) :
    readdirName m address (entryInfo record) = entryName record := by
  have short := entryName_length record
  have whole : (entryName record).take 15 = entryName record := List.take_of_length_le (by omega)
  apply Kernel.loadString_spec
  · exact fun zero => entryName_nonzero record 0 zero rfl
  · omega
  · intro l inside
    have stored : l < (entryName record ++ [0]).length := by
      rw [List.length_append, List.length_singleton]
      omega
    have apart : ∀ distance i, 16 ≤ distance → distance + i < 24 →
        u32 (address + distance + i) ≠ u32 (address + l) := by
      intro distance i far near
      simp only [u32]
      omega
    simp only [Kernel.storeInfo, FileInfoEx.reported, entryInfo, whole]
    rw [copyTo_outside, copyTo_outside, copyTo_inside _ _ _ _ stored]
    · rw [List.getElem?_eq_getElem stored]
      rfl
    · rw [List.length_append, List.length_singleton]
      omega
    · intro i inside
      rw [bytes32_length] at inside
      exact apart 16 i (by omega) (by omega)
    · intro i inside
      rw [bytes32_length] at inside
      exact apart 20 i (by omega) (by omega)

theorem opensEntry_of_lookup {dir : Directory} {name : List UInt8} {entry : FileInfoEx}
    (found : dir.lookup name = some entry) (small : entry.size < 2 ^ 32) :
    OpensEntry disk dir name entry := by
  intro fuel fs garbage
  have same : dir.openFile fuel fs name garbage =
      (ClusterFile.create fuel fs entry.cluster ⟨entry.size, entry.directory⟩ garbage).map
        (fun made => (some made.1, made.2)) := by
    simp only [Directory.openFile, found]
    split
    · next fault failed => rw [failed]; rfl
    · next file last created => rw [created]; rfl
  refine ⟨same, ?_⟩
  intro clusters chain few
  obtain ⟨file, last, created, made, _⟩ := ClusterFile.create_made fs garbage chain
    (show (FileStat.mk entry.size entry.directory).size < 2 ^ 32 from small) few
  exact ⟨file, last, (Directory.openFile_eq found fuel fs garbage).mpr created, made⟩

theorem sameName_nonzero {name : List UInt8} {record : List UInt8}
    (same : sameName name (entryName record) = true) : ∀ c ∈ name, c ≠ 0 := by
  have folded : name.map tolower = (entryName record).map tolower := of_decide_eq_true same
  rintro c member rfl
  have zero : tolower 0 ∈ (entryName record).map tolower := by
    rw [← folded]
    exact List.mem_map_of_mem member
  obtain ⟨d, there, equal⟩ := List.mem_map.mp zero
  exact tolower_ne_zero (entryName_nonzero record d there) (congrArg UInt8.toNat equal)

theorem find_record {shown : List (List UInt8)} {name record : List UInt8}
    (apart : shown.Pairwise fun record other =>
      sameName (entryName record) (entryName other) = false)
    (member : record ∈ shown) (same : sameName (entryName record) name = true) :
    (shown.map entryInfo).find? (fun entry => sameName entry.filename name) =
      some (entryInfo record) := by
  rw [List.find?_map]
  have symmetric : Std.Symm fun record other : List UInt8 =>
      sameName (entryName record) (entryName other) = false := by
    constructor
    intro one two differ
    rw [sameName_comm]
    exact differ
  cases found : shown.find? ((fun entry => sameName entry.filename name) ∘ entryInfo) with
  | none => exact absurd same (List.find?_eq_none.mp found record member)
  | some other =>
      have hit : sameName (entryInfo other).filename name = true := by
        simpa using List.find?_some found
      have equal : other = record := by
        by_contra differ
        have never := apart.forall (List.mem_of_find?_eq_some found) member differ
        have both : sameName (entryName other) (entryName record) = true :=
          sameName_trans hit (by rw [sameName_comm]; exact same)
        rw [both] at never
        cases never
      rw [equal]
      rfl

/-- In a directory whose records are valid and differ in their fields, no two names are equal
for `strcasecmp`; every name that `readdir` reports, in whatever case, opens the entry of its
own record, and any other name opens nothing. -/
theorem listed_names_open {file : File disk} {bytes : List UInt8} {fuel : Nat}
    (holds : file.Holds bytes) (enough : bytes.length < 32 * fuel)
    (valid : ∀ record ∈ shownRecords bytes, ValidRecord record)
    (distinct : ((shownRecords bytes).map nameFields).Nodup) :
    ∃ dir, OpenDirectory.init fuel file = .ok dir ∧
      dir.infos = (shownRecords bytes).map entryInfo ∧
      (dir.infos.Pairwise fun info other => strcasecmp info.filename other.filename ≠ 0) ∧
      (∀ record ∈ shownRecords bytes, ∀ m address name,
        sameName name (readdirName m address (entryInfo record)) = true →
          OpensEntry disk dir.toDirectory name (entryInfo record)) ∧
      ∀ name, (∀ c ∈ name, c ≠ 0) →
        (∀ record ∈ shownRecords bytes, ∀ m address,
          sameName name (readdirName m address (entryInfo record)) = false) →
          ∀ rounds (fs : Fat16FileSystem disk) garbage,
            dir.openFile rounds fs name garbage = .ok (none, fs) := by
  obtain ⟨dir, done, infos, -⟩ := OpenDirectory.init_spec holds enough
  have shown := infos.trans (listing_eq bytes)
  have length : ∀ record ∈ shownRecords bytes, record.length = 32 := fun record member =>
    wholeRecords_length (shownRecords_whole member)
  have apart : (shownRecords bytes).Pairwise fun record other =>
      sameName (entryName record) (entryName other) = false := by
    refine (List.pairwise_map.mp distinct).imp_of_mem ?_
    intro record other here there differ
    rw [← Bool.not_eq_true]
    intro same
    exact differ ((valid record here).fields_of_name (valid other there) (length record here)
      (length other there) (sameName_upper (valid record here).upper (valid other there).upper same))
  refine ⟨dir, done, shown, ?_, ?_, ?_⟩
  · rw [shown, List.pairwise_map]
    refine apart.imp ?_
    intro record other differ same
    have equal := (strcasecmp_eq_zero (entryName_nonzero record) (entryName_nonzero other)).mp same
    rw [differ] at equal
    cases equal
  · intro record member m address name same
    rw [readdirName_eq] at same
    have found := lookup_listing infos (sameName_nonzero same)
    rw [listing_eq, find_record apart member (by rw [sameName_comm]; exact same)] at found
    exact opensEntry_of_lookup found (load32_lt _ _)
  · intro name nonzero other rounds fs garbage
    have found := lookup_listing infos nonzero
    have missing : (listing bytes).find? (fun entry => sameName entry.filename name) = none := by
      rw [List.find?_eq_none, listing_eq]
      intro entry member
      obtain ⟨record, here, rfl⟩ := List.mem_map.mp member
      have differ := other record here (fun _ => 0) 0
      rw [readdirName_eq, sameName_comm] at differ
      rw [Bool.not_eq_true]
      exact differ
    rw [missing] at found
    simp only [Directory.openFile, found]

def namedDisk : Disk := fun _ offset =>
  if offset = 0 ∨ offset = 32 then 0x41
  else if offset = 8 ∨ offset = 33 then 0x42
  else if offset = 9 ∨ offset = 40 then 0x43
  else if offset % 32 < 11 ∧ offset < 64 then 0x20
  else if offset = 26 then 2
  else if offset = 58 then 3
  else 0

/-- The name `ab.c` opens the second of them. -/
theorem listed_names_open_two :
    ∃ dir, OpenDirectory.init 17 (.sequential (SequentialFile.create namedDisk 0 1 fun _ => 0)) =
        .ok dir ∧
      OpensEntry namedDisk dir.toDirectory [0x61, 0x62, 0x2E, 0x63]
        ⟨[0x41, 0x42, 0x2E, 0x43], false, 0, 3⟩ := by
  have sector : (File.sequential (SequentialFile.create namedDisk 0 1 fun _ => 0)).Holds
      (sectorBytes namedDisk [0]) := by
    apply File.Holds.sequential
    · decide
    · decide
    · intro i inside
      obtain rfl : i = 0 := by simpa using inside
      decide
  have shown : shownRecords (sectorBytes namedDisk [0]) =
      [loadBytes (namedDisk 0) 0 32, loadBytes (namedDisk 0) 32 32] := by
    decide +kernel
  have padded : ∀ chars spaces, (∀ c ∈ chars, NameChar c) →
      PaddedField (chars ++ List.replicate spaces 0x20) :=
    fun chars spaces plain => ⟨chars, spaces, rfl, plain⟩
  have valid : ∀ record ∈ shownRecords (sectorBytes namedDisk [0]), ValidRecord record := by
    rw [shown]
    intro record member
    rcases List.mem_cons.mp member with rfl | member
    · exact ValidRecord.name (padded [0x41] 7 (by simp [NameChar])) (by decide)
        (padded [0x42, 0x43] 1 (by simp [NameChar]))
    · rw [List.mem_singleton.mp member]
      exact ValidRecord.name (padded [0x41, 0x42] 6 (by simp [NameChar])) (by decide)
        (padded [0x43] 2 (by simp [NameChar]))
  have short : (sectorBytes namedDisk [0]).length < 32 * 17 := by decide +kernel
  have distinct : ((shownRecords (sectorBytes namedDisk [0])).map nameFields).Nodup := by
    rw [shown]
    decide +kernel
  obtain ⟨dir, done, _, _, opens, _⟩ := listed_names_open sector short valid distinct
  refine ⟨dir, done, ?_⟩
  have second : loadBytes (namedDisk 0) 32 32 ∈ shownRecords (sectorBytes namedDisk [0]) := by
    rw [shown]
    exact List.mem_cons_of_mem _ List.mem_cons_self
  have info : entryInfo (loadBytes (namedDisk 0) 32 32) =
      ⟨[0x41, 0x42, 0x2E, 0x43], false, 0, 3⟩ := by
    decide +kernel
  have found := opens _ second (fun _ => 0) 0 [0x61, 0x62, 0x2E, 0x63]
  rw [readdirName_eq, info] at found
  apply found
  decide +kernel

end SysImpl.Fat
