import Mathlib.Data.List.Find
import Mathlib.Data.List.TakeWhile
import SysImpl.Fat.Directory

/-! The file that a path names, found by a walk of the tree of directories. -/

namespace SysImpl.Fat

open Bytes Walks

variable {disk : Disk} {info : FSInfo}

/-- The entries in the bytes of a directory: those up to one that begins with a zero. -/
def records (bytes : List UInt8) : List (List UInt8) :=
  if 32 ≤ bytes.length ∧ entryByte bytes 0 ≠ 0 then bytes.take 32 :: records (bytes.drop 32)
  else []
termination_by bytes.length
decreasing_by
  rw [List.length_drop]
  omega

def listing (bytes : List UInt8) : List FileInfoEx := ((records bytes).filter listed).map entryInfo

namespace File

inductive Same : File disk → File disk → Prop
  | sequential {file other : SequentialFile disk} (place : file.SamePlace other) :
      Same (.sequential file) (.sequential other)
  | cluster {file other : ClusterFile disk} (same : ClusterFile.SameFile file other) :
      Same (.cluster file) (.cluster other)

inductive Holds : File disk → List UInt8 → Prop
  | sequential {file : SequentialFile disk} {sectors : List Nat} (small : file.filesize < 2 ^ 32)
      (size : file.filesize = 512 * sectors.length)
      (place : ∀ i, i < sectors.length → sectors[i]? = some (u32 (i + file.begin))) :
      Holds (.sequential file) (sectorBytes disk sectors)
  | cluster {file : ClusterFile disk} (positive : 0 < file.info.pbr.sectorsPerCluster)
      (small : file.stat.size < 2 ^ 32)
      (covers : file.stat.size ≤ file.clusters.length * file.info.clusterBytes) :
      Holds (.cluster file) ((chainContents disk file.info file.clusters).take file.stat.size)

variable {file other third : File disk} {bytes : List UInt8}

theorem Same.trans (one : file.Same other) (two : other.Same third) : file.Same third := by
  cases one with
  | sequential place =>
      cases two with
      | sequential later => exact Same.sequential (place.trans later)
  | cluster same =>
      cases two with
      | cluster later => exact Same.cluster (same.trans later)

theorem Same.holds (same : other.Same file) (holds : file.Holds bytes) : other.Holds bytes := by
  cases holds with
  | sequential small size place =>
      cases same with
      | sequential where_ =>
          exact Holds.sequential (by rw [where_.2]; exact small) (by rw [where_.2]; exact size)
            (by rw [where_.1]; exact place)
  | cluster positive small covers =>
      cases same with
      | @cluster file' _ same =>
          rw [← same.info, ← same.clusters, ← same.stat]
          exact Holds.cluster (by rw [same.info]; exact positive) (by rw [same.stat]; exact small)
            (by rw [same.stat, same.clusters, same.info]; exact covers)

theorem Holds.read (holds : file.Holds bytes) (n : Nat) :
    ∃ after, file.read n = .ok ((bytes.drop file.cursor).take n, after) ∧ after.Same file ∧
      after.cursor = file.cursor + ((bytes.drop file.cursor).take n).length := by
  cases holds with
  | @sequential file sectors small size place =>
      obtain ⟨length, advances, bytes⟩ :=
        SequentialFile.read_direct small (Nat.le_of_eq size) place n
      have whole : (SequentialFile.read n file).1 =
          ((sectorBytes disk sectors).drop file.cursor).take n := by
        rw [bytes, length, List.take_eq_take_min (i := n), List.length_drop, sectorBytes_length, size]
      refine ⟨.sequential (SequentialFile.read n file).2, ?_,
        Same.sequential (SequentialFile.read_place n file), ?_⟩
      · simp only [File.cursor]
        rw [← whole]
        rfl
      · simp only [File.cursor]
        rw [← whole]
        exact advances
  | @cluster file positive small covers =>
      rw [← @chainContents_length disk] at covers
      obtain ⟨after, done⟩ := ClusterFile.read_spec n positive small covers
      obtain ⟨same, advances, _⟩ := ClusterFile.read_ok positive small done
      refine ⟨.cluster after, ?_, Same.cluster same, advances⟩
      simp only [File.read, done]
      rfl

theorem seek_start (file : File disk) : (file.seek 0 0).Same file ∧ (file.seek 0 0).cursor = 0 := by
  cases file with
  | sequential file => exact ⟨Same.sequential ⟨rfl, rfl⟩, rfl⟩
  | cluster file => exact ⟨Same.cluster ⟨rfl, rfl, rfl, rfl⟩, rfl⟩

end File

theorem entryByte_take (bytes : List UInt8) : entryByte (bytes.take 32) 0 = entryByte bytes 0 := by
  cases bytes with
  | nil => rfl
  | cons byte rest => rfl

theorem records_cons {entry : List UInt8} (length : entry.length = 32)
    (starts : entryByte entry 0 ≠ 0) (rest : List UInt8) :
    records (entry ++ rest) = entry :: records rest := by
  have first : entryByte (entry ++ rest) 0 = entryByte entry 0 := by
    rw [← entryByte_take, ← length, List.take_left]
  rw [records, if_pos, ← length, List.take_left, List.drop_left]
  rw [first, List.length_append]
  exact ⟨by omega, starts⟩

theorem records_replicate {entry : List UInt8} (length : entry.length = 32)
    (starts : entryByte entry 0 ≠ 0) (n : Nat) (rest : List UInt8) :
    records ((List.replicate n entry).flatten ++ rest) = List.replicate n entry ++ records rest := by
  induction n with
  | zero => rfl
  | succ n ih =>
      rw [List.replicate_succ, List.flatten_cons, List.append_assoc, records_cons length starts, ih]
      rfl

theorem records_stop {bytes : List UInt8} (zero : entryByte bytes 0 = 0) : records bytes = [] := by
  rw [records, if_neg]
  rintro ⟨_, starts⟩
  exact starts zero

theorem readEntries_spec {file : File disk} {bytes : List UInt8} {fuel : Nat}
    (holds : file.Holds bytes) (enough : bytes.length - file.cursor < 32 * fuel) :
    ∃ after, readEntries fuel file = .ok (records (bytes.drop file.cursor), after) ∧
      after.Same file := by
  induction fuel generalizing file with
  | zero => exact absurd enough (Nat.not_lt_zero _)
  | succ fuel ih =>
      obtain ⟨after, done, same, cursor⟩ := holds.read 32
      have length : ((bytes.drop file.cursor).take 32).length =
          min 32 (bytes.length - file.cursor) := by
        rw [List.length_take, List.length_drop]
      simp only [readEntries, done]
      rw [entryByte_take]
      by_cases more : 32 ≤ (bytes.drop file.cursor).length ∧
          entryByte (bytes.drop file.cursor) 0 ≠ 0
      · have full : ((bytes.drop file.cursor).take 32).length = 32 := by
          rw [List.length_take]
          omega
        have step : records (bytes.drop file.cursor) = (bytes.drop file.cursor).take 32 ::
            records (bytes.drop (file.cursor + 32)) := by
          rw [records, if_pos more, List.drop_drop]
        rw [full] at cursor
        rw [List.length_drop] at more
        obtain ⟨last, rest, sameLast⟩ := ih (same.holds holds) (by rw [cursor]; omega)
        refine ⟨last, ?_, sameLast.trans same⟩
        rw [if_pos ⟨full, more.2⟩, rest, cursor, step]
        rfl
      · refine ⟨after, ?_, same⟩
        rw [records, if_neg more, if_neg]
        rintro ⟨full, first⟩
        apply more
        refine ⟨?_, first⟩
        rw [List.length_take] at full
        omega

theorem storeInfos_spec {fileNum count : Nat} {entries : List (List UInt8)}
    (room : count + entries.countP listed ≤ fileNum) :
    storeInfos fileNum count entries = .ok ((entries.filter listed).map entryInfo) := by
  induction entries generalizing count with
  | nil => rfl
  | cons entry rest ih =>
      simp only [storeInfos]
      by_cases shown : listed entry
      · rw [List.countP_cons_of_pos shown] at room
        rw [if_pos shown, if_pos (by omega), ih (by omega), List.filter_cons_of_pos shown]
        rfl
      · rw [List.countP_cons_of_neg shown] at room
        rw [if_neg shown, ih room, List.filter_cons_of_neg shown]

/-- The two passes over a directory find the same entries, whatever was read of it before. -/
theorem OpenDirectory.init_spec {file : File disk} {bytes : List UInt8} {fuel : Nat}
    (holds : file.Holds bytes) (enough : bytes.length < 32 * fuel) :
    ∃ dir, init fuel file = .ok dir ∧ dir.infos = listing bytes ∧ dir.file.Same file := by
  obtain ⟨same, start⟩ := file.seek_start
  obtain ⟨mid, first, sameMid⟩ := readEntries_spec (same.holds holds) (by rw [start]; omega)
  obtain ⟨sameAgain, again⟩ := mid.seek_start
  have back := sameAgain.trans (sameMid.trans same)
  obtain ⟨last, second, sameLast⟩ := readEntries_spec (back.holds holds) (by rw [again]; omega)
  rw [start, List.drop_zero] at first
  rw [again, List.drop_zero] at second
  refine ⟨⟨⟨listing bytes⟩, last⟩, ?_, rfl, sameLast.trans back⟩
  simp only [init, first, second, storeInfos_spec (Nat.le_of_eq (Nat.zero_add _))]
  rfl

section Tree

/-- The names of a path: the runs of characters between the slashes. -/
def components (path : List UInt8) : List (List UInt8) := (path.splitOn slash).filter (· ≠ [])

/-- The last name is followed by a slash. -/
def closed (path : List UInt8) : Bool := path.getLast? = some slash

inductive Target where
  | root
  | entry (info : FileInfoEx)
  deriving DecidableEq, Repr

def Target.directory : Target → Bool
  | .root => true
  | .entry info => info.directory

variable (disk : Disk) (info : FSInfo)

open Classical in
noncomputable def chainOf (start : Nat) : List Nat :=
  if found : ∃ clusters, FatChain disk info start clusters then found.choose else []

noncomputable def wholeContents : Target → List UInt8
  | .root => sectorBytes disk
      (sequentialSectors (sub32 info.firstDataSector info.rootDirSectors) info.firstDataSector)
  | .entry entry => chainContents disk info (chainOf disk info (entry.cluster % 2 ^ 16))

noncomputable def contentsOf (target : Target) : List UInt8 :=
  (wholeContents disk info target).take ((wholeContents disk info target).length % 2 ^ 32)

variable (contents : Target → List UInt8)

def entriesOf (target : Target) : List FileInfoEx := listing (contents target)

def sameName (name other : List UInt8) : Bool := name.map tolower = other.map tolower

/-- The node that is reached along some names, the last of them with a slash behind it or
not. -/
def walk : Target → List (List UInt8) → Bool → Option Target
  | target, [], _ => some target
  | target, name :: rest, closed =>
      match (entriesOf contents target).find? fun entry => sameName entry.filename name with
      | none => none
      | some entry =>
          if rest = [] ∧ closed = false then some (.entry entry)
          else if entry.directory then walk (.entry entry) rest closed
          else none

inductive InTree : Target → Prop
  | root : InTree .root
  | entry {target : Target} {entry : FileInfoEx} (there : InTree target)
      (directory : target.directory = true) (member : entry ∈ entriesOf contents target) :
      InTree (.entry entry)

def FiniteChains : Prop :=
  ∀ entry, InTree contents (.entry entry) →
    ∃ clusters, FatChain disk info (entry.cluster % 2 ^ 16) clusters

def FiniteAlong : Target → List (List UInt8) → Prop
  | _, [] => True
  | target, name :: rest => ∀ entry,
      ((entriesOf contents target).find? fun entry => sameName entry.filename name) = some entry →
        (∃ clusters, FatChain disk info (entry.cluster % 2 ^ 16) clusters) ∧
          (entry.directory = true → FiniteAlong (.entry entry) rest)

variable {disk info contents} in
theorem FiniteChains.along (finite : FiniteChains disk info contents) {target : Target}
    (inside : InTree contents target) (directory : target.directory = true)
    (names : List (List UInt8)) : FiniteAlong disk info contents target names := by
  induction names generalizing target with
  | nil => trivial
  | cons name rest ih =>
      intro entry found
      have there : InTree contents (.entry entry) :=
        InTree.entry inside directory (List.mem_of_find?_eq_some found)
      exact ⟨finite entry there, fun kind => ih there kind⟩

end Tree

inductive File.Denotes (info : FSInfo) : File disk → Target → Prop
  | root {file : SequentialFile disk}
      (start : file.begin = sub32 info.firstDataSector info.rootDirSectors)
      (size : file.filesize = info.rootDirSectors * 512) : Denotes info (.sequential file) .root
  | entry {file made : ClusterFile disk} {entry : FileInfoEx}
      (same : ClusterFile.SameFile file made)
      (shape : ClusterFile.Made made info (chainOf disk info (entry.cluster % 2 ^ 16))
        ⟨entry.size, entry.directory⟩) : Denotes info (.cluster file) (.entry entry)

theorem File.Denotes.same {file other : File disk} {target : Target} (same : other.Same file)
    (denotes : file.Denotes info target) : other.Denotes info target := by
  cases denotes with
  | root start size =>
      cases same with
      | sequential place => exact Denotes.root (place.1.trans start) (place.2.trans size)
  | entry before shape =>
      cases same with
      | cluster same => exact Denotes.entry (same.trans before) shape

theorem chainOf_spec {start : Nat} (found : ∃ clusters, FatChain disk info start clusters) :
    FatChain disk info start (chainOf disk info start) := by
  rw [chainOf, dif_pos found]
  exact found.choose_spec

theorem entryName_nonzero (entry : List UInt8) : ∀ c ∈ entryName entry, c ≠ 0 := by
  have field : ∀ part : List UInt8, ∀ c ∈ nameField part, c ≠ 0 := by
    intro part c member
    have kept := List.mem_takeWhile_imp member
    simp only [Bool.and_eq_true, bne_iff_ne] at kept
    exact kept.1
  intro c member
  simp only [entryName, List.mem_append] at member
  rcases member with member | member
  · exact field _ c member
  · split_ifs at member
    · cases member
    · rcases List.mem_cons.mp member with rfl | member
      · decide
      · exact field _ c member

theorem entryName_length (entry : List UInt8) : (entryName entry).length ≤ 12 := by
  have base : (nameField (entry.take 8)).length ≤ 8 :=
    (List.takeWhile_sublist _).length_le.trans (List.length_take_le 8 entry)
  have extension : (nameField ((entry.drop 8).take 3)).length ≤ 3 :=
    (List.takeWhile_sublist _).length_le.trans (List.length_take_le 3 _)
  simp only [entryName, List.length_append]
  split
  · simp only [List.length_nil]
    omega
  · simp only [List.length_cons]
    omega

theorem tolower_ne_zero {c : UInt8} (nonzero : c ≠ 0) : (tolower c).toNat ≠ 0 := by
  have other : tolower c ≠ 0 := by
    simp only [tolower]
    grind
  intro zero
  exact other (UInt8.toNat_inj.mp zero)

theorem strcasecmp_eq_zero {name other : List UInt8} (first : ∀ c ∈ name, c ≠ 0)
    (second : ∀ c ∈ other, c ≠ 0) : strcasecmp name other = 0 ↔ sameName name other = true := by
  induction name generalizing other with
  | nil =>
      cases other with
      | nil => simp [strcasecmp, sameName]
      | cons c rest =>
          have nonzero := tolower_ne_zero (second c List.mem_cons_self)
          simp only [strcasecmp, sameName, List.map_nil, List.map_cons]
          simp [nonzero]
  | cons c rest ih =>
      cases other with
      | nil =>
          have nonzero := tolower_ne_zero (first c List.mem_cons_self)
          simp only [strcasecmp, sameName, List.map_nil, List.map_cons]
          simp [nonzero]
      | cons d more =>
          have tail := @ih more (fun c member => first c (List.mem_cons_of_mem _ member))
            (fun c member => second c (List.mem_cons_of_mem _ member))
          simp only [sameName, decide_eq_true_eq] at tail
          simp only [strcasecmp, sameName, List.map_cons, List.cons.injEq, decide_eq_true_eq]
          by_cases equal : tolower c = tolower d
          · rw [if_pos equal, tail]
            simp [equal]
          · have differ : (tolower c).toNat ≠ (tolower d).toNat := fun same =>
              equal (UInt8.toNat_inj.mp same)
            rw [if_neg equal]
            simp only [equal, false_and, iff_false]
            omega

theorem scanName_spec (cursor : List UInt8) :
    cursor = (scanName cursor).1 ++ (scanName cursor).2 ∧ slash ∉ (scanName cursor).1 ∧
      ((scanName cursor).2 = [] ∨ ∃ rest, (scanName cursor).2 = slash :: rest) := by
  induction cursor with
  | nil => exact ⟨rfl, by simp [scanName], Or.inl rfl⟩
  | cons c rest ih =>
      simp only [scanName]
      by_cases here : c = slash
      · rw [if_pos here]
        exact ⟨rfl, by simp, Or.inr ⟨rest, by rw [here]⟩⟩
      · rw [if_neg here]
        obtain ⟨whole, free, ends⟩ := ih
        refine ⟨by rw [List.cons_append, ← whole], ?_, ends⟩
        simp only [List.mem_cons, not_or]
        exact ⟨fun same => here same.symm, free⟩

theorem components_slash (rest : List UInt8) : components (slash :: rest) = components rest := by
  have split : (slash :: rest).splitOn slash = [] :: rest.splitOn slash :=
    List.splitOn_append_cons_self [] rest
  simp only [components, split]
  simp

theorem components_name {name : List UInt8} (nonempty : name ≠ []) (free : slash ∉ name) :
    components name = [name] := by
  simp only [components, List.splitOn_eq_singleton free]
  simp [nonempty]

theorem components_cons {name : List UInt8} (nonempty : name ≠ []) (free : slash ∉ name)
    (rest : List UInt8) : components (name ++ slash :: rest) = name :: components rest := by
  simp only [components, List.splitOn_append_cons_self_of_not_mem free]
  simp [nonempty]

theorem components_skip (cursor : List UInt8) : components (skipSlashes cursor) = components cursor := by
  induction cursor with
  | nil => rfl
  | cons c rest ih =>
      simp only [skipSlashes]
      split_ifs with here
      · rw [ih, here, components_slash]
      · rfl

theorem skipSlashes_suffix (cursor : List UInt8) :
    ∃ slashes, cursor = slashes ++ skipSlashes cursor ∧ ∀ c ∈ slashes, c = slash := by
  induction cursor with
  | nil => exact ⟨[], rfl, by simp⟩
  | cons c rest ih =>
      simp only [skipSlashes]
      split_ifs with here
      · obtain ⟨slashes, whole, all⟩ := ih
        refine ⟨c :: slashes, by rw [List.cons_append, ← whole], ?_⟩
        intro d member
        rcases List.mem_cons.mp member with rfl | member
        · exact here
        · exact all d member
      · exact ⟨[], rfl, by simp⟩

theorem skipSlashes_subset (cursor : List UInt8) : skipSlashes cursor ⊆ cursor := by
  obtain ⟨slashes, whole, _⟩ := skipSlashes_suffix cursor
  intro c member
  rw [whole]
  exact List.mem_append_right _ member

theorem scanName_subset (cursor : List UInt8) :
    (scanName cursor).1 ⊆ cursor ∧ skipSlashes (scanName cursor).2 ⊆ cursor := by
  obtain ⟨whole, _, _⟩ := scanName_spec cursor
  constructor
  · intro c member
    rw [whole]
    exact List.mem_append_left _ member
  · intro c member
    rw [whole]
    exact List.mem_append_right _ (skipSlashes_subset _ member)

theorem skipSlashes_head (cursor : List UInt8) : (skipSlashes cursor).head? ≠ some slash := by
  induction cursor with
  | nil => simp [skipSlashes]
  | cons c rest ih =>
      simp only [skipSlashes]
      split_ifs with here
      · exact ih
      · simpa using here

theorem skipSlashes_length (cursor : List UInt8) : (skipSlashes cursor).length ≤ cursor.length := by
  obtain ⟨slashes, whole, _⟩ := skipSlashes_suffix cursor
  have length := congrArg List.length whole
  rw [List.length_append] at length
  omega

theorem closed_append (front : List UInt8) {back : List UInt8} (more : back ≠ []) :
    closed (front ++ back) = closed back := by
  simp only [closed]
  rw [List.getLast?_append_of_ne_nil _ more]

/-- A path behind whose last name there are slashes only is closed; otherwise the slashes
behind a name say nothing about the last one. -/
theorem closed_skip (name cursor : List UInt8) (start : cursor.head? = some slash) :
    (skipSlashes cursor = [] → closed (name ++ cursor) = true) ∧
      (skipSlashes cursor ≠ [] → closed (name ++ cursor) = closed (skipSlashes cursor)) := by
  obtain ⟨slashes, whole, all⟩ := skipSlashes_suffix cursor
  constructor
  · intro nothing
    rw [nothing, List.append_nil] at whole
    have nonempty : cursor ≠ [] := by
      rintro rfl
      cases start
    have last : cursor.getLast nonempty = slash :=
      all _ (by rw [← whole]; exact List.getLast_mem nonempty)
    simp only [closed]
    rw [List.getLast?_append_of_ne_nil _ nonempty, List.getLast?_eq_some_getLast nonempty, last]
    rfl
  · intro more
    have suffix : name ++ cursor = (name ++ slashes) ++ skipSlashes cursor := by
      rw [List.append_assoc, ← whole]
    rw [suffix, closed_append _ more]

theorem path_step {cursor : List UInt8} (start : cursor.head? ≠ some slash) (more : cursor ≠ []) :
    (scanName cursor).1 ∈ components cursor ∧
      ((scanName cursor).2 = [] ∧ components cursor = [(scanName cursor).1] ∧
          closed cursor = false ∨
        (scanName cursor).2.head? = some slash ∧
          components cursor =
            (scanName cursor).1 :: components (skipSlashes (scanName cursor).2) ∧
          (skipSlashes (scanName cursor).2 = [] → closed cursor = true) ∧
          (skipSlashes (scanName cursor).2 ≠ [] →
            closed cursor = closed (skipSlashes (scanName cursor).2))) := by
  obtain ⟨whole, free, ends⟩ := scanName_spec cursor
  generalize (scanName cursor).1 = name at *
  generalize (scanName cursor).2 = after at *
  have nonempty : name ≠ [] := by
    rintro rfl
    rw [List.nil_append] at whole
    rcases ends with rfl | ⟨rest, rfl⟩
    · exact more whole
    · rw [whole] at start
      exact start rfl
  rcases ends with rfl | ⟨rest, rfl⟩
  · rw [List.append_nil] at whole
    subst whole
    rw [components_name nonempty free]
    refine ⟨List.mem_cons_self, Or.inl ⟨rfl, rfl, ?_⟩⟩
    simp only [closed, decide_eq_false_iff_not]
    intro last
    exact free (List.mem_of_getLast? last)
  · subst whole
    rw [components_cons nonempty free, components_skip, components_slash]
    exact ⟨List.mem_cons_self, Or.inr ⟨rfl, rfl, closed_skip name (slash :: rest) rfl⟩⟩

theorem components_ne_nil {cursor : List UInt8} (start : cursor.head? ≠ some slash)
    (more : cursor ≠ []) : components cursor ≠ [] :=
  List.ne_nil_of_mem (path_step start more).1

theorem listing_info {bytes : List UInt8} {entry : FileInfoEx} (member : entry ∈ listing bytes) :
    (∀ c ∈ entry.filename, c ≠ 0) ∧ entry.size < 2 ^ 32 := by
  obtain ⟨record, _, rfl⟩ := List.mem_map.mp member
  exact ⟨entryName_nonzero record, load32_lt _ _⟩

theorem lookup_listing {dir : Directory} {bytes name : List UInt8} (infos : dir.infos = listing bytes)
    (nonzero : ∀ c ∈ name, c ≠ 0) :
    dir.lookup name = (listing bytes).find? fun entry => sameName entry.filename name := by
  rw [Directory.lookup, infos]
  apply List.find?_congr
  intro entry member
  have same := strcasecmp_eq_zero (listing_info member).1 nonzero
  rw [← Bool.coe_iff_coe, decide_eq_true_iff]
  exact same

theorem contentsOf_entry (entry : FileInfoEx) :
    contentsOf disk info (.entry entry) =
      (chainContents disk info (chainOf disk info (entry.cluster % 2 ^ 16))).take
        ((chainOf disk info (entry.cluster % 2 ^ 16)).length * info.clusterBytes % 2 ^ 32) := by
  simp only [contentsOf, wholeContents, chainContents_length]

theorem contentsOf_length (target : Target) : (contentsOf disk info target).length < 2 ^ 32 := by
  have most := List.length_take_le ((wholeContents disk info target).length % 2 ^ 32)
    (wholeContents disk info target)
  have bound := Nat.mod_lt (wholeContents disk info target).length (show 2 ^ 32 > 0 by decide)
  simp only [contentsOf]
  omega

theorem ClusterFile.Made.holds {file : ClusterFile disk} {clusters : List Nat} {size : Nat}
    (made : Made file info clusters ⟨size, true⟩) (positive : 0 < info.pbr.sectorsPerCluster) :
    File.Holds (.cluster file)
      ((chainContents disk info clusters).take (clusters.length * info.clusterBytes % 2 ^ 32)) := by
  have length : file.stat.size = clusters.length * info.clusterBytes % 2 ^ 32 := by
    have raised := made.raised
    simp only [raisedSize, if_true, u32] at raised
    split_ifs at raised <;> omega
  obtain ⟨covers, contents⟩ := made.contents (by rw [length]; exact Nat.mod_le _ _)
  rw [← length, ← contents, ← made.volume]
  rw [chainContents_length] at covers
  refine File.Holds.cluster (by rw [made.volume]; exact positive) ?_
    (by rw [made.volume]; exact covers)
  rw [length]
  exact Nat.mod_lt _ (by decide)

inductive Matches (info : FSInfo) : Option (File disk) → Option Target → Prop
  | null : Matches info none none
  | file {file : File disk} {target : Target} (denotes : file.Denotes info target) :
      Matches info (some file) (some target)

def enoughFuel : Nat := 2 ^ 28

theorem openFile_found {fuel : Nat} (enough : enoughFuel ≤ fuel) (garbage : Mem)
    {fs : Fat16FileSystem disk} (same : fs.info = info) {dir : Directory} {target : Target}
    {name : List UInt8} {entry : FileInfoEx}
    (infos : dir.infos = entriesOf (contentsOf disk info) target)
    (finite : ∃ clusters, FatChain disk info (entry.cluster % 2 ^ 16) clusters)
    (found : dir.lookup name = some entry) :
    ∃ file last, dir.openFile fuel fs name garbage = .ok (some file, last) ∧ last.info = info ∧
      ClusterFile.Made file info (chainOf disk info (entry.cluster % 2 ^ 16))
        ⟨entry.size, entry.directory⟩ := by
  have member : entry ∈ entriesOf (contentsOf disk info) target := by
    rw [← infos]
    exact List.mem_of_find?_eq_some found
  have chain := chainOf_spec finite
  have few : (chainOf disk info (entry.cluster % 2 ^ 16)).length < fuel := by
    have most := FatChain.length_le chain
    simp only [clusterEnd, enoughFuel] at most enough
    omega
  rw [← same] at chain
  obtain ⟨file, last, created, made, kept⟩ := ClusterFile.create_made fs garbage chain
    (show (FileStat.mk entry.size entry.directory).size < 2 ^ 32 from (listing_info member).2)
    (by rw [same]; exact few)
  rw [same] at made
  refine ⟨file, last, ?_, kept.trans same, made⟩
  rw [Directory.openFile_eq found]
  exact created

theorem OpenDirectory.fromFile_spec {fuel : Nat} (enough : enoughFuel ≤ fuel) {file : File disk}
    {target : Target} (kind : file.directory = true)
    (holds : file.Holds (contentsOf disk info target)) :
    ∃ dir, fromFile fuel file = .ok (some dir) ∧
      dir.infos = entriesOf (contentsOf disk info) target ∧ dir.file.Same file := by
  have length : (contentsOf disk info target).length < 32 * fuel := by
    have bound := @contentsOf_length disk info target
    simp only [enoughFuel] at enough
    omega
  obtain ⟨dir, done, infos, same⟩ := init_spec holds length
  refine ⟨dir, ?_, infos, same⟩
  rw [fromFile, if_pos kind, done]
  rfl

theorem fromFile_directory {fuel : Nat} (enough : enoughFuel ≤ fuel)
    (positive : 0 < info.pbr.sectorsPerCluster) {file : ClusterFile disk} {entry : FileInfoEx}
    (made : ClusterFile.Made file info (chainOf disk info (entry.cluster % 2 ^ 16))
      ⟨entry.size, entry.directory⟩) (directory : entry.directory = true) :
    ∃ dir, OpenDirectory.fromFile fuel (.cluster file) = .ok (some dir) ∧
      dir.infos = entriesOf (contentsOf disk info) (.entry entry) ∧ dir.file.Denotes info (.entry entry) := by
  have kind : (File.cluster file).directory = true := made.kind.trans directory
  have shape := made
  rw [directory] at shape
  have holds := shape.holds positive
  rw [← contentsOf_entry] at holds
  obtain ⟨dir, done, infos, same⟩ := OpenDirectory.fromFile_spec enough kind holds
  exact ⟨dir, done, infos, File.Denotes.same same
    (File.Denotes.entry (ClusterFile.SameFile.refl file) made)⟩

theorem components_nonempty {path name : List UInt8} (member : name ∈ components path) :
    name ≠ [] := by
  simpa using (List.mem_filter.mp member).2

theorem walk_slash {target : Target} {entry : FileInfoEx} {cursor name after : List UInt8}
    (found : (entriesOf (contentsOf disk info) target).find? (fun entry => sameName entry.filename name) =
      some entry)
    (closes : skipSlashes after = [] → closed cursor = true)
    (keeps : skipSlashes after ≠ [] → closed cursor = closed (skipSlashes after)) :
    walk (contentsOf disk info) target (name :: components (skipSlashes after)) (closed cursor) =
      if entry.directory then
        walk (contentsOf disk info) (.entry entry) (components (skipSlashes after)) (closed (skipSlashes after))
      else none := by
  rw [walk, found]
  simp only
  by_cases ends : skipSlashes after = []
  · rw [closes ends, if_neg (by simp), ends]
    rfl
  · have more := components_ne_nil (skipSlashes_head after) ends
    rw [if_neg (fun both => more both.1), keeps ends]

/-- `Fat16FileSystem::openFile` goes on behind all of these names: each of them is found, and
is a directory. -/
def enters (fuel : Nat) (garbage : Mem) :
    Fat16FileSystem disk → OpenDirectory disk → List (List UInt8) → Bool
  | _, _, [] => true
  | fs, scwd, name :: rest =>
      match scwd.toDirectory.openFile fuel fs name garbage with
      | .ok (some file, fs) =>
          match OpenDirectory.fromFile fuel (.cluster file) with
          | .ok (some scwd) => enters fuel garbage fs scwd rest
          | _ => false
      | _ => false

/-- The first of the names that does not fit in `filename`, if there is one, is not reached. -/
def ReachedShort (fuel : Nat) (garbage : Mem) (fs : Fat16FileSystem disk)
    (scwd : OpenDirectory disk) (names : List (List UInt8)) : Prop :=
  ∀ before name after, names = before ++ name :: after →
    (∀ passed ∈ before, passed.length ≤ maxFilenameLength) →
      enters fuel garbage fs scwd before = true → name.length ≤ maxFilenameLength

theorem reachedShort_cons {fuel : Nat} {garbage : Mem} {fs : Fat16FileSystem disk}
    {scwd : OpenDirectory disk} {name : List UInt8} {rest : List (List UInt8)} :
    ReachedShort fuel garbage fs scwd (name :: rest) ↔ name.length ≤ maxFilenameLength ∧
      ∀ file fs' scwd', scwd.toDirectory.openFile fuel fs name garbage = .ok (some file, fs') →
        OpenDirectory.fromFile fuel (.cluster file) = .ok (some scwd') →
          ReachedShort fuel garbage fs' scwd' rest := by
  constructor
  · intro reached
    refine ⟨reached [] name rest rfl (by simp) rfl, ?_⟩
    intro file fs' scwd' opened entered before other after split passed goes
    have first := reached [] name rest rfl (by simp) rfl
    refine reached (name :: before) other after (by rw [split]; rfl) ?_ ?_
    · intro earlier member
      rcases List.mem_cons.mp member with rfl | member
      · exact first
      · exact passed earlier member
    · simp only [enters, opened, entered]
      exact goes
  · intro both before other after split passed goes
    obtain ⟨first, later⟩ := both
    cases before with
    | nil =>
        rw [List.nil_append] at split
        injection split with same _
        rw [← same]
        exact first
    | cons head before =>
        rw [List.cons_append] at split
        injection split with same split
        subst same
        simp only [enters] at goes
        split at goes
        · next file fs' opened =>
            split at goes
            · next scwd' entered =>
                exact later file fs' scwd' opened entered before other after split
                  (fun earlier member => passed earlier (List.mem_cons_of_mem _ member)) goes
            · cases goes
        · cases goes

theorem ReachedShort.of_short {fuel : Nat} {garbage : Mem} {fs : Fat16FileSystem disk}
    {scwd : OpenDirectory disk} {names : List (List UInt8)}
    (short : ∀ name ∈ names, name.length ≤ maxFilenameLength) :
    ReachedShort fuel garbage fs scwd names := by
  intro before name after split _ _
  apply short
  rw [split]
  exact List.mem_append_right _ List.mem_cons_self

theorem openNames_walks {fuel : Nat} (enough : enoughFuel ≤ fuel) (garbage : Mem) {rounds : Nat}
    (positive : 0 < info.pbr.sectorsPerCluster)
    {fs : Fat16FileSystem disk} (same : fs.info = info)
    {scwd : OpenDirectory disk} {file : File disk} {target : Target} {cursor : List UInt8}
    (infos : scwd.infos = entriesOf (contentsOf disk info) target) (denotes : file.Denotes info target)
    (finite : FiniteAlong disk info (contentsOf disk info) target (components cursor))
    (start : cursor.head? ≠ some slash) (nonzero : ∀ c ∈ cursor, c ≠ 0)
    (reached : ReachedShort fuel garbage fs scwd (components cursor))
    (more : cursor.length < rounds) :
    ∃ result last, openNames fuel garbage rounds fs scwd file cursor = .ok (result, last) ∧
      Matches info result (walk (contentsOf disk info) target (components cursor) (closed cursor)) := by
  induction rounds generalizing fs scwd file target cursor with
  | zero => exact absurd more (Nat.not_lt_zero _)
  | succ rounds ih =>
      by_cases empty : cursor = []
      · subst empty
        refine ⟨some file, fs, by simp [openNames], ?_⟩
        exact Matches.file denotes
      · obtain ⟨member, shape⟩ := path_step start empty
        obtain ⟨whole, _, _⟩ := scanName_spec cursor
        have split : ∃ rest, components cursor = (scanName cursor).1 :: rest := by
          rcases shape with ⟨_, names, _⟩ | ⟨_, names, _⟩
          · exact ⟨[], names⟩
          · exact ⟨_, names⟩
        obtain ⟨others, split⟩ := split
        have reached := reached
        have finite := finite
        rw [split] at reached finite
        obtain ⟨fits, goesOn⟩ := reachedShort_cons.mp reached
        have spelled : ∀ c ∈ (scanName cursor).1, c ≠ 0 := fun c here =>
          nonzero c ((scanName_subset cursor).1 here)
        have found := lookup_listing infos spelled
        simp only [openNames, if_neg empty, if_pos fits]
        cases known : scwd.toDirectory.lookup (scanName cursor).1 with
        | none =>
            have missing : (entriesOf (contentsOf disk info) target).find?
                (fun entry => sameName entry.filename (scanName cursor).1) = none :=
              found.symm.trans known
            have fails : scwd.toDirectory.openFile fuel fs (scanName cursor).1 garbage =
                .ok (none, fs) := by
              simp only [Directory.openFile, known]
            rw [fails]
            refine ⟨none, fs, rfl, ?_⟩
            rcases shape with ⟨_, names, _⟩ | ⟨_, names, _⟩
            · rw [names, walk, missing]
              exact Matches.null
            · rw [names, walk, missing]
              exact Matches.null
        | some entry =>
            have first : (entriesOf (contentsOf disk info) target).find?
                (fun entry => sameName entry.filename (scanName cursor).1) = some entry :=
              found.symm.trans known
            obtain ⟨chain, onward⟩ := finite entry first
            obtain ⟨opened, last, done, kept, made⟩ :=
              openFile_found enough garbage same infos chain known
            rw [done]
            rcases shape with ⟨ends, names, bare⟩ | ⟨goes, names, closes, keeps⟩
            · refine ⟨some (.cluster opened), last, by simp [ends], ?_⟩
              rw [names, walk, first]
              simp only [bare, and_self, if_true]
              exact Matches.file
                (File.Denotes.entry (ClusterFile.SameFile.refl opened) made)
            · simp only [goes, if_true]
              rw [names, walk_slash first closes keeps]
              cases kind : entry.directory with
              | false =>
                  have refused : OpenDirectory.fromFile fuel (.cluster opened) = .ok none :=
                    if_neg (by rw [File.directory, made.kind, kind]; simp)
                  rw [refused]
                  exact ⟨none, last, rfl, Matches.null⟩
              | true =>
                  obtain ⟨dir, entered, listing, denotes⟩ :=
                    fromFile_directory enough positive made kind
                  rw [entered]
                  have length := skipSlashes_length (scanName cursor).2
                  have total := congrArg List.length whole
                  rw [List.length_append] at total
                  have passed := List.length_pos_of_ne_nil (components_nonempty member)
                  have rest : others = components (skipSlashes (scanName cursor).2) := by
                    rw [names] at split
                    exact (List.cons.inj split).2.symm
                  rw [rest] at goesOn onward
                  exact ih kept listing denotes (onward kind) (skipSlashes_head _)
                    (fun c here => nonzero c ((scanName_subset cursor).2 here))
                    (goesOn opened last dir done entered) (by omega)

end SysImpl.Fat
