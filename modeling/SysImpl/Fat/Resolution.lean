import SysImpl.Fat.Paths

/-! An open of a path is the walk from the root directory, and the slashes between the names
do not matter. -/

namespace SysImpl.Fat

open Bytes Walks

variable {disk : Disk} {info : FSInfo}

theorem root_count (mounted : mount disk = .ok info) :
    sub32 info.firstDataSector (sub32 info.firstDataSector info.rootDirSectors) =
      info.rootDirSectors := by
  obtain ⟨few, inside⟩ := mount_root mounted
  simp only [sub32, u32]
  omega

def rootFile (fs : Fat16FileSystem disk) (garbage : Mem) : SequentialFile disk :=
  SequentialFile.create disk (sub32 fs.info.firstDataSector fs.info.rootDirSectors)
    fs.info.firstDataSector garbage

theorem rootFile_place (fs : Fat16FileSystem disk) (garbage : Mem) :
    (rootFile fs garbage).begin = sub32 fs.info.firstDataSector fs.info.rootDirSectors ∧
      (rootFile fs garbage).filesize = fs.info.rootDirSectors * 512 := by
  obtain ⟨few, inside⟩ := mount_root fs.mounted
  constructor
  · exact Nat.mod_mod _ _
  · simp only [rootFile, SequentialFile.create, root_count fs.mounted, u32]
    omega

theorem root_holds (fs : Fat16FileSystem disk) {file : SequentialFile disk}
    (start : file.begin = sub32 fs.info.firstDataSector fs.info.rootDirSectors)
    (size : file.filesize = fs.info.rootDirSectors * 512) :
    (File.sequential file).Holds (contentsOf disk fs.info .root) := by
  obtain ⟨few, inside⟩ := mount_root fs.mounted
  have count := root_count fs.mounted
  have length : (sequentialSectors (sub32 fs.info.firstDataSector fs.info.rootDirSectors)
      fs.info.firstDataSector).length = fs.info.rootDirSectors := by
    simp only [sequentialSectors, List.length_map, List.length_range, count]
  have whole : contentsOf disk fs.info .root = wholeContents disk fs.info .root := by
    apply List.take_of_length_le
    simp only [wholeContents, sectorBytes_length, length]
    omega
  rw [whole]
  apply File.Holds.sequential
  · omega
  · rw [length, size, Nat.mul_comm]
  · intro i here
    rw [length] at here
    rw [sequentialSectors_getElem? (by rw [count]; exact here), start]
    simp only [sub32, u32, Nat.mod_mod]

theorem rootFile_holds (fs : Fat16FileSystem disk) (garbage : Mem) :
    (File.sequential (rootFile fs garbage)).Holds (contentsOf disk fs.info .root) :=
  root_holds fs (rootFile_place fs garbage).1 (rootFile_place fs garbage).2

theorem getRootDirectory_spec {fuel : Nat} (enough : enoughFuel ≤ fuel) (garbage : Mem)
    (fs : Fat16FileSystem disk) :
    ∃ dir, fs.getRootDirectory fuel garbage = .ok dir ∧
      dir.infos = entriesOf (contentsOf disk fs.info) .root ∧ dir.file.Denotes fs.info .root := by
  obtain ⟨start, size⟩ := rootFile_place fs garbage
  have short : (contentsOf disk fs.info .root).length < 32 * fuel := by
    have bound := @contentsOf_length disk fs.info .root
    simp only [enoughFuel] at enough
    omega
  obtain ⟨dir, done, infos, same⟩ := OpenDirectory.init_spec (rootFile_holds fs garbage) short
  exact ⟨dir, done, infos, File.Denotes.same same (File.Denotes.root start size)⟩

theorem walk_skip (contents : Target → List UInt8) (target : Target) (path : List UInt8) :
    walk contents target (components (skipSlashes path)) (closed (skipSlashes path)) =
      walk contents target (components path) (closed path) := by
  by_cases ends : skipSlashes path = []
  · have none : components path = [] := by
      rw [← components_skip, ends]
      rfl
    rw [none, ends]
    rfl
  · obtain ⟨slashes, whole, _⟩ := skipSlashes_suffix path
    have last : closed path = closed (skipSlashes path) := by
      nth_rewrite 1 [whole]
      exact closed_append slashes ends
    rw [components_skip, last]

def Resolves (fs : Fat16FileSystem disk) (fuel : Nat) (path : List UInt8) (garbage : Mem)
    (node : Option Target) : Prop :=
  ∃ result last, fs.openFile fuel path garbage = .ok (result, last) ∧ Matches fs.info result node

/-- No name of the path that is too long is reached from the root directory. -/
def PathFits (fs : Fat16FileSystem disk) (fuel : Nat) (path : List UInt8) (garbage : Mem) : Prop :=
  ∀ root, fs.getRootDirectory fuel garbage = .ok root →
    ReachedShort fuel garbage fs root (components path)

theorem openFile_resolves {fuel : Nat} (enough : enoughFuel ≤ fuel) (garbage : Mem)
    {fs : Fat16FileSystem disk} {path : List UInt8}
    (finite : FiniteAlong disk fs.info (contentsOf disk fs.info) .root (components path))
    (nonzero : ∀ c ∈ path, c ≠ 0) (fits : PathFits fs fuel path garbage) :
    Resolves fs fuel path garbage
      (walk (contentsOf disk fs.info) .root (components path) (closed path)) := by
  obtain ⟨dir, opened, infos, denotes⟩ := getRootDirectory_spec enough garbage fs
  have length := skipSlashes_length path
  obtain ⟨result, last, done, found⟩ := @openNames_walks disk fs.info fuel enough garbage (path.length + 1)
    (mount_ok fs.mounted).1 fs rfl dir dir.file .root (skipSlashes path) infos denotes
    (by rw [components_skip]; exact finite) (skipSlashes_head path)
    (fun c member => nonzero c (skipSlashes_subset path member))
    (by rw [components_skip]; exact fits dir opened) (by omega)
  rw [walk_skip] at found
  refine ⟨result, last, ?_, found⟩
  rw [Fat16FileSystem.openFile, opened]
  exact done

/-- A slash more in front of a path, or next to one that it has. -/
inductive ExtraSlash : List UInt8 → List UInt8 → Prop
  | leading (path : List UInt8) : ExtraSlash (slash :: path) path
  | repeated (front back : List UInt8) :
      ExtraSlash (front ++ slash :: slash :: back) (front ++ slash :: back)

theorem components_append_slash (front back : List UInt8) :
    components (front ++ slash :: back) = components front ++ components back := by
  simp only [components, List.splitOn_append_cons_self]
  simp

theorem ExtraSlash.components {path other : List UInt8} (extra : ExtraSlash other path) :
    Fat.components other = Fat.components path := by
  cases extra with
  | leading path => exact components_slash path
  | repeated front back => rw [components_append_slash, components_append_slash, components_slash]

theorem ExtraSlash.walk {path other : List UInt8} (extra : ExtraSlash other path)
    (contents : Target → List UInt8) (target : Target) :
    Fat.walk contents target (Fat.components other) (closed other) =
      Fat.walk contents target (Fat.components path) (closed path) := by
  cases extra with
  | leading path => rw [← walk_skip contents target (slash :: path), skipSlashes, if_pos rfl, walk_skip]
  | repeated front back =>
      have last : closed (front ++ slash :: slash :: back) = closed (front ++ slash :: back) := by
        rw [closed_append _ (List.cons_ne_nil _ _), closed_append _ (List.cons_ne_nil _ _)]
        exact closed_append [slash] (List.cons_ne_nil _ _)
      rw [(ExtraSlash.repeated front back).components, last]

theorem ExtraSlash.mem {path other : List UInt8} (extra : ExtraSlash other path) {c : UInt8}
    (member : c ∈ other) : c = slash ∨ c ∈ path := by
  cases extra with
  | leading path => exact List.mem_cons.mp member
  | repeated front back =>
      simp only [List.mem_append, List.mem_cons] at member ⊢
      tauto

/-- A path is resolved by the walk from the root along its names, and a slash more in front
of them or between them changes nothing. -/
theorem path_resolution {fuel : Nat} (enough : enoughFuel ≤ fuel) (garbage : Mem)
    {fs : Fat16FileSystem disk} (finite : FiniteChains disk fs.info (contentsOf disk fs.info))
    {path : List UInt8} (nonzero : ∀ c ∈ path, c ≠ 0)
    (short : ∀ name ∈ components path, name.length ≤ maxFilenameLength) :
    Resolves fs fuel path garbage
        (walk (contentsOf disk fs.info) .root (components path) (closed path)) ∧
      ∀ other, ExtraSlash other path → Resolves fs fuel other garbage
        (walk (contentsOf disk fs.info) .root (components path) (closed path)) := by
  have fits : PathFits fs fuel path garbage := fun root _ => ReachedShort.of_short short
  have along : ∀ names, FiniteAlong disk fs.info (contentsOf disk fs.info) .root names :=
    finite.along InTree.root rfl
  refine ⟨openFile_resolves enough garbage (along _) nonzero fits, ?_⟩
  intro other extra
  rw [← extra.walk]
  apply openFile_resolves enough garbage (along _)
  · intro c member
    rcases extra.mem member with rfl | member
    · decide
    · exact nonzero c member
  · intro root _
    rw [extra.components]
    exact ReachedShort.of_short short

def longBoot : Mem
  | 12 => 2
  | 13 => 129
  | 16 => 1
  | 17 => 16
  | 22 => 255
  | 28 => 1
  | 33 => 2
  | 34 => 0x80
  | 38 => 0x29
  | _ => 0

def longFat (pos : Nat) : UInt8 :=
  let next := if pos / 2 < 65029 then pos / 2 + 1 else 0xFFFF
  UInt8.ofNat (if pos % 2 = 0 then next else next / 2 ^ 8)

def longRoot : Mem
  | 0 => 0x44
  | 11 => 0x10
  | 26 => 2
  | _ => 0

def longEntry : Mem
  | 0 => 0x41
  | 26 => 0xFF
  | 27 => 0xFF
  | _ => 0

/-- The chain of `D` goes over 65028 clusters: four sectors more than 4 GiB. All entries in
its first four sectors are deleted, and the next one is that of `A`. -/
def longDisk : Disk := fun sector =>
  if sector = 0 then longBoot
  else if sector ≤ 255 then fun offset => longFat ((sector - 1) * 512 + offset)
  else if sector = 256 then longRoot
  else if sector ≤ 260 then fun _ => 0xE5
  else if sector = 261 then longEntry
  else fun _ => 0

theorem longDisk_mounted :
    mount longDisk = .ok (FSInfo.derive (PartitionBootRecord.load (longDisk 0))) := by
  rfl

def longVolume : Fat16FileSystem longDisk := Fat16FileSystem.create longDisk_mounted fun _ => 0

theorem longVolume_info : longVolume.info.firstFatSector = 1 ∧ longVolume.info.fatSize = 255 ∧
    longVolume.info.pbr.sectorsPerCluster = 129 ∧ longVolume.info.firstDataSector = 257 ∧
    longVolume.info.rootDirSectors = 1 ∧ longVolume.info.clusterBytes = 66048 := by
  decide +kernel

theorem longVolume_byte {pos : Nat} (inside : pos < 255 * 512) :
    fatByte longDisk longVolume.info pos = longFat pos := by
  have sector : u32 (pos / 512 + 1) = pos / 512 + 1 := by
    simp only [u32]
    omega
  simp only [fatByte, longVolume_info.1, sector, longDisk]
  rw [if_neg (by omega), if_pos (by omega)]
  congr 1
  omega

theorem longVolume_entry {cluster : Nat} (inside : cluster ≤ 65029) :
    fatEntry longDisk longVolume.info cluster =
      some (if cluster < 65029 then cluster + 1 else 0xFFFF) := by
  have low : cluster * 2 / 2 = cluster := by omega
  have high : (cluster * 2 + 1) / 2 = cluster := by omega
  have even : cluster * 2 % 2 = 0 := by omega
  have odd : ¬ (cluster * 2 + 1) % 2 = 0 := by omega
  simp only [fatEntry, longVolume_info.2.1]
  rw [if_pos (by omega), longVolume_byte (by omega), longVolume_byte (by omega)]
  simp only [longFat, low, high, if_pos even, if_neg odd, UInt8.toNat_ofNat']
  split_ifs
  · congr 1
    omega
  · rfl

theorem longVolume_chain {rest cluster : Nat} (place : cluster + rest = 65030) (some : 0 < rest) :
    FatChain longDisk longVolume.info cluster (List.range' cluster rest) := by
  induction rest generalizing cluster with
  | zero => omega
  | succ rest ih =>
      have goes : ¬ clusterEnd ≤ cluster := by
        simp only [clusterEnd]
        omega
      have link := longVolume_entry (show cluster ≤ 65029 by omega)
      by_cases last : rest = 0
      · subst last
        rw [if_neg (by omega)] at link
        exact Walk.passed goes link (Walk.stopped (by decide))
      · rw [if_pos (by omega)] at link
        exact Walk.passed goes link (ih (by omega) (by omega))

def longD : FileInfoEx := ⟨[0x44], true, 0, 2⟩
def longA : FileInfoEx := ⟨[0x41], false, 0, 0xFFFF⟩

theorem longVolume_root : wholeContents longDisk longVolume.info .root = loadBytes longRoot 0 512 := by
  decide +kernel

theorem longRoot_listing : listing (loadBytes longRoot 0 512) = [longD] := by
  have split : loadBytes longRoot 0 512 = loadBytes longRoot 0 32 ++ loadBytes longRoot 32 480 := by
    decide +kernel
  rw [split, listing, records_cons (by decide) (by decide), records_stop (by decide +kernel)]
  decide +kernel

theorem longVolume_chainOf :
    chainOf longDisk longVolume.info (longD.cluster % 2 ^ 16) = List.range' 2 65028 := by
  have chain : FatChain longDisk longVolume.info (longD.cluster % 2 ^ 16) (List.range' 2 65028) :=
    longVolume_chain rfl (by decide)
  exact Walk.unique (chainOf_spec ⟨_, chain⟩) chain

theorem longVolume_directory : ∃ rest, entryByte rest 0 = 0 ∧
    wholeContents longDisk longVolume.info (.entry longD) =
      (List.replicate 64 (List.replicate 32 0xE5)).flatten ++ (loadBytes longEntry 0 32 ++ rest) := by
  obtain ⟨_, _, clusters, first, _, bytes⟩ := longVolume_info
  have later : List.range' 2080 63968 = 2080 :: List.range' 2081 63967 := List.range'_succ
  have ranges : List.range 66048 = List.range' 0 2048 ++ (List.range' 2048 32 ++
      (2080 :: List.range' 2081 63967)) := by
    rw [← later, List.range_eq_range', List.range'_append_1, List.range'_append_1]
  have cut : List.range' 2 65028 = 2 :: List.range' 3 65027 := List.range'_succ
  have origin : sub32 2 2 = 0 := by decide
  have deleted : (List.range' 0 2048).map (fun i => longDisk (u32 (i / 512 + 257)) (i % 512)) =
      (List.replicate 64 (List.replicate 32 0xE5)).flatten := by
    rw [List.flatten_replicate_replicate, List.eq_replicate_iff]
    refine ⟨by simp, ?_⟩
    intro byte member
    obtain ⟨i, inside, rfl⟩ := List.mem_map.mp member
    rw [List.mem_range'_1] at inside
    have sector : u32 (i / 512 + 257) = i / 512 + 257 := by
      simp only [u32]
      omega
    simp only [sector, longDisk]
    rw [if_neg (by omega), if_neg (by omega), if_neg (by omega), if_pos (by omega)]
  have entry : (List.range' 2048 32).map (fun i => longDisk (u32 (i / 512 + 257)) (i % 512)) =
      loadBytes longEntry 0 32 := by
    decide +kernel
  simp only [wholeContents, longVolume_chainOf, chainContents, cut, List.flatMap_cons,
    clusterContents, bytes, clusters, first, origin, Nat.zero_mul, Nat.zero_add, ranges,
    List.map_append, List.map_cons, List.append_assoc, List.cons_append, deleted, entry]
  exact ⟨_, by decide +kernel, rfl⟩

theorem longVolume_cut : contentsOf longDisk longVolume.info (.entry longD) =
    (List.replicate 64 (List.replicate 32 0xE5)).flatten := by
  obtain ⟨rest, _, whole⟩ := longVolume_directory
  have length : (wholeContents longDisk longVolume.info (.entry longD)).length % 2 ^ 32 = 2048 := by
    simp only [wholeContents, chainContents_length, longVolume_chainOf, List.length_range',
      longVolume_info.2.2.2.2.2]
    decide
  rw [contentsOf, length, whole]
  exact List.take_left' (by rw [List.flatten_replicate_replicate, List.length_replicate])

theorem longVolume_entries :
    entriesOf (wholeContents longDisk longVolume.info) (.entry longD) = [longA] ∧
      entriesOf (contentsOf longDisk longVolume.info) (.entry longD) = [] := by
  constructor
  · obtain ⟨rest, ends, whole⟩ := longVolume_directory
    rw [entriesOf, whole, listing, records_replicate (by decide) (by decide),
      records_cons (by decide) (by decide), records_stop ends]
    decide +kernel
  · have none := records_replicate (show (List.replicate 32 (0xE5 : UInt8)).length = 32 by decide)
      (by decide) 64 []
    rw [List.append_nil, records_stop (show entryByte [] 0 = 0 from rfl)] at none
    rw [entriesOf, longVolume_cut, listing, none]
    decide +kernel

theorem longVolume_rootEntries :
    entriesOf (wholeContents longDisk longVolume.info) .root = [longD] ∧
      entriesOf (contentsOf longDisk longVolume.info) .root = [longD] := by
  have whole := longVolume_root
  have same : contentsOf longDisk longVolume.info .root = loadBytes longRoot 0 512 := by
    rw [contentsOf, whole]
    decide +kernel
  constructor
  · rw [entriesOf, whole, longRoot_listing]
  · rw [entriesOf, same, longRoot_listing]

theorem longVolume_finite {contents : Target → List UInt8}
    (root : entriesOf contents .root = [longD])
    (below : ∀ entry ∈ entriesOf contents (.entry longD), entry = longA) :
    FiniteChains longDisk longVolume.info contents := by
  have only : ∀ target, InTree contents target →
      target = .root ∨ target = .entry longD ∨ target = .entry longA := by
    intro target inside
    induction inside with
    | root => exact Or.inl rfl
    | @entry target entry there directory member ih =>
        rcases ih with rfl | rfl | rfl
        · rw [root, List.mem_singleton] at member
          exact Or.inr (Or.inl (by rw [member]))
        · exact Or.inr (Or.inr (by rw [below entry member]))
        · cases directory
  intro entry inside
  rcases only _ inside with same | same | same
  · cases same
  · cases same
    exact ⟨List.range' 2 65028, longVolume_chain rfl (by decide)⟩
  · cases same
    exact ⟨[], Walk.stopped (by decide)⟩

theorem longVolume_finiteCut :
    FiniteChains longDisk longVolume.info (contentsOf longDisk longVolume.info) := by
  apply longVolume_finite longVolume_rootEntries.2
  rw [longVolume_entries.2]
  intro entry member
  cases member

/-- The path `//D`. -/
theorem path_resolution_directory :
    Resolves longVolume enoughFuel [0x2F, 0x2F, 0x44] (fun _ => 0) (some (.entry longD)) := by
  have names : components [0x2F, 0x44] = [[0x44]] := by decide
  have reached : walk (contentsOf longDisk longVolume.info) .root (components [0x2F, 0x44])
      (closed [0x2F, 0x44]) = some (.entry longD) := by
    rw [names, walk, longVolume_rootEntries.2]
    decide
  rw [← reached]
  have short : ∀ name ∈ components [0x2F, 0x44], name.length ≤ maxFilenameLength := by decide +kernel
  exact (path_resolution (Nat.le_refl _) (fun _ => 0) longVolume_finiteCut (by decide +kernel)
    short).2 _ (ExtraSlash.leading [0x2F, 0x44])

theorem longVolume_walk {contents : Target → List UInt8}
    (root : entriesOf contents .root = [longD]) {below : List FileInfoEx}
    (entries : entriesOf contents (.entry longD) = below) :
    walk contents .root (components [0x44, 0x2F, 0x41]) (closed [0x44, 0x2F, 0x41]) =
      (below.find? fun entry => sameName entry.filename [0x41]).map .entry := by
  have names : components [0x44, 0x2F, 0x41] = [[0x44], [0x41]] := by decide
  have bare : closed [0x44, 0x2F, 0x41] = false := by decide
  have first : [longD].find? (fun entry => sameName entry.filename [0x44]) = some longD := by decide
  rw [names, bare, walk, root, first]
  simp only
  rw [if_neg (by decide), if_pos (show longD.directory = true from rfl), walk, entries]
  cases below.find? fun entry => sameName entry.filename [0x41] with
  | none => rfl
  | some entry => rfl

/-- The path `D/A` leads to a file that is not found. -/
theorem long_directory_cut :
    FiniteChains longDisk longVolume.info (wholeContents longDisk longVolume.info) ∧
      walk (wholeContents longDisk longVolume.info) .root (components [0x44, 0x2F, 0x41])
        (closed [0x44, 0x2F, 0x41]) = some (.entry longA) ∧
      (∀ name ∈ components [0x44, 0x2F, 0x41], name.length ≤ maxFilenameLength) ∧
      ∀ fuel, enoughFuel ≤ fuel →
        ¬ Resolves longVolume fuel [0x44, 0x2F, 0x41] (fun _ => 0) (some (.entry longA)) := by
  refine ⟨?_, ?_, by decide, ?_⟩
  · apply longVolume_finite longVolume_rootEntries.1
    rw [longVolume_entries.1]
    intro entry member
    exact List.mem_singleton.mp member
  · rw [longVolume_walk longVolume_rootEntries.1 longVolume_entries.1]
    decide
  · rintro fuel enough ⟨result, last, done, found⟩
    obtain ⟨result', last', done', found'⟩ := @openFile_resolves longDisk fuel enough (fun _ => 0)
      longVolume [0x44, 0x2F, 0x41] (longVolume_finiteCut.along InTree.root rfl _) (by decide +kernel)
      (fun root _ => ReachedShort.of_short (by decide +kernel))
    rw [longVolume_walk longVolume_rootEntries.2 longVolume_entries.2] at found'
    rw [done'] at done
    cases done
    cases found'
    cases found

end SysImpl.Fat
