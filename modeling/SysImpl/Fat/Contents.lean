import Mathlib.Data.Nat.Prime.Basic
import Mathlib.Tactic.IntervalCases
import SysImpl.Fat.ClusterFile

/-! What reading a file of a volume delivers.

A file is the bytes of the clusters that the FAT chains from its first one on. The
constructor of `ClusterFile` walks that chain twice, and then raises the size of the file
to what the chain holds. -/

namespace SysImpl.Fat

open Bytes Walks

section Volume

variable (disk : Disk) (info : FSInfo)

def fatByte (pos : Nat) : UInt8 := disk (u32 (pos / 512 + info.firstFatSector)) (pos % 512)

/-- The entry of a cluster, if it lies inside the FAT. -/
def fatEntry (cluster : Nat) : Option Nat :=
  if cluster * 2 + 1 < info.fatSize * 512 then
    some ((fatByte disk info (cluster * 2)).toNat +
      2 ^ 8 * (fatByte disk info (cluster * 2 + 1)).toNat)
  else none

def FatChain : Nat → List Nat → Prop := Walk (fatEntry disk info) (clusterEnd ≤ ·)

/-- The bytes of a cluster; the first one of the data area has the number 2. -/
def clusterContents (cluster : Nat) : List UInt8 :=
  (List.range info.clusterBytes).map fun i =>
    disk (u32 (i / 512 + (sub32 cluster 2 * info.pbr.sectorsPerCluster + info.firstDataSector)))
      (i % 512)

def chainContents (clusters : List Nat) : List UInt8 :=
  clusters.flatMap (clusterContents disk info)

end Volume

variable {disk : Disk} {info : FSInfo}

theorem fatEntry_lt {cluster next : Nat} (entry : fatEntry disk info cluster = some next) :
    next < 2 ^ 16 := by
  simp only [fatEntry] at entry
  split_ifs at entry
  rw [← Option.some.inj entry]
  have low := UInt8.toNat_lt (fatByte disk info (cluster * 2))
  have high := UInt8.toNat_lt (fatByte disk info (cluster * 2 + 1))
  omega

theorem FatChain.length_le {start : Nat} {clusters : List Nat}
    (chain : FatChain disk info start clusters) : clusters.length ≤ clusterEnd :=
  Walk.length_le chain fun _ goes => Nat.lt_of_not_le goes

@[simp] theorem clusterContents_length (cluster : Nat) :
    (clusterContents disk info cluster).length = info.clusterBytes := by
  simp [clusterContents]

theorem chainContents_length (clusters : List Nat) :
    (chainContents disk info clusters).length = clusters.length * info.clusterBytes := by
  induction clusters with
  | nil => simp [chainContents]
  | cons cluster rest ih =>
      have step : chainContents disk info (cluster :: rest) =
          clusterContents disk info cluster ++ chainContents disk info rest := rfl
      rw [step, List.length_append, clusterContents_length, ih, List.length_cons, Nat.succ_mul,
        Nat.add_comm]

theorem chainContents_getElem {clusters : List Nat} {pos cluster : Nat}
    (positive : 0 < info.pbr.sectorsPerCluster)
    (found : clusters[pos / 512 / info.pbr.sectorsPerCluster]? = some cluster) :
    (chainContents disk info clusters)[pos]? =
      some (disk (ClusterFile.sectorOf info cluster pos) (pos % 512)) := by
  have size : info.clusterBytes = 512 * info.pbr.sectorsPerCluster := Nat.mul_comm _ _
  have least : 0 < info.clusterBytes := by omega
  rw [Nat.div_div_eq_div_mul, ← size] at found
  induction clusters generalizing pos with
  | nil => simp at found
  | cons head rest ih =>
      have step : chainContents disk info (head :: rest) =
          clusterContents disk info head ++ chainContents disk info rest := rfl
      rw [step]
      by_cases here : pos < info.clusterBytes
      · rw [Nat.div_eq_of_lt here, List.getElem?_cons_zero] at found
        have inside : pos / 512 < info.pbr.sectorsPerCluster := by
          apply Nat.div_lt_of_lt_mul
          rwa [← size]
        rw [List.getElem?_append_left (by rwa [clusterContents_length]), ← Option.some.inj found]
        simp only [clusterContents, List.getElem?_map, List.getElem?_range here, Option.map_some,
          ClusterFile.sectorOf, Nat.mod_eq_of_lt inside]
      · obtain ⟨later, rfl⟩ : ∃ later, pos = later + info.clusterBytes :=
          ⟨pos - info.clusterBytes, by omega⟩
        rw [Nat.add_div_right _ least, List.getElem?_cons_succ] at found
        rw [List.getElem?_append_right (by simp), clusterContents_length, Nat.add_sub_cancel,
          ih found]
        have sector : (later + info.clusterBytes) / 512 % info.pbr.sectorsPerCluster =
            later / 512 % info.pbr.sectorsPerCluster := by
          rw [size, Nat.add_mul_div_left _ _ (by decide), Nat.add_mod_right]
        have offset : (later + info.clusterBytes) % 512 = later % 512 := by
          rw [size, Nat.add_mul_mod_self_left]
        simp only [ClusterFile.sectorOf, sector, offset]

variable {fs fs' : Fat16FileSystem disk}

theorem readLink_spec (fs : Fat16FileSystem disk) {cluster : Nat} (small : cluster < 2 ^ 16) :
    (fs.readLink cluster).1 = (fatEntry disk fs.info cluster).getD cluster := by
  have cursor : (fs.fatFile.seekSet (cluster * 2)).cursor = cluster * 2 :=
    Nat.mod_eq_of_lt (by omega)
  have length : (fs.fatFile.seekSet (cluster * 2)).filesize = fs.info.fatSize * 512 := fs.length
  have bytes (pos : Nat) : (fs.fatFile.seekSet (cluster * 2)).byteAt pos =
      fatByte disk fs.info pos := by
    simp only [SequentialFile.byteAt, SequentialFile.seekSet, fatByte, fs.start]
  simp only [Fat16FileSystem.readLink, fatEntry]
  by_cases inside : cluster * 2 + 1 < fs.info.fatSize * 512
  · rw [SequentialFile.read_two (by rw [cursor, length]; exact inside) (by rw [cursor]; omega),
      cursor, bytes, bytes, if_pos inside]
    rfl
  · rw [SequentialFile.read_outside (by rw [cursor, length]; omega), if_neg inside]
    rfl

theorem readLink_info (fs : Fat16FileSystem disk) (cluster : Nat) :
    (fs.readLink cluster).2.info = fs.info := rfl

namespace ClusterFile

def countedSize (info : FSInfo) (directory : Bool) (count size : Nat) : Nat :=
  if directory then u32 (size + count * info.clusterBytes) else size

theorem countLoop_spec {start fuel size : Nat} {clusters : List Nat} (directory : Bool)
    (count : Nat) (fs : Fat16FileSystem disk) (chain : FatChain disk fs.info start clusters)
    (small : start < 2 ^ 16) (bound : size < 2 ^ 32) (enough : clusters.length < fuel) :
    ∃ fs', countLoop directory fuel start count size fs =
        .ok (count + clusters.length, countedSize fs.info directory clusters.length size, fs') ∧
      fs'.info = fs.info := by
  induction fuel generalizing start clusters count size fs with
  | zero => exact absurd enough (Nat.not_lt_zero _)
  | succ fuel ih =>
      simp only [countLoop]
      cases chain with
      | stopped here =>
          rw [if_neg (Nat.not_lt.mpr here)]
          refine ⟨fs, ?_, rfl⟩
          have same : size % 2 ^ 32 = size := Nat.mod_eq_of_lt bound
          simp only [countedSize, u32, List.length_nil, Nat.zero_mul, Nat.add_zero, same, ite_self]
      | @passed _ next rest goes link later =>
          rw [if_pos (Nat.lt_of_not_le goes)]
          have goesTo := readLink_spec fs small
          rw [link] at goesTo
          have step : fs.readLink start = (next, (fs.readLink start).2) := Prod.ext goesTo rfl
          rw [step]
          simp only [List.length_cons] at enough
          have grown : countedSize fs.info directory 1 size < 2 ^ 32 := by
            simp only [countedSize]
            split_ifs
            · exact Nat.mod_lt _ (by decide)
            · exact bound
          obtain ⟨fs', counted, same⟩ := ih (count + 1) (fs.readLink start).2 later
            (fatEntry_lt link) grown (by omega)
          refine ⟨fs', ?_, same⟩
          have once : (if directory then u32 (size + fs.info.clusterBytes) else size) =
              countedSize fs.info directory 1 size := by
            simp only [countedSize, Nat.one_mul]
          have total : countedSize fs.info directory rest.length
              (countedSize fs.info directory 1 size) =
                countedSize fs.info directory (rest.length + 1) size := by
            simp only [countedSize]
            split_ifs
            · simp only [u32, Nat.add_mul]
              omega
            · rfl
          simp only [once, counted, List.length_cons, readLink_info, total]
          rw [Nat.add_assoc, Nat.add_comm 1]

theorem countLoop_ok {directory : Bool} {start fuel count size : Nat} {fs : Fat16FileSystem disk}
    {result : Nat × Nat × Fat16FileSystem disk}
    (counted : countLoop directory fuel start count size fs = .ok result) (small : start < 2 ^ 16) :
    ∃ clusters, FatChain disk fs.info start clusters ∧ clusters.length < fuel := by
  induction fuel generalizing start count size fs with
  | zero => cases counted
  | succ fuel ih =>
      simp only [countLoop] at counted
      by_cases goes : start < clusterEnd
      · rw [if_pos goes] at counted
        have goesTo := readLink_spec fs small
        cases link : fatEntry disk fs.info start with
        | some next =>
            rw [link] at goesTo
            have step : fs.readLink start = (next, (fs.readLink start).2) := Prod.ext goesTo rfl
            rw [step] at counted
            obtain ⟨clusters, chain, few⟩ := ih counted (fatEntry_lt link)
            exact ⟨start :: clusters, Walk.passed (Nat.not_le.mpr goes) link chain,
              Nat.succ_lt_succ few⟩
        | none =>
            -- The loop stays at this cluster, from which no chain goes on.
            rw [link] at goesTo
            have step : fs.readLink start = (start, (fs.readLink start).2) := Prod.ext goesTo rfl
            rw [step] at counted
            obtain ⟨clusters, chain, _⟩ := ih counted small
            cases chain with
            | stopped here => exact absurd here (Nat.not_le.mpr goes)
            | passed _ onward _ =>
                have clash := link.symm.trans onward
                cases clash
      · exact ⟨[], Walk.stopped (Nat.le_of_not_lt goes), Nat.succ_pos _⟩

theorem fillLoop_spec {start fuel clusterNum : Nat} {clusters : List Nat} (size : Nat)
    (filled : List Nat) (fs : Fat16FileSystem disk) (chain : FatChain disk fs.info start clusters)
    (small : start < 2 ^ 16) (enough : clusters.length < fuel)
    (room : filled.length + clusters.length ≤ clusterNum) :
    ∃ taken fs', fillLoop clusterNum size fuel start filled fs =
        .ok (filled ++ clusters.take taken, fs') ∧ fs'.info = fs.info ∧
      (size ≤ (filled ++ clusters.take taken).length * fs.info.clusterBytes ∨
        clusters.take taken = clusters) := by
  induction fuel generalizing start clusters filled fs with
  | zero => exact absurd enough (Nat.not_lt_zero _)
  | succ fuel ih =>
      simp only [fillLoop]
      by_cases goes : start < clusterEnd ∧ filled.length * fs.info.clusterBytes < size
      · rw [if_pos goes]
        cases chain with
        | stopped here => exact absurd goes.1 (Nat.not_lt.mpr here)
        | @passed _ next rest _ link later =>
            simp only [List.length_cons] at enough room
            have goesTo := readLink_spec fs small
            rw [link] at goesTo
            have step : fs.readLink start = (next, (fs.readLink start).2) := Prod.ext goesTo rfl
            rw [if_pos (by omega), step]
            obtain ⟨taken, fs', done, same, covers⟩ := ih (filled ++ [start]) (fs.readLink start).2
              later (fatEntry_lt link) (by omega)
              (by simp only [List.length_append, List.length_singleton]; omega)
            refine ⟨taken + 1, fs', ?_, same, ?_⟩
            · simp only [done, List.append_assoc, List.singleton_append, List.take_succ_cons]
            · rw [List.append_assoc, List.singleton_append] at covers
              rw [List.take_succ_cons]
              rcases covers with covers | whole
              · exact Or.inl covers
              · exact Or.inr (by rw [whole])
      · rw [if_neg goes]
        refine ⟨0, fs, by simp, rfl, ?_⟩
        by_cases ends : start < clusterEnd
        · exact Or.inl (by simpa using Nat.le_of_not_lt fun less => goes ⟨ends, less⟩)
        · cases chain with
          | stopped _ => exact Or.inr rfl
          | passed on _ _ => exact absurd (Nat.le_of_not_lt ends) on

/-- The size that the constructor gives a regular file. -/
def raisedSize (info : FSInfo) (count size : Nat) : Nat :=
  if size < u32 (count * info.clusterBytes) then u32 (count * info.clusterBytes) else size

theorem raisedSize_lt {info : FSInfo} {count size : Nat} (small : size < 2 ^ 32) :
    raisedSize info count size < 2 ^ 32 := by
  simp only [raisedSize]
  split_ifs
  · exact Nat.mod_lt _ (by decide)
  · exact small

/-- A file as its constructor leaves it: the first clusters of the chain are in the table, as
many as the size needs or all of them. -/
structure Made (file : ClusterFile disk) (info : FSInfo) (clusters : List Nat) (stat : FileStat) :
    Prop where
  volume : file.info = info
  rewound : file.cursor = 0
  counted : file.clusterNum = clusters.length
  kind : file.stat.directory = stat.directory
  raised : file.stat.size =
    raisedSize info clusters.length (if stat.directory then 0 else stat.size)
  table : ∃ taken, file.clusters = clusters.take taken ∧
    (file.stat.size ≤ file.clusters.length * info.clusterBytes ∨ file.clusters = clusters)

/-- With a chain from the first cluster on, the constructor comes to its end. -/
theorem create_made {start fuel : Nat} {stat : FileStat} {clusters : List Nat}
    (fs : Fat16FileSystem disk) (garbage : Mem)
    (chain : FatChain disk fs.info (start % 2 ^ 16) clusters) (bound : stat.size < 2 ^ 32)
    (enough : clusters.length < fuel) :
    ∃ file fs', create fuel fs start stat garbage = .ok (file, fs') ∧
      Made file fs.info clusters stat ∧ fs'.info = fs.info := by
  have small : start % 2 ^ 16 < 2 ^ 16 := Nat.mod_lt _ (by decide)
  have initial : (if stat.directory then 0 else stat.size) < 2 ^ 32 := by
    split_ifs
    · decide
    · exact bound
  obtain ⟨mid, counted, midInfo⟩ :=
    countLoop_spec stat.directory 0 fs chain small initial enough
  rw [← midInfo] at chain
  obtain ⟨taken, last, filled, lastInfo, covers⟩ :=
    fillLoop_spec (raisedSize fs.info clusters.length (if stat.directory then 0 else stat.size)) []
      mid chain small enough (Nat.le_refl _)
  simp only [List.nil_append, List.length_nil, Nat.zero_add] at counted filled covers
  rw [midInfo] at covers
  -- A directory has counted its size already, and is not raised further.
  have raised : (if countedSize fs.info stat.directory clusters.length
      (if stat.directory then 0 else stat.size) < u32 (clusters.length * fs.info.clusterBytes) then
        u32 (clusters.length * fs.info.clusterBytes) else
          countedSize fs.info stat.directory clusters.length
            (if stat.directory then 0 else stat.size)) =
      raisedSize fs.info clusters.length (if stat.directory then 0 else stat.size) := by
    cases stat.directory with
    | true =>
        simp only [countedSize, raisedSize, if_true, Nat.zero_add]
        split_ifs <;> omega
    | false => rfl
  simp only [create, counted, midInfo, raised, filled]
  exact ⟨_, _, rfl, ⟨lastInfo.trans midInfo, rfl, rfl, rfl, rfl, taken, rfl, covers⟩,
    lastInfo.trans midInfo⟩

theorem create_ok {start fuel : Nat} {stat : FileStat} {fs fs' : Fat16FileSystem disk}
    {garbage : Mem} {file : ClusterFile disk} (bound : stat.size < 2 ^ 32)
    (created : create fuel fs start stat garbage = .ok (file, fs')) :
    ∃ clusters, FatChain disk fs.info (start % 2 ^ 16) clusters ∧
      Made file fs.info clusters stat ∧ fs'.info = fs.info := by
  have small : start % 2 ^ 16 < 2 ^ 16 := Nat.mod_lt _ (by decide)
  have found : ∃ clusters, FatChain disk fs.info (start % 2 ^ 16) clusters ∧
      clusters.length < fuel := by
    simp only [create] at created
    split at created
    · cases created
    · next result counted => exact countLoop_ok counted small
  obtain ⟨clusters, chain, enough⟩ := found
  obtain ⟨file', last, made, shape, same⟩ := create_made fs garbage chain bound enough
  rw [created] at made
  simp only [Except.ok.injEq, Prod.mk.injEq] at made
  obtain ⟨rfl, rfl⟩ := made
  exact ⟨clusters, chain, shape, same⟩

theorem raisedSize_le {info : FSInfo} {count size : Nat} (holds : size ≤ count * info.clusterBytes) :
    raisedSize info count size ≤ count * info.clusterBytes := by
  simp only [raisedSize]
  split_ifs
  · exact Nat.mod_le _ _
  · exact holds

theorem Made.contents {file : ClusterFile disk} {info : FSInfo} {clusters : List Nat}
    {stat : FileStat} (made : Made file info clusters stat)
    (holds : file.stat.size ≤ clusters.length * info.clusterBytes) :
    file.stat.size ≤ (chainContents disk info file.clusters).length ∧
      (chainContents disk info file.clusters).take file.stat.size =
        (chainContents disk info clusters).take file.stat.size := by
  obtain ⟨taken, table, covers⟩ := made.table
  have enough : file.stat.size ≤ (chainContents disk info file.clusters).length := by
    rw [chainContents_length]
    rcases covers with covers | whole
    · exact covers
    · rw [whole]
      exact holds
  refine ⟨enough, ?_⟩
  have head : chainContents disk info clusters =
      chainContents disk info file.clusters ++ chainContents disk info (clusters.drop taken) := by
    simp only [chainContents, table]
    rw [← List.flatMap_append, List.take_append_drop]
  rw [head, List.take_append_of_le_length enough]

structure SameFile (file other : ClusterFile disk) : Prop where
  info : file.info = other.info
  stat : file.stat = other.stat
  clusters : file.clusters = other.clusters
  count : file.clusterNum = other.clusterNum

variable {file after : ClusterFile disk}

theorem SameFile.refl (file : ClusterFile disk) : SameFile file file := ⟨rfl, rfl, rfl, rfl⟩

theorem SameFile.trans {first second third : ClusterFile disk} (one : SameFile first second)
    (two : SameFile second third) : SameFile first third :=
  ⟨one.info.trans two.info, one.stat.trans two.stat, one.clusters.trans two.clusters,
    one.count.trans two.count⟩

theorem ensureCursorInBuffer_ok (loaded : file.ensureCursorInBuffer = .ok after) :
    SameFile after file ∧ after.cursor = file.cursor ∧
      ∃ cluster, file.clusters[file.cursor / 512 / file.info.pbr.sectorsPerCluster]? = some cluster ∧
        after.buffer = disk (sectorOf file.info cluster file.cursor) := by
  simp only [ensureCursorInBuffer] at loaded
  split at loaded
  · cases loaded
  · next cluster found =>
      split_ifs at loaded with there
      · injection loaded with same
        subst same
        exact ⟨SameFile.refl file, rfl, cluster, found, file.cached _ there.symm⟩
      · injection loaded with same
        subst same
        exact ⟨⟨rfl, rfl, rfl, rfl⟩, rfl, cluster, found, rfl⟩

theorem ensureCursorInBuffer_found {cluster : Nat}
    (found : file.clusters[file.cursor / 512 / file.info.pbr.sectorsPerCluster]? = some cluster) :
    ∃ after, file.ensureCursorInBuffer = .ok after := by
  simp only [ensureCursorInBuffer, found]
  split_ifs
  · exact ⟨_, rfl⟩
  · exact ⟨_, rfl⟩

theorem getc_ok {got : Option UInt8} (positive : 0 < file.info.pbr.sectorsPerCluster)
    (small : file.stat.size < 2 ^ 32) (read : file.getc = .ok (got, after)) :
    SameFile after file ∧
      ((file.stat.size ≤ file.cursor ∧ got = none ∧ after = file) ∨
        (file.cursor < file.stat.size ∧ after.cursor = file.cursor + 1 ∧ got.isSome ∧
          got = (chainContents disk file.info file.clusters)[file.cursor]?)) := by
  simp only [getc] at read
  by_cases ends : file.stat.size ≤ file.cursor
  · rw [if_pos ends] at read
    simp only [Except.ok.injEq, Prod.mk.injEq] at read
    obtain ⟨rfl, rfl⟩ := read
    exact ⟨SameFile.refl file, Or.inl ⟨ends, rfl, rfl⟩⟩
  · rw [if_neg ends] at read
    split at read
    · cases read
    · next loaded load =>
        obtain ⟨same, cursor, cluster, found, buffer⟩ := ensureCursorInBuffer_ok load
        simp only [Except.ok.injEq, Prod.mk.injEq] at read
        obtain ⟨rfl, rfl⟩ := read
        refine ⟨⟨same.info, same.stat, same.clusters, same.count⟩, Or.inr ⟨by omega, ?_, rfl, ?_⟩⟩
        · simp only [cursor]
          exact Nat.mod_eq_of_lt (by omega)
        · rw [chainContents_getElem positive found, buffer, cursor]

theorem read_ok {size : Nat} {bytes : List UInt8}
    (positive : 0 < file.info.pbr.sectorsPerCluster) (small : file.stat.size < 2 ^ 32)
    (done : read size file = .ok (bytes, after)) :
    SameFile after file ∧ after.cursor = file.cursor + bytes.length ∧
      bytes.length = min size (file.stat.size - file.cursor) := by
  induction size generalizing file bytes with
  | zero =>
      simp only [read, Except.ok.injEq, Prod.mk.injEq] at done
      obtain ⟨rfl, rfl⟩ := done
      exact ⟨SameFile.refl file, by simp, by simp⟩
  | succ size ih =>
      simp only [read] at done
      split at done
      · cases done
      · next mid got =>
          simp only [Except.ok.injEq, Prod.mk.injEq] at done
          obtain ⟨rfl, rfl⟩ := done
          obtain ⟨same, ⟨ends, _, rfl⟩ | ⟨_, _, some, _⟩⟩ := getc_ok positive small got
          · exact ⟨same, by simp, by simp; omega⟩
          · cases some
      · next ch mid got =>
          obtain ⟨same, ⟨_, none, _⟩ | ⟨inside, cursor, _, _⟩⟩ := getc_ok positive small got
          · cases none
          · split at done
            · cases done
            · next rest last later =>
                simp only [Except.ok.injEq, Prod.mk.injEq] at done
                obtain ⟨rfl, rfl⟩ := done
                rw [← same.info] at positive
                rw [← same.stat] at small
                obtain ⟨sameLast, cursorLast, length⟩ := ih positive small later
                rw [same.stat, cursor] at length
                rw [cursor] at cursorLast
                refine ⟨sameLast.trans same, ?_, ?_⟩
                · rw [cursorLast, List.length_cons]
                  omega
                · rw [List.length_cons, length]
                  omega

theorem read_spec (size : Nat) (positive : 0 < file.info.pbr.sectorsPerCluster)
    (small : file.stat.size < 2 ^ 32)
    (covers : file.stat.size ≤ (chainContents disk file.info file.clusters).length) :
    ∃ after, read size file = .ok
      ((((chainContents disk file.info file.clusters).take file.stat.size).drop file.cursor).take
        size, after) := by
  induction size generalizing file with
  | zero => exact ⟨file, by simp [read]⟩
  | succ size ih =>
      by_cases inside : file.cursor < file.stat.size
      · have index : file.cursor / 512 / file.info.pbr.sectorsPerCluster < file.clusters.length := by
          rw [chainContents_length, FSInfo.clusterBytes] at covers
          rw [Nat.div_div_eq_div_mul]
          apply Nat.div_lt_of_lt_mul
          rw [Nat.mul_comm 512, Nat.mul_comm]
          omega
        obtain ⟨loaded, load⟩ :=
          ensureCursorInBuffer_found (List.getElem?_eq_getElem index)
        have got : ∃ ch mid, file.getc = .ok (some ch, mid) := by
          simp only [getc, if_neg (Nat.not_le.mpr inside), load]
          exact ⟨_, _, rfl⟩
        obtain ⟨ch, mid, got⟩ := got
        obtain ⟨same, ⟨_, none, _⟩ | ⟨_, cursor, _, byte⟩⟩ := getc_ok positive small got
        · cases none
        · obtain ⟨last, later⟩ := @ih mid (by rw [same.info]; exact positive)
            (by rw [same.stat]; exact small)
            (by rw [same.info, same.stat, same.clusters]; exact covers)
          refine ⟨last, ?_⟩
          rw [same.info, same.stat, same.clusters, cursor] at later
          have taken : ((chainContents disk file.info file.clusters).take
              file.stat.size)[file.cursor]? = some ch := by
            rw [List.getElem?_take_of_lt inside, ← byte]
          have split := List.drop_eq_getElem?_toList_append
            (l := (chainContents disk file.info file.clusters).take file.stat.size) (i := file.cursor)
          simp only [read, got, later]
          rw [split, taken]
          rfl
      · refine ⟨file, ?_⟩
        have ended : file.getc = .ok (none, file) := if_pos (Nat.le_of_not_lt inside)
        have nothing : ((chainContents disk file.info file.clusters).take file.stat.size).drop
            file.cursor = [] := by
          apply List.drop_eq_nil_of_le
          rw [List.length_take]
          omega
        simp only [read, ended, nothing, List.take_nil]

/-- Reads of the given sizes, from the `i`-th on, until one returns fewer bytes than were
asked for; `none` if that takes more rounds. -/
def readUntilShort (sizes : Nat → Nat) : Nat → Nat → ClusterFile disk →
    Except FileFault (Option (List UInt8))
  | 0, _, _ => .ok none
  | rounds + 1, i, file =>
      match read (sizes i) file with
      | .error fault => .error fault
      | .ok (bytes, file) =>
          if bytes.length < sizes i then .ok (some bytes)
          else
            match readUntilShort sizes rounds (i + 1) file with
            | .error fault => .error fault
            | .ok rest => .ok (rest.map fun more => bytes ++ more)

/-- Reading on delivers the rest of the file, no matter what is in it. -/
theorem readUntilShort_ok {sizes : Nat → Nat} {rounds i : Nat} {bytes : List UInt8}
    (positive : 0 < file.info.pbr.sectorsPerCluster) (small : file.stat.size < 2 ^ 32)
    (before : file.cursor ≤ file.stat.size)
    (done : readUntilShort sizes rounds i file = .ok (some bytes)) :
    bytes.length = file.stat.size - file.cursor := by
  induction rounds generalizing file i bytes with
  | zero => cases done
  | succ rounds ih =>
      simp only [readUntilShort] at done
      split at done
      · cases done
      · next got mid first =>
          obtain ⟨same, cursor, length⟩ := read_ok positive small first
          split_ifs at done with short
          · simp only [Except.ok.injEq, Option.some.injEq] at done
            rw [← done, length]
            omega
          · split at done
            · cases done
            · next rest later =>
                simp only [Except.ok.injEq, Option.map_eq_some_iff] at done
                obtain ⟨more, rfl, rfl⟩ := done
                rw [← same.info] at positive
                rw [← same.stat] at small
                have total := ih positive small (by rw [same.stat, cursor]; omega) later
                rw [same.stat, cursor] at total
                rw [List.length_append, total]
                omega

theorem readUntilShort_spec {sizes : Nat → Nat} (asked : ∀ i, 0 < sizes i) (i : Nat)
    (positive : 0 < file.info.pbr.sectorsPerCluster) (small : file.stat.size < 2 ^ 32)
    (covers : file.stat.size ≤ (chainContents disk file.info file.clusters).length)
    (before : file.cursor ≤ file.stat.size) :
    ∃ rounds, readUntilShort sizes rounds i file = .ok (some
      (((chainContents disk file.info file.clusters).take file.stat.size).drop file.cursor)) := by
  induction left : file.stat.size - file.cursor using Nat.strong_induction_on
    generalizing file i with
  | _ left' ih =>
      obtain ⟨mid, first⟩ := read_spec (sizes i) positive small covers
      obtain ⟨same, cursor, length⟩ := read_ok positive small first
      have some := asked i
      by_cases short : file.stat.size - file.cursor < sizes i
      · refine ⟨1, ?_⟩
        simp only [readUntilShort, first]
        rw [length, if_pos (by omega), List.take_of_length_le]
        rw [List.length_drop, List.length_take]
        omega
      · have next : mid.cursor = file.cursor + sizes i := by
          rw [cursor, length]
          omega
        obtain ⟨rounds, later⟩ := ih (mid.stat.size - mid.cursor)
          (by rw [same.stat, next]; omega) (i + 1) (by rw [same.info]; exact positive)
          (by rw [same.stat]; exact small)
          (by rw [same.info, same.stat, same.clusters]; exact covers)
          (by rw [same.stat, next]; omega) rfl
        refine ⟨rounds + 1, ?_⟩
        rw [same.info, same.stat, same.clusters, next] at later
        simp only [readUntilShort, first, later]
        rw [length, if_neg (by omega)]
        simp only [Option.map_some]
        rw [← List.drop_drop, List.take_append_drop]

end ClusterFile

/-- Opening a file by its name and reading it from its start until a short read delivers
these bytes. -/
def Delivers (fs : Fat16FileSystem disk) (dir : Directory) (name : List UInt8) (garbage : Mem)
    (sizes : Nat → Nat) (bytes : List UInt8) : Prop :=
  ∃ fuel file fs' rounds, dir.openFile fuel fs name garbage = .ok (some file, fs') ∧
    ClusterFile.readUntilShort sizes rounds 0 file = .ok (some bytes)

/-- The size of a file and its chain: an empty file has neither a first cluster nor a chain,
and the chain of any other is long enough. -/
def WellFormed (fs : Fat16FileSystem disk) (entry : FileInfoEx) (clusters : List Nat) : Prop :=
  entry.size < 2 ^ 32 ∧
    (entry.size = 0 ∧ entry.cluster = 0 ∧ clusters = [] ∨
      entry.size ≠ 0 ∧ FatChain disk fs.info (entry.cluster % 2 ^ 16) clusters ∧
        entry.size ≤ clusters.length * fs.info.clusterBytes)

theorem Directory.openFile_eq {dir : Directory} {name : List UInt8} {entry : FileInfoEx}
    (found : dir.lookup name = some entry) (fuel : Nat) (fs : Fat16FileSystem disk)
    (garbage : Mem) {file : ClusterFile disk} {fs' : Fat16FileSystem disk} :
    dir.openFile fuel fs name garbage = .ok (some file, fs') ↔
      ClusterFile.create fuel fs entry.cluster ⟨entry.size, entry.directory⟩ garbage =
        .ok (file, fs') := by
  simp only [openFile, found]
  split
  · next created => simp [created]
  · next created => simp [created]

theorem clusters_ne_zero {count perCluster : Nat} (some : 0 < count) (most : count ≤ clusterEnd)
    (positive : 0 < perCluster) (byte : perCluster < 2 ^ 8) :
    0 < u32 (count * (perCluster * 512)) := by
  apply Nat.pos_of_ne_zero
  intro zero
  have divides : 2 ^ 23 ∣ count * perCluster := by
    have whole := Nat.dvd_of_mod_eq_zero zero
    have factors : count * (perCluster * 512) = count * perCluster * 512 := by
      rw [Nat.mul_assoc]
    rw [factors, show 2 ^ 32 = 2 ^ 23 * 512 from rfl] at whole
    exact Nat.dvd_of_mul_dvd_mul_right (by decide) whole
  obtain ⟨k, product⟩ := divides
  have below : count * perCluster < 2 ^ 24 := by
    calc count * perCluster ≤ clusterEnd * 2 ^ 8 := Nat.mul_le_mul most (Nat.le_of_lt byte)
      _ < 2 ^ 24 := by decide
  have once : k = 1 := by
    have least : 0 < count * perCluster := Nat.mul_pos some positive
    rw [product] at below least
    omega
  rw [once, Nat.mul_one] at product
  obtain ⟨j, _, power⟩ := (Nat.dvd_prime_pow Nat.prime_two).mp
    (Dvd.intro_left count product)
  have exponent : j < 8 := by
    rw [power] at byte
    exact (Nat.pow_lt_pow_iff_right (by decide)).mp byte
  rw [power] at product
  simp only [clusterEnd] at most
  interval_cases j <;> omega

theorem Delivers.length {fs : Fat16FileSystem disk} {dir : Directory} {name : List UInt8}
    {entry : FileInfoEx} {garbage : Mem} {sizes : Nat → Nat} {bytes : List UInt8}
    (delivers : Delivers fs dir name garbage sizes bytes) (found : dir.lookup name = some entry)
    (regular : entry.directory = false) (small : entry.size < 2 ^ 32) :
    ∃ walked, FatChain disk fs.info (entry.cluster % 2 ^ 16) walked ∧
      bytes.length = ClusterFile.raisedSize fs.info walked.length entry.size := by
  obtain ⟨fuel, file, fs', rounds, opened, delivered⟩ := delivers
  rw [Directory.openFile_eq found, regular] at opened
  obtain ⟨walked, chain, made, _⟩ := ClusterFile.create_ok small opened
  have raised : file.stat.size = ClusterFile.raisedSize fs.info walked.length entry.size :=
    made.raised
  have rewound := made.rewound
  have total := ClusterFile.readUntilShort_ok
    (by rw [made.volume]; exact (mount_ok fs.mounted).1)
    (by rw [raised]; exact ClusterFile.raisedSize_lt small) (by omega) delivered
  rw [rewound, raised, Nat.sub_zero] at total
  exact ⟨walked, chain, total⟩

/-- A file that is found is read as its chain up to its size exactly if it is not empty and
its clusters hold, counted in 32 bits, no more than its size. -/
theorem contents_delivered_iff {fs : Fat16FileSystem disk} {dir : Directory} {name : List UInt8}
    {entry : FileInfoEx} {clusters : List Nat} (found : dir.lookup name = some entry)
    (regular : entry.directory = false) (wellFormed : WellFormed fs entry clusters)
    (garbage : Mem) {sizes : Nat → Nat} (asked : ∀ i, 0 < sizes i) :
    Delivers fs dir name garbage sizes ((chainContents disk fs.info clusters).take entry.size) ↔
      entry.size ≠ 0 ∧ clusters.length * fs.info.clusterBytes % 2 ^ 32 ≤ entry.size := by
  obtain ⟨positive, byte, _, _⟩ := mount_ok fs.mounted
  obtain ⟨small, shape⟩ := wellFormed
  constructor
  · intro delivers
    obtain ⟨walked, chain, total⟩ := delivers.length found regular small
    simp only [List.length_take, ClusterFile.raisedSize] at total
    rcases shape with ⟨empty, none, rfl⟩ | ⟨some, chained, holds⟩
    · -- The loops take cluster 0 for the first of a chain.
      rw [none, Nat.zero_mod] at chain
      have passed : 0 < walked.length := by
        cases chain with
        | stopped here => exact absurd here (by decide)
        | passed _ _ _ => exact Nat.succ_pos _
      have more : 0 < u32 (walked.length * fs.info.clusterBytes) :=
        clusters_ne_zero passed chain.length_le positive byte
      rw [empty, if_pos more] at total
      omega
    · rw [Walk.unique chain chained] at total
      refine ⟨some, Nat.le_of_not_lt fun more => ?_⟩
      have raises : entry.size < u32 (clusters.length * fs.info.clusterBytes) := more
      rw [if_pos raises] at total
      omega
  · rintro ⟨some, fits⟩
    obtain ⟨empty, _⟩ | ⟨_, chain, holds⟩ := shape
    · exact absurd empty some
    obtain ⟨file, fs', created, made, _⟩ := ClusterFile.create_made fs garbage chain
      (show (FileStat.mk entry.size false).size < 2 ^ 32 from small) (Nat.lt_succ_self _)
    have size : file.stat.size = entry.size := by
      have keeps : ¬ entry.size < u32 (clusters.length * fs.info.clusterBytes) :=
        Nat.not_lt.mpr fits
      exact made.raised.trans (if_neg keeps)
    obtain ⟨covers, contents⟩ := made.contents (by rw [size]; exact holds)
    obtain ⟨rounds, delivered⟩ := ClusterFile.readUntilShort_spec asked 0
      (by rw [made.volume]; exact positive) (by rw [size]; exact small)
      (by rw [made.volume]; exact covers) (by rw [made.rewound]; exact Nat.zero_le _)
    rw [made.volume, made.rewound, List.drop_zero, contents, size] at delivered
    refine ⟨clusters.length + 1, file, fs', rounds, ?_, delivered⟩
    rw [Directory.openFile_eq found, regular]
    exact created

/-- A volume of 5000 sectors whose FAT links cluster 2 to cluster 3, and no other clusters. -/
def smallDisk : Disk := fun sector offset =>
  if sector = 0 then
    match offset with
    | 12 => 2
    | 13 => 1
    | 16 => 1
    | 19 => 0x88
    | 20 => 0x13
    | 22 => 16
    | 28 => 1
    | 38 => 0x29
    | _ => 0
  else if sector = 1 ∧ offset = 4 then 3
  else if sector = 1 ∧ offset = 5 then 0
  else if sector ≤ 16 then 255
  else UInt8.ofNat sector

theorem smallDisk_mounted :
    mount smallDisk = .ok (FSInfo.derive (PartitionBootRecord.load (smallDisk 0))) := by
  rfl

def smallVolume : Fat16FileSystem smallDisk := Fat16FileSystem.create smallDisk_mounted fun _ => 0

theorem smallVolume_last : FatChain smallDisk smallVolume.info 3 [3] := by
  have link : fatEntry smallDisk smallVolume.info 3 = some 0xFFFF := by decide +kernel
  have goes : ¬ clusterEnd ≤ 3 := by decide
  have ends : clusterEnd ≤ 0xFFFF := by decide
  exact Walk.passed goes link (Walk.stopped ends)

theorem smallVolume_chain : FatChain smallDisk smallVolume.info 2 [2, 3] := by
  have link : fatEntry smallDisk smallVolume.info 2 = some 3 := by decide +kernel
  have goes : ¬ clusterEnd ≤ 2 := by decide
  exact Walk.passed goes link smallVolume_last

def oneFile (size cluster : Nat) : Directory := ⟨[⟨[65], false, size, cluster⟩]⟩

/-- A file of exactly two clusters, read a hundred bytes at a time. -/
theorem contents_delivered_cluster :
    Delivers smallVolume (oneFile 1024 2) [97] (fun _ => 0) (fun _ => 100)
      ((chainContents smallDisk smallVolume.info [2, 3]).take 1024) := by
  have hundred : 0 < 100 := by decide
  have found : (oneFile 1024 2).lookup [97] = some ⟨[65], false, 1024, 2⟩ := by decide
  have fits : [2, 3].length * smallVolume.info.clusterBytes % 2 ^ 32 ≤ 1024 := by decide +kernel
  have holds : 1024 ≤ [2, 3].length * smallVolume.info.clusterBytes := by decide +kernel
  have shape : WellFormed smallVolume ⟨[65], false, 1024, 2⟩ [2, 3] :=
    ⟨by decide, Or.inr ⟨by decide, smallVolume_chain, holds⟩⟩
  exact (contents_delivered_iff found rfl shape _ fun _ => hundred).mpr ⟨by decide, fits⟩

/-- A file of five bytes is delivered with the rest of its cluster. -/
theorem short_file_padded :
    (oneFile 5 3).lookup [97] = some ⟨[65], false, 5, 3⟩ ∧
      WellFormed smallVolume ⟨[65], false, 5, 3⟩ [3] ∧
      ¬ Delivers smallVolume (oneFile 5 3) [97] (fun _ => 0) (fun _ => 100)
        ((chainContents smallDisk smallVolume.info [3]).take 5) := by
  have found : (oneFile 5 3).lookup [97] = some ⟨[65], false, 5, 3⟩ := by decide
  have holds : 5 ≤ [3].length * smallVolume.info.clusterBytes := by decide +kernel
  refine ⟨found, ⟨by decide, Or.inr ⟨by decide, smallVolume_last, holds⟩⟩, ?_⟩
  intro delivers
  obtain ⟨walked, chain, length⟩ := delivers.length found rfl (by decide)
  rw [Walk.unique chain smallVolume_last] at length
  have raised : ClusterFile.raisedSize smallVolume.info [3].length 5 = 512 := by
    decide +kernel
  rw [List.length_take, raised] at length
  omega

end SysImpl.Fat
