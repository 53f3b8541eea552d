import SysImpl.Fat.Cursors

/-! Files whose FAT or directory entry is not in order.

The constructor of `ClusterFile` follows whatever the FAT links, and believes whatever size
the directory entry has. -/

namespace SysImpl.Fat

open Bytes Walks

variable {disk : Disk}

/-- The constructor comes to an end. -/
def Opens (fs : Fat16FileSystem disk) (start : Nat) (stat : FileStat) (garbage : Mem) : Prop :=
  ∃ fuel, ClusterFile.create fuel fs start stat garbage ≠ .error .running

theorem ClusterFile.countLoop_error {directory : Bool} {fuel start count size : Nat}
    {fs : Fat16FileSystem disk} {fault : FileFault}
    (failed : countLoop directory fuel start count size fs = .error fault) : fault = .running := by
  induction fuel generalizing start count size fs with
  | zero => exact (Except.error.inj failed).symm
  | succ fuel ih =>
      simp only [countLoop] at failed
      split_ifs at failed
      · exact ih failed
      · exact ih failed

theorem opens_iff_chain (fs : Fat16FileSystem disk) (start : Nat) {stat : FileStat} (garbage : Mem)
    (bound : stat.size < 2 ^ 32) :
    Opens fs start stat garbage ↔ ∃ clusters, FatChain disk fs.info (start % 2 ^ 16) clusters := by
  constructor
  · rintro ⟨fuel, ends⟩
    simp only [ClusterFile.create] at ends
    split at ends
    · next fault failed =>
        rw [ClusterFile.countLoop_error failed] at ends
        exact absurd rfl ends
    · next result counted =>
        obtain ⟨clusters, chain, _⟩ :=
          ClusterFile.countLoop_ok counted (Nat.mod_lt _ (by decide))
        exact ⟨clusters, chain⟩
  · rintro ⟨clusters, chain⟩
    obtain ⟨file, last, created, _⟩ :=
      ClusterFile.create_made fs garbage chain bound (Nat.lt_succ_self _)
    refine ⟨clusters.length + 1, ?_⟩
    rw [created]
    intro running
    cases running

/-- A file is opened in the end exactly if the FAT, from its first cluster on, comes back to
no cluster before an end-of-chain mark. A link that lies outside the FAT counts as a link of
the cluster to itself. -/
theorem open_terminates_iff (fs : Fat16FileSystem disk) (start : Nat) {stat : FileStat}
    (garbage : Mem) (bound : stat.size < 2 ^ 32) :
    Opens fs start stat garbage ↔
      NoReturn (fatEntry disk fs.info) (clusterEnd ≤ ·) (start % 2 ^ 16) := by
  rw [opens_iff_chain fs start garbage bound]
  exact exists_walk_iff fun _ goes => Nat.lt_of_not_le goes

/-- An open of the file in clusters 2 and 3. -/
theorem open_terminates_cluster : Opens smallVolume 2 ⟨1000, false⟩ fun _ => 0 :=
  (open_terminates_iff smallVolume 2 (fun _ => 0) (by decide)).mpr
    (Walk.noReturn smallVolume_chain)

def loopDisk : Disk := fun sector offset =>
  if sector = 0 then smallDisk 0 offset
  else if offset % 2 = 0 then 2
  else 0

theorem loopDisk_mounted :
    mount loopDisk = .ok (FSInfo.derive (PartitionBootRecord.load (loopDisk 0))) := by
  rfl

def loopVolume : Fat16FileSystem loopDisk := Fat16FileSystem.create loopDisk_mounted fun _ => 0

/-- Opening a file of this volume never ends. -/
theorem cyclic_chain_hangs : ¬ Opens loopVolume 2 ⟨512, false⟩ fun _ => 0 := by
  rw [opens_iff_chain loopVolume 2 (fun _ => 0) (by decide)]
  rintro ⟨clusters, chain⟩
  have link : fatEntry loopDisk loopVolume.info 2 = some 2 := by decide +kernel
  have step : onward (fatEntry loopDisk loopVolume.info) 2 = 2 := by
    simp only [onward, link, Option.getD_some]
  refine Walk.noReturn chain 0 1 Nat.one_pos ?_ step.symm
  intro k most
  obtain rfl | rfl : k = 0 ∨ k = 1 := by omega
  · decide
  · rw [Function.iterate_one]
    change ¬ clusterEnd ≤ onward (fatEntry loopDisk loopVolume.info) 2
    rw [step]
    decide

namespace ClusterFile

variable {file : ClusterFile disk}

/-- No calls read the table of clusters behind its end, and a read behind the last cluster
is at the end of the file. -/
def WithinTable (file : ClusterFile disk) : Prop :=
  ∀ calls, file.run calls ≠ .error .outsideTable ∧
    ∀ after, file.run calls = .ok after → file.clusterNum * file.info.clusterBytes ≤ after.cursor →
      ∀ n, after.read n = .ok ([], after)

theorem withinTable_of_size {info : FSInfo} {clusters : List Nat} {stat : FileStat}
    (made : Made file info clusters stat) (positive : 0 < info.pbr.sectorsPerCluster)
    (small : file.stat.size < 2 ^ 32)
    (holds : file.stat.size ≤ clusters.length * info.clusterBytes) : file.WithinTable := by
  have covers := (made.contents holds).1
  rw [chainContents_length, ← made.volume] at covers
  rw [← made.volume] at positive
  intro calls
  obtain ⟨last, done, same⟩ := run_ok positive small covers calls
  rw [done]
  refine ⟨nofun, ?_⟩
  intro after equal past n
  cases equal
  apply read_ended
  rw [made.counted, made.volume] at past
  rw [same.stat]
  exact Nat.le_trans holds past

theorem short_chain_outside {info : FSInfo} {clusters : List Nat} {stat : FileStat}
    (made : Made file info clusters stat) (positive : 0 < info.pbr.sectorsPerCluster)
    (small : file.stat.size < 2 ^ 32)
    (short : clusters.length * info.clusterBytes < file.stat.size) :
    file.run [.seek (clusters.length * info.clusterBytes : Nat) 0, .read 1] =
      .error .outsideTable := by
  have table : file.clusters = clusters := by
    obtain ⟨taken, part, covers | whole⟩ := made.table
    · have most : file.clusters.length ≤ clusters.length := by
        rw [part]
        exact List.length_take_le' _ _
      have less := Nat.mul_le_mul_right info.clusterBytes most
      omega
    · exact whole
  have cursor : keep32 ((clusters.length * info.clusterBytes : Nat) : Int) =
      clusters.length * info.clusterBytes := by
    simp only [keep32]
    omega
  have index : clusters.length * info.clusterBytes / 512 / info.pbr.sectorsPerCluster =
      clusters.length := by
    rw [FSInfo.clusterBytes, ← Nat.mul_assoc, Nat.mul_div_cancel _ (by decide),
      Nat.mul_div_cancel _ positive]
  have sought : (file.seek (clusters.length * info.clusterBytes : Nat) 0).2 =
      { file with cursor := clusters.length * info.clusterBytes } := by
    simp only [seek, seekCursor, cursor]
    rfl
  have missing : clusters[clusters.length]? = none := by simp
  rw [run_cons_seek, sought]
  simp only [run, List.foldlM_cons, read, getc, if_neg (Nat.not_le.mpr short),
    ensureCursorInBuffer, made.volume, index, table, missing, made.counted, Nat.lt_irrefl, if_false]
  rfl

/-- The table of clusters of an open file is read within its bounds exactly if the file is a
directory, or its directory entry has no more bytes than its chain. -/
theorem table_bounds_iff {start size fuel : Nat} {directory : Bool}
    {fs fs' : Fat16FileSystem disk} {garbage : Mem} (bound : size < 2 ^ 32)
    (created : create fuel fs start ⟨size, directory⟩ garbage = .ok (file, fs')) :
    file.WithinTable ↔ directory = true ∨
      ∃ clusters, FatChain disk fs.info (start % 2 ^ 16) clusters ∧
        size ≤ clusters.length * fs.info.clusterBytes := by
  have positive := (mount_ok fs.mounted).1
  obtain ⟨clusters, chain, made, _⟩ :=
    create_ok (show (FileStat.mk size directory).size < 2 ^ 32 from bound) created
  have initial : (if directory then 0 else size) < 2 ^ 32 := by
    split_ifs
    · decide
    · exact bound
  have raised : file.stat.size =
      raisedSize fs.info clusters.length (if directory then 0 else size) := made.raised
  have small : file.stat.size < 2 ^ 32 := by
    rw [raised]
    exact raisedSize_lt initial
  constructor
  · intro within
    by_contra neither
    rw [not_or] at neither
    obtain ⟨regular, long⟩ := neither
    have short : clusters.length * fs.info.clusterBytes < size := by
      by_contra fits
      exact long ⟨clusters, chain, Nat.le_of_not_lt fits⟩
    have kept : file.stat.size = size := by
      rw [raised, if_neg regular, raisedSize, if_neg]
      intro less
      have most := Nat.mod_le (clusters.length * fs.info.clusterBytes) (2 ^ 32)
      simp only [u32] at less
      omega
    exact (within _).1 (short_chain_outside made positive small (by rw [kept]; exact short))
  · intro either
    refine withinTable_of_size made positive small ?_
    rw [raised]
    apply raisedSize_le
    rcases either with rfl | ⟨walked, again, holds⟩
    · exact Nat.zero_le _
    · rw [Walk.unique again chain] at holds
      split_ifs
      · exact Nat.zero_le _
      · exact holds

/-- A file of two clusters. -/
theorem table_bounds_cluster :
    ∃ file fs', create 3 smallVolume 2 ⟨1000, false⟩ (fun _ => 0) = .ok (file, fs') ∧
      file.WithinTable := by
  have chain : FatChain smallDisk smallVolume.info (2 % 2 ^ 16) [2, 3] := smallVolume_chain
  obtain ⟨file, fs', created, _⟩ := create_made smallVolume (fun _ => 0) chain
    (show (FileStat.mk 1000 false).size < 2 ^ 32 by decide) (show [2, 3].length < 3 by decide)
  have fits : 1000 ≤ [2, 3].length * smallVolume.info.clusterBytes := by decide +kernel
  exact ⟨file, fs', created,
    (table_bounds_iff (by decide) created).mpr (Or.inr ⟨[2, 3], chain, fits⟩)⟩

/-- A file of 1000 bytes in a chain of one cluster of 512. -/
theorem long_entry_outside :
    ∃ file fs', create 2 smallVolume 3 ⟨1000, false⟩ (fun _ => 0) = .ok (file, fs') ∧
      file.clusterNum = 1 ∧ file.run [.seek 512 0, .read 1] = .error .outsideTable ∧
      ¬ file.WithinTable := by
  have chain : FatChain smallDisk smallVolume.info (3 % 2 ^ 16) [3] := smallVolume_last
  obtain ⟨file, fs', created, made, _⟩ := create_made smallVolume (fun _ => 0) chain
    (show (FileStat.mk 1000 false).size < 2 ^ 32 by decide) (show [3].length < 2 by decide)
  have bytes : smallVolume.info.clusterBytes = 512 := by decide +kernel
  have size : file.stat.size = 1000 := by
    rw [made.raised]
    decide +kernel
  have outside := short_chain_outside made (mount_ok smallVolume.mounted).1
    (by rw [size]; decide) (by rw [size, bytes]; decide)
  rw [bytes] at outside
  exact ⟨file, fs', created, made.counted, outside, fun within => (within _).1 outside⟩

end ClusterFile

end SysImpl.Fat
