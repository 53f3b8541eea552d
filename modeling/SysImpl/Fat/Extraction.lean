import SysImpl.Fat.Contents

/-! The table of clusters of a file.

The constructor of `ClusterFile` walks the chain once to count it and once to fill the table.
The second walk has another condition, on the size that is computed between the two. -/

namespace SysImpl.Fat

open Bytes Walks

variable {disk : Disk}

namespace ClusterFile

def countVisits : Nat → Nat → Fat16FileSystem disk → List Nat
  | 0, _, _ => []
  | fuel + 1, nowCluster, fs =>
      if nowCluster < clusterEnd then
        let (next, fs) := fs.readLink nowCluster
        nowCluster :: countVisits fuel next fs
      else []

/-- The table holds the whole chain, which is what the counting loop has visited. -/
structure Extracts (file : ClusterFile disk) (clusters visits : List Nat) : Prop where
  counted : file.clusterNum = clusters.length
  filled : file.clusters = clusters
  visited : visits = file.clusters
  size : file.stat.directory = true →
    file.stat.size = clusters.length * file.info.clusterBytes

theorem countVisits_eq {start fuel : Nat} {clusters : List Nat} (fs : Fat16FileSystem disk)
    (chain : FatChain disk fs.info start clusters) (small : start < 2 ^ 16)
    (enough : clusters.length < fuel) : countVisits fuel start fs = clusters := by
  induction fuel generalizing start clusters fs with
  | zero => exact absurd enough (Nat.not_lt_zero _)
  | succ fuel ih =>
      simp only [countVisits]
      cases chain with
      | stopped here => rw [if_neg (Nat.not_lt.mpr here)]
      | @passed _ next rest goes link later =>
          have goesTo := readLink_spec fs small
          rw [link] at goesTo
          have step : fs.readLink start = (next, (fs.readLink start).2) := Prod.ext goesTo rfl
          rw [List.length_cons] at enough
          rw [if_pos (Nat.lt_of_not_le goes), step,
            ih (fs.readLink start).2 later (fatEntry_lt link) (by omega)]

theorem chainSize_lt {info : FSInfo} {start : Nat} {clusters : List Nat}
    (chain : FatChain disk info start clusters) (sectors : info.pbr.sectorsPerCluster ≤ 128) :
    clusters.length * info.clusterBytes < 2 ^ 32 := by
  have count : clusters.length ≤ 65528 := chain.length_le
  have bytes : info.clusterBytes ≤ 65536 := by
    rw [FSInfo.clusterBytes]
    omega
  calc clusters.length * info.clusterBytes ≤ 65528 * 65536 := Nat.mul_le_mul count bytes
    _ < 2 ^ 32 := by decide

theorem le_raisedSize {info : FSInfo} {count size : Nat}
    (small : count * info.clusterBytes < 2 ^ 32) :
    count * info.clusterBytes ≤ raisedSize info count size := by
  simp only [raisedSize, u32, Nat.mod_eq_of_lt small]
  split
  · exact Nat.le_refl _
  · next large => exact Nat.le_of_not_lt large

theorem Made.filled {file : ClusterFile disk} {info : FSInfo} {clusters : List Nat}
    {stat : FileStat} (made : Made file info clusters stat) (positive : 0 < info.clusterBytes)
    (small : clusters.length * info.clusterBytes < 2 ^ 32) : file.clusters = clusters := by
  obtain ⟨taken, table, covers⟩ := made.table
  rcases covers with covers | whole
  · rw [made.raised] at covers
    have least := Nat.le_of_mul_le_mul_right ((le_raisedSize small).trans covers) positive
    rw [table, List.length_take] at least
    rw [table, List.take_of_length_le (by omega)]
  · exact whole

theorem Made.directorySize {file : ClusterFile disk} {info : FSInfo} {clusters : List Nat}
    {stat : FileStat} (made : Made file info clusters stat)
    (small : clusters.length * info.clusterBytes < 2 ^ 32)
    (directory : file.stat.directory = true) :
    file.stat.size = clusters.length * info.clusterBytes := by
  rw [made.kind] at directory
  have size := made.raised
  rw [if_pos directory] at size
  rw [size]
  exact Nat.le_antisymm (raisedSize_le (Nat.zero_le _)) (le_raisedSize small)

end ClusterFile

/-- For every chain inside the FAT, the constructor comes to its end with the clusters of the
chain in the table, all of those and no others, and a directory gets their size. Nothing is
asked of the cursor and the buffer of the shared file of the FAT. -/
theorem chain_extracted {start fuel : Nat} {stat : FileStat} {clusters : List Nat}
    (fs : Fat16FileSystem disk) (garbage : Mem)
    (chain : FatChain disk fs.info (start % 2 ^ 16) clusters)
    (sectors : fs.info.pbr.sectorsPerCluster ≤ 128) (bound : stat.size < 2 ^ 32)
    (enough : clusters.length < fuel) :
    ∃ file fs', ClusterFile.create fuel fs start stat garbage = .ok (file, fs') ∧
      file.Extracts clusters (ClusterFile.countVisits fuel (start % 2 ^ 16) fs) := by
  obtain ⟨file, last, created, made, -⟩ := ClusterFile.create_made fs garbage chain bound enough
  have small := ClusterFile.chainSize_lt chain sectors
  have positive : 0 < fs.info.clusterBytes :=
    Nat.mul_pos (mount_ok fs.mounted).1 (by decide)
  have filled := made.filled positive small
  refine ⟨file, last, created, made.counted, filled, ?_, ?_⟩
  · rw [filled]
    exact ClusterFile.countVisits_eq fs chain (Nat.mod_lt _ (by decide)) enough
  · intro directory
    rw [made.volume]
    exact made.directorySize small directory

theorem chain_extracted_cluster :
    ∃ file fs', ClusterFile.create 3 smallVolume 2 ⟨0, true⟩ (fun _ => 0) = .ok (file, fs') ∧
      file.Extracts [2, 3] (ClusterFile.countVisits 3 (2 % 2 ^ 16) smallVolume) :=
  chain_extracted smallVolume (fun _ => 0) smallVolume_chain (by decide +kernel) (by decide)
    (by decide)

end SysImpl.Fat
