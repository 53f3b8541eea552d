import SysImpl.Fat.ClusterFile

/-! Where a mounted volume has its FAT, its root directory and its data.

The sectors of a FAT16 volume are counted from the first one of its partition: the
reserved ones, the copies of the FAT, the root directory, the clusters. -/

namespace SysImpl.Fat

open Bytes

def reservedSectors (sector : Mem) : Nat := load16 sector 14

def FSInfo.rootDirStart (info : FSInfo) : Nat := sub32 info.firstDataSector info.rootDirSectors

structure FSInfo.InRange (info : FSInfo) : Prop where
  data : info.pbr.hiddenSectors + info.pbr.fatNum * info.fatSize + info.rootDirSectors < 2 ^ 32
  system : info.pbr.hiddenSectors + info.pbr.sectorsPerFat * info.fatSize + info.rootDirSectors ≤
    info.totalSectors
  fat : info.firstFatSector + info.fatSize < 2 ^ 32

structure FSInfo.Fat16Layout (info : FSInfo) (reserved : Nat) : Prop where
  fat : info.firstFatSector = reserved
  root : info.rootDirStart = reserved + info.pbr.fatNum * info.pbr.sectorsPerFat
  data : info.firstDataSector = info.rootDirStart + info.rootDirSectors
  total : info.firstDataSector + info.dataSectors = info.totalSectors
  clusters : ∀ cluster, 2 ≤ cluster → cluster ≤ info.totalClusters + 1 → ∀ pos,
    info.firstDataSector ≤ ClusterFile.sectorOf info cluster pos ∧
      ClusterFile.sectorOf info cluster pos < info.totalSectors

/-- The constructor stops at an assertion, or finds the volume as it is laid out. -/
def MountsRight (disk : Disk) : Prop :=
  mount disk = .error .assertion ∨
    ∃ info, mount disk = .ok info ∧ info.InRange ∧ info.Fat16Layout (reservedSectors (disk 0))

/-- The number of clusters the constructor counts, with `sectors_per_fat` taken for the
number of the FATs. -/
def PartitionBootRecord.countedClusters (pbr : PartitionBootRecord) : Int :=
  let sectors := if pbr.totalSectors = 0 then pbr.largeTotalSectors else pbr.totalSectors
  ((sectors : Int) - pbr.hiddenSectors - pbr.sectorsPerFat * pbr.sectorsPerFat -
    ((pbr.rootDirectoryEntryNum * 32 + 511) / 512 : Nat)) % 2 ^ 32 / pbr.sectorsPerCluster

/-- The boot records that the constructor takes for what they are: those an assertion is
for, and those in which the two fields that are mistaken for others agree with them. -/
def PartitionBootRecord.Sound (pbr : PartitionBootRecord) (reserved : Nat) : Prop :=
  pbr.bytesPerSector ≠ 512 ∨ (pbr.bootSignature ≠ 0x28 ∧ pbr.bootSignature ≠ 0x29) ∨
    pbr.sectorsPerFat = 0 ∨
    pbr.sectorsPerCluster ≠ 0 ∧
      (pbr.hiddenSectors = reserved ∧ pbr.fatNum = pbr.sectorsPerFat ∨
        pbr.countedClusters < 4085 ∨ 65525 ≤ pbr.countedClusters)

/-- The ranges of the fields of a boot record, from their types. -/
structure PartitionBootRecord.Fields (pbr : PartitionBootRecord) : Prop where
  cluster : pbr.sectorsPerCluster < 2 ^ 8
  fats : pbr.fatNum < 2 ^ 8
  entries : pbr.rootDirectoryEntryNum < 2 ^ 16
  total : pbr.totalSectors < 2 ^ 16
  fat : pbr.sectorsPerFat < 2 ^ 16
  hidden : pbr.hiddenSectors < 2 ^ 32
  large : pbr.largeTotalSectors < 2 ^ 32

theorem load_fields (sector : Mem) : (PartitionBootRecord.load sector).Fields :=
  ⟨UInt8.toNat_lt _, UInt8.toNat_lt _, load16_lt _ _, load16_lt _ _, load16_lt _ _,
    load32_lt _ _, load32_lt _ _⟩

variable {pbr : PartitionBootRecord}

theorem sub32_cast {a b : Nat} (bound : a < 2 ^ 32) :
    ((sub32 a b : Nat) : Int) = ((a : Int) - b) % 2 ^ 32 := by
  simp only [sub32, u32]
  omega

theorem derive_totalClusters (fields : pbr.Fields) (sector : pbr.bytesPerSector = 512) :
    ((FSInfo.derive pbr).totalClusters : Int) = pbr.countedClusters := by
  have total : (if pbr.totalSectors = 0 then pbr.largeTotalSectors else pbr.totalSectors) <
      2 ^ 32 := by
    have small := fields.total
    have large := fields.large
    split <;> omega
  simp only [FSInfo.derive, PartitionBootRecord.countedClusters, sector]
  rw [Int.natCast_ediv, sub32_cast total]
  congr 1
  rw [← Int.natCast_mul]
  simp only [u32]
  generalize pbr.sectorsPerFat * pbr.sectorsPerFat = fats
  generalize (if pbr.totalSectors = 0 then pbr.largeTotalSectors else pbr.totalSectors) = sectors
  omega

/-- The constructor stops at an assertion exactly for these records. -/
theorem mount_rejects (disk : Disk) :
    mount disk = .error .assertion ↔
      (PartitionBootRecord.load (disk 0)).bytesPerSector ≠ 512 ∨
        ((PartitionBootRecord.load (disk 0)).bootSignature ≠ 0x28 ∧
          (PartitionBootRecord.load (disk 0)).bootSignature ≠ 0x29) ∨
        (PartitionBootRecord.load (disk 0)).sectorsPerFat = 0 ∨
        (PartitionBootRecord.load (disk 0)).sectorsPerCluster ≠ 0 ∧
          ((PartitionBootRecord.load (disk 0)).countedClusters < 4085 ∨
            65525 ≤ (PartitionBootRecord.load (disk 0)).countedClusters) := by
  have counted := derive_totalClusters (load_fields (disk 0))
  simp only [mount]
  generalize PartitionBootRecord.load (disk 0) = pbr at counted ⊢
  split_ifs with sector signature fat cluster count
  · simp [sector]
  · simp [signature]
  · simp [fat]
  · simp only [ne_eq, not_not] at sector
    simp [sector, fat, cluster]
    omega
  · simp only [ne_eq, not_not] at sector
    have outside := counted sector
    simp [sector, fat, cluster]
    omega
  · simp only [ne_eq, not_not] at sector
    have inside := counted sector
    simp [sector, fat, cluster]
    omega

theorem mount_accepts {disk : Disk}
    (cluster : (PartitionBootRecord.load (disk 0)).sectorsPerCluster ≠ 0)
    (passed : mount disk ≠ .error .assertion) :
    mount disk = .ok (FSInfo.derive (PartitionBootRecord.load (disk 0))) := by
  simp only [mount] at passed ⊢
  split_ifs at passed ⊢
  all_goals first | rfl | exact absurd rfl passed

theorem sectorOf_eq {info : FSInfo} {cluster : Nat} (pos : Nat) (least : 2 ≤ cluster)
    (positive : 0 < info.pbr.sectorsPerCluster)
    (ends : info.firstDataSector + (cluster - 1) * info.pbr.sectorsPerCluster ≤ 2 ^ 32) :
    ClusterFile.sectorOf info cluster pos = info.firstDataSector +
      (cluster - 2) * info.pbr.sectorsPerCluster + pos / 512 % info.pbr.sectorsPerCluster := by
  have inside : pos / 512 % info.pbr.sectorsPerCluster < info.pbr.sectorsPerCluster :=
    Nat.mod_lt _ positive
  have whole : (cluster - 1) * info.pbr.sectorsPerCluster =
      (cluster - 2) * info.pbr.sectorsPerCluster + info.pbr.sectorsPerCluster := by
    rw [← Nat.succ_mul]
    congr 1
    omega
  have most : cluster - 1 ≤ 2 ^ 32 := by
    have grows := Nat.le_mul_of_pos_right (cluster - 1) positive
    omega
  have index : sub32 cluster 2 = cluster - 2 := by
    simp only [sub32, u32]
    omega
  simp only [ClusterFile.sectorOf, index]
  rw [u32, Nat.mod_eq_of_lt]
  · omega
  · omega

/-- A difference that had wrapped would count more clusters than the assertion allows. -/
theorem sub32_of_few {total used perCluster : Nat} (bound : total < 2 ^ 32) (few : used < 2 ^ 18)
    (byte : perCluster < 2 ^ 8) (positive : 0 < perCluster)
    (most : sub32 total used / perCluster < 65525) :
    used ≤ total ∧ sub32 total used = total - used := by
  have below : sub32 total used < 65525 * perCluster := (Nat.div_lt_iff_lt_mul positive).mp most
  simp only [sub32, u32] at below ⊢
  omega

theorem derive_totalSectors_lt (fields : pbr.Fields) :
    (FSInfo.derive pbr).totalSectors < 2 ^ 32 := by
  have short := fields.total
  have large := fields.large
  simp only [FSInfo.derive]
  split <;> omega

/-- With the fields that are mistaken for each other equal, a volume that the assertions let
pass is laid out as it should be. -/
theorem derive_right (fields : pbr.Fields) (sector : pbr.bytesPerSector = 512) {reserved : Nat}
    (small : reserved < 2 ^ 16) (positive : 0 < pbr.sectorsPerCluster)
    (most : (FSInfo.derive pbr).totalClusters < 65525)
    (hidden : pbr.hiddenSectors = reserved) (fats : pbr.fatNum = pbr.sectorsPerFat) :
    (FSInfo.derive pbr).InRange ∧ (FSInfo.derive pbr).Fat16Layout reserved := by
  have cluster := fields.cluster
  have square : pbr.sectorsPerFat * pbr.sectorsPerFat ≤ (2 ^ 8 - 1) * (2 ^ 8 - 1) := by
    have byte := fields.fats
    exact Nat.mul_le_mul (by omega) (by omega)
  have root : (pbr.rootDirectoryEntryNum * 32 + 511) / 512 ≤ 2 ^ 12 := by
    have entries := fields.entries
    omega
  have total := derive_totalSectors_lt fields
  have used : u32 (reserved + pbr.sectorsPerFat * pbr.sectorsPerFat +
      (pbr.rootDirectoryEntryNum * 32 + 511) / 512) = reserved +
        pbr.sectorsPerFat * pbr.sectorsPerFat + (pbr.rootDirectoryEntryNum * 32 + 511) / 512 :=
    Nat.mod_eq_of_lt (by omega)
  have data : (FSInfo.derive pbr).dataSectors = sub32 (FSInfo.derive pbr).totalSectors
      (reserved + pbr.sectorsPerFat * pbr.sectorsPerFat +
        (pbr.rootDirectoryEntryNum * 32 + 511) / 512) := by
    simp only [FSInfo.derive, sector, hidden, used]
  have first : (FSInfo.derive pbr).firstDataSector = reserved +
      pbr.sectorsPerFat * pbr.sectorsPerFat + (pbr.rootDirectoryEntryNum * 32 + 511) / 512 := by
    simp only [FSInfo.derive, sector, hidden, fats, used]
  have clusters : (FSInfo.derive pbr).totalClusters =
      (FSInfo.derive pbr).dataSectors / pbr.sectorsPerCluster := rfl
  have rootDir : (FSInfo.derive pbr).rootDirSectors =
      (pbr.rootDirectoryEntryNum * 32 + 511) / 512 := by
    simp only [FSInfo.derive, sector]
  have fatFile : (FSInfo.derive pbr).firstFatSector + (FSInfo.derive pbr).fatSize =
      reserved + pbr.sectorsPerFat := by
    simp only [FSInfo.derive, hidden]
  have fat := fields.fat
  rw [clusters, data] at most
  obtain ⟨enough, difference⟩ := sub32_of_few total (by omega) cluster positive most
  rw [difference] at data
  have start : (FSInfo.derive pbr).rootDirStart =
      reserved + pbr.sectorsPerFat * pbr.sectorsPerFat := by
    simp only [FSInfo.rootDirStart, first, rootDir, sub32, u32]
    omega
  generalize shape : FSInfo.derive pbr = info at *
  have same : info.pbr = pbr := by rw [← shape]; rfl
  have size : info.fatSize = pbr.sectorsPerFat := by rw [← shape]; rfl
  have fatStart : info.firstFatSector = reserved := by rw [← shape]; exact hidden
  refine ⟨⟨?_, ?_, ?_⟩, ⟨fatStart, ?_, ?_, ?_, ?_⟩⟩
  · rw [same, size, hidden, fats, rootDir]
    omega
  · rw [same, size, hidden, rootDir]
    exact enough
  · omega
  · rw [same, fats]
    exact start
  · omega
  · omega
  · intro number least last pos
    have covered : (number - 1) * pbr.sectorsPerCluster ≤ info.dataSectors :=
      Nat.le_trans (Nat.mul_le_mul_right _ (by omega)) (Nat.div_mul_le_self info.dataSectors _)
    have place : pos / 512 % pbr.sectorsPerCluster < pbr.sectorsPerCluster :=
      Nat.mod_lt _ positive
    have whole : (number - 1) * pbr.sectorsPerCluster =
        (number - 2) * pbr.sectorsPerCluster + pbr.sectorsPerCluster := by
      rw [← Nat.succ_mul]
      congr 1
      omega
    rw [sectorOf_eq pos least (by rw [same]; exact positive) (by rw [same]; omega), same]
    omega

theorem derive_fields {reserved : Nat} (fields : pbr.Fields) (fat : pbr.sectorsPerFat ≠ 0)
    (range : (FSInfo.derive pbr).InRange) (layout : (FSInfo.derive pbr).Fat16Layout reserved) :
    pbr.hiddenSectors = reserved ∧ pbr.fatNum = pbr.sectorsPerFat := by
  refine ⟨layout.fat, ?_⟩
  obtain ⟨data, system, _⟩ := range
  have total := layout.total
  have positive : 0 < pbr.sectorsPerFat := Nat.pos_of_ne_zero fat
  apply Nat.eq_of_mul_eq_mul_right positive
  have bound := derive_totalSectors_lt fields
  simp only [FSInfo.derive] at data system total bound
  simp only [sub32, u32] at total
  generalize (if pbr.totalSectors = 0 then pbr.largeTotalSectors else pbr.totalSectors) = sectors
    at system total bound
  generalize (pbr.rootDirectoryEntryNum * 32 + (pbr.bytesPerSector - 1)) / pbr.bytesPerSector =
    root at data system total
  generalize pbr.fatNum * pbr.sectorsPerFat = copies at data total ⊢
  generalize pbr.sectorsPerFat * pbr.sectorsPerFat = square at system total ⊢
  omega

/-- A volume is mounted right exactly if an assertion is for its boot record, or
`hidden_sectors` and `sectors_per_fat` are what they are mistaken for and a cluster has
sectors. -/
theorem mounts_right_iff (disk : Disk) :
    MountsRight disk ↔
      (PartitionBootRecord.load (disk 0)).Sound (reservedSectors (disk 0)) := by
  have fields := load_fields (disk 0)
  have rejects := mount_rejects disk
  have counted := derive_totalClusters fields
  simp only [MountsRight, PartitionBootRecord.Sound]
  constructor
  · rintro (rejected | ⟨info, mounted, range, layout⟩)
    · rcases rejects.mp rejected with sector | signature | fat | ⟨cluster, count⟩
      · exact Or.inl sector
      · exact Or.inr (Or.inl signature)
      · exact Or.inr (Or.inr (Or.inl fat))
      · exact Or.inr (Or.inr (Or.inr ⟨cluster, Or.inr count⟩))
    · obtain ⟨rfl, positive⟩ := mount_eq mounted
      by_cases fat : (PartitionBootRecord.load (disk 0)).sectorsPerFat = 0
      · exact Or.inr (Or.inr (Or.inl fat))
      · exact Or.inr (Or.inr (Or.inr ⟨Nat.ne_of_gt positive,
          Or.inl (derive_fields fields fat range layout)⟩))
  · rintro (sector | signature | fat | ⟨cluster, ⟨hidden, fats⟩ | count⟩)
    · exact Or.inl (rejects.mpr (Or.inl sector))
    · exact Or.inl (rejects.mpr (Or.inr (Or.inl signature)))
    · exact Or.inl (rejects.mpr (Or.inr (Or.inr (Or.inl fat))))
    · by_cases rejected : mount disk = .error .assertion
      · exact Or.inl rejected
      · have passed := fun reason => rejected (rejects.mpr reason)
        have sector : (PartitionBootRecord.load (disk 0)).bytesPerSector = 512 := by
          by_contra other
          exact passed (Or.inl other)
        have most : (FSInfo.derive (PartitionBootRecord.load (disk 0))).totalClusters < 65525 := by
          by_contra many
          have count := counted sector
          exact passed (Or.inr (Or.inr (Or.inr ⟨cluster, Or.inr (by omega)⟩)))
        refine Or.inr ⟨_, mount_accepts cluster rejected, ?_⟩
        exact derive_right fields sector (load16_lt _ _) (Nat.pos_of_ne_zero cluster) most hidden fats
    · exact Or.inl (rejects.mpr (Or.inr (Or.inr (Or.inr ⟨cluster, count⟩))))

/-- The boot sector of a partition of 32768 sectors at sector 2048, with 4 reserved sectors
and two FATs of 32. -/
def partitionDisk : Disk := fun sector offset =>
  if sector = 0 then
    match offset with
    | 12 => 2
    | 13 => 4
    | 14 => 4
    | 16 => 2
    | 18 => 2
    | 20 => 0x80
    | 22 => 32
    | 29 => 8
    | 38 => 0x29
    | _ => 0
  else 0

/-- The FAT is looked for at the number of the hidden sectors. -/
theorem partition_mounted_wrong :
    ∃ info, mount partitionDisk = .ok info ∧ info.firstFatSector = 2048 ∧
      reservedSectors (partitionDisk 0) = 4 ∧ ¬ MountsRight partitionDisk := by
  refine ⟨_, rfl, by decide, by decide, ?_⟩
  rintro (rejected | ⟨info, mounted, _, layout⟩)
  · have accepted : mount partitionDisk =
        .ok (FSInfo.derive (PartitionBootRecord.load (partitionDisk 0))) := rfl
    rw [accepted] at rejected
    cases rejected
  · obtain ⟨rfl, _⟩ := mount_eq mounted
    have same := layout.fat
    revert same
    decide

end SysImpl.Fat
