import Mathlib.Tactic.SplitIfs
import SysImpl.Lib.Bytes

/-! A disk, the boot record of a FAT16 volume, and the file that reads its FAT.

Numbers the source keeps in a `uint32_t` or `uintptr_t` are taken modulo `2 ^ 32`. -/

namespace SysImpl.Fat

open Bytes

/-- `Disk::readSector`: every sector has its 512 bytes. -/
abbrev Disk := Nat → Mem

/-- The fields of `PartitionBootRecord` and `Fat16ExtBS` that mounting looks at. -/
structure PartitionBootRecord where
  bytesPerSector : Nat
  sectorsPerCluster : Nat
  fatNum : Nat
  rootDirectoryEntryNum : Nat
  totalSectors : Nat
  sectorsPerFat : Nat
  hiddenSectors : Nat
  largeTotalSectors : Nat
  bootSignature : Nat
  deriving DecidableEq, Repr

def PartitionBootRecord.load (sector : Mem) : PartitionBootRecord where
  bytesPerSector := load16 sector 11
  sectorsPerCluster := (sector 13).toNat
  fatNum := (sector 16).toNat
  rootDirectoryEntryNum := load16 sector 17
  totalSectors := load16 sector 19
  sectorsPerFat := load16 sector 22
  hiddenSectors := load32 sector 28
  largeTotalSectors := load32 sector 32
  bootSignature := (sector 38).toNat

structure FSInfo where
  pbr : PartitionBootRecord
  totalSectors : Nat
  fatSize : Nat
  rootDirSectors : Nat
  firstDataSector : Nat
  firstFatSector : Nat
  dataSectors : Nat
  totalClusters : Nat
  deriving DecidableEq, Repr

inductive MountFault where
  | assertion
  | divideError
  deriving DecidableEq, Repr

def sub32 (a b : Nat) : Nat := u32 (a + 2 ^ 32 - u32 b)

def FSInfo.derive (pbr : PartitionBootRecord) : FSInfo :=
  let totalSectors := if pbr.totalSectors = 0 then pbr.largeTotalSectors else pbr.totalSectors
  let fatSize := pbr.sectorsPerFat
  let rootDirSectors :=
    (pbr.rootDirectoryEntryNum * 32 + (pbr.bytesPerSector - 1)) / pbr.bytesPerSector
  let dataSectors := sub32 totalSectors
    (u32 (pbr.hiddenSectors + pbr.sectorsPerFat * fatSize + rootDirSectors))
  { pbr := pbr
    totalSectors := totalSectors
    fatSize := fatSize
    rootDirSectors := rootDirSectors
    firstDataSector := u32 (pbr.hiddenSectors + pbr.fatNum * fatSize + rootDirSectors)
    firstFatSector := pbr.hiddenSectors
    dataSectors := dataSectors
    totalClusters := dataSectors / pbr.sectorsPerCluster }

/-- The constructor of `Fat16FileSystem`, up to the file of the FAT. -/
def mount (disk : Disk) : Except MountFault FSInfo :=
  let pbr := PartitionBootRecord.load (disk 0)
  let info := FSInfo.derive pbr
  if pbr.bytesPerSector ≠ 512 then .error .assertion
  else if pbr.bootSignature ≠ 0x28 ∧ pbr.bootSignature ≠ 0x29 then .error .assertion
  else if pbr.sectorsPerFat = 0 then .error .assertion
  -- The clusters are counted by a division.
  else if pbr.sectorsPerCluster = 0 then .error .divideError
  else if info.totalClusters < 4085 ∨ 65525 ≤ info.totalClusters then .error .assertion
  else .ok info

theorem mount_eq {disk : Disk} {info : FSInfo} (mounted : mount disk = .ok info) :
    info = FSInfo.derive (PartitionBootRecord.load (disk 0)) ∧ 0 < info.pbr.sectorsPerCluster := by
  simp only [mount] at mounted
  split_ifs at mounted with sector signature fat clusters count
  injection mounted with same
  rw [← same]
  exact ⟨rfl, Nat.pos_of_ne_zero clusters⟩

theorem mount_ok {disk : Disk} {info : FSInfo} (mounted : mount disk = .ok info) :
    0 < info.pbr.sectorsPerCluster ∧ info.pbr.sectorsPerCluster < 2 ^ 8 ∧
      info.fatSize < 2 ^ 16 ∧ info.firstFatSector < 2 ^ 32 := by
  obtain ⟨rfl, positive⟩ := mount_eq mounted
  exact ⟨positive, UInt8.toNat_lt _, load16_lt _ _, load32_lt _ _⟩

theorem mount_root {disk : Disk} {info : FSInfo} (mounted : mount disk = .ok info) :
    info.rootDirSectors ≤ 2 ^ 12 ∧ info.firstDataSector < 2 ^ 32 := by
  have entries := load16_lt (disk 0) 17
  simp only [mount] at mounted
  split_ifs at mounted with sector signature fat clusters count
  injection mounted with same
  simp only [ne_eq, not_not] at sector
  rw [← same]
  refine ⟨?_, Nat.mod_lt _ (by decide)⟩
  simp only [FSInfo.derive, sector]
  simp only [PartitionBootRecord.load]
  omega

def keep32 (x : Int) : Nat := (x % 2 ^ 32).toNat

/-- The switch of `seek`, which both kinds of files have: what it returns, and the cursor
after it. `SEEK_SET` is 0, `SEEK_CUR` 1 and `SEEK_END` 2. -/
def seekCursor (cursor size : Nat) (pos whence : Int) : Int × Nat :=
  if whence = 1 then (0, keep32 (cursor + pos))
  else if whence = 0 then (0, keep32 pos)
  else if whence = 2 then (0, keep32 (size + pos))
  else (-1, cursor)

/-- `SequentialFile`. The buffer holds the sector at `bufferPos`, `none` before the first
read. -/
structure SequentialFile (disk : Disk) where
  cursor : Nat
  begin : Nat
  filesize : Nat
  bufferPos : Option Nat
  buffer : Mem
  cached : ∀ pos, bufferPos = some pos → buffer = disk (u32 (pos + begin))

variable {disk : Disk}

namespace SequentialFile

/-- `File::createSequentialFile`; a new buffer may hold anything. -/
def create (disk : Disk) (first last : Nat) (garbage : Mem) : SequentialFile disk where
  cursor := 0
  begin := u32 first
  filesize := u32 (sub32 last first * 512)
  bufferPos := none
  buffer := garbage
  cached := by
    intro pos taken
    cases taken

def ensureCursorInBuffer (file : SequentialFile disk) : SequentialFile disk :=
  if some (file.cursor / 512) = file.bufferPos then file
  else
    { file with
      bufferPos := some (file.cursor / 512)
      buffer := disk (u32 (file.cursor / 512 + file.begin))
      cached := by
        intro pos taken
        rw [Option.some.inj taken] }

def getc (file : SequentialFile disk) : Option UInt8 × SequentialFile disk :=
  if file.filesize ≤ file.cursor then (none, file)
  else
    let file := file.ensureCursorInBuffer
    (some (file.buffer (file.cursor % 512)), { file with cursor := u32 (file.cursor + 1) })

def read : Nat → SequentialFile disk → List UInt8 × SequentialFile disk
  | 0, file => ([], file)
  | size + 1, file =>
      match file.getc with
      | (none, file) => ([], file)
      | (some ch, file) =>
          let (bytes, file) := read size file
          (ch :: bytes, file)

def seekSet (file : SequentialFile disk) (pos : Nat) : SequentialFile disk :=
  { file with cursor := u32 pos }

def seek (file : SequentialFile disk) (pos whence : Int) : Int × SequentialFile disk :=
  let (ret, cursor) := seekCursor file.cursor file.filesize pos whence
  (ret, { file with cursor := cursor })

def byteAt (file : SequentialFile disk) (pos : Nat) : UInt8 :=
  disk (u32 (pos / 512 + file.begin)) (pos % 512)

def SamePlace (file other : SequentialFile disk) : Prop :=
  file.begin = other.begin ∧ file.filesize = other.filesize

variable {file : SequentialFile disk}

theorem ensureCursorInBuffer_spec (file : SequentialFile disk) :
    file.ensureCursorInBuffer.buffer = disk (u32 (file.cursor / 512 + file.begin)) ∧
      file.ensureCursorInBuffer.cursor = file.cursor ∧
      file.ensureCursorInBuffer.SamePlace file := by
  simp only [ensureCursorInBuffer]
  by_cases there : some (file.cursor / 512) = file.bufferPos
  · rw [if_pos there]
    exact ⟨file.cached _ there.symm, rfl, rfl, rfl⟩
  · rw [if_neg there]
    exact ⟨rfl, rfl, rfl, rfl⟩

theorem getc_inside (file : SequentialFile disk) (inside : file.cursor < file.filesize) :
    file.getc.1 = some (file.byteAt file.cursor) ∧
      file.getc.2.cursor = u32 (file.cursor + 1) ∧ file.getc.2.SamePlace file := by
  obtain ⟨buffer, cursor, place⟩ := ensureCursorInBuffer_spec file
  simp only [getc, if_neg (Nat.not_le.mpr inside), buffer, cursor]
  exact ⟨rfl, trivial, place⟩

theorem getc_outside (outside : file.filesize ≤ file.cursor) : file.getc = (none, file) :=
  if_pos outside

theorem SamePlace.trans {first second third : SequentialFile disk} (one : first.SamePlace second)
    (two : second.SamePlace third) : first.SamePlace third :=
  ⟨one.1.trans two.1, one.2.trans two.2⟩

theorem getc_place (file : SequentialFile disk) : file.getc.2.SamePlace file := by
  by_cases inside : file.cursor < file.filesize
  · exact (getc_inside file inside).2.2
  · rw [getc_outside (Nat.not_lt.mp inside)]
    exact ⟨rfl, rfl⟩

theorem read_place (size : Nat) (file : SequentialFile disk) :
    (read size file).2.SamePlace file := by
  induction size generalizing file with
  | zero => exact ⟨rfl, rfl⟩
  | succ size ih =>
      have place := getc_place file
      simp only [read]
      cases got : file.getc with
      | mk ch next =>
          rw [got] at place
          cases ch with
          | none => exact place
          | some ch => exact (ih next).trans place

theorem read_inside (inside : file.cursor < file.filesize) (size : Nat) :
    read (size + 1) file =
      (file.byteAt file.cursor :: (read size file.getc.2).1, (read size file.getc.2).2) := by
  have byte := (getc_inside file inside).1
  simp only [read]
  cases got : file.getc with
  | mk ch after =>
      rw [got] at byte
      simp only at byte
      rw [byte]

theorem read_outside (outside : file.filesize ≤ file.cursor) (size : Nat) :
    read size file = ([], file) := by
  cases size with
  | zero => rfl
  | succ size => simp only [read, getc_outside outside]

theorem read_two (inside : file.cursor + 1 < file.filesize) (small : file.cursor + 1 < 2 ^ 32) :
    (read 2 file).1 = [file.byteAt file.cursor, file.byteAt (file.cursor + 1)] := by
  obtain ⟨_, cursor, place⟩ := getc_inside file (by omega)
  have next : file.getc.2.cursor = file.cursor + 1 := by
    rw [cursor]
    exact Nat.mod_eq_of_lt small
  have same : file.getc.2.byteAt (file.cursor + 1) = file.byteAt (file.cursor + 1) := by
    simp only [byteAt, place.1]
  rw [read_inside (by omega), read_inside (by rw [next, place.2]; exact inside), next, same]
  rfl

end SequentialFile

end SysImpl.Fat
