import SysImpl.Lib.Walks
import SysImpl.Fat.Volume

/-! Files that are chains of clusters, and the directory that opens them by name. -/

namespace SysImpl.Fat

open Bytes Walks

variable {disk : Disk}

/-- A mounted volume. Every open file shares the file of the FAT, so its cursor and buffer
are what the last use left. -/
structure Fat16FileSystem (disk : Disk) where
  info : FSInfo
  fatFile : SequentialFile disk
  mounted : mount disk = .ok info
  start : fatFile.begin = info.firstFatSector
  length : fatFile.filesize = info.fatSize * 512

namespace Fat16FileSystem

def create {info : FSInfo} (mounted : mount disk = .ok info) (garbage : Mem) :
    Fat16FileSystem disk where
  info := info
  fatFile :=
    SequentialFile.create disk info.firstFatSector (info.firstFatSector + info.fatSize) garbage
  mounted := mounted
  start := Nat.mod_eq_of_lt (mount_ok mounted).2.2.2
  length := by
    obtain ⟨_, _, fat, first⟩ := mount_ok mounted
    simp only [SequentialFile.create, sub32, u32]
    omega

/-- What reading some of the two bytes of a `uint16_t` leaves in it. -/
def overwrite16 (value : Nat) : List UInt8 → Nat
  | [] => value
  | [low] => value / 2 ^ 8 * 2 ^ 8 + low.toNat
  | low :: high :: _ => low.toNat + 2 ^ 8 * high.toNat

def readLink (fs : Fat16FileSystem disk) (nowCluster : Nat) : Nat × Fat16FileSystem disk :=
  let got := (fs.fatFile.seekSet (nowCluster * 2)).read 2
  (overwrite16 nowCluster got.1,
    { fs with
      fatFile := got.2
      start := (SequentialFile.read_place 2 _).1.trans fs.start
      length := (SequentialFile.read_place 2 _).2.trans fs.length })

end Fat16FileSystem

def clusterEnd : Nat := 0xFFF8

structure FileStat where
  size : Nat
  directory : Bool
  deriving DecidableEq, Repr

/-- Why a file cannot be opened or read: a loop still runs, an assertion fails, or the table
of clusters is read where it was not written or where it ends. -/
inductive FileFault where
  | running
  | assertion
  | unsetCluster
  | outsideTable
  deriving DecidableEq, Repr

/-- `ClusterFile`. The table of clusters is what has been written of it. -/
structure ClusterFile (disk : Disk) where
  info : FSInfo
  cursor : Nat
  clusterNum : Nat
  stat : FileStat
  clusters : List Nat
  bufferPos : Option Nat
  buffer : Mem
  cached : ∀ pos, bufferPos = some pos → buffer = disk pos

def FSInfo.clusterBytes (info : FSInfo) : Nat := info.pbr.sectorsPerCluster * 512

namespace ClusterFile

/-- The loop that counts the clusters. It changes only what is listed, so it ends within
`2 ^ 16` rounds or never; `count` does not reach the range of an `int`. -/
def countLoop (directory : Bool) : Nat → Nat → Nat → Nat → Fat16FileSystem disk →
    Except FileFault (Nat × Nat × Fat16FileSystem disk)
  | 0, _, _, _, _ => .error .running
  | fuel + 1, nowCluster, count, size, fs =>
      if nowCluster < clusterEnd then
        let size := if directory then u32 (size + fs.info.clusterBytes) else size
        let (nowCluster, fs) := fs.readLink nowCluster
        countLoop directory fuel nowCluster (count + 1) size fs
      else .ok (count, size, fs)

def fillLoop (clusterNum size : Nat) : Nat → Nat → List Nat → Fat16FileSystem disk →
    Except FileFault (List Nat × Fat16FileSystem disk)
  | 0, _, _, _ => .error .running
  | fuel + 1, nowCluster, clusters, fs =>
      if nowCluster < clusterEnd ∧ clusters.length * fs.info.clusterBytes < size then
        if clusters.length < clusterNum then
          let (next, fs) := fs.readLink nowCluster
          fillLoop clusterNum size fuel next (clusters ++ [nowCluster]) fs
        else .error .assertion
      else .ok (clusters, fs)

def create (fuel : Nat) (fs : Fat16FileSystem disk) (startClusterPos : Nat) (stat : FileStat)
    (garbage : Mem) : Except FileFault (ClusterFile disk × Fat16FileSystem disk) :=
  let nowCluster := startClusterPos % 2 ^ 16
  match countLoop stat.directory fuel nowCluster 0 (if stat.directory then 0 else stat.size) fs with
  | .error fault => .error fault
  | .ok (count, size, fs) =>
      let size := if size < u32 (count * fs.info.clusterBytes) then
        u32 (count * fs.info.clusterBytes) else size
      match fillLoop count size fuel nowCluster [] fs with
      | .error fault => .error fault
      | .ok (clusters, fs) =>
          .ok ({
            info := fs.info
            cursor := 0
            clusterNum := count
            stat := { stat with size := size }
            clusters := clusters
            bufferPos := none
            buffer := garbage
            cached := by
              intro pos taken
              cases taken }, fs)

/-- The sector that a position lies in, if its cluster is `cluster`. -/
def sectorOf (info : FSInfo) (cluster pos : Nat) : Nat :=
  u32 (pos / 512 % info.pbr.sectorsPerCluster +
    (sub32 cluster 2 * info.pbr.sectorsPerCluster + info.firstDataSector))

def ensureCursorInBuffer (file : ClusterFile disk) : Except FileFault (ClusterFile disk) :=
  let ind := file.cursor / 512 / file.info.pbr.sectorsPerCluster
  match file.clusters[ind]? with
  | none => .error (if ind < file.clusterNum then .unsetCluster else .outsideTable)
  | some cluster =>
      let sector := sectorOf file.info cluster file.cursor
      if some sector = file.bufferPos then .ok file
      else .ok { file with
        bufferPos := some sector
        buffer := disk sector
        cached := by
          intro pos taken
          rw [Option.some.inj taken] }

def getc (file : ClusterFile disk) : Except FileFault (Option UInt8 × ClusterFile disk) :=
  if file.stat.size ≤ file.cursor then .ok (none, file)
  else
    match file.ensureCursorInBuffer with
    | .error fault => .error fault
    | .ok file =>
        .ok (some (file.buffer (file.cursor % 512)), { file with cursor := u32 (file.cursor + 1) })

def read : Nat → ClusterFile disk → Except FileFault (List UInt8 × ClusterFile disk)
  | 0, file => .ok ([], file)
  | size + 1, file =>
      match file.getc with
      | .error fault => .error fault
      | .ok (none, file) => .ok ([], file)
      | .ok (some ch, file) =>
          match read size file with
          | .error fault => .error fault
          | .ok (bytes, file) => .ok (ch :: bytes, file)

def seek (file : ClusterFile disk) (pos whence : Int) : Int × ClusterFile disk :=
  let (ret, cursor) := seekCursor file.cursor file.stat.size pos whence
  (ret, { file with cursor := cursor })

end ClusterFile

def tolower (c : UInt8) : UInt8 := if 65 ≤ c ∧ c ≤ 90 then c - 65 + 97 else c

def strcasecmp : List UInt8 → List UInt8 → Int
  | [], [] => 0
  | [], c :: _ => -(tolower c).toNat
  | c :: _, [] => (tolower c).toNat
  | a :: s, b :: t =>
      if tolower a = tolower b then strcasecmp s t else (tolower a).toNat - (tolower b).toNat

structure FileInfoEx where
  filename : List UInt8
  directory : Bool
  size : Nat
  cluster : Nat
  deriving DecidableEq, Repr

structure Directory where
  infos : List FileInfoEx

namespace Directory

def lookup (dir : Directory) (name : List UInt8) : Option FileInfoEx :=
  dir.infos.find? fun info => strcasecmp info.filename name = 0

def openFile (fuel : Nat) (fs : Fat16FileSystem disk) (dir : Directory) (name : List UInt8)
    (garbage : Mem) : Except FileFault (Option (ClusterFile disk) × Fat16FileSystem disk) :=
  match dir.lookup name with
  | none => .ok (none, fs)
  | some info =>
      match ClusterFile.create fuel fs info.cluster ⟨info.size, info.directory⟩ garbage with
      | .error fault => .error fault
      | .ok (file, fs) => .ok (some file, fs)

end Directory

end SysImpl.Fat
