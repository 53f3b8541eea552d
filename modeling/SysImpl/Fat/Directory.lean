import SysImpl.Fat.Cursors

/-! Directories, and the file that a path names.

A directory is a file of entries of 32 bytes. Its constructor goes over them twice, to
count those that are listed and to copy them. -/

namespace SysImpl.Fat

open Bytes

variable {disk : Disk}

inductive File (disk : Disk) where
  | sequential (file : SequentialFile disk)
  | cluster (file : ClusterFile disk)

namespace File

def cursor : File disk → Nat
  | .sequential file => file.cursor
  | .cluster file => file.cursor

def directory : File disk → Bool
  | .sequential _ => true
  | .cluster file => file.stat.directory

def read (size : Nat) : File disk → Except FileFault (List UInt8 × File disk)
  | .sequential file => .ok ((file.read size).1, .sequential (file.read size).2)
  | .cluster file => (file.read size).map fun got => (got.1, .cluster got.2)

def seek (pos whence : Int) : File disk → File disk
  | .sequential file => .sequential (file.seek pos whence).2
  | .cluster file => .cluster (file.seek pos whence).2

end File

def attrHidden : UInt8 := 0x02
def attrVolumeId : UInt8 := 0x08
def attrDirectory : UInt8 := 0x10

def entryByte (entry : List UInt8) (offset : Nat) : UInt8 := entry.getD offset 0

/-- An entry that is neither a volume label, nor hidden, nor deleted. -/
def listed (entry : List UInt8) : Bool :=
  entryByte entry 11 &&& attrVolumeId == 0 && entryByte entry 11 &&& attrHidden == 0 &&
    entryByte entry 0 != 0xE5

def nameField (field : List UInt8) : List UInt8 := field.takeWhile fun c => c != 0 && c != 0x20

def entryName (entry : List UInt8) : List UInt8 :=
  let extension := nameField ((entry.drop 8).take 3)
  nameField (entry.take 8) ++ if extension = [] then [] else 0x2E :: extension

def entryInfo (entry : List UInt8) : FileInfoEx where
  filename := entryName entry
  directory := entryByte entry 11 &&& attrDirectory != 0
  size := load32 (entryByte entry) 28
  cluster := load16 (entryByte entry) 20 * 2 ^ 16 + load16 (entryByte entry) 26

/-- The loop over the entries, which both passes of `init` have: those up to a short read or
to one that begins with a zero. -/
def readEntries : Nat → File disk → Except FileFault (List (List UInt8) × File disk)
  | 0, _ => .error .running
  | fuel + 1, file =>
      match file.read 32 with
      | .error fault => .error fault
      | .ok (entry, file) =>
          if entry.length = 32 ∧ entryByte entry 0 ≠ 0 then
            (readEntries fuel file).map fun later => (entry :: later.1, later.2)
          else .ok ([], file)

/-- The copies of the second pass, each at the next index of a table of `fileNum` entries. -/
def storeInfos (fileNum : Nat) : Nat → List (List UInt8) → Except FileFault (List FileInfoEx)
  | _, [] => .ok []
  | count, entry :: rest =>
      if listed entry then
        if count < fileNum then
          (storeInfos fileNum (count + 1) rest).map fun infos => entryInfo entry :: infos
        else .error .assertion
      else storeInfos fileNum count rest

/-- A directory with the file it was read from. -/
structure OpenDirectory (disk : Disk) extends Directory where
  file : File disk

namespace OpenDirectory

def init (fuel : Nat) (file : File disk) : Except FileFault (OpenDirectory disk) :=
  match readEntries fuel (file.seek 0 0) with
  | .error fault => .error fault
  | .ok (counted, file) =>
      match readEntries fuel (file.seek 0 0) with
      | .error fault => .error fault
      | .ok (entries, file) =>
          match storeInfos (counted.countP listed) 0 entries with
          | .error fault => .error fault
          | .ok infos => .ok { infos := infos, file := file }

def fromFile (fuel : Nat) (file : File disk) : Except FileFault (Option (OpenDirectory disk)) :=
  if file.directory then (init fuel file).map some else .ok none

end OpenDirectory

def Fat16FileSystem.getRootDirectory (fs : Fat16FileSystem disk) (fuel : Nat) (garbage : Mem) :
    Except FileFault (OpenDirectory disk) :=
  OpenDirectory.init fuel (.sequential (SequentialFile.create disk
    (sub32 fs.info.firstDataSector fs.info.rootDirSectors) fs.info.firstDataSector garbage))

/-- What stops `Fat16FileSystem::openFile`: a fault of a file, or a name that does not fit
in the buffer it is copied to. -/
inductive PathFault where
  | file (fault : FileFault)
  | nameOverrun
  deriving DecidableEq, Repr

def maxFilenameLength : Nat := 15

def slash : UInt8 := 0x2F

def skipSlashes : List UInt8 → List UInt8
  | [] => []
  | c :: rest => if c = slash then skipSlashes rest else c :: rest

def scanName : List UInt8 → List UInt8 × List UInt8
  | [] => ([], [])
  | c :: rest =>
      if c = slash then ([], c :: rest) else (c :: (scanName rest).1, (scanName rest).2)

/-- The loop of `openFile` over the names of a path. It goes over the path once, so `rounds`
above its length is enough. -/
def openNames (fuel : Nat) (garbage : Mem) : Nat → Fat16FileSystem disk → OpenDirectory disk →
    File disk → List UInt8 → Except PathFault (Option (File disk) × Fat16FileSystem disk)
  | 0, _, _, _, _ => .error (.file .running)
  | rounds + 1, fs, scwd, file, cursor =>
      if cursor = [] then .ok (some file, fs)
      else
        let (filename, cursor) := scanName cursor
        if filename.length ≤ maxFilenameLength then
          match scwd.toDirectory.openFile fuel fs filename garbage with
          | .error fault => .error (.file fault)
          | .ok (none, fs) => .ok (none, fs)
          | .ok (some file, fs) =>
              if cursor.head? = some slash then
                match OpenDirectory.fromFile fuel (.cluster file) with
                | .error fault => .error (.file fault)
                | .ok none => .ok (none, fs)
                | .ok (some scwd) =>
                    openNames fuel garbage rounds fs scwd scwd.file (skipSlashes cursor)
              else .ok (some (.cluster file), fs)
        else .error .nameOverrun

def Fat16FileSystem.openFile (fs : Fat16FileSystem disk) (fuel : Nat) (path : List UInt8)
    (garbage : Mem) : Except PathFault (Option (File disk) × Fat16FileSystem disk) :=
  match fs.getRootDirectory fuel garbage with
  | .error fault => .error (.file fault)
  | .ok scwd => openNames fuel garbage (path.length + 1) fs scwd scwd.file (skipSlashes path)

end SysImpl.Fat
