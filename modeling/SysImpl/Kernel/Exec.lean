import SysImpl.Kernel.Process

/-! Loading a program: `parseElfSections`, `execv` and `Process::exec`.

The file buffer is read as memory from offset 0. The loader checks neither the offsets
nor the counts of the file against its size, so a read past the end of the buffer gives
whatever memory holds there, and that may change between the two passes over the headers
and the copies. `Surroundings` supplies these bytes. -/

namespace SysImpl.Kernel

open Bytes

/-- What a call of `execv` finds around the buffers it allocates. -/
structure Surroundings where
  /-- The byte at an offset past the end of the file buffer, when the headers are
  counted (0), when they are stored (1) and when section `i` is copied (`2 + i`). -/
  beyond : Nat → Nat → UInt8
  /-- The `base`, `limit` and offset left in an entry of the section table that is never stored. -/
  stale : Nat → Nat × Nat × Nat
  /-- Whether the kernel heap has room for an allocation of the call. -/
  room : Nat → Bool

structure Section where
  base : Nat
  limit : Nat
  /-- The offset of `buffer` in the file buffer. -/
  offset : Nat
  deriving DecidableEq, Repr

/-- The file buffer as one pass sees it. -/
def fileBytes (content : List UInt8) (around : Surroundings) (pass : Nat) : Mem := fun x =>
  content[u32 x]?.getD (around.beyond pass (u32 x))

def elfIdent (b : Mem) : Bool :=
  b 0 == 0x7f && b 1 == 0x45 && b 2 == 0x4c && b 3 == 0x46 && b 4 == 1 && b 5 == 1

def elfEntry (b : Mem) : Nat := load32 b 24
def elfPhoff (b : Mem) : Nat := load32 b 28

def phdr (b : Mem) (i : Nat) : Nat := elfPhoff b + 32 * i

def loadable (b : Mem) (i : Nat) : Bool := load32 b (phdr b i) == 1

def headerSection (b : Mem) (i : Nat) : Section where
  base := load32 b (phdr b i + 12)
  limit := load32 b (phdr b i + 20)
  offset := load32 b (phdr b i + 4)

/-- The headers the loop of `parseElfSections` goes over: it is bounded by `e_phoff`. -/
def loadableHeaders (b : Mem) : List Nat := (List.range (elfPhoff b)).filter (loadable b)

def countSections (b : Mem) : Nat := (loadableHeaders b).length

/-- The second call. A loadable header is stored at its own index in the header table,
which is checked against neither `n` nor the entries stored so far. -/
def storeSections (b : Mem) (n : Nat) (table : Nat → Section) : Option (Nat → Section) :=
  ((loadableHeaders b).take n).foldlM
    (fun table i => if i < n then some (Function.update table i (headerSection b i)) else none) table

def staleTable (around : Surroundings) : Nat → Section := fun i =>
  ⟨(around.stale i).1, (around.stale i).2.1, (around.stale i).2.2⟩

def imageSpace : Nat := 640 * 1024

def userSpaceStart : Nat := 0x2000000

/-- The check of `exec`, in 32-bit arithmetic. -/
def Section.fits (sec : Section) : Bool := u32 (sec.base + sec.limit) < imageSpace

def imageBase (pid : Pid) : Nat := userSpaceStart + imageSpace * pid.val

def Section.relocate (pid : Pid) (sec : Section) : Nat := u32 (sec.base + imageBase pid)

/-- `bitmap & (1 << i)`: the processor takes the shift count modulo 32, and bit 31 of an
`int` extends into the upper half of the bitmap. -/
def keepsObject (keepLow keepHigh : Nat) (pos : Fd) : Bool :=
  let bitmap := keepHigh * 2 ^ 32 + keepLow
  if pos.val % 32 = 31 then decide (bitmap / 2 ^ 31 ≠ 0) else bitmap.testBit (pos.val % 32)

def selector (seg rpl : Nat) : Nat := seg * 8 + rpl

def startTss (place : Placement) (pid : Pid) (entry : Nat) : Tss where
  esp0 := place.kernelStackTop pid
  ss0 := selector 2 0
  eip := u32 (entry + imageBase pid)
  eflags := 2 ^ 9
  eax := 0
  ecx := 0
  edx := 0
  ebx := 0
  esp := u32 (place.userStackTop pid + 2 ^ 32 - 528 - 4)
  ebp := 0
  esi := 0
  edi := 0
  es := selector 4 3
  cs := selector 3 3
  ss := selector 4 3
  ds := selector 4 3
  fs := selector 4 3
  gs := selector 4 3
  iomapBase := 136

def maxArguments : Nat := 16

def infoBufferSize : Nat := 492

def bytes16 (value : Nat) : List UInt8 := [UInt8.ofNat value, UInt8.ofNat (value / 2 ^ 8)]

/-- The copies of the arguments: `strlcpy` cuts each at 19 characters. -/
def copyArguments (args : List (List UInt8)) : List (List UInt8) :=
  (args.take maxArguments).map (List.take 19)

def storeArguments (info : Nat) : Nat → Nat → List (List UInt8) → Mem → Mem
  | _, _, [], m => m
  | i, total, arg :: rest, m =>
      if total + arg.length + 1 ≤ infoBufferSize then
        let m := copyTo m (u32 (info + 36 + total)) (arg ++ [0])
        let m := copyTo m (u32 (info + 4 + 2 * i)) (bytes16 total)
        storeArguments info (i + 1) (total + arg.length + 1) rest m
      else m

/-- The stack a program starts with: the runtime info block and an alignment word. -/
def storeStack (place : Placement) (pid : Pid) (args : List (List UInt8)) (m : Mem) : Mem :=
  let info := u32 (place.userStackTop pid + 2 ^ 32 - 528)
  let m := copyTo m (u32 (info + 4)) (List.replicate 32 0xFF)
  let m := storeArguments info 0 0 (copyArguments args) m
  let m := copyTo m info (bytes32 info)
  copyTo m (u32 (info + 2 ^ 32 - 4)) (bytes32 0)

def sectionBytes (content : List UInt8) (around : Surroundings) (index : Nat) (sec : Section) :
    List UInt8 :=
  (List.range sec.limit).map fun i => fileBytes content around (2 + index) (sec.offset + i)

/-- The loop of `exec` over the sections: copy, then attach. It says how it ended: with
`addObject` throwing or, at the end of the list, with success. -/
def loadSections (content : List UInt8) (around : Surroundings) (pid : Pid) :
    Nat → List Section → Tables → Mem → Tables × Mem × Bool
  | _, [], t, m => (t, m, true)
  | index, sec :: rest, t, m =>
      let base := sec.relocate pid
      let m := copyTo m base (sectionBytes content around index sec)
      match t.addObject pid (.segment base sec.limit) with
      | none => (t, m, false)
      | some (_, t) => loadSections content around pid (index + 1) rest t m

structure ExecCall where
  args : List (List UInt8)
  keepLow : Nat
  keepHigh : Nat

/-- The effect of `Process::exec` once the sections are accepted, up to the end of the
loop over them, and whether that loop ended without an exception. -/
def install (place : Placement) (s : State) (pid : Pid) (call : ExecCall) (content : List UInt8)
    (around : Surroundings) (sections : List Section) (entry : Nat) : State × Bool :=
  let t := s.toTables.removeObjects pid fun pos => !keepsObject call.keepLow call.keepHigh pos
  let t := t.modify pid fun proc => { proc with usermodeState := startTss place pid entry }
  let m := storeStack place pid call.args s.mem
  let (t, m, done) := loadSections content around pid 0 sections t m
  ({ s with toTables := t, mem := m }, done)

def finishExec (s : State) (pid : Pid) : State :=
  match s.processList pid with
  | none => s
  | some proc =>
      restoreParent (s.note (.execed ⟨pid, proc.serial⟩)) proc.ppid

/-- `Process::exec`; `none` is `InvalidSectionException`. The copies of the arguments and
the segment objects are allocated on the kernel heap. -/
def exec (place : Placement) (s : State) (pid : Pid) (call : ExecCall) (content : List UInt8)
    (around : Surroundings) (sections : List Section) (entry : Nat) :
    Except Stop (Option State) :=
  if sections.all Section.fits then
    if around.room 2 then
      match install place s pid call content around sections entry with
      | (_, false) => .error .uncaughtException
      | (s, true) => .ok (some (finishExec s pid))
    else .error .outOfHeapMemory
  else .ok none

def execv (fs : FileSystem) (place : Placement) (s : State) (pid : Pid) (path : List UInt8)
    (call : ExecCall) (around : Surroundings) : Except Stop (State × Int) :=
  match fs.openFile path with
  | none => .ok (s, enoent)
  | some image =>
      if around.room 0 then
        let counted := fileBytes image.content around 0
        if elfIdent counted then
          let n := countSections counted
          if around.room 1 then
            let stored := fileBytes image.content around 1
            if elfIdent stored then
              match storeSections stored n (staleTable around) with
              | none => .error .indexOutOfRange
              | some table =>
                  match exec place s pid call image.content around
                      ((List.range n).map table) (elfEntry stored) with
                  | .error stop => .error stop
                  | .ok none => .ok (s, enoexec)
                  | .ok (some s) => .ok (s, 0)
            else .error .uncaughtException
          else .error .outOfHeapMemory
        else .ok (s, enoexec)
      else .error .outOfHeapMemory

end SysImpl.Kernel
