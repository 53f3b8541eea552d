import SysImpl.Lib.Bytes
import Mathlib.Data.Fin.Basic

/-! The state of the kernel.

`Tables` holds what the process code and the blocking devices share: the process list,
the registry of blocking devices and the arrays of `ProcessWait`. `State` adds the
current process, the device buffers, the hardware and memory. A `Process *` is a slot
together with the serial number of the object that was put there, so that a pointer to
a deleted process is not a pointer to the next owner of its slot. The log is a history
variable: it records what happened and nothing reads it.

Two things are taken for granted. The kernel checks no address that a program passes to it, and
its own objects (the process list, the saved registers, the queues of requests) are in the same
address space; here they are apart from `mem`, and no store through such an address reaches them.
And an index past the end of an array is undefined behaviour of the source: a call number or a
descriptor that is too large stops the model, and for a slot number written to `:WAITPID` the trap
says what is found there. -/

namespace SysImpl.Kernel

open Bytes

/-- A slot of `process_list`, which has `MAX_PROCESS_NUM` of them. -/
abbrev Pid := Fin 32

abbrev Slot := Fin 64

abbrev Fd := Fin 128

theorem Pid.neZero : NeZero 32 := ⟨by decide⟩
theorem Slot.neZero : NeZero 64 := ⟨by decide⟩
theorem Fd.neZero : NeZero 128 := ⟨by decide⟩

-- These make the literals of the three types the same term in every module.
attribute [instance] Pid.neZero Slot.neZero Fd.neZero

structure Tss where
  esp0 : Nat
  ss0 : Nat
  eip : Nat
  eflags : Nat
  eax : Nat
  ecx : Nat
  edx : Nat
  ebx : Nat
  esp : Nat
  ebp : Nat
  esi : Nat
  edi : Nat
  es : Nat
  cs : Nat
  ss : Nat
  ds : Nat
  fs : Nat
  gs : Nat
  iomapBase : Nat
  deriving DecidableEq, Repr, Inhabited

inductive ProcessState where
  | runnable
  | sleeping
  deriving DecidableEq, Repr

inductive ScheType where
  | normal
  | idle
  deriving DecidableEq, Repr

/-- What an object table can hold: a blocking device, an open file or a segment. -/
inductive Object where
  | device (slot : Slot)
  | file (id : Nat)
  | segment (base size : Nat)
  deriving DecidableEq, Repr

structure ProcPtr where
  pid : Pid
  serial : Nat
  deriving DecidableEq, Repr

structure Process where
  serial : Nat
  ppid : Option Pid
  processState : ProcessState
  processScheType : ScheType
  stackTopBackup : Nat
  stackBackup : Option (List UInt8)
  usermodeState : Tss
  objects : Fd → Option Object

/-- The `InputDevice` behind a `BlockInputDeviceWrapper`. -/
inductive Input where
  | serialIo
  | vgaText
  | processWait
  | sleepDevice
  | semaphore (cnt : Int)
  deriving DecidableEq, Repr

structure PendingRead where
  proc : ProcPtr
  buffer : Nat
  size : Nat
  deriving DecidableEq, Repr

/-- A `BlockInputDeviceWrapper`. Its array is kept up to `pending_request_end`. -/
structure Device where
  serial : Nat
  pendingRequest : List PendingRead
  input : Input
  deriving DecidableEq, Repr

/-- `wait_req`: the awaited slot, with 0 for none, and the status to report. -/
structure WaitReq where
  pid : Nat
  status : Nat
  deriving DecidableEq, Repr

inductive Event where
  | entered (p : ProcPtr)
  | spawned (parent child : ProcPtr) (keepStack : Bool)
  | execed (p : ProcPtr)
  | exited (p : ProcPtr) (code : Nat)
  | created (device : Nat) (cnt : Int)
  | signalled (device : Nat)
  | issued (device : Nat) (p : ProcPtr) (size : Nat)
  | completed (device : Nat) (p : ProcPtr) (size : Nat) (ret : Int) (data : List UInt8)
  | awaited (p : ProcPtr) (target : Nat)
  deriving DecidableEq, Repr

structure Tables where
  processList : Pid → Option Process
  devices : Slot → Option Device
  reqs : Pid → WaitReq
  lastExitCode : Pid → Nat
  nextSerial : Nat
  /-- The newest event comes first. -/
  log : List Event

/-- An interrupt: a timer tick, a key that `kbd_raw_getc` decodes, or a serial byte. -/
inductive Irq where
  | tick
  | key (ch : UInt8)
  | byte (ch : UInt8)
  deriving DecidableEq, Repr

/-- `incoming` are the interrupts still to arrive, a batch before each time the kernel
looks at the tick count or at an input queue. -/
structure Hardware where
  pitTicks : Nat
  rescheCounter : Nat
  kbd : List UInt8
  uart : List UInt8
  incoming : List (List Irq)
  deriving DecidableEq, Repr

/-- The two rings of a `LineBufferedIOMixin`, each as the list of what it holds. -/
structure LineBuffer where
  eof : Bool
  buffer : List UInt8
  committed : List UInt8
  deriving DecidableEq, Repr

structure FileInfo where
  filename : List UInt8
  size : Nat
  directory : Bool

/-- A file of the volume: its bytes and, for a directory, its listing with the position
that reading it leaves the cursor at. -/
structure FileImage where
  content : List UInt8
  listing : Option (List FileInfo × Nat)

structure OpenFile where
  image : FileImage
  cursor : Nat

/-- The mounted volume, as `Fat16FileSystem::openFile` from the root presents it. -/
structure FileSystem where
  openFile : List UInt8 → Option FileImage

structure State extends Tables where
  currentProcess : Pid
  processSleepUntil : Pid → Nat
  com1 : LineBuffer
  con : LineBuffer
  hw : Hardware
  mem : Mem
  /-- `*tss_array[SEG_USER_TSS]`. -/
  userTss : Tss
  files : List OpenFile

/-- Why a system call does not return to user mode. -/
inductive Stop where
  | uncaughtException
  | assertionFailed
  | outOfHeapMemory
  | indexOutOfRange
  /-- A store past the end of an array of pending requests. -/
  | queueOverrun
  | danglingPointer
  /-- No process is runnable: control goes back to the task that started init. -/
  | initTask
  deriving DecidableEq, Repr

def eagain : Int := -11
def einval : Int := -22
def enoent : Int := -2
def enoexec : Int := -8
def enospc : Int := 28

theorem zero_ne_eagain : (0 : Int) ≠ eagain := by decide
theorem four_ne_eagain : (4 : Int) ≠ eagain := by decide
theorem einval_ne_eagain : einval ≠ eagain := by decide

theorem natCast_ne_eagain (count : Nat) : (count : Int) ≠ eagain := by
  simp only [eagain]
  omega

variable (t : Tables)

/-- Whether a `Process *` still points to the process it was taken from. -/
def Tables.find (p : ProcPtr) : Option Process :=
  (t.processList p.pid).filter fun proc => proc.serial = p.serial

def Tables.setProcess (pid : Pid) (proc : Option Process) : Tables :=
  { t with processList := Function.update t.processList pid proc }

def Tables.modify (pid : Pid) (f : Process → Process) : Tables :=
  t.setProcess pid ((t.processList pid).map f)

def Tables.setDevice (slot : Slot) (device : Option Device) : Tables :=
  { t with devices := Function.update t.devices slot device }

def Tables.modifyDevice (slot : Slot) (f : Device → Device) : Tables :=
  t.setDevice slot ((t.devices slot).map f)

def Tables.note (event : Event) : Tables := { t with log := event :: t.log }

def State.note (s : State) (event : Event) : State := { s with toTables := s.toTables.note event }

theorem State.note_tables (s : State) (event : Event) :
    (s.note event).toTables = s.toTables.note event := rfl

section Updates

variable {t : Tables}

@[simp] theorem setProcess_processList (pid : Pid) (proc : Option Process) :
    (t.setProcess pid proc).processList = Function.update t.processList pid proc := rfl

@[simp] theorem setProcess_devices (pid : Pid) (proc : Option Process) :
    (t.setProcess pid proc).devices = t.devices := rfl

@[simp] theorem setProcess_reqs (pid : Pid) (proc : Option Process) :
    (t.setProcess pid proc).reqs = t.reqs := rfl

@[simp] theorem setProcess_nextSerial (pid : Pid) (proc : Option Process) :
    (t.setProcess pid proc).nextSerial = t.nextSerial := rfl

@[simp] theorem setProcess_log (pid : Pid) (proc : Option Process) :
    (t.setProcess pid proc).log = t.log := rfl

theorem modify_processList (pid other : Pid) (f : Process → Process) :
    (t.modify pid f).processList other =
      if other = pid then (t.processList other).map f else t.processList other := by
  by_cases same : other = pid
  · subst same
    simp [Tables.modify]
  · simp [Tables.modify, same]

@[simp] theorem modify_devices (pid : Pid) (f : Process → Process) :
    (t.modify pid f).devices = t.devices := rfl

@[simp] theorem modify_reqs (pid : Pid) (f : Process → Process) :
    (t.modify pid f).reqs = t.reqs := rfl

@[simp] theorem modify_nextSerial (pid : Pid) (f : Process → Process) :
    (t.modify pid f).nextSerial = t.nextSerial := rfl

@[simp] theorem modify_log (pid : Pid) (f : Process → Process) :
    (t.modify pid f).log = t.log := rfl

@[simp] theorem setDevice_processList (slot : Slot) (device : Option Device) :
    (t.setDevice slot device).processList = t.processList := rfl

@[simp] theorem setDevice_devices (slot : Slot) (device : Option Device) :
    (t.setDevice slot device).devices = Function.update t.devices slot device := rfl

@[simp] theorem setDevice_reqs (slot : Slot) (device : Option Device) :
    (t.setDevice slot device).reqs = t.reqs := rfl

@[simp] theorem setDevice_nextSerial (slot : Slot) (device : Option Device) :
    (t.setDevice slot device).nextSerial = t.nextSerial := rfl

@[simp] theorem setDevice_log (slot : Slot) (device : Option Device) :
    (t.setDevice slot device).log = t.log := rfl

@[simp] theorem modifyDevice_processList (slot : Slot) (f : Device → Device) :
    (t.modifyDevice slot f).processList = t.processList := rfl

theorem modifyDevice_devices (slot other : Slot) (f : Device → Device) :
    (t.modifyDevice slot f).devices other =
      if other = slot then (t.devices other).map f else t.devices other := by
  by_cases same : other = slot
  · subst same
    simp [Tables.modifyDevice]
  · simp [Tables.modifyDevice, same]

@[simp] theorem modifyDevice_reqs (slot : Slot) (f : Device → Device) :
    (t.modifyDevice slot f).reqs = t.reqs := rfl

@[simp] theorem modifyDevice_nextSerial (slot : Slot) (f : Device → Device) :
    (t.modifyDevice slot f).nextSerial = t.nextSerial := rfl

@[simp] theorem modifyDevice_log (slot : Slot) (f : Device → Device) :
    (t.modifyDevice slot f).log = t.log := rfl

@[simp] theorem note_processList (event : Event) : (t.note event).processList = t.processList := rfl
@[simp] theorem note_devices (event : Event) : (t.note event).devices = t.devices := rfl
@[simp] theorem note_reqs (event : Event) : (t.note event).reqs = t.reqs := rfl
@[simp] theorem note_nextSerial (event : Event) : (t.note event).nextSerial = t.nextSerial := rfl
@[simp] theorem note_log (event : Event) : (t.note event).log = event :: t.log := rfl

theorem find_eq_some {p : ProcPtr} {proc : Process} :
    t.find p = some proc ↔ t.processList p.pid = some proc ∧ proc.serial = p.serial := by
  simp [Tables.find, Option.filter_eq_some_iff]

end Updates

def Tables.viewAt {α : Type} (t : Tables) (view : Process → α) (p : ProcPtr) : Option α :=
  (t.find p).map view

section Views

variable {t t' : Tables} {α : Type} {view : Process → α} {p : ProcPtr}

theorem viewAt_eq_some {value : α} :
    t.viewAt view p = some value ↔
      ∃ proc, t.processList p.pid = some proc ∧ proc.serial = p.serial ∧ view proc = value := by
  constructor
  · intro known
    obtain ⟨proc, found, same⟩ := Option.map_eq_some_iff.mp known
    obtain ⟨here, serial⟩ := find_eq_some.mp found
    exact ⟨proc, here, serial, same⟩
  · intro ⟨proc, found, serial, same⟩
    exact Option.map_eq_some_iff.mpr ⟨proc, find_eq_some.mpr ⟨found, serial⟩, same⟩

theorem viewAt_isSome (t : Tables) (view : Process → α) (p : ProcPtr) :
    (t.viewAt view p).isSome = (t.find p).isSome := by
  rw [Tables.viewAt, Option.isSome_map]

theorem viewAt_empty (empty : t.processList p.pid = none) : t.viewAt view p = none := by
  simp [Tables.viewAt, Tables.find, empty]

theorem viewAt_congr (same : t'.processList p.pid = t.processList p.pid) :
    t'.viewAt view p = t.viewAt view p := by
  rw [Tables.viewAt, Tables.find, same]
  rfl

theorem viewAt_modify_other {pid : Pid} {f : Process → Process} (differs : p.pid ≠ pid) :
    (t.modify pid f).viewAt view p = t.viewAt view p := by
  apply viewAt_congr
  rw [modify_processList, if_neg differs]

theorem viewAt_modify (pid : Pid) (f : Process → Process)
    (same : ∀ proc, (f proc).serial = proc.serial ∧ view (f proc) = view proc) :
    (t.modify pid f).viewAt view p = t.viewAt view p := by
  by_cases here : p.pid = pid
  · apply Option.ext
    intro value
    rw [viewAt_eq_some, viewAt_eq_some, modify_processList, if_pos here]
    cases t.processList p.pid with
    | none => simp
    | some proc => simp [(same proc).1, (same proc).2]
  · exact viewAt_modify_other here

theorem viewAt_modify_self {pid : Pid} {proc : Process} {f : Process → Process}
    (found : t.processList pid = some proc) (serial : (f proc).serial = proc.serial) :
    (t.modify pid f).viewAt view p =
      if p = ⟨pid, proc.serial⟩ then some (view (f proc)) else t.viewAt view p := by
  by_cases here : p.pid = pid
  · have there : (t.modify pid f).processList p.pid = some (f proc) := by
      rw [modify_processList, if_pos here, here, found, Option.map_some]
    by_cases owner : p.serial = proc.serial
    · have same : p = ⟨pid, proc.serial⟩ := by rw [← here, ← owner]
      rw [if_pos same]
      exact viewAt_eq_some.mpr ⟨_, there, serial.trans owner.symm, rfl⟩
    · have differs : p ≠ ⟨pid, proc.serial⟩ := by
        intro same
        exact owner (congrArg ProcPtr.serial same)
      have before : t.processList p.pid = some proc := by rw [here, found]
      rw [if_neg differs]
      simp [Tables.viewAt, Tables.find, there, before, Option.filter_some, serial, Ne.symm owner]
  · have differs : p ≠ ⟨pid, proc.serial⟩ := by
      intro same
      exact here (congrArg ProcPtr.pid same)
    rw [if_neg differs]
    exact viewAt_modify_other here

theorem viewAt_setProcess (view : Process → α) (newborn : Process) (p : ProcPtr) {pid : Pid}
    (free : t.processList pid = none) :
    (t.setProcess pid (some newborn)).viewAt view p =
      if p = ⟨pid, newborn.serial⟩ then some (view newborn) else t.viewAt view p := by
  by_cases here : p.pid = pid
  · have placed : (t.setProcess pid (some newborn)).processList p.pid = some newborn := by
      simp [here]
    by_cases serial : p.serial = newborn.serial
    · have same : p = ⟨pid, newborn.serial⟩ := by rw [← here, ← serial]
      rw [if_pos same]
      exact viewAt_eq_some.mpr ⟨newborn, placed, serial.symm, rfl⟩
    · have differs : p ≠ ⟨pid, newborn.serial⟩ := by
        intro same
        exact serial (congrArg ProcPtr.serial same)
      rw [if_neg differs, viewAt_empty (t := t) (by rw [here]; exact free)]
      simp [Tables.viewAt, Tables.find, here, Ne.symm serial]
  · have differs : p ≠ ⟨pid, newborn.serial⟩ := by
      intro same
      exact here (congrArg ProcPtr.pid same)
    rw [if_neg differs]
    apply viewAt_congr
    simp [Function.update_of_ne here]

end Views

def Process.setProcessState (state : ProcessState) (proc : Process) : Process :=
  { proc with processState := state }

def Tss.setRetval (ret : Int) (tss : Tss) : Tss :=
  { tss with eax := (ret % 2 ^ 32).toNat, edx := (ret / 2 ^ 32 % 2 ^ 32).toNat }

def Process.setRetval (ret : Int) (proc : Process) : Process :=
  { proc with usermodeState := proc.usermodeState.setRetval ret }

end SysImpl.Kernel
