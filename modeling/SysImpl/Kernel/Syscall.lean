import SysImpl.Lib.Runs
import SysImpl.Kernel.Devices
import SysImpl.Kernel.Exec

/-! The system calls and `real_syscall_handler`.

A step of the system is a trap: the current process has run in user mode and enters the
kernel with some registers and memory, either by a system call of its own or because the
timer made it yield. The step ends when the kernel returns to user mode, which may be in
another process. -/

namespace SysImpl.Kernel

open Bytes Runs

inductive Callsys where
  | exit
  | fork
  | read
  | write
  | openFile
  | close
  | exec
  | dup2
  | schedYield
  | semCreate
  | readdir
  | thread
  | hlt
  deriving DecidableEq, Repr

def callsysOf : Nat → Option Callsys
  | 1 => some .exit
  | 2 => some .fork
  | 3 => some .read
  | 4 => some .write
  | 5 => some .openFile
  | 6 => some .close
  | 11 => some .exec
  | 63 => some .dup2
  | 158 => some .schedYield
  | 200 => some .semCreate
  | 201 => some .readdir
  | 202 => some .thread
  | 254 => some .hlt
  | _ => none

def syscallEnd : Nat := 255

def processTicks : Nat := 30

/-- What a trap brings with it. -/
structure Trap where
  regs : Tss
  mem : Mem
  /-- The interrupts since the last return to user mode. -/
  user : List Irq
  arrivals : Arrivals
  around : Surroundings
  /-- What a look past the end of `process_list` and of `last_exit_code` finds. -/
  occupied : Bool
  exitCode : Nat

def stringFrom : Nat → Mem → Nat → List UInt8
  | 0, _, _ => []
  | fuel + 1, m, address =>
      if m (u32 address) = 0 then [] else m (u32 address) :: stringFrom fuel m (address + 1)

def loadString (m : Mem) (address : Nat) : List UInt8 := stringFrom (2 ^ 32) m address

def loadWord (m : Mem) (address : Nat) : Nat := load32 (fun x => m (u32 x)) address

def loadArguments (m : Mem) (args : Nat) : Nat → List (List UInt8)
  | 0 => []
  | count + 1 =>
      let pointer := loadWord m args
      if pointer = 0 then [] else loadString m pointer :: loadArguments m (args + 4) count

def toLower (ch : UInt8) : UInt8 := if 65 ≤ ch ∧ ch ≤ 90 then ch + 32 else ch

/-- The special paths that `main` registers, with the slots their devices are in. -/
def specialPaths : List (String × Slot) :=
  [(":COM1", 0), (":CON", 1), (":WAITPID", 2), (":SLEEP", 3)]

def specialPath (path : List UInt8) : Option Object :=
  (specialPaths.find? fun entry =>
    (entry.1.toUTF8.toList.map toLower) == path.map toLower).map fun entry => .device entry.2

def toInt32 (x : Nat) : Int := if x < 2 ^ 31 then x else (x : Int) - 2 ^ 32

def wrapInt (x : Int) : Int := (x + 2 ^ 31) % 2 ^ 32 - 2 ^ 31

def runnableAt (t : Tables) (idleToo : Bool) (pid : Pid) : Bool :=
  (t.processList pid).any fun proc =>
    proc.processState == .runnable && (idleToo || proc.processScheType != .idle)

def rescheOrder (current : Pid) : List Pid :=
  (List.finRange 32).map fun i => current + i + 1

def resche (s : State) : Except Stop State :=
  match ((rescheOrder s.currentProcess).find? (runnableAt s.toTables false)).or
      ((rescheOrder s.currentProcess).find? (runnableAt s.toTables true)) with
  | none => .error .initTask
  | some pid =>
      .ok { s with currentProcess := pid, hw := { s.hw with rescheCounter := processTicks } }

/-- `getObject`, which does not check the position. -/
def getObject (proc : Process) (fd : Nat) : Except Stop (Option Object) :=
  if inside : fd < 128 then .ok (proc.objects ⟨fd, inside⟩) else .error .indexOutOfRange

def OpenFile.read (file : OpenFile) (size : Nat) : List UInt8 :=
  (file.image.content.drop file.cursor).take size

def readFile (s : State) (id : Nat) (buffer size : Nat) : State × Int :=
  match s.files[id]? with
  | none => (s, -1)
  | some file =>
      let bytes := file.read size
      ({ s with
        mem := copyTo s.mem buffer bytes
        files := s.files.set id { file with cursor := file.cursor + bytes.length } },
        bytes.length)

def readHandler (s : State) (proc : Process) (fd buffer size : Nat) : Except Stop (State × Int) :=
  match getObject proc fd with
  | .error stop => .error stop
  | .ok none => .ok (s, -1)
  | .ok (some (.device slot)) => readDevice s slot buffer size
  | .ok (some (.file id)) => .ok (readFile s id buffer size)
  | .ok (some (.segment _ _)) => .ok (s, -1)

/-- `ProcessWait::write`, whose target is not checked. -/
def writeProcessWait (s : State) (trap : Trap) (p : ProcPtr) (data size : Nat) : State × Int :=
  if size ≠ 4 then (s, einval)
  else
    let target := loadWord s.mem data
    let req : WaitReq :=
      if inside : target < 32 then
        if (s.processList ⟨target, inside⟩).isSome then ⟨target, 0⟩
        else ⟨0, s.lastExitCode ⟨target, inside⟩⟩
      else if trap.occupied then ⟨target, 0⟩ else ⟨0, trap.exitCode⟩
    let t := { s.toTables with reqs := Function.update s.reqs s.currentProcess req }
    ({ s with toTables := t.note (.awaited p target) }, 4)

def writeSleepDevice (s : State) (data size : Nat) : State × Int :=
  if size ≠ 4 then (s, einval)
  else
    let s := { s with hw := s.hw.arrive }
    let wake := s.hw.pitTicks + loadWord s.mem data
    ({ s with
      processSleepUntil := Function.update s.processSleepUntil s.currentProcess wake }, 4)

def writeSemaphore (s : State) (slot : Slot) (device : Device) (cnt : Int) : State × Int :=
  let t := s.toTables.modifyDevice slot fun device =>
    { device with input := .semaphore (wrapInt (cnt + 1)) }
  ({ s with toTables := t.note (.signalled device.serial) }, 0)

def writeDevice (s : State) (trap : Trap) (p : ProcPtr) (slot : Slot) (buffer size : Nat) :
    Except Stop (State × Int) :=
  match s.devices slot with
  | none => .error .danglingPointer
  | some device =>
      match device.input with
      | .serialIo | .vgaText => .ok (s, size)
      | .processWait => .ok (writeProcessWait s trap p buffer size)
      | .sleepDevice => .ok (writeSleepDevice s buffer size)
      | .semaphore cnt => .ok (writeSemaphore s slot device cnt)

def writeHandler (s : State) (trap : Trap) (proc : Process) (fd buffer size : Nat) :
    Except Stop (State × Int) :=
  match getObject proc fd with
  | .error stop => .error stop
  | .ok (some (.device slot)) =>
      writeDevice s trap ⟨s.currentProcess, proc.serial⟩ slot buffer size
  | .ok _ => .ok (s, -1)

def openHandler (fs : FileSystem) (s : State) (filename : Nat) : Except Stop (State × Int) :=
  let path := loadString s.mem filename
  match specialPath path with
  | some obj =>
      match s.toTables.addObject s.currentProcess obj with
      | none => .ok (s, enospc)
      | some (pos, t) => .ok ({ s with toTables := t }, pos.val)
  | none =>
      match fs.openFile path with
      | none => .ok (s, enoent)
      | some image =>
          match s.toTables.addObject s.currentProcess (.file s.files.length) with
          | none => .ok (s, enospc)
          | some (pos, t) =>
              .ok ({ s with toTables := t, files := s.files ++ [⟨image, 0⟩] }, pos.val)

def closeHandler (s : State) (fd : Nat) : State :=
  if inside : fd < 128 then
    { s with toTables := s.toTables.removeObject s.currentProcess ⟨fd, inside⟩ }
  else s

def dup2Handler (s : State) (proc : Process) (oldfd newfd : Nat) : Except Stop (State × Int) :=
  if oldfd = newfd then .ok (s, 0)
  else
    match getObject proc oldfd with
    | .error stop => .error stop
    | .ok none => .ok (s, -1)
    | .ok (some obj) =>
        if inside : newfd < 128 then
          .ok ({ s with
            toTables := s.toTables.setObject s.currentProcess ⟨newfd, inside⟩ obj }, 0)
        else .ok (s, 0)

def Tables.freeDevice (t : Tables) : Option Slot :=
  (List.finRange 64).find? fun slot => (t.devices slot).isNone

def Tables.newSemaphore (t : Tables) (slot : Slot) (cnt : Int) : Tables :=
  let t := t.setDevice slot (some ⟨t.nextSerial, [], .semaphore cnt⟩)
  ({ t with nextSerial := t.nextSerial + 1 } : Tables).note (.created t.nextSerial cnt)

/-- A full registry or a full object table throws past the handler. -/
def semCreateHandler (s : State) (cnt : Nat) : Except Stop (State × Int) :=
  match s.toTables.freeDevice with
  | none => .error .uncaughtException
  | some slot =>
      match (s.toTables.newSemaphore slot (toInt32 cnt)).addObject s.currentProcess
          (.device slot) with
      | none => .error .uncaughtException
      | some (pos, t) => .ok ({ s with toTables := t }, pos.val)

def storeInfo (m : Mem) (address : Nat) (info : FileInfo) : Mem :=
  let m := copyTo m address (info.filename.take 15 ++ [0])
  let m := copyTo m (address + 16) (bytes32 info.size)
  copyTo m (address + 20) (bytes32 (if info.directory then 1 else 0))

/-- The loop of `readdir`, which reads `*pn` again in every round. -/
def storeListing (array n : Nat) : Nat → List FileInfo → Mem → Mem × Nat
  | i, [], m => (m, i)
  | i, info :: rest, m =>
      if (i : Int) < toInt32 (loadWord m n) then
        storeListing array n (i + 1) rest (storeInfo m (array + 24 * i) info)
      else (m, i)

def readdirHandler (s : State) (proc : Process) (fd array n : Nat) : Except Stop (State × Int) :=
  match getObject proc fd with
  | .error stop => .error stop
  | .ok (some (.file id)) =>
      match s.files[id]? with
      | none => .ok (s, enoent)
      | some file =>
          match file.image.listing with
          | none => .ok (s, enoent)
          | some (infos, cursor) =>
              let (m, count) := storeListing array n 0 infos s.mem
              .ok ({ s with
                mem := copyTo m n (bytes32 infos.length)
                files := s.files.set id { file with cursor := cursor } }, count)
  | .ok _ => .ok (s, enoent)

def applyHandler (fs : FileSystem) (place : Placement) (s : State) (trap : Trap) (proc : Process) :
    Callsys → Except Stop (State × Int)
  | .exit => .ok (deleteProcess s s.currentProcess proc.usermodeState.ebx, 0)
  | .fork => (clone place s s.currentProcess .keepStack).map fun (s, child) => (s, child.val)
  | .thread =>
      (clone place s s.currentProcess
        (.newThread proc.usermodeState.ebx proc.usermodeState.ecx)).map
        fun (s, child) => (s, child.val)
  | .read =>
      readHandler s proc proc.usermodeState.ebx proc.usermodeState.ecx proc.usermodeState.edx
  | .write =>
      writeHandler s trap proc proc.usermodeState.ebx proc.usermodeState.ecx
        proc.usermodeState.edx
  | .openFile => openHandler fs s proc.usermodeState.ebx
  | .close => .ok (closeHandler s proc.usermodeState.ebx, 0)
  | .exec =>
      execv fs place s s.currentProcess (loadString s.mem proc.usermodeState.ebx)
        ⟨loadArguments s.mem proc.usermodeState.ecx maxArguments, proc.usermodeState.edx,
          proc.usermodeState.esi⟩ trap.around
  | .dup2 => dup2Handler s proc proc.usermodeState.ebx proc.usermodeState.ecx
  | .schedYield => (resche s).map fun s => (s, 0)
  | .semCreate => semCreateHandler s proc.usermodeState.ebx
  | .readdir =>
      readdirHandler s proc proc.usermodeState.ebx proc.usermodeState.ecx proc.usermodeState.edx
  | .hlt => .ok (s, 0)

/-- User mode up to the trap, and `enterKernelMode`. -/
def enterKernelMode (s : State) (trap : Trap) : State :=
  let t := s.toTables.modify s.currentProcess fun proc =>
    { proc with usermodeState := trap.regs }
  { s with
    toTables := t
    userTss := trap.regs
    mem := trap.mem
    hw := (s.hw.interrupts trap.user).expect trap.arrivals.handler }

def finishCall (s : State) (pid : Pid) (ret : Int) : Except Stop State :=
  match s.processList pid with
  | none => resche s
  | some proc =>
      let s := { s with toTables := s.toTables.modify pid (Process.setRetval ret) }
      if proc.processState ≠ .runnable then resche s else .ok s

/-- `resche_leave_kernel_mode_hook`, after the last interrupts of the call. -/
def leaveHook (s : State) (trap : Trap) : Except Stop State :=
  let s := { s with hw := s.hw.interrupts trap.arrivals.leaving }
  if s.hw.rescheCounter = 0 then resche s else .ok s

def leaveKernelMode (s : State) : State :=
  match s.processList s.currentProcess with
  | none => s
  | some proc => { s with userTss := proc.usermodeState }

def realSyscallHandler (fs : FileSystem) (place : Placement) (s : State) (trap : Trap) :
    Except Stop State :=
  let s := enterKernelMode s trap
  let pid := s.currentProcess
  match s.processList pid with
  | none => .error .danglingPointer
  | some proc =>
      let s := s.note (.entered ⟨pid, proc.serial⟩)
      let call := proc.usermodeState.eax
      if call < syscallEnd then
        match callsysOf call with
        | none => (leaveHook s trap).map leaveKernelMode
        | some callsys => do
            let (s, ret) ← applyHandler fs place s trap proc callsys
            let s ← checkAll trap.arrivals s
            let s ← finishCall s pid ret
            (leaveHook s trap).map leaveKernelMode
      else .error .indexOutOfRange

/-- The tables and devices when `enter_init` starts: the two consoles, `ProcessWait` and
`SleepDevice` are registered and there is no process. -/
def initialTables (lastExitCode : Pid → Nat) : Tables where
  processList := fun _ => none
  devices := fun slot =>
    match slot.val with
    | 0 => some ⟨0, [], .serialIo⟩
    | 1 => some ⟨1, [], .vgaText⟩
    | 2 => some ⟨2, [], .processWait⟩
    | 3 => some ⟨3, [], .sleepDevice⟩
    | _ => none
  reqs := fun _ => ⟨0, 0⟩
  lastExitCode := lastExitCode
  nextSerial := 4
  log := []

structure BootInfo where
  mem : Mem
  hw : Hardware
  userTss : Tss
  lastExitCode : Pid → Nat
  args : List (List UInt8)
  around : Surroundings

def initProcess : Process where
  serial := 4
  ppid := none
  processState := .runnable
  processScheType := .normal
  stackTopBackup := 0
  stackBackup := none
  usermodeState := default
  objects := fun pos => if pos.val < 3 then some (.device 1) else none

def hltPath : List UInt8 := "/bin/hlt.elf".toUTF8.toList

/-- `enter_init`: the idle process runs `hlt.elf`, which forks the init process. -/
def enterInit (fs : FileSystem) (place : Placement) (boot : BootInfo) : Except Stop State :=
  let t := (initialTables boot.lastExitCode).setProcess 0 (some initProcess)
  let s : State :=
    { toTables := { t with nextSerial := 5 }
      currentProcess := 0
      processSleepUntil := fun _ => 0
      com1 := ⟨false, [], []⟩
      con := ⟨false, [], []⟩
      hw := boot.hw
      mem := boot.mem
      userTss := boot.userTss
      files := [] }
  match execv fs place s 0 hltPath ⟨boot.args, 7, 0⟩ boot.around with
  | .error stop => .error stop
  | .ok (s, ret) =>
      if ret = 0 then
        let t := s.toTables.modify 0 fun proc => { proc with processScheType := .idle }
        .ok (leaveKernelMode { s with toTables := t, currentProcess := 0 })
      else .error .assertionFailed

def Step (fs : FileSystem) (place : Placement) (program : State → Trap → Prop) (s : State)
    (trap : Trap) (s' : State) : Prop :=
  program s trap ∧ realSyscallHandler fs place s trap = .ok s'

/-- The program of process 0, `hlt.elf`: after a fork it only halts, and the timer makes it yield. -/
def HltProgram (s : State) (trap : Trap) : Prop :=
  s.currentProcess = 0 →
    callsysOf trap.regs.eax = some .fork ∨ callsysOf trap.regs.eax = some .hlt ∨
      callsysOf trap.regs.eax = some .schedYield

def Reachable (fs : FileSystem) (place : Placement) (program : State → Trap → Prop) (s : State) :
    Prop :=
  ∃ boot first traps, enterInit fs place boot = .ok first ∧
    Run (Step fs place program) first traps s

end SysImpl.Kernel
