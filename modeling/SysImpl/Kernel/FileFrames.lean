import SysImpl.Kernel.Syscall

/-! The parts of the kernel that do not look at the open files.

Each of them does the same whatever files are open, and leaves them as they are. -/

namespace SysImpl.Kernel

open Bytes

def State.withFiles (files : List OpenFile) (s : State) : State := { s with files := files }

variable (files : List OpenFile)

def keepFiles (done : State × Int) : State × Int := (done.1.withFiles files, done.2)

theorem resche_withFiles (s : State) :
    resche (s.withFiles files) = (resche s).map (State.withFiles files) := by
  simp only [resche, State.withFiles]
  split <;> rfl

theorem restoreStack_withFiles (s : State) (pid : Pid) :
    restoreStack (s.withFiles files) pid = (restoreStack s pid).withFiles files := by
  simp only [restoreStack, State.withFiles]
  split
  · rfl
  · split <;> rfl

theorem restoreParent_withFiles (s : State) (ppid : Option Pid) :
    restoreParent (s.withFiles files) ppid = (restoreParent s ppid).withFiles files := by
  cases ppid with
  | none => rfl
  | some parent => exact restoreStack_withFiles files s parent

theorem deleteProcess_withFiles (s : State) (pid : Pid) (code : Nat) :
    deleteProcess (s.withFiles files) pid code = (deleteProcess s pid code).withFiles files := by
  cases found : s.processList pid with
  | none =>
      have same : (s.withFiles files).processList pid = none := found
      simp only [deleteProcess, found, same]
      rfl
  | some proc =>
      have same : (s.withFiles files).processList pid = some proc := found
      simp only [deleteProcess, found, same]
      exact congrArg (fun s : State => { s with toTables := s.toTables.processExit pid code })
        (restoreParent_withFiles files { s with
          toTables := ((s.toTables.removeObjects pid fun _ => true).setProcess pid none).note
            (.exited ⟨pid, proc.serial⟩ code) } proc.ppid)

theorem clone_withFiles (place : Placement) (s : State) (pid : Pid) (mode : CloneMode) :
    clone place (s.withFiles files) pid mode =
      (clone place s pid mode).map fun made => (made.1.withFiles files, made.2) := by
  simp only [clone, State.withFiles]
  split
  · rfl
  · split
    · rfl
    · split
      · rfl
      · cases mode <;> rfl

theorem readConsole_withFiles (s : State) (console : Console) (buffer size : Nat) :
    readConsole (s.withFiles files) console buffer size =
      keepFiles files (readConsole s console buffer size) := by
  cases console <;> rfl

theorem inputRead_withFiles (s : State) (slot : Slot) (input : Input) (buffer size : Nat) :
    inputRead (s.withFiles files) slot input buffer size =
      keepFiles files (inputRead s slot input buffer size) := by
  cases input with
  | serialIo => exact readConsole_withFiles files s .serialIo buffer size
  | vgaText => exact readConsole_withFiles files s .vgaText buffer size
  | processWait =>
      simp only [inputRead, readProcessWait, apply_ite (keepFiles files)]
      rfl
  | sleepDevice =>
      simp only [inputRead, readSleepDevice, apply_ite (keepFiles files)]
      rfl
  | semaphore cnt =>
      simp only [inputRead, readSemaphore, apply_ite (keepFiles files)]
      rfl

theorem doRead_withFiles (s : State) (slot : Slot) (p : ProcPtr) (buffer size : Nat) :
    doRead (s.withFiles files) slot p buffer size =
      (doRead s slot p buffer size).map (keepFiles files) := by
  cases found : s.devices slot with
  | none =>
      have same : (s.withFiles files).devices slot = none := found
      simp only [doRead, found, same]
      rfl
  | some device =>
      have same : (s.withFiles files).devices slot = some device := found
      simp only [doRead, found, same, inputRead_withFiles, keepFiles]
      split
      · split <;> rfl
      · rfl

theorem readDevice_withFiles (s : State) (slot : Slot) (buffer size : Nat) :
    readDevice (s.withFiles files) slot buffer size =
      (readDevice s slot buffer size).map (keepFiles files) := by
  simp only [readDevice]
  cases found : s.processList s.currentProcess with
  | none =>
      have same : (s.withFiles files).processList (s.withFiles files).currentProcess = none := found
      rw [same]
      rfl
  | some proc =>
      have same : (s.withFiles files).processList (s.withFiles files).currentProcess = some proc :=
        found
      rw [same]
      cases known : s.devices slot with
      | none =>
          have there : (s.withFiles files).devices slot = none := known
          rw [there]
          rfl
      | some device =>
          have there : (s.withFiles files).devices slot = some device := known
          rw [there]
          exact doRead_withFiles files
            (s.note (.issued device.serial ⟨s.currentProcess, proc.serial⟩ size)) slot _ buffer size

theorem serve_withFiles (s : State) (slot : Slot) (now : PendingRead) :
    serve (s.withFiles files) slot now = (serve s slot now).map (State.withFiles files) := by
  have found : (s.withFiles files).toTables.find now.proc = s.toTables.find now.proc := rfl
  simp only [serve, found]
  cases s.toTables.find now.proc with
  | none => rfl
  | some _ =>
      have done := doRead_withFiles files { s with
        toTables := s.toTables.modify now.proc.pid (Process.setProcessState .runnable)
        currentProcess := now.proc.pid } slot now.proc now.buffer now.size
      simp only [State.withFiles] at done ⊢
      rw [done]
      cases doRead _ slot now.proc now.buffer now.size <;> rfl

theorem checkLoop_withFiles (slot : Slot) (fuel ind : Nat) (s : State) :
    checkLoop slot fuel ind (s.withFiles files) =
      (checkLoop slot fuel ind s).map fun done => (done.1.withFiles files, done.2) := by
  induction fuel generalizing ind s with
  | zero => rfl
  | succ fuel ih =>
      have found : (s.withFiles files).devices slot = s.devices slot := rfl
      simp only [checkLoop, found]
      cases s.devices slot with
      | none => rfl
      | some device =>
          simp only
          cases device.pendingRequest[ind]? with
          | none => rfl
          | some now =>
              simp only [inputRead_withFiles, keepFiles]
              split
              · rfl
              · rw [serve_withFiles]
                cases serve (inputRead s slot device.input 0 0).1 slot now with
                | error stop => rfl
                | ok s => exact ih (ind + 1) s

theorem checkAll_withFiles (arrivals : Arrivals) (s : State) :
    checkAll arrivals (s.withFiles files) = (checkAll arrivals s).map (State.withFiles files) := by
  have each (s : State) (slot : Slot) : checkSlot arrivals (s.withFiles files) slot =
      (checkSlot arrivals s slot).map (State.withFiles files) := by
    have found : (s.withFiles files).devices slot = s.devices slot := rfl
    simp only [checkSlot]
    rw [found]
    cases s.devices slot with
    | none => rfl
    | some device =>
        have looped := checkLoop_withFiles files slot maxPending 0 { s with
          hw := (s.hw.interrupts (arrivals.before slot)).expect (arrivals.during slot) }
        simp only [check, State.withFiles] at looped ⊢
        rw [looped]
        cases checkLoop slot maxPending 0 _ <;> rfl
  simp only [checkAll]
  generalize List.finRange 64 = slots
  induction slots generalizing s with
  | nil => rfl
  | cons slot slots ih =>
      rw [List.foldlM_cons, List.foldlM_cons, each]
      cases checkSlot arrivals s slot with
      | error stop => rfl
      | ok s => exact ih s

theorem writeDevice_withFiles (s : State) (trap : Trap) (p : ProcPtr) (slot : Slot)
    (buffer size : Nat) :
    writeDevice (s.withFiles files) trap p slot buffer size =
      (writeDevice s trap p slot buffer size).map (keepFiles files) := by
  have found : (s.withFiles files).devices slot = s.devices slot := rfl
  simp only [writeDevice, found]
  cases s.devices slot with
  | none => rfl
  | some device =>
      obtain ⟨serial, pending, input⟩ := device
      cases input with
      | serialIo => rfl
      | vgaText => rfl
      | processWait =>
          simp only [writeProcessWait]
          rw [apply_ite Except.ok, apply_ite Except.ok, apply_ite (Except.map (keepFiles files))]
          rfl
      | sleepDevice =>
          simp only [writeSleepDevice]
          rw [apply_ite Except.ok, apply_ite Except.ok, apply_ite (Except.map (keepFiles files))]
          rfl
      | semaphore cnt => rfl

theorem finishExec_withFiles (s : State) (pid : Pid) :
    finishExec (s.withFiles files) pid = (finishExec s pid).withFiles files := by
  have found : (s.withFiles files).processList pid = s.processList pid := rfl
  simp only [finishExec, found]
  cases s.processList pid with
  | none => rfl
  | some proc => exact restoreParent_withFiles files (s.note (.execed ⟨pid, proc.serial⟩)) proc.ppid

theorem exec_withFiles (place : Placement) (s : State) (pid : Pid) (call : ExecCall)
    (content : List UInt8) (around : Surroundings) (sections : List Section) (entry : Nat) :
    exec place (s.withFiles files) pid call content around sections entry =
      (exec place s pid call content around sections entry).map
        (Option.map (State.withFiles files)) := by
  have installed : install place (s.withFiles files) pid call content around sections entry =
      ((install place s pid call content around sections entry).1.withFiles files,
        (install place s pid call content around sections entry).2) := rfl
  simp only [exec, installed]
  rcases install place s pid call content around sections entry with ⟨last, done⟩
  cases sections.all Section.fits with
  | false => rfl
  | true =>
      cases around.room 2 with
      | false => rfl
      | true =>
          cases done with
          | false => rfl
          | true => exact congrArg (Except.ok ∘ some) (finishExec_withFiles files last pid)

theorem execv_withFiles (fs : FileSystem) (place : Placement) (s : State) (pid : Pid)
    (path : List UInt8) (call : ExecCall) (around : Surroundings) :
    execv fs place (s.withFiles files) pid path call around =
      (execv fs place s pid path call around).map (keepFiles files) := by
  simp only [execv, exec_withFiles]
  cases fs.openFile path with
  | none => rfl
  | some image =>
      simp only [apply_ite (Except.map (keepFiles files))]
      cases storeSections (fileBytes image.content around 1)
          (countSections (fileBytes image.content around 0)) (staleTable around) with
      | none => rfl
      | some table =>
          simp only
          rcases exec place s pid call image.content around
            ((List.range (countSections (fileBytes image.content around 0))).map table)
            (elfEntry (fileBytes image.content around 1)) with stop | _ | last <;> rfl

theorem semCreate_withFiles (s : State) (cnt : Nat) :
    semCreateHandler (s.withFiles files) cnt =
      (semCreateHandler s cnt).map (keepFiles files) := by
  have found : (s.withFiles files).toTables = s.toTables := rfl
  have current : (s.withFiles files).currentProcess = s.currentProcess := rfl
  simp only [semCreateHandler, found, current]
  cases s.toTables.freeDevice with
  | none => rfl
  | some slot =>
      simp only
      cases (s.toTables.newSemaphore slot (toInt32 cnt)).addObject s.currentProcess
        (.device slot) <;> rfl

theorem dup2_withFiles (s : State) (proc : Process) (oldfd newfd : Nat) :
    dup2Handler (s.withFiles files) proc oldfd newfd =
      (dup2Handler s proc oldfd newfd).map (keepFiles files) := by
  simp only [dup2Handler, apply_ite (Except.map (keepFiles files))]
  rcases getObject proc oldfd with stop | _ | obj
  · rfl
  · rfl
  · simp only
    by_cases inside : newfd < 128
    · simp only [dif_pos inside]
      rfl
    · simp only [dif_neg inside]
      rfl

theorem closeHandler_withFiles (s : State) (fd : Nat) :
    closeHandler (s.withFiles files) fd = (closeHandler s fd).withFiles files := by
  by_cases inside : fd < 128
  · simp only [closeHandler, dif_pos inside]
    rfl
  · simp only [closeHandler, dif_neg inside]

theorem finishCall_withFiles (s : State) (pid : Pid) (ret : Int) :
    finishCall (s.withFiles files) pid ret = (finishCall s pid ret).map (State.withFiles files) := by
  have found : (s.withFiles files).processList pid = s.processList pid := rfl
  simp only [finishCall, found]
  cases s.processList pid with
  | none => exact resche_withFiles files s
  | some proc =>
      simp only [apply_ite (Except.map (State.withFiles files)), ← resche_withFiles]
      rfl

theorem leaveHook_withFiles (s : State) (trap : Trap) :
    leaveHook (s.withFiles files) trap = (leaveHook s trap).map (State.withFiles files) := by
  simp only [leaveHook, apply_ite (Except.map (State.withFiles files)), ← resche_withFiles]
  rfl

theorem leaveKernelMode_withFiles (s : State) :
    leaveKernelMode (s.withFiles files) = (leaveKernelMode s).withFiles files := by
  have found : (s.withFiles files).processList (s.withFiles files).currentProcess =
      s.processList s.currentProcess := rfl
  simp only [leaveKernelMode, found]
  cases s.processList s.currentProcess <;> rfl

theorem left_withFiles (s : State) (trap : Trap) :
    (leaveHook (s.withFiles files) trap).map leaveKernelMode =
      ((leaveHook s trap).map leaveKernelMode).map (State.withFiles files) := by
  rw [leaveHook_withFiles]
  cases leaveHook s trap with
  | error stop => rfl
  | ok s => exact congrArg Except.ok (leaveKernelMode_withFiles files s)

def afterHandler (s : State) (trap : Trap) (pid : Pid) (ret : Int) : Except Stop State := do
  let s ← checkAll trap.arrivals s
  let s ← finishCall s pid ret
  (leaveHook s trap).map leaveKernelMode

theorem afterHandler_withFiles (s : State) (trap : Trap) (pid : Pid) (ret : Int) :
    afterHandler (s.withFiles files) trap pid ret =
      (afterHandler s trap pid ret).map (State.withFiles files) := by
  simp only [afterHandler, checkAll_withFiles]
  cases checkAll trap.arrivals s with
  | error stop => rfl
  | ok s =>
      have finished := finishCall_withFiles files s pid ret
      simp only [Except.map, bind, Except.bind, finished]
      cases finishCall s pid ret with
      | error stop => rfl
      | ok s => exact left_withFiles files s trap

end SysImpl.Kernel
