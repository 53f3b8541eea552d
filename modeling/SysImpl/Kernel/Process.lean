import SysImpl.Kernel.State
import Mathlib.Data.Fintype.Basic
import Mathlib.Data.List.FinRange

/-! Object tables and the life of a process, from `Process.cpp`.

The process list holds the only lasting reference to a process. A semaphore lives as
long as some object table refers to it; the devices that are made at boot are also held
by the registry of special paths and stay. -/

namespace SysImpl.Kernel

open Bytes

def Object.begin : Object → Nat
  | .segment _ _ => 112
  | _ => 3

def Tables.objectAt (t : Tables) (pid : Pid) (pos : Fd) : Option Object :=
  (t.processList pid).bind fun proc => proc.objects pos

def Process.bind (pos : Fd) (obj : Option Object) (proc : Process) : Process :=
  { proc with objects := Function.update proc.objects pos obj }

def Process.freePosition (proc : Process) (obj : Object) : Option Fd :=
  (List.finRange 128).find? fun pos => obj.begin ≤ pos.val ∧ proc.objects pos = none

/-- `addObject`; without a free position it throws `ObjectLimitExceededException`. -/
def Tables.addObject (t : Tables) (pid : Pid) (obj : Object) : Option (Fd × Tables) :=
  ((t.processList pid).bind fun proc => proc.freePosition obj).map fun pos =>
    (pos, t.modify pid (Process.bind pos (some obj)))

/-- `onRemovedByOwner`: a blocking device forgets the pending read of the owner. -/
def Tables.onRemovedByOwner (t : Tables) (owner : ProcPtr) : Object → Tables
  | .device slot => t.modifyDevice slot fun device =>
      { device with pendingRequest := device.pendingRequest.eraseP fun req => req.proc = owner }
  | _ => t

def Tables.Referenced (t : Tables) (slot : Slot) : Prop :=
  ∃ pid, ∃ pos, t.objectAt pid pos = some (.device slot)

instance (t : Tables) (slot : Slot) : Decidable (t.Referenced slot) :=
  inferInstanceAs (Decidable (∃ pid, ∃ pos, t.objectAt pid pos = some (.device slot)))

def Device.isSemaphore (device : Device) : Bool :=
  match device.input with
  | .semaphore _ => true
  | _ => false

/-- Give up a reference: a semaphore that nothing refers to is destroyed. -/
def Tables.dropReference (t : Tables) : Object → Tables
  | .device slot =>
      if (t.devices slot).any Device.isSemaphore ∧ ¬ t.Referenced slot then t.setDevice slot none
      else t
  | _ => t

def Tables.removeObject (t : Tables) (pid : Pid) (pos : Fd) : Tables :=
  match t.processList pid with
  | none => t
  | some proc =>
      match proc.objects pos with
      | none => t
      | some obj =>
          ((t.onRemovedByOwner ⟨pid, proc.serial⟩ obj).modify pid
            (Process.bind pos none)).dropReference obj

def Tables.setObject (t : Tables) (pid : Pid) (pos : Fd) (obj : Object) : Tables :=
  (t.removeObject pid pos).modify pid (Process.bind pos (some obj))

def Process.clearBackup (proc : Process) : Process :=
  { proc with stackTopBackup := 0, stackBackup := none, processState := .runnable }

def restoreStack (s : State) (pid : Pid) : State :=
  match s.processList pid with
  | none => s
  | some proc =>
      match proc.stackBackup with
      | none => s
      | some saved =>
          { s with
            toTables := s.toTables.modify pid Process.clearBackup
            mem := copyTo s.mem proc.stackTopBackup saved }

/-- The wake-up that `~Process` and `exec` end with, for the slot in `ppid`. -/
def restoreParent (s : State) (ppid : Option Pid) : State :=
  match ppid with
  | none => s
  | some parent => restoreStack s parent

def Tables.removeObjects (t : Tables) (pid : Pid) (drop : Fd → Bool) : Tables :=
  (List.finRange 128).foldl (fun t pos => if drop pos then t.removeObject pid pos else t) t

def Tables.processExit (t : Tables) (pid : Pid) (status : Nat) : Tables :=
  { t with
    lastExitCode := Function.update t.lastExitCode pid status
    reqs := fun waiter =>
      if (t.reqs waiter).pid = pid.val then ⟨0, status⟩ else t.reqs waiter }

def deleteProcess (s : State) (pid : Pid) (code : Nat) : State :=
  match s.processList pid with
  | none => { s with toTables := s.toTables.processExit pid code }
  | some proc =>
      let t := (s.toTables.removeObjects pid fun _ => true).setProcess pid none
      let t := t.note (.exited ⟨pid, proc.serial⟩ code)
      let s := restoreParent { s with toTables := t } proc.ppid
      { s with toTables := s.toTables.processExit pid code }

/-- The placement of the stacks, which `main` computes from the memory size and the heap. -/
structure Placement where
  userStackPos : Nat
  kernelStackPos : Nat

def processStackSize : Nat := 8192

def Placement.userStackTop (place : Placement) (pid : Pid) : Nat :=
  u32 (place.userStackPos + pid.val * processStackSize + processStackSize)

def Placement.kernelStackTop (place : Placement) (pid : Pid) : Nat :=
  u32 (place.kernelStackPos + pid.val * processStackSize + processStackSize)

def stackBackupSize : Nat := 128

/-- How `clone` is called: `PROCESS_CLONE_KEEP_STACK` or `PROCESS_CLONE_NEW_THREAD`. -/
inductive CloneMode where
  | keepStack
  | newThread (code data : Nat)

def Tables.freeSlot (t : Tables) : Option Pid :=
  (List.finRange 32).find? fun pid => (t.processList pid).isNone

def threadStart (place : Placement) (pid : Pid) (code data : Nat) (tss : Tss) (m : Mem) :
    Tss × Mem :=
  let esp := u32 (place.userStackTop pid + 2 ^ 32 - 16)
  let m := copyTo m esp (bytes32 data)
  let esp := u32 (esp + 2 ^ 32 - 4)
  let m := copyTo m esp (bytes32 0)
  ({ tss with esp := esp, esp0 := place.kernelStackTop pid, eip := code }, m)

def loadWrap (m : Mem) (address count : Nat) : List UInt8 :=
  (List.range count).map fun i => m (u32 (address + i))

theorem loadWrap_copyTo (m : Mem) (address : Nat) (bytes : List UInt8)
    (bound : bytes.length ≤ 2 ^ 32) : loadWrap (copyTo m address bytes) address bytes.length = bytes := by
  apply List.ext_getElem
  · simp [loadWrap]
  · intro i _ inside
    simp only [loadWrap, List.getElem_map, List.getElem_range]
    exact copyTo_inside m address i bytes inside bound

def childProcess (parent : Process) (pid : Pid) (serial : Nat) (tss : Tss) : Process where
  serial := serial
  ppid := some pid
  processState := .runnable
  processScheType := .normal
  stackTopBackup := 0
  stackBackup := none
  usermodeState := tss
  objects := parent.objects

def Process.keepStack (m : Mem) (proc : Process) : Process :=
  { proc with
    stackBackup := some (loadWrap m proc.usermodeState.esp stackBackupSize)
    stackTopBackup := proc.usermodeState.esp
    processState := .sleeping }

def clone (place : Placement) (s : State) (pid : Pid) (mode : CloneMode) :
    Except Stop (State × Pid) :=
  match s.processList pid with
  | none => .error .danglingPointer
  | some proc =>
      if proc.stackBackup.isSome then .error .assertionFailed
      else
        match s.toTables.freeSlot with
        | none => .error .uncaughtException
        | some child =>
            let serial := s.nextSerial
            let t := { s.toTables with nextSerial := serial + 1 }
            let family := fun keep => Event.spawned ⟨pid, proc.serial⟩ ⟨child, serial⟩ keep
            match mode with
            | .keepStack =>
                let tss := proc.usermodeState.setRetval 0
                let t := (t.modify pid (Process.keepStack s.mem)).setProcess child
                  (some (childProcess proc pid serial tss))
                .ok ({ s with
                  toTables := t.note (family true), currentProcess := child }, child)
            | .newThread code data =>
                let (tss, m) := threadStart place child code data proc.usermodeState s.mem
                let t := t.setProcess child (some (childProcess proc pid serial tss))
                .ok ({ s with
                  toTables := t.note (family false), currentProcess := child, mem := m }, child)

end SysImpl.Kernel
