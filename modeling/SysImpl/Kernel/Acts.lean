import SysImpl.Kernel.Syscall

/-! The acts the kernel is made of.

Every path through the kernel changes the tables by a sequence of a few kinds of acts.
What each act can do is said here once, guards included; the invariants are proved for
each kind of act and hold along every sequence of them. -/

namespace SysImpl.Kernel

open Bytes Runs

def Tables.pendingAt (t : Tables) (slot : Slot) : List PendingRead :=
  ((t.devices slot).map Device.pendingRequest).getD []

def Process.wake (proc : Process) : Process :=
  if proc.stackBackup.isSome then proc.clearBackup else proc

def Tables.wakeParent (t : Tables) : Option Pid → Tables
  | none => t
  | some parent => t.modify parent Process.wake

@[simp] theorem wakeParent_devices (t : Tables) (ppid : Option Pid) :
    (t.wakeParent ppid).devices = t.devices := by
  cases ppid with
  | none => rfl
  | some parent => rfl

@[simp] theorem wakeParent_reqs (t : Tables) (ppid : Option Pid) :
    (t.wakeParent ppid).reqs = t.reqs := by
  cases ppid with
  | none => rfl
  | some parent => rfl

@[simp] theorem wakeParent_lastExitCode (t : Tables) (ppid : Option Pid) :
    (t.wakeParent ppid).lastExitCode = t.lastExitCode := by
  cases ppid with
  | none => rfl
  | some parent => rfl

@[simp] theorem wakeParent_nextSerial (t : Tables) (ppid : Option Pid) :
    (t.wakeParent ppid).nextSerial = t.nextSerial := by
  cases ppid with
  | none => rfl
  | some parent => rfl

@[simp] theorem wakeParent_log (t : Tables) (ppid : Option Pid) :
    (t.wakeParent ppid).log = t.log := by
  cases ppid with
  | none => rfl
  | some parent => rfl

@[simp] theorem processExit_processList (t : Tables) (pid : Pid) (status : Nat) :
    (t.processExit pid status).processList = t.processList := rfl

@[simp] theorem processExit_devices (t : Tables) (pid : Pid) (status : Nat) :
    (t.processExit pid status).devices = t.devices := rfl

@[simp] theorem processExit_nextSerial (t : Tables) (pid : Pid) (status : Nat) :
    (t.processExit pid status).nextSerial = t.nextSerial := rfl

@[simp] theorem processExit_log (t : Tables) (pid : Pid) (status : Nat) :
    (t.processExit pid status).log = t.log := rfl

def Device.setInput (input : Input) (device : Device) : Device := { device with input := input }

def Device.setPending (pending : List PendingRead) (device : Device) : Device :=
  { device with pendingRequest := pending }

def Process.setTss (f : Tss → Tss) (proc : Process) : Process :=
  { proc with usermodeState := f proc.usermodeState }

def ReadSpec (t : Tables) (pid : Pid) (size : Nat) (ret : Int) (data : List UInt8) :
    Input → Input → Prop
  | .serialIo, after => after = .serialIo ∧ 0 ≤ ret
  | .vgaText, after => after = .vgaText ∧ 0 ≤ ret
  | .processWait, after => after = .processWait ∧ (t.reqs pid).pid = 0 ∧
      (size = 4 ∧ ret = 4 ∧ data = bytes32 (t.reqs pid).status ∨ size ≠ 4 ∧ ret = einval)
  | .sleepDevice, after => after = .sleepDevice ∧ ret = 0
  | .semaphore cnt, after =>
      0 < cnt ∧ ret = 0 ∧ after = .semaphore (if size = 0 then cnt else cnt - 1)

theorem ReadSpec.not_eagain {t : Tables} {pid : Pid} {size : Nat} {ret : Int}
    {data : List UInt8} {input after : Input} (spec : ReadSpec t pid size ret data input after) :
    ret ≠ eagain := by
  intro blocked
  subst blocked
  cases input with
  | serialIo => exact absurd spec.2 (by decide)
  | vgaText => exact absurd spec.2 (by decide)
  | processWait =>
      rcases spec.2.2 with ⟨_, four, _⟩ | ⟨_, invalid⟩
      · exact four_ne_eagain four.symm
      · exact einval_ne_eagain invalid.symm
  | sleepDevice => exact zero_ne_eagain spec.2.symm
  | semaphore cnt => exact zero_ne_eagain spec.2.1.symm

theorem ReadSpec.same_input {t : Tables} {pid : Pid} {size : Nat} {ret : Int} {data : List UInt8}
    {device : Device} {after : Input} (spec : ReadSpec t pid size ret data device.input after)
    (kind : device.isSemaphore = false) : after = device.input := by
  cases equal : device.input with
  | serialIo => rw [equal] at spec; exact spec.1
  | vgaText => rw [equal] at spec; exact spec.1
  | processWait => rw [equal] at spec; exact spec.1
  | sleepDevice => rw [equal] at spec; exact spec.1
  | semaphore cnt => simp [Device.isSemaphore, equal] at kind

def BlockSpec : Input → Prop
  | .semaphore cnt => cnt ≤ 0
  | _ => True

def AwaitSpec (t : Tables) (target : Nat) (req : WaitReq) : Prop :=
  if inside : target < 32 then
    req = if (t.processList ⟨target, inside⟩).isSome then ⟨target, 0⟩
      else ⟨0, t.lastExitCode ⟨target, inside⟩⟩
  else req.pid = target ∨ req.pid = 0

inductive Label where
  | regs (pid : Pid)
  | enter (p : ProcPtr)
  | attach (pid : Pid)
  | detach (pid : Pid)
  | await (p : ProcPtr)
  | signal (slot : Slot)
  | newSem (slot : Slot)
  | spawn (parent child : ProcPtr) (keepStack : Bool)
  | kill (p : ProcPtr)
  | image (p : ProcPtr)
  | done (slot : Slot) (p : ProcPtr) (ret : Int)
  | block (slot : Slot) (p : ProcPtr)
  | serve (slot : Slot) (p : ProcPtr) (ret : Int)
  | requeue (slot : Slot) (p : ProcPtr)

def Tables.Awake (t : Tables) (pid : Pid) (proc : Process) : Prop :=
  t.processList pid = some proc ∧ proc.processState = .runnable

inductive Act : Tables → Label → Tables → Prop
  | regs (t : Tables) (pid : Pid) (f : Tss → Tss) :
      Act t (.regs pid) (t.modify pid (Process.setTss f))
  | enter {t : Tables} {pid : Pid} {proc : Process} (awake : t.Awake pid proc) :
      Act t (.enter ⟨pid, proc.serial⟩) (t.note (.entered ⟨pid, proc.serial⟩))
  | attach {t : Tables} {pid : Pid} {proc : Process} {pos : Fd} {obj : Object}
      (awake : t.Awake pid proc) (empty : proc.objects pos = none)
      (present : ∀ slot, obj = .device slot → (t.devices slot).isSome) :
      Act t (.attach pid) (t.modify pid (Process.bind pos (some obj)))
  | detach {t : Tables} {pid : Pid} {proc : Process} (pos : Fd) (awake : t.Awake pid proc) :
      Act t (.detach pid) (t.removeObject pid pos)
  | await {t : Tables} {pid : Pid} {proc : Process} {target : Nat} {req : WaitReq}
      (awake : t.Awake pid proc) (spec : AwaitSpec t target req) :
      Act t (.await ⟨pid, proc.serial⟩)
        (({ t with reqs := Function.update t.reqs pid req } : Tables).note
          (.awaited ⟨pid, proc.serial⟩ target))
  | signal {t : Tables} {slot : Slot} {device : Device} {cnt : Int}
      (found : t.devices slot = some device) (kind : device.input = .semaphore cnt) :
      Act t (.signal slot)
        ((t.modifyDevice slot (Device.setInput (.semaphore (wrapInt (cnt + 1))))).note
          (.signalled device.serial))
  | newSem {t : Tables} {slot : Slot} (cnt : Int) (free : t.devices slot = none) :
      Act t (.newSem slot) (t.newSemaphore slot cnt)
  | fork {t : Tables} {pid : Pid} {proc : Process} {child : Pid} (m : Mem)
      (awake : t.Awake pid proc) (free : t.processList child = none) :
      Act t (.spawn ⟨pid, proc.serial⟩ ⟨child, t.nextSerial⟩ true)
        (((({ t with nextSerial := t.nextSerial + 1 } : Tables).modify pid
          (Process.keepStack m)).setProcess child
            (some (childProcess proc pid t.nextSerial (proc.usermodeState.setRetval 0)))).note
              (.spawned ⟨pid, proc.serial⟩ ⟨child, t.nextSerial⟩ true))
  | thread {t : Tables} {pid : Pid} {proc : Process} {child : Pid} (tss : Tss)
      (awake : t.Awake pid proc) (free : t.processList child = none) :
      Act t (.spawn ⟨pid, proc.serial⟩ ⟨child, t.nextSerial⟩ false)
        ((({ t with nextSerial := t.nextSerial + 1 } : Tables).setProcess child
          (some (childProcess proc pid t.nextSerial tss))).note
            (.spawned ⟨pid, proc.serial⟩ ⟨child, t.nextSerial⟩ false))
  | kill {t : Tables} {pid : Pid} {proc : Process} (code : Nat) (awake : t.Awake pid proc) :
      Act t (.kill ⟨pid, proc.serial⟩)
        ((((t.setProcess pid none).note (.exited ⟨pid, proc.serial⟩ code)).wakeParent
          proc.ppid).processExit pid code)
  | image {t : Tables} {pid : Pid} {proc : Process} (awake : t.Awake pid proc) :
      Act t (.image ⟨pid, proc.serial⟩)
        ((t.note (.execed ⟨pid, proc.serial⟩)).wakeParent proc.ppid)
  | done {t : Tables} {pid : Pid} {proc : Process} {slot : Slot} {device : Device}
      {size : Nat} {ret : Int} {data : List UInt8} {input : Input} (awake : t.Awake pid proc)
      (found : t.devices slot = some device)
      (spec : ReadSpec t pid size ret data device.input input) :
      Act t (.done slot ⟨pid, proc.serial⟩ ret)
        (((t.note (.issued device.serial ⟨pid, proc.serial⟩ size)).modifyDevice slot
          (Device.setInput input)).note
            (.completed device.serial ⟨pid, proc.serial⟩ size ret data))
  | block {t : Tables} {pid : Pid} {proc : Process} {slot : Slot} {device : Device} {pos : Fd}
      (buffer : Nat) {size : Nat} (awake : t.Awake pid proc) (found : t.devices slot = some device)
      (held : proc.objects pos = some (.device slot)) (spec : BlockSpec device.input) :
      Act t (.block slot ⟨pid, proc.serial⟩)
        (((t.note (.issued device.serial ⟨pid, proc.serial⟩ size)).modifyDevice slot
          (Device.setPending (device.pendingRequest ++ [⟨⟨pid, proc.serial⟩, buffer, size⟩]))).modify
            pid (Process.setProcessState .sleeping))
  | serve {t : Tables} {slot : Slot} {device : Device} {now : PendingRead}
      {rest : List PendingRead} {ret : Int} {data : List UInt8} {input : Input}
      (found : t.devices slot = some device) (queue : device.pendingRequest = now :: rest)
      (spec : ReadSpec t now.proc.pid now.size ret data device.input input) :
      Act t (.serve slot now.proc ret)
        ((((t.modify now.proc.pid (Process.setProcessState .runnable)).modifyDevice slot
          fun device => (device.setInput input).setPending rest).note
            (.completed device.serial now.proc now.size ret data)).modify now.proc.pid
              (Process.setRetval ret))
  | requeue {t : Tables} {slot : Slot} {device : Device} {now : PendingRead}
      {rest : List PendingRead} (found : t.devices slot = some device)
      (queue : device.pendingRequest = now :: rest) (kind : device.isSemaphore = false) :
      Act t (.requeue slot now.proc)
        (((t.modifyDevice slot (Device.setPending (rest ++ [now]))).modify now.proc.pid
          (Process.setProcessState .sleeping)).modify now.proc.pid (Process.setRetval eagain))

end SysImpl.Kernel
