import SysImpl.Kernel.Console
import SysImpl.Kernel.Process

/-! The blocking devices: `BlockInputDeviceWrapper` over each of the input devices.

A read that would block puts its request in the queue of the device and the process to
sleep. `check` polls the device and serves the queue from its head, with the process of
the request as the current one; what it serves may queue itself again. -/

namespace SysImpl.Kernel

open Bytes

def Console.line (s : State) : Console → LineBuffer
  | .serialIo => s.com1
  | .vgaText => s.con

def Console.setLine (s : State) (line : LineBuffer) : Console → State
  | .serialIo => { s with com1 := line }
  | .vgaText => { s with con := line }

def readConsole (s : State) (console : Console) (buffer size : Nat) : State × Int :=
  let (ret, bytes, line, hw) := readLine console size (console.line s) s.hw
  (console.setLine { s with hw := hw, mem := copyTo s.mem buffer bytes } line, ret)

def readProcessWait (s : State) (buffer size : Nat) : State × Int :=
  let req := s.reqs s.currentProcess
  if req.pid ≠ 0 then (s, eagain)
  else if size = 4 then ({ s with mem := copyTo s.mem buffer (bytes32 req.status) }, 4)
  else (s, einval)

def readSleepDevice (s : State) : State × Int :=
  let s := { s with hw := s.hw.arrive }
  if s.hw.pitTicks < s.processSleepUntil s.currentProcess then (s, eagain) else (s, 0)

def readSemaphore (s : State) (slot : Slot) (cnt : Int) (size : Nat) : State × Int :=
  if cnt ≤ 0 then (s, eagain)
  else if size ≠ 0 then
    ({ s with toTables := s.toTables.modifyDevice slot fun device =>
        { device with input := .semaphore (cnt - 1) } }, 0)
  else (s, 0)

/-- `input->read(buffer, size)` for the device in a slot. -/
def inputRead (s : State) (slot : Slot) (input : Input) (buffer size : Nat) : State × Int :=
  match input with
  | .serialIo => readConsole s .serialIo buffer size
  | .vgaText => readConsole s .vgaText buffer size
  | .processWait => readProcessWait s buffer size
  | .sleepDevice => readSleepDevice s
  | .semaphore cnt => readSemaphore s slot cnt size

def maxPending : Nat := 32

def doRead (s : State) (slot : Slot) (p : ProcPtr) (buffer size : Nat) :
    Except Stop (State × Int) :=
  match s.devices slot with
  | none => .error .danglingPointer
  | some device =>
      let (s, ret) := inputRead s slot device.input buffer size
      if ret = eagain then
        if device.pendingRequest.length < maxPending then
          let t := s.toTables.modifyDevice slot fun device =>
            { device with pendingRequest := device.pendingRequest ++ [⟨p, buffer, size⟩] }
          .ok ({ s with
            toTables := t.modify p.pid (Process.setProcessState .sleeping) }, ret)
        else .error .queueOverrun
      else
        let data := loadWrap s.mem buffer ret.toNat
        .ok (s.note (.completed device.serial p size ret data), ret)

def readDevice (s : State) (slot : Slot) (buffer size : Nat) : Except Stop (State × Int) :=
  match s.processList s.currentProcess, s.devices slot with
  | some proc, some device =>
      let p : ProcPtr := ⟨s.currentProcess, proc.serial⟩
      doRead (s.note (.issued device.serial p size)) slot p buffer size
  | _, _ => .error .danglingPointer

/-- The body of the loop of `check`, for the request at the index the loop stands at. -/
def serve (s : State) (slot : Slot) (now : PendingRead) : Except Stop State :=
  match s.toTables.find now.proc with
  | none => .error .danglingPointer
  | some _ =>
      let t := s.toTables.modify now.proc.pid (Process.setProcessState .runnable)
      let s := { s with toTables := t, currentProcess := now.proc.pid }
      match doRead s slot now.proc now.buffer now.size with
      | .error stop => .error stop
      | .ok (s, ret) =>
          .ok { s with toTables := s.toTables.modify now.proc.pid (Process.setRetval ret) }

/-- The loop of `check`, from an index on. The array has no more than `maxPending`
entries, so the loop ends within that many rounds. -/
def checkLoop (slot : Slot) : Nat → Nat → State → Except Stop (State × Nat)
  | 0, ind, s => .ok (s, ind)
  | fuel + 1, ind, s =>
      match s.devices slot with
      | none => .error .danglingPointer
      | some device =>
          match device.pendingRequest[ind]? with
          | none => .ok (s, ind)
          | some now =>
              let (s, ret) := inputRead s slot device.input 0 0
              if ret = eagain then .ok (s, ind)
              else
                match serve s slot now with
                | .error stop => .error stop
                | .ok s => checkLoop slot fuel (ind + 1) s

def check (s : State) (slot : Slot) : Except Stop State :=
  match checkLoop slot maxPending 0 s with
  | .error stop => .error stop
  | .ok (s', ind) =>
      .ok { s' with
        toTables := s'.toTables.modifyDevice slot fun device =>
          { device with pendingRequest := device.pendingRequest.drop ind }
        currentProcess := s.currentProcess }

/-- When interrupts arrive during a system call: while its handler runs, right before the
check of each device, during that check, and on the way back to user mode. -/
structure Arrivals where
  handler : List (List Irq)
  before : Slot → List Irq
  during : Slot → List (List Irq)
  leaving : List Irq

def Hardware.expect (hw : Hardware) (incoming : List (List Irq)) : Hardware :=
  { hw with incoming := incoming }

def checkSlot (arrivals : Arrivals) (s : State) (slot : Slot) : Except Stop State :=
  let s := { s with hw := (s.hw.interrupts (arrivals.before slot)).expect (arrivals.during slot) }
  match s.devices slot with
  | none => .ok s
  | some _ => check s slot

def checkAll (arrivals : Arrivals) (s : State) : Except Stop State :=
  (List.finRange 64).foldlM (checkSlot arrivals) s

end SysImpl.Kernel
