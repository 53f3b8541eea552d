import SysImpl.Kernel.Polls
import SysImpl.Kernel.Steps
import Mathlib.Data.Fintype.Card

/-! The arrays of pending requests are never overrun.

At most 31 processes can wait, since the idle process does not read. A check appends to
the array it goes over, but when it does, the next poll is made for the process that was
just found not ready, and ends the loop. -/

namespace SysImpl.Kernel

open Bytes Runs

variable {t t' : Tables} {slot : Slot} {device : Device}

/-- The idle process waits for nothing. -/
def IdleAway (t : Tables) : Prop := ∀ slot, ∀ req ∈ t.pendingAt slot, req.proc.pid ≠ 0

theorem Queues.pids_nodup (queues : Queues t) (slot : Slot) :
    ((t.pendingAt slot).map fun req => req.proc.pid).Nodup := by
  have procs := queues.nodup slot
  rw [show (fun req : PendingRead => req.proc.pid) = ProcPtr.pid ∘ PendingRead.proc from rfl,
    ← List.map_map]
  apply procs.map_on
  intro p member q member' same
  obtain ⟨req, here, rfl⟩ := List.mem_map.mp member
  obtain ⟨req', there, rfl⟩ := List.mem_map.mp member'
  exact queues.same_proc here there same

theorem Queues.length_lt (queues : Queues t) (away : IdleAway t) (slot : Slot) :
    (t.pendingAt slot).length < maxPending := by
  have distinct : ((0 : Pid) :: (t.pendingAt slot).map fun req => req.proc.pid).Nodup := by
    apply List.Nodup.cons _ (queues.pids_nodup slot)
    intro member
    obtain ⟨req, here, zero⟩ := List.mem_map.mp member
    exact away slot req here zero
  have bound := distinct.length_le_card
  simp only [List.length_cons, List.length_map, Fintype.card_fin] at bound
  exact bound

/-- When a read blocks right after the poll of a check has passed, the next poll fails. -/
theorem poll_after_blocked {s s1 s2 : State} {input : Input} {buffer size : Nat}
    (quiet : s.hw.Quiet) (passed : (inputRead s slot input 0 0).2 ≠ eagain)
    (lines : s1.com1 = (inputRead s slot input 0 0).1.com1 ∧
      s1.con = (inputRead s slot input 0 0).1.con)
    (hw1 : s1.hw = (inputRead s slot input 0 0).1.hw)
    (blocked : (inputRead s1 slot input buffer size).2 = eagain)
    (hw2 : s2.hw = (inputRead s1 slot input buffer size).1.hw)
    (current : s2.currentProcess = s1.currentProcess) (reqs : s2.reqs = s1.reqs)
    (wake : s2.processSleepUntil = s1.processSleepUntil) :
    (inputRead s2 slot input 0 0).2 = eagain := by
  cases input with
  | serialIo =>
      simp only [inputRead, readConsole, Console.line] at passed lines blocked
      rw [lines.1] at blocked
      exact absurd blocked (readLine_after_poll _ _ passed)
  | vgaText =>
      simp only [inputRead, readConsole, Console.line] at passed lines blocked
      rw [lines.2] at blocked
      exact absurd blocked (readLine_after_poll _ _ passed)
  | processWait =>
      simp only [inputRead, readProcessWait, current, reqs] at blocked ⊢
      by_cases busy : (s1.reqs s1.currentProcess).pid ≠ 0
      · rw [if_pos busy]
      · rw [if_neg busy] at blocked
        split at blocked
        · exact absurd blocked four_ne_eagain
        · exact absurd blocked einval_ne_eagain
  | sleepDevice =>
      have quiet1 : s1.hw.Quiet := by
        rw [hw1]
        exact quiet_kept.inputRead quiet slot _ _ _
      have hw2' : s2.hw = s1.hw.arrive := by
        rw [hw2]
        simp only [inputRead, readSleepDevice]
        split
        · rfl
        · rfl
      simp only [inputRead, readSleepDevice, current, wake, hw2', 
        (quiet_kept.arrive _ quiet1).arrive_ticks]
      simp only [inputRead, readSleepDevice] at blocked
      by_cases early : s1.hw.arrive.pitTicks < s1.processSleepUntil s1.currentProcess
      · rw [if_pos early]
      · rw [if_neg early] at blocked
        exact absurd blocked zero_ne_eagain
  | semaphore cnt =>
      simp only [inputRead, readSemaphore] at passed blocked
      by_cases empty : cnt ≤ 0
      · rw [if_pos empty] at passed
        exact absurd rfl passed
      · rw [if_neg empty] at blocked
        split at blocked
        · exact absurd blocked zero_ne_eagain
        · exact absurd blocked zero_ne_eagain

theorem inputRead_wake (s : State) (slot : Slot) (input : Input) (buffer size : Nat) :
    (inputRead s slot input buffer size).1.processSleepUntil = s.processSleepUntil := by
  cases input with
  | serialIo => rfl
  | vgaText => rfl
  | processWait =>
      simp only [inputRead, readProcessWait]
      split
      · rfl
      · split
        · rfl
        · rfl
  | sleepDevice =>
      simp only [inputRead, readSleepDevice]
      split
      · rfl
      · rfl
  | semaphore cnt =>
      simp only [inputRead, readSemaphore]
      split
      · rfl
      · split
        · rfl
        · rfl

theorem checkLoop_closed {s : State} (found : s.devices slot = some device)
    (closed : (inputRead s slot device.input 0 0).2 = eagain) (fuel ind : Nat) :
    checkLoop slot fuel ind s ≠ .error .queueOverrun := by
  cases fuel with
  | zero => simp [checkLoop]
  | succ fuel =>
      simp only [checkLoop, found, closed, if_true]
      split
      · simp
      · simp

/-- A check that starts with a place left in the array does not overrun it: it appends
at most once, and then stops. -/
theorem checkLoop_room (fuel ind : Nat) {s : State} (quiet : s.hw.Quiet)
    (found : s.devices slot = some device) (room : device.pendingRequest.length < maxPending) :
    checkLoop slot fuel ind s ≠ .error .queueOverrun := by
  induction fuel generalizing ind s device with
  | zero => simp [checkLoop]
  | succ fuel ih =>
      simp only [checkLoop, found]
      cases next : device.pendingRequest[ind]? with
      | none => simp
      | some now =>
          by_cases closed : (inputRead s slot device.input 0 0).2 = eagain
          · simp [closed]
          · simp only [if_neg closed, serve]
            have tables := poll_tables found
            have quiet0 := quiet_kept.inputRead quiet slot device.input 0 0
            generalize polled : (inputRead s slot device.input 0 0).1 = s0 at tables quiet0 ⊢
            cases alive : s0.toTables.find now.proc with
            | none => simp
            | some proc =>
                dsimp only
                generalize woken : ({ s0 with
                  toTables := s0.toTables.modify now.proc.pid (Process.setProcessState .runnable)
                  currentProcess := now.proc.pid } : State) = s1
                have found1 : s1.devices slot = some device := by
                  rw [← woken]
                  simp only [modify_devices, tables]
                  exact found
                have hw1 : s1.hw = s0.hw := by rw [← woken]
                simp only [doRead, found1]
                obtain ⟨current, spec⟩ := inputRead_spec found1 now.buffer now.size
                rcases spec with ⟨blocked, same, _⟩ | ⟨passed, input, after, _⟩
                · simp only [blocked, if_true, if_pos room]
                  apply checkLoop_closed
                  · simp only [modify_devices, same, modifyDevice_devices, if_true, found1,
                      Option.map_some]
                    rfl
                  · apply poll_after_blocked quiet closed _ _ blocked
                    · rfl
                    · exact current
                    · simp only [modify_reqs, modifyDevice_reqs, same]
                    · exact inputRead_wake s1 slot device.input now.buffer now.size
                    · rw [polled, ← woken]
                      exact ⟨rfl, rfl⟩
                    · rw [polled]
                      exact hw1
                · simp only [if_neg passed]
                  have found2 : ((inputRead s1 slot device.input now.buffer now.size).1.devices
                      slot) = some (device.setInput input) := by
                    simp only [after, modifyDevice_devices, if_true, found1, Option.map_some]
                  refine ih _ ?_ found2 room
                  refine quiet_kept.inputRead ?_ slot device.input now.buffer now.size
                  rw [hw1]
                  exact quiet0

def Input.kind : Input → Input
  | .semaphore _ => .semaphore 0
  | input => input

theorem ReadSpec.same_kind {pid : Pid} {size : Nat} {ret : Int} {data : List UInt8}
    {input after : Input} (spec : ReadSpec t pid size ret data input after) :
    after.kind = input.kind := by
  cases input with
  | serialIo => rw [spec.1]
  | vgaText => rw [spec.1]
  | processWait => rw [spec.1]
  | sleepDevice => rw [spec.1]
  | semaphore cnt =>
      rw [spec.2.2]
      rfl

def Tables.Queued (t : Tables) (slot : Slot) (kind : Input) (req : PendingRead) : Prop :=
  ∃ device, t.devices slot = some device ∧ device.input.kind = kind ∧ req ∈ device.pendingRequest

theorem Tables.Queued.of_modifyDevice {other : Slot} {kind : Input} {req : PendingRead}
    {f : Device → Device} (queued : (t.modifyDevice other f).Queued slot kind req)
    (keeps : ∀ device, t.devices other = some device →
      (f device).input.kind = device.input.kind ∧
        (req ∈ (f device).pendingRequest → req ∈ device.pendingRequest)) :
    t.Queued slot kind req := by
  obtain ⟨device, found, same, member⟩ := queued
  rw [modifyDevice_devices] at found
  by_cases here : slot = other
  · rw [if_pos here] at found
    obtain ⟨before, known, rfl⟩ := Option.map_eq_some_iff.mp found
    obtain ⟨kinds, requests⟩ := keeps before (here ▸ known)
    exact ⟨before, known, kinds.symm.trans same, requests member⟩
  · rw [if_neg here] at found
    exact ⟨device, found, same, member⟩

theorem Act.queued_before {label : Label} {kind : Input} {req : PendingRead} (act : Act t label t')
    (queued : t'.Queued slot kind req) :
    t.Queued slot kind req ∨ label = .block slot req.proc ∧
      ∃ device, t.devices slot = some device ∧ device.input.kind = kind := by
  cases act with
  | regs => exact Or.inl queued
  | enter => exact Or.inl queued
  | attach => exact Or.inl queued
  | @detach pid proc pos awake =>
      apply Or.inl
      cases held : proc.objects pos with
      | none =>
          simp only [Tables.removeObject, awake.1, held] at queued
          exact queued
      | some obj =>
          simp only [Tables.removeObject, awake.1, held] at queued
          cases obj with
          | file id => exact queued
          | segment base size => exact queued
          | device other =>
              have kept : (t.onRemovedByOwner ⟨pid, proc.serial⟩
                  (.device other)).Queued slot kind req → t.Queued slot kind req := by
                intro queued
                apply queued.of_modifyDevice
                intro device _
                exact ⟨rfl, fun erased => List.mem_of_mem_eraseP erased⟩
              apply kept
              simp only [Tables.dropReference] at queued
              split at queued
              · obtain ⟨device, found, same, member⟩ := queued
                by_cases here : slot = other
                · simp [here] at found
                · rw [setDevice_devices, Function.update_of_ne here] at found
                  exact ⟨device, found, same, member⟩
              · exact queued
  | await => exact Or.inl queued
  | @signal other device cnt found semaphore =>
      refine Or.inl (Tables.Queued.of_modifyDevice (t := t) (f := Device.setInput _) queued ?_)
      intro device' found'
      have same : device = device' := Option.some.inj (found.symm.trans found')
      rw [← same]
      refine ⟨?_, fun here => here⟩
      rw [semaphore]
      rfl
  | @newSem other cnt free =>
      apply Or.inl
      obtain ⟨device, found, same, member⟩ := queued
      simp only [Tables.newSemaphore, note_devices, setDevice_devices] at found
      by_cases here : slot = other
      · rw [here, Function.update_self, Option.some.injEq] at found
        rw [← found] at member
        cases member
      · rw [Function.update_of_ne here] at found
        exact ⟨device, found, same, member⟩
  | fork => exact Or.inl queued
  | thread => exact Or.inl queued
  | kill code awake =>
      simp only [Tables.Queued, processExit_devices, wakeParent_devices] at queued
      exact Or.inl queued
  | image awake =>
      simp only [Tables.Queued, wakeParent_devices] at queued
      exact Or.inl queued
  | @done pid proc other device size ret data input awake found spec =>
      refine Or.inl (Tables.Queued.of_modifyDevice (t := t.note _) (f := Device.setInput input) queued ?_)
      intro device' found'
      have same : device = device' := Option.some.inj (found.symm.trans found')
      rw [← same]
      exact ⟨spec.same_kind, fun here => here⟩
  | @block pid proc other device pos buffer size awake found held spec =>
      obtain ⟨after, known, same, member⟩ := queued
      simp only [modify_devices, modifyDevice_devices, note_devices] at known
      by_cases here : slot = other
      · subst here
        rw [if_pos rfl, found, Option.map_some, Option.some.injEq] at known
        rw [← known] at same member
        rcases List.mem_append.mp member with old | new
        · exact Or.inl ⟨device, found, same, old⟩
        · rw [List.mem_singleton.mp new]
          exact Or.inr ⟨rfl, device, found, same⟩
      · rw [if_neg here] at known
        exact Or.inl ⟨after, known, same, member⟩
  | @serve other device now rest ret data input found queue spec =>
      refine Or.inl (Tables.Queued.of_modifyDevice (t := t.modify _ _)
        (f := fun device => (device.setInput input).setPending rest) queued ?_)
      intro device' found'
      have same : device = device' := Option.some.inj (found.symm.trans found')
      rw [← same, queue]
      exact ⟨spec.same_kind, fun here => List.mem_cons_of_mem _ here⟩
  | @requeue other device now rest found queue semaphore =>
      refine Or.inl (Tables.Queued.of_modifyDevice (t := t)
        (f := Device.setPending (rest ++ [now])) queued ?_)
      intro device' found'
      have same : device = device' := Option.some.inj (found.symm.trans found')
      rw [← same, queue]
      refine ⟨rfl, fun here => ?_⟩
      rcases List.mem_append.mp here with old | new
      · exact List.mem_cons_of_mem _ old
      · rw [List.mem_singleton.mp new]
        exact List.mem_cons_self

theorem pendingAt_queued {req : PendingRead} :
    req ∈ t.pendingAt slot ↔ ∃ kind, t.Queued slot kind req := by
  constructor
  · intro member
    cases found : t.devices slot with
    | none => simp [Tables.pendingAt, found] at member
    | some device =>
        rw [pendingAt_of_some found] at member
        exact ⟨device.input.kind, device, found, rfl, member⟩
  · rintro ⟨kind, device, found, _, member⟩
    rw [pendingAt_of_some found]
    exact member

theorem Act.pending_mem {label : Label} {req : PendingRead} (act : Act t label t')
    (member : req ∈ t'.pendingAt slot) :
    req ∈ t.pendingAt slot ∨ label = .block slot req.proc := by
  obtain ⟨kind, queued⟩ := pendingAt_queued.mp member
  rcases act.queued_before queued with before | ⟨blocks, _⟩
  · exact Or.inl (pendingAt_queued.mpr ⟨kind, before⟩)
  · exact Or.inr blocks

theorem IdleAway.run {kind : Label → Prop} (away : IdleAway t)
    (elsewhere : ∀ slot p, kind (.block slot p) → p.pid ≠ 0) (run : RunOf Act kind t t') :
    IdleAway t' := by
  apply run.invariant IdleAway away
  intro mid label next fits away act slot req member
  rcases act.pending_mem member with old | blocks
  · exact away slot req old
  · rw [blocks] at fits
    exact elsewhere slot req.proc fits

def Arrivals.Still (arrivals : Arrivals) : Prop :=
  ∀ slot, ∀ batch ∈ arrivals.during slot, Irq.tick ∉ batch

theorem checkSlot_room {arrivals : Arrivals} {s : State} (still : arrivals.Still)
    (queues : Queues s.toTables) (away : IdleAway s.toTables) :
    checkSlot arrivals s slot ≠ .error .queueOverrun := by
  simp only [checkSlot]
  split
  · simp
  · next device found =>
      have room : device.pendingRequest.length < maxPending := by
        rw [← pendingAt_of_some found]
        exact queues.length_lt away slot
      have bound := checkLoop_room maxPending 0 (s := { s with
        hw := (s.hw.interrupts (arrivals.before slot)).expect (arrivals.during slot) })
        (still slot) found room
      simp only [check]
      split
      · next stop failed =>
          intro overrun
          rw [Except.error.inj overrun] at failed
          exact bound failed
      · simp

theorem checkSlots_room {arrivals : Arrivals} {slots : List Slot} {s : State}
    (still : arrivals.Still) (queues : Queues s.toTables) (away : IdleAway s.toTables) :
    slots.foldlM (checkSlot arrivals) s ≠ .error .queueOverrun := by
  induction slots generalizing s with
  | nil =>
      intro overrun
      cases overrun
  | cons slot rest ih =>
      rw [List.foldlM_cons]
      cases first : checkSlot arrivals s slot with
      | error stop =>
          intro overrun
          have same : stop = .queueOverrun := Except.error.inj overrun
          rw [same] at first
          exact checkSlot_room still queues away first
      | ok mid =>
          have acts := (checkSlot_acts first).1
          apply ih (queues.run acts)
          apply away.run _ acts
          intro slot p blocks
          exact blocks.elim

theorem resche_error {s : State} {stop : Stop} (failed : resche s = .error stop) :
    stop = .initTask := by
  simp only [resche] at failed
  split at failed
  · exact (Except.error.inj failed).symm
  · cases failed

theorem leave_room (s : State) (trap : Trap) :
    (leaveHook s trap).map leaveKernelMode ≠ .error .queueOverrun := by
  intro overrun
  have hooked := map_error overrun
  simp only [leaveHook] at hooked
  split at hooked
  · cases resche_error hooked
  · cases hooked

theorem finishCall_room (s : State) (pid : Pid) (ret : Int) :
    finishCall s pid ret ≠ .error .queueOverrun := by
  intro overrun
  simp only [finishCall] at overrun
  split at overrun
  · cases resche_error overrun
  · split at overrun
    · cases resche_error overrun
    · cases overrun

theorem execv_room (fs : FileSystem) (place : Placement) (s : State) (pid : Pid)
    (path : List UInt8) (call : ExecCall) (around : Surroundings) :
    execv fs place s pid path call around ≠ .error .queueOverrun := by
  intro overrun
  simp only [execv] at overrun
  split at overrun
  · cases overrun
  · split at overrun
    · split at overrun
      · split at overrun
        · split at overrun
          · split at overrun
            · cases overrun
            · split at overrun
              · next stop failed =>
                  rw [Except.error.inj overrun] at failed
                  simp only [exec] at failed
                  split at failed
                  · split at failed
                    · split at failed
                      · cases failed
                      · cases failed
                    · cases failed
                  · cases failed
              · cases overrun
              · cases overrun
          · cases overrun
        · cases overrun
      · cases overrun
    · cases overrun

theorem getObject_room {proc : Process} {fd : Nat} {stop : Stop}
    (failed : getObject proc fd = .error stop) : stop = .indexOutOfRange := by
  simp only [getObject] at failed
  split at failed
  · cases failed
  · exact (Except.error.inj failed).symm

theorem readDevice_room {s : State} (buffer size : Nat)
    (room : ∀ device, s.devices slot = some device →
      device.pendingRequest.length < maxPending) :
    readDevice s slot buffer size ≠ .error .queueOverrun := by
  simp only [readDevice]
  split
  · next proc device _ found =>
      have here : (s.note (.issued device.serial ⟨s.currentProcess, proc.serial⟩ size)).devices
          slot = some device := found
      simp only [doRead, here, if_pos (room device found)]
      split
      · simp
      · simp
  · simp

def Stop.plain : Stop → Bool
  | .danglingPointer => true
  | .assertionFailed => true
  | .uncaughtException => true
  | .initTask => true
  | _ => false

theorem clone_plain {place : Placement} {s : State} {pid : Pid} {mode : CloneMode} {stop : Stop}
    (failed : clone place s pid mode = .error stop) : stop.plain := by
  rcases clone_error failed with rfl | rfl | rfl
  · rfl
  · rfl
  · rfl

/-- How a handler stops: in a plain way, or where it looks up its object, reads from a device
or loads a program. -/
theorem applyHandler_error {fs : FileSystem} {place : Placement} {s : State} {trap : Trap}
    {proc : Process} {callsys : Callsys} {stop : Stop}
    (failed : applyHandler fs place s trap proc callsys = .error stop) :
    stop.plain ∨
      (callsys = .read ∨ callsys = .write ∨ callsys = .dup2 ∨ callsys = .readdir) ∧
        getObject proc proc.usermodeState.ebx = .error stop ∨
      callsys = .read ∧ (∃ slot, readDevice s slot proc.usermodeState.ecx
        proc.usermodeState.edx = .error stop) ∨
      callsys = .exec := by
  cases callsys with
  | exit => cases failed
  | fork => exact Or.inl (clone_plain (map_error failed))
  | thread => exact Or.inl (clone_plain (map_error failed))
  | read =>
      simp only [applyHandler, readHandler] at failed
      split at failed
      · next got =>
          rw [← Except.error.inj failed]
          exact Or.inr (Or.inl ⟨Or.inl rfl, got⟩)
      · cases failed
      · next slot _ => exact Or.inr (Or.inr (Or.inl ⟨rfl, slot, failed⟩))
      · cases failed
      · cases failed
  | write =>
      simp only [applyHandler, writeHandler] at failed
      split at failed
      · next got =>
          rw [← Except.error.inj failed]
          exact Or.inr (Or.inl ⟨Or.inr (Or.inl rfl), got⟩)
      · simp only [writeDevice] at failed
        split at failed
        · rw [← Except.error.inj failed]
          exact Or.inl rfl
        · split at failed
          all_goals cases failed
      · cases failed
  | openFile =>
      simp only [applyHandler, openHandler] at failed
      split at failed
      · split at failed
        · cases failed
        · cases failed
      · split at failed
        · cases failed
        · split at failed
          · cases failed
          · cases failed
  | close => cases failed
  | exec => exact Or.inr (Or.inr (Or.inr rfl))
  | dup2 =>
      simp only [applyHandler, dup2Handler] at failed
      split at failed
      · cases failed
      · split at failed
        · next got =>
            rw [← Except.error.inj failed]
            exact Or.inr (Or.inl ⟨Or.inr (Or.inr (Or.inl rfl)), got⟩)
        · cases failed
        · split at failed
          · cases failed
          · cases failed
  | schedYield =>
      apply Or.inl
      rw [resche_error (map_error failed)]
      rfl
  | semCreate =>
      apply Or.inl
      simp only [applyHandler, semCreateHandler] at failed
      split at failed
      · rw [← Except.error.inj failed]
        rfl
      · split at failed
        · rw [← Except.error.inj failed]
          rfl
        · cases failed
  | readdir =>
      simp only [applyHandler, readdirHandler] at failed
      split at failed
      · next got =>
          rw [← Except.error.inj failed]
          exact Or.inr (Or.inl ⟨Or.inr (Or.inr (Or.inr rfl)), got⟩)
      · split at failed
        · cases failed
        · split at failed
          · cases failed
          · cases failed
      · cases failed
  | hlt => cases failed

theorem applyHandler_room {fs : FileSystem} {place : Placement} {s : State} {trap : Trap}
    {proc : Process} {callsys : Callsys}
    (room : ∀ slot device, s.devices slot = some device →
      device.pendingRequest.length < maxPending) :
    applyHandler fs place s trap proc callsys ≠ .error .queueOverrun := by
  intro overrun
  rcases applyHandler_error overrun with plain | ⟨_, got⟩ | ⟨_, slot, read⟩ | rfl
  · cases plain
  · cases getObject_room got
  · exact readDevice_room _ _ (room slot) read
  · exact execv_room _ _ _ _ _ _ _ overrun

theorem bind_error {α β : Type} {first : Except Stop α} {next : α → Except Stop β} {stop : Stop}
    (ran : (first >>= next) = .error stop) :
    first = .error stop ∨ ∃ value, first = .ok value ∧ next value = .error stop := by
  cases first with
  | error other => exact Or.inl (congrArg Except.error (Except.error.inj ran))
  | ok value => exact Or.inr ⟨value, rfl, ran⟩

theorem HltProgram.elsewhere {fs : FileSystem} {s : State} {trap : Trap} {p : ProcPtr} {ret : Int}
    (allowed : HltProgram s trap) (current : p.pid = s.currentProcess) (slot : Slot)
    (q : ProcPtr) (fits : StepLabel p (trapRights fs trap) ret (.block slot q)) : q.pid ≠ 0 := by
  obtain ⟨same, reads, _⟩ := fits.of_block
  intro zero
  have idle : s.currentProcess = 0 := by rw [← current, ← same, zero]
  have call : callsysOf trap.regs.eax = some .read := reads
  rcases allowed idle with other | other | other
  · rw [call] at other; cases other
  · rw [call] at other; cases other
  · rw [call] at other; cases other

theorem IdleAway.boot {fs : FileSystem} {place : Placement} {boot : BootInfo} {s : State}
    (started : enterInit fs place boot = .ok s) : IdleAway s.toTables := by
  obtain ⟨t, acts, tables, _⟩ := enterInit_acts started
  have initial : IdleAway (bootTables boot.lastExitCode) := by
    intro slot req member
    simp [bootTables_pendingAt] at member
  have away : IdleAway t := initial.run (fun slot q fits => fits.2.1.elim) acts
  rw [tables]
  exact away

theorem IdleAway.step {fs : FileSystem} {place : Placement} {s s' : State} {trap : Trap}
    (inv : Inv s) (away : IdleAway s.toTables) (allowed : HltProgram s trap)
    (ran : realSyscallHandler fs place s trap = .ok s') : IdleAway s'.toTables := by
  obtain ⟨proc, ret, _, acts⟩ := step_acts inv ran
  exact away.run (fun slot q fits => allowed.elsewhere rfl slot q fits) acts

theorem realSyscallHandler_room {fs : FileSystem} {place : Placement} {s : State} {trap : Trap}
    (inv : Inv s) (away : IdleAway s.toTables) (allowed : HltProgram s trap)
    (still : trap.arrivals.Still) : realSyscallHandler fs place s trap ≠ .error .queueOverrun := by
  intro overrun
  obtain ⟨proc, awake⟩ := inv.running
  have ready := entered_awake trap awake
  have enter := entered_acts trap awake
  have queues := inv.queues.run enter
  have away' : IdleAway (entered s trap proc).toTables :=
    away.run (fun slot q fits => fits.elim) enter
  have kernel : (enterKernelMode s trap).processList (enterKernelMode s trap).currentProcess =
      some (proc.trapped trap) := ready.1
  simp only [realSyscallHandler, kernel] at overrun
  split at overrun
  · split at overrun
    · exact leave_room _ _ overrun
    · next callsys known =>
        rcases bind_error overrun with failed | ⟨⟨called, ret⟩, applied, overrun⟩
        · refine applyHandler_room ?_ failed
          intro slot device found
          rw [← pendingAt_of_some found]
          exact queues.length_lt away' slot
        · have handler := handler_acts inv awake known applied
          have away'' : IdleAway called.toTables :=
            away'.run (fun slot q fits => allowed.elsewhere rfl slot q (Or.inr (Or.inl fits))) handler
          rcases bind_error overrun with failed | ⟨passed, checked, overrun⟩
          · exact checkSlots_room still (queues.run handler) away'' failed
          · rcases bind_error overrun with failed | ⟨finished, _, overrun⟩
            · exact finishCall_room _ _ _ failed
            · exact leave_room _ _ overrun
  · cases overrun

/-- The queues of pending reads at every return to user mode, and that no step from there
stores past the end of one of their arrays. -/
theorem pending_queues_sound {fs : FileSystem} {place : Placement} {s : State}
    (reachable : Reachable fs place HltProgram s) :
    (∀ (slot other : Slot) (i j : Nat) (req req' : PendingRead), (s.toTables.pendingAt slot)[i]? = some req →
        (s.toTables.pendingAt other)[j]? = some req' → req.proc = req'.proc →
          slot = other ∧ i = j) ∧
    (∀ pid proc, s.processList pid = some proc →
      ((∃ slot, ∃ req ∈ s.toTables.pendingAt slot, req.proc = ⟨pid, proc.serial⟩) ↔
        proc.processState = .sleeping ∧ proc.stackBackup = none)) ∧
    (∀ slot, ∀ req ∈ s.toTables.pendingAt slot, ∃ proc, s.toTables.find req.proc = some proc) ∧
    ∀ trap, HltProgram s trap → trap.arrivals.Still →
      realSyscallHandler fs place s trap ≠ .error .queueOverrun := by
  obtain ⟨inv, away⟩ := reachable.induct (fun s => IdleAway s.toTables)
    (fun boot first started => IdleAway.boot started)
    (fun mid trap next inv away allowed ran => away.step inv allowed ran)
  have queues := inv.queues
  refine ⟨?_, ?_, ?_, ?_⟩
  · intro slot other i j req req' here there same
    have slots : slot = other := queues.apart slot other req (List.mem_of_getElem? here) req'
      (List.mem_of_getElem? there) same
    subst slots
    refine ⟨rfl, ?_⟩
    have first : ((s.toTables.pendingAt slot).map PendingRead.proc)[i]? = some req.proc := by
      rw [List.getElem?_map, here, Option.map_some]
    have second : ((s.toTables.pendingAt slot).map PendingRead.proc)[j]? = some req.proc := by
      rw [List.getElem?_map, there, Option.map_some, same]
    obtain ⟨inside, _⟩ := List.getElem?_eq_some_iff.mp first
    exact (List.getElem?_inj inside (queues.nodup slot)).mp (first.trans second.symm)
  · intro pid proc found
    constructor
    · rintro ⟨slot, req, member, same⟩
      obtain ⟨other, known, life⟩ := queues.queued slot req member
      rw [same, found, Option.some.injEq] at known
      rw [← known] at life
      simp only [Process.life, Prod.mk.injEq] at life
      exact ⟨life.2.1, by simpa using life.2.2⟩
    · rintro ⟨sleeping, backup⟩
      exact queues.waiting pid proc found sleeping (by rw [backup]; rfl)
  · intro slot req member
    obtain ⟨proc, found, life⟩ := queues.queued slot req member
    simp only [Process.life, Prod.mk.injEq] at life
    exact ⟨proc, find_eq_some.mpr ⟨found, life.1⟩⟩
  · intro trap allowed still
    exact realSyscallHandler_room inv away allowed still

instance (s : State) (trap : Trap) : Decidable (HltProgram s trap) :=
  inferInstanceAs (Decidable (_ → _))

/-- A thread waits on the console, and its queue has room for more. -/
theorem pending_queues_sound_waiting : ∃ s, Reachable smallVolume smallPlacement HltProgram s ∧
    (s.toTables.pendingAt 1).length = 1 ∧
    realSyscallHandler smallVolume smallPlacement s (plainCall 3 0 100 1) ≠
      .error .queueOverrun := by
  obtain ⟨s, reachable, waiting, allowed⟩ := smallRun_exists HltProgram
    [plainCall 2 0 0 0, plainCall 202 0 0 0, plainCall 3 0 100 1]
    (fun s => (s.toTables.pendingAt 1).length = 1 ∧ HltProgram s (plainCall 3 0 100 1))
    (by decide +kernel)
  refine ⟨s, reachable, waiting, ?_⟩
  exact (pending_queues_sound reachable).2.2.2 _ allowed (by intro slot batch member; cases member)

end SysImpl.Kernel
