import SysImpl.Kernel.OverlaidCalls

/-! A slot of the process list that is used again.

A process leaves its entry in the arrays of `ProcessWait` and `SleepDevice` behind, and the
processes that survive it keep its slot number as that of their parent. Two runs from states
that differ in nothing else go on alike as long as no such entry is looked at. -/

namespace SysImpl.Kernel

open Bytes Runs

/-- Two states that differ only in the entries of a slot and in the parents of processes. -/
def Alike (i : Pid) (s s' : State) : Prop :=
  ∃ o : Overlay, s' = s.overlay o ∧
    ∀ pid, pid ≠ i → o.reqs pid = s.reqs pid ∧ o.wakes pid = s.processSleepUntil pid

def nextProcess (s : State) : Option Pid :=
  ((rescheOrder s.currentProcess).find? (runnableAt s.toTables false)).or
    ((rescheOrder s.currentProcess).find? (runnableAt s.toTables true))

def CurrentAtCheck (s : State) (trap : Trap) (pid : Pid) : Prop :=
  match callsysOf trap.regs.eax with
  | none => False
  | some .fork => s.toTables.freeSlot = some pid
  | some .thread => s.toTables.freeSlot = some pid
  | some .schedYield => nextProcess s = some pid
  | some _ => s.currentProcess = pid

def State.KinAlike (s s' : State) (pid : Pid) : Prop :=
  ∀ proc proc', s.processList pid = some proc → s'.processList pid = some proc' →
    proc'.ppid = proc.ppid ∨ s.toTables.Bare proc.ppid ∧ s.toTables.Bare proc'.ppid

/-- A trap that does not look at what the owners of a slot left behind. -/
structure Careful (fs : FileSystem) (i : Pid) (s s' : State) (trap : Trap) : Prop where
  /-- The process in the slot does not read its entry while it is not its own. -/
  reads : s.currentProcess = i → callsysOf trap.regs.eax = some .read →
    ∀ proc, s.processList i = some proc → s.ReadsAlike s' proc trap.regs.ebx
  /-- Nor is it current when a device that others wait for is polled. -/
  polls : CurrentAtCheck s trap i → ∀ slot kind req, s.Queued slot kind req → s.Polls s' i kind
  /-- The end of a process wakes the same parent. -/
  kin : (trapRights fs trap).exits ∨ (trapRights fs trap).loads → s.KinAlike s' s.currentProcess

variable {fs : FileSystem} {place : Placement} {i : Pid} {o : Overlay} {s : State} {trap : Trap}

/-- What two runs keep: the entries of the other slots are the same, and no pending read looks
at an entry that differs. -/
structure Twins (i : Pid) (o : Overlay) (s : State) : Prop where
  others : ∀ pid, pid ≠ i → o.reqs pid = s.reqs pid ∧ o.wakes pid = s.processSleepUntil pid
  queued : ∀ slot kind req, s.Queued slot kind req → s.Tells (s.overlay o) req.proc.pid kind

theorem tells_of_same {pid : Pid} (reqs : o.reqs pid = s.reqs pid)
    (wakes : o.wakes pid = s.processSleepUntil pid) (input : Input) :
    s.Tells (s.overlay o) pid input := by
  cases input with
  | processWait => exact reqs
  | sleepDevice => exact Or.inl wakes
  | serialIo => trivial
  | vgaText => trivial
  | semaphore cnt => trivial

theorem Twins.tells_other (twins : Twins i o s) {pid : Pid} (other : pid ≠ i) (input : Input) :
    s.Tells (s.overlay o) pid input :=
  tells_of_same (twins.others pid other).1 (twins.others pid other).2 input

theorem Twins.start (inv : Inv s) (free : s.processList i = none)
    (others : ∀ pid, pid ≠ i → o.reqs pid = s.reqs pid ∧ o.wakes pid = s.processSleepUntil pid) :
    Twins i o s := by
  refine ⟨others, ?_⟩
  intro slot kind req queued
  have member : req ∈ s.toTables.pendingAt slot := pendingAt_queued.mpr ⟨kind, queued⟩
  obtain ⟨proc, found, _⟩ := inv.queues.queued slot req member
  have other : req.proc.pid ≠ i := by
    intro here
    rw [here, free] at found
    cases found
  exact tells_of_same (others _ other).1 (others _ other).2 kind

theorem Twins.moved {o' : Overlay} {after : State} (twins : Twins i o s) (moved : Moved o s o' after)
    (queued : ∀ slot kind req, after.Queued slot kind req →
      s.Tells (s.overlay o) req.proc.pid kind) : Twins i o' after := by
  refine ⟨?_, fun slot kind req waits => moved.tells (queued slot kind req waits)⟩
  intro pid other
  obtain ⟨reqs, wakes⟩ := twins.others pid other
  refine ⟨moved.reqs pid reqs, ?_⟩
  rcases moved.wakes pid with ⟨above, under⟩ | same
  · rw [above, under, wakes]
  · exact same

section Entry

variable {proc : Process}

theorem overlay_enterKernelMode :
    enterKernelMode (s.overlay o) trap = (enterKernelMode s trap).overlay o := by
  have saved := overlay_modify (o := o) (t := s.toTables) (orphaned_start trap.regs)
    s.currentProcess
  simp only [enterKernelMode, State.overlay, ← saved]

theorem entered_entries (s : State) (trap : Trap) (proc : Process) :
    SameEntries s (entered s trap proc) ∧ (entered s trap proc).linksAt = s.linksAt := by
  refine ⟨⟨rfl, rfl, interrupts_later s.hw trap.user⟩, ?_⟩
  exact linksAt_modify (t := s.toTables) (f := Process.trapped trap) (fun _ => rfl) s.currentProcess

theorem entered_process (pid : Pid) :
    (entered s trap proc).processList pid = if pid = s.currentProcess then
      (s.processList pid).map (Process.trapped trap) else s.processList pid :=
  modify_processList (t := s.toTables) s.currentProcess pid _

theorem entered_freeSlot : (entered s trap proc).toTables.freeSlot = s.toTables.freeSlot := by
  simp only [Tables.freeSlot, entered_process]
  congr 1
  funext pid
  split_ifs
  · rw [Option.isNone_map]
  · rfl

theorem entered_runnableAt (idleToo : Bool) :
    runnableAt (entered s trap proc).toTables idleToo = runnableAt s.toTables idleToo := by
  funext pid
  simp only [runnableAt, entered_process]
  split_ifs
  · cases s.processList pid with
    | none => rfl
    | some proc => rfl
  · rfl

theorem entered_nextProcess (s : State) (trap : Trap) (proc : Process) :
    nextProcess (entered s trap proc) = nextProcess s := by
  simp only [nextProcess, entered_runnableAt]
  rfl

theorem currentAtCheck {called : State} {callsys : Callsys} {ret : Int}
    (known : callsysOf trap.regs.eax = some callsys)
    (applied : applyHandler fs place (entered s trap proc) trap (proc.trapped trap) callsys =
      .ok (called, ret)) : CurrentAtCheck s trap called.currentProcess := by
  have stays : callsys.switches = false → s.currentProcess = called.currentProcess :=
    fun aside => (applyHandler_stays aside applied).symm
  simp only [CurrentAtCheck, known]
  cases callsys with
  | fork =>
      obtain ⟨child, cloned, -⟩ := applyHandler_fork applied
      obtain ⟨_, chosen, current⟩ := clone_entries cloned
      rw [current, ← chosen, entered_freeSlot]
  | thread =>
      obtain ⟨child, cloned, -⟩ := applyHandler_thread applied
      obtain ⟨_, chosen, current⟩ := clone_entries cloned
      rw [current, ← chosen, entered_freeSlot]
  | schedYield =>
      obtain ⟨yielded, -⟩ := applyHandler_schedYield applied
      have next := entered_nextProcess s trap proc
      simp only [nextProcess] at next ⊢
      rw [← next]
      simp only [resche] at yielded
      split at yielded
      · cases yielded
      · next chosen =>
          rw [← Except.ok.inj yielded]
          exact chosen
  | _ => exact stays rfl

end Entry

theorem realSyscallHandler_entered {proc : Process}
    (found : s.processList s.currentProcess = some proc) :
    realSyscallHandler fs place s trap =
      if trap.regs.eax < syscallEnd then
        match callsysOf trap.regs.eax with
        | none => (leaveHook (entered s trap proc) trap).map leaveKernelMode
        | some callsys => do
            let (called, ret) ←
              applyHandler fs place (entered s trap proc) trap (proc.trapped trap) callsys
            let passed ← checkAll trap.arrivals called
            let finished ← finishCall passed s.currentProcess ret
            (leaveHook finished trap).map leaveKernelMode
      else .error .indexOutOfRange := by
  have kernel := enterKernelMode_found trap found
  simp only [realSyscallHandler, kernel]
  rfl

/-- How a step ends in two runs: in the same way. -/
def Lockstep (i : Pid) (result result' : Except Stop State) : Prop :=
  (∃ stop, result = .error stop ∧ result' = .error stop) ∨
    ∃ after o, result = .ok after ∧ result' = .ok (after.overlay o) ∧ Twins i o after

theorem Twins.leave (twins : Twins i o s) (trap : Trap) :
    Lockstep i ((leaveHook s trap).map leaveKernelMode)
      ((leaveHook (s.overlay o) trap).map leaveKernelMode) := by
  rw [overlay_leave]
  cases left : (leaveHook s trap).map leaveKernelMode with
  | error stop => exact Or.inl ⟨stop, rfl, rfl⟩
  | ok after =>
      obtain ⟨same, devices⟩ := leave_entries left
      refine Or.inr ⟨after, o, rfl, rfl, twins.moved (Moved.of_same same rfl rfl) ?_⟩
      intro slot kind req queued
      simp only [Tables.Queued, devices] at queued
      exact twins.queued slot kind req queued

theorem Twins.finish (twins : Twins i o s) (trap : Trap) (pid : Pid) (ret : Int) :
    Lockstep i
      (do let finished ← finishCall s pid ret; (leaveHook finished trap).map leaveKernelMode)
      (do
        let finished ← finishCall (s.overlay o) pid ret
        (leaveHook finished trap).map leaveKernelMode) := by
  rw [overlay_finishCall]
  cases finished : finishCall s pid ret with
  | error stop => exact Or.inl ⟨stop, rfl, rfl⟩
  | ok mid =>
      obtain ⟨same, devices⟩ := finishCall_entries finished
      have later : Twins i o mid := by
        apply twins.moved (Moved.of_same same rfl rfl)
        intro slot kind req queued
        simp only [Tables.Queued, devices] at queued
        exact twins.queued slot kind req queued
      exact later.leave trap

theorem Twins.check (twins : Twins i o s) (fits : ∀ slot, o.Fits s slot) (trap : Trap) (pid : Pid)
    (ret : Int) :
    Lockstep i
      (do
        let passed ← checkAll trap.arrivals s
        let finished ← finishCall passed pid ret
        (leaveHook finished trap).map leaveKernelMode)
      (do
        let passed ← checkAll trap.arrivals (s.overlay o)
        let finished ← finishCall passed pid ret
        (leaveHook finished trap).map leaveKernelMode) := by
  rw [overlay_checkAll trap.arrivals fits]
  cases checked : checkAll trap.arrivals s with
  | error stop => exact Or.inl ⟨stop, rfl, rfl⟩
  | ok passed =>
      have older := noNewer_run (checkAll_acts checked).1 fun _ _ blocks => blocks.elim fun _ no => no
      have later : Twins i o passed := by
        apply twins.moved (Moved.of_same (checkAll_entries checked) rfl rfl)
        intro slot kind req queued
        exact twins.queued slot kind req (older slot kind req queued)
      exact later.finish trap pid ret

section Step

variable {proc : Process}

theorem overlay_entered (ppid : Option Pid) :
    entered (s.overlay o) trap (proc.reparent ppid) = (entered s trap proc).overlay o := by
  simp only [entered, overlay_enterKernelMode]
  rfl

theorem handler_queued {called : State} {callsys : Callsys} {ret : Int} (inv : Inv s)
    (awake : s.toTables.Awake s.currentProcess proc)
    (reads : callsys = .read → (entered s trap proc).ReadsAlike ((entered s trap proc).overlay o)
      (proc.trapped trap) (proc.trapped trap).usermodeState.ebx)
    (known : callsysOf trap.regs.eax = some callsys)
    (applied : applyHandler fs place (entered s trap proc) trap (proc.trapped trap) callsys =
      .ok (called, ret)) {slot : Slot} {kind : Input} {req : PendingRead}
    (queued : called.Queued slot kind req) :
    s.Queued slot kind req ∨ req.proc.pid = called.currentProcess ∧
      (entered s trap proc).Tells ((entered s trap proc).overlay o) req.proc.pid kind := by
  by_cases reading : callsys = .read
  · subst reading
    rcases readHandler_queued (entered_awake trap awake).1 applied queued with
      before | ⟨mine, device, got, found, same⟩
    · exact Or.inl before
    · have stays := applyHandler_stays rfl applied
      refine Or.inr ⟨mine.trans stays.symm, ?_⟩
      rw [mine, same, tells_kind]
      exact reads rfl slot device got found
  · have older := noNewer_run (handler_acts inv awake known applied) (by
      intro slot p blocks
      exact reading (Option.some.inj (known.symm.trans blocks.2.1)))
    exact Or.inl (older slot kind req queued)

theorem Careful.readsAlike (careful : Careful fs i s (s.overlay o) trap) (twins : Twins i o s)
    (found : s.processList s.currentProcess = some proc)
    (reading : callsysOf trap.regs.eax = some .read) :
    (entered s trap proc).ReadsAlike ((entered s trap proc).overlay o) (proc.trapped trap)
      (proc.trapped trap).usermodeState.ebx := by
  intro slot device got known
  apply (entered_entries s trap proc).1.tells
  by_cases mine : s.currentProcess = i
  · have own := careful.reads mine reading proc (by rw [← mine]; exact found)
    exact own slot device got known
  · exact twins.tells_other mine device.input

theorem Careful.harmless (careful : Careful fs i s (s.overlay o) trap)
    (found : s.processList s.currentProcess = some proc)
    (ends : (trapRights fs trap).exits ∨ (trapRights fs trap).loads) :
    (entered s trap proc).toTables.Harmless o s.currentProcess := by
  have before : s.toTables.Harmless o s.currentProcess := by
    intro ppid backup links
    rw [Tables.linksAt, found, Option.map_some, Option.some.injEq, Prod.mk.injEq] at links
    have there : (s.overlay o).processList s.currentProcess =
        some (proc.reparent (o.parents s.currentProcess)) := by
      rw [show (s.overlay o).processList s.currentProcess =
        (s.processList s.currentProcess).map (Process.reparent (o.parents s.currentProcess))
        from rfl, found, Option.map_some]
    rw [← links.1]
    exact careful.kin ends proc _ found there
  exact before.congr (entered_entries s trap proc).2

theorem called_fits {called : State} {callsys : Callsys} {ret : Int} {o' : Overlay} (inv : Inv s)
    (twins : Twins i o s) (careful : Careful fs i s (s.overlay o) trap)
    (awake : s.toTables.Awake s.currentProcess proc)
    (reads : callsys = .read → (entered s trap proc).ReadsAlike ((entered s trap proc).overlay o)
      (proc.trapped trap) (proc.trapped trap).usermodeState.ebx)
    (known : callsysOf trap.regs.eax = some callsys)
    (applied : applyHandler fs place (entered s trap proc) trap (proc.trapped trap) callsys =
      .ok (called, ret))
    (moved : Moved o (entered s trap proc) o' called) :
    Twins i o' called ∧ ∀ slot, o'.Fits called slot := by
  have same := (entered_entries s trap proc).1
  have entry : Twins i o (entered s trap proc) :=
    twins.moved (Moved.of_same same rfl rfl) twins.queued
  have tells : ∀ slot kind req, called.Queued slot kind req →
      (entered s trap proc).Tells ((entered s trap proc).overlay o) req.proc.pid kind := by
    intro slot kind req queued
    rcases handler_queued inv awake reads known applied queued with before | ⟨_, own⟩
    · exact entry.queued slot kind req before
    · exact own
  have later : Twins i o' called := entry.moved moved tells
  refine ⟨later, fun slot kind req queued => ⟨?_, later.queued slot kind req queued⟩⟩
  by_cases mine : called.currentProcess = i
  · rcases handler_queued inv awake reads known applied queued with before | ⟨own, told⟩
    · have checks := currentAtCheck known applied
      rw [mine] at checks
      have polls := careful.polls checks slot kind req before
      rw [← mine] at polls
      exact moved.polls_all (same.polls polls)
    · rw [own] at told
      exact (moved.tells told).polls
  · exact (later.tells_other mine kind).polls

/-- One step of two runs. -/
theorem Twins.step (place : Placement) (inv : Inv s) (twins : Twins i o s)
    (careful : Careful fs i s (s.overlay o) trap) :
    Lockstep i (realSyscallHandler fs place s trap)
      (realSyscallHandler fs place (s.overlay o) trap) := by
  obtain ⟨proc, awake⟩ := inv.running
  have there : (s.overlay o).processList (s.overlay o).currentProcess =
      some (proc.reparent (o.parents s.currentProcess)) := by
    rw [show (s.overlay o).processList (s.overlay o).currentProcess =
      (s.processList s.currentProcess).map (Process.reparent (o.parents s.currentProcess))
      from rfl, awake.1, Option.map_some]
  have same := (entered_entries s trap proc).1
  have entry : Twins i o (entered s trap proc) :=
    twins.moved (Moved.of_same same rfl rfl) twins.queued
  rw [realSyscallHandler_entered awake.1, realSyscallHandler_entered there, overlay_entered]
  split_ifs
  · cases known : callsysOf trap.regs.eax with
    | none => exact entry.leave trap
    | some callsys =>
        have reads : callsys = .read → (entered s trap proc).ReadsAlike
            ((entered s trap proc).overlay o) (proc.trapped trap)
            (proc.trapped trap).usermodeState.ebx := by
          intro reading
          exact careful.readsAlike twins awake.1 (by rw [known, reading])
        have follows : o.Follows (entered s trap proc)
            (applyHandler fs place (entered s trap proc) trap (proc.trapped trap) callsys)
            (applyHandler fs place ((entered s trap proc).overlay o) trap
              ((proc.reparent (o.parents s.currentProcess)).trapped trap) callsys) := by
          apply overlay_applyHandler (o.parents s.currentProcess) reads
          intro ends
          apply careful.harmless awake.1
          rcases ends with exits | ⟨execs, loads⟩
          · exact Or.inl (by rw [trapRights, known, exits])
          · exact Or.inr ⟨by rw [known, execs], loads⟩
        rcases follows with ⟨stop, stopped, stopped'⟩ | ⟨called, ret, o', applied, applied', moved⟩
        · refine Or.inl ⟨stop, ?_, ?_⟩
          · simp only [stopped, bind, Except.bind]
          · simp only [stopped', bind, Except.bind]
        · obtain ⟨later, fits⟩ := called_fits inv twins careful awake reads known applied moved
          have end' := later.check fits trap s.currentProcess ret
          simp only [applied, applied', bind, Except.bind] at end' ⊢
          exact end'
  · exact Or.inl ⟨_, rfl, rfl⟩

end Step

def State.seen (s : State) : Pid × Tss × Mem := (s.currentProcess, s.userTss, s.mem)

/-- What is found at each return to user mode, up to a call that does not return. -/
def observations (fs : FileSystem) (place : Placement) :
    State → List Trap → List (Except Stop (Pid × Tss × Mem))
  | _, [] => []
  | s, trap :: rest =>
      match realSyscallHandler fs place s trap with
      | .error stop => [.error stop]
      | .ok after => .ok after.seen :: observations fs place after rest

def CarefulRun (fs : FileSystem) (place : Placement) (i : Pid) : State → State → List Trap → Prop
  | _, _, [] => True
  | s, s', trap :: rest => Careful fs i s s' trap ∧
      ∀ after after', realSyscallHandler fs place s trap = .ok after →
        realSyscallHandler fs place s' trap = .ok after' →
          CarefulRun fs place i after after' rest

theorem Twins.observations {traps : List Trap} (inv : Inv s) (twins : Twins i o s)
    (careful : CarefulRun fs place i s (s.overlay o) traps) :
    Kernel.observations fs place s traps = Kernel.observations fs place (s.overlay o) traps := by
  induction traps generalizing s o with
  | nil => rfl
  | cons trap rest ih =>
      obtain ⟨now, later⟩ := careful
      simp only [Kernel.observations]
      rcases twins.step place inv now with
        ⟨stop, stopped, stopped'⟩ | ⟨after, o', ran, ran', still⟩
      · rw [stopped, stopped']
      · rw [ran, ran']
        have tail := ih (inv.step ran) still (later after (after.overlay o') ran ran')
        have seen : (after.overlay o').seen = after.seen := rfl
        simp only [seen, tail]

/-- Two runs from states that differ only in what the owners of a free slot left behind show
the same to every process, as long as no trap looks at it. -/
theorem reused_slot_unseen {program : State → Trap → Prop} {s s' : State} {traps : List Trap}
    (reachable : Reachable fs place program s) (free : s.processList i = none)
    (alike : Alike i s s') (careful : CarefulRun fs place i s s' traps) :
    observations fs place s traps = observations fs place s' traps := by
  obtain ⟨o, rfl, others⟩ := alike
  exact (Twins.start reachable.inv free others).observations reachable.inv careful

theorem CarefulRun.quiet {traps : List Trap} {s s' : State} (inv : Inv s)
    (quiet : ∀ slot kind req, ¬ s.Queued slot kind req)
    (plain : ∀ trap ∈ traps, ¬ (trapRights fs trap).reads ∧ ¬ (trapRights fs trap).exits ∧
      ¬ (trapRights fs trap).loads) : CarefulRun fs place i s s' traps := by
  induction traps generalizing s s' with
  | nil => trivial
  | cons trap rest ih =>
      obtain ⟨reads, exits, loads⟩ := plain trap List.mem_cons_self
      refine ⟨⟨fun _ read => absurd read reads, fun _ slot kind req queued =>
        absurd queued (quiet slot kind req), fun ends => ?_⟩, ?_⟩
      · rcases ends with exit | load
        · exact absurd exit exits
        · exact absurd load loads
      · intro after after' ran _
        apply ih (inv.step ran)
        · intro slot kind req queued
          obtain ⟨proc, ret, _, acts⟩ := step_acts inv ran
          have older := noNewer_run acts fun _ _ blocks => reads blocks.of_block.2.1
          exact quiet slot kind req (older slot kind req queued)
        · intro other member
          exact plain other (List.mem_cons_of_mem trap member)

section Sample

structure Card where
  serial : Nat
  ppid : Option Pid
  processState : ProcessState
  processScheType : ScheType
  stackTopBackup : Nat
  stackBackup : Option (List UInt8)
  usermodeState : Tss
  deriving DecidableEq

def Process.card (proc : Process) : Card where
  serial := proc.serial
  ppid := proc.ppid
  processState := proc.processState
  processScheType := proc.processScheType
  stackTopBackup := proc.stackTopBackup
  stackBackup := proc.stackBackup
  usermodeState := proc.usermodeState

def Card.withObjects (card : Card) (objects : Fd → Option Object) : Process where
  serial := card.serial
  ppid := card.ppid
  processState := card.processState
  processScheType := card.processScheType
  stackTopBackup := card.stackTopBackup
  stackBackup := card.stackBackup
  usermodeState := card.usermodeState
  objects := objects

theorem process_ext {t t' : Tables} {pid : Pid}
    (cards : (t'.processList pid).map Process.card = (t.processList pid).map Process.card)
    (objects : ∀ pos, t'.objectAt pid pos = t.objectAt pid pos) :
    t'.processList pid = t.processList pid := by
  simp only [Tables.objectAt] at objects
  cases found : t.processList pid with
  | none =>
      rw [found, Option.map_none, Option.map_eq_none_iff] at cards
      exact cards
  | some proc =>
      rw [found, Option.map_some, Option.map_eq_some_iff] at cards
      obtain ⟨proc', found', same⟩ := cards
      have held : proc'.objects = proc.objects := by
        funext pos
        have here := objects pos
        rw [found, found'] at here
        exact here
      have rebuilt : ∀ proc : Process, proc.card.withObjects proc.objects = proc := fun _ => rfl
      rw [found', ← rebuilt proc', same, held, rebuilt proc]

def SameEverywhere (t t' : Tables) : Prop :=
  (∀ pid, (t'.processList pid).map Process.card = (t.processList pid).map Process.card) ∧
    (∀ pid pos, t'.objectAt pid pos = t.objectAt pid pos) ∧
    (∀ slot, t'.devices slot = t.devices slot) ∧ (∀ pid, t'.reqs pid = t.reqs pid) ∧
    (∀ pid, t'.lastExitCode pid = t.lastExitCode pid) ∧ t'.nextSerial = t.nextSerial ∧
    t'.log = t.log

instance (t t' : Tables) : Decidable (SameEverywhere t t') :=
  inferInstanceAs (Decidable (_ ∧ _))

theorem SameEverywhere.eq {t t' : Tables} (same : SameEverywhere t t') : t' = t := by
  obtain ⟨cards, objects, devices, reqs, codes, serial, log⟩ := same
  have processes : t'.processList = t.processList :=
    funext fun pid => process_ext (cards pid) (objects pid)
  cases t
  cases t'
  simp only [Tables.mk.injEq]
  exact ⟨processes, funext devices, funext reqs, funext codes, serial, log⟩

/-- What two states that are alike apart from the wake-up time of a slot have in common; the
memory, which is not finite, is left out. -/
def SameRest (i : Pid) (s s' : State) : Prop :=
  (∀ pid, pid ≠ i → s'.processSleepUntil pid = s.processSleepUntil pid) ∧
    s'.currentProcess = s.currentProcess ∧ s'.com1 = s.com1 ∧ s'.con = s.con ∧ s'.hw = s.hw ∧
    s'.userTss = s.userTss ∧ s.files.isEmpty ∧ s'.files.isEmpty

instance (i : Pid) (s s' : State) : Decidable (SameRest i s s') :=
  inferInstanceAs (Decidable (_ ∧ _))

theorem alike_of_same {s s' : State} (tables : SameEverywhere s.toTables s'.toTables)
    (rest : SameRest i s s') (mem : s'.mem = s.mem) : Alike i s s' := by
  obtain ⟨wakes, current, com1, con, hw, tss, empty, empty'⟩ := rest
  refine ⟨⟨s.reqs, s'.processSleepUntil, fun pid => (s.processList pid).bind Process.ppid⟩, ?_,
    fun pid other => ⟨rfl, wakes pid other⟩⟩
  have processes : s.processList = fun pid => (s.processList pid).map
      (Process.reparent ((s.processList pid).bind Process.ppid)) := by
    funext pid
    cases s.processList pid with
    | none => rfl
    | some proc => rfl
  have under : s.toTables.overlay ⟨s.reqs, s'.processSleepUntil,
      fun pid => (s.processList pid).bind Process.ppid⟩ = s'.toTables := by
    simp only [Tables.overlay, ← processes, tables.eq]
  have files : s'.files = s.files := by
    rw [List.isEmpty_iff.mp empty, List.isEmpty_iff.mp empty']
  rw [State.overlay, under, ← current, ← com1, ← con, ← hw, ← mem, ← tss, ← files]

theorem unregistered_mem {after : State} (unknown : callsysOf trap.regs.eax = none)
    (ran : realSyscallHandler fs place s trap = .ok after) : after.mem = trap.mem := by
  have leaves : ∀ mid : State, (leaveKernelMode mid).mem = mid.mem := by
    intro mid
    simp only [leaveKernelMode]
    split
    · rfl
    · rfl
  cases found : s.processList s.currentProcess with
  | none =>
      have kernel : (enterKernelMode s trap).processList
          (enterKernelMode s trap).currentProcess = none := by
        simp only [enterKernelMode, modify_processList, if_true, found, Option.map_none]
      simp only [realSyscallHandler, kernel] at ran
      cases ran
  | some proc =>
      rw [realSyscallHandler_entered found, unknown] at ran
      simp only [leaveHook, resche] at ran
      split_ifs at ran
      · split at ran
        · cases ran
        · rw [← Except.ok.inj ran, leaves]
          rfl
      · rw [← Except.ok.inj ran, leaves]
        rfl

theorem smallRun_last {program : State → Trap → Prop} [∀ s trap, Decidable (program s trap)]
    {traps : List Trap} {last : Trap} {s : State}
    (ran : smallRun program (traps ++ [last]) = some s) :
    ∃ mid, realSyscallHandler smallVolume smallPlacement mid last = .ok s := by
  obtain ⟨first, _, folded⟩ := Option.bind_eq_some_iff.mp ran
  rw [List.foldlM_append] at folded
  obtain ⟨mid, _, taken⟩ := Option.bind_eq_some_iff.mp folded
  simp only [List.foldlM_cons, List.foldlM_nil, smallStep] at taken
  split_ifs at taken
  · obtain ⟨next, returned, same⟩ := Option.bind_eq_some_iff.mp taken
    rw [← Option.some.inj same]
    exact ⟨mid, toOption_eq_some returned⟩
  · cases taken

def sleepPath : List UInt8 := ":SLEEP".toUTF8.toList ++ [0]

def shortNap (ticks : UInt8) : List Trap :=
  [plainCall 2 0 0 0, plainCall 202 0 0 0, callWith sleepPath 5 100 0 0,
    callWith [ticks, 0, 0, 0] 4 3 100 4, plainCall 1 0 0 0] ++ [plainCall 0 0 0 0]

def reader : List Trap :=
  [plainCall 202 0 0 0, callWith sleepPath 5 100 0 0, plainCall 3 3 200 4]

def runners (s : State) (traps : List Trap) : List (Option Pid) :=
  (observations smallVolume smallPlacement s traps).map fun seen => seen.toOption.map Prod.fst

/-- Two histories of slot 2 that leave it free and differ only in a wake-up time. -/
theorem left_behind : ∃ s s', Reachable smallVolume smallPlacement HltProgram s ∧
    Reachable smallVolume smallPlacement HltProgram s' ∧ s.processList 2 = none ∧ Alike 2 s s' ∧
    (∀ slot, s.toTables.pendingAt slot = []) ∧ runners s reader ≠ runners s' reader := by
  have ran : (smallRun HltProgram (shortNap 9)).any (fun s =>
      (smallRun HltProgram (shortNap 0)).any fun s' =>
        SameEverywhere s.toTables s'.toTables ∧ SameRest 2 s s' ∧ (s.processList 2).isNone ∧
          (∀ slot, s.toTables.pendingAt slot = []) ∧ runners s reader ≠ runners s' reader) := by
    decide +kernel
  obtain ⟨s, reached, rest⟩ := (Option.any_eq_true _ _).mp ran
  obtain ⟨s', reached', both⟩ := (Option.any_eq_true _ _).mp rest
  obtain ⟨tables, fields, free, quiet, differ⟩ := of_decide_eq_true both
  obtain ⟨mid, last⟩ := smallRun_last reached
  obtain ⟨mid', last'⟩ := smallRun_last reached'
  have mem : s'.mem = s.mem :=
    (unregistered_mem rfl last').trans (unregistered_mem rfl last).symm
  exact ⟨s, s', smallRun_reachable _ reached, smallRun_reachable _ reached',
    Option.isNone_iff_eq_none.mp free, alike_of_same tables fields mem, quiet, differ⟩

/-- A new thread that sets a wake-up time of its own does not notice the one slot 2 was left with. -/
theorem reused_slot_unseen_writer : ∃ s s', Reachable smallVolume smallPlacement HltProgram s ∧
    s.processList 2 = none ∧ Alike 2 s s' ∧ s' ≠ s ∧
    observations smallVolume smallPlacement s [plainCall 202 0 0 0, callWith sleepPath 5 100 0 0,
      callWith [3, 0, 0, 0] 4 3 100 4] =
    observations smallVolume smallPlacement s' [plainCall 202 0 0 0, callWith sleepPath 5 100 0 0,
      callWith [3, 0, 0, 0] 4 3 100 4] := by
  obtain ⟨s, s', reachable, _, free, alike, quiet, differ⟩ := left_behind
  refine ⟨s, s', reachable, free, alike, ?_, reused_slot_unseen reachable free alike ?_⟩
  · intro same
    rw [same] at differ
    exact differ rfl
  · apply CarefulRun.quiet reachable.inv
    · intro slot kind req queued
      have member := pendingAt_queued.mpr ⟨kind, queued⟩
      rw [quiet slot] at member
      cases member
    · intro trap member
      simp only [List.mem_cons, List.not_mem_nil, or_false] at member
      rcases member with rfl | rfl | rfl
      · simp [trapRights, plainCall, callsysOf]
      · simp [trapRights, callWith, plainCall, callsysOf]
      · simp [trapRights, callWith, plainCall, callsysOf]

/-- A thread in a slot that was used before blocks on a wake-up time it never asked for. -/
theorem reused_slot_seen :
    ¬ ∀ fs place i s s', Reachable fs place HltProgram s → Reachable fs place HltProgram s' →
      s.processList i = none → Alike i s s' →
        ∀ traps, observations fs place s traps = observations fs place s' traps := by
  intro claim
  obtain ⟨s, s', reachable, reachable', free, alike, _, differ⟩ := left_behind
  apply differ
  rw [runners, runners, claim _ _ 2 s s' reachable reachable' free alike reader]

end Sample

end SysImpl.Kernel
