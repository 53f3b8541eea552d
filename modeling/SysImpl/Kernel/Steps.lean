import SysImpl.Kernel.Checks

/-! A step of the system as acts, and what holds at every return to user mode.

A trap is an entry, the acts of its handler, the acts of a pass over the devices and the
store of the return value. So an invariant of all acts is an invariant of all steps. -/

namespace SysImpl.Kernel

open Bytes Runs

variable {t t' : Tables} {pid : Pid} {proc : Process} {slot : Slot} {device : Device}
  {label : Label}

theorem Act.nextSerial_le (act : Act t label t') : t.nextSerial ≤ t'.nextSerial := by
  cases act with
  | @detach pid proc pos awake =>
      obtain ⟨processes, devices, same⟩ := removeObject_rest t pid pos
      rw [same]
  | newSem => exact Nat.le_succ _
  | fork => exact Nat.le_succ _
  | thread => exact Nat.le_succ _
  | kill code awake => simp
  | image awake => simp
  | _ => exact Nat.le_refl _

theorem Act.log_suffix (act : Act t label t') : t.log <:+ t'.log := by
  cases act with
  | detach => rw [removeObject_log]
  | kill =>
      rw [processExit_log, wakeParent_log]
      exact List.suffix_cons _ _
  | image =>
      rw [wakeParent_log]
      exact List.suffix_cons _ _
  | regs => exact List.suffix_refl _
  | attach => exact List.suffix_refl _
  | requeue => exact List.suffix_refl _
  | done => exact (List.suffix_cons _ _).trans (List.suffix_cons _ _)
  | _ => exact List.suffix_cons _ _

/-- A process is made by a live one, in a free slot. -/
theorem Act.of_spawn {parent child : ProcPtr} {keep : Bool}
    (act : Act t (.spawn parent child keep) t') :
    ∃ proc, t.processList parent.pid = some proc ∧ t.processList child.pid = none := by
  cases act with
  | fork m awake free => exact ⟨_, awake.1, free⟩
  | thread tss awake free => exact ⟨_, awake.1, free⟩

theorem Act.keeps_device (act : Act t label t') (found : t.devices slot = some device)
    (kind : device.isSemaphore = false) :
    ∃ pending, t'.devices slot = some (device.setPending pending) := by
  have same : ∃ pending, t.devices slot = some (device.setPending pending) :=
    ⟨device.pendingRequest, found⟩
  have fixed : ∀ {t : Tables} (other : Slot) {f : Device → Device},
      t.devices slot = some device →
      (other = slot → ∃ pending, f device = device.setPending pending) →
      ∃ pending, (t.modifyDevice other f).devices slot = some (device.setPending pending) := by
    intro t other f known keeps
    rw [modifyDevice_devices]
    by_cases here : slot = other
    · obtain ⟨pending, equal⟩ := keeps here.symm
      exact ⟨pending, by rw [if_pos here, known, Option.map_some, equal]⟩
    · exact ⟨device.pendingRequest, by rw [if_neg here]; exact known⟩
  cases act with
  | regs => exact same
  | enter => exact same
  | attach => exact same
  | @detach pid proc pos awake =>
      cases held : proc.objects pos with
      | none =>
          simp only [Tables.removeObject, awake.1, held]
          exact same
      | some obj =>
          simp only [Tables.removeObject, awake.1, held]
          cases obj with
          | file id => exact same
          | segment base size => exact same
          | device other =>
              have removed := fixed other (f := fun device => { device with
                pendingRequest := device.pendingRequest.eraseP fun req =>
                  req.proc = (⟨pid, proc.serial⟩ : ProcPtr) }) found (fun _ => ⟨_, rfl⟩)
              simp only [Tables.dropReference]
              split
              · next unused =>
                  have differs : slot ≠ other := by
                    intro here
                    obtain ⟨pending, known⟩ := removed
                    have semaphore := unused.1
                    rw [← here] at semaphore known
                    simp only [modify_devices, Tables.onRemovedByOwner, known,
                      Option.any_some] at semaphore
                    rw [show (device.setPending pending).isSemaphore = device.isSemaphore from rfl,
                      kind] at semaphore
                    cases semaphore
                  rw [setDevice_devices, Function.update_of_ne differs]
                  exact removed
              · exact removed
  | await => exact same
  | @signal other device' cnt known semaphore =>
      apply fixed _ found
      intro here
      rw [here, found, Option.some.injEq] at known
      rw [← known] at semaphore
      simp [Device.isSemaphore, semaphore] at kind
  | @newSem other cnt free =>
      have differs : slot ≠ other := by
        intro here
        rw [here, free] at found
        cases found
      simp only [Tables.newSemaphore, note_devices, setDevice_devices,
        Function.update_of_ne differs]
      exact same
  | fork => exact same
  | thread => exact same
  | kill code awake =>
      rw [processExit_devices, wakeParent_devices]
      exact same
  | image awake =>
      rw [wakeParent_devices]
      exact same
  | @done pid proc other device' size ret data input awake known spec =>
      refine fixed (t := t.note _) _ found ?_
      intro here
      rw [here, found, Option.some.injEq] at known
      subst known
      refine ⟨device.pendingRequest, ?_⟩
      rw [spec.same_input kind]
      rfl
  | @block pid proc other device' pos buffer size awake known held spec =>
      refine fixed (t := t.note _) _ found ?_
      intro here
      exact ⟨_, rfl⟩
  | @serve other device' now rest ret data input known queue spec =>
      refine fixed (t := t.modify _ _) _ found ?_
      intro here
      rw [here, found, Option.some.injEq] at known
      subst known
      refine ⟨rest, ?_⟩
      rw [spec.same_input kind]
      rfl
  | @requeue other device' now rest known queue semaphore =>
      refine fixed _ found ?_
      intro here
      exact ⟨_, rfl⟩

theorem Fixtures.act (fixtures : Fixtures t) (act : Act t label t') : Fixtures t' := by
  obtain ⟨_, com1⟩ := fixtures.com1
  obtain ⟨_, con⟩ := fixtures.con
  obtain ⟨_, wait⟩ := fixtures.wait
  obtain ⟨_, sleep⟩ := fixtures.sleep
  exact ⟨act.keeps_device com1 rfl, act.keeps_device con rfl, act.keeps_device wait rfl,
    act.keeps_device sleep rfl⟩

theorem Queues.run {kind : Label → Prop} (queues : Queues t) (run : RunOf Act kind t t') :
    Queues t' := by
  apply run.invariant Queues queues
  intro mid label next _ queues act
  exact queues.act act

theorem Fixtures.run {kind : Label → Prop} (fixtures : Fixtures t) (run : RunOf Act kind t t') :
    Fixtures t' := by
  apply run.invariant Fixtures fixtures
  intro mid label next _ fixtures act
  exact fixtures.act act

theorem Awake.pass (queues : Queues t) (awake : t.Awake pid proc) (act : Act t label t')
    (kind : PassLabel label) : t'.processList pid = t.processList pid := by
  obtain ⟨slot, kind⟩ := kind
  cases act with
  | @serve other device now rest ret data input found queue spec =>
      have differs : pid ≠ now.proc.pid := by
        intro same
        exact queues.awake_not_queued awake other now
          (by simp [pendingAt_of_some found, queue]) same.symm
      simp only [modify_processList, if_neg differs, note_processList, modifyDevice_processList]
  | @requeue other device now rest found queue semaphore =>
      have differs : pid ≠ now.proc.pid := by
        intro same
        exact queues.awake_not_queued awake other now
          (by simp [pendingAt_of_some found, queue]) same.symm
      simp only [modify_processList, if_neg differs, modifyDevice_processList]
  | _ => exact kind.elim

theorem Awake.pass_run (queues : Queues t) (awake : t.Awake pid proc)
    (run : RunOf Act PassLabel t t') : t'.Awake pid proc := by
  have kept : Queues t' ∧ t'.Awake pid proc := by
    apply run.invariant (fun t => Queues t ∧ t.Awake pid proc) ⟨queues, awake⟩
    intro mid label next kind both act
    exact ⟨both.1.act act, (Awake.pass both.1 both.2 act kind).trans both.2.1, both.2.2⟩
  exact kept.2

/-- What holds at every return to user mode. -/
structure Inv (s : State) : Prop where
  queues : Queues s.toTables
  fixtures : Fixtures s.toTables
  running : ∃ proc, s.toTables.Awake s.currentProcess proc

theorem resche_spec {s s' : State} (ran : resche s = .ok s') :
    s'.toTables = s.toTables ∧ ∃ proc, s'.toTables.Awake s'.currentProcess proc := by
  simp only [resche] at ran
  split at ran
  · cases ran
  · next pid chosen =>
      rw [← Except.ok.inj ran]
      refine ⟨rfl, ?_⟩
      have awake : ∀ idle, runnableAt s.toTables idle pid = true →
          ∃ proc, s.toTables.Awake pid proc := by
        intro idle runnable
        simp only [runnableAt, Option.any_eq_true, Bool.and_eq_true] at runnable
        obtain ⟨proc, found, ready, _⟩ := runnable
        exact ⟨proc, found, by simpa using ready⟩
      rcases Option.or_eq_some_iff.mp chosen with first | ⟨_, second⟩
      · exact awake false (List.find?_some first)
      · exact awake true (List.find?_some second)

theorem clone_current {place : Placement} {s s' : State} {mode : CloneMode} {child : Pid}
    (cloned : clone place s pid mode = .ok (s', child)) :
    ∃ proc, s'.toTables.Awake s'.currentProcess proc := by
  obtain ⟨_, _, _, ⟨_, rfl⟩ | ⟨_, _, _, rfl⟩⟩ := clone_ok cloned
  · exact ⟨_, Function.update_self _ _ _, rfl⟩
  · exact ⟨_, Function.update_self _ _ _, rfl⟩

theorem restoreParent_current (s : State) (ppid : Option Pid) :
    (restoreParent s ppid).currentProcess = s.currentProcess := by
  cases ppid with
  | none => rfl
  | some parent =>
      simp only [restoreParent, restoreStack]
      split
      · rfl
      · split
        · rfl
        · rfl

theorem readDevice_current {s s' : State} {buffer size : Nat} {ret : Int}
    (read : readDevice s slot buffer size = .ok (s', ret)) :
    s'.currentProcess = s.currentProcess := by
  simp only [readDevice] at read
  split at read
  · next proc device _ found =>
      have here : (s.note (.issued device.serial ⟨s.currentProcess, proc.serial⟩ size)).devices
          slot = some device := found
      have current := (inputRead_spec here buffer size).1
      simp only [doRead, here] at read
      split at read
      · split at read
        · simp only [Except.ok.injEq, Prod.mk.injEq] at read
          rw [← read.1]
          exact current
        · cases read
      · simp only [Except.ok.injEq, Prod.mk.injEq] at read
        rw [← read.1]
        exact current
  · cases read

theorem execv_current {fs : FileSystem} {place : Placement} {s s' : State} {path : List UInt8}
    {call : ExecCall} {around : Surroundings} {ret : Int}
    (run : execv fs place s pid path call around = .ok (s', ret)) :
    s'.currentProcess = s.currentProcess := by
  rcases execv_cases run with ⟨rfl, _⟩ | ⟨_, _, content, sections, entry, installed, built, rfl⟩
  · rfl
  · simp only [install, Prod.mk.injEq] at built
    have same : installed.currentProcess = s.currentProcess := by rw [← built.1]
    simp only [finishExec]
    split
    · exact same
    · rw [restoreParent_current]
      exact same

theorem deleteProcess_current (s : State) (code : Nat) :
    (deleteProcess s pid code).currentProcess = s.currentProcess := by
  simp only [deleteProcess]
  split
  · rfl
  · exact restoreParent_current _ _

theorem readHandler_current {s s' : State} {fd buffer size : Nat} {ret : Int}
    (read : readHandler s proc fd buffer size = .ok (s', ret)) :
    s'.currentProcess = s.currentProcess := by
  simp only [readHandler] at read
  split at read
  · cases read
  · simp only [Except.ok.injEq, Prod.mk.injEq] at read
    rw [← read.1]
  · exact readDevice_current read
  · simp only [Except.ok.injEq, readFile] at read
    split at read
    · simp only [Prod.mk.injEq] at read
      rw [← read.1]
    · simp only [Prod.mk.injEq] at read
      rw [← read.1]
  · simp only [Except.ok.injEq, Prod.mk.injEq] at read
    rw [← read.1]

theorem writeHandler_current {s s' : State} {trap : Trap} {fd buffer size : Nat} {ret : Int}
    (written : writeHandler s trap proc fd buffer size = .ok (s', ret)) :
    s'.currentProcess = s.currentProcess := by
  simp only [writeHandler] at written
  split at written
  · cases written
  · simp only [writeDevice] at written
    split at written
    · cases written
    · split at written
      · simp only [Except.ok.injEq, Prod.mk.injEq] at written
        rw [← written.1]
      · simp only [Except.ok.injEq, Prod.mk.injEq] at written
        rw [← written.1]
      · simp only [Except.ok.injEq, writeProcessWait] at written
        split at written
        · simp only [Prod.mk.injEq] at written
          rw [← written.1]
        · simp only [Prod.mk.injEq] at written
          rw [← written.1]
      · simp only [Except.ok.injEq, writeSleepDevice] at written
        split at written
        · simp only [Prod.mk.injEq] at written
          rw [← written.1]
        · simp only [Prod.mk.injEq] at written
          rw [← written.1]
      · simp only [Except.ok.injEq, writeSemaphore, Prod.mk.injEq] at written
        rw [← written.1]
  · simp only [Except.ok.injEq, Prod.mk.injEq] at written
    rw [← written.1]

theorem openHandler_current {fs : FileSystem} {s s' : State} {filename : Nat} {ret : Int}
    (opened : openHandler fs s filename = .ok (s', ret)) :
    s'.currentProcess = s.currentProcess := by
  simp only [openHandler] at opened
  split at opened
  · split at opened
    · simp only [Except.ok.injEq, Prod.mk.injEq] at opened
      rw [← opened.1]
    · simp only [Except.ok.injEq, Prod.mk.injEq] at opened
      rw [← opened.1]
  · split at opened
    · simp only [Except.ok.injEq, Prod.mk.injEq] at opened
      rw [← opened.1]
    · split at opened
      · simp only [Except.ok.injEq, Prod.mk.injEq] at opened
        rw [← opened.1]
      · simp only [Except.ok.injEq, Prod.mk.injEq] at opened
        rw [← opened.1]

theorem closeHandler_current (s : State) (fd : Nat) :
    (closeHandler s fd).currentProcess = s.currentProcess := by
  simp only [closeHandler]
  split
  · rfl
  · rfl

theorem dup2Handler_current {s s' : State} {oldfd newfd : Nat} {ret : Int}
    (copied : dup2Handler s proc oldfd newfd = .ok (s', ret)) :
    s'.currentProcess = s.currentProcess := by
  simp only [dup2Handler] at copied
  split at copied
  · simp only [Except.ok.injEq, Prod.mk.injEq] at copied
    rw [← copied.1]
  · split at copied
    · cases copied
    · simp only [Except.ok.injEq, Prod.mk.injEq] at copied
      rw [← copied.1]
    · split at copied
      · simp only [Except.ok.injEq, Prod.mk.injEq] at copied
        rw [← copied.1]
      · simp only [Except.ok.injEq, Prod.mk.injEq] at copied
        rw [← copied.1]

theorem semCreateHandler_current {s s' : State} {cnt : Nat} {ret : Int}
    (created : semCreateHandler s cnt = .ok (s', ret)) :
    s'.currentProcess = s.currentProcess := by
  simp only [semCreateHandler] at created
  split at created
  · cases created
  · split at created
    · cases created
    · simp only [Except.ok.injEq, Prod.mk.injEq] at created
      rw [← created.1]

theorem readdirHandler_current {s s' : State} {fd array n : Nat} {ret : Int}
    (listed : readdirHandler s proc fd array n = .ok (s', ret)) :
    s'.currentProcess = s.currentProcess := by
  simp only [readdirHandler] at listed
  split at listed
  · cases listed
  · split at listed
    · simp only [Except.ok.injEq, Prod.mk.injEq] at listed
      rw [← listed.1]
    · split at listed
      · simp only [Except.ok.injEq, Prod.mk.injEq] at listed
        rw [← listed.1]
      · simp only [Except.ok.injEq, Prod.mk.injEq] at listed
        rw [← listed.1]
  · simp only [Except.ok.injEq, Prod.mk.injEq] at listed
    rw [← listed.1]

def Callsys.switches : Callsys → Bool
  | .fork => true
  | .thread => true
  | .schedYield => true
  | _ => false

theorem applyHandler_stays {fs : FileSystem} {place : Placement} {s s' : State} {trap : Trap}
    {callsys : Callsys} {ret : Int} (stays : callsys.switches = false)
    (applied : applyHandler fs place s trap proc callsys = .ok (s', ret)) :
    s'.currentProcess = s.currentProcess := by
  cases callsys with
  | exit =>
      simp only [applyHandler, Except.ok.injEq, Prod.mk.injEq] at applied
      rw [← applied.1]
      exact deleteProcess_current s _
  | fork => cases stays
  | thread => cases stays
  | read => exact readHandler_current applied
  | write => exact writeHandler_current applied
  | openFile => exact openHandler_current applied
  | close =>
      simp only [applyHandler, Except.ok.injEq, Prod.mk.injEq] at applied
      rw [← applied.1]
      exact closeHandler_current s _
  | exec => exact execv_current applied
  | dup2 => exact dup2Handler_current applied
  | schedYield => cases stays
  | semCreate => exact semCreateHandler_current applied
  | readdir => exact readdirHandler_current applied
  | hlt =>
      simp only [applyHandler, Except.ok.injEq, Prod.mk.injEq] at applied
      rw [← applied.1]

theorem applyHandler_current {fs : FileSystem} {place : Placement} {s s' : State} {trap : Trap}
    {callsys : Callsys} {ret : Int}
    (applied : applyHandler fs place s trap proc callsys = .ok (s', ret)) :
    s'.currentProcess = s.currentProcess ∨
      ∃ next, s'.toTables.Awake s'.currentProcess next := by
  cases callsys with
  | fork =>
      obtain ⟨child, cloned, -⟩ := applyHandler_fork applied
      exact Or.inr (clone_current cloned)
  | thread =>
      obtain ⟨child, cloned, -⟩ := applyHandler_thread applied
      exact Or.inr (clone_current cloned)
  | schedYield =>
      obtain ⟨chosen, -⟩ := applyHandler_schedYield applied
      exact Or.inr (resche_spec chosen).2
  | _ => exact Or.inl (applyHandler_stays rfl applied)

def entered (s : State) (trap : Trap) (proc : Process) : State :=
  (enterKernelMode s trap).note (.entered ⟨s.currentProcess, proc.serial⟩)

def Process.trapped (trap : Trap) (proc : Process) : Process :=
  { proc with usermodeState := trap.regs }

theorem enterKernelMode_found {s : State} {proc : Process} (trap : Trap)
    (found : s.processList s.currentProcess = some proc) :
    (enterKernelMode s trap).processList (enterKernelMode s trap).currentProcess =
      some (proc.trapped trap) := by
  simp only [enterKernelMode, modify_processList, if_true, found, Option.map_some]
  rfl

theorem entered_awake {s : State} (trap : Trap) (awake : s.toTables.Awake s.currentProcess proc) :
    (entered s trap proc).toTables.Awake s.currentProcess (proc.trapped trap) := by
  refine ⟨?_, awake.2⟩
  simp only [entered, State.note_tables, enterKernelMode, note_processList, modify_processList,
    if_pos, awake.1, Option.map_some]
  rfl

def EnterLabel (p : ProcPtr) : Label → Prop
  | .regs pid => pid = p.pid
  | .enter q => q = p
  | _ => False

theorem entered_acts {s : State} (trap : Trap) (awake : s.toTables.Awake s.currentProcess proc) :
    RunOf Act (EnterLabel ⟨s.currentProcess, proc.serial⟩) s.toTables
      (entered s trap proc).toTables := by
  have saved := Act.regs s.toTables s.currentProcess (fun _ => trap.regs)
  have ready : (s.toTables.modify s.currentProcess (Process.setTss fun _ => trap.regs)).Awake
      s.currentProcess (proc.trapped trap) := by
    refine ⟨?_, awake.2⟩
    rw [modify_processList, if_pos rfl, awake.1]
    rfl
  have noted := Act.enter ready
  exact RunOf.cons saved rfl (RunOf.single noted rfl)

theorem leaveHook_spec {s s' : State} {trap : Trap} (left : leaveHook s trap = .ok s')
    (running : ∃ proc, s.toTables.Awake s.currentProcess proc) :
    s'.toTables = s.toTables ∧ ∃ proc, s'.toTables.Awake s'.currentProcess proc := by
  simp only [leaveHook] at left
  split at left
  · have chosen := resche_spec left
    exact chosen
  · rw [← Except.ok.inj left]
    exact ⟨rfl, running⟩

/-- The way back to user mode changes no table, and the process it returns to can run with
the registers saved for it. -/
theorem leave_spec {s s' : State} {trap : Trap}
    (left : (leaveHook s trap).map leaveKernelMode = .ok s')
    (running : ∃ proc, s.toTables.Awake s.currentProcess proc) :
    s'.toTables = s.toTables ∧ ∃ proc, s'.toTables.Awake s'.currentProcess proc ∧
      s'.userTss = proc.usermodeState := by
  obtain ⟨mid, hooked, loaded⟩ := map_ok left
  obtain ⟨same, proc, awake⟩ := leaveHook_spec hooked running
  simp only [leaveKernelMode, awake.1] at loaded
  rw [← loaded]
  exact ⟨same, proc, awake, rfl⟩

theorem finishCall_spec {s s' : State} {ret : Int}
    (finished : finishCall s pid ret = .ok s')
    (running : s.currentProcess = pid ∨ ∃ proc, s.toTables.Awake s.currentProcess proc) :
    s'.toTables = s.toTables.modify pid (Process.setRetval ret) ∧
      ∃ proc, s'.toTables.Awake s'.currentProcess proc := by
  cases found : s.processList pid with
  | none =>
      have same : s.toTables.modify pid (Process.setRetval ret) = s.toTables := by
        simp only [Tables.modify, Tables.setProcess, found, Option.map_none]
        rw [← found, Function.update_eq_self]
      simp only [finishCall, found] at finished
      rw [same]
      exact resche_spec finished
  | some proc =>
      simp only [finishCall, found] at finished
      by_cases asleep : proc.processState ≠ .runnable
      · rw [if_pos asleep] at finished
        exact resche_spec finished
      · rw [if_neg asleep] at finished
        rw [← Except.ok.inj finished]
        refine ⟨rfl, ?_⟩
        have written : (s.toTables.modify pid (Process.setRetval ret)).processList pid =
            some (proc.setRetval ret) := by
          rw [modify_processList, if_pos rfl, found, Option.map_some]
        rcases running with same | ⟨other, awake⟩
        · refine ⟨proc.setRetval ret, ?_, not_not.mp asleep⟩
          simp only [same]
          exact written
        · by_cases same : s.currentProcess = pid
          · refine ⟨proc.setRetval ret, ?_, not_not.mp asleep⟩
            simp only [same]
            exact written
          · refine ⟨other, ?_, awake.2⟩
            simp only [modify_processList, if_neg same]
            exact awake.1

/-- What a step does: nothing beyond the entry for an unregistered call, and otherwise the
handler, a pass over the devices and the store of the return value. -/
theorem step_cases {fs : FileSystem} {place : Placement} {s s' : State} {trap : Trap} (inv : Inv s)
    (ran : realSyscallHandler fs place s trap = .ok s') :
    ∃ proc, s.toTables.Awake s.currentProcess proc ∧
      (∃ next, s'.toTables.Awake s'.currentProcess next ∧ s'.userTss = next.usermodeState) ∧
      (callsysOf trap.regs.eax = none ∧ s'.toTables = (entered s trap proc).toTables ∨
        ∃ callsys called ret passed, callsysOf trap.regs.eax = some callsys ∧
          applyHandler fs place (entered s trap proc) trap (proc.trapped trap) callsys =
            .ok (called, ret) ∧
          checkAll trap.arrivals called = .ok passed ∧
          s'.toTables = passed.toTables.modify s.currentProcess (Process.setRetval ret)) := by
  obtain ⟨proc, awake⟩ := inv.running
  have ready := entered_awake trap awake
  have kernel : (enterKernelMode s trap).processList (enterKernelMode s trap).currentProcess =
      some (proc.trapped trap) := ready.1
  have enter := entered_acts trap awake
  have queues := inv.queues.run enter
  refine ⟨proc, awake, ?_⟩
  simp only [realSyscallHandler, kernel] at ran
  split at ran
  · split at ran
    · next unknown =>
        obtain ⟨same, next⟩ := leave_spec ran ⟨_, ready⟩
        exact ⟨next, Or.inl ⟨unknown, same⟩⟩
    · next callsys known =>
        obtain ⟨⟨called, ret⟩, applied, ran⟩ := bind_ok ran
        obtain ⟨passed, checked, ran⟩ := bind_ok ran
        obtain ⟨finished, returned, ran⟩ := bind_ok ran
        have handler := applyHandler_acts queues (inv.fixtures.run enter) ready applied
        have running : passed.currentProcess = s.currentProcess ∨
            ∃ next, passed.toTables.Awake passed.currentProcess next := by
          obtain ⟨acts, current⟩ := checkAll_acts checked
          rcases applyHandler_current applied with same | ⟨next, fresh⟩
          · exact Or.inl (current.trans same)
          · refine Or.inr ⟨next, ?_⟩
            rw [current]
            exact Awake.pass_run (queues.run handler) fresh acts
        obtain ⟨stored, runs⟩ := finishCall_spec returned running
        obtain ⟨same, next⟩ := leave_spec ran runs
        exact ⟨next, Or.inr ⟨callsys, called, ret, passed, known, applied, checked,
          same.trans stored⟩⟩
  · cases ran

def StepLabel (p : ProcPtr) (rights : Rights) (ret : Int) (label : Label) : Prop :=
  EnterLabel p label ∨ CallLabel p rights ret label ∨ PassLabel label

section Kinds

variable {p q child : ProcPtr} {rights : Rights} {ret : Int} {keep : Bool}

theorem StepLabel.of_regs (kind : StepLabel p rights ret (.regs pid)) : pid = p.pid := by
  rcases kind with entry | call | ⟨_, pass⟩
  · exact entry
  · exact call.1
  · exact pass.elim

theorem StepLabel.of_enter (kind : StepLabel p rights ret (.enter q)) : q = p := by
  rcases kind with entry | call | ⟨_, pass⟩
  · exact entry
  · exact call.elim
  · exact pass.elim

theorem StepLabel.of_done {out : Int} (kind : StepLabel p rights ret (.done slot q out)) :
    q = p ∧ rights.reads ∧ out = ret := by
  rcases kind with entry | call | ⟨_, pass⟩
  · exact entry.elim
  · exact call
  · exact pass.elim

theorem StepLabel.of_spawn (kind : StepLabel p rights ret (.spawn q child keep)) :
    q = p ∧ rights.spawns := by
  rcases kind with entry | call | ⟨_, pass⟩
  · exact entry.elim
  · exact call
  · exact pass.elim

theorem StepLabel.of_kill (kind : StepLabel p rights ret (.kill q)) : q = p ∧ rights.exits := by
  rcases kind with entry | call | ⟨_, pass⟩
  · exact entry.elim
  · exact call
  · exact pass.elim

theorem StepLabel.of_image (kind : StepLabel p rights ret (.image q)) : q = p ∧ rights.loads := by
  rcases kind with entry | call | ⟨_, pass⟩
  · exact entry.elim
  · exact call
  · exact pass.elim

theorem StepLabel.of_block (kind : StepLabel p rights ret (.block slot q)) :
    q = p ∧ rights.reads ∧ ret = eagain := by
  rcases kind with entry | call | ⟨_, pass⟩
  · exact entry.elim
  · exact call
  · exact pass.elim

end Kinds

def trapRights (fs : FileSystem) (trap : Trap) : Rights where
  spawns := callsysOf trap.regs.eax = some .fork ∨ callsysOf trap.regs.eax = some .thread
  exits := callsysOf trap.regs.eax = some .exit
  loads := callsysOf trap.regs.eax = some .exec ∧
    Loads fs (loadString trap.mem trap.regs.ebx) trap.around
  reads := callsysOf trap.regs.eax = some .read
  signals := callsysOf trap.regs.eax = some .write

theorem CallLabel.of_trap {fs : FileSystem} {s : State} {trap : Trap} {callsys : Callsys}
    {p : ProcPtr} {ret : Int} (known : callsysOf trap.regs.eax = some callsys)
    (kind : CallLabel p (rightsOf fs (entered s trap proc) trap (proc.trapped trap) callsys) ret
      label) : CallLabel p (trapRights fs trap) ret label := by
  cases label with
  | regs pid => exact ⟨kind.1, known.trans (congrArg some kind.2.1), kind.2.2⟩
  | spawn q child keep =>
      refine ⟨kind.1, ?_⟩
      rcases kind.2 with fork | thread
      · exact Or.inl (known.trans (congrArg some fork))
      · exact Or.inr (known.trans (congrArg some thread))
  | kill q => exact ⟨kind.1, known.trans (congrArg some kind.2)⟩
  | image q => exact ⟨kind.1, known.trans (congrArg some kind.2.1), kind.2.2⟩
  | done slot q r => exact ⟨kind.1, known.trans (congrArg some kind.2.1), kind.2.2⟩
  | block slot q => exact ⟨kind.1, known.trans (congrArg some kind.2.1), kind.2.2⟩
  | signal slot => exact known.trans (congrArg some kind)
  | _ => exact kind

theorem handler_acts {fs : FileSystem} {place : Placement} {s called : State} {trap : Trap}
    {callsys : Callsys} {ret : Int} (inv : Inv s) (awake : s.toTables.Awake s.currentProcess proc)
    (known : callsysOf trap.regs.eax = some callsys)
    (applied : applyHandler fs place (entered s trap proc) trap (proc.trapped trap) callsys =
      .ok (called, ret)) :
    RunOf Act (CallLabel ⟨s.currentProcess, proc.serial⟩ (trapRights fs trap) ret)
      (entered s trap proc).toTables called.toTables := by
  have enter := entered_acts trap awake
  have handler := applyHandler_acts (inv.queues.run enter) (inv.fixtures.run enter)
    (entered_awake trap awake) applied
  exact handler.mono fun label kind => kind.of_trap known

theorem step_acts {fs : FileSystem} {place : Placement} {s s' : State} {trap : Trap} (inv : Inv s)
    (ran : realSyscallHandler fs place s trap = .ok s') :
    ∃ proc ret, s.toTables.Awake s.currentProcess proc ∧
      RunOf Act (StepLabel ⟨s.currentProcess, proc.serial⟩ (trapRights fs trap) ret)
        s.toTables s'.toTables := by
  obtain ⟨proc, awake, _, outcome⟩ := step_cases inv ran
  have enter := entered_acts trap awake
  rcases outcome with ⟨_, same⟩ | ⟨callsys, called, ret, passed, known, applied, checked, stored⟩
  · refine ⟨proc, 0, awake, ?_⟩
    rw [same]
    exact enter.mono fun label kind => Or.inl kind
  · have handler := handler_acts inv awake known applied
    have pass := (checkAll_acts checked).1
    have store := Act.regs passed.toTables s.currentProcess (Tss.setRetval ret)
    refine ⟨proc, ret, awake, ?_⟩
    rw [stored]
    refine (enter.mono ?_).trans ((handler.mono ?_).trans ((pass.mono ?_).trans ?_))
    · exact fun label kind => Or.inl kind
    · exact fun label kind => Or.inr (Or.inl kind)
    · exact fun label kind => Or.inr (Or.inr kind)
    · exact RunOf.single store (Or.inl rfl)

theorem Inv.step {fs : FileSystem} {place : Placement} {s s' : State} {trap : Trap} (inv : Inv s)
    (ran : realSyscallHandler fs place s trap = .ok s') : Inv s' := by
  obtain ⟨proc, _, ⟨next, awake, _⟩, _⟩ := step_cases inv ran
  obtain ⟨_, _, _, acts⟩ := step_acts inv ran
  exact ⟨inv.queues.run acts, inv.fixtures.run acts, next, awake⟩

def bootTables (lastExitCode : Pid → Nat) : Tables :=
  { (initialTables lastExitCode).setProcess 0 (some initProcess) with nextSerial := 5 }

theorem bootTables_pendingAt (codes : Pid → Nat) (slot : Slot) :
    (bootTables codes).pendingAt slot = [] := by
  simp only [Tables.pendingAt, bootTables, setProcess_devices, initialTables]
  split
  · rfl
  · rfl
  · rfl
  · rfl
  · rfl

theorem bootTables_process (codes : Pid → Nat) (pid : Pid) :
    (bootTables codes).processList pid = if pid = 0 then some initProcess else none := by
  simp only [bootTables, setProcess_processList, Function.update_apply, initialTables]

theorem bootTables_queues (codes : Pid → Nat) : Queues (bootTables codes) := by
  have only : ∀ pid proc, (bootTables codes).processList pid = some proc → proc = initProcess := by
    intro pid proc found
    rw [bootTables_process] at found
    split at found
    · exact (Option.some.inj found).symm
    · cases found
  constructor
  · intro pid proc found
    rw [only pid proc found]
    exact Nat.lt_succ_self 4
  · intro pid proc found backup
    rw [only pid proc found] at backup
    cases backup
  · intro slot req member
    simp [bootTables_pendingAt] at member
  · intro slot req member
    simp [bootTables_pendingAt] at member
  · intro pid proc found sleeping
    rw [only pid proc found] at sleeping
    cases sleeping
  · intro slot
    simp [bootTables_pendingAt]
  · intro slot other req member
    simp [bootTables_pendingAt] at member
  · intro pid pos slot found
    obtain ⟨proc, known, held⟩ := Option.bind_eq_some_iff.mp found
    rw [only pid proc known] at held
    simp only [initProcess] at held
    split at held
    · cases held
      rfl
    · cases held

theorem bootTables_fixtures (codes : Pid → Nat) : Fixtures (bootTables codes) :=
  ⟨⟨[], rfl⟩, ⟨[], rfl⟩, ⟨[], rfl⟩, ⟨[], rfl⟩⟩

theorem enterInit_acts {fs : FileSystem} {place : Placement} {boot : BootInfo} {s : State}
    (started : enterInit fs place boot = .ok s) :
    ∃ t, RunOf Act (CallLabel ⟨0, 4⟩ ⟨False, False, True, False, False⟩ 0) (bootTables boot.lastExitCode) t ∧
      s.toTables = t.modify 0 (fun proc => { proc with processScheType := .idle }) ∧
      s.currentProcess = 0 ∧ ∃ proc, t.Awake 0 proc := by
  simp only [enterInit] at started
  split at started
  · cases started
  · next loaded ret executed =>
      have awake : (bootTables boot.lastExitCode).Awake 0 initProcess :=
        ⟨bootTables_process boot.lastExitCode 0, rfl⟩
      have allowed : Loads fs hltPath boot.around → (Rights.mk False False True False False).loads :=
        fun _ => trivial
      obtain ⟨acts, next, still⟩ := execv_acts awake allowed executed
      split at started
      · next success =>
          refine ⟨loaded.toTables, ?_, ?_, ?_, next, still⟩
          · rw [success] at acts
            exact acts
          · rw [← Except.ok.inj started]
            simp only [leaveKernelMode]
            split
            · rfl
            · rfl
          · rw [← Except.ok.inj started]
            simp only [leaveKernelMode]
            split
            · rfl
            · rfl
      · cases started

theorem Inv.boot {fs : FileSystem} {place : Placement} {boot : BootInfo} {s : State}
    (started : enterInit fs place boot = .ok s) : Inv s := by
  obtain ⟨t, acts, tables, current, proc, awake⟩ := enterInit_acts started
  have queues := (bootTables_queues boot.lastExitCode).run acts
  have fixtures := (bootTables_fixtures boot.lastExitCode).run acts
  constructor
  · rw [tables]
    exact queues.modify_same 0 (fun _ => rfl) (fun _ => rfl)
  · rw [tables]
    exact ⟨fixtures.com1, fixtures.con, fixtures.wait, fixtures.sleep⟩
  · refine ⟨{ proc with processScheType := .idle }, ?_, awake.2⟩
    rw [tables, current, modify_processList, if_pos rfl, awake.1, Option.map_some]

/-- Everything reachable satisfies the invariant, and more that steps preserve. -/
theorem Reachable.induct {fs : FileSystem} {place : Placement} {program : State → Trap → Prop}
    (holds : State → Prop) {s : State} (reachable : Reachable fs place program s)
    (initial : ∀ boot first, enterInit fs place boot = .ok first → holds first)
    (preserved : ∀ mid trap next, Inv mid → holds mid → program mid trap →
      realSyscallHandler fs place mid trap = .ok next → holds next) : Inv s ∧ holds s := by
  obtain ⟨boot, first, traps, started, run⟩ := reachable
  apply run.invariant (fun s => Inv s ∧ holds s) ⟨Inv.boot started, initial boot first started⟩
  intro mid trap next _ both taken
  exact ⟨both.1.step taken.2, preserved mid trap next both.1 both.2 taken.1 taken.2⟩

theorem Reachable.inv {fs : FileSystem} {place : Placement} {program : State → Trap → Prop}
    {s : State} (reachable : Reachable fs place program s) : Inv s :=
  (reachable.induct (fun _ => True) (fun _ _ _ => trivial) (fun _ _ _ _ _ _ _ => trivial)).1

theorem Reachable.mono {fs : FileSystem} {place : Placement} {program wider : State → Trap → Prop}
    {s : State} (reachable : Reachable fs place program s)
    (allowed : ∀ s trap, program s trap → wider s trap) : Reachable fs place wider s := by
  obtain ⟨boot, first, traps, started, run⟩ := reachable
  refine ⟨boot, first, traps, started, run.mono ?_⟩
  intro mid trap next taken
  exact ⟨allowed mid trap taken.1, taken.2⟩

section Sample

def smallVolume : FileSystem where
  openFile path :=
    if path = hltPath then
      some ⟨[0x7f, 0x45, 0x4c, 0x46, 1, 1] ++ List.replicate 46 0, none⟩
    else none

def smallPlacement : Placement := ⟨0x7000000, 0x500000⟩

def smallSurroundings : Surroundings := ⟨fun _ _ => 0, fun _ => (0, 0, 0), fun _ => true⟩

def smallBoot : BootInfo where
  mem := fun _ => 0
  hw := ⟨0, processTicks, [], [], []⟩
  userTss := default
  lastExitCode := fun _ => 0
  args := []
  around := smallSurroundings

def plainCall (eax ebx ecx edx : Nat) : Trap where
  regs := { (default : Tss) with eax := eax, ebx := ebx, ecx := ecx, edx := edx }
  mem := fun _ => 0
  user := []
  arrivals := ⟨[], fun _ => [], fun _ => [], []⟩
  around := smallSurroundings
  occupied := false
  exitCode := 0

def callWith (bytes : List UInt8) (eax ebx ecx edx : Nat) : Trap :=
  { plainCall eax ebx ecx edx with mem := copyTo (fun _ => 0) 100 bytes }

variable (program : State → Trap → Prop) [∀ s trap, Decidable (program s trap)]

def smallStep (s : State) (trap : Trap) : Option State :=
  if program s trap then (realSyscallHandler smallVolume smallPlacement s trap).toOption else none

def smallRun (traps : List Trap) : Option State :=
  (enterInit smallVolume smallPlacement smallBoot).toOption.bind fun first =>
    traps.foldlM (smallStep program) first

theorem toOption_eq_some {α : Type} {result : Except Stop α} {value : α}
    (returned : result.toOption = some value) : result = .ok value := by
  cases result with
  | error stop => cases returned
  | ok other => exact congrArg Except.ok (Option.some.inj returned)

theorem smallRun_sound {traps : List Trap} {s : State} (ran : smallRun program traps = some s) :
    ∃ first, enterInit smallVolume smallPlacement smallBoot = .ok first ∧
      Run (Step smallVolume smallPlacement program) first traps s := by
  obtain ⟨first, started, folded⟩ := Option.bind_eq_some_iff.mp ran
  refine ⟨first, toOption_eq_some started, ?_⟩
  apply Run.of_foldlM (smallStep program) _ folded
  intro mid trap next taken
  simp only [smallStep] at taken
  split at taken
  · next allowed => exact ⟨allowed, toOption_eq_some taken⟩
  · cases taken

theorem smallRun_reachable {traps : List Trap} {s : State}
    (ran : smallRun program traps = some s) :
    Reachable smallVolume smallPlacement program s := by
  obtain ⟨first, started, run⟩ := smallRun_sound program ran
  exact ⟨smallBoot, first, traps, started, run⟩

theorem smallRun_exists (traps : List Trap) (goal : State → Prop) [DecidablePred goal]
    (ran : (smallRun program traps).any (fun s => goal s)) :
    ∃ s, Reachable smallVolume smallPlacement program s ∧ goal s := by
  obtain ⟨s, reached, holds⟩ := (Option.any_eq_true _ _).mp ran
  exact ⟨s, smallRun_reachable program reached, of_decide_eq_true holds⟩

end Sample

end SysImpl.Kernel
