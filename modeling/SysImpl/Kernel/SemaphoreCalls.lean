import SysImpl.Kernel.Contexts
import SysImpl.Kernel.Semaphores

/-! What a single call does to a semaphore.

A wait or a signal on a semaphore is in the log if and only if the call of the step is one. A
process that closes nothing keeps its objects, and a semaphore that somebody holds stays. -/

namespace SysImpl.Kernel

open Runs

variable {t t' : Tables} {label : Label} {pid : Pid} {proc : Process} {slot : Slot}
  {device : Device} {p : ProcPtr} {d : Nat}

def Label.issues : Label → Prop
  | .done _ _ _ => True
  | .block _ _ => True
  | _ => False

def Label.raises : Label → Prop
  | .signal _ => True
  | _ => False

theorem issuedOn_other {event : Event} {log : List Event} (other : issueOf d event = none) :
    issuedOn d (event :: log) = issuedOn d log := by
  rw [issuedOn_cons, other]
  exact List.append_nil _

theorem Act.issuedOn_same (act : Act t label t') (quiet : ¬ label.issues) (d : Nat) :
    issuedOn d t'.log = issuedOn d t.log := by
  cases act with
  | detach => rw [removeObject_log]
  | kill =>
      rw [processExit_log, wakeParent_log]
      exact issuedOn_other rfl
  | image =>
      rw [wakeParent_log]
      exact issuedOn_other rfl
  | regs => rfl
  | attach => rfl
  | requeue => rfl
  | done => exact absurd trivial quiet
  | block => exact absurd trivial quiet
  | _ => exact issuedOn_other rfl

theorem signalsOn_other {event : Event} {log : List Event} (other : event ≠ .signalled d) :
    signalsOn d (event :: log) = signalsOn d log :=
  List.count_cons_of_ne other

theorem Act.signalsOn_same (act : Act t label t') (quiet : ¬ label.raises) (d : Nat) :
    signalsOn d t'.log = signalsOn d t.log := by
  cases act with
  | detach => rw [removeObject_log]
  | kill =>
      rw [processExit_log, wakeParent_log]
      exact signalsOn_other (by simp)
  | image =>
      rw [wakeParent_log]
      exact signalsOn_other (by simp)
  | regs => rfl
  | attach => rfl
  | requeue => rfl
  | signal => exact absurd trivial quiet
  | done => exact (signalsOn_other (by simp)).trans (signalsOn_other (by simp))
  | _ => exact signalsOn_other (by simp)

theorem issuedOn_run {kind : Label → Prop} (run : RunOf Act kind t t')
    (quiet : ∀ label, kind label → ¬ label.issues) (d : Nat) :
    issuedOn d t'.log = issuedOn d t.log := by
  refine run.invariant (fun mid => issuedOn d mid.log = issuedOn d t.log) rfl ?_
  intro mid label next allowed same act
  rw [act.issuedOn_same (quiet label allowed), same]

theorem signalsOn_run {kind : Label → Prop} (run : RunOf Act kind t t')
    (quiet : ∀ label, kind label → ¬ label.raises) (d : Nat) :
    signalsOn d t'.log = signalsOn d t.log := by
  refine run.invariant (fun mid => signalsOn d mid.log = signalsOn d t.log) rfl ?_
  intro mid label next allowed same act
  rw [act.signalsOn_same (quiet label allowed), same]

def deviceOf (t : Tables) (proc : Process) (fd : Nat) : Option Device :=
  match getObject proc fd with
  | .ok (some (.device slot)) => t.devices slot
  | _ => none

def waitsOn (t : Tables) (proc : Process) (trap : Trap) : Option Nat :=
  if callsysOf trap.regs.eax = some .read then (deviceOf t proc trap.regs.ebx).map Device.serial
  else none

def signalsTo (t : Tables) (proc : Process) (trap : Trap) : Option Nat :=
  if callsysOf trap.regs.eax = some .write then
    ((deviceOf t proc trap.regs.ebx).filter Device.isSemaphore).map Device.serial
  else none

structure Counts (p : ProcPtr) (size : Nat) (wait signal : Option Nat) (t t' : Tables) : Prop where
  issued : ∀ d, issuedOn d t'.log = issuedOn d t.log ++ if wait = some d then [(p, size)] else []
  signals : ∀ d, signalsOn d t'.log = signalsOn d t.log + if signal = some d then 1 else 0

def CalmLabel (p : ProcPtr) : Label → Prop
  | .await q => q = p
  | .signal _ => True
  | .spawn q _ _ => q = p
  | .done _ q _ => q = p
  | .block _ q => q = p
  | _ => False

theorem Counts.quiet {size : Nat} {t t' : Tables}
    (issued : ∀ d, issuedOn d t'.log = issuedOn d t.log)
    (signals : ∀ d, signalsOn d t'.log = signalsOn d t.log) :
    Counts p size none none t t' :=
  ⟨fun d => (issued d).trans (List.append_nil _).symm, signals⟩

theorem Counts.run {kind : Label → Prop} {size : Nat} {t t' : Tables}
    (run : RunOf Act kind t t') (issues : ∀ label, kind label → ¬ label.issues)
    (raises : ∀ label, kind label → ¬ label.raises) : Counts p size none none t t' :=
  .quiet (issuedOn_run run issues) (signalsOn_run run raises)

theorem Counts.before {size : Nat} {wait signal : Option Nat} {t mid t' : Tables}
    (first : Counts p size none none t mid) (second : Counts p size wait signal mid t') :
    Counts p size wait signal t t' := by
  refine ⟨fun d => ?_, fun d => ?_⟩
  · rw [second.issued, first.issued]
    simp
  · rw [second.signals, first.signals]
    simp

theorem Counts.after {size : Nat} {wait signal : Option Nat} {t mid t' : Tables}
    (first : Counts p size wait signal t mid) (second : Counts p size none none mid t') :
    Counts p size wait signal t t' := by
  refine ⟨fun d => ?_, fun d => ?_⟩
  · rw [second.issued, first.issued]
    simp
  · rw [second.signals, first.signals]
    simp

theorem readDevice_act {s s' : State} {buffer size : Nat} {pos : Fd} {ret : Int}
    (awake : s.toTables.Awake s.currentProcess proc)
    (held : proc.objects pos = some (.device slot))
    (read : readDevice s slot buffer size = .ok (s', ret)) :
    RunOf Act (CalmLabel ⟨s.currentProcess, proc.serial⟩) s.toTables s'.toTables ∧
      Counts ⟨s.currentProcess, proc.serial⟩ size ((s.devices slot).map Device.serial) none
        s.toTables s'.toTables := by
  cases found : s.devices slot with
  | none => simp [readDevice, awake.1, found] at read
  | some device =>
      have issue : ∀ (d : Nat) (log : List Event),
          issuedOn d (.issued device.serial ⟨s.currentProcess, proc.serial⟩ size :: log) =
            issuedOn d log ++ if (some device).map Device.serial = some d then
              [(⟨s.currentProcess, proc.serial⟩, size)] else [] := by
        intro d log
        simp only [issuedOn_cons, issueOf, Option.map_some, Option.some.injEq]
        split_ifs <;> rfl
      have here : (s.note (.issued device.serial ⟨s.currentProcess, proc.serial⟩ size)).devices
          slot = some device := found
      simp only [readDevice, awake.1, found, doRead, here] at read
      rcases (inputRead_spec here buffer size).2 with
        ⟨blocked, tables, spec⟩ | ⟨passed, input, tables, spec⟩
      · rw [if_pos blocked] at read
        split at read
        · simp only [Except.ok.injEq, Prod.mk.injEq] at read
          have appended : (s.note (.issued device.serial ⟨s.currentProcess, proc.serial⟩
              size)).modifyDevice slot (fun device => { device with
                pendingRequest := device.pendingRequest ++
                  [⟨⟨s.currentProcess, proc.serial⟩, buffer, size⟩] }) =
              (s.note (.issued device.serial ⟨s.currentProcess, proc.serial⟩
                size)).modifyDevice slot (Device.setPending (device.pendingRequest ++
                  [⟨⟨s.currentProcess, proc.serial⟩, buffer, size⟩])) := by
            simp only [Tables.modifyDevice, here, Option.map_some, Device.setPending]
          rw [← read.1]
          simp only [tables, appended]
          exact ⟨RunOf.single (Act.block buffer awake found held spec) rfl,
            fun d => issue d _, fun d => signalsOn_other (by simp)⟩
        · cases read
      · rw [if_neg passed] at read
        simp only [Except.ok.injEq, Prod.mk.injEq] at read
        have act := Act.done awake found spec
        rw [← read.1, State.note_tables, tables]
        exact ⟨RunOf.single act rfl, fun d => (issuedOn_other rfl).trans (issue d _),
          fun d => (signalsOn_other (by simp)).trans (signalsOn_other (by simp))⟩

theorem readHandler_act {s s' : State} {fd buffer size : Nat} {ret : Int}
    (awake : s.toTables.Awake s.currentProcess proc)
    (read : readHandler s proc fd buffer size = .ok (s', ret)) :
    RunOf Act (CalmLabel ⟨s.currentProcess, proc.serial⟩) s.toTables s'.toTables ∧
      Counts ⟨s.currentProcess, proc.serial⟩ size
        ((deviceOf s.toTables proc fd).map Device.serial) none s.toTables s'.toTables := by
  have still : ∀ {s' : State}, s'.toTables = s.toTables → deviceOf s.toTables proc fd = none →
      RunOf Act (CalmLabel ⟨s.currentProcess, proc.serial⟩) s.toTables s'.toTables ∧
      Counts ⟨s.currentProcess, proc.serial⟩ size
        ((deviceOf s.toTables proc fd).map Device.serial) none s.toTables s'.toTables := by
    intro s' same none
    rw [same, none]
    exact ⟨RunOf.refl _, .quiet (fun d => rfl) (fun d => rfl)⟩
  simp only [readHandler] at read
  split at read
  · cases read
  · next got =>
      simp only [Except.ok.injEq, Prod.mk.injEq] at read
      rw [← read.1]
      exact still rfl (by rw [deviceOf, got])
  · next slot got =>
      obtain ⟨inside, held⟩ := getObject_ok got
      have named : deviceOf s.toTables proc fd = s.devices slot := by rw [deviceOf, got]
      rw [named]
      exact readDevice_act awake held read
  · next got =>
      simp only [Except.ok.injEq, readFile] at read
      refine still ?_ (by rw [deviceOf, got])
      split at read
      · simp only [Prod.mk.injEq] at read
        rw [← read.1]
      · simp only [Prod.mk.injEq] at read
        rw [← read.1]
  · next got =>
      simp only [Except.ok.injEq, Prod.mk.injEq] at read
      rw [← read.1]
      exact still rfl (by rw [deviceOf, got])

theorem writeProcessWait_act {s : State} (trap : Trap) (data size length : Nat)
    (awake : s.toTables.Awake s.currentProcess proc) :
    RunOf Act (CalmLabel ⟨s.currentProcess, proc.serial⟩) s.toTables
        (writeProcessWait s trap ⟨s.currentProcess, proc.serial⟩ data size).1.toTables ∧
      Counts ⟨s.currentProcess, proc.serial⟩ length none none s.toTables
        (writeProcessWait s trap ⟨s.currentProcess, proc.serial⟩ data size).1.toTables := by
  simp only [writeProcessWait]
  split
  · exact ⟨RunOf.refl _, .quiet (fun d => rfl) (fun d => rfl)⟩
  · refine ⟨RunOf.single (Act.await awake ?_) rfl,
      .quiet (fun d => issuedOn_other rfl) (fun d => signalsOn_other (by simp))⟩
    simp only [AwaitSpec]
    split
    · rfl
    · split
      · exact Or.inl rfl
      · exact Or.inr rfl

theorem writeHandler_act {s s' : State} {trap : Trap} {fd buffer size : Nat} {ret : Int}
    (awake : s.toTables.Awake s.currentProcess proc)
    (written : writeHandler s trap proc fd buffer size = .ok (s', ret)) :
    RunOf Act (CalmLabel ⟨s.currentProcess, proc.serial⟩) s.toTables s'.toTables ∧
      Counts ⟨s.currentProcess, proc.serial⟩ size none
        (((deviceOf s.toTables proc fd).filter Device.isSemaphore).map Device.serial)
        s.toTables s'.toTables := by
  have still : ∀ {s' : State}, s'.toTables = s.toTables →
      RunOf Act (CalmLabel ⟨s.currentProcess, proc.serial⟩) s.toTables s'.toTables ∧
      Counts ⟨s.currentProcess, proc.serial⟩ size none none s.toTables s'.toTables := by
    intro s' same
    rw [same]
    exact ⟨RunOf.refl _, .quiet (fun d => rfl) (fun d => rfl)⟩
  simp only [writeHandler] at written
  split at written
  · cases written
  · next slot got =>
      have named : deviceOf s.toTables proc fd = s.devices slot := by rw [deviceOf, got]
      rw [named]
      cases found : s.devices slot with
      | none => simp [writeDevice, found] at written
      | some device =>
          cases kind : device.input with
          | semaphore cnt =>
              simp only [writeDevice, found, kind, Except.ok.injEq, writeSemaphore,
                Prod.mk.injEq] at written
              have semaphore : device.isSemaphore = true := by rw [Device.isSemaphore, kind]
              rw [← written.1, Option.filter_some, if_pos semaphore]
              refine ⟨RunOf.single (Act.signal found kind) trivial,
                fun d => (issuedOn_other rfl).trans (List.append_nil _).symm, fun d => ?_⟩
              refine List.count_cons.trans ?_
              simp [signalsOn]
          | serialIo =>
              have other : device.isSemaphore = false := by rw [Device.isSemaphore, kind]
              simp only [writeDevice, found, kind, Except.ok.injEq, Prod.mk.injEq] at written
              rw [← written.1, Option.filter_some, other]
              exact still rfl
          | vgaText =>
              have other : device.isSemaphore = false := by rw [Device.isSemaphore, kind]
              simp only [writeDevice, found, kind, Except.ok.injEq, Prod.mk.injEq] at written
              rw [← written.1, Option.filter_some, other]
              exact still rfl
          | processWait =>
              have other : device.isSemaphore = false := by rw [Device.isSemaphore, kind]
              simp only [writeDevice, found, kind, Except.ok.injEq] at written
              have acts := writeProcessWait_act trap buffer size size awake
              rw [written] at acts
              rw [Option.filter_some, other]
              exact acts
          | sleepDevice =>
              have other : device.isSemaphore = false := by rw [Device.isSemaphore, kind]
              simp only [writeDevice, found, kind, Except.ok.injEq, writeSleepDevice] at written
              rw [Option.filter_some, other]
              refine still ?_
              split at written
              · rw [Prod.mk.injEq] at written
                rw [← written.1]
              · rw [Prod.mk.injEq] at written
                rw [← written.1]
  · next held other got =>
      simp only [Except.ok.injEq, Prod.mk.injEq] at written
      have named : deviceOf s.toTables proc fd = none := by
        rw [deviceOf]
        split
        · next slot same =>
            rw [got, Except.ok.injEq] at same
            exact absurd same (other slot)
        · rfl
      rw [← written.1, named]
      exact still rfl

def Callsys.calm : Callsys → Bool
  | .read | .write | .thread | .schedYield => true
  | _ => false

variable {fs : FileSystem} {place : Placement} {s s' called : State} {trap : Trap}
  {callsys : Callsys} {ret : Int}

theorem handler_calm (awake : s.toTables.Awake s.currentProcess proc)
    (calm : callsys.calm = true)
    (applied : applyHandler fs place (entered s trap proc) trap (proc.trapped trap) callsys =
      .ok (called, ret)) :
    RunOf Act (CalmLabel ⟨s.currentProcess, proc.serial⟩) (entered s trap proc).toTables
      called.toTables := by
  have ready := entered_awake trap awake
  cases callsys with
  | read => exact (readHandler_act ready applied).1
  | write => exact (writeHandler_act ready applied).1
  | thread =>
      obtain ⟨child, cloned, -⟩ := applyHandler_thread applied
      obtain ⟨parent, found, free, mode⟩ := clone_ok cloned
      rw [show (entered s trap proc).currentProcess = s.currentProcess from rfl, ready.1,
        Option.some.injEq] at found
      subst found
      rcases mode with ⟨impossible, -⟩ | ⟨code, data, -, rfl⟩
      · cases impossible
      · exact RunOf.single (Act.thread _ ready (freeSlot_free free)) rfl
  | schedYield =>
      obtain ⟨chosen, -⟩ := applyHandler_schedYield applied
      rw [(resche_spec chosen).1]
      exact RunOf.refl _
  | _ => cases calm

theorem handler_counts (inv : Inv s) (awake : s.toTables.Awake s.currentProcess proc)
    (known : callsysOf trap.regs.eax = some callsys)
    (applied : applyHandler fs place (entered s trap proc) trap (proc.trapped trap) callsys =
      .ok (called, ret)) :
    Counts ⟨s.currentProcess, proc.serial⟩ trap.regs.edx (waitsOn s.toTables proc trap)
      (signalsTo s.toTables proc trap) (entered s trap proc).toTables called.toTables := by
  have ready := entered_awake trap awake
  have acts := handler_acts inv awake known applied
  rw [waitsOn, signalsTo, known]
  by_cases reads : callsys = .read
  · subst reads
    exact (readHandler_act ready applied).2
  · by_cases writes : callsys = .write
    · subst writes
      exact (writeHandler_act ready applied).2
    · rw [if_neg fun same => reads (Option.some.inj same),
        if_neg fun same => writes (Option.some.inj same)]
      refine Counts.run acts (fun label kind issues => ?_) (fun label kind raises => ?_)
      · have read : callsysOf trap.regs.eax = some .read := by
          cases label <;> first | exact kind.2.1 | exact issues.elim
        exact reads (Option.some.inj (known.symm.trans read))
      · have write : callsysOf trap.regs.eax = some .write := by
          cases label <;> first | exact kind | exact raises.elim
        exact writes (Option.some.inj (known.symm.trans write))

theorem entered_counts (trap : Trap) (size : Nat) :
    Counts p size none none s.toTables (entered s trap proc).toTables :=
  .quiet (fun d => issuedOn_other rfl) (fun d => signalsOn_other (by simp))

/-- The waits and signals of a step are those its call asks for. -/
theorem step_counts (inv : Inv s) (ran : realSyscallHandler fs place s trap = .ok s') :
    ∃ proc, s.toTables.Awake s.currentProcess proc ∧
      Counts ⟨s.currentProcess, proc.serial⟩ trap.regs.edx (waitsOn s.toTables proc trap)
        (signalsTo s.toTables proc trap) s.toTables s'.toTables := by
  obtain ⟨proc, awake, -, outcome⟩ := step_cases inv ran
  refine ⟨proc, awake, ?_⟩
  have enter := @entered_counts proc ⟨s.currentProcess, proc.serial⟩ s trap trap.regs.edx
  rcases outcome with ⟨none, same⟩ | ⟨callsys, called, ret, passed, known, applied, checked, stored⟩
  · rw [same, waitsOn, signalsTo, none]
    exact enter
  · have handler := handler_counts inv awake known applied
    have pass := (checkAll_acts checked).1
    have later : Counts ⟨s.currentProcess, proc.serial⟩ trap.regs.edx none none called.toTables
        passed.toTables := by
      refine Counts.run pass (fun label kind issues => ?_) (fun label kind raises => ?_)
      · obtain ⟨slot, kind⟩ := kind
        cases label <;> first | exact kind.elim | exact issues.elim
      · obtain ⟨slot, kind⟩ := kind
        cases label <;> first | exact kind.elim | exact raises.elim
    have last : Counts ⟨s.currentProcess, proc.serial⟩ trap.regs.edx none none passed.toTables
        s'.toTables := by
      rw [stored]
      exact .quiet (fun d => rfl) (fun d => rfl)
    exact enter.before ((handler.after later).after last)

def Label.rebinds (p : ProcPtr) : Label → Prop
  | .attach pid => pid = p.pid
  | .detach pid => pid = p.pid
  | .kill q => q = p
  | _ => False

/-- What a process has that neither its registers nor its sleep touches. -/
structure Steady {α : Type} (view : Process → α) : Prop where
  tss : ∀ f proc, view (Process.setTss f proc) = view proc
  stack : ∀ m proc, view (Process.keepStack m proc) = view proc
  wake : ∀ proc, view (Process.wake proc) = view proc
  state : ∀ state proc, view (Process.setProcessState state proc) = view proc

theorem objects_steady : Steady Process.objects where
  tss _ _ := rfl
  stack _ _ := rfl
  wake proc := by
    rw [Process.wake]
    split
    · rfl
    · rfl
  state _ _ := rfl

theorem scheType_steady : Steady Process.processScheType where
  tss _ _ := rfl
  stack _ _ := rfl
  wake proc := by
    rw [Process.wake]
    split
    · rfl
    · rfl
  state _ _ := rfl

section Steady

variable {α : Type} {view : Process → α} {value : α}

theorem Steady.wakeParent (steady : Steady view) (ppid : Option Pid) :
    (t.wakeParent ppid).viewAt view p = t.viewAt view p := by
  cases ppid with
  | none => rfl
  | some parent =>
      refine viewAt_modify parent _ fun proc => ⟨?_, steady.wake proc⟩
      rw [Process.wake]
      split
      · rfl
      · rfl

theorem Steady.act (steady : Steady view) (act : Act t label t')
    (aside : ¬ label.rebinds p ∨ label ≠ .kill p ∧
      ∀ pos obj proc, view (Process.bind pos obj proc) = view proc)
    (known : t.viewAt view p = some value) : t'.viewAt view p = some value := by
  obtain ⟨own, found, serial, -⟩ := viewAt_eq_some.mp known
  have occupied : ∀ {child : Pid}, t.processList child = none → p.pid ≠ child := by
    rintro child free rfl
    rw [free] at found
    cases found
  have bound : ∀ pid pos obj, (p.pid ≠ pid ∨
      ∀ pos obj proc, view (Process.bind pos obj proc) = view proc) →
      (t.modify pid (Process.bind pos obj)).viewAt view p = t.viewAt view p := by
    rintro pid pos obj (differs | same)
    · exact viewAt_modify_other differs
    · exact viewAt_modify pid _ fun proc => ⟨rfl, same pos obj proc⟩
  rw [← known]
  cases act with
  | regs pid f => exact viewAt_modify pid _ fun proc => ⟨rfl, steady.tss f proc⟩
  | @attach pid proc pos obj => exact bound pid pos (some obj) (aside.imp Ne.symm And.right)
  | @detach other proc pos awake =>
      rcases removeObject_processes t other pos with same | removed
      · exact viewAt_congr (congrFun same p.pid)
      · rw [viewAt_congr (congrFun removed p.pid)]
        exact bound other pos none (aside.imp Ne.symm And.right)
  | @fork pid proc child m awake free =>
      refine (viewAt_congr (t := t.modify pid (Process.keepStack m)) ?_).trans
        (viewAt_modify pid (Process.keepStack m) fun proc => ⟨rfl, steady.stack m proc⟩)
      exact Function.update_of_ne (occupied free) _ _
  | @thread pid proc child tss awake free =>
      exact viewAt_congr (Function.update_of_ne (occupied free) _ _)
  | @kill pid proc code awake =>
      have differs : p.pid ≠ pid := by
        intro same
        rw [same, awake.1, Option.some.injEq] at found
        have owner : (⟨pid, proc.serial⟩ : ProcPtr) = p := by
          rw [found, ← same]
          exact ProcPtr.ext_of rfl serial
        rcases aside with other | ⟨other, -⟩
        · exact other owner
        · exact other (congrArg Label.kill owner)
      refine (steady.wakeParent (t := (t.setProcess pid none).note _) proc.ppid).trans ?_
      exact viewAt_congr (Function.update_of_ne differs _ _)
  | @image pid proc awake => exact steady.wakeParent (t := t.note _) proc.ppid
  | @block pid =>
      exact viewAt_modify (t := t) pid (Process.setProcessState .sleeping)
        fun proc => ⟨rfl, steady.state _ proc⟩
  | @serve slot device now rest ret =>
      refine (viewAt_modify now.proc.pid (Process.setRetval ret)
        fun proc => ⟨rfl, steady.tss _ proc⟩).trans ?_
      exact viewAt_modify (t := t) now.proc.pid (Process.setProcessState .runnable)
        fun proc => ⟨rfl, steady.state _ proc⟩
  | @requeue slot device now =>
      refine (viewAt_modify now.proc.pid (Process.setRetval eagain)
        fun proc => ⟨rfl, steady.tss _ proc⟩).trans ?_
      exact viewAt_modify (t := t) now.proc.pid (Process.setProcessState .sleeping)
        fun proc => ⟨rfl, steady.state _ proc⟩
  | _ => rfl

end Steady

theorem Act.semaphore_stays {pos : Fd} (act : Act t label t') (found : t.devices slot = some device)
    (semaphore : device.isSemaphore = true)
    (held : t'.objectAt pid pos = some (.device slot)) :
    ∃ device', t'.devices slot = some device' ∧ device'.serial = device.serial ∧
      device'.isSemaphore = true := by
  have same : ∃ device', t.devices slot = some device' ∧ device'.serial = device.serial ∧
      device'.isSemaphore = true := ⟨device, found, rfl, semaphore⟩
  have changed : ∀ {t : Tables} (other : Slot) {f : Device → Device},
      t.devices slot = some device →
      (other = slot → (f device).serial = device.serial ∧ (f device).isSemaphore = true) →
      ∃ device', (t.modifyDevice other f).devices slot = some device' ∧
        device'.serial = device.serial ∧ device'.isSemaphore = true := by
    intro t other f known keeps
    rw [modifyDevice_devices]
    by_cases here : slot = other
    · rw [if_pos here, known]
      exact ⟨f device, rfl, keeps here.symm⟩
    · rw [if_neg here]
      exact ⟨device, known, rfl, semaphore⟩
  have taken : ∀ {pid : Pid} {size : Nat} {ret : Int} {data : List UInt8} {input : Input},
      ReadSpec t pid size ret data device.input input →
        (device.setInput input).isSemaphore = true := by
    intro pid size ret data input spec
    cases kind : device.input with
    | semaphore cnt =>
        rw [kind] at spec
        rw [Device.isSemaphore, Device.setInput, spec.2.2]
    | _ => simp [Device.isSemaphore, kind] at semaphore
  cases act with
  | @detach other proc pos' awake =>
      cases object : proc.objects pos' with
      | none =>
          simp only [Tables.removeObject, awake.1, object]
          exact same
      | some obj =>
          simp only [Tables.removeObject, awake.1, object] at held ⊢
          cases obj with
          | file id => exact same
          | segment base size => exact same
          | device gone =>
              have removed := changed (t := t) gone (f := fun device => { device with
                pendingRequest := device.pendingRequest.eraseP fun req =>
                  req.proc = (⟨other, proc.serial⟩ : ProcPtr) }) found fun _ => ⟨rfl, semaphore⟩
              simp only [Tables.dropReference] at held ⊢
              split at held
              · next unused =>
                  have differs : slot ≠ gone := by
                    rintro rfl
                    exact unused.2 ⟨pid, pos, held⟩
                  rw [if_pos unused, setDevice_devices, Function.update_of_ne differs]
                  exact removed
              · next used =>
                  rw [if_neg used]
                  exact removed
  | signal known kind => exact changed (t := t) _ found fun _ => ⟨rfl, rfl⟩
  | @newSem other cnt free =>
      have differs : slot ≠ other := by
        rintro rfl
        rw [free] at found
        cases found
      simp only [Tables.newSemaphore, note_devices, setDevice_devices,
        Function.update_of_ne differs]
      exact same
  | kill code awake =>
      rw [processExit_devices, wakeParent_devices]
      exact same
  | image awake =>
      rw [wakeParent_devices]
      exact same
  | @done _ _ other _ _ _ _ _ awake known spec =>
      refine changed (t := t.note _) other found fun here => ?_
      rw [here, found, Option.some.injEq] at known
      subst known
      exact ⟨rfl, taken spec⟩
  | block buffer awake known => exact changed (t := t.note _) _ found fun _ => ⟨rfl, semaphore⟩
  | @serve other _ _ _ _ _ _ known queue spec =>
      refine changed (t := t.modify _ _) other found fun here => ?_
      rw [here, found, Option.some.injEq] at known
      subst known
      exact ⟨rfl, taken spec⟩
  | requeue known queue kind => exact changed (t := t) _ found fun _ => ⟨rfl, semaphore⟩
  | _ => exact same

def Tables.Has (t : Tables) (p : ProcPtr) (objects : Fd → Option Object) : Prop :=
  t.viewAt Process.objects p = some objects

def Tables.SemaphoreIn (t : Tables) (slot : Slot) (d : Nat) : Prop :=
  ∃ device, t.devices slot = some device ∧ device.serial = d ∧ device.isSemaphore = true

theorem Tables.Has.objectAt {objects : Fd → Option Object} (has : t.Has p objects) (pos : Fd) :
    t.objectAt p.pid pos = objects pos := by
  obtain ⟨proc, found, -, same⟩ := viewAt_eq_some.mp has
  rw [Tables.objectAt, found, ← same]
  rfl

theorem Tables.Has.run {kind : Label → Prop} {objects : Fd → Option Object} (has : t.Has p objects)
    (run : RunOf Act kind t t') (aside : ∀ label, kind label → ¬ label.rebinds p) :
    t'.Has p objects ∧ ∀ slot d, (∃ pos, objects pos = some (.device slot)) →
      t.SemaphoreIn slot d → t'.SemaphoreIn slot d := by
  refine run.invariant (fun mid => mid.Has p objects ∧ ∀ slot d,
    (∃ pos, objects pos = some (.device slot)) → t.SemaphoreIn slot d → mid.SemaphoreIn slot d)
    ⟨has, fun _ _ _ stays => stays⟩ ?_
  intro mid label next allowed ⟨has, stays⟩ act
  have still : next.Has p objects :=
    objects_steady.act act (Or.inl (aside label allowed)) has
  refine ⟨still, fun slot d ⟨pos, held⟩ first => ?_⟩
  obtain ⟨device, found, serial, semaphore⟩ := stays slot d ⟨pos, held⟩ first
  obtain ⟨device', found', serial', semaphore'⟩ :=
    act.semaphore_stays found semaphore ((still.objectAt pos).trans held)
  exact ⟨device', found', serial'.trans serial, semaphore'⟩

theorem step_keeps {objects : Fd → Option Object} (inv : Inv s)
    (ran : realSyscallHandler fs place s trap = .ok s') (has : s.toTables.Has p objects)
    (calm : s.currentProcess = p.pid →
      ∃ callsys, callsysOf trap.regs.eax = some callsys ∧ callsys.calm = true) :
    s'.toTables.Has p objects ∧ ∀ slot d, (∃ pos, objects pos = some (.device slot)) →
      s.toTables.SemaphoreIn slot d → s'.toTables.SemaphoreIn slot d := by
  by_cases own : s.currentProcess = p.pid
  · obtain ⟨callsys, known, calm⟩ := calm own
    obtain ⟨proc, awake, -, outcome⟩ := step_cases inv ran
    have enter := entered_acts trap awake
    rcases outcome with ⟨none, -⟩ | ⟨callsys', called, ret, passed, known', applied, checked, stored⟩
    · rw [known] at none
      cases none
    · rw [known, Option.some.injEq] at known'
      subst known'
      have handler := handler_calm awake calm applied
      have pass := (checkAll_acts checked).1
      have store := Act.regs passed.toTables s.currentProcess (Tss.setRetval ret)
      have whole : RunOf Act (fun label => ¬ label.rebinds p) s.toTables s'.toTables := by
        rw [stored]
        refine (enter.mono ?_).trans ((handler.mono ?_).trans ((pass.mono ?_).trans ?_))
        · intro label kind rebinds
          cases label <;> first | exact kind.elim | exact rebinds.elim
        · intro label kind rebinds
          cases label <;> first | exact kind.elim | exact rebinds.elim
        · intro label ⟨slot, kind⟩ rebinds
          cases label <;> first | exact kind.elim | exact rebinds.elim
        · exact RunOf.single store fun rebinds => rebinds.elim
      exact has.run whole fun label kind => kind
  · obtain ⟨proc, ret, awake, acts⟩ := step_acts inv ran
    refine has.run acts fun label kind rebinds => ?_
    cases label with
    | attach pid =>
        have same : pid = s.currentProcess := by
          rcases kind with entry | call | ⟨_, pass⟩
          · exact entry.elim
          · exact call
          · exact pass.elim
        exact own (same.symm.trans rebinds)
    | detach pid =>
        have same : pid = s.currentProcess := by
          rcases kind with entry | call | ⟨_, pass⟩
          · exact entry.elim
          · exact call
          · exact pass.elim
        exact own (same.symm.trans rebinds)
    | kill q =>
        have same := (StepLabel.of_kill kind).1
        have owner : p = ⟨s.currentProcess, proc.serial⟩ := rebinds.symm.trans same
        exact own (congrArg ProcPtr.pid owner).symm
    | _ => exact rebinds.elim

theorem freeSlot_modify (t : Tables) (pid : Pid) (f : Process → Process) :
    (t.modify pid f).freeSlot = t.freeSlot := by
  have same : ∀ other, ((t.modify pid f).processList other).isNone =
      (t.processList other).isNone := by
    intro other
    rw [modify_processList]
    split
    · exact Option.isNone_map
    · rfl
  simp only [Tables.freeSlot, same]

theorem thread_step {objects : Fd → Option Object} (inv : Inv s)
    (ran : realSyscallHandler fs place s trap = .ok s') (has : s.toTables.Has p objects)
    (own : s.currentProcess = p.pid) (known : callsysOf trap.regs.eax = some .thread) {child : Pid}
    (free : s.toTables.freeSlot = some child) :
    s'.toTables.Has ⟨child, s.nextSerial⟩ objects ∧ s.nextSerial < s'.nextSerial := by
  obtain ⟨proc, awake, -, outcome⟩ := step_cases inv ran
  have ready := entered_awake trap awake
  have queues := inv.queues.run (entered_acts trap awake)
  rcases outcome with ⟨none, -⟩ | ⟨callsys', called, ret, passed, known', applied, checked, stored⟩
  · rw [known] at none
    cases none
  · rw [known, Option.some.injEq] at known'
    subst known'
    have pass := (checkAll_acts checked).1
    have store := Act.regs passed.toTables s.currentProcess (Tss.setRetval ret)
    obtain ⟨slot, cloned, -⟩ := applyHandler_thread applied
    obtain ⟨parent, found, chosen, mode⟩ := clone_ok cloned
    have slots : (entered s trap proc).toTables.freeSlot = s.toTables.freeSlot :=
      freeSlot_modify s.toTables s.currentProcess _
    rw [show (entered s trap proc).currentProcess = s.currentProcess from rfl, ready.1,
      Option.some.injEq] at found
    rw [slots, free, Option.some.injEq] at chosen
    subst found
    subst chosen
    have table : proc.objects = objects := by
      obtain ⟨other, there, -, same⟩ := viewAt_eq_some.mp has
      rw [← own, awake.1, Option.some.injEq] at there
      rw [there]
      exact same
    rcases mode with ⟨impossible, -⟩ | ⟨code, data, -, made⟩
    · cases impossible
    · have born : called.toTables.Has ⟨child, s.nextSerial⟩ objects := by
        rw [made]
        exact viewAt_eq_some.mpr ⟨_, Function.update_self _ _ _, rfl, table⟩
      have later : s.nextSerial < called.nextSerial := by
        rw [made]
        exact Nat.lt_succ_self _
      have last : RunOf Act (fun label => ¬ label.rebinds ⟨child, s.nextSerial⟩) called.toTables
          s'.toTables := by
        rw [stored]
        refine (pass.mono ?_).trans (RunOf.single store fun rebinds => rebinds.elim)
        intro label ⟨slot, kind⟩ rebinds
        cases label <;> first | exact kind.elim | exact rebinds.elim
      exact ⟨(born.run last fun label kind => kind).1, serial_lt_run later last⟩

theorem Device.input_of_semaphore (semaphore : device.isSemaphore = true) :
    ∃ cnt, device.input = .semaphore cnt := by
  cases kind : device.input with
  | semaphore cnt => exact ⟨cnt, rfl⟩
  | _ => simp [Device.isSemaphore, kind] at semaphore

theorem Balanced.pending_iff {k : Nat} (balanced : Balanced t)
    (found : t.devices slot = some device) (semaphore : device.isSemaphore = true)
    (created : .created device.serial k ∈ t.log) (range : InRange device.serial k t.log) :
    device.pendingRequest ≠ [] ↔
      k + signalsOn device.serial t.log < (issuedOn device.serial t.log).length := by
  obtain ⟨cnt, kind⟩ := Device.input_of_semaphore semaphore
  have account := balanced.accounts slot device cnt k found kind created range
  have count := account.count
  have nonneg := account.nonneg
  have order := congrArg List.length account.order
  rw [List.length_append, List.length_map] at order
  rw [balance] at count
  constructor
  · intro waiting
    have closed := balanced.settled slot device cnt found kind waiting
    have some := List.length_pos_of_ne_nil waiting
    omega
  · intro more none
    rw [none, List.length_nil] at order
    omega

theorem Balanced.pending_issued {k : Nat} {req : PendingRead} (balanced : Balanced t)
    (found : t.devices slot = some device) (semaphore : device.isSemaphore = true)
    (created : .created device.serial k ∈ t.log) (range : InRange device.serial k t.log)
    (member : req ∈ device.pendingRequest) :
    (req.proc, req.size) ∈ issuedOn device.serial t.log := by
  obtain ⟨cnt, kind⟩ := Device.input_of_semaphore semaphore
  have account := balanced.accounts slot device cnt k found kind created range
  rw [account.order]
  exact List.mem_append_right _ (List.mem_map_of_mem member)

end SysImpl.Kernel
