import SysImpl.Kernel.Returns

/-! Which process returns to user mode, and with which registers.

All processes share one user TSS. It is saved for the current process at every entry and
loaded for the current process at every return, and several operations change which
process is current in between. -/

namespace SysImpl.Kernel

open Bytes Runs

variable {fs : FileSystem} {place : Placement} {t t' : Tables} {label : Label}

/-- `real_syscall_handler` up to its call of `leaveKernelMode`. -/
def reachLeave (fs : FileSystem) (place : Placement) (s : State) (trap : Trap) :
    Except Stop State :=
  let s := enterKernelMode s trap
  let pid := s.currentProcess
  match s.processList pid with
  | none => .error .danglingPointer
  | some proc =>
      let s := s.note (.entered ⟨pid, proc.serial⟩)
      let call := proc.usermodeState.eax
      if call < syscallEnd then
        match callsysOf call with
        | none => leaveHook s trap
        | some callsys => do
            let (s, ret) ← applyHandler fs place s trap proc callsys
            let s ← checkAll trap.arrivals s
            let s ← finishCall s pid ret
            leaveHook s trap
      else .error .indexOutOfRange

theorem realSyscallHandler_eq (s : State) (trap : Trap) :
    realSyscallHandler fs place s trap = (reachLeave fs place s trap).map leaveKernelMode := by
  simp only [realSyscallHandler, reachLeave]
  cases (enterKernelMode s trap).processList (enterKernelMode s trap).currentProcess with
  | none => rfl
  | some proc =>
      by_cases known : proc.usermodeState.eax < syscallEnd
      · simp only [if_pos known]
        cases callsysOf proc.usermodeState.eax with
        | none => rfl
        | some callsys =>
            simp only [bind, Except.bind]
            cases applyHandler fs place _ trap _ callsys with
            | error stop => rfl
            | ok pair =>
                obtain ⟨called, ret⟩ := pair
                simp only
                cases checkAll trap.arrivals called with
                | error stop => rfl
                | ok passed =>
                    simp only
                    cases finishCall passed _ ret with
                    | error stop => rfl
                    | ok finished => rfl
      · simp only [if_neg known]
        rfl

def Tables.Deserted (t : Tables) : Prop :=
  ∀ pid proc, t.processList pid = some proc → proc.processState ≠ .runnable

theorem rescheOrder_complete (current pid : Pid) : pid ∈ rescheOrder current := by
  refine List.mem_map.mpr ⟨pid - 1 - current, List.mem_finRange _, ?_⟩
  apply Fin.ext
  simp only [Fin.val_add, Fin.val_sub, Fin.val_one]
  omega

theorem resche_stops_iff (s : State) :
    resche s = .error .initTask ↔ s.toTables.Deserted := by
  constructor
  · intro stopped pid proc found runnable
    simp only [resche] at stopped
    split at stopped
    · next none =>
        have unseen := (Option.or_eq_none_iff.mp none).2
        have busy := List.find?_eq_none.mp unseen pid (rescheOrder_complete s.currentProcess pid)
        simp [runnableAt, found, runnable] at busy
    · cases stopped
  · intro deserted
    have skipped : ∀ idle, (rescheOrder s.currentProcess).find? (runnableAt s.toTables idle) =
        none := by
      intro idle
      rw [List.find?_eq_none]
      intro pid _ runnable
      simp only [runnableAt, Option.any_eq_true, Bool.and_eq_true, beq_iff_eq] at runnable
      obtain ⟨proc, found, ready, _⟩ := runnable
      exact deserted pid proc found ready
    simp only [resche, skipped, Option.or_none]

theorem callsysOf_lt {call : Nat} {callsys : Callsys} (known : callsysOf call = some callsys) :
    call < syscallEnd := by
  simp only [callsysOf] at known
  split at known
  all_goals first | decide | cases known

theorem reachLeave_registered {s : State} {trap : Trap} {proc : Process} {callsys : Callsys}
    (found : s.processList s.currentProcess = some proc)
    (known : callsysOf trap.regs.eax = some callsys) :
    reachLeave fs place s trap = (do
      let (called, ret) ← applyHandler fs place (entered s trap proc) trap (proc.trapped trap)
        callsys
      let passed ← checkAll trap.arrivals called
      let finished ← finishCall passed s.currentProcess ret
      leaveHook finished trap) := by
  have kernel := enterKernelMode_found trap found
  have call : (proc.trapped trap).usermodeState.eax = trap.regs.eax := rfl
  simp only [reachLeave, kernel, call, if_pos (callsysOf_lt known), known]
  rfl

theorem reachLeave_unregistered {s : State} {trap : Trap} {proc : Process}
    (found : s.processList s.currentProcess = some proc) (small : trap.regs.eax < syscallEnd)
    (unknown : callsysOf trap.regs.eax = none) :
    reachLeave fs place s trap = leaveHook (entered s trap proc) trap := by
  have kernel := enterKernelMode_found trap found
  have call : (proc.trapped trap).usermodeState.eax = trap.regs.eax := rfl
  simp only [reachLeave, kernel, call, if_pos small, unknown]
  rfl

theorem reachLeave_outside {s : State} {trap : Trap} {proc : Process}
    (found : s.processList s.currentProcess = some proc) (large : ¬ trap.regs.eax < syscallEnd) :
    reachLeave fs place s trap = .error .indexOutOfRange := by
  simp only [reachLeave, enterKernelMode_found trap found]
  exact if_neg large

theorem finishCall_deserted {s : State} {pid : Pid} (ret : Int)
    (deserted : s.toTables.Deserted) : finishCall s pid ret = .error .initTask := by
  simp only [finishCall]
  split
  · exact (resche_stops_iff s).mpr deserted
  · next proc found =>
      rw [if_pos (deserted pid proc found)]
      apply (resche_stops_iff _).mpr
      intro other next here
      simp only [modify_processList] at here
      split at here
      · obtain ⟨before, located, rfl⟩ := Option.map_eq_some_iff.mp here
        exact deserted other before located
      · exact deserted other next here

theorem leaveKernelMode_same (s : State) :
    (leaveKernelMode s).toTables = s.toTables ∧
      (leaveKernelMode s).currentProcess = s.currentProcess := by
  simp only [leaveKernelMode]
  split
  · exact ⟨rfl, rfl⟩
  · exact ⟨rfl, rfl⟩

/-- The process that is current when the kernel leaves can run, and when no process can, the
kernel does not leave. -/
theorem runnable_process_runs {s : State} (reachable : Reachable fs place (fun _ _ => True) s)
    (trap : Trap) :
    (∀ left, reachLeave fs place s trap = .ok left →
      ∃ proc, left.processList left.currentProcess = some proc ∧
        proc.processState = .runnable) ∧
    (∀ mid : State, resche mid = .error .initTask ↔
      ∀ pid proc, mid.processList pid = some proc → proc.processState ≠ .runnable) ∧
    (∀ proc callsys called ret passed, s.processList s.currentProcess = some proc →
      callsysOf trap.regs.eax = some callsys →
      applyHandler fs place (entered s trap proc) trap (proc.trapped trap) callsys =
        .ok (called, ret) →
      checkAll trap.arrivals called = .ok passed →
      (∀ pid proc, passed.processList pid = some proc → proc.processState ≠ .runnable) →
      reachLeave fs place s trap = .error .initTask) := by
  have inv := reachable.inv
  refine ⟨?_, resche_stops_iff, ?_⟩
  · intro left reached
    have ran : realSyscallHandler fs place s trap = .ok (leaveKernelMode left) := by
      rw [realSyscallHandler_eq, reached]
      rfl
    obtain ⟨_, _, ⟨next, awake, _⟩, _⟩ := step_cases inv ran
    obtain ⟨tables, current⟩ := leaveKernelMode_same left
    rw [tables, current] at awake
    exact ⟨next, awake⟩
  · intro proc callsys called ret passed found known applied checked deserted
    rw [reachLeave_registered found known, applied]
    simp only [bind, Except.bind, checked, finishCall_deserted ret deserted]

/-- After a fork the child runs, and a call of it returns to a process that can run. -/
theorem runnable_process_runs_child : ∃ s left,
    Reachable smallVolume smallPlacement (fun _ _ => True) s ∧ s.currentProcess = 1 ∧
    reachLeave smallVolume smallPlacement s (plainCall 158 0 0 0) = .ok left ∧
    ∃ proc, left.processList left.currentProcess = some proc ∧
      proc.processState = .runnable := by
  obtain ⟨s, reachable, child, returns⟩ := smallRun_exists (fun _ _ => True)
    [plainCall 2 0 0 0]
    (fun s => s.currentProcess = 1 ∧
      (reachLeave smallVolume smallPlacement s (plainCall 158 0 0 0)).toOption.isSome)
    (by decide +kernel)
  obtain ⟨left, value⟩ := Option.isSome_iff_exists.mp returns
  have reached := toOption_eq_some value
  exact ⟨s, left, reachable, child, reached, (runnable_process_runs reachable _).1 left reached⟩

def Tss.rest (tss : Tss) : Tss := { tss with eax := 0, edx := 0 }

/-- An act in a step of `q` leaves the registers of another process alone, apart from its
return value. -/
theorem Act.rest_before {p : ProcPtr} {regs : Tss} (queues : Queues t) (act : Act t label t')
    (born : p.serial < t.nextSerial) (aside : label ≠ .regs p.pid)
    (known : t'.tssAt Tss.rest p = some regs) : t.tssAt Tss.rest p = some regs := by
  by_cases stored : label.stores p
  · cases act with
    | regs pid f =>
        have here : pid = p.pid := stored
        rw [here] at aside
        exact absurd rfl aside
    | @fork pid proc child m awake free =>
        have same : (⟨child, t.nextSerial⟩ : ProcPtr) = p := stored
        rw [← same] at born
        exact absurd born (Nat.lt_irrefl _)
    | @thread pid proc child tss awake free =>
        have same : (⟨child, t.nextSerial⟩ : ProcPtr) = p := stored
        rw [← same] at born
        exact absurd born (Nat.lt_irrefl _)
    | @serve slot device now rest ret data input found queue spec =>
        rw [Tables.tssAt, viewAt_modify now.proc.pid (Process.setRetval ret)
          fun _ => ⟨rfl, rfl⟩] at known
        refine Eq.trans ?_ known
        exact (viewAt_modify (t := t) now.proc.pid (Process.setProcessState .runnable)
          fun _ => ⟨rfl, rfl⟩).symm
    | @requeue slot device now rest found queue kind =>
        rw [Tables.tssAt, viewAt_modify now.proc.pid (Process.setRetval eagain)
          fun _ => ⟨rfl, rfl⟩, viewAt_modify now.proc.pid (Process.setProcessState .sleeping)
            fun _ => ⟨rfl, rfl⟩] at known
        exact known
    | _ => exact stored.elim
  · exact act.tss_before queues stored known

theorem rest_before_run {kind : Label → Prop} {p : ProcPtr} {regs : Tss} (queues : Queues t)
    (born : p.serial < t.nextSerial) (aside : ¬ kind (.regs p.pid)) (run : RunOf Act kind t t')
    (known : t'.tssAt Tss.rest p = some regs) : t.tssAt Tss.rest p = some regs := by
  have kept : Queues t' ∧ p.serial < t'.nextSerial ∧
      (t'.tssAt Tss.rest p = some regs → t.tssAt Tss.rest p = some regs) := by
    apply run.invariant (fun mid => Queues mid ∧ p.serial < mid.nextSerial ∧
      (mid.tssAt Tss.rest p = some regs → t.tssAt Tss.rest p = some regs))
      ⟨queues, born, id⟩
    intro mid label next fits ⟨queues, born, before⟩ act
    refine ⟨queues.act act, Nat.lt_of_lt_of_le born act.nextSerial_le, ?_⟩
    intro known
    apply before
    apply act.rest_before queues born _ known
    intro same
    rw [same] at fits
    exact aside fits
  exact kept.2.2 known

def Away (p : ProcPtr) (s : State) (_ : Trap) : Prop :=
  ∀ proc, s.processList s.currentProcess = some proc → (⟨s.currentProcess, proc.serial⟩ : ProcPtr) ≠ p

def Executed (s s' : State) (p : ProcPtr) : Prop :=
  ∃ events, s'.log = events ++ s.log ∧ .execed p ∈ events

theorem log_suffix_run {kind : Label → Prop} (run : RunOf Act kind t t') : t.log <:+ t'.log := by
  apply run.invariant (fun mid => t.log <:+ mid.log) (List.suffix_refl _)
  intro mid label next _ grown act
  exact grown.trans act.log_suffix

theorem serial_lt_run {kind : Label → Prop} {serial : Nat} (born : serial < t.nextSerial)
    (run : RunOf Act kind t t') : serial < t'.nextSerial := by
  apply run.invariant (fun mid => serial < mid.nextSerial) born
  intro mid label next _ earlier act
  exact Nat.lt_of_lt_of_le earlier act.nextSerial_le

theorem Mine.run {p : ProcPtr} {rights : Rights} {ret : Int} (mine : Mine t p) (queues : Queues t)
    (run : RunOf Act (StepLabel p rights ret) t t') : Mine t' p := by
  have kept : Queues t' ∧ Mine t' p := by
    apply run.invariant (fun mid => Queues mid ∧ Mine mid p) ⟨queues, mine⟩
    intro mid label next fits both act
    exact ⟨both.1.act act, both.2.act both.1 fits act⟩
  exact kept.2

theorem Awake.mine {pid : Pid} {proc : Process} (awake : t.Awake pid proc) :
    Mine t ⟨pid, proc.serial⟩ := by
  intro other found
  rw [awake.1, Option.some.injEq] at found
  rw [found]

theorem ProcPtr.ext_of {p q : ProcPtr} (pids : p.pid = q.pid) (serials : p.serial = q.serial) :
    p = q := by
  cases p
  cases q
  simp_all

theorem others_keep_rest {p : ProcPtr} {regs : Tss} {s s' : State} {trap : Trap} (inv : Inv s)
    (born : p.serial < s.nextSerial) (away : Away p s trap)
    (ran : realSyscallHandler fs place s trap = .ok s')
    (known : s'.toTables.tssAt Tss.rest p = some regs) :
    s.toTables.tssAt Tss.rest p = some regs := by
  obtain ⟨proc, ret, awake, acts⟩ := step_acts inv ran
  by_cases same : p.pid = s.currentProcess
  · -- The slot of `p` holds the caller, so `p` is gone and does not come back.
    obtain ⟨here, found, serial, _⟩ := viewAt_eq_some.mp known
    have mine := (Awake.mine awake).run inv.queues acts
    rw [same] at found
    have owner := mine here found
    exact absurd (ProcPtr.ext_of same.symm (owner.symm.trans serial)) (away proc awake.1)
  · refine rest_before_run inv.queues born ?_ acts known
    intro stores
    exact same stores.of_regs

theorem entered_rest {s : State} {proc : Process} (trap : Trap)
    (awake : s.toTables.Awake s.currentProcess proc) :
    (entered s trap proc).toTables.tssAt Tss.rest ⟨s.currentProcess, proc.serial⟩ =
      some trap.regs.rest :=
  viewAt_eq_some.mpr ⟨_, (entered_awake trap awake).1, rfl, rfl⟩

theorem finishExec_executed {s called : State} {pid : Pid} {proc : Process}
    (grown : s.log <:+ called.log) (found : called.processList pid = some proc) :
    Executed s (finishExec called pid) ⟨pid, proc.serial⟩ := by
  obtain ⟨events, log⟩ := grown
  refine ⟨.execed ⟨pid, proc.serial⟩ :: events, ?_, List.mem_cons_self⟩
  simp only [finishExec, found, restoreParent_tables, wakeParent_log, State.note_tables, note_log,
    ← log, List.cons_append]

theorem Executed.later {s mid s' : State} {p : ProcPtr} (executed : Executed s mid p)
    (grown : mid.log <:+ s'.log) : Executed s s' p := by
  obtain ⟨events, log, member⟩ := executed
  obtain ⟨later, log'⟩ := grown
  exact ⟨later ++ events, by rw [← log', log, List.append_assoc], List.mem_append_right _ member⟩

/-- A process that enters the kernel keeps its registers through its own call, apart from
the return value, unless it completes an `exec`. -/
theorem own_call_keeps_rest {s s' : State} {trap : Trap} {proc : Process} {regs : Tss}
    (inv : Inv s) (found : s.processList s.currentProcess = some proc)
    (ran : realSyscallHandler fs place s trap = .ok s')
    (known : s'.toTables.tssAt Tss.rest ⟨s.currentProcess, proc.serial⟩ = some regs) :
    regs = trap.regs.rest ∨ callsysOf trap.regs.eax = some .exec ∧
      Executed s s' ⟨s.currentProcess, proc.serial⟩ := by
  obtain ⟨caller, awake, _, outcome⟩ := step_cases inv ran
  have same : caller = proc := Option.some.inj (awake.1.symm.trans found)
  subst same
  have enter := entered_acts trap awake
  have queues := inv.queues.run enter
  have start := entered_rest trap awake
  have born : caller.serial < (entered s trap caller).nextSerial :=
    queues.serials _ (caller.trapped trap) (entered_awake trap awake).1
  rcases outcome with ⟨_, tables⟩ | ⟨callsys, called, ret, passed, call, applied, checked, stored⟩
  · rw [tables, start, Option.some.injEq] at known
    exact Or.inl known.symm
  · have handler := handler_acts inv awake call applied
    have pass := (checkAll_acts checked).1
    rw [stored, Tables.tssAt, viewAt_modify s.currentProcess (Process.setRetval ret)
      fun _ => ⟨rfl, rfl⟩] at known
    have aside : ∀ pid, ¬ PassLabel (.regs pid) := by
      rintro pid ⟨_, stores⟩
      exact stores
    have before := rest_before_run (queues.run handler) (serial_lt_run born handler) (aside _) pass
      known
    by_cases loads : (trapRights fs trap).loads
    · have exec : callsys = .exec := Option.some.inj (call.symm.trans loads.1)
      subst exec
      rcases execv_cases applied with
        ⟨unchanged, _⟩ | ⟨_, _, content, sections, entry, installed, built, finished⟩
      · rw [unchanged, start, Option.some.injEq] at before
        exact Or.inl before.symm
      · obtain ⟨acts, last, ready, owner⟩ := install_acts ret (entered_awake trap awake)
          (show (Rights.mk True True True True True).loads from trivial) built
        have grown : s.log <:+ installed.log := (log_suffix_run enter).trans (log_suffix_run acts)
        have executed := finishExec_executed grown ready.1
        rw [owner] at executed
        refine Or.inr ⟨call, executed.later ?_⟩
        have grown := log_suffix_run pass
        rw [finished] at grown
        rw [stored]
        exact grown
    · refine Or.inl (Option.some.inj ?_)
      rw [← start]
      exact (rest_before_run queues born (fun kind => loads kind.2) handler before).symm

def Poised (t : Tables) (p : ProcPtr) (regs : Tss) : Prop :=
  ∃ proc, t.Awake p.pid proc ∧ proc.serial = p.serial ∧ proc.usermodeState = regs

theorem Poised.ne_of_free {p : ProcPtr} {regs : Tss} (ready : Poised t p regs) {pid : Pid}
    (free : t.processList pid = none) : p.pid ≠ pid := by
  intro same
  obtain ⟨proc, awake, _⟩ := ready
  rw [← same, awake.1] at free
  cases free

theorem Poised.modify_other {p : ProcPtr} {regs : Tss} (ready : Poised t p regs) {pid : Pid}
    (differs : p.pid ≠ pid) (f : Process → Process) : Poised (t.modify pid f) p regs := by
  obtain ⟨proc, awake, serial, value⟩ := ready
  refine ⟨proc, ⟨?_, awake.2⟩, serial, value⟩
  rw [modify_processList, if_neg differs]
  exact awake.1

theorem Poised.modify_same {p : ProcPtr} {regs : Tss} (ready : Poised t p regs) (pid : Pid)
    {f : Process → Process} (same : ∀ proc, (f proc).serial = proc.serial ∧
      (f proc).processState = proc.processState ∧ (f proc).usermodeState = proc.usermodeState) :
    Poised (t.modify pid f) p regs := by
  by_cases differs : p.pid = pid
  · obtain ⟨proc, awake, serial, value⟩ := ready
    refine ⟨f proc, ⟨?_, (same proc).2.1.trans awake.2⟩, (same proc).1.trans serial,
      (same proc).2.2.trans value⟩
    rw [modify_processList, if_pos differs, awake.1, Option.map_some]
  · exact ready.modify_other differs f

theorem Poised.congr {p : ProcPtr} {regs : Tss} (ready : Poised t p regs)
    (same : t'.processList p.pid = t.processList p.pid) : Poised t' p regs := by
  obtain ⟨proc, awake, rest⟩ := ready
  exact ⟨proc, ⟨same.trans awake.1, awake.2⟩, rest⟩

theorem Poised.wakeParent {p : ProcPtr} {regs : Tss} (ready : Poised t p regs)
    (queues : Queues t) (ppid : Option Pid) : Poised (t.wakeParent ppid) p regs := by
  obtain ⟨proc, awake, rest⟩ := ready
  have backup := queues.awake_no_backup awake
  refine ⟨proc, ⟨?_, awake.2⟩, rest⟩
  cases ppid with
  | none => exact awake.1
  | some parent =>
      simp only [Tables.wakeParent, modify_processList]
      split
      · simp [awake.1, Process.wake, backup]
      · exact awake.1

/-- An act in a step of another process leaves a process that can run alone. -/
theorem Poised.act {p q : ProcPtr} {regs : Tss} {rights : Rights} {ret : Int}
    (ready : Poised t p regs) (queues : Queues t) (mine : Mine t q) (differs : q ≠ p)
    (kind : StepLabel q rights ret label) (act : Act t label t') : Poised t' p regs := by
  have apart : p.pid ≠ q.pid := by
    intro same
    obtain ⟨proc, awake, serial, _⟩ := ready
    have owner := mine proc (by rw [← same]; exact awake.1)
    exact differs (ProcPtr.ext_of same.symm (owner.symm.trans serial))
  have unqueued : ∀ slot, ∀ req ∈ t.pendingAt slot, p.pid ≠ req.proc.pid := by
    obtain ⟨proc, awake, _, _⟩ := ready
    intro slot req member same
    exact queues.awake_not_queued awake slot req member same.symm
  cases act with
  | regs pid f =>
      rw [← kind.of_regs] at apart
      exact ready.modify_other apart _
  | enter => exact ready.congr rfl
  | @attach pid proc pos obj awake empty present =>
      exact ready.modify_same pid (fun _ => ⟨rfl, rfl, rfl⟩)
  | @detach pid proc pos awake =>
      rcases removeObject_processes t pid pos with same | bound
      · exact ready.congr (congrFun same p.pid)
      · refine (ready.modify_same pid (f := Process.bind pos none)
          (fun _ => ⟨rfl, rfl, rfl⟩)).congr (congrFun bound p.pid)
  | await => exact ready.congr rfl
  | signal => exact ready.congr rfl
  | newSem => exact ready.congr rfl
  | @fork pid proc child m awake free =>
      have elsewhere : p.pid ≠ pid := by
        rw [← kind.of_spawn.1] at apart
        exact apart
      have old := ready.ne_of_free free
      refine (ready.modify_other elsewhere (Process.keepStack m)).congr ?_
      simp only [note_processList, setProcess_processList, Function.update_of_ne old]
      rfl
  | @thread pid proc child tss awake free =>
      have old := ready.ne_of_free free
      refine ready.congr ?_
      simp only [note_processList, setProcess_processList, Function.update_of_ne old]
  | @kill pid proc code awake =>
      have elsewhere : p.pid ≠ pid := by
        rw [← kind.of_kill.1] at apart
        exact apart
      have gone : Poised ((t.setProcess pid none).note (.exited ⟨pid, proc.serial⟩ code)) p regs := by
        apply ready.congr
        simp only [note_processList, setProcess_processList, Function.update_of_ne elsewhere]
      have kept := (queues.vacate awake).note (.exited ⟨pid, proc.serial⟩ code)
      exact (gone.wakeParent kept proc.ppid).congr rfl
  | image awake =>
      exact Poised.wakeParent (t := t.note _) (ready.congr rfl) (queues.note _) _
  | done => exact ready.congr rfl
  | @block pid proc slot device pos buffer size awake found held spec =>
      have elsewhere : p.pid ≠ pid := by
        rw [← kind.of_block.1] at apart
        exact apart
      exact Poised.modify_other (ready.congr rfl) elsewhere _
  | @serve slot device now rest out data input found queue spec =>
      have elsewhere := unqueued slot now (by simp [pendingAt_of_some found, queue])
      apply Poised.modify_other _ elsewhere
      exact (ready.modify_other elsewhere (Process.setProcessState .runnable)).congr rfl
  | @requeue slot device now rest found queue semaphore =>
      have elsewhere := unqueued slot now (by simp [pendingAt_of_some found, queue])
      apply Poised.modify_other _ elsewhere
      exact Poised.modify_other (ready.congr rfl) elsewhere _

theorem Poised.step {p : ProcPtr} {regs : Tss} {s s' : State} {trap : Trap}
    (ready : Poised s.toTables p regs) (inv : Inv s) (away : Away p s trap)
    (ran : realSyscallHandler fs place s trap = .ok s') : Poised s'.toTables p regs := by
  obtain ⟨proc, ret, awake, acts⟩ := step_acts inv ran
  have kept := acts.invariant (fun mid => Queues mid ∧ Mine mid ⟨s.currentProcess, proc.serial⟩ ∧
    Poised mid p regs) ⟨inv.queues, Awake.mine awake, ready⟩ (by
      intro mid label next fits ⟨queues, mine, ready⟩ act
      exact ⟨queues.act act, mine.act queues fits act,
        ready.act queues mine (away proc awake.1) fits act⟩)
  exact kept.2.2

theorem fork_ready {s s' : State} {pid child : Pid} {proc : Process}
    (found : s.processList pid = some proc)
    (cloned : clone place s pid .keepStack = .ok (s', child)) :
    child ≠ pid ∧
      s'.log = .spawned ⟨pid, proc.serial⟩ ⟨child, s.nextSerial⟩ true :: s.log ∧
      s'.toTables.Awake child
        (childProcess proc pid s.nextSerial (proc.usermodeState.setRetval 0)) := by
  obtain ⟨parent, known, chosen, ⟨_, rfl⟩ | ⟨_, _, other, _⟩⟩ := clone_ok cloned
  · have caller : parent = proc := Option.some.inj (known.symm.trans found)
    subst caller
    refine ⟨?_, rfl, Function.update_self _ _ _, rfl⟩
    intro same
    have free := freeSlot_free chosen
    rw [same, found] at free
    cases free
  · cases other

theorem fork_child_ready {s s' : State} {trap : Trap} {proc : Process} (inv : Inv s)
    (found : s.processList s.currentProcess = some proc)
    (call : callsysOf trap.regs.eax = some .fork)
    (ran : realSyscallHandler fs place s trap = .ok s') :
    ∃ child events, s'.log = events ++ s.log ∧
      .spawned ⟨s.currentProcess, proc.serial⟩ child true ∈ events ∧
      Poised s'.toTables child (trap.regs.setRetval 0) := by
  obtain ⟨caller, awake, _, outcome⟩ := step_cases inv ran
  have same : caller = proc := Option.some.inj (awake.1.symm.trans found)
  subst same
  have enter := entered_acts trap awake
  rcases outcome with ⟨unknown, _⟩ | ⟨callsys, called, ret, passed, known, applied, checked, stored⟩
  · rw [call] at unknown
    cases unknown
  · have fork : callsys = .fork := Option.some.inj (known.symm.trans call)
    subst fork
    have handler := handler_acts inv awake known applied
    have pass := (checkAll_acts checked).1
    obtain ⟨child, cloned, -⟩ := applyHandler_fork applied
    obtain ⟨apart, log, newborn⟩ := fork_ready (entered_awake trap awake).1 cloned
    have still := Awake.pass_run ((inv.queues.run enter).run handler) newborn pass
    obtain ⟨earlier, before⟩ := log_suffix_run enter
    obtain ⟨later, after⟩ := log_suffix_run pass
    refine ⟨⟨child, (entered s trap caller).nextSerial⟩,
      later ++ [.spawned ⟨s.currentProcess, caller.serial⟩
        ⟨child, (entered s trap caller).nextSerial⟩ true] ++ earlier, ?_, by simp, ?_⟩
    · rw [stored, modify_log, ← after, log, ← before]
      simp [Process.trapped]
    · rw [stored]
      have ready : Poised passed.toTables ⟨child, (entered s trap caller).nextSerial⟩
          (trap.regs.setRetval 0) := ⟨_, still, rfl, rfl⟩
      exact ready.modify_other apart _

/-- The current process runs with the registers saved for it. -/
def Restored (s : State) : Prop :=
  ∀ proc, s.processList s.currentProcess = some proc → s.userTss = proc.usermodeState

theorem Restored.step {s s' : State} {trap : Trap} (inv : Inv s)
    (ran : realSyscallHandler fs place s trap = .ok s') : Restored s' := by
  obtain ⟨_, _, ⟨next, awake, loaded⟩, _⟩ := step_cases inv ran
  intro proc found
  rw [loaded, Option.some.inj (awake.1.symm.trans found)]

/-- What the steps of other processes preserve. -/
theorem away_run (holds : State → Prop) {p : ProcPtr} {s last : State} {traps : List Trap}
    (run : Run (Step fs place (Away p)) s traps last) (inv : Inv s) (loaded : Restored s)
    (initial : holds s)
    (preserved : ∀ mid trap next, Inv mid → holds mid → Away p mid trap →
      realSyscallHandler fs place mid trap = .ok next → holds next) :
    Restored last ∧ holds last := by
  have kept := run.invariant (fun s => Inv s ∧ Restored s ∧ holds s) ⟨inv, loaded, initial⟩ (by
    intro mid trap next _ ⟨inv, _, held⟩ ⟨away, ran⟩
    exact ⟨inv.step ran, Restored.step inv ran, preserved mid trap next inv held away ran⟩)
  exact kept.2

/-- Between its entry to the kernel and its next return to user mode, the registers saved
for a process change only in its return value, unless it completes an `exec`; and a forked
child starts with the registers its parent entered the kernel with and a return value of 0. -/
theorem context_isolated {s s1 : State} {trap : Trap} {proc : Process}
    (reachable : Reachable fs place (fun _ _ => True) s)
    (found : s.processList s.currentProcess = some proc)
    (ran : realSyscallHandler fs place s trap = .ok s1) :
    (∀ traps s2, Run (Step fs place (Away ⟨s.currentProcess, proc.serial⟩)) s1 traps s2 →
      ∀ saved, s2.toTables.find ⟨s.currentProcess, proc.serial⟩ = some saved →
        (saved.usermodeState.rest = trap.regs.rest ∨ callsysOf trap.regs.eax = some .exec ∧
          Executed s s1 ⟨s.currentProcess, proc.serial⟩) ∧
        (s2.currentProcess = s.currentProcess → s2.userTss = saved.usermodeState)) ∧
    (callsysOf trap.regs.eax = some .fork →
      ∃ child events, s1.log = events ++ s.log ∧
        .spawned ⟨s.currentProcess, proc.serial⟩ child true ∈ events ∧
        ∀ traps s2, Run (Step fs place (Away child)) s1 traps s2 →
          ∃ started, s2.toTables.find child = some started ∧
            started.usermodeState = { trap.regs with eax := 0, edx := 0 } ∧
            (s2.currentProcess = child.pid → s2.userTss = started.usermodeState)) := by
  have inv := reachable.inv
  have after := inv.step ran
  have loaded := Restored.step inv ran
  constructor
  · intro traps s2 others saved alive
    have born : proc.serial < s1.nextSerial := by
      obtain ⟨_, _, _, acts⟩ := step_acts inv ran
      exact serial_lt_run (inv.queues.serials _ _ found) acts
    -- What is saved at the end of the run was saved when the call of `p` ended.
    obtain ⟨current, _, kept⟩ := away_run (fun mid => proc.serial < mid.nextSerial ∧ ∀ regs,
      mid.toTables.tssAt Tss.rest ⟨s.currentProcess, proc.serial⟩ = some regs →
        s1.toTables.tssAt Tss.rest ⟨s.currentProcess, proc.serial⟩ = some regs) others after loaded
      ⟨born, fun _ known => known⟩ (by
        intro mid trap next inv ⟨earlier, kept⟩ away ran
        refine ⟨?_, ?_⟩
        · obtain ⟨_, _, _, acts⟩ := step_acts inv ran
          exact serial_lt_run earlier acts
        · intro regs known
          exact kept regs (others_keep_rest inv earlier away ran known))
    obtain ⟨here, serial⟩ := find_eq_some.mp alive
    constructor
    · apply own_call_keeps_rest inv found ran
      exact kept _ (viewAt_eq_some.mpr ⟨saved, here, serial, rfl⟩)
    · intro back
      exact current saved (by rw [back]; exact here)
  · intro call
    obtain ⟨child, events, log, spawned, ready⟩ := fork_child_ready inv found call ran
    refine ⟨child, events, log, spawned, ?_⟩
    intro traps s2 others
    obtain ⟨current, started, awake, serial, value⟩ := away_run
      (fun mid => Poised mid.toTables child (trap.regs.setRetval 0)) others after loaded ready
      (fun mid trap next inv ready away ran => ready.step inv away ran)
    refine ⟨started, find_eq_some.mpr ⟨awake.1, serial⟩, value, ?_⟩
    intro back
    exact current started (by rw [back]; exact awake.1)

/-- A parent forks and its child exits: the parent gets its registers back. -/
theorem context_isolated_parent : ∃ s s1 s2 saved,
    Reachable smallVolume smallPlacement (fun _ _ => True) s ∧
    realSyscallHandler smallVolume smallPlacement s (plainCall 2 7 8 9) = .ok s1 ∧
    Run (Step smallVolume smallPlacement (Away ⟨0, 4⟩)) s1 [plainCall 1 0 0 0] s2 ∧
    s2.toTables.find ⟨0, 4⟩ = some saved ∧
    saved.usermodeState.rest = (plainCall 2 7 8 9).regs.rest := by
  obtain ⟨s, reachable, zero, first, later⟩ := smallRun_exists (fun _ _ => True) []
    (fun s => s.currentProcess = 0 ∧ (s.processList 0).any (fun proc => proc.serial = 4) ∧
      (realSyscallHandler smallVolume smallPlacement s (plainCall 2 7 8 9)).toOption.any
        fun s1 => s1.currentProcess = 1 ∧
          (realSyscallHandler smallVolume smallPlacement s1 (plainCall 1 0 0 0)).toOption.any
            fun s2 => (s2.toTables.find ⟨0, 4⟩).isSome)
    (by decide +kernel)
  obtain ⟨proc, found, serial⟩ := (Option.any_eq_true _ _).mp first
  obtain ⟨s1, forked, next⟩ := (Option.any_eq_true _ _).mp later
  obtain ⟨child, rest⟩ := of_decide_eq_true next
  obtain ⟨s2, exited, alive⟩ := (Option.any_eq_true _ _).mp rest
  obtain ⟨saved, kept⟩ := Option.isSome_iff_exists.mp alive
  have same : (⟨s.currentProcess, proc.serial⟩ : ProcPtr) = ⟨0, 4⟩ := by
    rw [zero, of_decide_eq_true serial]
  have others : Run (Step smallVolume smallPlacement (Away ⟨0, 4⟩)) s1 [plainCall 1 0 0 0] s2 := by
    refine Run.cons ⟨?_, toOption_eq_some exited⟩ (Run.nil s2)
    intro other _ equal
    have pids := congrArg ProcPtr.pid equal
    rw [child] at pids
    cases pids
  have isolated := (context_isolated reachable (by rw [zero]; exact found)
    (toOption_eq_some forked)).1 [plainCall 1 0 0 0] s2
  rw [same] at isolated
  refine ⟨s, s1, s2, saved, reachable, toOption_eq_some forked, others, kept, ?_⟩
  rcases (isolated others saved kept).1 with unchanged | ⟨exec, _⟩
  · exact unchanged
  · cases exec

end SysImpl.Kernel
