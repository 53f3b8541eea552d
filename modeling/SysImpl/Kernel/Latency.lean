import SysImpl.Kernel.Rounds
import SysImpl.Kernel.SemaphoreCalls
import SysImpl.Kernel.Ticks

/-! How long a process that can run waits for the processor.

Every call of `resche` brings the turn of a process closer, and the timer takes care that it
is called. Only a new process can get in before the others. -/

namespace SysImpl.Kernel

open Cyclic Runs

/-- `resche_tick` in user mode: the tick that takes the counter to zero is followed by a call
of `sched_yield`. -/
def ReschesTick (yields : Prop) : Nat → List Irq → Prop
  | _, [] => True
  | counter, .tick :: later =>
      if counter ≤ 1 then later = [] ∧ yields else ReschesTick yields (counter - 1) later
  | counter, _ :: later => ReschesTick yields counter later

def Able (t : Tables) (p : ProcPtr) : Prop :=
  ∃ proc, t.Awake p.pid proc ∧ proc.serial = p.serial ∧ proc.processScheType ≠ .idle

/-- A state the system can be in when `resche_counter` starts as the source has it. -/
def Timed (fs : FileSystem) (place : Placement) (program : State → Trap → Prop) (s : State) :
    Prop :=
  ∃ boot first traps, boot.hw.rescheCounter = processTicks ∧
    enterInit fs place boot = .ok first ∧ Run (Step fs place program) first traps s

/-- A step of another process than `p`, in which the kernel takes less time than a process
gets. -/
def OthersStep (fs : FileSystem) (place : Placement) (p : ProcPtr) (s : State) (trap : Trap)
    (s' : State) : Prop :=
  realSyscallHandler fs place s trap = .ok s' ∧ Away p s trap ∧
    ReschesTick (callsysOf trap.regs.eax = some .schedYield) s.hw.rescheCounter trap.user ∧
    s'.hw.pitTicks < s.hw.pitTicks + trap.user.count .tick + processTicks

def Trap.clones (trap : Trap) : Bool :=
  callsysOf trap.regs.eax = some .fork || callsysOf trap.regs.eax = some .thread

/-- The ticks until a process runs: a turn of each of the processes before it, and what is left
of the current one. -/
def ticksAhead (p : ProcPtr) (s : State) : Nat :=
  if s.currentProcess = p.pid then 0
  else 2 * processTicks * turnOf s.currentProcess p.pid + s.hw.rescheCounter + processTicks

/-- A turn of each of the processes: the time `resche` gives it, and the call it is still in. -/
def roundTicks : Nat := 32 * (2 * processTicks)

variable {fs : FileSystem} {place : Placement} {t t' : Tables} {p q : ProcPtr}
  {s s' : State} {trap : Trap} {ret : Int}

theorem reschesTick_count {yields : Prop} {counter : Nat} {irqs : List Irq}
    (preempts : ReschesTick yields counter irqs) : irqs.count .tick ≤ counter + 1 := by
  induction irqs generalizing counter with
  | nil => exact Nat.zero_le _
  | cons irq later ih =>
      cases irq with
      | tick =>
          rw [ReschesTick] at preempts
          split at preempts
          · rw [preempts.1]
            exact Nat.succ_le_succ (Nat.zero_le _)
          · have rest := ih preempts
            rw [List.count_cons_self]
            omega
      | key ch =>
          rw [List.count_cons_of_ne (by simp)]
          exact ih preempts
      | byte ch =>
          rw [List.count_cons_of_ne (by simp)]
          exact ih preempts

theorem Able.poised (able : Able t p) : ∃ regs, Poised t p regs := by
  obtain ⟨proc, awake, serial, -⟩ := able
  exact ⟨proc.usermodeState, proc, awake, serial, rfl⟩

theorem Able.view (able : Able t p) :
    ∃ kind, kind ≠ ScheType.idle ∧ t.viewAt Process.processScheType p = some kind := by
  obtain ⟨proc, awake, serial, kind⟩ := able
  exact ⟨_, kind, viewAt_eq_some.mpr ⟨proc, awake.1, serial, rfl⟩⟩

theorem Able.of_view {kind : ScheType} {regs : Tss} (poised : Poised t p regs)
    (known : t.viewAt Process.processScheType p = some kind) (busy : kind ≠ .idle) : Able t p := by
  obtain ⟨proc, awake, serial, -⟩ := poised
  obtain ⟨other, found, -, same⟩ := viewAt_eq_some.mp known
  have here : proc = other := Option.some.inj (awake.1.symm.trans found)
  refine ⟨proc, awake, serial, ?_⟩
  rw [here, same]
  exact busy

theorem Able.test (able : Able t p) : runnableAt t false p.pid = true := by
  obtain ⟨proc, awake, -, kind⟩ := able
  exact runnableAt_eligible.mpr ⟨proc, awake.1, awake.2, kind⟩

theorem Able.run {rights : Rights} (able : Able t p) (queues : Queues t) (mine : Mine t q)
    (differs : q ≠ p) (run : RunOf Act (StepLabel q rights ret) t t') : Able t' p := by
  obtain ⟨regs, poised⟩ := able.poised
  obtain ⟨kind, busy, known⟩ := able.view
  have kept := run.invariant (fun mid => Queues mid ∧ Mine mid q ∧ Poised mid p regs ∧
    mid.viewAt Process.processScheType p = some kind) ⟨queues, mine, poised, known⟩ (by
      intro mid label next fits ⟨queues, mine, poised, known⟩ act
      refine ⟨queues.act act, mine.act queues fits act,
        poised.act queues mine differs fits act, ?_⟩
      refine scheType_steady.act act (Or.inr ⟨?_, fun _ _ _ => rfl⟩) known
      rintro rfl
      exact differs fits.of_kill.1.symm)
  exact Able.of_view kept.2.2.1 kept.2.2.2 busy

theorem Able.step (able : Able s.toTables p) (inv : Inv s) (away : Away p s trap)
    (ran : realSyscallHandler fs place s trap = .ok s') : Able s'.toTables p := by
  obtain ⟨proc, ret, awake, acts⟩ := step_acts inv ran
  exact able.run inv.queues (Awake.mine awake) (away proc awake.1) acts

theorem Able.setRetval (able : Able t p) (pid : Pid) (ret : Int) :
    Able (t.modify pid (Process.setRetval ret)) p := by
  obtain ⟨proc, awake, serial, kind⟩ := able
  by_cases same : p.pid = pid
  · refine ⟨proc.setRetval ret, ⟨?_, awake.2⟩, serial, kind⟩
    rw [modify_processList, if_pos same, awake.1]
    rfl
  · refine ⟨proc, ⟨?_, awake.2⟩, serial, kind⟩
    rw [modify_processList, if_neg same]
    exact awake.1

theorem resche_turn (able : Able s.toTables p) (ran : resche s = .ok s') :
    s'.hw.pitTicks = s.hw.pitTicks ∧ s'.hw.rescheCounter = processTicks ∧
      (s'.currentProcess = p.pid ∨
        turnOf s'.currentProcess p.pid < turnOf s.currentProcess p.pid) := by
  rw [resche_eq] at ran
  cases found : next (runnableAt s.toTables false) s.currentProcess with
  | none =>
      have fails := next_eq_none.mp found p.pid
      rw [able.test] at fails
      cases fails
  | some pid =>
      rw [found] at ran
      have same := Except.ok.inj ran
      rw [← same]
      refine ⟨rfl, rfl, ?_⟩
      by_cases here : pid = p.pid
      · exact Or.inl here
      · exact Or.inr (turnOf_next_lt found able.test here)

theorem resche_fresh (ran : resche s = .ok s') : s'.hw.rescheCounter ≤ processTicks := by
  rw [resche_eq] at ran
  split at ran
  · cases ran
  · rw [← Except.ok.inj ran]

theorem finishCall_fresh {pid : Pid} (fresh : s.hw.rescheCounter ≤ processTicks)
    (finished : finishCall s pid ret = .ok s') : s'.hw.rescheCounter ≤ processTicks := by
  simp only [finishCall] at finished
  split at finished
  · exact resche_fresh finished
  · split at finished
    · exact resche_fresh finished
    · rw [← Except.ok.inj finished]
      exact fresh

theorem leaveHook_fresh (fresh : s.hw.rescheCounter ≤ processTicks)
    (left : leaveHook s trap = .ok s') : s'.hw.rescheCounter ≤ processTicks := by
  simp only [leaveHook] at left
  split at left
  · exact resche_fresh left
  · rw [← Except.ok.inj left]
    exact (interrupts_passes s.hw trap.arrivals.leaving).fresh fresh

theorem entered_ticks (s : State) (trap : Trap) (proc : Process) :
    (entered s trap proc).hw.pitTicks = s.hw.pitTicks + trap.user.count .tick ∧
      (entered s trap proc).hw.rescheCounter = s.hw.rescheCounter - trap.user.count .tick :=
  ⟨interrupts_ticks trap.user, interrupts_counter s.hw trap.user⟩

theorem reachLeave_cases {left : State} {proc : Process}
    (found : s.processList s.currentProcess = some proc)
    (reached : reachLeave fs place s trap = .ok left) :
    callsysOf trap.regs.eax = none ∧ leaveHook (entered s trap proc) trap = .ok left ∨
      ∃ callsys called ret passed finished, callsysOf trap.regs.eax = some callsys ∧
        applyHandler fs place (entered s trap proc) trap (proc.trapped trap) callsys =
          .ok (called, ret) ∧
        checkAll trap.arrivals called = .ok passed ∧
        finishCall passed s.currentProcess ret = .ok finished ∧
        leaveHook finished trap = .ok left := by
  cases known : callsysOf trap.regs.eax with
  | none =>
      refine Or.inl ⟨rfl, ?_⟩
      by_cases small : trap.regs.eax < syscallEnd
      · rw [← reached, reachLeave_unregistered found small known]
      · rw [reachLeave_outside found small] at reached
        cases reached
  | some callsys =>
      rw [reachLeave_registered found known] at reached
      obtain ⟨⟨called, ret⟩, applied, reached⟩ := bind_ok reached
      obtain ⟨passed, checked, reached⟩ := bind_ok reached
      obtain ⟨finished, returned, hook⟩ := bind_ok reached
      exact Or.inr ⟨callsys, called, ret, passed, finished, rfl, applied, checked, returned, hook⟩

theorem leaveKernelMode_hw (s : State) : (leaveKernelMode s).hw = s.hw := by
  rw [leaveKernelMode]
  split
  · rfl
  · rfl

theorem fresh_step (inv : Inv s) (fresh : s.hw.rescheCounter ≤ processTicks)
    (ran : realSyscallHandler fs place s trap = .ok s') :
    s'.hw.rescheCounter ≤ processTicks := by
  obtain ⟨proc, awake⟩ := inv.running
  have entering : (entered s trap proc).hw.rescheCounter ≤ processTicks := by
    rw [(entered_ticks s trap proc).2]
    omega
  rw [realSyscallHandler_eq] at ran
  obtain ⟨left, reached, leaves⟩ := map_ok ran
  rw [← leaves, leaveKernelMode_hw]
  rcases reachLeave_cases awake.1 reached with
    ⟨-, hook⟩ | ⟨callsys, called, ret, passed, finished, -, applied, checked, returned, hook⟩
  · exact leaveHook_fresh entering hook
  · have handled : called.hw.rescheCounter ≤ processTicks := by
      by_cases yields : callsys = .schedYield
      · subst yields
        exact resche_fresh (applyHandler_schedYield applied).1
      · have passes := (passes_kept _).applyHandler (.refl _) yields applied
        exact passes.fresh entering
    have passes := (checkAll_passes checked).fresh handled
    exact leaveHook_fresh (finishCall_fresh passes returned) hook

theorem enterInit_hw {boot : BootInfo} (started : enterInit fs place boot = .ok s) :
    s.hw = boot.hw := by
  simp only [enterInit] at started
  split at started
  · cases started
  · next executed =>
      split at started
      · rw [← Except.ok.inj started, leaveKernelMode_hw]
        exact execv_hw executed
      · cases started

theorem Timed.reachable {program : State → Trap → Prop} (timed : Timed fs place program s) :
    Reachable fs place program s := by
  obtain ⟨boot, first, traps, -, started, run⟩ := timed
  exact ⟨boot, first, traps, started, run⟩

theorem Timed.fresh {program : State → Trap → Prop} (timed : Timed fs place program s) :
    s.hw.rescheCounter ≤ processTicks := by
  obtain ⟨boot, first, traps, counter, started, run⟩ := timed
  have begins : Reachable fs place program first := ⟨boot, first, [], started, Run.nil first⟩
  have initial : Inv first ∧ first.hw.rescheCounter ≤ processTicks := by
    refine ⟨begins.inv, ?_⟩
    rw [enterInit_hw started, counter]
  have kept := run.invariant (fun mid => Inv mid ∧ mid.hw.rescheCounter ≤ processTicks) initial
    fun mid trap next _ holds taken => ⟨holds.1.step taken.2, fresh_step holds.1 holds.2 taken.2⟩
  exact kept.2

def Stays (s s' : State) : Prop :=
  s'.currentProcess = s.currentProcess ∧ s.hw.Passes s'.hw

/-- One `resche` between two points of a step, which brings a process closer to its turn. -/
def Turned (p : ProcPtr) (s s' : State) : Prop :=
  ∃ ticks, s'.hw.rescheCounter = processTicks - ticks ∧ s.hw.pitTicks + ticks ≤ s'.hw.pitTicks ∧
    (s'.currentProcess = p.pid ∨
      turnOf s'.currentProcess p.pid < turnOf s.currentProcess p.pid)

variable {mid : State}

theorem Stays.trans (first : Stays s mid) (second : Stays mid s') : Stays s s' :=
  ⟨second.1.trans first.1, first.2.trans second.2⟩

theorem Stays.turned (first : Stays s mid) (second : Turned p mid s') : Turned p s s' := by
  obtain ⟨ticks, counter, later, turn⟩ := second
  obtain ⟨current, more, passed, -⟩ := first
  rw [current] at turn
  exact ⟨ticks, counter, by omega, turn⟩

theorem Turned.stays (first : Turned p s mid) (second : Stays mid s') : Turned p s s' := by
  obtain ⟨ticks, counter, later, turn⟩ := first
  obtain ⟨current, more, passed, counter'⟩ := second
  refine ⟨ticks + more, by omega, by omega, ?_⟩
  rwa [current]

theorem turned_of_resche (able : Able s.toTables p) (ran : resche s = .ok s') :
    Turned p s s' := by
  obtain ⟨ticks, counter, turn⟩ := resche_turn able ran
  exact ⟨0, counter, by omega, turn⟩

theorem leaveHook_turned (able : Able s.toTables p) (left : leaveHook s trap = .ok s') :
    Stays s s' ∧ s'.hw.rescheCounter ≠ 0 ∨ Turned p s s' ∧
      ∃ mid, Stays s mid ∧ mid.hw.rescheCounter = 0 ∧ mid.hw.pitTicks = s'.hw.pitTicks := by
  have passes : Stays s { s with hw := s.hw.interrupts trap.arrivals.leaving } :=
    ⟨rfl, interrupts_passes s.hw trap.arrivals.leaving⟩
  simp only [leaveHook] at left
  split at left
  · next up =>
      have turn := turned_of_resche (s := { s with
        hw := s.hw.interrupts trap.arrivals.leaving }) able left
      exact Or.inr ⟨passes.turned turn, _, passes, up, (resche_turn (s := { s with
        hw := s.hw.interrupts trap.arrivals.leaving }) able left).1.symm⟩
  · next time =>
      rw [← Except.ok.inj left]
      exact Or.inl ⟨passes, time⟩

theorem Turned.leave (turned : Turned p s mid) (able : Able mid.toTables p)
    (left : leaveHook mid trap = .ok s') (fast : s'.hw.pitTicks < s.hw.pitTicks + processTicks) :
    Turned p s s' := by
  rcases leaveHook_turned able left with ⟨stays, -⟩ | ⟨-, up, stays, zero, ticks⟩
  · exact turned.stays stays
  · obtain ⟨since, counter, later, -⟩ := turned
    obtain ⟨-, more, passed, left⟩ := stays
    omega

theorem finishCall_turned {pid : Pid} (able : Able s.toTables p)
    (finished : finishCall s pid ret = .ok s') :
    Stays s s' ∨ Turned p s s' ∧ ∀ proc, ¬ s.toTables.Awake pid proc := by
  simp only [finishCall] at finished
  split at finished
  · next gone =>
      refine Or.inr ⟨turned_of_resche able finished, fun proc awake => ?_⟩
      rw [awake.1] at gone
      cases gone
  · next proc found =>
      split at finished
      · next asleep =>
          refine Or.inr ⟨turned_of_resche (s := { s with
            toTables := s.toTables.modify pid (Process.setRetval ret) })
              (able.setRetval pid ret) finished, fun other awake => ?_⟩
          rw [awake.1, Option.some.injEq] at found
          exact asleep (found ▸ awake.2)
      · rw [← Except.ok.inj finished]
        exact Or.inl ⟨rfl, .refl _⟩

theorem finishCall_able {pid : Pid} (able : Able s.toTables p)
    (finished : finishCall s pid ret = .ok s') : Able s'.toTables p := by
  simp only [finishCall] at finished
  split at finished
  · rw [(resche_spec finished).1]
    exact able
  · split at finished
    · rw [(resche_spec finished).1]
      exact able.setRetval pid ret
    · rw [← Except.ok.inj finished]
      exact able.setRetval pid ret

theorem returns_turned {pid : Pid} (able : Able s.toTables p)
    (finished : finishCall s pid ret = .ok mid) (left : leaveHook mid trap = .ok s')
    (fast : s'.hw.pitTicks < s.hw.pitTicks + processTicks) :
    Stays s s' ∧ s'.hw.rescheCounter ≠ 0 ∨ Turned p s s' := by
  have able' := finishCall_able able finished
  rcases finishCall_turned able finished with stays | ⟨turned, -⟩
  · rcases leaveHook_turned able' left with ⟨later, time⟩ | ⟨later, -⟩
    · exact Or.inl ⟨stays.trans later, time⟩
    · exact Or.inr (stays.turned later)
  · exact Or.inr (turned.leave able' left fast)

theorem checked_turned {called passed : State} {proc : Process} {callsys : Callsys}
    (able : Able (entered s trap proc).toTables p) (known : callsysOf trap.regs.eax = some callsys)
    (applied : applyHandler fs place (entered s trap proc) trap (proc.trapped trap) callsys =
      .ok (called, ret))
    (checked : checkAll trap.arrivals called = .ok passed) :
    callsys ≠ .schedYield ∧ Stays (entered s trap proc) passed ∨
      callsys = .schedYield ∧ Turned p (entered s trap proc) passed ∧
        called.toTables = (entered s trap proc).toTables ∨
      trap.clones := by
  have checks : Stays called passed := ⟨(checkAll_acts checked).2, checkAll_passes checked⟩
  have goes : callsys ≠ .schedYield → callsys.switches = false →
      Stays (entered s trap proc) passed := fun other stays =>
    Stays.trans ⟨applyHandler_stays stays applied,
      (passes_kept (entered s trap proc).hw).applyHandler (.refl _) other applied⟩ checks
  cases callsys with
  | schedYield =>
      obtain ⟨chosen, -⟩ := applyHandler_schedYield applied
      have turned := (turned_of_resche able chosen).stays checks
      exact Or.inr (Or.inl ⟨rfl, turned, (resche_spec chosen).1⟩)
  | fork => exact Or.inr (Or.inr (by simp [Trap.clones, known]))
  | thread => exact Or.inr (Or.inr (by simp [Trap.clones, known]))
  | _ => exact Or.inl ⟨by simp, goes (by simp) rfl⟩

/-- Where a step of another process gets to: the same process goes on, or the turn comes closer,
or there is a new process. -/
theorem reachLeave_turned {left : State} {proc : Process} (inv : Inv s)
    (able : Able s.toTables p) (awake : s.toTables.Awake s.currentProcess proc)
    (differs : (⟨s.currentProcess, proc.serial⟩ : ProcPtr) ≠ p)
    (reached : reachLeave fs place s trap = .ok left)
    (fast : left.hw.pitTicks < (entered s trap proc).hw.pitTicks + processTicks) :
    Stays (entered s trap proc) left ∧ left.hw.rescheCounter ≠ 0 ∨
      Turned p (entered s trap proc) left ∨ trap.clones := by
  have enter := entered_acts trap awake
  have entering : Able (entered s trap proc).toTables p := by
    have acts : RunOf Act (StepLabel ⟨s.currentProcess, proc.serial⟩ (trapRights fs trap) 0)
        s.toTables (entered s trap proc).toTables := enter.mono fun _ kind => Or.inl kind
    exact able.run inv.queues (Awake.mine awake) differs acts
  rcases reachLeave_cases awake.1 reached with
    ⟨-, hook⟩ | ⟨callsys, called, ret, passed, finished, known, applied, checked, returned, hook⟩
  · rcases leaveHook_turned entering hook with stays | ⟨turned, -⟩
    · exact Or.inl stays
    · exact Or.inr (Or.inl turned)
  · have handler := handler_acts inv awake known applied
    have pass := (checkAll_acts checked).1
    have acts : RunOf Act (StepLabel ⟨s.currentProcess, proc.serial⟩ (trapRights fs trap) ret)
        s.toTables passed.toTables :=
      (enter.mono fun _ kind => Or.inl kind).trans
        ((handler.mono fun _ kind => Or.inr (Or.inl kind)).trans
          (pass.mono fun _ kind => Or.inr (Or.inr kind)))
    have able' : Able passed.toTables p :=
      able.run inv.queues (Awake.mine awake) differs acts
    rcases checked_turned entering known applied checked with
      ⟨-, stays⟩ | ⟨-, turned, same⟩ | clones
    · have quick : left.hw.pitTicks < passed.hw.pitTicks + processTicks := by
        obtain ⟨-, ticks, later, -⟩ := stays
        omega
      rcases returns_turned able' returned hook quick with ⟨later, time⟩ | later
      · exact Or.inl ⟨stays.trans later, time⟩
      · exact Or.inr (Or.inl (stays.turned later))
    · -- the caller can still run, so there is no second `resche` before the hook
      have caller := Awake.pass_run ((inv.queues.run enter).run handler)
        (same ▸ entered_awake trap awake) pass
      rcases finishCall_turned able' returned with later | ⟨-, asleep⟩
      · exact Or.inr (Or.inl
          ((turned.stays later).leave (finishCall_able able' returned) hook fast))
      · exact absurd caller (asleep _)
    · exact Or.inr (Or.inr clones)

/-- The turns before a process and one more are a round at most. -/
theorem turns_within_round (current pid : Pid) :
    2 * processTicks * turnOf current pid + 2 * processTicks ≤ roundTicks := by
  calc
    2 * processTicks * turnOf current pid + 2 * processTicks =
        2 * processTicks * (turnOf current pid + 1) := rfl
    _ ≤ 2 * processTicks * 32 := Nat.mul_le_mul_left _ (turnOf_lt current pid)
    _ = roundTicks := Nat.mul_comm _ _

/-- A step of another process takes its time off what is ahead of a process, and only a new
process can put itself before it. -/
theorem OthersStep.pays (inv : Inv s) (able : Able s.toTables p)
    (fresh : s.hw.rescheCounter ≤ processTicks) (step : OthersStep fs place p s trap s') :
    Able s'.toTables p ∧ s'.hw.rescheCounter ≤ processTicks ∧
      s'.hw.pitTicks + ticksAhead p s' ≤
        s.hw.pitTicks + ticksAhead p s + bif trap.clones then roundTicks else 0 := by
  obtain ⟨ran, away, preempts, fast⟩ := step
  obtain ⟨proc, awake⟩ := inv.running
  have apart : s.currentProcess ≠ p.pid := by
    intro same
    obtain ⟨own, ⟨found, -⟩, serial, -⟩ := able
    rw [← same] at found
    exact away own found (ProcPtr.ext_of same serial)
  have fresh' := fresh_step inv fresh ran
  refine ⟨able.step inv away ran, fresh', ?_⟩
  rw [realSyscallHandler_eq] at ran
  obtain ⟨left, reached, leaves⟩ := map_ok ran
  have hw : s'.hw = left.hw := by rw [← leaves, leaveKernelMode_hw]
  have current : s'.currentProcess = left.currentProcess := by
    rw [← leaves]
    exact (leaveKernelMode_same left).2
  obtain ⟨ticks, counter⟩ := entered_ticks s trap proc
  have few := reschesTick_count preempts
  rw [hw] at fast fresh' ⊢
  have outcome := reachLeave_turned inv able awake (away proc awake.1) reached (by omega)
  have here : (entered s trap proc).currentProcess = s.currentProcess := rfl
  have ahead : ticksAhead p s' ≤
      2 * processTicks * turnOf left.currentProcess p.pid + left.hw.rescheCounter +
        processTicks := by
    rw [ticksAhead, current, hw]
    split
    · exact Nat.zero_le _
    · exact Nat.le_refl _
  have before : ticksAhead p s =
      2 * processTicks * turnOf s.currentProcess p.pid + s.hw.rescheCounter + processTicks :=
    if_neg apart
  rw [before]
  rcases outcome with ⟨⟨same, time, passed, left⟩, up⟩ | ⟨time, up, passed, closer⟩ | clones
  · rw [same, here] at ahead
    omega
  · -- what the step takes beyond the time left is paid by the turn that is gone
    rcases closer with chosen | closer
    · have none : ticksAhead p s' = 0 := if_pos (current.trans chosen)
      omega
    · rw [here] at closer
      have rounds : 2 * processTicks * (turnOf left.currentProcess p.pid + 1) ≤
          2 * processTicks * turnOf s.currentProcess p.pid := Nat.mul_le_mul_left _ closer
      rw [Nat.mul_add] at rounds
      omega
  · have rounds := turns_within_round left.currentProcess p.pid
    rw [clones, cond_true]
    omega

theorem timed_of_smallRun {program : State → Trap → Prop} [∀ s trap, Decidable (program s trap)]
    {traps : List Trap} (ran : smallRun program traps = some s) :
    Timed smallVolume smallPlacement program s := by
  obtain ⟨first, started, run⟩ := smallRun_sound program ran
  exact ⟨smallBoot, first, traps, rfl, started, run⟩

/-- The other processes keep a process that can run waiting for a turn of each of them at most,
and once more for every call that may make a process. -/
theorem waits_one_round {program : State → Trap → Prop} {s last : State} {traps : List Trap}
    (timed : Timed fs place program s) (able : Able s.toTables p)
    (run : Run (OthersStep fs place p) s traps last) :
    Able last.toTables p ∧
      last.hw.pitTicks ≤ s.hw.pitTicks + roundTicks * (1 + traps.countP Trap.clones) := by
  obtain ⟨⟨-, able', -⟩, paid⟩ := run.amortized
    (fun mid => Inv mid ∧ Able mid.toTables p ∧ mid.hw.rescheCounter ≤ processTicks)
    (fun mid => mid.hw.pitTicks) (ticksAhead p) Trap.clones roundTicks
    ⟨timed.reachable.inv, able, timed.fresh⟩ (by
      intro mid trap next ⟨inv, able, fresh⟩ step
      obtain ⟨still, counter, cost⟩ := step.pays inv able fresh
      exact ⟨⟨inv.step step.1, still, counter⟩, cost⟩)
  refine ⟨able', ?_⟩
  have ahead : ticksAhead p s ≤ roundTicks := by
    have fresh := timed.fresh
    have rounds := turns_within_round s.currentProcess p.pid
    rw [ticksAhead]
    split
    · exact Nat.zero_le _
    · omega
  rw [Nat.mul_add, Nat.mul_one]
  omega

def timerYield : Trap := { plainCall 158 0 0 0 with user := List.replicate 30 .tick }

/-- The second of two threads is interrupted and the first one runs. -/
theorem waits_one_round_timer : ∃ s last,
    Timed smallVolume smallPlacement (fun _ _ => True) s ∧ s.currentProcess = 2 ∧
    Run (OthersStep smallVolume smallPlacement ⟨1, 5⟩) s [timerYield] last ∧
    last.currentProcess = 1 ∧ last.hw.pitTicks = 30 ∧ Able last.toTables ⟨1, 5⟩ ∧
    last.hw.pitTicks ≤ s.hw.pitTicks + roundTicks * (1 + [timerYield].countP Trap.clones) := by
  have reached : (smallRun (fun _ _ => True) [plainCall 202 0 0 0, plainCall 202 0 0 0]).any
      (fun s => s.currentProcess = 2 ∧ s.hw.rescheCounter = 30 ∧ s.hw.pitTicks = 0 ∧
        (s.processList 1).any (fun proc => proc.processState = .runnable ∧ proc.serial = 5 ∧
          proc.processScheType ≠ .idle) ∧
        (realSyscallHandler smallVolume smallPlacement s timerYield).toOption.any fun last =>
          last.currentProcess = 1 ∧ last.hw.pitTicks = 30) := by decide +kernel
  obtain ⟨s, ended, holds⟩ := (Option.any_eq_true _ _).mp reached
  obtain ⟨current, counter, ticks, ready, returns⟩ := of_decide_eq_true holds
  have timed : Timed smallVolume smallPlacement (fun _ _ => True) s := timed_of_smallRun ended
  obtain ⟨proc, found, holds⟩ := (Option.any_eq_true _ _).mp ready
  obtain ⟨awake, serial, kind⟩ := of_decide_eq_true holds
  obtain ⟨last, ran, after⟩ := (Option.any_eq_true _ _).mp returns
  obtain ⟨chosen, later⟩ := of_decide_eq_true after
  have able : Able s.toTables ⟨1, 5⟩ := ⟨proc, ⟨found, awake⟩, serial, kind⟩
  have away : Away ⟨1, 5⟩ s timerYield := by
    intro caller _ same
    rw [current] at same
    cases congrArg ProcPtr.pid same
  have preempts : ReschesTick (callsysOf timerYield.regs.eax = some .schedYield)
      s.hw.rescheCounter timerYield.user := by
    rw [counter]
    exact ⟨rfl, rfl⟩
  have fast : last.hw.pitTicks < s.hw.pitTicks + timerYield.user.count .tick + processTicks := by
    rw [later, ticks]
    decide
  have run : Run (OthersStep smallVolume smallPlacement ⟨1, 5⟩) s [timerYield] last :=
    Run.cons ⟨toOption_eq_some ran, away, preempts, fast⟩ (Run.nil last)
  exact ⟨s, last, timed, current, run, chosen, later, waits_one_round timed able run⟩

end SysImpl.Kernel
