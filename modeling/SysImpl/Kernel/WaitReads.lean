import SysImpl.Kernel.Starvation
import SysImpl.Kernel.Waits

/-! The reads of a process that waits for the exit of another one.

When the child has exited, the request of the waiter holds its code, whichever of the exit,
the write and the read came first. A read that is made then returns it, and one that is
pending is served by the next pass that finds its queue in order. -/

namespace SysImpl.Kernel

open Bytes Runs

/-- `p` has made `child`, its latest write to `:WAITPID` is of the slot of the child, and no
other process was put in that slot before that write. -/
def WaitsFor (p child : ProcPtr) (log : List Event) : Prop :=
  ∃ later between earlier keep,
    log = later ++ .awaited p child.pid.val :: (between ++ .spawned p child keep :: earlier) ∧
    (∀ target, .awaited p target ∉ later) ∧
    ∀ parent other flag, .spawned parent other flag ∈ between → other.pid ≠ child.pid

/-- A trap of `p` that reads four bytes of `:WAITPID`. -/
structure StatusRead (s : State) (trap : Trap) (p : ProcPtr) (proc : Process) : Prop where
  current : s.currentProcess = p.pid
  found : s.processList p.pid = some proc
  own : proc.serial = p.serial
  call : callsysOf trap.regs.eax = some .read
  size : trap.regs.edx = 4
  opened : getObject proc trap.regs.ebx = .ok (some (.device 2))

/-- The pass at the end of a call made in a state, with nothing arriving. -/
def PassAfter (fs : FileSystem) (place : Placement) (s : State) (trap : Trap)
    (called passed : State) : Prop :=
  ∃ proc callsys ret, s.processList s.currentProcess = some proc ∧
    callsysOf trap.regs.eax = some callsys ∧
    applyHandler fs place (entered s trap proc) trap (proc.trapped trap) callsys =
      .ok (called, ret) ∧
    trap.arrivals.Silent ∧ checkAll trap.arrivals called = .ok passed

variable {fs : FileSystem} {place : Placement} {t t' : Tables} {s : State} {p child : ProcPtr}

theorem awaiting_last {p : ProcPtr} {target : Nat} {middle rest : List Event}
    (last : ∀ target, .awaited p target ∉ middle) :
    awaiting p (middle ++ .awaited p target :: rest) = latestIn target rest := by
  induction middle with
  | nil => simp [awaiting]
  | cons event tail ih =>
      have later := ih fun other member => last other (List.mem_cons_of_mem _ member)
      cases event with
      | awaited q other =>
          have differs : q ≠ p := by
            intro same
            exact last other (by rw [same]; exact List.mem_cons_self)
          simp only [List.cons_append, awaiting, if_neg differs, later]
      | _ => exact later

theorem latestIn_last {p child : ProcPtr} {keep : Bool} {between earlier : List Event}
    (kept : ∀ parent other flag, .spawned parent other flag ∈ between → other.pid ≠ child.pid) :
    latestIn child.pid.val (between ++ .spawned p child keep :: earlier) = some child := by
  induction between with
  | nil => simp [latestIn]
  | cons event tail ih =>
      have later := ih fun parent other flag member =>
        kept parent other flag (List.mem_cons_of_mem _ member)
      cases event with
      | spawned parent other flag =>
          have differs : other.pid.val ≠ child.pid.val := fun same =>
            kept parent other flag List.mem_cons_self (Fin.ext same)
          simp only [List.cons_append, latestIn, if_neg differs, later]
      | _ => exact later

theorem WaitsFor.awaiting {log : List Event} (waits : WaitsFor p child log) :
    awaiting p log = some child := by
  obtain ⟨later, between, earlier, keep, history, last, kept⟩ := waits
  rw [history, awaiting_last last]
  exact latestIn_last kept

/-- Once the child has exited the request of the waiter is settled with its code. -/
theorem Waits.settled {code : Nat} (waits : Waits t) (living : t.owner p.pid = some p.serial)
    (wait : WaitsFor p child t.log) (exited : .exited child code ∈ t.log) :
    t.reqs p.pid = ⟨0, code⟩ := by
  rcases waits.pending p child living wait.awaiting with ⟨-, alive⟩ | ⟨none, reported⟩
  · exact absurd alive (waits.ended child code exited).2
  · have same := waits.once child code _ exited reported
    cases req : t.reqs p.pid
    simp_all

theorem Waiting.reachable (reachable : Reachable fs place IdleStays s) : Waiting s.toTables :=
  (reachable.induct (fun s => Waiting s.toTables) (fun _ _ started => Waiting.boot started)
    (fun _ _ _ inv waiting stays ran => waiting.step inv stays ran)).2

theorem readDevice_settled {proc : Process} {pending : List PendingRead} {code : Nat}
    (buffer : Nat) (found : s.processList s.currentProcess = some proc)
    (device : s.devices 2 = some ⟨2, pending, .processWait⟩)
    (settled : s.reqs s.currentProcess = ⟨0, code⟩) :
    ∃ called, readDevice s 2 buffer 4 = .ok (called, 4) ∧
      called.mem = copyTo s.mem buffer (bytes32 code) ∧
      called.log = .completed 2 ⟨s.currentProcess, proc.serial⟩ 4 4 (bytes32 code) ::
        .issued 2 ⟨s.currentProcess, proc.serial⟩ 4 :: s.log := by
  have loaded : loadWrap (copyTo s.mem buffer (bytes32 code)) buffer 4 = bytes32 code := by
    have whole := loadWrap_copyTo s.mem buffer (bytes32 code) (by simp)
    rwa [bytes32_length] at whole
  let issued : State := s.note (.issued 2 ⟨s.currentProcess, proc.serial⟩ 4)
  let stored : State := { issued with mem := copyTo s.mem buffer (bytes32 code) }
  have taken : inputRead issued 2 .processWait buffer 4 = (stored, 4) := by
    have none : issued.reqs issued.currentProcess = ⟨0, code⟩ := settled
    rw [inputRead, readProcessWait, none]
    rfl
  refine ⟨stored.note (.completed 2 ⟨s.currentProcess, proc.serial⟩ 4 4 (bytes32 code)), ?_, rfl,
    rfl⟩
  have here : issued.devices 2 = some ⟨2, pending, .processWait⟩ := device
  have reads : doRead issued 2 ⟨s.currentProcess, proc.serial⟩ buffer 4 =
      .ok (stored.note (.completed 2 ⟨s.currentProcess, proc.serial⟩ 4 4
        (loadWrap stored.mem buffer 4)), 4) := by
    simp only [doRead, here, taken]
    rfl
  simp only [readDevice, found, device]
  rw [← loaded]
  exact reads

theorem StatusRead.returns {trap : Trap} {proc : Process} {code : Nat}
    (read : StatusRead s trap p proc) (fixtures : Fixtures s.toTables)
    (settled : s.reqs p.pid = ⟨0, code⟩) :
    ∃ called, applyHandler fs place (entered s trap proc) trap (proc.trapped trap) .read =
        .ok (called, 4) ∧
      called.mem = copyTo trap.mem trap.regs.ecx (bytes32 code) ∧
      called.log = .completed 2 p 4 4 (bytes32 code) :: .issued 2 p 4 :: .entered p :: s.log := by
  have caller : (⟨s.currentProcess, proc.serial⟩ : ProcPtr) = p := by
    rw [read.current, read.own]
  have found : s.processList s.currentProcess = some proc := by
    rw [read.current]
    exact read.found
  obtain ⟨pending, device⟩ := fixtures.wait
  have settled : (entered s trap proc).reqs (entered s trap proc).currentProcess = ⟨0, code⟩ := by
    rw [← read.current] at settled
    exact settled
  have entry : (entered s trap proc).processList (entered s trap proc).currentProcess =
      some (proc.trapped trap) := enterKernelMode_found trap found
  obtain ⟨called, returns, mem, log⟩ := readDevice_settled trap.regs.ecx entry device settled
  refine ⟨called, ?_, mem, ?_⟩
  · have opened : getObject (proc.trapped trap) (proc.trapped trap).usermodeState.ebx =
        .ok (some (.device 2)) := read.opened
    have size : (proc.trapped trap).usermodeState.edx = 4 := read.size
    simp only [applyHandler, readHandler, opened, size]
    exact returns
  · have log : called.log = .completed 2 ⟨s.currentProcess, proc.serial⟩ 4 4 (bytes32 code) ::
        .issued 2 ⟨s.currentProcess, proc.serial⟩ 4 ::
        .entered ⟨s.currentProcess, proc.serial⟩ :: s.log := log
    rw [log, caller]

theorem PassAfter.waiting {trap : Trap} {called passed : State} (inv : Inv s)
    (waiting : Waiting s.toTables) (stays : IdleStays s trap)
    (pass : PassAfter fs place s trap called passed) : Waiting called.toTables := by
  obtain ⟨proc, callsys, ret, found, known, applied, -, -⟩ := pass
  obtain ⟨caller, awake⟩ := inv.running
  have same : caller = proc := Option.some.inj (awake.1.symm.trans found)
  subst same
  have acts : RunOf Act (StepLabel ⟨s.currentProcess, caller.serial⟩ (trapRights fs trap) ret)
      s.toTables called.toTables :=
    ((entered_acts trap awake).mono fun _ kind => Or.inl kind).trans
      ((handler_acts inv awake known applied).mono fun _ kind => Or.inr (Or.inl kind))
  apply waiting.run acts
  intro q kill zero
  obtain ⟨same, exits⟩ := kill.of_kill
  rw [same] at zero
  exact stays zero exits

theorem pass_act {label : Label} {req : PendingRead} {code : Nat} (fixtures : Fixtures t)
    (settled : t.reqs req.proc.pid = ⟨0, code⟩) (size : req.size = 4)
    (stands : req ∈ t.pendingAt 2 ∨ .completed 2 req.proc 4 4 (bytes32 code) ∈ t.log)
    (kind : PassLabel label) (act : Act t label t') :
    t'.reqs = t.reqs ∧
      (req ∈ t'.pendingAt 2 ∨ .completed 2 req.proc 4 4 (bytes32 code) ∈ t'.log) := by
  obtain ⟨slot, kind⟩ := kind
  cases act with
  | @serve slot device now rest ret data input found queue spec =>
      refine ⟨rfl, ?_⟩
      rcases stands with member | done
      · by_cases here : slot = 2
        · subst here
          obtain ⟨pending, wait⟩ := fixtures.wait
          have same : device = ⟨2, pending, .processWait⟩ := Option.some.inj (found.symm.trans wait)
          rw [pendingAt_of_some found, queue] at member
          rcases List.mem_cons.mp member with first | later
          · subst first
            subst same
            obtain ⟨-, -, ⟨-, rfl, rfl⟩ | ⟨other, -⟩⟩ := spec
            · rw [settled, size]
              exact Or.inr List.mem_cons_self
            · exact absurd size other
          · left
            simpa [Tables.pendingAt, modifyDevice_devices, found, Device.setPending] using later
        · left
          simpa [Tables.pendingAt, modifyDevice_devices, Ne.symm here] using member
      · exact Or.inr (List.mem_cons_of_mem _ done)
  | @requeue slot device now rest found queue kind =>
      refine ⟨rfl, stands.imp_left fun member => ?_⟩
      by_cases here : slot = 2
      · subst here
        rw [pendingAt_of_some found, queue] at member
        have kept : req ∈ rest ++ [now] := by
          rw [List.mem_append, List.mem_singleton]
          exact (List.mem_cons.mp member).symm
        simpa [Tables.pendingAt, modifyDevice_devices, found, Device.setPending] using kept
      · simpa [Tables.pendingAt, modifyDevice_devices, Ne.symm here] using member
  | _ => exact kind.elim

theorem pass_run {req : PendingRead} {code : Nat} (fixtures : Fixtures t)
    (settled : t.reqs req.proc.pid = ⟨0, code⟩) (size : req.size = 4)
    (member : req ∈ t.pendingAt 2) (run : RunOf Act PassLabel t t') :
    Fixtures t' ∧ t'.reqs = t.reqs ∧
      (req ∈ t'.pendingAt 2 ∨ .completed 2 req.proc 4 4 (bytes32 code) ∈ t'.log) := by
  apply run.invariant (fun mid => Fixtures mid ∧ mid.reqs = t.reqs ∧
    (req ∈ mid.pendingAt 2 ∨ .completed 2 req.proc 4 4 (bytes32 code) ∈ mid.log))
    ⟨fixtures, rfl, Or.inl member⟩
  intro mid label next kind ⟨fixtures, same, stands⟩ act
  have still : mid.reqs req.proc.pid = ⟨0, code⟩ := by rw [same, settled]
  obtain ⟨kept, stands⟩ := pass_act fixtures still size stands kind act
  exact ⟨fixtures.act act, kept.trans same, stands⟩

/-- A pass that finds the queue of `:WAITPID` in order serves a read whose request is settled. -/
theorem settled_served {arrivals : Arrivals} {called passed : State} {req : PendingRead}
    {code : Nat} (queues : Queues called.toTables) (fixtures : Fixtures called.toTables)
    (settled : called.reqs req.proc.pid = ⟨0, code⟩) (size : req.size = 4)
    (member : req ∈ called.toTables.pendingAt 2) (silent : arrivals.Silent)
    (checked : checkAll arrivals called = .ok passed) (prompt : Prompt called 2) :
    .completed 2 req.proc 4 4 (bytes32 code) ∈ passed.log := by
  have idle := (checkAll_idle_iff silent queues checked 2).mpr prompt
  obtain ⟨⟨pending, wait⟩, same, stands⟩ : (∃ pending,
      passed.devices 2 = some ⟨2, pending, .processWait⟩) ∧ passed.reqs = called.reqs ∧
      (req ∈ passed.toTables.pendingAt 2 ∨
        .completed 2 req.proc 4 4 (bytes32 code) ∈ passed.log) := by
    obtain ⟨kept, rest⟩ := pass_run fixtures settled size member (checkAll_acts checked).1
    exact ⟨kept.wait, rest⟩
  rcases stands with still | done
  · -- a settled read that is still pending would return, which the pass leaves none to do
    rw [pendingAt_of_some wait] at still
    have blocked := idle _ wait req still
    have none : passed.reqs req.proc.pid = ⟨0, code⟩ := by rw [same, settled]
    simp [requestRead, inputRead, readProcessWait, none, size, four_ne_eagain] at blocked
  · exact done

/-- In every run in which the idle process does not exit, for a process that has made a child
and waits for it: what a read of four bytes of `:WAITPID` delivers is the code the child has
exited with before that; when the child has exited, a read that is made returns its code; and
a read that is pending is served by every pass that finds the queue in order, be it that of
the exit or a later one. -/
theorem wait_reports_exit (reachable : Reachable fs place IdleStays s)
    (positive : child.pid ≠ 0) :
    (∀ later ret data earlier, s.log = later ++ .completed 2 p 4 ret data :: earlier →
      WaitsFor p child earlier →
      ret = 4 ∧ ∃ code, data = bytes32 code ∧ .exited child code ∈ earlier ∧
        ∀ other, .exited child other ∈ s.log → other = code) ∧
    (∀ code trap proc, WaitsFor p child s.log → .exited child code ∈ s.log →
      StatusRead s trap p proc →
      ∃ called, applyHandler fs place (entered s trap proc) trap (proc.trapped trap) .read =
          .ok (called, 4) ∧
        called.mem = copyTo trap.mem trap.regs.ecx (bytes32 code) ∧
        called.log = .completed 2 p 4 4 (bytes32 code) :: .issued 2 p 4 :: .entered p :: s.log) ∧
    ∀ code trap called passed req, IdleStays s trap → PassAfter fs place s trap called passed →
      WaitsFor p child called.log → .exited child code ∈ called.log →
      req ∈ called.toTables.pendingAt 2 → req.proc = p → req.size = 4 → Prompt called 2 →
      .completed 2 p 4 4 (bytes32 code) ∈ passed.log := by
  have waiting := Waiting.reachable reachable
  refine ⟨?_, ?_, ?_⟩
  · intro later ret data earlier history waits
    have suffix : .completed 2 p 4 ret data :: earlier <:+ s.log := by
      rw [history]
      exact List.suffix_append later _
    obtain ⟨four, code, ended, status⟩ :=
      waiting.waits.delivered p child ret data _ suffix waits.awaiting positive
    refine ⟨four, code, status, ended, ?_⟩
    intro other member
    exact waiting.waits.once child code other (suffix.mem (List.mem_cons_of_mem _ ended)) member
  · intro code trap proc waits exited read
    have living : s.toTables.owner p.pid = some p.serial := by
      rw [Tables.owner, read.found, Option.map_some, read.own]
    exact read.returns waiting.fixtures (waiting.waits.settled living waits exited)
  · intro code trap called passed req stays pass waits exited member own size prompt
    have calling := pass.waiting reachable.inv waiting stays
    obtain ⟨-, -, -, -, -, -, silent, checked⟩ := pass
    have living := calling.queues.owner_queued member
    subst own
    have settled := calling.waits.settled living waits exited
    exact settled_served calling.queues calling.fixtures settled size member silent checked prompt

def threadWait : List Trap :=
  [plainCall 2 0 0 0, plainCall 202 0 0 0, plainCall 158 0 0 0,
    callWith ":WAITPID".toUTF8.toList 5 100 0 0, callWith [2, 0, 0, 0] 4 3 100 4]

theorem threadWait_waits {log later : List Event} (last : ∀ target, .awaited ⟨1, 5⟩ target ∉ later)
    (history : ∃ earlier, log = later ++ .awaited ⟨1, 5⟩ 2 ::
      ([.entered ⟨1, 5⟩, .entered ⟨1, 5⟩, .entered ⟨2, 6⟩] ++
        .spawned ⟨1, 5⟩ ⟨2, 6⟩ false :: earlier)) : WaitsFor ⟨1, 5⟩ ⟨2, 6⟩ log := by
  obtain ⟨earlier, history⟩ := history
  exact ⟨later, _, earlier, false, history, last, by simp⟩

/-- The thread exits with 7: its maker reads that when the exit comes before the read, and when
it comes while the read is pending. -/
theorem wait_reports_exit_seven :
    (∃ s proc called, Reachable smallVolume smallPlacement IdleStays s ∧
      .exited ⟨2, 6⟩ 7 ∈ s.log ∧
      applyHandler smallVolume smallPlacement (entered s (plainCall 3 3 200 4) proc)
        (plainCall 3 3 200 4) (proc.trapped (plainCall 3 3 200 4)) .read = .ok (called, 4) ∧
      .completed 2 ⟨1, 5⟩ 4 4 [7, 0, 0, 0] ∈ called.log) ∧
    (∃ s called passed, Reachable smallVolume smallPlacement IdleStays s ∧
      PassAfter smallVolume smallPlacement s (plainCall 1 7 0 0) called passed ∧
      .completed 2 ⟨1, 5⟩ 4 4 [7, 0, 0, 0] ∈ passed.log) ∧
    ∃ s, Reachable smallVolume smallPlacement IdleStays s ∧
      .completed 2 ⟨1, 5⟩ 4 4 [7, 0, 0, 0] ∈ s.log ∧
      ∃ code, [7, 0, 0, 0] = bytes32 code ∧ .exited ⟨2, 6⟩ code ∈ s.log := by
  refine ⟨?_, ?_, ?_⟩
  · obtain ⟨s, reachable, current, history, opened⟩ := smallRun_exists IdleStays
      (threadWait ++ [plainCall 158 0 0 0, plainCall 1 7 0 0])
      (fun s => s.currentProcess = 1 ∧
        s.log = [.exited ⟨2, 6⟩ 7, .entered ⟨2, 6⟩, .entered ⟨1, 5⟩] ++ .awaited ⟨1, 5⟩ 2 ::
          ([.entered ⟨1, 5⟩, .entered ⟨1, 5⟩, .entered ⟨2, 6⟩] ++
            .spawned ⟨1, 5⟩ ⟨2, 6⟩ false :: s.log.drop 8) ∧
        (s.processList 1).any fun proc => proc.serial = 5 ∧ proc.objects 3 = some (.device 2))
      (by decide +kernel)
    obtain ⟨proc, found, holds⟩ := (Option.any_eq_true _ _).mp opened
    obtain ⟨own, device⟩ := of_decide_eq_true holds
    have exited : .exited ⟨2, 6⟩ 7 ∈ s.log := by
      rw [history]
      exact List.mem_cons_self
    have read : StatusRead s (plainCall 3 3 200 4) ⟨1, 5⟩ proc :=
      ⟨current, found, own, rfl, rfl, congrArg Except.ok device⟩
    obtain ⟨-, returns, -⟩ := @wait_reports_exit smallVolume smallPlacement s ⟨1, 5⟩ ⟨2, 6⟩
      reachable (by decide)
    obtain ⟨called, done, -, log⟩ := returns 7 (plainCall 3 3 200 4) proc
      (threadWait_waits (by simp) ⟨_, history⟩) exited read
    refine ⟨s, proc, called, reachable, exited, done, ?_⟩
    rw [log]
    exact List.mem_cons_self
  · obtain ⟨s, reachable, ran⟩ := smallRun_exists IdleStays (threadWait ++ [plainCall 3 3 200 4])
      (fun s => (s.processList s.currentProcess).any fun proc =>
        (applyHandler smallVolume smallPlacement (entered s (plainCall 1 7 0 0) proc)
          (plainCall 1 7 0 0) (proc.trapped (plainCall 1 7 0 0)) .exit).toOption.any fun result =>
          result.1.log = [.exited ⟨2, 6⟩ 7, .entered ⟨2, 6⟩, .issued 2 ⟨1, 5⟩ 4, .entered ⟨1, 5⟩] ++
            .awaited ⟨1, 5⟩ 2 :: ([.entered ⟨1, 5⟩, .entered ⟨1, 5⟩, .entered ⟨2, 6⟩] ++
              .spawned ⟨1, 5⟩ ⟨2, 6⟩ false :: result.1.log.drop 9) ∧
          result.1.toTables.pendingAt 2 = [⟨⟨1, 5⟩, 200, 4⟩] ∧ Prompt result.1 2 ∧
          s.currentProcess ≠ 0 ∧
          (checkAll (plainCall 1 7 0 0).arrivals result.1).toOption.isSome)
      (by decide +kernel)
    obtain ⟨proc, found, ran⟩ := (Option.any_eq_true _ _).mp ran
    obtain ⟨⟨called, ret⟩, applied, holds⟩ := (Option.any_eq_true _ _).mp ran
    obtain ⟨history, pending, prompt, other, returns⟩ := of_decide_eq_true holds
    obtain ⟨passed, checked⟩ := Option.isSome_iff_exists.mp returns
    have pass : PassAfter smallVolume smallPlacement s (plainCall 1 7 0 0) called passed :=
      ⟨proc, .exit, ret, found, rfl, toOption_eq_some applied, fun _ => ⟨rfl, rfl⟩,
        toOption_eq_some checked⟩
    have exited : .exited ⟨2, 6⟩ 7 ∈ called.log := by
      rw [history]
      exact List.mem_cons_self
    have member : (⟨⟨1, 5⟩, 200, 4⟩ : PendingRead) ∈ called.toTables.pendingAt 2 := by
      rw [pending]
      exact List.mem_cons_self
    obtain ⟨-, -, serves⟩ := @wait_reports_exit smallVolume smallPlacement s ⟨1, 5⟩ ⟨2, 6⟩
      reachable (by decide)
    exact ⟨s, called, passed, reachable, pass, serves 7 (plainCall 1 7 0 0) called passed _
      (fun idle => absurd idle other) pass (threadWait_waits (by simp) ⟨_, history⟩) exited member
      rfl rfl prompt⟩
  · obtain ⟨s, reachable, history⟩ := smallRun_exists IdleStays
      (threadWait ++ [plainCall 3 3 200 4, plainCall 1 7 0 0])
      (fun s => s.log = [] ++ .completed 2 ⟨1, 5⟩ 4 4 [7, 0, 0, 0] ::
        ([.exited ⟨2, 6⟩ 7, .entered ⟨2, 6⟩, .issued 2 ⟨1, 5⟩ 4, .entered ⟨1, 5⟩] ++
          .awaited ⟨1, 5⟩ 2 :: ([.entered ⟨1, 5⟩, .entered ⟨1, 5⟩, .entered ⟨2, 6⟩] ++
            .spawned ⟨1, 5⟩ ⟨2, 6⟩ false :: s.log.drop 10))) (by decide +kernel)
    obtain ⟨delivers, -, -⟩ := @wait_reports_exit smallVolume smallPlacement s ⟨1, 5⟩ ⟨2, 6⟩
      reachable (by decide)
    obtain ⟨-, code, status, ended, -⟩ := delivers [] 4 [7, 0, 0, 0] _ history
      (threadWait_waits (by simp) ⟨_, rfl⟩)
    refine ⟨s, reachable, ?_, code, status, ?_⟩
    · rw [history]
      exact List.mem_cons_self
    · rw [history]
      exact List.mem_cons_of_mem _ ended

end SysImpl.Kernel
