import SysImpl.Kernel.Blocked
import SysImpl.Kernel.Forks

/-! A blocked read returns its own result.

The result of a read is stored in the registers of its process twice: by the check that
completes it, and at the end of the system call that issued it. The second store comes
last, so a read that blocks must not be completed by the pass of its own system call. -/

namespace SysImpl.Kernel

open Bytes Runs

/-- What the last read that a process completed since it entered the kernel returned. -/
def lastRead (p : ProcPtr) : List Event → Option Int
  | [] => none
  | .completed _ q _ ret _ :: rest => if q = p then some ret else lastRead p rest
  | .entered q :: rest => if q = p then none else lastRead p rest
  | _ :: rest => lastRead p rest

def Tss.retval (tss : Tss) : Nat × Nat := (tss.eax, tss.edx)

def retvalOf (ret : Int) : Nat × Nat := ((ret % 2 ^ 32).toNat, (ret / 2 ^ 32 % 2 ^ 32).toNat)

def Process.saved (proc : Process) : Nat × Nat := proc.usermodeState.retval

def Tables.savedAt (t : Tables) (p : ProcPtr) : Option (Nat × Nat) := t.viewAt Process.saved p

variable {t t' : Tables} {label : Label}

def Label.stores (p : ProcPtr) : Label → Prop
  | .regs pid => pid = p.pid
  | .serve _ q _ => q = p
  | .requeue _ q => q = p
  | .spawn _ q _ => q = p
  | _ => False

def Label.reads (p : ProcPtr) : Label → Prop
  | .enter q => q = p
  | .done _ q _ => q = p
  | .serve _ q _ => q = p
  | _ => False

theorem wake_tss (proc : Process) :
    proc.wake.serial = proc.serial ∧ proc.wake.usermodeState = proc.usermodeState := by
  simp only [Process.wake]
  split
  · exact ⟨rfl, rfl⟩
  · exact ⟨rfl, rfl⟩

def Tables.tssAt {α : Type} (t : Tables) (view : Tss → α) (p : ProcPtr) : Option α :=
  t.viewAt (fun proc => view proc.usermodeState) p

theorem wakeParent_tssAt {α : Type} (view : Tss → α) (ppid : Option Pid) (p : ProcPtr) :
    (t.wakeParent ppid).tssAt view p = t.tssAt view p := by
  cases ppid with
  | none => rfl
  | some parent =>
      apply viewAt_modify parent
      intro proc
      exact ⟨(wake_tss proc).1, congrArg view (wake_tss proc).2⟩

theorem Queues.unseen {α : Type} (queues : Queues t) (view : Process → α) {slot : Slot}
    {req : PendingRead} {p : ProcPtr} (member : req ∈ t.pendingAt slot) (differs : req.proc ≠ p)
    (same : p.pid = req.proc.pid) (f : Process → Process)
    (serial : ∀ proc, (f proc).serial = proc.serial) :
    (t.modify req.proc.pid f).viewAt view p = none := by
  apply Option.eq_none_iff_forall_ne_some.mpr
  intro value known
  obtain ⟨proc, here, owner, _⟩ := viewAt_eq_some.mp known
  obtain ⟨other, there, life⟩ := queues.queued slot req member
  simp only [Process.life, Prod.mk.injEq] at life
  rw [modify_processList, if_pos same, same, there, Option.map_some, Option.some.injEq] at here
  apply differs
  have serials : req.proc.serial = p.serial := by
    rw [← life.1, ← serial other, here, owner]
  cases first : req.proc
  cases second : p
  simp_all

theorem Act.tss_before {α : Type} {view : Tss → α} {p : ProcPtr} {regs : α} (queues : Queues t)
    (act : Act t label t') (aside : ¬ label.stores p) (known : t'.tssAt view p = some regs) :
    t.tssAt view p = some regs := by
  cases act with
  | regs pid f =>
      have differs : p.pid ≠ pid := Ne.symm aside
      rwa [Tables.tssAt, viewAt_modify_other differs] at known
  | enter => exact known
  | @attach pid proc pos obj =>
      rwa [Tables.tssAt, viewAt_modify pid (Process.bind pos (some obj))
        fun _ => ⟨rfl, rfl⟩] at known
  | @detach other proc pos awake =>
      rcases removeObject_processes t other pos with same | bound
      · rwa [Tables.tssAt, viewAt_congr (congrFun same p.pid)] at known
      · rwa [Tables.tssAt, viewAt_congr (congrFun bound p.pid),
          viewAt_modify other (Process.bind pos none) fun _ => ⟨rfl, rfl⟩] at known
  | await => exact known
  | signal => exact known
  | newSem => exact known
  | @fork pid proc child m awake free =>
      have still : (({ t with nextSerial := t.nextSerial + 1 } : Tables).modify pid
          (Process.keepStack m)).processList child = none := by
        rw [modify_processList]
        simp only [free, Option.map_none, ite_self]
      have differs : p ≠ ⟨child, t.nextSerial⟩ := Ne.symm aside
      have after := (viewAt_setProcess (fun proc => view proc.usermodeState)
        (childProcess proc pid t.nextSerial (proc.usermodeState.setRetval 0)) p still).trans
          (if_neg differs)
      rw [viewAt_modify pid (Process.keepStack m) fun _ => ⟨rfl, rfl⟩] at after
      exact after.symm.trans known
  | @thread pid proc child tss awake free =>
      have differs : p ≠ ⟨child, t.nextSerial⟩ := Ne.symm aside
      have after := (viewAt_setProcess (t := { t with nextSerial := t.nextSerial + 1 })
        (fun proc => view proc.usermodeState) (childProcess proc pid t.nextSerial tss) p free).trans (if_neg differs)
      exact after.symm.trans known
  | @kill pid proc code awake =>
      have before : ((t.setProcess pid none).note
          (.exited ⟨pid, proc.serial⟩ code)).tssAt view p = some regs := by
        rw [← wakeParent_tssAt view proc.ppid]
        exact known
      by_cases here : p.pid = pid
      · rw [Tables.tssAt, viewAt_empty (by simp [here])] at before
        cases before
      · rw [← before]
        exact (viewAt_congr (by simp [Function.update_of_ne here])).symm
  | @image pid proc awake =>
      rw [wakeParent_tssAt] at known
      exact known
  | done => exact known
  | @block pid =>
      rwa [Tables.tssAt, viewAt_modify pid (Process.setProcessState .sleeping)
        fun _ => ⟨rfl, rfl⟩] at known
  | @serve slot device now rest ret data input found queue spec =>
      by_cases here : p.pid = now.proc.pid
      · have member : now ∈ t.pendingAt slot := by simp [pendingAt_of_some found, queue]
        have absent := queues.unseen (fun proc => view proc.usermodeState) member aside here
          (Process.setRetval ret ∘ Process.setProcessState .runnable) fun _ => rfl
        rw [← modify_modify] at absent
        cases absent.symm.trans known
      · rw [Tables.tssAt, viewAt_modify_other here] at known
        refine Eq.trans ?_ known
        exact (viewAt_modify_other (t := t) here).symm
  | @requeue slot device now rest found queue kind =>
      by_cases here : p.pid = now.proc.pid
      · have member : now ∈ t.pendingAt slot := by simp [pendingAt_of_some found, queue]
        have absent := queues.unseen (fun proc => view proc.usermodeState) member aside here
          (Process.setRetval eagain ∘ Process.setProcessState .sleeping) fun _ => rfl
        rw [← modify_modify] at absent
        cases absent.symm.trans known
      · rw [Tables.tssAt, viewAt_modify_other here, viewAt_modify_other here] at known
        exact known

theorem Act.saved_before {p : ProcPtr} {regs : Nat × Nat} (queues : Queues t)
    (act : Act t label t') (aside : ¬ label.stores p) (known : t'.savedAt p = some regs) :
    t.savedAt p = some regs :=
  act.tss_before queues aside known

theorem Act.lastRead_same {p : ProcPtr} (act : Act t label t') (aside : ¬ label.reads p) :
    lastRead p t'.log = lastRead p t.log := by
  cases act with
  | @enter pid proc awake =>
      have differs : (⟨pid, proc.serial⟩ : ProcPtr) ≠ p := aside
      simp only [note_log, lastRead, if_neg differs]
  | @done pid proc slot device size ret data input awake found spec =>
      have differs : (⟨pid, proc.serial⟩ : ProcPtr) ≠ p := aside
      simp only [note_log, modifyDevice_log, lastRead, if_neg differs]
  | @serve slot device now rest ret data input found queue spec =>
      have differs : now.proc ≠ p := aside
      simp only [modify_log, note_log, modifyDevice_log, lastRead, if_neg differs]
  | detach => rw [removeObject_log]
  | kill => simp [wakeParent_log, lastRead]
  | image => simp [wakeParent_log, lastRead]
  | _ => rfl

/-- A waiting process has completed no read since it entered the kernel, and a process has
completed none before it was made. -/
structure Results (t : Tables) : Prop where
  waiting : ∀ slot, ∀ req ∈ t.pendingAt slot, lastRead req.proc t.log = none
  bornEarlier : ∀ p ret, lastRead p t.log = some ret → p.serial < t.nextSerial
  passed : ∀ p ret, lastRead p t.log = some ret → ret ≠ eagain

/-- The registers of a process hold what its last read returned. -/
def Saved (t : Tables) (p : ProcPtr) : Prop :=
  ∀ regs ret, t.savedAt p = some regs → lastRead p t.log = some ret → regs = retvalOf ret

theorem Results.act (results : Results t) (queues : Queues t) (act : Act t label t')
    (fresh : ∀ slot p, label = .block slot p → lastRead p t.log = none) : Results t' := by
  have later : ∀ p ret, lastRead p t.log = some ret → p.serial < t'.nextSerial := by
    intro p ret last
    exact Nat.lt_of_lt_of_le (results.bornEarlier p ret last) act.nextSerial_le
  have alive : ∀ pid proc, t.processList pid = some proc → proc.serial < t'.nextSerial := by
    intro pid proc found
    exact Nat.lt_of_lt_of_le (queues.serials pid proc found) act.nextSerial_le
  constructor
  · intro slot req member
    by_cases aside : label.reads req.proc
    · cases act with
      | @enter pid proc awake =>
          have same : (⟨pid, proc.serial⟩ : ProcPtr) = req.proc := aside
          simp only [note_log, lastRead, if_pos same]
      | @done pid proc other device size ret data input awake found spec =>
          have same : (⟨pid, proc.serial⟩ : ProcPtr) = req.proc := aside
          rcases (Act.done awake found spec).pending_mem member with old | blocks
          · exact absurd (by rw [← same]) (queues.awake_not_queued awake slot req old)
          · cases blocks
      | @serve other device now rest ret data input found queue spec =>
          -- The served process has left its queue and is in no other.
          have same : now.proc = req.proc := aside
          obtain ⟨proc, there, life⟩ := (queues.act (Act.serve found queue spec)).queued slot req
            member
          simp only [modify_processList, same, if_true, note_processList, modifyDevice_processList,
            Option.map_map, Option.map_eq_some_iff] at there
          obtain ⟨before, _, woken⟩ := there
          rw [← woken] at life
          cases congrArg (fun life => life.2.1) life
      | _ => exact aside.elim
    · rw [act.lastRead_same aside]
      rcases act.pending_mem member with old | blocks
      · exact results.waiting slot req old
      · exact fresh slot req.proc blocks
  · intro p ret last
    by_cases aside : label.reads p
    · cases act with
      | @enter pid proc awake =>
          have same : (⟨pid, proc.serial⟩ : ProcPtr) = p := aside
          simp only [note_log, lastRead, if_pos same] at last
          cases last
      | @done pid proc other device size ret data input awake found spec =>
          rw [← show (⟨pid, proc.serial⟩ : ProcPtr) = p from aside]
          exact alive pid proc awake.1
      | @serve other device now rest ret data input found queue spec =>
          obtain ⟨proc, here, life⟩ := queues.queued other now
            (by simp [pendingAt_of_some found, queue])
          simp only [Process.life, Prod.mk.injEq] at life
          rw [← show now.proc = p from aside, ← life.1]
          exact alive _ proc here
      | _ => exact aside.elim
    · rw [act.lastRead_same aside] at last
      exact later p ret last
  · intro p ret last
    by_cases aside : label.reads p
    · cases act with
      | @enter pid proc awake =>
          have same : (⟨pid, proc.serial⟩ : ProcPtr) = p := aside
          simp only [note_log, lastRead, if_pos same] at last
          cases last
      | @done pid proc other device size out data input awake found spec =>
          have same : (⟨pid, proc.serial⟩ : ProcPtr) = p := aside
          simp only [note_log, lastRead, if_pos same, Option.some.injEq] at last
          rw [← last]
          exact spec.not_eagain
      | @serve other device now rest out data input found queue spec =>
          have same : now.proc = p := aside
          simp only [modify_log, note_log, lastRead, if_pos same, Option.some.injEq] at last
          rw [← last]
          exact spec.not_eagain
      | _ => exact aside.elim
    · rw [act.lastRead_same aside] at last
      exact results.passed p ret last

theorem Saved.act {p q : ProcPtr} {rights : Rights} {ret : Int} (queues : Queues t)
    (results : Results t) (mine : ∀ proc, t.processList p.pid = some proc → proc.serial = p.serial)
    (saved : Saved t q) (differs : q ≠ p) (kind : StepLabel p rights ret label)
    (act : Act t label t') : Saved t' q := by
  intro regs last known read
  by_cases stored : label.stores q
  · cases act with
    | regs pid f =>
        have here : pid = q.pid := stored
        have there := kind.of_regs
        obtain ⟨proc, found, serial, _⟩ := viewAt_eq_some.mp known
        rw [modify_processList, if_pos here.symm] at found
        obtain ⟨before, located, rfl⟩ := Option.map_eq_some_iff.mp found
        have owner := mine before (by rw [← there, here]; exact located)
        apply absurd _ differs
        have pids : q.pid = p.pid := here.symm.trans there
        have serials : q.serial = p.serial := serial.symm.trans owner
        cases p
        cases q
        simp_all
    | @fork pid proc child m awake free =>
        have same : (⟨child, t.nextSerial⟩ : ProcPtr) = q := stored
        have earlier := results.bornEarlier q last read
        rw [← same] at earlier
        exact absurd earlier (Nat.lt_irrefl _)
    | @thread pid proc child tss awake free =>
        have same : (⟨child, t.nextSerial⟩ : ProcPtr) = q := stored
        have earlier := results.bornEarlier q last read
        rw [← same] at earlier
        exact absurd earlier (Nat.lt_irrefl _)
    | @serve slot device now rest out data input found queue spec =>
        have same : now.proc = q := stored
        simp only [modify_log, note_log, modifyDevice_log, lastRead, if_pos same,
          Option.some.injEq] at read
        obtain ⟨proc, here, _, value⟩ := viewAt_eq_some.mp known
        simp only [modify_processList, same, if_true, Option.map_eq_some_iff] at here
        obtain ⟨before, _, rfl⟩ := here
        rw [← value, ← read]
        rfl
    | @requeue slot device now rest found queue semaphore =>
        have same : now.proc = q := stored
        have none := results.waiting slot now (by simp [pendingAt_of_some found, queue])
        rw [same] at none
        have unread : lastRead q t.log = some last := read
        rw [none] at unread
        cases unread
    | _ => exact stored.elim
  · have before := act.saved_before queues stored known
    have aside : ¬ label.reads q := by
      intro reads
      cases label with
      | enter r =>
          have same : r = q := reads
          exact differs (same.symm.trans kind.of_enter)
      | done slot r out =>
          have same : r = q := reads
          exact differs (same.symm.trans kind.of_done.1)
      | serve slot r out => exact stored reads
      | _ => exact reads.elim
    rw [act.lastRead_same aside] at read
    exact saved regs last before read

def Mine (t : Tables) (p : ProcPtr) : Prop :=
  ∀ proc, t.processList p.pid = some proc → proc.serial = p.serial

theorem Mine.act {p : ProcPtr} {rights : Rights} {ret : Int} (mine : Mine t p) (queues : Queues t)
    (kind : StepLabel p rights ret label) (act : Act t label t') : Mine t' p := by
  intro proc found
  have alive : (t'.find ⟨p.pid, proc.serial⟩).isSome :=
    Option.isSome_iff_exists.mpr ⟨proc, find_eq_some.mpr ⟨found, rfl⟩⟩
  rcases act.alive_before queues alive with before | ⟨parent, keep, spawned⟩
  · obtain ⟨old, known⟩ := Option.isSome_iff_exists.mp before
    obtain ⟨here, serial⟩ := find_eq_some.mp known
    rw [← mine old here, serial]
  · rw [spawned] at kind act
    obtain ⟨caller, here, free⟩ := act.of_spawn
    rw [kind.of_spawn.1] at here
    cases here.symm.trans free

structure During (t : Tables) (p : ProcPtr) : Prop where
  queues : Queues t
  results : Results t
  mine : Mine t p
  saved : ∀ q, q ≠ p → Saved t q

theorem During.act {p : ProcPtr} {rights : Rights} {ret : Int} (during : During t p)
    (kind : StepLabel p rights ret label) (act : Act t label t')
    (fresh : ∀ slot, label = .block slot p → lastRead p t.log = none) : During t' p where
  queues := during.queues.act act
  results := by
    apply during.results.act during.queues act
    intro slot q blocks
    rw [blocks] at kind
    have self := kind.of_block.1
    rw [self] at blocks ⊢
    exact fresh slot blocks
  mine := during.mine.act during.queues kind act
  saved := by
    intro q differs
    exact (during.saved q differs).act during.queues during.results during.mine differs kind act

def Harmless (s : State) (irqs : List Irq) : Input → Prop
  | .serialIo => ∀ irq ∈ irqs, irq.endsLine .serialIo = false
  | .vgaText => ∀ irq ∈ irqs, irq.endsLine .vgaText = false
  | .sleepDevice => s.hw.pitTicks + irqs.count .tick < s.processSleepUntil s.currentProcess
  | _ => True

/-- When the read of a system call blocks, nothing that arrives up to the check of its
device in the same call makes the device ready. -/
def NoLateInput (s : State) (trap : Trap) : Prop :=
  callsysOf trap.regs.eax = some .read → ∀ proc, s.processList s.currentProcess = some proc →
    ∀ (fd : Fd) (slot : Slot) (device : Device) (called : State), fd.val = trap.regs.ebx →
      proc.objects fd = some (.device slot) → s.devices slot = some device →
        readDevice (entered s trap proc) slot trap.regs.ecx trap.regs.edx = .ok (called, eagain) →
          Harmless called (trap.arrivals.upTo slot (List.finRange 64)) device.input

theorem readDevice_blocked {s called : State} {slot : Slot} {device : Device} {proc : Process}
    {buffer size : Nat} {irqs : List Irq} (current : s.processList s.currentProcess = some proc)
    (found : s.devices slot = some device)
    (read : readDevice s slot buffer size = .ok (called, eagain))
    (harmless : Harmless called irqs device.input) :
    Blocked called.lull s.currentProcess irqs device.input ∧
      ∃ after, called.devices slot = some after ∧ after.input = device.input ∧
        ∃ req ∈ after.pendingRequest, req.proc = ⟨s.currentProcess, proc.serial⟩ := by
  have here : (s.note (.issued device.serial ⟨s.currentProcess, proc.serial⟩ size)).devices
      slot = some device := found
  obtain ⟨same, spec⟩ := inputRead_spec here buffer size
  simp only [readDevice, current, found, doRead, here] at read
  rcases spec with ⟨blocked, tables, spec⟩ | ⟨passed, input, tables, spec⟩
  · rw [if_pos blocked] at read
    split at read
    · simp only [Except.ok.injEq, Prod.mk.injEq] at read
      have inputs : SameInputs (inputRead (s.note (.issued device.serial
          ⟨s.currentProcess, proc.serial⟩ size)) slot device.input buffer size).1 called := by
        rw [← read.1]
        exact ⟨rfl, rfl, rfl, rfl, rfl⟩
      have who : called.currentProcess = s.currentProcess := by
        rw [← read.1]
        exact same
      refine ⟨?_, ?_⟩
      · obtain ⟨com1, con, hw, reqs, wake⟩ := inputs
        cases kind : device.input with
        | serialIo =>
            rw [kind] at blocked com1 hw harmless
            obtain ⟨going, empty, drained⟩ := readLine_blocked blocked
            refine ⟨?_, ?_, ⟨?_, by intro batch member; cases member⟩, harmless⟩
            · exact (congrArg LineBuffer.eof com1).trans going
            · exact (congrArg LineBuffer.committed com1).trans empty
            · intro ch member
              have queue : called.lull.hw.queue .serialIo = [] :=
                (congrArg Hardware.uart hw).trans drained
              rw [queue] at member
              cases member
        | vgaText =>
            rw [kind] at blocked con hw harmless
            obtain ⟨going, empty, drained⟩ := readLine_blocked blocked
            refine ⟨?_, ?_, ⟨?_, by intro batch member; cases member⟩, harmless⟩
            · exact (congrArg LineBuffer.eof con).trans going
            · exact (congrArg LineBuffer.committed con).trans empty
            · intro ch member
              have queue : called.lull.hw.queue .vgaText = [] :=
                (congrArg Hardware.kbd hw).trans drained
              rw [queue] at member
              cases member
        | processWait =>
            rw [kind] at blocked
            have unchanged : called.lull.reqs = s.reqs := by
              rw [show called.lull.reqs = called.reqs from rfl, reqs, inputRead_reqs]
              rfl
            simp only [Blocked, unchanged]
            intro none
            simp only [inputRead, readProcessWait] at blocked
            have idle : ¬ (s.reqs s.currentProcess).pid ≠ 0 := not_not.mpr none
            change (if (s.reqs s.currentProcess).pid ≠ 0 then _ else _ : State × Int).2 = eagain
              at blocked
            rw [if_neg idle] at blocked
            split at blocked
            · exact four_ne_eagain blocked
            · exact einval_ne_eagain blocked
        | sleepDevice =>
            rw [kind] at harmless
            simp only [Harmless, who] at harmless
            exact harmless
        | semaphore cnt =>
            rw [kind] at spec
            exact spec
      · rw [← read.1]
        refine ⟨device.setPending (device.pendingRequest ++
          [⟨⟨s.currentProcess, proc.serial⟩, buffer, size⟩]), ?_, rfl, _,
            List.mem_append_right _ List.mem_cons_self, rfl⟩
        simp only [modify_devices, modifyDevice_devices, if_true, tables, here, Option.map_some]
        rfl
    · cases read
  · rw [if_neg passed] at read
    simp only [Except.ok.injEq, Prod.mk.injEq] at read
    exact absurd read.2 passed

/-- The caller has completed at most the read it returns from. -/
def OwnRead (t : Tables) (p : ProcPtr) (ret : Int) : Prop :=
  lastRead p t.log = none ∨ lastRead p t.log = some ret ∧ ret ≠ eagain

theorem OwnRead.act {p : ProcPtr} {rights : Rights} {ret : Int} (own : OwnRead t p ret)
    (kind : CallLabel p rights ret label) (act : Act t label t') : OwnRead t' p ret := by
  by_cases reads : label.reads p
  · cases act with
    | @done pid proc slot device size out data input awake found spec =>
        have same : (⟨pid, proc.serial⟩ : ProcPtr) = p := reads
        have value : out = ret := kind.2.2
        refine Or.inr ⟨?_, by rw [← value]; exact spec.not_eagain⟩
        simp only [note_log, lastRead, if_pos same, value]
    | enter => exact kind.elim
    | serve => exact kind.elim
    | _ => exact reads.elim
  · rw [OwnRead, act.lastRead_same reads]
    exact own

def NotQueued (t : Tables) (p : ProcPtr) : Prop := ∀ slot, ∀ req ∈ t.pendingAt slot, req.proc ≠ p

theorem NotQueued.act {p : ProcPtr} (away : NotQueued t p) (act : Act t label t')
    (aside : ∀ slot, label ≠ .block slot p) : NotQueued t' p := by
  intro slot req member same
  rcases act.pending_mem member with old | blocks
  · exact away slot req old same
  · rw [same] at blocks
    exact aside slot blocks

theorem pass_not_queued {p : ProcPtr} (away : NotQueued t p) (run : RunOf Act PassLabel t t') :
    lastRead p t'.log = lastRead p t.log := by
  have along := run.invariant (fun mid => NotQueued mid p ∧
    lastRead p mid.log = lastRead p t.log) ⟨away, rfl⟩ (by
    intro mid label next ⟨_, kind⟩ ⟨away, same⟩ act
    refine ⟨away.act act ?_, ?_⟩
    · intro slot blocks
      rw [blocks] at kind
      exact kind
    · rw [act.lastRead_same, same]
      intro reads
      cases act with
      | @serve slot device now rest ret data input found queue spec =>
          exact away slot now (by simp [pendingAt_of_some found, queue]) reads
      | requeue => exact reads
      | _ => exact kind)
  exact along.2

theorem During.pass {p : ProcPtr} (during : During t p) (run : RunOf Act PassLabel t t') :
    During t' p := by
  apply run.invariant (fun t => During t p) during
  intro mid label next kind during act
  have wider : StepLabel p ⟨True, True, True, True, True⟩ 0 label := Or.inr (Or.inr kind)
  apply during.act wider act
  intro slot blocks
  obtain ⟨_, kind⟩ := kind
  rw [blocks] at kind
  exact kind.elim

theorem During.finish {p : ProcPtr} {ret : Int} (during : During t p)
    (own : ∀ last, lastRead p t.log = some last → last = ret) :
    Results (t.modify p.pid (Process.setRetval ret)) ∧
      ∀ q, Saved (t.modify p.pid (Process.setRetval ret)) q := by
  have store := Act.regs t p.pid (Tss.setRetval ret)
  have kind : StepLabel p ⟨True, True, True, True, True⟩ ret (.regs p.pid) := Or.inl rfl
  have after := during.act kind store (by intro slot blocks; cases blocks)
  refine ⟨after.results, ?_⟩
  intro q
  by_cases same : q = p
  · intro regs last known read
    rw [same] at known read
    obtain ⟨proc, found, _, value⟩ := viewAt_eq_some.mp known
    rw [modify_processList, if_pos rfl] at found
    obtain ⟨before, _, rfl⟩ := Option.map_eq_some_iff.mp found
    rw [← value, own last read]
    rfl
  · exact after.saved q same

theorem entered_unread (s : State) (trap : Trap) (proc : Process) :
    lastRead ⟨s.currentProcess, proc.serial⟩ (entered s trap proc).log = none := by
  rw [entered, State.note_tables, note_log]
  exact if_pos rfl

theorem During.enter {s : State} {proc : Process} (trap : Trap)
    (awake : s.toTables.Awake s.currentProcess proc)
    (during : During s.toTables ⟨s.currentProcess, proc.serial⟩) :
    During (entered s trap proc).toTables ⟨s.currentProcess, proc.serial⟩ := by
  apply (entered_acts trap awake).invariant
    (fun t => During t ⟨s.currentProcess, proc.serial⟩) during
  intro mid label next kind during act
  have wider : StepLabel ⟨s.currentProcess, proc.serial⟩ ⟨True, True, True, True, True⟩ 0 label :=
    Or.inl kind
  apply during.act wider act
  intro slot blocks
  rw [blocks] at kind
  exact kind.elim

theorem During.handler {p : ProcPtr} {rights : Rights} {ret : Int} (during : During t p)
    (unread : lastRead p t.log = none) (run : RunOf Act (CallLabel p rights ret) t t') :
    During t' p ∧ OwnRead t' p ret := by
  apply run.invariant (fun t => During t p ∧ OwnRead t p ret) ⟨during, Or.inl unread⟩
  intro mid label next kind ⟨during, own⟩ act
  refine ⟨during.act (Or.inr (Or.inl kind)) act ?_, own.act kind act⟩
  intro slot blocks
  rw [blocks] at kind
  rcases own with none | ⟨_, passed⟩
  · exact none
  · exact absurd kind.2.2 passed

theorem read_stays_pending {fs : FileSystem} {place : Placement} {s called passed : State}
    {trap : Trap} {proc : Process} (awake : s.toTables.Awake s.currentProcess proc)
    (allowed : NoLateInput s trap) (call : callsysOf trap.regs.eax = some .read)
    (applied : applyHandler fs place (entered s trap proc) trap (proc.trapped trap) .read =
      .ok (called, eagain)) (checked : checkAll trap.arrivals called = .ok passed) :
    ∃ slot, ∃ req ∈ passed.toTables.pendingAt slot,
      req.proc = ⟨s.currentProcess, proc.serial⟩ := by
  have ready := entered_awake trap awake
  simp only [applyHandler, readHandler] at applied
  split at applied
  · cases applied
  · simp [eagain] at applied
  · next slot got =>
      obtain ⟨inside, held⟩ := getObject_ok got
      cases found : s.devices slot with
      | none =>
          have gone : (entered s trap proc).devices slot = none := found
          have current : (entered s trap proc).processList (entered s trap proc).currentProcess =
              some (proc.trapped trap) := ready.1
          simp [readDevice, current, gone] at applied
      | some device =>
          have harmless := allowed call proc awake.1 ⟨trap.regs.ebx, inside⟩ slot device called rfl
            held found applied
          obtain ⟨blocked, after, there, input, waits⟩ :=
            readDevice_blocked ready.1 found applied harmless
          rw [← input] at blocked
          rw [← pendingAt_of_some there] at waits
          have still := checkSlots_waits (p := ⟨s.currentProcess, proc.serial⟩)
            (List.nodup_finRange 64) there blocked waits checked
          exact ⟨slot, still⟩
  · simp only [Except.ok.injEq, readFile] at applied
    split at applied
    · simp [eagain] at applied
    · simp only [Prod.mk.injEq] at applied
      exact absurd applied.2 (by simp [eagain])
  · simp [eagain] at applied

/-- A step of a call with no late input keeps every result in its place. -/
theorem step_returns {fs : FileSystem} {place : Placement} {s s' : State} {trap : Trap} (inv : Inv s)
    (results : Results s.toTables) (saved : ∀ q, Saved s.toTables q)
    (allowed : NoLateInput s trap) (ran : realSyscallHandler fs place s trap = .ok s') :
    Results s'.toTables ∧ ∀ q, Saved s'.toTables q := by
  obtain ⟨proc, awake, _, outcome⟩ := step_cases inv ran
  have start : During s.toTables ⟨s.currentProcess, proc.serial⟩ := by
    refine ⟨inv.queues, results, ?_, fun q _ => saved q⟩
    intro other found
    rw [awake.1, Option.some.injEq] at found
    rw [← found]
  have enter := start.enter trap awake
  have unread := entered_unread s trap proc
  rcases outcome with ⟨_, same⟩ | ⟨callsys, called, ret, passed, known, applied, checked, stored⟩
  · rw [same]
    refine ⟨enter.results, ?_⟩
    intro q
    by_cases self : q = ⟨s.currentProcess, proc.serial⟩
    · intro regs last _ read
      rw [self, unread] at read
      cases read
    · exact enter.saved q self
  · have handler := handler_acts inv awake known applied
    obtain ⟨middle, own⟩ := enter.handler unread handler
    have pass := (checkAll_acts checked).1
    have final := middle.pass pass
    rw [stored]
    apply final.finish
    intro last read
    by_cases blocks : callsys = .read ∧ ret = eagain
    · obtain ⟨rfl, rfl⟩ := blocks
      obtain ⟨slot, req, member, owner⟩ := read_stays_pending awake allowed known applied checked
      have none := final.results.waiting slot req member
      rw [owner, read] at none
      cases none
    · have away : NotQueued called.toTables ⟨s.currentProcess, proc.serial⟩ := by
        apply handler.invariant (fun t => NotQueued t ⟨s.currentProcess, proc.serial⟩)
        · intro slot req member same
          exact enter.queues.awake_not_queued (entered_awake trap awake) slot req member
            (congrArg ProcPtr.pid same)
        · intro mid label next kind away act
          apply away.act act
          intro slot same
          rw [same] at kind
          have reads : callsysOf trap.regs.eax = some .read := kind.2.1
          rw [known, Option.some.injEq] at reads
          exact blocks ⟨reads, kind.2.2⟩
      rw [pass_not_queued away pass] at read
      rcases own with none | ⟨value, _⟩
      · rw [none] at read
        cases read
      · rw [value, Option.some.injEq] at read
        exact read.symm

def Loaded (s : State) : Prop :=
  ∀ proc, s.processList s.currentProcess = some proc → s.userTss = proc.usermodeState

theorem Loaded.boot {fs : FileSystem} {place : Placement} {boot : BootInfo} {s : State}
    (started : enterInit fs place boot = .ok s) : Loaded s := by
  simp only [enterInit] at started
  split at started
  · cases started
  · next loaded ret executed =>
      split at started
      · intro proc found
        rw [← Except.ok.inj started] at found ⊢
        simp only [leaveKernelMode] at found ⊢
        split at found
        · next empty => cases empty.symm.trans found
        · next other known =>
            rw [show other = proc from Option.some.inj (known.symm.trans found)]
      · cases started

theorem lastRead_boot {fs : FileSystem} {place : Placement} {boot : BootInfo} {s : State}
    (started : enterInit fs place boot = .ok s) :
    Results s.toTables ∧ ∀ p, lastRead p s.log = none := by
  obtain ⟨t, acts, tables, _⟩ := enterInit_acts started
  have along := acts.invariant (fun t => ∀ p, lastRead p t.log = none) (fun _ => rfl) (by
    intro mid label next kind unread act p
    rw [act.lastRead_same, unread]
    intro reads
    cases label with
    | enter q => exact kind
    | done slot q out => exact kind.2.1
    | serve slot q out => exact kind
    | _ => exact reads)
  have unread : ∀ p, lastRead p s.log = none := by
    rw [tables]
    exact along
  refine ⟨⟨?_, ?_, ?_⟩, unread⟩
  · intro slot req _
    exact unread req.proc
  · intro p ret last
    rw [unread] at last
    cases last
  · intro p ret last
    rw [unread] at last
    cases last

/-- In every run without late input, the registers of every process hold what the last read
it completed since it entered the kernel returned, and these are what user mode sees. -/
theorem reads_return_their_results {fs : FileSystem} {place : Placement} {s : State}
    (reachable : Reachable fs place NoLateInput s) :
    (∀ p proc ret, s.toTables.find p = some proc → lastRead p s.log = some ret →
      proc.usermodeState.eax = (ret % 2 ^ 32).toNat ∧
        proc.usermodeState.edx = (ret / 2 ^ 32 % 2 ^ 32).toNat ∧ ret ≠ eagain) ∧
    ∀ proc, s.processList s.currentProcess = some proc → s.userTss = proc.usermodeState := by
  obtain ⟨_, results, saved, loaded⟩ := reachable.induct
    (fun s => Results s.toTables ∧ (∀ p, Saved s.toTables p) ∧ Loaded s)
    (by
      intro boot first started
      obtain ⟨results, unread⟩ := lastRead_boot started
      refine ⟨results, ?_, Loaded.boot started⟩
      intro p regs ret _ last
      rw [unread] at last
      cases last)
    (by
      intro mid trap next inv ⟨results, saved, _⟩ allowed ran
      obtain ⟨after, kept⟩ := step_returns inv results saved allowed ran
      obtain ⟨_, _, ⟨running, awake, same⟩, _⟩ := step_cases inv ran
      refine ⟨after, kept, ?_⟩
      intro proc found
      rw [awake.1, Option.some.injEq] at found
      rw [same, found])
  refine ⟨?_, loaded⟩
  intro p proc ret found last
  have known : s.toTables.savedAt p = some proc.saved := by
    rw [Tables.savedAt, Tables.viewAt, found, Option.map_some]
  have value := saved p _ ret known last
  exact ⟨congrArg Prod.fst value, congrArg Prod.snd value, results.passed p ret last⟩

def PlainReads (s : State) (trap : Trap) : Prop :=
  callsysOf trap.regs.eax = some .read → trap.regs.ebx = 0 ∧
    s.toTables.objectAt s.currentProcess 0 = some (.device 1) ∧
    (s.devices 1).map Device.input = some .vgaText ∧
    trap.arrivals.upTo 1 (List.finRange 64) = []

instance (s : State) (trap : Trap) : Decidable (PlainReads s trap) :=
  inferInstanceAs (Decidable (_ → _))

theorem PlainReads.noLateInput {s : State} {trap : Trap} (plain : PlainReads s trap) :
    NoLateInput s trap := by
  intro call proc current fd slot device called which held found _
  obtain ⟨zero, console, kind, silent⟩ := plain call
  have first : fd = 0 := Fin.ext (which.trans zero)
  rw [first] at held
  simp only [Tables.objectAt, current, Option.bind_some, held, Option.some.injEq,
    Object.device.injEq] at console
  rw [console] at found ⊢
  rw [found, Option.map_some, Option.some.injEq] at kind
  rw [kind, silent]
  intro irq member
  cases member

/-- A process reads a character of the line that was typed before it called. -/
theorem reads_return_their_results_typed :
    ∃ s, Reachable smallVolume smallPlacement NoLateInput s ∧
      ∃ proc, s.toTables.find ⟨1, 5⟩ = some proc ∧ proc.usermodeState.eax = 1 := by
  obtain ⟨s, reached, alive, last⟩ := smallRun_exists PlainReads
    [plainCall 2 0 0 0, { plainCall 3 0 100 1 with user := [.key 97, .key 10] }]
    (fun s => (s.toTables.find ⟨1, 5⟩).isSome ∧ lastRead ⟨1, 5⟩ s.log = some 1)
    (by decide +kernel)
  have reachable : Reachable smallVolume smallPlacement NoLateInput s :=
    reached.mono fun _ _ plain => plain.noLateInput
  obtain ⟨proc, found⟩ := Option.isSome_iff_exists.mp alive
  exact ⟨s, reachable, proc, found,
    ((reads_return_their_results reachable).1 _ proc 1 found last).1⟩

/-- A read of the console that blocks and is completed by a key right before the check of
the console in the same call takes the line and returns `EAGAIN`. -/
theorem completed_read_returns_eagain :
    ¬ ∀ fs place s, Reachable fs place HltProgram s →
      ∀ p proc ret, s.toTables.find p = some proc → lastRead p s.log = some ret →
        proc.usermodeState.eax = (ret % 2 ^ 32).toNat ∧
          proc.usermodeState.edx = (ret / 2 ^ 32 % 2 ^ 32).toNat := by
  intro claim
  obtain ⟨s, reachable, last, value⟩ := smallRun_exists HltProgram
    [plainCall 2 0 0 0, { plainCall 3 0 100 1 with
      arrivals := ⟨[], fun slot => if slot = 1 then [.key 10] else [], fun _ => [], []⟩ }]
    (fun s => lastRead ⟨1, 5⟩ s.log = some 1 ∧
      (s.toTables.find ⟨1, 5⟩).map (fun proc => proc.usermodeState.eax) =
        some (eagain % 2 ^ 32).toNat) (by decide +kernel)
  obtain ⟨proc, found, same⟩ := Option.map_eq_some_iff.mp value
  have right := (claim _ _ s reachable _ proc 1 found last).1
  rw [right] at same
  cases same

end SysImpl.Kernel
