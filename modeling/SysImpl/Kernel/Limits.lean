import SysImpl.Kernel.Contexts

/-! Full tables, and indices that a user program supplies.

The tables of the kernel are arrays of a fixed length. A call that finds its table full
should say so to its caller, and an index from a register should be compared with the
length of the array it selects from. -/

namespace SysImpl.Kernel

open Bytes Runs

variable {fs : FileSystem} {place : Placement} {t t' : Tables} {label : Label}

def Tables.processesFull (t : Tables) : Prop := ∀ pid, (t.processList pid).isSome

def Tables.devicesFull (t : Tables) : Prop := ∀ slot, (t.devices slot).isSome

def Process.objectsFull (proc : Process) : Prop :=
  ∀ pos : Fd, 3 ≤ pos.val → (proc.objects pos).isSome

def Callsys.allocates : Callsys → Bool
  | .fork => true
  | .thread => true
  | .openFile => true
  | .semCreate => true
  | _ => false

/-- A table the call takes a place in is full. -/
def Exhausted (t : Tables) (proc : Process) : Callsys → Prop
  | .fork => t.processesFull
  | .thread => t.processesFull
  | .openFile => proc.objectsFull
  | .semCreate => t.devicesFull ∨ proc.objectsFull
  | _ => False

def Process.holding (proc : Process) : Nat × (Fd → Option Object) := (proc.serial, proc.objects)

structure SameTables (t t' : Tables) : Prop where
  processes : ∀ pid, (t'.processList pid).map Process.holding =
    (t.processList pid).map Process.holding
  devices : ∀ slot, (t'.devices slot).map Device.serial = (t.devices slot).map Device.serial

/-- A call fails with a negative return value and changes no table, and so does the whole
system call when it returns to user mode. -/
structure Graceful (fs : FileSystem) (place : Placement) (s : State) (trap : Trap)
    (proc : Process) (callsys : Callsys) : Prop where
  handler : ∃ called ret, applyHandler fs place (entered s trap proc) trap (proc.trapped trap)
    callsys = .ok (called, ret) ∧ ret < 0 ∧ SameTables s.toTables called.toTables
  whole : ∀ s', realSyscallHandler fs place s trap = .ok s' →
    (∃ caller, s'.toTables.find ⟨s.currentProcess, proc.serial⟩ = some caller ∧
      toInt32 caller.usermodeState.eax < 0) ∧ SameTables s.toTables s'.toTables

/-- A path that is neither registered nor that of a file. -/
def NamesNothing (fs : FileSystem) (path : List UInt8) : Prop :=
  specialPath path = none ∧ fs.openFile path = none

theorem SameTables.refl (t : Tables) : SameTables t t := ⟨fun _ => rfl, fun _ => rfl⟩

theorem SameTables.note (same : SameTables t t') (event : Event) : SameTables t (t'.note event) :=
  ⟨same.processes, same.devices⟩

theorem SameTables.modify (same : SameTables t t') (pid : Pid) {f : Process → Process}
    (holds : ∀ proc, (f proc).holding = proc.holding) : SameTables t (t'.modify pid f) := by
  refine ⟨?_, same.devices⟩
  intro other
  rw [← same.processes other, modify_processList]
  split
  · rw [Option.map_map]
    congr 1
    funext proc
    exact holds proc
  · rfl

theorem SameTables.modifyDevice (same : SameTables t t') (slot : Slot) {f : Device → Device}
    (serial : ∀ device, (f device).serial = device.serial) :
    SameTables t (t'.modifyDevice slot f) := by
  refine ⟨same.processes, ?_⟩
  intro other
  rw [← same.devices other, modifyDevice_devices]
  split
  · rw [Option.map_map]
    congr 1
    funext device
    exact serial device
  · rfl

theorem SameTables.of_entered (s : State) (trap : Trap) (proc : Process) :
    SameTables s.toTables (entered s trap proc).toTables := by
  apply SameTables.note
  apply SameTables.modify (SameTables.refl s.toTables)
  intro caller
  rfl

theorem SameTables.full (same : SameTables t t') (full : t.processesFull) : t'.processesFull := by
  intro pid
  rw [← Option.isSome_map (f := Process.holding), same.processes, Option.isSome_map]
  exact full pid

theorem SameTables.pass {start : Tables} (same : SameTables start t) (act : Act t label t')
    (kind : PassLabel label) : SameTables start t' := by
  obtain ⟨slot, kind⟩ := kind
  cases act with
  | serve =>
      refine SameTables.modify ?_ _ fun _ => rfl
      apply SameTables.note
      refine SameTables.modifyDevice ?_ _ fun _ => rfl
      exact same.modify _ fun _ => rfl
  | requeue =>
      refine SameTables.modify ?_ _ fun _ => rfl
      refine SameTables.modify ?_ _ fun _ => rfl
      exact same.modifyDevice _ fun _ => rfl
  | _ => exact kind.elim

theorem SameTables.pass_run (same : SameTables t t') {after : Tables}
    (run : RunOf Act PassLabel t' after) : SameTables t after := by
  apply run.invariant (fun mid => SameTables t mid) same
  intro mid label next kind kept act
  exact kept.pass act kind

theorem freeSlot_eq_none : t.freeSlot = none ↔ t.processesFull := by
  simp [Tables.freeSlot, Tables.processesFull, List.find?_eq_none, List.mem_finRange,
    Option.isSome_iff_ne_none]

theorem freeDevice_eq_none : t.freeDevice = none ↔ t.devicesFull := by
  simp [Tables.freeDevice, Tables.devicesFull, List.find?_eq_none, List.mem_finRange,
    Option.isSome_iff_ne_none]

theorem addObject_eq_none {pid : Pid} {proc : Process} {obj : Object}
    (found : t.processList pid = some proc) (normal : obj.begin = 3) :
    t.addObject pid obj = none ↔ proc.objectsFull := by
  simp [Tables.addObject, found, Process.freePosition, normal, Process.objectsFull,
    List.find?_eq_none, List.mem_finRange, Option.isSome_iff_ne_none]

theorem clone_exhausted {s : State} {pid : Pid} {proc : Process} (mode : CloneMode)
    (found : s.processList pid = some proc) (backup : proc.stackBackup.isSome = false)
    (full : s.toTables.processesFull) : clone place s pid mode = .error .uncaughtException := by
  simp [clone, found, backup, freeSlot_eq_none.mpr full]

theorem open_graceful {s : State} {trap : Trap} {proc : Process} (inv : Inv s)
    (found : s.processList s.currentProcess = some proc)
    (call : callsysOf trap.regs.eax = some .openFile)
    (nothing : NamesNothing fs (loadString trap.mem trap.regs.ebx)) :
    Graceful fs place s trap proc .openFile := by
  have applied : applyHandler fs place (entered s trap proc) trap (proc.trapped trap) .openFile =
      .ok (entered s trap proc, enoent) := by
    simp only [applyHandler, openHandler]
    rw [show loadString (entered s trap proc).mem (proc.trapped trap).usermodeState.ebx =
      loadString trap.mem trap.regs.ebx from rfl, nothing.1, nothing.2]
  have same := SameTables.of_entered s trap proc
  constructor
  · exact ⟨_, _, applied, by decide, same⟩
  · intro s' ran
    obtain ⟨caller, awake, _, outcome⟩ := step_cases inv ran
    have owner : caller = proc := Option.some.inj (awake.1.symm.trans found)
    subst owner
    rcases outcome with ⟨unknown, _⟩ | ⟨callsys, called, ret, passed, known, result, checked, stored⟩
    · rw [call] at unknown
      cases unknown
    · have opens : callsys = .openFile := Option.some.inj (known.symm.trans call)
      subst opens
      rw [applied, Except.ok.injEq, Prod.mk.injEq] at result
      obtain ⟨rfl, rfl⟩ := result
      have pass := (checkAll_acts checked).1
      have still := Awake.pass_run (inv.queues.run (entered_acts trap awake))
        (entered_awake trap awake) pass
      refine ⟨⟨(caller.trapped trap).setRetval enoent, ?_, ?_⟩, ?_⟩
      · refine find_eq_some.mpr ⟨?_, rfl⟩
        rw [stored, modify_processList, if_pos rfl, still.1, Option.map_some]
      · change toInt32 (enoent % 2 ^ 32).toNat < 0
        decide
      · rw [stored]
        exact (same.pass_run pass).modify _ fun _ => rfl

theorem allocating_ret {s called : State} {trap : Trap} {proc : Process} {callsys : Callsys}
    {ret : Int} (allocates : callsys.allocates)
    (applied : applyHandler fs place s trap proc callsys = .ok (called, ret)) :
    0 ≤ ret ∨ callsys = .openFile ∧
      NamesNothing fs (loadString s.mem proc.usermodeState.ebx) := by
  cases callsys with
  | fork =>
      obtain ⟨child, -, rfl⟩ := applyHandler_fork applied
      exact Or.inl (Int.natCast_nonneg _)
  | thread =>
      obtain ⟨child, -, rfl⟩ := applyHandler_thread applied
      exact Or.inl (Int.natCast_nonneg _)
  | openFile =>
      simp only [applyHandler, openHandler] at applied
      split at applied
      · split at applied
        · simp only [Except.ok.injEq, Prod.mk.injEq] at applied
          rw [← applied.2]
          exact Or.inl (by decide)
        · simp only [Except.ok.injEq, Prod.mk.injEq] at applied
          rw [← applied.2]
          exact Or.inl (Int.natCast_nonneg _)
      · next unregistered =>
          split at applied
          · next missing => exact Or.inr ⟨rfl, unregistered, missing⟩
          · split at applied
            · simp only [Except.ok.injEq, Prod.mk.injEq] at applied
              rw [← applied.2]
              exact Or.inl (by decide)
            · simp only [Except.ok.injEq, Prod.mk.injEq] at applied
              rw [← applied.2]
              exact Or.inl (Int.natCast_nonneg _)
  | semCreate =>
      simp only [applyHandler, semCreateHandler] at applied
      split at applied
      · cases applied
      · split at applied
        · cases applied
        · simp only [Except.ok.injEq, Prod.mk.injEq] at applied
          rw [← applied.2]
          exact Or.inl (Int.natCast_nonneg _)
  | _ => cases allocates

theorem exhausted_call (place : Placement) {s : State} (trap : Trap) {proc : Process}
    {callsys : Callsys}
    (found : s.processList s.currentProcess = some proc) (backup : proc.stackBackup.isSome = false)
    (full : Exhausted s.toTables proc callsys)
    (named : ¬ (callsys = .openFile ∧ NamesNothing fs (loadString s.mem proc.usermodeState.ebx))) :
    applyHandler fs place s trap proc callsys = .error .uncaughtException ∨
      callsys = .openFile ∧ applyHandler fs place s trap proc callsys = .ok (s, enospc) := by
  cases callsys with
  | fork =>
      apply Or.inl
      simp only [applyHandler, clone_exhausted _ found backup full]
      rfl
  | thread =>
      apply Or.inl
      simp only [applyHandler, clone_exhausted _ found backup full]
      rfl
  | openFile =>
      refine Or.inr ⟨rfl, ?_⟩
      simp only [applyHandler, openHandler]
      split
      · next obj registered =>
          have device : obj.begin = 3 := by
            obtain ⟨entry, _, rfl⟩ := Option.map_eq_some_iff.mp registered
            rfl
          rw [(addObject_eq_none found device).mpr full]
      · next unregistered =>
          split
          · next missing => exact absurd ⟨rfl, unregistered, missing⟩ named
          · rw [(addObject_eq_none found rfl).mpr full]
  | semCreate =>
      apply Or.inl
      simp only [applyHandler, semCreateHandler]
      split
      · rfl
      · next slot free =>
          have here : (s.toTables.newSemaphore slot (toInt32 proc.usermodeState.ebx)).processList
              s.currentProcess = some proc := found
          rcases full with registry | objects
          · rw [freeDevice_eq_none.mpr registry] at free
            cases free
          · rw [(addObject_eq_none here rfl).mpr objects]
  | _ => cases full

/-- When a call does not fail gracefully although its table is full: it ends in `abort`, or
`open` returns the positive `ENOSPC`. -/
theorem exhaustion_graceful_iff {s : State} {trap : Trap} {proc : Process} {callsys : Callsys}
    (reachable : Reachable fs place (fun _ _ => True) s)
    (found : s.processList s.currentProcess = some proc)
    (call : callsysOf trap.regs.eax = some callsys) (allocates : callsys.allocates) :
    (Graceful fs place s trap proc callsys ↔
      callsys = .openFile ∧ NamesNothing fs (loadString trap.mem trap.regs.ebx)) ∧
    (Exhausted s.toTables proc callsys →
      ¬ (callsys = .openFile ∧ NamesNothing fs (loadString trap.mem trap.regs.ebx)) →
        realSyscallHandler fs place s trap = .error .uncaughtException ∨
        callsys = .openFile ∧
          applyHandler fs place (entered s trap proc) trap (proc.trapped trap) callsys =
            .ok (entered s trap proc, enospc)) := by
  have inv := reachable.inv
  have awake : s.toTables.Awake s.currentProcess proc := by
    obtain ⟨caller, awake⟩ := inv.running
    rw [← Option.some.inj (awake.1.symm.trans found)]
    exact awake
  constructor
  · constructor
    · intro graceful
      obtain ⟨called, ret, applied, negative, _⟩ := graceful.handler
      rcases allocating_ret allocates applied with nonneg | nothing
      · exact absurd negative (Int.not_lt.mpr nonneg)
      · exact nothing
    · intro ⟨opens, nothing⟩
      subst opens
      exact open_graceful inv found call nothing
  · intro full named
    have ready := entered_awake trap awake
    have exhausted : Exhausted (entered s trap proc).toTables (proc.trapped trap) callsys := by
      have same := SameTables.of_entered s trap proc
      cases callsys with
      | fork => exact same.full full
      | thread => exact same.full full
      | _ => exact full
    have backup : proc.stackBackup.isSome = false := inv.queues.awake_no_backup awake
    rcases exhausted_call place trap ready.1 backup exhausted named with stops | returns
    · apply Or.inl
      rw [realSyscallHandler_eq, reachLeave_registered found call, stops]
      rfl
    · exact Or.inr returns

instance (t : Tables) : Decidable t.processesFull :=
  inferInstanceAs (Decidable (∀ pid, (t.processList pid).isSome))

/-- An `open` of the empty path when every slot of the process table is taken. -/
theorem exhaustion_graceful_iff_missing :
    ∃ s proc, Reachable smallVolume smallPlacement (fun _ _ => True) s ∧
      s.toTables.processesFull ∧ s.processList s.currentProcess = some proc ∧
      Graceful smallVolume smallPlacement s (plainCall 5 0 0 0) proc .openFile := by
  obtain ⟨s, reachable, full⟩ := smallRun_exists (fun _ _ => True)
    (plainCall 2 0 0 0 :: List.replicate 30 (plainCall 202 0 0 0))
    (fun s => s.toTables.processesFull) (by decide +kernel)
  obtain ⟨proc, awake⟩ := reachable.inv.running
  refine ⟨s, proc, reachable, full, awake.1, ?_⟩
  apply (exhaustion_graceful_iff reachable awake.1 rfl rfl).1.mpr
  refine ⟨rfl, ?_, ?_⟩
  · decide +kernel
  · decide +kernel

/-- A `fork` when every slot of the process table is taken. -/
theorem full_table_aborts :
    ∃ s proc, Reachable smallVolume smallPlacement HltProgram s ∧
      s.processList s.currentProcess = some proc ∧ Exhausted s.toTables proc .fork ∧
      realSyscallHandler smallVolume smallPlacement s (plainCall 2 0 0 0) =
        .error .uncaughtException ∧
      ¬ Graceful smallVolume smallPlacement s (plainCall 2 0 0 0) proc .fork := by
  obtain ⟨s, reachable, full⟩ := smallRun_exists HltProgram
    (plainCall 2 0 0 0 :: List.replicate 30 (plainCall 202 0 0 0))
    (fun s => s.toTables.processesFull) (by decide +kernel)
  obtain ⟨proc, awake⟩ := reachable.inv.running
  have stops : clone smallPlacement (entered s (plainCall 2 0 0 0) proc) s.currentProcess
      .keepStack = .error .uncaughtException := by
    apply clone_exhausted _ (entered_awake (plainCall 2 0 0 0) awake).1
    · exact (reachable.inv.queues.awake_no_backup awake :)
    · exact (SameTables.of_entered s _ proc).full full
  have applied : applyHandler smallVolume smallPlacement (entered s (plainCall 2 0 0 0) proc)
      (plainCall 2 0 0 0) (proc.trapped (plainCall 2 0 0 0)) .fork =
        .error .uncaughtException := by
    simp only [applyHandler]
    rw [show (entered s (plainCall 2 0 0 0) proc).currentProcess = s.currentProcess from rfl, stops]
    rfl
  have call : callsysOf (plainCall 2 0 0 0).regs.eax = some .fork := rfl
  refine ⟨s, proc, reachable, awake.1, full, ?_, ?_⟩
  · rw [realSyscallHandler_eq, reachLeave_registered awake.1 call, applied]
    rfl
  · intro graceful
    obtain ⟨called, ret, returns, _⟩ := graceful.handler
    rw [applied] at returns
    cases returns

section Indices

variable (s : State) (trap : Trap) (proc : Process)

def AwaitsSlot (target : Nat) : Prop :=
  ∃ pos : Fd, ∃ slot device, pos.val = trap.regs.ebx ∧ proc.objects pos = some (.device slot) ∧
    s.devices slot = some device ∧ device.input = .processWait ∧ trap.regs.edx = 4 ∧
    loadWord trap.mem trap.regs.ecx = target

def Callsys.beyond : Callsys → Prop
  | .read => 128 ≤ trap.regs.ebx
  | .write => 128 ≤ trap.regs.ebx ∨ ∃ target, AwaitsSlot s trap proc target ∧ 32 ≤ target
  | .readdir => 128 ≤ trap.regs.ebx
  | .close => 128 ≤ trap.regs.ebx
  | .dup2 => 128 ≤ trap.regs.ebx ∨ 128 ≤ trap.regs.ecx
  | _ => False

/-- The call number or an argument is past the end of its table. -/
def OutOfRange : Prop :=
  syscallEnd ≤ trap.regs.eax ∨
    ∃ callsys, callsysOf trap.regs.eax = some callsys ∧ callsys.beyond s trap proc

def Rejected (fs : FileSystem) (place : Placement) : Prop :=
  ∃ callsys called ret, callsysOf trap.regs.eax = some callsys ∧
    applyHandler fs place (entered s trap proc) trap (proc.trapped trap) callsys =
      .ok (called, ret) ∧ ret < 0

/-- No lookup with an index from a register leaves its table: neither the dispatch nor
`getObject` does, and what lies past the end of `process_list` and `last_exit_code` makes no
difference. An `exec` may still leave the table of sections, whose indices come from a file. -/
structure StaysInside (fs : FileSystem) (place : Placement) : Prop where
  lookups : callsysOf trap.regs.eax ≠ some .exec →
    realSyscallHandler fs place s trap ≠ .error .indexOutOfRange
  unseen : ∀ occupied exitCode,
    realSyscallHandler fs place s { trap with occupied := occupied, exitCode := exitCode } =
      realSyscallHandler fs place s trap

end Indices

theorem doRead_error {s : State} {slot : Slot} {p : ProcPtr} {buffer size : Nat} {stop : Stop}
    (failed : doRead s slot p buffer size = .error stop) : stop ≠ .indexOutOfRange := by
  intro outside
  subst outside
  simp only [doRead] at failed
  split at failed
  · cases failed
  · split at failed
    · split at failed
      · cases failed
      · cases failed
    · cases failed

theorem checkLoop_error {slot : Slot} {stop : Stop} (fuel ind : Nat) {s : State}
    (failed : checkLoop slot fuel ind s = .error stop) : stop ≠ .indexOutOfRange := by
  induction fuel generalizing ind s with
  | zero => cases failed
  | succ fuel ih =>
      simp only [checkLoop] at failed
      split at failed
      · cases failed
        exact Stop.noConfusion
      · split at failed
        · cases failed
        · split at failed
          · cases failed
          · split at failed
            · next device now _ _ other served =>
                rw [← Except.error.inj failed]
                simp only [serve] at served
                split at served
                · cases served
                  exact Stop.noConfusion
                · split at served
                  · next read =>
                      rw [← Except.error.inj served]
                      exact doRead_error read
                  · cases served
            · exact ih _ failed

theorem checkSlots_error {arrivals : Arrivals} {slots : List Slot} {s : State} {stop : Stop}
    (failed : slots.foldlM (checkSlot arrivals) s = .error stop) : stop ≠ .indexOutOfRange := by
  induction slots generalizing s with
  | nil => cases failed
  | cons slot rest ih =>
      rw [List.foldlM_cons] at failed
      rcases bind_error failed with first | ⟨mid, _, later⟩
      · simp only [checkSlot, check] at first
        split at first
        · cases first
        · split at first
          · next looped =>
              rw [← Except.error.inj first]
              exact checkLoop_error _ _ looped
          · cases first
      · exact ih later

theorem finishCall_error {s : State} {pid : Pid} {ret : Int} {stop : Stop}
    (failed : finishCall s pid ret = .error stop) : stop = .initTask := by
  simp only [finishCall] at failed
  split at failed
  · exact resche_error failed
  · split at failed
    · exact resche_error failed
    · cases failed

theorem leaveHook_error {s : State} {trap : Trap} {stop : Stop}
    (failed : leaveHook s trap = .error stop) : stop = .initTask := by
  simp only [leaveHook] at failed
  split at failed
  · exact resche_error failed
  · cases failed

theorem getObject_inside {proc : Process} {fd : Nat} (inside : fd < 128) :
    getObject proc fd = .ok (proc.objects ⟨fd, inside⟩) := by
  rw [getObject, dif_pos inside]

theorem getObject_beyond {proc : Process} {fd : Nat} (beyond : 128 ≤ fd) :
    getObject proc fd = .error .indexOutOfRange := by
  rw [getObject, dif_neg (Nat.not_lt.mpr beyond)]

theorem readDevice_error {s : State} {slot : Slot} {buffer size : Nat} {stop : Stop}
    (failed : readDevice s slot buffer size = .error stop) : stop ≠ .indexOutOfRange := by
  simp only [readDevice] at failed
  split at failed
  · exact doRead_error failed
  · rw [← Except.error.inj failed]
    exact Stop.noConfusion

theorem applyHandler_inside {s : State} {trap : Trap} {proc : Process} {callsys : Callsys}
    (other : callsys ≠ .exec) (inside : ¬ callsys.beyond s trap proc) :
    applyHandler fs place (entered s trap proc) trap (proc.trapped trap) callsys ≠
      .error .indexOutOfRange := by
  intro failed
  rcases applyHandler_error failed with plain | ⟨calls, got⟩ | ⟨_, _, read⟩ | exec
  · cases plain
  · have beyond : 128 ≤ trap.regs.ebx := by
      by_contra small
      have held : getObject (proc.trapped trap) trap.regs.ebx = .ok _ :=
        getObject_inside (Nat.not_le.mp small)
      cases held.symm.trans got
    apply inside
    rcases calls with rfl | rfl | rfl | rfl
    · exact beyond
    · exact Or.inl beyond
    · exact Or.inl beyond
    · exact beyond
  · exact readDevice_error read rfl
  · exact other exec

/-- What lies past the end of the process tables reaches a handler only through a slot
number that is written to `:WAITPID`. -/
theorem applyHandler_unseen {s : State} {trap : Trap} {proc : Process} {callsys : Callsys}
    (inside : ¬ callsys.beyond s trap proc) (occupied : Bool) (exitCode : Nat) :
    applyHandler fs place (entered s trap proc)
        { trap with occupied := occupied, exitCode := exitCode } (proc.trapped trap) callsys =
      applyHandler fs place (entered s trap proc) trap (proc.trapped trap) callsys := by
  cases callsys with
  | write =>
      have small : trap.regs.ebx < 128 := Nat.not_le.mp fun large => inside (Or.inl large)
      have fd : getObject (proc.trapped trap) (proc.trapped trap).usermodeState.ebx =
          .ok (proc.objects ⟨trap.regs.ebx, small⟩) := getObject_inside small
      simp only [applyHandler, writeHandler, fd]
      cases held : proc.objects ⟨trap.regs.ebx, small⟩ with
      | none => rfl
      | some obj =>
          cases obj with
          | file id => rfl
          | segment base size => rfl
          | device slot =>
              simp only [writeDevice]
              cases found : (entered s trap proc).devices slot with
              | none => rfl
              | some device =>
                  cases kind : device.input with
                  | processWait =>
                      simp only [kind, writeProcessWait]
                      by_cases four : (proc.trapped trap).usermodeState.edx ≠ 4
                      · simp only [if_pos four]
                      · have target : loadWord trap.mem trap.regs.ecx < 32 := by
                          apply Nat.not_le.mp
                          intro large
                          exact inside (Or.inr ⟨_, ⟨_, slot, device, rfl, held, found, kind,
                            not_not.mp four, rfl⟩, large⟩)
                        have low : loadWord (entered s trap proc).mem
                            (proc.trapped trap).usermodeState.ecx < 32 := target
                        simp only [if_neg four, dif_pos low]
                  | _ => simp only [kind]
  | _ => rfl

theorem stays_inside {s : State} {trap : Trap} {proc : Process}
    (found : s.processList s.currentProcess = some proc) (small : trap.regs.eax < syscallEnd)
    (inside : ∀ callsys, callsysOf trap.regs.eax = some callsys → callsys ≠ .exec →
      applyHandler fs place (entered s trap proc) trap (proc.trapped trap) callsys ≠
        .error .indexOutOfRange)
    (unseen : ∀ callsys, callsysOf trap.regs.eax = some callsys → ∀ occupied exitCode,
      applyHandler fs place (entered s trap proc)
          { trap with occupied := occupied, exitCode := exitCode } (proc.trapped trap) callsys =
        applyHandler fs place (entered s trap proc) trap (proc.trapped trap) callsys) :
    StaysInside s trap fs place := by
  cases known : callsysOf trap.regs.eax with
  | none =>
      constructor
      · intro _ failed
        rw [realSyscallHandler_eq, reachLeave_unregistered found small known] at failed
        cases leaveHook_error (map_error failed)
      · intro occupied exitCode
        rw [realSyscallHandler_eq, realSyscallHandler_eq,
          reachLeave_unregistered found small known]
        exact congrArg (Except.map leaveKernelMode) (reachLeave_unregistered found small known)
  | some callsys =>
      constructor
      · intro other failed
        have notExec : callsys ≠ .exec := by
          intro same
          rw [known, same] at other
          exact other rfl
        rw [realSyscallHandler_eq, reachLeave_registered found known] at failed
        rcases bind_error (map_error failed) with handler | ⟨⟨called, ret⟩, _, failed⟩
        · exact inside callsys known notExec handler
        · rcases bind_error failed with checked | ⟨passed, _, failed⟩
          · exact checkSlots_error checked rfl
          · rcases bind_error failed with finished | ⟨done, _, failed⟩
            · cases finishCall_error finished
            · cases leaveHook_error failed
      · intro occupied exitCode
        rw [realSyscallHandler_eq, realSyscallHandler_eq, reachLeave_registered found known,
          ← unseen callsys known occupied exitCode]
        exact congrArg (Except.map leaveKernelMode) (reachLeave_registered found known)

theorem dup2_empty {s : State} {trap : Trap} {proc : Process} {pos : Fd}
    (old : pos.val = trap.regs.ebx) (empty : proc.objects pos = none)
    (beyond : Callsys.beyond s trap proc .dup2) :
    applyHandler fs place (entered s trap proc) trap (proc.trapped trap) .dup2 =
      .ok (entered s trap proc, -1) := by
  have small : trap.regs.ebx < 128 := by
    rw [← old]
    exact pos.isLt
  have large : 128 ≤ trap.regs.ecx := by
    rcases beyond with first | second
    · omega
    · exact second
  have differs : ¬ (proc.trapped trap).usermodeState.ebx = (proc.trapped trap).usermodeState.ecx :=
    Nat.ne_of_lt (Nat.lt_of_lt_of_le small large)
  have got : getObject (proc.trapped trap) (proc.trapped trap).usermodeState.ebx = .ok none := by
    have inside : (proc.trapped trap).usermodeState.ebx < 128 := small
    have same : (⟨trap.regs.ebx, small⟩ : Fd) = pos := Fin.ext old.symm
    rw [getObject_inside inside]
    exact congrArg Except.ok ((congrArg proc.objects same).trans empty)
  simp only [applyHandler, dup2Handler, if_neg differs, got]

/-- An index past the end of its table is not turned down, apart from the new position of a
`dup2` that finds nothing to copy. -/
theorem beyond_accepted {s called : State} {trap : Trap} {proc : Process} {callsys : Callsys}
    {ret : Int} (beyond : callsys.beyond s trap proc)
    (applied : applyHandler fs place (entered s trap proc) trap (proc.trapped trap) callsys =
      .ok (called, ret)) (negative : ret < 0) :
    callsys = .dup2 ∧ ∃ pos : Fd, pos.val = trap.regs.ebx ∧ proc.objects pos = none := by
  have never : ∀ {fd : Nat}, 128 ≤ fd → getObject (proc.trapped trap) fd =
      .error .indexOutOfRange := getObject_beyond
  cases callsys with
  | read =>
      have large : 128 ≤ (proc.trapped trap).usermodeState.ebx := beyond
      simp only [applyHandler, readHandler, never large] at applied
      cases applied
  | write =>
      rcases beyond with large | ⟨target, awaits, large⟩
      · have large : 128 ≤ (proc.trapped trap).usermodeState.ebx := large
        simp only [applyHandler, writeHandler, never large] at applied
        cases applied
      · obtain ⟨pos, slot, device, fd, held, known, kind, four, _⟩ := awaits
        have small : (proc.trapped trap).usermodeState.ebx < 128 := by
          rw [show (proc.trapped trap).usermodeState.ebx = pos.val from fd.symm]
          exact pos.isLt
        have here : (proc.trapped trap).objects ⟨(proc.trapped trap).usermodeState.ebx, small⟩ =
            some (.device slot) := by
          rw [← held]
          exact congrArg proc.objects (Fin.ext fd.symm)
        have present : (entered s trap proc).devices slot = some device := known
        have size : ¬ (proc.trapped trap).usermodeState.edx ≠ 4 := not_not.mpr four
        simp only [applyHandler, writeHandler, getObject_inside small, here, writeDevice, present,
          kind, writeProcessWait, if_neg size, Except.ok.injEq, Prod.mk.injEq] at applied
        rw [← applied.2] at negative
        cases negative
  | close =>
      simp only [applyHandler, Except.ok.injEq, Prod.mk.injEq] at applied
      rw [← applied.2] at negative
      cases negative
  | readdir =>
      have large : 128 ≤ (proc.trapped trap).usermodeState.ebx := beyond
      simp only [applyHandler, readdirHandler, never large] at applied
      cases applied
  | dup2 =>
      refine ⟨rfl, ?_⟩
      simp only [applyHandler, dup2Handler] at applied
      split at applied
      · simp only [Except.ok.injEq, Prod.mk.injEq] at applied
        rw [← applied.2] at negative
        cases negative
      · split at applied
        · cases applied
        · next got =>
            obtain ⟨inside, held⟩ := getObject_ok got
            exact ⟨⟨_, inside⟩, rfl, held⟩
        · split at applied
          · simp only [Except.ok.injEq, Prod.mk.injEq] at applied
            rw [← applied.2] at negative
            cases negative
          · simp only [Except.ok.injEq, Prod.mk.injEq] at applied
            rw [← applied.2] at negative
            cases negative
  | _ => exact beyond.elim

/-- When every index from a register is inside its table or turned down: in every call but a
`dup2` to a position past the end of the table, which is turned down when there is nothing
to copy, no index may be past the end. -/
theorem indices_checked_iff {s : State} {trap : Trap} {proc : Process}
    (found : s.processList s.currentProcess = some proc) :
    (StaysInside s trap fs place ∧ (OutOfRange s trap proc → Rejected s trap proc fs place)) ↔
      (¬ OutOfRange s trap proc ∨ callsysOf trap.regs.eax = some .dup2 ∧
        ∃ pos : Fd, pos.val = trap.regs.ebx ∧ proc.objects pos = none) := by
  constructor
  · intro ⟨_, rejects⟩
    by_cases outside : OutOfRange s trap proc
    · apply Or.inr
      obtain ⟨callsys, called, ret, known, applied, negative⟩ := rejects outside
      rcases outside with large | ⟨other, same, beyond⟩
      · exact absurd (callsysOf_lt known) (Nat.not_lt.mpr large)
      · have equal : other = callsys := Option.some.inj (same.symm.trans known)
        subst equal
        obtain ⟨rfl, empty⟩ := beyond_accepted beyond applied negative
        exact ⟨known, empty⟩
    · exact Or.inl outside
  · rintro (inside | ⟨dup2, pos, old, empty⟩)
    · have within : ∀ callsys, callsysOf trap.regs.eax = some callsys →
          ¬ callsys.beyond s trap proc := fun callsys known beyond =>
        inside (Or.inr ⟨callsys, known, beyond⟩)
      refine ⟨?_, fun outside => absurd outside inside⟩
      apply stays_inside found (Nat.not_le.mp fun large => inside (Or.inl large))
      · exact fun callsys known other => applyHandler_inside other (within callsys known)
      · exact fun callsys known => applyHandler_unseen (within callsys known)
    · have only : ∀ callsys, callsysOf trap.regs.eax = some callsys → callsys = .dup2 :=
        fun callsys known => Option.some.inj (known.symm.trans dup2)
      constructor
      · apply stays_inside found (callsysOf_lt dup2)
        · intro callsys known other
          rw [only callsys known]
          by_cases beyond : Callsys.beyond s trap proc .dup2
          · rw [dup2_empty old empty beyond]
            exact fun failed => by cases failed
          · exact applyHandler_inside (by decide) beyond
        · intro callsys known occupied exitCode
          rw [only callsys known]
          rfl
      · intro outside
        rcases outside with large | ⟨callsys, known, beyond⟩
        · exact absurd (callsysOf_lt dup2) (Nat.not_lt.mpr large)
        · rw [only callsys known] at beyond
          exact ⟨.dup2, _, -1, dup2, dup2_empty old empty beyond, by decide⟩

/-- A read from the first position that is free. -/
theorem indices_checked_iff_read :
    ∃ s proc, Reachable smallVolume smallPlacement HltProgram s ∧
      s.processList s.currentProcess = some proc ∧
      StaysInside s (plainCall 3 3 0 0) smallVolume smallPlacement := by
  obtain ⟨s, reachable, _⟩ := smallRun_exists HltProgram [plainCall 2 0 0 0]
    (fun s => s.currentProcess = 1) (by decide +kernel)
  obtain ⟨proc, awake⟩ := reachable.inv.running
  refine ⟨s, proc, reachable, awake.1, ((indices_checked_iff awake.1).mpr (Or.inl ?_)).1⟩
  rintro (large | ⟨callsys, known, beyond⟩)
  · exact absurd large (by decide)
  · cases known
    exact absurd beyond (by decide : ¬ 128 ≤ 3)

/-- A read from a position past the end of the object table. -/
theorem stray_position_looked_up :
    ¬ ∀ fs place s, Reachable fs place HltProgram s →
      ∀ trap proc, s.processList s.currentProcess = some proc →
        StaysInside s trap fs place ∧
          (OutOfRange s trap proc → Rejected s trap proc fs place) := by
  intro claim
  obtain ⟨s, reachable, _⟩ := smallRun_exists HltProgram [plainCall 2 0 0 0]
    (fun s => s.currentProcess = 1) (by decide +kernel)
  obtain ⟨proc, awake⟩ := reachable.inv.running
  have call : callsysOf (plainCall 3 200 0 0).regs.eax = some .read := rfl
  have failed : realSyscallHandler smallVolume smallPlacement s (plainCall 3 200 0 0) =
      .error .indexOutOfRange := by
    rw [realSyscallHandler_eq, reachLeave_registered awake.1 call]
    rfl
  exact (claim _ _ s reachable (plainCall 3 200 0 0) proc awake.1).1.lookups (by decide) failed

end SysImpl.Kernel
