import SysImpl.Kernel.Queues

/-! The handlers as sequences of acts.

For each system call: the tables after its handler are reached by acts of the calling
process alone, and a read that completes at once returns what its act returns. -/

namespace SysImpl.Kernel

open Bytes Runs

/-- The blocking devices that are made at boot and stay. -/
structure Fixtures (t : Tables) : Prop where
  com1 : ∃ pending, t.devices 0 = some ⟨0, pending, .serialIo⟩
  con : ∃ pending, t.devices 1 = some ⟨1, pending, .vgaText⟩
  wait : ∃ pending, t.devices 2 = some ⟨2, pending, .processWait⟩
  sleep : ∃ pending, t.devices 3 = some ⟨3, pending, .sleepDevice⟩

/-- What a call may do: make a process, end its caller, load a program, read from a
blocking device, signal a semaphore. -/
structure Rights where
  spawns : Prop
  exits : Prop
  loads : Prop
  reads : Prop
  signals : Prop

def CallLabel (p : ProcPtr) (rights : Rights) (ret : Int) : Label → Prop
  | .regs pid => pid = p.pid ∧ rights.loads
  | .attach pid => pid = p.pid
  | .detach pid => pid = p.pid
  | .await q => q = p
  | .signal _ => rights.signals
  | .newSem _ => True
  | .spawn q _ _ => q = p ∧ rights.spawns
  | .kill q => q = p ∧ rights.exits
  | .image q => q = p ∧ rights.loads
  | .done _ q r => q = p ∧ rights.reads ∧ r = ret
  | .block _ q => q = p ∧ rights.reads ∧ ret = eagain
  | .enter _ => False
  | .serve _ _ _ => False
  | .requeue _ _ => False

variable {t : Tables} {pid : Pid} {proc : Process}

theorem restoreParent_tables (s : State) (ppid : Option Pid) :
    (restoreParent s ppid).toTables = s.toTables.wakeParent ppid := by
  cases ppid with
  | none => rfl
  | some parent =>
      simp only [restoreParent, restoreStack, Tables.wakeParent]
      cases found : s.processList parent with
      | none =>
          simp only [Tables.modify, found, Option.map_none, Tables.setProcess]
          rw [← found, Function.update_eq_self]
      | some proc =>
          cases backup : proc.stackBackup with
          | none =>
              have same : proc.wake = proc := by simp [Process.wake, backup]
              simp only [Tables.modify, found, backup, Option.map_some, same, Tables.setProcess]
              rw [← found, Function.update_eq_self]
          | some saved =>
              have cleared : proc.wake = proc.clearBackup := by simp [Process.wake, backup]
              simp only [Tables.modify, found, backup, Option.map_some, cleared]

theorem removeObject_processes (t : Tables) (pid : Pid) (pos : Fd) :
    (t.removeObject pid pos).processList = t.processList ∨
      (t.removeObject pid pos).processList = (t.modify pid (Process.bind pos none)).processList := by
  simp only [Tables.removeObject]
  split
  · exact Or.inl rfl
  · split
    · exact Or.inl rfl
    · next obj _ =>
        apply Or.inr
        cases obj with
        | file id => rfl
        | segment base size => rfl
        | device slot =>
            simp only [Tables.dropReference]
            split
            · rfl
            · rfl

theorem removeObject_rest (t : Tables) (pid : Pid) (pos : Fd) :
    ∃ processes devices,
      t.removeObject pid pos = { t with processList := processes, devices := devices } := by
  simp only [Tables.removeObject]
  split
  · exact ⟨_, _, rfl⟩
  · split
    · exact ⟨_, _, rfl⟩
    · next obj _ =>
        cases obj with
        | file id => exact ⟨_, _, rfl⟩
        | segment base size => exact ⟨_, _, rfl⟩
        | device slot =>
            simp only [Tables.dropReference]
            split
            · exact ⟨_, _, rfl⟩
            · exact ⟨_, _, rfl⟩

theorem removeObject_log (t : Tables) (pid : Pid) (pos : Fd) : (t.removeObject pid pos).log = t.log := by
  obtain ⟨processes, devices, same⟩ := removeObject_rest t pid pos
  rw [same]

theorem removeObject_self (known : t.processList pid = some proc) (pos : Fd) :
    (t.removeObject pid pos).processList pid =
      some { proc with objects := Function.update proc.objects pos none } := by
  cases held : proc.objects pos with
  | none =>
      simp only [Tables.removeObject, known, held]
      rw [← held, Function.update_eq_self]
  | some obj =>
      simp only [Tables.removeObject, known, held]
      have dropped : ∀ t : Tables, (t.dropReference obj).processList = t.processList := by
        intro t
        cases obj with
        | file id => rfl
        | segment base size => rfl
        | device slot =>
            simp only [Tables.dropReference]
            split
            · rfl
            · rfl
      have removed : (t.onRemovedByOwner ⟨pid, proc.serial⟩ obj).processList = t.processList := by
        cases obj with
        | file id => rfl
        | segment base size => rfl
        | device slot => rfl
      rw [dropped, modify_processList, if_pos rfl, removed, known]
      rfl

theorem Awake.removeObject (awake : t.Awake pid proc) (pos : Fd) :
    (t.removeObject pid pos).Awake pid
      { proc with objects := Function.update proc.objects pos none } :=
  ⟨removeObject_self awake.1 pos, awake.2⟩

theorem removeObjects_acts (rights : Rights) (ret : Int) (awake : t.Awake pid proc)
    (drop : Fd → Bool) :
    RunOf Act (CallLabel ⟨pid, proc.serial⟩ rights ret) t (t.removeObjects pid drop) ∧
      ∃ objects, (t.removeObjects pid drop).Awake pid { proc with objects := objects } := by
  simp only [Tables.removeObjects]
  generalize List.finRange 128 = positions
  induction positions generalizing t proc with
  | nil => exact ⟨RunOf.refl t, proc.objects, awake⟩
  | cons pos rest ih =>
      rw [List.foldl_cons]
      by_cases dropped : drop pos
      · rw [if_pos dropped]
        obtain ⟨run, final⟩ := ih (Awake.removeObject awake pos)
        exact ⟨RunOf.cons (Act.detach pos awake) rfl run, final⟩
      · rw [if_neg dropped]
        exact ih awake

theorem deleteProcess_acts {s : State} {rights : Rights} (ret : Int)
    (awake : s.toTables.Awake pid proc) (code : Nat) (allowed : rights.exits) :
    RunOf Act (CallLabel ⟨pid, proc.serial⟩ rights ret) s.toTables
      (deleteProcess s pid code).toTables := by
  obtain ⟨run, objects, still⟩ := removeObjects_acts rights ret awake (fun _ => true)
  apply run.trans
  simp only [deleteProcess, awake.1, restoreParent_tables]
  have killed := Act.kill code still
  exact RunOf.single killed ⟨rfl, allowed⟩

theorem freeSlot_free {child : Pid} (chosen : t.freeSlot = some child) :
    t.processList child = none := by
  have empty := List.find?_some chosen
  exact Option.isNone_iff_eq_none.mp (by simpa using empty)

theorem clone_ok {place : Placement} {s s' : State} {mode : CloneMode} {child : Pid}
    (cloned : clone place s pid mode = .ok (s', child)) :
    ∃ proc, s.processList pid = some proc ∧ s.toTables.freeSlot = some child ∧
      (mode = .keepStack ∧ s' = { s with
          toTables := ((({ s.toTables with nextSerial := s.nextSerial + 1 } : Tables).modify pid
            (Process.keepStack s.mem)).setProcess child (some (childProcess proc pid s.nextSerial
              (proc.usermodeState.setRetval 0)))).note
                (.spawned ⟨pid, proc.serial⟩ ⟨child, s.nextSerial⟩ true)
          currentProcess := child } ∨
        ∃ code data, mode = .newThread code data ∧ s' = { s with
          toTables := (({ s.toTables with nextSerial := s.nextSerial + 1 } : Tables).setProcess
            child (some (childProcess proc pid s.nextSerial
              (threadStart place child code data proc.usermodeState s.mem).1))).note
                (.spawned ⟨pid, proc.serial⟩ ⟨child, s.nextSerial⟩ false)
          currentProcess := child
          mem := (threadStart place child code data proc.usermodeState s.mem).2 }) := by
  simp only [clone] at cloned
  split at cloned
  · cases cloned
  · next proc found =>
      split at cloned
      · cases cloned
      · split at cloned
        · cases cloned
        · next slot chosen =>
            cases mode with
            | keepStack =>
                simp only [Except.ok.injEq, Prod.mk.injEq] at cloned
                obtain ⟨rfl, rfl⟩ := cloned
                exact ⟨proc, found, chosen, Or.inl ⟨rfl, rfl⟩⟩
            | newThread code data =>
                simp only [Except.ok.injEq, Prod.mk.injEq] at cloned
                obtain ⟨rfl, rfl⟩ := cloned
                exact ⟨proc, found, chosen, Or.inr ⟨code, data, rfl, rfl⟩⟩

theorem clone_error {place : Placement} {s : State} {mode : CloneMode} {stop : Stop}
    (failed : clone place s pid mode = .error stop) :
    stop = .danglingPointer ∨ stop = .assertionFailed ∨ stop = .uncaughtException := by
  simp only [clone] at failed
  split at failed
  · exact Or.inl (Except.error.inj failed).symm
  · split at failed
    · exact Or.inr (Or.inl (Except.error.inj failed).symm)
    · split at failed
      · exact Or.inr (Or.inr (Except.error.inj failed).symm)
      · split at failed
        · cases failed
        · cases failed

theorem clone_acts {place : Placement} {s s' : State} {mode : CloneMode} {child : Pid}
    {rights : Rights} (ret : Int) (allowed : rights.spawns) (awake : s.toTables.Awake pid proc)
    (cloned : clone place s pid mode = .ok (s', child)) :
    RunOf Act (CallLabel ⟨pid, proc.serial⟩ rights ret) s.toTables s'.toTables := by
  obtain ⟨parent, found, chosen, made⟩ := clone_ok cloned
  have caller : parent = proc := Option.some.inj (found.symm.trans awake.1)
  subst caller
  have free := freeSlot_free chosen
  rcases made with ⟨_, rfl⟩ | ⟨code, data, _, rfl⟩
  · exact RunOf.single (Act.fork s.mem awake free) ⟨rfl, allowed⟩
  · exact RunOf.single (Act.thread _ awake free) ⟨rfl, allowed⟩

theorem modifyDevice_setInput_self {slot : Slot} {device : Device}
    (found : t.devices slot = some device) :
    t.modifyDevice slot (Device.setInput device.input) = t := by
  apply modifyDevice_self
  intro other known
  rw [found, Option.some.injEq] at known
  rw [← known]
  rfl

theorem readLine_ret (console : Console) (size : Nat) (line : LineBuffer) (hw : Hardware) :
    (readLine console size line hw).1 = eagain ∨ 0 ≤ (readLine console size line hw).1 := by
  unfold readLine
  split
  · exact Or.inr (Int.le_refl 0)
  · split
    · exact Or.inr (Int.le_refl 0)
    · split
      · exact Or.inl rfl
      · exact Or.inr (Int.natCast_nonneg _)

theorem setLine_tables (s : State) (line : LineBuffer) (console : Console) :
    (console.setLine s line).toTables = s.toTables ∧
      (console.setLine s line).currentProcess = s.currentProcess := by
  cases console
  · exact ⟨rfl, rfl⟩
  · exact ⟨rfl, rfl⟩

theorem readConsole_tables (s : State) (console : Console) (buffer size : Nat) :
    (readConsole s console buffer size).1.toTables = s.toTables ∧
      (readConsole s console buffer size).1.currentProcess = s.currentProcess ∧
      ((readConsole s console buffer size).2 = eagain ∨
        0 ≤ (readConsole s console buffer size).2) := by
  refine ⟨(setLine_tables _ _ console).1, (setLine_tables _ _ console).2, ?_⟩
  exact readLine_ret console size (console.line s) s.hw

theorem inputRead_spec {s : State} {slot : Slot} {device : Device}
    (found : s.devices slot = some device) (buffer size : Nat) :
    (inputRead s slot device.input buffer size).1.currentProcess = s.currentProcess ∧
    ((inputRead s slot device.input buffer size).2 = eagain ∧
        (inputRead s slot device.input buffer size).1.toTables = s.toTables ∧
        BlockSpec device.input ∨
      (inputRead s slot device.input buffer size).2 ≠ eagain ∧
        ∃ input, (inputRead s slot device.input buffer size).1.toTables =
            s.toTables.modifyDevice slot (Device.setInput input) ∧
          ReadSpec s.toTables s.currentProcess size (inputRead s slot device.input buffer size).2
            (loadWrap (inputRead s slot device.input buffer size).1.mem buffer
              (inputRead s slot device.input buffer size).2.toNat) device.input input) := by
  have unchanged := modifyDevice_setInput_self found
  cases kind : device.input with
  | serialIo =>
      obtain ⟨tables, current, ret⟩ := readConsole_tables s .serialIo buffer size
      rw [kind] at unchanged
      refine ⟨current, ?_⟩
      rcases ret with blocked | passed
      · exact Or.inl ⟨blocked, tables, trivial⟩
      · refine Or.inr ⟨?_, .serialIo, tables.trans unchanged.symm, rfl, passed⟩
        intro blocked
        simp only [inputRead] at blocked
        rw [blocked] at passed
        exact absurd passed (by decide)
  | vgaText =>
      obtain ⟨tables, current, ret⟩ := readConsole_tables s .vgaText buffer size
      rw [kind] at unchanged
      refine ⟨current, ?_⟩
      rcases ret with blocked | passed
      · exact Or.inl ⟨blocked, tables, trivial⟩
      · refine Or.inr ⟨?_, .vgaText, tables.trans unchanged.symm, rfl, passed⟩
        intro blocked
        simp only [inputRead] at blocked
        rw [blocked] at passed
        exact absurd passed (by decide)
  | processWait =>
      rw [kind] at unchanged
      simp only [inputRead, readProcessWait]
      by_cases busy : (s.reqs s.currentProcess).pid ≠ 0
      · rw [if_pos busy]
        exact ⟨rfl, Or.inl ⟨rfl, rfl, trivial⟩⟩
      · rw [if_neg busy]
        have none : (s.reqs s.currentProcess).pid = 0 := not_not.mp busy
        by_cases word : size = 4
        · rw [if_pos word]
          refine ⟨rfl, Or.inr ⟨four_ne_eagain, .processWait, unchanged.symm, rfl, none,
            Or.inl ⟨word, rfl, ?_⟩⟩⟩
          exact loadWrap_copyTo s.mem buffer (bytes32 (s.reqs s.currentProcess).status)
            (by rw [bytes32_length]; decide)
        · rw [if_neg word]
          exact ⟨rfl, Or.inr ⟨einval_ne_eagain, .processWait, unchanged.symm, rfl, none,
            Or.inr ⟨word, rfl⟩⟩⟩
  | sleepDevice =>
      rw [kind] at unchanged
      simp only [inputRead, readSleepDevice]
      split
      · exact ⟨rfl, Or.inl ⟨rfl, rfl, trivial⟩⟩
      · exact ⟨rfl, Or.inr ⟨zero_ne_eagain, .sleepDevice, unchanged.symm, rfl, rfl⟩⟩
  | semaphore cnt =>
      rw [kind] at unchanged
      simp only [inputRead, readSemaphore]
      by_cases empty : cnt ≤ 0
      · rw [if_pos empty]
        exact ⟨rfl, Or.inl ⟨rfl, rfl, empty⟩⟩
      · rw [if_neg empty]
        by_cases taken : size ≠ 0
        · rw [if_pos taken]
          exact ⟨rfl, Or.inr ⟨zero_ne_eagain, .semaphore (cnt - 1), rfl, not_le.mp empty, rfl,
            by rw [if_neg taken]⟩⟩
        · rw [if_neg taken]
          exact ⟨rfl, Or.inr ⟨zero_ne_eagain, .semaphore cnt, unchanged.symm, not_le.mp empty, rfl,
            by rw [if_pos (not_not.mp taken)]⟩⟩

theorem readDevice_acts {s s' : State} {slot : Slot} {buffer size : Nat} {pos : Fd} {ret : Int}
    {rights : Rights} (allowed : rights.reads) (awake : s.toTables.Awake s.currentProcess proc)
    (held : proc.objects pos = some (.device slot))
    (read : readDevice s slot buffer size = .ok (s', ret)) :
    RunOf Act (CallLabel ⟨s.currentProcess, proc.serial⟩ rights ret) s.toTables s'.toTables := by
  cases found : s.devices slot with
  | none => simp [readDevice, awake.1, found] at read
  | some device =>
      have here : (s.note (.issued device.serial ⟨s.currentProcess, proc.serial⟩ size)).devices
          slot = some device := found
      simp only [readDevice, awake.1, found, doRead, here] at read
      rcases (inputRead_spec here buffer size).2 with
        ⟨blocked, tables, spec⟩ | ⟨passed, input, tables, spec⟩
      · rw [if_pos blocked] at read
        split at read
        · simp only [Except.ok.injEq, Prod.mk.injEq] at read
          have appended : (s.note (.issued device.serial ⟨s.currentProcess, proc.serial⟩
              size)).modifyDevice slot (fun device => { device with
                pendingRequest := device.pendingRequest ++
                  [⟨⟨s.currentProcess, proc.serial⟩, buffer, size⟩] }) =
              (s.note (.issued device.serial ⟨s.currentProcess, proc.serial⟩
                size)).modifyDevice slot (Device.setPending (device.pendingRequest ++
                  [⟨⟨s.currentProcess, proc.serial⟩, buffer, size⟩])) := by
            simp only [Tables.modifyDevice, here, Option.map_some, Device.setPending]
          rw [← read.1]
          simp only [tables, appended]
          exact RunOf.single (Act.block buffer awake found held spec)
            ⟨rfl, allowed, by rw [← read.2, blocked]⟩
        · cases read
      · rw [if_neg passed] at read
        simp only [Except.ok.injEq, Prod.mk.injEq] at read
        have act := Act.done awake found spec
        rw [← read.1, State.note_tables, tables]
        exact RunOf.single act ⟨rfl, allowed, read.2⟩

theorem writeProcessWait_acts {s : State} (trap : Trap) (data size : Nat) (rights : Rights)
    (ret : Int) (awake : s.toTables.Awake s.currentProcess proc) :
    RunOf Act (CallLabel ⟨s.currentProcess, proc.serial⟩ rights ret) s.toTables
      (writeProcessWait s trap ⟨s.currentProcess, proc.serial⟩ data size).1.toTables := by
  simp only [writeProcessWait]
  split
  · exact RunOf.refl _
  · refine RunOf.single (Act.await awake ?_) rfl
    simp only [AwaitSpec]
    split
    · rfl
    · split
      · exact Or.inl rfl
      · exact Or.inr rfl

theorem writeDevice_acts {s s' : State} {trap : Trap} {slot : Slot} {buffer size : Nat} {ret : Int}
    {rights : Rights} (allowed : rights.signals)
    (awake : s.toTables.Awake s.currentProcess proc)
    (written : writeDevice s trap ⟨s.currentProcess, proc.serial⟩ slot buffer size =
      .ok (s', ret)) :
    RunOf Act (CallLabel ⟨s.currentProcess, proc.serial⟩ rights ret) s.toTables s'.toTables := by
  cases found : s.devices slot with
  | none => simp [writeDevice, found] at written
  | some device =>
      cases kind : device.input with
      | serialIo =>
          simp only [writeDevice, found, kind, Except.ok.injEq, Prod.mk.injEq] at written
          rw [← written.1]
          exact RunOf.refl _
      | vgaText =>
          simp only [writeDevice, found, kind, Except.ok.injEq, Prod.mk.injEq] at written
          rw [← written.1]
          exact RunOf.refl _
      | processWait =>
          simp only [writeDevice, found, kind, Except.ok.injEq] at written
          have acts := writeProcessWait_acts trap buffer size rights ret awake
          rwa [written] at acts
      | sleepDevice =>
          simp only [writeDevice, found, kind, Except.ok.injEq, writeSleepDevice] at written
          split at written
          · rw [Prod.mk.injEq] at written
            rw [← written.1]
            exact RunOf.refl _
          · rw [Prod.mk.injEq] at written
            rw [← written.1]
            exact RunOf.refl _
      | semaphore cnt =>
          simp only [writeDevice, found, kind, Except.ok.injEq, writeSemaphore,
            Prod.mk.injEq] at written
          rw [← written.1]
          exact RunOf.single (Act.signal found kind) allowed

theorem addObject_acts {obj : Object} {pos : Fd} {t' : Tables} (rights : Rights) (ret : Int)
    (awake : t.Awake pid proc) (present : ∀ slot, obj = .device slot → (t.devices slot).isSome)
    (added : t.addObject pid obj = some (pos, t')) :
    RunOf Act (CallLabel ⟨pid, proc.serial⟩ rights ret) t t' ∧
      t'.Awake pid (proc.bind pos (some obj)) := by
  simp only [Tables.addObject, awake.1, Option.bind_some, Option.map_eq_some_iff,
    Prod.mk.injEq] at added
  obtain ⟨place, chosen, rfl, rfl⟩ := added
  have empty := List.find?_some chosen
  simp only [decide_eq_true_eq] at empty
  refine ⟨RunOf.single (Act.attach awake empty.2 present) rfl, ?_, awake.2⟩
  rw [modify_processList, if_pos rfl, awake.1]
  rfl

theorem Fixtures.special_present (fixtures : Fixtures t) {path : List UInt8} {obj : Object}
    (special : specialPath path = some obj) :
    ∀ slot, obj = .device slot → (t.devices slot).isSome := by
  intro slot same
  simp only [specialPath, Option.map_eq_some_iff] at special
  obtain ⟨entry, chosen, rfl⟩ := special
  injection same with same
  have listed := List.mem_of_find?_eq_some chosen
  obtain ⟨_, com1⟩ := fixtures.com1
  obtain ⟨_, con⟩ := fixtures.con
  obtain ⟨_, wait⟩ := fixtures.wait
  obtain ⟨_, sleep⟩ := fixtures.sleep
  simp only [specialPaths, List.mem_cons, List.not_mem_nil, or_false] at listed
  rcases listed with rfl | rfl | rfl | rfl
  · simp [← same, com1]
  · simp [← same, con]
  · simp [← same, wait]
  · simp [← same, sleep]

theorem openHandler_acts {fs : FileSystem} {s s' : State} {filename : Nat} {ret : Int}
    (rights : Rights) (fixtures : Fixtures s.toTables)
    (awake : s.toTables.Awake s.currentProcess proc)
    (opened : openHandler fs s filename = .ok (s', ret)) :
    RunOf Act (CallLabel ⟨s.currentProcess, proc.serial⟩ rights ret) s.toTables s'.toTables := by
  cases special : specialPath (loadString s.mem filename) with
  | some obj =>
      cases added : s.toTables.addObject s.currentProcess obj with
      | none =>
          simp only [openHandler, special, added, Except.ok.injEq, Prod.mk.injEq] at opened
          rw [← opened.1]
          exact RunOf.refl _
      | some pair =>
          obtain ⟨pos, t⟩ := pair
          simp only [openHandler, special, added, Except.ok.injEq, Prod.mk.injEq] at opened
          rw [← opened.1]
          exact (addObject_acts rights ret awake (fixtures.special_present special) added).1
  | none =>
      cases file : fs.openFile (loadString s.mem filename) with
      | none =>
          simp only [openHandler, special, file, Except.ok.injEq, Prod.mk.injEq] at opened
          rw [← opened.1]
          exact RunOf.refl _
      | some image =>
          cases added : s.toTables.addObject s.currentProcess (.file s.files.length) with
          | none =>
              simp only [openHandler, special, file, added, Except.ok.injEq,
                Prod.mk.injEq] at opened
              rw [← opened.1]
              exact RunOf.refl _
          | some pair =>
              obtain ⟨pos, t⟩ := pair
              simp only [openHandler, special, file, added, Except.ok.injEq,
                Prod.mk.injEq] at opened
              rw [← opened.1]
              exact (addObject_acts rights ret awake (by intro slot same; cases same) added).1

theorem closeHandler_acts {s : State} (rights : Rights) (ret : Int) (fd : Nat)
    (awake : s.toTables.Awake s.currentProcess proc) :
    RunOf Act (CallLabel ⟨s.currentProcess, proc.serial⟩ rights ret) s.toTables
      (closeHandler s fd).toTables := by
  simp only [closeHandler]
  split
  · exact RunOf.single (Act.detach _ awake) rfl
  · exact RunOf.refl _

theorem getObject_ok {fd : Nat} {found : Option Object} (got : getObject proc fd = .ok found) :
    ∃ inside : fd < 128, proc.objects ⟨fd, inside⟩ = found := by
  simp only [getObject] at got
  split at got
  · next inside => exact ⟨inside, Except.ok.inj got⟩
  · cases got

theorem dup2Handler_acts {s s' : State} {oldfd newfd : Nat} {ret : Int} (rights : Rights)
    (queues : Queues s.toTables) (awake : s.toTables.Awake s.currentProcess proc)
    (dup : dup2Handler s proc oldfd newfd = .ok (s', ret)) :
    RunOf Act (CallLabel ⟨s.currentProcess, proc.serial⟩ rights ret) s.toTables s'.toTables := by
  by_cases same : oldfd = newfd
  · simp only [dup2Handler, same, if_true, Except.ok.injEq, Prod.mk.injEq] at dup
    rw [← dup.1]
    exact RunOf.refl _
  · simp only [dup2Handler, if_neg same] at dup
    cases got : getObject proc oldfd with
    | error stop => simp [got] at dup
    | ok found =>
        cases found with
        | none =>
            simp only [got, Except.ok.injEq, Prod.mk.injEq] at dup
            rw [← dup.1]
            exact RunOf.refl _
        | some obj =>
            simp only [got] at dup
            split at dup
            · next inside =>
                obtain ⟨old_inside, held⟩ := getObject_ok got
                simp only [Except.ok.injEq, Prod.mk.injEq] at dup
                rw [← dup.1]
                have removed := Act.detach ⟨newfd, inside⟩ awake
                have still := Awake.removeObject awake ⟨newfd, inside⟩
                have kept : Function.update proc.objects ⟨newfd, inside⟩ none
                    ⟨oldfd, old_inside⟩ = some obj := by
                  rw [Function.update_of_ne, held]
                  intro equal
                  exact same (congrArg Fin.val equal)
                refine RunOf.cons removed rfl ?_
                refine RunOf.single (Act.attach still (Function.update_self _ _ _) ?_) rfl
                intro slot equal
                apply (queues.act removed).present s.currentProcess ⟨oldfd, old_inside⟩ slot
                rw [Tables.objectAt, still.1, Option.bind_some]
                exact kept.trans (congrArg some equal)
            · simp only [Except.ok.injEq, Prod.mk.injEq] at dup
              rw [← dup.1]
              exact RunOf.refl _

theorem semCreateHandler_acts {s s' : State} {cnt : Nat} {ret : Int} (rights : Rights)
    (awake : s.toTables.Awake s.currentProcess proc)
    (made : semCreateHandler s cnt = .ok (s', ret)) :
    RunOf Act (CallLabel ⟨s.currentProcess, proc.serial⟩ rights ret) s.toTables s'.toTables := by
  cases chosen : s.toTables.freeDevice with
  | none => simp [semCreateHandler, chosen] at made
  | some slot =>
      have free : s.devices slot = none := by
        have empty := List.find?_some chosen
        exact Option.isNone_iff_eq_none.mp (by simpa using empty)
      have created := Act.newSem (toInt32 cnt) free
      have still : (s.toTables.newSemaphore slot (toInt32 cnt)).Awake s.currentProcess proc := awake
      cases added : (s.toTables.newSemaphore slot (toInt32 cnt)).addObject s.currentProcess
          (.device slot) with
      | none => simp [semCreateHandler, chosen, added] at made
      | some pair =>
          obtain ⟨pos, t⟩ := pair
          simp only [semCreateHandler, chosen, added, Except.ok.injEq, Prod.mk.injEq] at made
          rw [← made.1]
          refine RunOf.cons created trivial ?_
          apply (addObject_acts rights ret still _ added).1
          intro other same
          injection same with same
          simp [Tables.newSemaphore, ← same]

theorem loadSections_acts {content : List UInt8} {around : Surroundings} {sections : List Section}
    {index : Nat} {t' : Tables} {m m' : Mem} (rights : Rights) (ret : Int)
    (awake : t.Awake pid proc)
    (loaded : loadSections content around pid index sections t m = (t', m', true)) :
    RunOf Act (CallLabel ⟨pid, proc.serial⟩ rights ret) t t' ∧
      ∃ objects, t'.Awake pid { proc with objects := objects } := by
  induction sections generalizing index t m proc with
  | nil =>
      simp only [loadSections, Prod.mk.injEq] at loaded
      rw [← loaded.1]
      exact ⟨RunOf.refl _, proc.objects, awake⟩
  | cons sec rest ih =>
      simp only [loadSections] at loaded
      split at loaded
      · simp at loaded
      · next pos attached added =>
          obtain ⟨first, still⟩ := addObject_acts rights ret awake
            (by intro slot same; cases same) added
          obtain ⟨second, final⟩ := ih still loaded
          exact ⟨first.trans second, final⟩

/-- An executable that `execv` loads: it is found, both passes take it for an ELF file, the
table is stored, and every section passes the check of `exec`. -/
def Loads (fs : FileSystem) (path : List UInt8) (around : Surroundings) : Prop :=
  ∃ image table, fs.openFile path = some image ∧
    elfIdent (fileBytes image.content around 0) ∧
    storeSections (fileBytes image.content around 1)
      (countSections (fileBytes image.content around 0)) (staleTable around) = some table ∧
    ((List.range (countSections (fileBytes image.content around 0))).map table).all Section.fits

/-- The two ways `execv` returns: it failed and did nothing, or it loaded the file. -/
theorem execv_cases {fs : FileSystem} {place : Placement} {s s' : State} {path : List UInt8}
    {call : ExecCall} {around : Surroundings} {ret : Int}
    (run : execv fs place s pid path call around = .ok (s', ret)) :
    (s' = s ∧ (ret = enoent ∨ ret = enoexec)) ∨
      ret = 0 ∧ Loads fs path around ∧ ∃ content sections entry installed,
        install place s pid call content around sections entry = (installed, true) ∧
          s' = finishExec installed pid := by
  cases found : fs.openFile path with
  | none =>
      simp only [execv, found, Except.ok.injEq, Prod.mk.injEq] at run
      exact Or.inl ⟨run.1.symm, Or.inl run.2.symm⟩
  | some image =>
      simp only [execv, found] at run
      split at run
      · split at run
        · next ident =>
            split at run
            · split at run
              · split at run
                · cases run
                · next table stored =>
                    simp only [exec] at run
                    by_cases fits : ((List.range (countSections (fileBytes image.content around
                        0))).map table).all Section.fits
                    · rw [if_pos fits] at run
                      by_cases room : around.room 2
                      · rw [if_pos room] at run
                        cases built : install place s pid call image.content around
                            ((List.range (countSections (fileBytes image.content around 0))).map
                              table) (elfEntry (fileBytes image.content around 1)) with
                        | mk installed done =>
                            cases done with
                            | false => simp [built] at run
                            | true =>
                                simp only [built, Except.ok.injEq, Prod.mk.injEq] at run
                                exact Or.inr ⟨run.2.symm, ⟨image, table, found, ident, stored, fits⟩,
                                  _, _, _, installed, built, run.1.symm⟩
                      · rw [if_neg room] at run
                        cases run
                    · rw [if_neg fits] at run
                      simp only [Except.ok.injEq, Prod.mk.injEq] at run
                      exact Or.inl ⟨run.1.symm, Or.inr run.2.symm⟩
              · cases run
            · cases run
        · simp only [Except.ok.injEq, Prod.mk.injEq] at run
          exact Or.inl ⟨run.1.symm, Or.inr run.2.symm⟩
      · cases run

theorem Awake.wakeParent (awake : t.Awake pid proc) (ppid : Option Pid) :
    ∃ next, (t.wakeParent ppid).Awake pid next := by
  cases ppid with
  | none => exact ⟨proc, awake⟩
  | some parent =>
      by_cases same : pid = parent
      · refine ⟨proc.wake, ?_, ?_⟩
        · simp only [Tables.wakeParent, modify_processList, if_pos same, awake.1, Option.map_some]
        · simp only [Process.wake]
          split
          · rfl
          · exact awake.2
      · refine ⟨proc, ?_, awake.2⟩
        simp only [Tables.wakeParent, modify_processList, if_neg same]
        exact awake.1

theorem install_acts {place : Placement} {s installed : State} {call : ExecCall}
    {content : List UInt8} {around : Surroundings} {sections : List Section} {entry : Nat}
    {rights : Rights} (ret : Int) (awake : s.toTables.Awake pid proc) (allowed : rights.loads)
    (built : install place s pid call content around sections entry = (installed, true)) :
    RunOf Act (CallLabel ⟨pid, proc.serial⟩ rights ret) s.toTables installed.toTables ∧
      ∃ last, installed.toTables.Awake pid last ∧ last.serial = proc.serial := by
  simp only [install] at built
  obtain ⟨removed, objects, still⟩ := removeObjects_acts rights ret awake
    (fun pos => !keepsObject call.keepLow call.keepHigh pos)
  have reset := Act.regs (s.toTables.removeObjects pid fun pos =>
    !keepsObject call.keepLow call.keepHigh pos) pid (fun _ => startTss place pid entry)
  have ready : ((s.toTables.removeObjects pid fun pos =>
      !keepsObject call.keepLow call.keepHigh pos).modify pid
        (Process.setTss fun _ => startTss place pid entry)).Awake pid
          { proc with objects := objects, usermodeState := startTss place pid entry } := by
    refine ⟨?_, still.2⟩
    rw [modify_processList, if_pos rfl, still.1]
    rfl
  cases copied : loadSections content around pid 0 sections
      ((s.toTables.removeObjects pid fun pos =>
        !keepsObject call.keepLow call.keepHigh pos).modify pid
          fun proc => { proc with usermodeState := startTss place pid entry })
      (storeStack place pid call.args s.mem) with
  | mk t rest =>
      obtain ⟨m, done⟩ := rest
      rw [copied] at built
      simp only [Prod.mk.injEq] at built
      rw [built.2] at copied
      obtain ⟨attached, final, last⟩ := loadSections_acts rights ret ready copied
      rw [← built.1]
      exact ⟨removed.trans (RunOf.cons reset ⟨rfl, allowed⟩ attached), _, last, rfl⟩

theorem execv_acts {fs : FileSystem} {place : Placement} {s s' : State} {path : List UInt8}
    {call : ExecCall} {around : Surroundings} {ret : Int} {rights : Rights}
    (awake : s.toTables.Awake pid proc) (allowed : Loads fs path around → rights.loads)
    (run : execv fs place s pid path call around = .ok (s', ret)) :
    RunOf Act (CallLabel ⟨pid, proc.serial⟩ rights ret) s.toTables s'.toTables ∧
      ∃ next, s'.toTables.Awake pid next := by
  rcases execv_cases run with ⟨rfl, _⟩ | ⟨_, loads, content, sections, entry, installed, built, rfl⟩
  · exact ⟨RunOf.refl _, proc, awake⟩
  · obtain ⟨acts, last, ready, serial⟩ := install_acts ret awake (allowed loads) built
    have finished := Act.image ready
    simp only [finishExec, ready.1, restoreParent_tables]
    refine ⟨acts.trans (RunOf.single finished ⟨?_, allowed loads⟩), ?_⟩
    · rw [serial]
    · exact Awake.wakeParent (t := installed.toTables.note _) ready _

def rightsOf (fs : FileSystem) (s : State) (trap : Trap) (proc : Process) (callsys : Callsys) :
    Rights where
  spawns := callsys = .fork ∨ callsys = .thread
  exits := callsys = .exit
  loads := callsys = .exec ∧ Loads fs (loadString s.mem proc.usermodeState.ebx) trap.around
  reads := callsys = .read
  signals := callsys = .write

theorem map_ok {α β : Type} {first : Except Stop α} {f : α → β} {value : β}
    (mapped : first.map f = .ok value) : ∃ given, first = .ok given ∧ f given = value := by
  cases first with
  | error stop => cases mapped
  | ok given => exact ⟨given, rfl, Except.ok.inj mapped⟩

theorem map_error {α β : Type} {first : Except Stop α} {f : α → β} {stop : Stop}
    (failed : first.map f = .error stop) : first = .error stop := by
  cases first with
  | error other => exact congrArg Except.error (Except.error.inj failed)
  | ok value => cases failed

theorem applyHandler_fork {fs : FileSystem} {place : Placement} {s s' : State} {trap : Trap}
    {ret : Int} (applied : applyHandler fs place s trap proc .fork = .ok (s', ret)) :
    ∃ child, clone place s s.currentProcess .keepStack = .ok (s', child) ∧ ret = child.val := by
  obtain ⟨⟨next, child⟩, cloned, same⟩ := map_ok applied
  cases same
  exact ⟨child, cloned, rfl⟩

theorem applyHandler_thread {fs : FileSystem} {place : Placement} {s s' : State} {trap : Trap}
    {ret : Int} (applied : applyHandler fs place s trap proc .thread = .ok (s', ret)) :
    ∃ child, clone place s s.currentProcess
        (.newThread proc.usermodeState.ebx proc.usermodeState.ecx) = .ok (s', child) ∧
      ret = child.val := by
  obtain ⟨⟨next, child⟩, cloned, same⟩ := map_ok applied
  cases same
  exact ⟨child, cloned, rfl⟩

theorem applyHandler_schedYield {fs : FileSystem} {place : Placement} {s s' : State} {trap : Trap}
    {ret : Int} (applied : applyHandler fs place s trap proc .schedYield = .ok (s', ret)) :
    resche s = .ok s' ∧ ret = 0 := by
  obtain ⟨next, chosen, same⟩ := map_ok applied
  cases same
  exact ⟨chosen, rfl⟩

/-- Every handler is a sequence of acts of its caller. -/
theorem applyHandler_acts {fs : FileSystem} {place : Placement} {s s' : State} {trap : Trap}
    {callsys : Callsys} {ret : Int} (queues : Queues s.toTables) (fixtures : Fixtures s.toTables)
    (awake : s.toTables.Awake s.currentProcess proc)
    (applied : applyHandler fs place s trap proc callsys = .ok (s', ret)) :
    RunOf Act (CallLabel ⟨s.currentProcess, proc.serial⟩ (rightsOf fs s trap proc callsys) ret)
      s.toTables s'.toTables := by
  cases callsys with
  | exit =>
      simp only [applyHandler, Except.ok.injEq, Prod.mk.injEq] at applied
      rw [← applied.1]
      exact deleteProcess_acts ret awake _ rfl
  | fork =>
      obtain ⟨child, cloned, -⟩ := applyHandler_fork applied
      exact clone_acts ret (Or.inl rfl) awake cloned
  | thread =>
      obtain ⟨child, cloned, -⟩ := applyHandler_thread applied
      exact clone_acts ret (Or.inr rfl) awake cloned
  | read =>
      simp only [applyHandler, readHandler] at applied
      split at applied
      · cases applied
      · simp only [Except.ok.injEq, Prod.mk.injEq] at applied
        rw [← applied.1]
        exact RunOf.refl _
      · next slot got =>
          obtain ⟨inside, held⟩ := getObject_ok got
          exact readDevice_acts rfl awake held applied
      · simp only [Except.ok.injEq, readFile] at applied
        split at applied
        · simp only [Prod.mk.injEq] at applied
          rw [← applied.1]
          exact RunOf.refl _
        · simp only [Prod.mk.injEq] at applied
          rw [← applied.1]
          exact RunOf.refl _
      · simp only [Except.ok.injEq, Prod.mk.injEq] at applied
        rw [← applied.1]
        exact RunOf.refl _
  | write =>
      simp only [applyHandler, writeHandler] at applied
      split at applied
      · cases applied
      · exact writeDevice_acts rfl awake applied
      · simp only [Except.ok.injEq, Prod.mk.injEq] at applied
        rw [← applied.1]
        exact RunOf.refl _
  | openFile => exact openHandler_acts _ fixtures awake applied
  | close =>
      simp only [applyHandler, Except.ok.injEq, Prod.mk.injEq] at applied
      rw [← applied.1]
      exact closeHandler_acts _ ret _ awake
  | exec =>
      have allowed : Loads fs (loadString s.mem proc.usermodeState.ebx) trap.around →
          (rightsOf fs s trap proc .exec).loads := fun loads => ⟨rfl, loads⟩
      exact (execv_acts awake allowed applied).1
  | dup2 => exact dup2Handler_acts _ queues awake applied
  | schedYield =>
      obtain ⟨chosen, -⟩ := applyHandler_schedYield applied
      simp only [resche] at chosen
      split at chosen
      · cases chosen
      · rw [← Except.ok.inj chosen]
        exact RunOf.refl _
  | semCreate => exact semCreateHandler_acts _ awake applied
  | readdir =>
      simp only [applyHandler, readdirHandler] at applied
      split at applied
      · cases applied
      · split at applied
        · simp only [Except.ok.injEq, Prod.mk.injEq] at applied
          rw [← applied.1]
          exact RunOf.refl _
        · split at applied
          · simp only [Except.ok.injEq, Prod.mk.injEq] at applied
            rw [← applied.1]
            exact RunOf.refl _
          · simp only [Except.ok.injEq, Prod.mk.injEq] at applied
            rw [← applied.1]
            exact RunOf.refl _
      · simp only [Except.ok.injEq, Prod.mk.injEq] at applied
        rw [← applied.1]
        exact RunOf.refl _
  | hlt =>
      simp only [applyHandler, Except.ok.injEq, Prod.mk.injEq] at applied
      rw [← applied.1]
      exact RunOf.refl _

end SysImpl.Kernel
