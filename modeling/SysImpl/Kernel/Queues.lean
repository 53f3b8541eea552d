import SysImpl.Kernel.Acts

/-! The queues of pending reads and the processes asleep in them.

A process sleeps either because it waits in exactly one queue or because its stack is
kept for the child it forked, and never both. A waiting process holds the device it
waits on, so the device outlives the wait. -/

namespace SysImpl.Kernel

open Runs

def Process.life (proc : Process) : Nat × ProcessState × Bool :=
  (proc.serial, proc.processState, proc.stackBackup.isSome)

structure Queues (t : Tables) : Prop where
  serials : ∀ pid proc, t.processList pid = some proc → proc.serial < t.nextSerial
  asleep : ∀ pid proc, t.processList pid = some proc → proc.stackBackup.isSome →
    proc.processState = .sleeping
  queued : ∀ slot, ∀ req ∈ t.pendingAt slot, ∃ proc, t.processList req.proc.pid = some proc ∧
    proc.life = (req.proc.serial, .sleeping, false)
  held : ∀ slot, ∀ req ∈ t.pendingAt slot,
    ∃ pos, t.objectAt req.proc.pid pos = some (.device slot)
  waiting : ∀ pid proc, t.processList pid = some proc → proc.processState = .sleeping →
    proc.stackBackup.isSome = false →
      ∃ slot, ∃ req ∈ t.pendingAt slot, req.proc = ⟨pid, proc.serial⟩
  nodup : ∀ slot, ((t.pendingAt slot).map PendingRead.proc).Nodup
  apart : ∀ slot other, ∀ req ∈ t.pendingAt slot, ∀ req' ∈ t.pendingAt other,
    req.proc = req'.proc → slot = other
  present : ∀ pid pos slot, t.objectAt pid pos = some (.device slot) → (t.devices slot).isSome

variable {t t' : Tables} {pid : Pid} {proc : Process}

theorem Queues.awake_not_queued (queues : Queues t) (awake : t.Awake pid proc) (slot : Slot) :
    ∀ req ∈ t.pendingAt slot, req.proc.pid ≠ pid := by
  intro req member same
  obtain ⟨other, found, life⟩ := queues.queued slot req member
  rw [same, awake.1, Option.some.injEq] at found
  rw [← found, Process.life, awake.2] at life
  simp at life

/-- A change that keeps lives and the requests in the queues keeps the invariant, as long
as no waiting process loses its device. -/
theorem Queues.of_same (queues : Queues t) (serial : t.nextSerial ≤ t'.nextSerial)
    (pending : ∀ slot, (t'.pendingAt slot).Perm (t.pendingAt slot))
    (lives : ∀ pid, (t'.processList pid).map Process.life = (t.processList pid).map Process.life)
    (held : ∀ slot, ∀ req ∈ t.pendingAt slot,
      ∃ pos, t'.objectAt req.proc.pid pos = some (.device slot))
    (present : ∀ pid pos slot, t'.objectAt pid pos = some (.device slot) →
      (t'.devices slot).isSome) : Queues t' := by
  have back : ∀ pid proc, t'.processList pid = some proc →
      ∃ old, t.processList pid = some old ∧ old.life = proc.life := by
    intro pid proc found
    have same := lives pid
    rw [found, Option.map_some] at same
    obtain ⟨old, found, equal⟩ := Option.map_eq_some_iff.mp same.symm
    exact ⟨old, found, equal⟩
  constructor
  · intro pid proc found
    obtain ⟨old, before, equal⟩ := back pid proc found
    have bound := queues.serials pid old before
    simp only [Process.life, Prod.mk.injEq] at equal
    omega
  · intro pid proc found backup
    obtain ⟨old, before, equal⟩ := back pid proc found
    simp only [Process.life, Prod.mk.injEq] at equal
    rw [← equal.2.1]
    exact queues.asleep pid old before (by rw [equal.2.2]; exact backup)
  · intro slot req member
    obtain ⟨old, before, life⟩ := queues.queued slot req ((pending slot).mem_iff.mp member)
    have same := lives req.proc.pid
    rw [before, Option.map_some] at same
    obtain ⟨proc, found, equal⟩ := Option.map_eq_some_iff.mp same
    exact ⟨proc, found, equal.trans life⟩
  · intro slot req member
    exact held slot req ((pending slot).mem_iff.mp member)
  · intro pid proc found sleeping backup
    obtain ⟨old, before, equal⟩ := back pid proc found
    simp only [Process.life, Prod.mk.injEq] at equal
    obtain ⟨slot, req, member, same⟩ := queues.waiting pid old before
      (equal.2.1.trans sleeping) (equal.2.2.trans backup)
    exact ⟨slot, req, (pending slot).mem_iff.mpr member, by rw [same, equal.1]⟩
  · intro slot
    exact ((pending slot).map _).nodup_iff.mpr (queues.nodup slot)
  · intro slot other req member req' member'
    exact queues.apart slot other req ((pending slot).mem_iff.mp member) req'
      ((pending other).mem_iff.mp member')
  · exact present

theorem pendingAt_modifyDevice (slot other : Slot) (f : Device → Device) :
    (t.modifyDevice slot f).pendingAt other =
      if other = slot then ((t.devices other).map fun device => (f device).pendingRequest).getD []
      else t.pendingAt other := by
  by_cases same : other = slot
  · simp [Tables.pendingAt, modifyDevice_devices, same, Function.comp_def]
  · simp [Tables.pendingAt, modifyDevice_devices, same]

theorem pendingAt_of_some {slot : Slot} {device : Device} (found : t.devices slot = some device) :
    t.pendingAt slot = device.pendingRequest := by
  simp [Tables.pendingAt, found]

theorem objectAt_modify (other : Pid) (pos : Fd) (f : Process → Process) :
    (t.modify pid f).objectAt other pos =
      if other = pid then (t.processList other).bind fun proc => (f proc).objects pos
      else t.objectAt other pos := by
  by_cases same : other = pid
  · simp [Tables.objectAt, modify_processList, same, Option.bind_map]
  · simp [Tables.objectAt, modify_processList, same]

theorem Queues.modify_same (queues : Queues t) (pid : Pid) {f : Process → Process}
    (life : ∀ proc, (f proc).life = proc.life) (objects : ∀ proc, (f proc).objects = proc.objects) :
    Queues (t.modify pid f) := by
  have same_objects : ∀ other pos, (t.modify pid f).objectAt other pos = t.objectAt other pos := by
    intro other pos
    rw [objectAt_modify]
    split
    · simp only [objects]
      rfl
    · rfl
  apply queues.of_same
  · exact Nat.le_refl _
  · intro slot
    exact List.Perm.refl _
  · intro other
    rw [modify_processList]
    split
    · rw [Option.map_map]
      congr 1
      funext proc
      exact life proc
    · rfl
  · intro slot req member
    obtain ⟨pos, found⟩ := queues.held slot req member
    exact ⟨pos, (same_objects _ _).trans found⟩
  · intro other pos slot found
    rw [same_objects] at found
    exact queues.present other pos slot found

theorem Queues.modifyDevice_same (queues : Queues t) (slot : Slot) {f : Device → Device}
    (pending : ∀ device, (f device).pendingRequest = device.pendingRequest) :
    Queues (t.modifyDevice slot f) := by
  apply queues.of_same
  · exact Nat.le_refl _
  · intro other
    apply List.Perm.of_eq
    rw [pendingAt_modifyDevice]
    split
    · simp only [pending]
      rfl
    · rfl
  · intro other
    rfl
  · exact queues.held
  · intro other pos found_slot found
    have some := queues.present other pos found_slot found
    rw [modifyDevice_devices]
    split
    · rwa [Option.isSome_map]
    · exact some

theorem Queues.note (queues : Queues t) (event : Event) : Queues (t.note event) :=
  ⟨queues.serials, queues.asleep, queues.queued, queues.held, queues.waiting, queues.nodup,
    queues.apart, queues.present⟩

theorem Queues.of_waits (queues : Queues t) (reqs : Pid → WaitReq) (codes : Pid → Nat) :
    Queues { t with reqs := reqs, lastExitCode := codes } :=
  ⟨queues.serials, queues.asleep, queues.queued, queues.held, queues.waiting, queues.nodup,
    queues.apart, queues.present⟩

theorem Queues.awake_no_backup (queues : Queues t) (awake : t.Awake pid proc) :
    proc.stackBackup.isSome = false := by
  cases backup : proc.stackBackup.isSome with
  | false => rfl
  | true =>
      have sleeping := queues.asleep pid proc awake.1 backup
      rw [awake.2] at sleeping
      cases sleeping

theorem Queues.same_proc (queues : Queues t) {slot other : Slot} {req req' : PendingRead}
    (member : req ∈ t.pendingAt slot) (member' : req' ∈ t.pendingAt other)
    (same : req.proc.pid = req'.proc.pid) : req.proc = req'.proc := by
  obtain ⟨one, found, life⟩ := queues.queued slot req member
  obtain ⟨two, found', life'⟩ := queues.queued other req' member'
  rw [same, found', Option.some.injEq] at found
  rw [found, life, Prod.mk.injEq] at life'
  cases first : req.proc
  cases second : req'.proc
  simp_all

theorem modifyDevice_self {slot : Slot} {f : Device → Device}
    (fixed : ∀ device, t.devices slot = some device → f device = device) :
    t.modifyDevice slot f = t := by
  have same : (t.devices slot).map f = t.devices slot := by
    cases found : t.devices slot with
    | none => rfl
    | some device => rw [Option.map_some, fixed device found]
  rw [Tables.modifyDevice, same, Tables.setDevice, Function.update_eq_self]

/-- A running process is in no queue, so giving up an object touches none. -/
theorem Queues.onRemovedByOwner (queues : Queues t) (awake : t.Awake pid proc) (obj : Object) :
    t.onRemovedByOwner ⟨pid, proc.serial⟩ obj = t := by
  cases obj with
  | file id => rfl
  | segment base size => rfl
  | device slot =>
      apply modifyDevice_self
      intro device found
      have absent : device.pendingRequest.eraseP
          (fun req => req.proc = (⟨pid, proc.serial⟩ : ProcPtr)) = device.pendingRequest := by
        apply List.eraseP_of_forall_not
        intro req member same
        rw [← pendingAt_of_some found] at member
        exact queues.awake_not_queued awake slot req member (by rw [of_decide_eq_true same])
      rw [absent]

theorem Queues.bind (queues : Queues t) (awake : t.Awake pid proc) (pos : Fd) (obj : Option Object)
    (present : ∀ slot, obj = some (.device slot) → (t.devices slot).isSome) :
    Queues (t.modify pid (Process.bind pos obj)) := by
  apply queues.of_same
  · exact Nat.le_refl _
  · intro slot
    exact List.Perm.refl _
  · intro other
    rw [modify_processList]
    split
    · rw [Option.map_map]
      rfl
    · rfl
  · intro slot req member
    obtain ⟨held, found⟩ := queues.held slot req member
    refine ⟨held, ?_⟩
    rw [objectAt_modify, if_neg (queues.awake_not_queued awake slot req member)]
    exact found
  · intro other place slot found
    rw [objectAt_modify] at found
    split at found
    · next same =>
        subst same
        rw [awake.1, Option.bind_some] at found
        change Function.update proc.objects pos obj place = _ at found
        by_cases here : place = pos
        · rw [here, Function.update_self] at found
          exact present slot found
        · rw [Function.update_of_ne here] at found
          exact queues.present other place slot (by rw [Tables.objectAt, awake.1]; exact found)
    · exact queues.present other place slot found

theorem Queues.dropReference (queues : Queues t) (obj : Object) : Queues (t.dropReference obj) := by
  cases obj with
  | file id => exact queues
  | segment base size => exact queues
  | device slot =>
      simp only [Tables.dropReference]
      split
      · next unused =>
          have empty : t.pendingAt slot = [] := by
            apply List.eq_nil_iff_forall_not_mem.mpr
            intro req member
            obtain ⟨pos, found⟩ := queues.held slot req member
            exact unused.2 ⟨_, pos, found⟩
          apply queues.of_same
          · exact Nat.le_refl _
          · intro other
            apply List.Perm.of_eq
            by_cases same : other = slot
            · rw [same, empty]
              simp [Tables.pendingAt]
            · simp [Tables.pendingAt, same]
          · intro other
            rfl
          · exact queues.held
          · intro other pos place found
            have differs : place ≠ slot := by
              intro same
              rw [same] at found
              exact unused.2 ⟨other, pos, found⟩
            rw [setDevice_devices, Function.update_of_ne differs]
            exact queues.present other pos place found
      · exact queues

theorem Queues.removeObject (queues : Queues t) (awake : t.Awake pid proc) (pos : Fd) :
    Queues (t.removeObject pid pos) := by
  cases held : proc.objects pos with
  | none =>
      simp only [Tables.removeObject, awake.1, held]
      exact queues
  | some obj =>
      simp only [Tables.removeObject, awake.1, held, queues.onRemovedByOwner awake obj]
      apply Queues.dropReference
      exact queues.bind awake pos none (by intro slot impossible; cases impossible)

theorem Process.wake_life_of_no_backup {proc : Process} (none : proc.stackBackup.isSome = false) :
    proc.wake = proc := by
  rw [Process.wake, none]
  rfl

theorem Queues.wakeParent (queues : Queues t) (ppid : Option Pid) :
    Queues (t.wakeParent ppid) := by
  cases ppid with
  | none => exact queues
  | some parent =>
      have woken : ∀ proc : Process, proc.wake.serial = proc.serial ∧
          proc.wake.objects = proc.objects ∧
          (proc.wake.stackBackup.isSome = false) ∧
          (proc.stackBackup.isSome = true → proc.wake.processState = .runnable) := by
        intro proc
        by_cases backup : proc.stackBackup.isSome
        · simp [Process.wake, Process.clearBackup, backup]
        · simp only [Bool.not_eq_true] at backup
          rw [Process.wake_life_of_no_backup backup]
          simp [backup]
      have back : ∀ other proc, (t.wakeParent (some parent)).processList other = some proc →
          ∃ old, t.processList other = some old ∧ (proc = old ∨ other = parent ∧ proc = old.wake) := by
        intro other proc found
        rw [Tables.wakeParent, modify_processList] at found
        split at found
        · next same =>
            obtain ⟨old, before, equal⟩ := Option.map_eq_some_iff.mp found
            exact ⟨old, before, Or.inr ⟨same, equal.symm⟩⟩
        · exact ⟨proc, found, Or.inl rfl⟩
      have objects : ∀ other pos,
          (t.wakeParent (some parent)).objectAt other pos = t.objectAt other pos := by
        intro other pos
        rw [Tables.wakeParent, objectAt_modify]
        split
        · simp only [(woken _).2.1]
          rfl
        · rfl
      constructor
      · intro other proc found
        obtain ⟨old, before, rfl | ⟨_, rfl⟩⟩ := back other proc found
        · exact queues.serials other proc before
        · rw [(woken old).1]
          exact queues.serials other old before
      · intro other proc found backup
        obtain ⟨old, before, rfl | ⟨_, rfl⟩⟩ := back other proc found
        · exact queues.asleep other proc before backup
        · rw [(woken old).2.2.1] at backup
          cases backup
      · intro slot req member
        obtain ⟨old, before, life⟩ := queues.queued slot req member
        have backup : old.stackBackup.isSome = false := by
          simp only [Process.life, Prod.mk.injEq] at life
          exact life.2.2
        refine ⟨old, ?_, life⟩
        rw [Tables.wakeParent, modify_processList, before, Option.map_some,
          Process.wake_life_of_no_backup backup]
        simp
      · intro slot req member
        obtain ⟨pos, found⟩ := queues.held slot req member
        exact ⟨pos, (objects _ _).trans found⟩
      · intro other proc found sleeping backup
        obtain ⟨old, before, rfl | ⟨_, rfl⟩⟩ := back other proc found
        · exact queues.waiting other proc before sleeping backup
        · cases kept : old.stackBackup.isSome with
          | true =>
              rw [(woken old).2.2.2 kept] at sleeping
              cases sleeping
          | false =>
              rw [Process.wake_life_of_no_backup kept] at sleeping ⊢
              exact queues.waiting other old before sleeping kept
      · exact queues.nodup
      · exact queues.apart
      · intro other pos slot found
        rw [objects] at found
        exact queues.present other pos slot found

theorem Queues.spawn (queues : Queues t) {child : Pid} {newborn : Process}
    (free : t.processList child = none) (life : newborn.life = (t.nextSerial, .runnable, false))
    (present : ∀ pos slot, newborn.objects pos = some (.device slot) → (t.devices slot).isSome) :
    Queues (({ t with nextSerial := t.nextSerial + 1 } : Tables).setProcess child
      (some newborn)) := by
  simp only [Process.life, Prod.mk.injEq] at life
  have occupied : ∀ other old, t.processList other = some old → other ≠ child := by
    intro other old found same
    rw [same, free] at found
    cases found
  constructor
  · intro other proc found
    by_cases same : other = child
    · simp only [setProcess_processList, same, Function.update_self, Option.some.injEq] at found
      simp only [setProcess_nextSerial, ← found, life.1]
      omega
    · simp only [setProcess_processList, ne_eq, same, not_false_eq_true,
        Function.update_of_ne] at found
      have bound := queues.serials other proc found
      simp only [setProcess_nextSerial]
      omega
  · intro other proc found backup
    by_cases same : other = child
    · simp only [setProcess_processList, same, Function.update_self, Option.some.injEq] at found
      rw [← found, life.2.2] at backup
      cases backup
    · simp only [setProcess_processList, ne_eq, same, not_false_eq_true,
        Function.update_of_ne] at found
      exact queues.asleep other proc found backup
  · intro slot req member
    obtain ⟨old, before, same⟩ := queues.queued slot req member
    refine ⟨old, ?_, same⟩
    rw [setProcess_processList, Function.update_of_ne (occupied _ _ before)]
    exact before
  · intro slot req member
    obtain ⟨old, before, _⟩ := queues.queued slot req member
    obtain ⟨pos, found⟩ := queues.held slot req member
    refine ⟨pos, ?_⟩
    rw [Tables.objectAt, setProcess_processList, Function.update_of_ne (occupied _ _ before)]
    exact found
  · intro other proc found sleeping backup
    by_cases same : other = child
    · simp only [setProcess_processList, same, Function.update_self, Option.some.injEq] at found
      rw [← found, life.2.1] at sleeping
      cases sleeping
    · simp only [setProcess_processList, ne_eq, same, not_false_eq_true,
        Function.update_of_ne] at found
      exact queues.waiting other proc found sleeping backup
  · exact queues.nodup
  · exact queues.apart
  · intro other pos slot found
    by_cases same : other = child
    · simp only [Tables.objectAt, setProcess_processList, same, Function.update_self,
        Option.bind_some] at found
      exact present pos slot found
    · simp only [Tables.objectAt, setProcess_processList, ne_eq, same, not_false_eq_true,
        Function.update_of_ne] at found
      exact queues.present other pos slot found

theorem Queues.vacate (queues : Queues t) (awake : t.Awake pid proc) :
    Queues (t.setProcess pid none) := by
  have kept : ∀ other old, (t.setProcess pid none).processList other = some old →
      t.processList other = some old := by
    intro other old found
    by_cases same : other = pid
    · simp [same] at found
    · simpa [same] using found
  have others : ∀ slot, ∀ req ∈ t.pendingAt slot, req.proc.pid ≠ pid :=
    queues.awake_not_queued awake
  constructor
  · intro other old found
    exact queues.serials other old (kept other old found)
  · intro other old found
    exact queues.asleep other old (kept other old found)
  · intro slot req member
    obtain ⟨old, before, life⟩ := queues.queued slot req member
    refine ⟨old, ?_, life⟩
    rw [setProcess_processList, Function.update_of_ne (others slot req member)]
    exact before
  · intro slot req member
    obtain ⟨pos, found⟩ := queues.held slot req member
    refine ⟨pos, ?_⟩
    rw [Tables.objectAt, setProcess_processList, Function.update_of_ne (others slot req member)]
    exact found
  · intro other old found
    exact queues.waiting other old (kept other old found)
  · exact queues.nodup
  · exact queues.apart
  · intro other pos slot found
    apply queues.present other pos slot
    obtain ⟨old, found, held⟩ := Option.bind_eq_some_iff.mp found
    rw [Tables.objectAt, kept other old found]
    exact held

theorem Queues.keepStack (queues : Queues t) (awake : t.Awake pid proc) (m : Bytes.Mem) :
    Queues (t.modify pid (Process.keepStack m)) := by
  have others : ∀ slot, ∀ req ∈ t.pendingAt slot, req.proc.pid ≠ pid :=
    queues.awake_not_queued awake
  have back : ∀ other new, (t.modify pid (Process.keepStack m)).processList other = some new →
      other ≠ pid ∧ t.processList other = some new ∨ other = pid ∧ new = proc.keepStack m := by
    intro other new found
    rw [modify_processList] at found
    split at found
    · next same =>
        rw [same, awake.1, Option.map_some, Option.some.injEq] at found
        exact Or.inr ⟨same, found.symm⟩
    · next differs => exact Or.inl ⟨differs, found⟩
  constructor
  · intro other new found
    rcases back other new found with ⟨_, before⟩ | ⟨_, rfl⟩
    · exact queues.serials other new before
    · exact queues.serials pid proc awake.1
  · intro other new found backup
    rcases back other new found with ⟨_, before⟩ | ⟨_, rfl⟩
    · exact queues.asleep other new before backup
    · rfl
  · intro slot req member
    obtain ⟨old, before, life⟩ := queues.queued slot req member
    refine ⟨old, ?_, life⟩
    rw [modify_processList, if_neg (others slot req member)]
    exact before
  · intro slot req member
    obtain ⟨pos, found⟩ := queues.held slot req member
    refine ⟨pos, ?_⟩
    rw [objectAt_modify, if_neg (others slot req member)]
    exact found
  · intro other new found sleeping backup
    rcases back other new found with ⟨_, before⟩ | ⟨_, rfl⟩
    · exact queues.waiting other new before sleeping backup
    · simp [Process.keepStack] at backup
  · exact queues.nodup
  · exact queues.apart
  · intro other pos slot found
    apply queues.present other pos slot
    obtain ⟨new, found, held⟩ := Option.bind_eq_some_iff.mp found
    rcases back other new found with ⟨_, before⟩ | ⟨rfl, rfl⟩
    · rw [Tables.objectAt, before]
      exact held
    · rw [Tables.objectAt, awake.1]
      exact held

theorem pendingAt_block {slot : Slot} {device : Device} (found : t.devices slot = some device)
    (req : PendingRead) (pid : Pid) (place : Slot) :
    ((t.modifyDevice slot (Device.setPending (device.pendingRequest ++ [req]))).modify pid
        (Process.setProcessState .sleeping)).pendingAt place =
      if place = slot then t.pendingAt slot ++ [req] else t.pendingAt place := by
  change (t.modifyDevice slot _).pendingAt place = _
  rw [pendingAt_modifyDevice]
  by_cases same : place = slot
  · simp [same, found, pendingAt_of_some found, Device.setPending]
  · simp [same]

theorem Queues.block (queues : Queues t) (awake : t.Awake pid proc) {slot : Slot} {device : Device}
    {pos : Fd} {buffer size : Nat} (found : t.devices slot = some device)
    (held : proc.objects pos = some (.device slot)) :
    Queues ((t.modifyDevice slot (Device.setPending
      (device.pendingRequest ++ [⟨⟨pid, proc.serial⟩, buffer, size⟩]))).modify pid
        (Process.setProcessState .sleeping)) := by
  have others : ∀ place, ∀ req ∈ t.pendingAt place, req.proc.pid ≠ pid :=
    queues.awake_not_queued awake
  have backup := queues.awake_no_backup awake
  have pending := pendingAt_block found ⟨⟨pid, proc.serial⟩, buffer, size⟩ pid
  generalize after : (t.modifyDevice slot (Device.setPending
    (device.pendingRequest ++ [⟨⟨pid, proc.serial⟩, buffer, size⟩]))).modify pid
      (Process.setProcessState .sleeping) = t' at *
  have life : ∀ other, other ≠ pid → t'.processList other = t.processList other := by
    intro other differs
    rw [← after, modify_processList, if_neg differs]
    rfl
  have here : t'.processList pid = some (proc.setProcessState .sleeping) := by
    rw [← after, modify_processList, if_pos rfl, modifyDevice_processList, awake.1]
    rfl
  have cases_of : ∀ place, ∀ req ∈ t'.pendingAt place,
      req ∈ t.pendingAt place ∨ place = slot ∧ req = ⟨⟨pid, proc.serial⟩, buffer, size⟩ := by
    intro place req member
    rw [pending] at member
    by_cases same : place = slot
    · rw [if_pos same] at member
      rcases List.mem_append.mp member with old | new
      · exact Or.inl (by rwa [same])
      · exact Or.inr ⟨same, List.mem_singleton.mp new⟩
    · rw [if_neg same] at member
      exact Or.inl member
  have objects : ∀ other place, t'.objectAt other place = t.objectAt other place := by
    intro other place
    by_cases same : other = pid
    · rw [same, Tables.objectAt, here, Tables.objectAt, awake.1]
      rfl
    · rw [Tables.objectAt, life other same]
      rfl
  constructor
  · intro other new known
    have bound : t'.nextSerial = t.nextSerial := by
      rw [← after]
      rfl
    rw [bound]
    by_cases same : other = pid
    · rw [same, here, Option.some.injEq] at known
      rw [← known]
      exact queues.serials pid proc awake.1
    · rw [life other same] at known
      exact queues.serials other new known
  · intro other new known kept
    by_cases same : other = pid
    · rw [same, here, Option.some.injEq] at known
      rw [← known]
      rfl
    · rw [life other same] at known
      exact queues.asleep other new known kept
  · intro place req member
    rcases cases_of place req member with old | ⟨_, rfl⟩
    · obtain ⟨sleeper, known, equal⟩ := queues.queued place req old
      exact ⟨sleeper, by rw [life _ (others place req old)]; exact known, equal⟩
    · refine ⟨_, here, ?_⟩
      simp [Process.life, Process.setProcessState, backup]
  · intro place req member
    rcases cases_of place req member with old | ⟨rfl, rfl⟩
    · obtain ⟨at_pos, known⟩ := queues.held place req old
      exact ⟨at_pos, (objects _ _).trans known⟩
    · refine ⟨pos, (objects _ _).trans ?_⟩
      rw [Tables.objectAt, awake.1]
      exact held
  · intro other new known sleeping kept
    by_cases same : other = pid
    · rw [same, here, Option.some.injEq] at known
      refine ⟨slot, ⟨⟨pid, proc.serial⟩, buffer, size⟩, ?_, ?_⟩
      · rw [pending, if_pos rfl]
        simp
      · rw [same, ← known]
        rfl
    · rw [life other same] at known
      obtain ⟨place, req, member, equal⟩ := queues.waiting other new known sleeping kept
      refine ⟨place, req, ?_, equal⟩
      rw [pending]
      by_cases here : place = slot
      · rw [if_pos here, ← here]
        exact List.mem_append_left _ member
      · rwa [if_neg here]
  · intro place
    rw [pending]
    split
    · rw [List.map_append, List.map_cons, List.map_nil]
      refine List.Nodup.append (queues.nodup slot) (List.nodup_singleton _) ?_
      intro p first second
      obtain ⟨req, member, rfl⟩ := List.mem_map.mp first
      exact others slot req member (by rw [List.mem_singleton.mp second])
    · exact queues.nodup place
  · intro place other req member req' member' same
    rcases cases_of place req member with old | ⟨rfl, rfl⟩
    · rcases cases_of other req' member' with old' | ⟨rfl, rfl⟩
      · exact queues.apart place other req old req' old' same
      · exact absurd (by rw [same]) (others place req old)
    · rcases cases_of other req' member' with old' | ⟨rfl, rfl⟩
      · exact absurd (by rw [← same]) (others other req' old')
      · rfl
  · intro other place at_slot known
    rw [objects] at known
    have some := queues.present other place at_slot known
    rw [← after, modify_devices, modifyDevice_devices]
    split
    · rwa [Option.isSome_map]
    · exact some

theorem Queues.of_serve (queues : Queues t) {slot : Slot} {now : PendingRead}
    {rest : List PendingRead} (queue : t.pendingAt slot = now :: rest)
    (serial : t'.nextSerial = t.nextSerial)
    (pending : ∀ place, t'.pendingAt place = if place = slot then rest else t.pendingAt place)
    (others : ∀ other, other ≠ now.proc.pid → t'.processList other = t.processList other)
    (served : ∀ old, t.processList now.proc.pid = some old → ∃ new,
      t'.processList now.proc.pid = some new ∧
        new.life = (old.serial, .runnable, old.stackBackup.isSome) ∧ new.objects = old.objects)
    (devices : ∀ place, (t.devices place).isSome → (t'.devices place).isSome) : Queues t' := by
  have first : now ∈ t.pendingAt slot := by simp [queue]
  obtain ⟨sleeper, known, life⟩ := queues.queued slot now first
  obtain ⟨new, found, new_life, new_objects⟩ := served sleeper known
  simp only [Process.life, Prod.mk.injEq] at life new_life
  have objects : ∀ other place, t'.objectAt other place = t.objectAt other place := by
    intro other place
    by_cases same : other = now.proc.pid
    · simp [Tables.objectAt, same, known, found, new_objects]
    · simp [Tables.objectAt, others other same]
  have still : ∀ place, ∀ req ∈ t'.pendingAt place, req ∈ t.pendingAt place := by
    intro place req member
    rw [pending] at member
    by_cases same : place = slot
    · rw [if_pos same] at member
      rw [same, queue]
      exact List.mem_cons_of_mem _ member
    · rwa [if_neg same] at member
  have differs : ∀ place, ∀ req ∈ t'.pendingAt place, req.proc ≠ now.proc := by
    intro place req member same
    have here := queues.apart place slot req (still place req member) now first same
    rw [pending, if_pos here] at member
    have unique := queues.nodup slot
    rw [queue, List.map_cons, List.nodup_cons] at unique
    exact unique.1 (List.mem_map.mpr ⟨req, member, same⟩)
  have away : ∀ place, ∀ req ∈ t'.pendingAt place, req.proc.pid ≠ now.proc.pid := by
    intro place req member same
    exact differs place req member (queues.same_proc (still place req member) first same)
  constructor
  · intro other proc at_other
    rw [serial]
    by_cases same : other = now.proc.pid
    · rw [same, found, Option.some.injEq] at at_other
      rw [← at_other, new_life.1]
      exact queues.serials _ sleeper known
    · rw [others other same] at at_other
      exact queues.serials other proc at_other
  · intro other proc at_other backup
    by_cases same : other = now.proc.pid
    · rw [same, found, Option.some.injEq] at at_other
      rw [← at_other, new_life.2.2, life.2.2] at backup
      cases backup
    · rw [others other same] at at_other
      exact queues.asleep other proc at_other backup
  · intro place req member
    obtain ⟨old, before, equal⟩ := queues.queued place req (still place req member)
    exact ⟨old, by rw [others _ (away place req member)]; exact before, equal⟩
  · intro place req member
    obtain ⟨pos, held⟩ := queues.held place req (still place req member)
    exact ⟨pos, (objects _ _).trans held⟩
  · intro other proc at_other sleeping backup
    by_cases same : other = now.proc.pid
    · rw [same, found, Option.some.injEq] at at_other
      rw [← at_other, new_life.2.1] at sleeping
      cases sleeping
    · rw [others other same] at at_other
      obtain ⟨place, req, member, equal⟩ := queues.waiting other proc at_other sleeping backup
      refine ⟨place, req, ?_, equal⟩
      rw [pending]
      by_cases here : place = slot
      · rw [if_pos here]
        rw [here, queue] at member
        rcases List.mem_cons.mp member with rfl | tail
        · rw [equal] at same
          exact absurd rfl same
        · exact tail
      · rwa [if_neg here]
  · intro place
    rw [pending]
    split
    · have unique := queues.nodup slot
      rw [queue, List.map_cons, List.nodup_cons] at unique
      exact unique.2
    · exact queues.nodup place
  · intro place other req member req' member'
    exact queues.apart place other req (still place req member) req' (still other req' member')
  · intro other pos place held
    rw [objects] at held
    exact devices place (queues.present other pos place held)

theorem Queues.requeue (queues : Queues t) {slot : Slot} {device : Device} {now : PendingRead}
    {rest : List PendingRead} (found : t.devices slot = some device)
    (queue : device.pendingRequest = now :: rest) :
    Queues (((t.modifyDevice slot (Device.setPending (rest ++ [now]))).modify now.proc.pid
      (Process.setProcessState .sleeping)).modify now.proc.pid (Process.setRetval eagain)) := by
  obtain ⟨sleeper, known, life⟩ := queues.queued slot now
    (by simp [pendingAt_of_some found, queue])
  simp only [Process.life, Prod.mk.injEq] at life
  have objects : ∀ other pos, (((t.modifyDevice slot (Device.setPending (rest ++ [now]))).modify
      now.proc.pid (Process.setProcessState .sleeping)).modify now.proc.pid
        (Process.setRetval eagain)).objectAt other pos = t.objectAt other pos := by
    intro other pos
    by_cases same : other = now.proc.pid
    · simp only [Tables.objectAt, modify_processList, same, if_true, modifyDevice_processList,
        known, Option.map_some, Option.bind_some]
      rfl
    · simp only [Tables.objectAt, modify_processList, if_neg same, modifyDevice_processList]
  apply queues.of_same
  · exact Nat.le_refl _
  · intro place
    change ((t.modifyDevice slot _).pendingAt place).Perm _
    rw [pendingAt_modifyDevice]
    split
    · next same =>
        simp only [same, found, Option.map_some, Option.getD_some, Device.setPending,
          pendingAt_of_some found, queue]
        exact List.perm_append_comm
    · exact List.Perm.refl _
  · intro other
    by_cases same : other = now.proc.pid
    · simp only [modify_processList, same, if_true, modifyDevice_processList, known,
        Option.map_some]
      simp [Process.life, Process.setRetval, Process.setProcessState, life]
    · simp only [modify_processList, if_neg same, modifyDevice_processList]
  · intro place req member
    obtain ⟨pos, held⟩ := queues.held place req member
    exact ⟨pos, (objects _ _).trans held⟩
  · intro other pos place held
    rw [objects] at held
    have some := queues.present other pos place held
    simp only [modify_devices, modifyDevice_devices]
    split
    · rwa [Option.isSome_map]
    · exact some

/-- Every act keeps the queues in order. -/
theorem Queues.act {label : Label} (queues : Queues t) (act : Act t label t') : Queues t' := by
  cases act with
  | regs pid f => exact queues.modify_same pid (fun _ => rfl) (fun _ => rfl)
  | enter awake => exact queues.note _
  | attach awake empty present =>
      apply queues.bind awake
      intro slot same
      exact present slot (Option.some.inj same)
  | detach pos awake => exact queues.removeObject awake pos
  | await awake spec => exact (queues.of_waits _ t.lastExitCode).note _
  | signal found kind =>
      apply Queues.note
      exact queues.modifyDevice_same _ (fun _ => rfl)
  | @newSem slot cnt free =>
      apply Queues.note
      apply queues.of_same
      · exact Nat.le_succ _
      · intro other
        apply List.Perm.of_eq
        by_cases same : other = slot
        · simp [Tables.pendingAt, Tables.setDevice, same, free]
        · simp [Tables.pendingAt, Tables.setDevice, same]
      · intro other
        rfl
      · exact queues.held
      · intro other pos place held
        by_cases same : place = slot
        · simp [Tables.setDevice, same]
        · simpa [Tables.setDevice, same] using queues.present other pos place held
  | @fork pid proc child m awake free =>
      apply Queues.note
      have slept := queues.keepStack awake m
      have differs : child ≠ pid := by
        intro same
        rw [same, awake.1] at free
        cases free
      apply slept.spawn
      · rw [modify_processList, if_neg differs]
        exact free
      · rfl
      · intro pos slot held
        exact queues.present pid pos slot (by rw [Tables.objectAt, awake.1]; exact held)
  | @thread pid proc child tss awake free =>
      apply Queues.note
      apply queues.spawn free
      · rfl
      · intro pos slot held
        exact queues.present pid pos slot (by rw [Tables.objectAt, awake.1]; exact held)
  | kill code awake =>
      exact (((queues.vacate awake).note _).wakeParent _).of_waits _ _
  | image awake => exact (queues.note _).wakeParent _
  | done awake found spec =>
      apply Queues.note
      exact (queues.note _).modifyDevice_same _ (fun _ => rfl)
  | block buffer awake found held spec =>
      exact (queues.note _).block awake found held
  | @serve slot device now rest ret data input found queue spec =>
      apply queues.of_serve ((pendingAt_of_some found).trans queue)
      · rfl
      · intro place
        change ((t.modify _ _).modifyDevice slot _).pendingAt place = _
        rw [pendingAt_modifyDevice]
        split
        · next same => simp [same, found, Device.setPending]
        · rfl
      · intro other differs
        simp only [modify_processList, if_neg differs, note_processList, modifyDevice_processList]
      · intro old before
        refine ⟨(old.setProcessState .runnable).setRetval ret, ?_, rfl, rfl⟩
        simp only [modify_processList, if_true, note_processList, modifyDevice_processList, before,
          Option.map_some]
      · intro place some
        simp only [modify_devices, note_devices, modifyDevice_devices]
        split
        · rwa [Option.isSome_map]
        · exact some
  | requeue found queue kind => exact queues.requeue found queue

end SysImpl.Kernel
