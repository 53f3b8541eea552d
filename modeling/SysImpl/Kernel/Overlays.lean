import SysImpl.Kernel.Handlers

/-! What the kernel does with three kinds of entries that outlive a process: the requests of
`ProcessWait`, the times of `SleepDevice`, and the `ppid` of other processes.

An overlay puts other entries in their place. Where the kernel does not look at an entry it
does the same under the overlay; what it writes is written over it. -/

namespace SysImpl.Kernel

open Bytes

structure Overlay where
  reqs : Pid → WaitReq
  wakes : Pid → Nat
  parents : Pid → Option Pid

def Process.reparent (ppid : Option Pid) (proc : Process) : Process := { proc with ppid := ppid }

def Tables.overlay (o : Overlay) (t : Tables) : Tables :=
  { t with
    processList := fun pid => (t.processList pid).map (Process.reparent (o.parents pid))
    reqs := o.reqs }

def State.overlay (o : Overlay) (s : State) : State :=
  { s with toTables := s.toTables.overlay o, processSleepUntil := o.wakes }

def Orphaned (f : Process → Process) : Prop :=
  ∀ ppid proc, f (proc.reparent ppid) = (f proc).reparent ppid

variable {o : Overlay} {t : Tables} {s : State}

section Tables

theorem overlay_processList (pid : Pid) :
    (t.overlay o).processList pid =
      (t.processList pid).map (Process.reparent (o.parents pid)) := rfl

@[simp] theorem overlay_devices : (t.overlay o).devices = t.devices := rfl

theorem overlay_isSome (pid : Pid) :
    ((t.overlay o).processList pid).isSome = (t.processList pid).isSome := by
  rw [overlay_processList, Option.isSome_map]

theorem overlay_setDevice (slot : Slot) (device : Option Device) :
    (t.overlay o).setDevice slot device = (t.setDevice slot device).overlay o := rfl

theorem overlay_modifyDevice (slot : Slot) (f : Device → Device) :
    (t.overlay o).modifyDevice slot f = (t.modifyDevice slot f).overlay o := rfl

theorem overlay_note (event : Event) : (t.overlay o).note event = (t.note event).overlay o := rfl

theorem overlay_setProcess (pid : Pid) (proc : Option Process) :
    (t.overlay o).setProcess pid (proc.map (Process.reparent (o.parents pid))) =
      (t.setProcess pid proc).overlay o := by
  have same : Function.update (fun other => (t.processList other).map
      (Process.reparent (o.parents other))) pid (proc.map (Process.reparent (o.parents pid))) =
        fun other => (Function.update t.processList pid proc other).map
          (Process.reparent (o.parents other)) := by
    funext other
    by_cases here : other = pid
    · subst here
      simp
    · simp [here]
  simp only [Tables.setProcess, Tables.overlay, same]

theorem overlay_modify {f : Process → Process} (orphaned : Orphaned f) (pid : Pid) :
    (t.overlay o).modify pid f = (t.modify pid f).overlay o := by
  rw [Tables.modify, Tables.modify, ← overlay_setProcess, overlay_processList, Option.map_map,
    Option.map_map]
  congr 2
  funext proc
  exact orphaned _ proc

theorem orphaned_bind (pos : Fd) (obj : Option Object) : Orphaned (Process.bind pos obj) :=
  fun _ _ => rfl

theorem orphaned_state (state : ProcessState) : Orphaned (Process.setProcessState state) :=
  fun _ _ => rfl

theorem orphaned_retval (ret : Int) : Orphaned (Process.setRetval ret) := fun _ _ => rfl

theorem orphaned_clearBackup : Orphaned Process.clearBackup := fun _ _ => rfl

theorem orphaned_keepStack (m : Mem) : Orphaned (Process.keepStack m) := fun _ _ => rfl

theorem overlay_find (p : ProcPtr) :
    (t.overlay o).find p = (t.find p).map (Process.reparent (o.parents p.pid)) := by
  rw [Tables.find, Tables.find, overlay_processList]
  cases t.processList p.pid with
  | none => rfl
  | some proc =>
      by_cases same : proc.serial = p.serial
      · simp [Option.filter_some, Process.reparent, same]
      · simp [Option.filter_some, Process.reparent, same]

theorem overlay_objectAt (pid : Pid) (pos : Fd) :
    (t.overlay o).objectAt pid pos = t.objectAt pid pos := by
  rw [Tables.objectAt, Tables.objectAt, overlay_processList]
  cases t.processList pid with
  | none => rfl
  | some proc => rfl

theorem overlay_referenced (slot : Slot) :
    (t.overlay o).Referenced slot ↔ t.Referenced slot := by
  simp only [Tables.Referenced, overlay_objectAt]

theorem overlay_onRemovedByOwner (owner : ProcPtr) (obj : Object) :
    (t.overlay o).onRemovedByOwner owner obj = (t.onRemovedByOwner owner obj).overlay o := by
  cases obj with
  | device slot => exact overlay_modifyDevice slot _
  | file id => rfl
  | segment base size => rfl

theorem overlay_dropReference (obj : Object) :
    (t.overlay o).dropReference obj = (t.dropReference obj).overlay o := by
  cases obj with
  | device slot =>
      simp only [Tables.dropReference, overlay_devices, overlay_referenced]
      split_ifs
      · exact overlay_setDevice slot none
      · rfl
  | file id => rfl
  | segment base size => rfl

theorem overlay_removeObject (pid : Pid) (pos : Fd) :
    (t.overlay o).removeObject pid pos = (t.removeObject pid pos).overlay o := by
  simp only [Tables.removeObject, overlay_processList]
  cases t.processList pid with
  | none => rfl
  | some proc =>
      simp only [Option.map_some, Process.reparent]
      cases proc.objects pos with
      | none => rfl
      | some obj =>
          simp only [overlay_onRemovedByOwner, overlay_modify (orphaned_bind pos none),
            overlay_dropReference]

theorem overlay_removeObjects (pid : Pid) (drop : Fd → Bool) :
    (t.overlay o).removeObjects pid drop = (t.removeObjects pid drop).overlay o := by
  simp only [Tables.removeObjects]
  induction List.finRange 128 generalizing t with
  | nil => rfl
  | cons pos rest ih =>
      simp only [List.foldl_cons]
      split_ifs
      · rw [overlay_removeObject]
        exact ih
      · exact ih

theorem overlay_setObject (pid : Pid) (pos : Fd) (obj : Object) :
    (t.overlay o).setObject pid pos obj = (t.setObject pid pos obj).overlay o := by
  rw [Tables.setObject, Tables.setObject, overlay_removeObject,
    overlay_modify (orphaned_bind pos (some obj))]

theorem overlay_addObject (pid : Pid) (obj : Object) :
    (t.overlay o).addObject pid obj =
      (t.addObject pid obj).map fun found => (found.1, found.2.overlay o) := by
  have position : (((t.overlay o).processList pid).bind fun proc => proc.freePosition obj) =
      (t.processList pid).bind fun proc => proc.freePosition obj := by
    rw [overlay_processList]
    cases t.processList pid with
    | none => rfl
    | some proc => rfl
  rw [Tables.addObject, Tables.addObject, position, Option.map_map]
  congr 1
  funext pos
  simp only [overlay_modify (orphaned_bind pos (some obj)), Function.comp]

theorem overlay_freeSlot : (t.overlay o).freeSlot = t.freeSlot := by
  simp only [Tables.freeSlot, ← Option.not_isSome, overlay_isSome]

theorem overlay_runnableAt (idleToo : Bool) :
    runnableAt (t.overlay o) idleToo = runnableAt t idleToo := by
  funext pid
  simp only [runnableAt, overlay_processList]
  cases t.processList pid with
  | none => rfl
  | some proc => rfl

def Overlay.exited (o : Overlay) (pid : Pid) (status : Nat) : Overlay :=
  { o with reqs := fun waiter =>
      if (o.reqs waiter).pid = pid.val then ⟨0, status⟩ else o.reqs waiter }

end Tables

section Kin

def Tables.linksAt (t : Tables) (pid : Pid) : Option (Option Pid × Option (List UInt8)) :=
  (t.processList pid).map fun proc => (proc.ppid, proc.stackBackup)

variable {t' : Tables}

theorem linksAt_modify {f : Process → Process}
    (same : ∀ proc, ((f proc).ppid, (f proc).stackBackup) = (proc.ppid, proc.stackBackup))
    (pid : Pid) : (t.modify pid f).linksAt = t.linksAt := by
  funext other
  simp only [Tables.linksAt, modify_processList]
  split_ifs
  · rw [Option.map_map]
    congr 1
    funext proc
    exact same proc
  · rfl

theorem linksAt_bind (pid : Pid) (pos : Fd) (obj : Option Object) :
    (t.modify pid (Process.bind pos obj)).linksAt = t.linksAt := by
  apply linksAt_modify
  intro proc
  rfl

theorem linksAt_removeObject (pid : Pid) (pos : Fd) : (t.removeObject pid pos).linksAt = t.linksAt := by
  funext other
  rcases removeObject_processes t pid pos with same | bound
  · simp only [Tables.linksAt, same]
  · have kept := congrFun (linksAt_bind (t := t) pid pos none) other
    simp only [Tables.linksAt, bound] at kept ⊢
    exact kept

theorem linksAt_removeObjects (pid : Pid) (drop : Fd → Bool) :
    (t.removeObjects pid drop).linksAt = t.linksAt := by
  simp only [Tables.removeObjects]
  induction List.finRange 128 generalizing t with
  | nil => rfl
  | cons pos rest ih =>
      simp only [List.foldl_cons]
      split_ifs
      · rw [ih, linksAt_removeObject]
      · exact ih

theorem linksAt_addObject {pid : Pid} {obj : Object} {pos : Fd}
    (added : t.addObject pid obj = some (pos, t')) : t'.linksAt = t.linksAt := by
  simp only [Tables.addObject, Option.map_eq_some_iff, Prod.mk.injEq] at added
  obtain ⟨_, _, rfl, rfl⟩ := added
  exact linksAt_bind pid _ _

def Tables.Bare (t : Tables) (ppid : Option Pid) : Prop :=
  ∀ parent kin backup, ppid = some parent → t.linksAt parent = some (kin, backup) → backup = none

/-- The end of a process, and the end of its `exec`, do the same under an overlay: it has the
same parent there, or neither parent keeps a stack. -/
def Tables.Harmless (t : Tables) (o : Overlay) (pid : Pid) : Prop :=
  ∀ ppid backup, t.linksAt pid = some (ppid, backup) →
    o.parents pid = ppid ∨ t.Bare ppid ∧ t.Bare (o.parents pid)

theorem Tables.Harmless.congr {pid : Pid} (harmless : t.Harmless o pid) (same : t'.linksAt = t.linksAt) :
    t'.Harmless o pid := by
  simp only [Tables.Harmless, Tables.Bare, same]
  exact harmless

theorem restoreParent_bare {ppid : Option Pid} (bare : s.toTables.Bare ppid) :
    restoreParent s ppid = s := by
  cases ppid with
  | none => rfl
  | some parent =>
      simp only [restoreParent, restoreStack]
      cases found : s.processList parent with
      | none => rfl
      | some proc =>
          have none : proc.stackBackup = none := by
            refine bare parent proc.ppid proc.stackBackup rfl ?_
            simp only [Tables.linksAt, found, Option.map_some]
          simp only [none]

theorem overlay_restoreParent (ppid : Option Pid) :
    restoreParent (s.overlay o) ppid = (restoreParent s ppid).overlay o := by
  cases ppid with
  | none => rfl
  | some parent =>
      simp only [restoreParent, restoreStack]
      have same : (s.overlay o).processList parent =
          (s.processList parent).map (Process.reparent (o.parents parent)) := rfl
      rw [same]
      cases s.processList parent with
      | none => rfl
      | some proc =>
          simp only [Option.map_some, Process.reparent]
          cases proc.stackBackup with
          | none => rfl
          | some saved =>
              have cleared := overlay_modify (t := s.toTables) (o := o) orphaned_clearBackup parent
              simp only [State.overlay, cleared]

theorem restoreParent_either {ppid : Option Pid} {pid : Pid}
    (either : o.parents pid = ppid ∨ s.toTables.Bare ppid ∧ s.toTables.Bare (o.parents pid)) :
    restoreParent (s.overlay o) (o.parents pid) = (restoreParent s ppid).overlay o := by
  rw [overlay_restoreParent]
  rcases either with same | ⟨bare, bare'⟩
  · rw [same]
  · rw [restoreParent_bare bare, restoreParent_bare bare']

end Kin

section Handlers

variable {pid : Pid}

theorem overlay_deleteProcess (harmless : s.toTables.Harmless o pid) (code : Nat) :
    deleteProcess (s.overlay o) pid code =
      (deleteProcess s pid code).overlay (o.exited pid code) := by
  have same : (s.overlay o).processList pid =
      (s.processList pid).map (Process.reparent (o.parents pid)) := rfl
  simp only [deleteProcess, same]
  cases found : s.processList pid with
  | none => rfl
  | some proc =>
      have kin : s.toTables.linksAt pid = some (proc.ppid, proc.stackBackup) := by
        simp only [Tables.linksAt, found, Option.map_some]
      have gone := overlay_setProcess (o := o) (t := s.toTables.removeObjects pid fun _ => true)
        pid none
      rw [Option.map_none, ← overlay_removeObjects] at gone
      -- Without the process itself, what is left of the parents is what was there.
      have either : o.parents pid = proc.ppid ∨
          (((s.toTables.removeObjects pid fun _ => true).setProcess pid none).note
            (.exited ⟨pid, proc.serial⟩ code)).Bare proc.ppid ∧
          (((s.toTables.removeObjects pid fun _ => true).setProcess pid none).note
            (.exited ⟨pid, proc.serial⟩ code)).Bare (o.parents pid) := by
        have bare : ∀ ppid, s.toTables.Bare ppid →
            (((s.toTables.removeObjects pid fun _ => true).setProcess pid none).note
              (.exited ⟨pid, proc.serial⟩ code)).Bare ppid := by
          intro ppid bare parent kin backup is known
          have objects := congrFun
            (linksAt_removeObjects (t := s.toTables) pid fun _ => true) parent
          simp only [Tables.linksAt, note_processList, setProcess_processList] at known objects
          by_cases self : parent = pid
          · subst self
            simp at known
          · rw [Function.update_of_ne self, objects] at known
            exact bare parent kin backup is known
        rcases harmless proc.ppid proc.stackBackup kin with same | ⟨first, second⟩
        · exact Or.inl same
        · exact Or.inr ⟨bare _ first, bare _ second⟩
      have woken := restoreParent_either (s := { s with
        toTables := ((s.toTables.removeObjects pid fun _ => true).setProcess pid none).note
          (.exited ⟨pid, proc.serial⟩ code) }) either
      simp only [Option.map_some, Process.reparent]
      have tables : (((s.overlay o).toTables.removeObjects pid fun _ => true).setProcess pid
          none).note (.exited ⟨pid, proc.serial⟩ code) =
            (((s.toTables.removeObjects pid fun _ => true).setProcess pid none).note
              (.exited ⟨pid, proc.serial⟩ code)).overlay o := by
        rw [← overlay_note, ← gone]
        rfl
      rw [tables]
      have whole := congrArg (fun after : State =>
        ({ after with toTables := after.toTables.processExit pid code } : State)) woken
      exact whole

theorem overlay_resche : resche (s.overlay o) = (resche s).map (State.overlay o) := by
  have tables : (s.overlay o).toTables = s.toTables.overlay o := rfl
  have current : (s.overlay o).currentProcess = s.currentProcess := rfl
  simp only [resche, tables, current, overlay_runnableAt]
  cases ((rescheOrder s.currentProcess).find? (runnableAt s.toTables false)).or
      ((rescheOrder s.currentProcess).find? (runnableAt s.toTables true)) with
  | none => rfl
  | some next => rfl

def Overlay.born (o : Overlay) (pid child : Pid) : Overlay :=
  { o with parents := Function.update o.parents child (some pid) }

theorem overlay_born {pid child : Pid} (free : t.processList child = none) :
    t.overlay (o.born pid child) = t.overlay o := by
  have same : (fun other => (t.processList other).map
      (Process.reparent ((o.born pid child).parents other))) =
        fun other => (t.processList other).map (Process.reparent (o.parents other)) := by
    funext other
    by_cases here : other = child
    · subst here
      rw [free]
      rfl
    · simp [Overlay.born, here]
  simp only [Tables.overlay, same]
  rfl

theorem overlay_spawn {child : Pid} (free : t.processList child = none) (proc : Process)
    (pid : Pid) (serial : Nat) (tss : Tss) :
    (t.overlay o).setProcess child (some (childProcess proc pid serial tss)) =
      (t.setProcess child (some (childProcess proc pid serial tss))).overlay (o.born pid child) := by
  have parent : (o.born pid child).parents child = some pid := Function.update_self _ _ _
  have placed := overlay_setProcess (o := o.born pid child) (t := t) child
    (some (childProcess proc pid serial tss))
  rw [overlay_born free, parent] at placed
  exact placed

theorem overlay_clone (pid : Pid) (place : Placement) (mode : CloneMode) :
    (∃ stop, clone place s pid mode = .error stop ∧
        clone place (s.overlay o) pid mode = .error stop) ∨
      ∃ child after, clone place s pid mode = .ok (after, child) ∧
        clone place (s.overlay o) pid mode = .ok (after.overlay (o.born pid child), child) := by
  have same : (s.overlay o).processList pid =
      (s.processList pid).map (Process.reparent (o.parents pid)) := rfl
  have slots : (s.overlay o).toTables.freeSlot = s.toTables.freeSlot := overlay_freeSlot
  simp only [clone, same, slots]
  cases found : s.processList pid with
  | none => exact Or.inl ⟨_, rfl, rfl⟩
  | some proc =>
      simp only [Option.map_some]
      have backup : (Process.reparent (o.parents pid) proc).stackBackup = proc.stackBackup := rfl
      rw [backup]
      by_cases kept : proc.stackBackup.isSome
      · simp only [if_pos kept]
        exact Or.inl ⟨_, rfl, rfl⟩
      simp only [if_neg kept]
      cases slot : s.toTables.freeSlot with
      | none => exact Or.inl ⟨_, rfl, rfl⟩
      | some child =>
          have free := freeSlot_free slot
          have apart : pid ≠ child := by
            intro same
            rw [same, free] at found
            cases found
          refine Or.inr ⟨child, ?_⟩
          cases mode with
          | keepStack =>
              refine ⟨_, rfl, ?_⟩
              have kept := overlay_modify (o := o) (orphaned_keepStack s.mem) pid
                (t := { s.toTables with nextSerial := s.nextSerial + 1 })
              have still : (({ s.toTables with
                  nextSerial := s.nextSerial + 1 } : Tables).modify pid
                    (Process.keepStack s.mem)).processList child = none := by
                rw [modify_processList, if_neg apart.symm]
                exact free
              have spawned := overlay_spawn (o := o) still proc pid s.nextSerial
                (proc.usermodeState.setRetval 0)
              rw [← kept] at spawned
              simp only [State.overlay, ← overlay_note, ← spawned]
              rfl
          | newThread code data =>
              refine ⟨_, rfl, ?_⟩
              have still : ({ s.toTables with
                  nextSerial := s.nextSerial + 1 } : Tables).processList child = none := free
              have spawned := overlay_spawn (o := o) still proc pid s.nextSerial
                (threadStart place child code data proc.usermodeState s.mem).1
              simp only [State.overlay, ← overlay_note, ← spawned]
              rfl

end Handlers

end SysImpl.Kernel
