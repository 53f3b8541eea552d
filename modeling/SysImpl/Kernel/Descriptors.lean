import SysImpl.Lib.Slots
import SysImpl.Kernel.Limits

/-! Object tables as partial maps.

`open`, `close`, `dup2` and `sem_create` are the calls that a process changes its own
object table with. Under each of them the table should act as a map from descriptors to
objects: an allocation binds the lowest free descriptor from `PROCESS_NORMAL_OBJECT_BEGIN`
on, `close` unbinds one and `dup2` copies a binding. The handlers leave that map in three
places: `open` reports a full table as `ENOSPC`, `dup2` compares its arguments before it
looks at either, and it does not look at what `setObject` returns. -/

namespace SysImpl.Kernel

open Bytes Runs Slots

variable {fs : FileSystem}

/-- A call on the table, with the registers it reads. -/
inductive FdCall where
  | openFile (filename : Nat)
  | close (fd : Nat)
  | dup2 (oldfd newfd : Nat)
  | semCreate (cnt : Nat)
  deriving DecidableEq, Repr

def FdCall.apply (fs : FileSystem) (s : State) (proc : Process) : FdCall → Except Stop (State × Int)
  | .openFile filename => openHandler fs s filename
  | .close fd => .ok (closeHandler s fd, 0)
  | .dup2 oldfd newfd => dup2Handler s proc oldfd newfd
  | .semCreate cnt => semCreateHandler s cnt

theorem position_lt {pos : Int} (inside : 0 ≤ pos ∧ pos < 128) : pos.toNat < 128 := by omega

/-- `setObject` with the arguments it can be given: the tables it leaves, and the value it
returns unless it throws `InvalidObjectException`. -/
def Tables.setObjectAt (t : Tables) (pid : Pid) (pos : Int) (obj : Option Object) :
    Tables × Option Int :=
  if inside : 0 ≤ pos ∧ pos < 128 then
    let fd : Fd := ⟨pos.toNat, position_lt inside⟩
    match obj with
    | none => (t.removeObject pid fd, none)
    | some obj => (t.setObject pid fd obj, some pos)
  else (t, some (-1))

def Process.descriptors (proc : Process) : Table Object 128 := ofCells proc.objects

/-- A call that takes a position returns the lowest free one and binds that one. -/
def Allocates (ret : Int) (table table' : Table Object 128) : Prop :=
  (0 ≤ ret → ∃ fd obj, ret = fd.val ∧ table.LowestFree 3 fd ∧ table' = table.bind fd obj) ∧
    (ret < 0 → table' = table)

def MapStep (table : Table Object 128) (label : FdCall × Int) (table' : Table Object 128) : Prop :=
  match label with
  | (.openFile _, ret) => Allocates ret table table'
  | (.semCreate _, ret) => Allocates ret table table'
  | (.close fd, _) => table' = table.unbind fd
  | (.dup2 oldfd newfd, ret) =>
      (ret = 0 ↔ (table.get oldfd).isSome ∧ newfd < 128) ∧
        (ret = 0 → ∃ obj, ∃ inside : newfd < 128, table.get oldfd = some obj ∧
          table' = table.bind ⟨newfd, inside⟩ obj) ∧
        (ret ≠ 0 → table' = table)

/-- The call returns, with the table acting as a map, or throws past the handler. -/
def FdCall.Refines (fs : FileSystem) (s : State) (proc : Process) (call : FdCall) : Prop :=
  match call.apply fs s proc with
  | .error stop => stop = .uncaughtException
  | .ok (s', ret) => ∃ proc', s'.processList s.currentProcess = some proc' ∧
      MapStep proc.descriptors (call, ret) proc'.descriptors

/-- `open` finds a place if it needs one, and both arguments of `dup2` are in range unless
there is nothing to copy. -/
def FdCall.Regular (fs : FileSystem) (s : State) (proc : Process) : FdCall → Prop
  | .openFile filename => NamesNothing fs (loadString s.mem filename) ∨ ¬ proc.objectsFull
  | .close _ => True
  | .semCreate _ => True
  | .dup2 oldfd newfd =>
      oldfd < 128 ∧ ((proc.descriptors.get oldfd).isSome → newfd < 128) ∧
        (oldfd = newfd → (proc.descriptors.get oldfd).isSome)

def SetsOrKeeps (t : Tables) (pid : Pid) (pos : Int) (obj : Option Object) : Prop :=
  let (t', ret) := t.setObjectAt pid pos obj
  ret = some pos ∧ 0 ≤ pos ∨ ∀ owner fd, t'.objectAt owner fd = t.objectAt owner fd

/-- A regular call by a process with this object table, the rest of the kernel being in
any state. -/
def FdStep (fs : FileSystem) (objects : Fd → Option Object) (label : FdCall × Int)
    (objects' : Fd → Option Object) : Prop :=
  ∃ s s' proc proc', s.processList s.currentProcess = some proc ∧
    s'.processList s.currentProcess = some proc' ∧ proc.objects = objects ∧
    proc'.objects = objects' ∧ label.1.Regular fs s proc ∧
    label.1.apply fs s proc = .ok (s', label.2)

theorem objectsFull_iff {proc : Process} :
    proc.objectsFull ↔ ∀ fd : Fd, ¬ proc.descriptors.LowestFree 3 fd := by
  constructor
  · intro full fd lowest
    have bound := full fd lowest.above
    have free := lowest.free
    rw [Process.descriptors, ofCells_get] at free
    rw [free] at bound
    cases bound
  · intro none_free
    by_contra holes
    cases chosen : (List.finRange 128).find? fun pos : Fd =>
        decide (3 ≤ pos.val ∧ proc.objects pos = none) with
    | none =>
        apply holes
        intro pos above
        have taken := List.find?_eq_none.mp chosen pos (List.mem_finRange pos)
        rw [Option.isSome_iff_ne_none]
        intro empty
        exact taken (decide_eq_true ⟨above, empty⟩)
    | some fd =>
        exact none_free fd (lowestFree_of_find proc.objects (fun _ => decide_eq_true_iff) chosen)

theorem addObject_lowest {t t' : Tables} {pid : Pid} {proc : Process} {obj : Object} {fd : Fd}
    (found : t.processList pid = some proc) (normal : obj.begin = 3)
    (added : t.addObject pid obj = some (fd, t')) :
    proc.descriptors.LowestFree 3 fd ∧ ∃ proc', t'.processList pid = some proc' ∧
      proc'.descriptors = proc.descriptors.bind fd obj := by
  simp only [Tables.addObject, found, Option.bind_some, Option.map_eq_some_iff,
    Prod.mk.injEq] at added
  obtain ⟨place, chosen, rfl, rfl⟩ := added
  simp only [Process.freePosition, normal] at chosen
  refine ⟨lowestFree_of_find proc.objects (fun _ => decide_eq_true_iff) chosen,
    proc.bind place (some obj), ?_, (ofCells_update proc.objects place).2 obj⟩
  rw [modify_processList, if_pos rfl, found]
  rfl

theorem allocates_of_added {t t' : Tables} {pid : Pid} {proc : Process} {obj : Object} {fd : Fd}
    (found : t.processList pid = some proc) (normal : obj.begin = 3)
    (added : t.addObject pid obj = some (fd, t')) :
    ∃ proc', t'.processList pid = some proc' ∧
      Allocates fd.val proc.descriptors proc'.descriptors := by
  obtain ⟨lowest, proc', found', bound⟩ := addObject_lowest found normal added
  refine ⟨proc', found', ?_, ?_⟩
  · intro _
    exact ⟨fd, obj, rfl, lowest, bound⟩
  · intro negative
    omega

theorem specialPath_normal {path : List UInt8} {obj : Object} (special : specialPath path = some obj) :
    obj.begin = 3 := by
  simp only [specialPath, Option.map_eq_some_iff] at special
  obtain ⟨entry, _, rfl⟩ := special
  rfl

theorem openHandler_named {s : State} {filename : Nat}
    (named : ¬ NamesNothing fs (loadString s.mem filename)) :
    ∃ obj : Object, ∃ files, obj.begin = 3 ∧
      (s.toTables.addObject s.currentProcess obj = none →
        openHandler fs s filename = .ok (s, enospc)) ∧
      ∀ pos t, s.toTables.addObject s.currentProcess obj = some (pos, t) →
        openHandler fs s filename = .ok ({ s with toTables := t, files := files }, pos.val) := by
  cases special : specialPath (loadString s.mem filename) with
  | some obj =>
      refine ⟨obj, s.files, specialPath_normal special, ?_, ?_⟩
      · intro full
        simp only [openHandler, special, full]
      · intro pos t added
        simp only [openHandler, special, added]
  | none =>
      cases file : fs.openFile (loadString s.mem filename) with
      | none => exact absurd ⟨special, file⟩ named
      | some image =>
          refine ⟨.file s.files.length, s.files ++ [⟨image, 0⟩], rfl, ?_, ?_⟩
          · intro full
            simp only [openHandler, special, file, full]
          · intro pos t added
            simp only [openHandler, special, file, added]

theorem openHandler_nothing {s : State} {filename : Nat}
    (nothing : NamesNothing fs (loadString s.mem filename)) :
    openHandler fs s filename = .ok (s, enoent) := by
  simp only [openHandler, nothing.1, nothing.2]

theorem open_refines {s : State} {proc : Process} (filename : Nat)
    (found : s.processList s.currentProcess = some proc) :
    (FdCall.openFile filename).Refines fs s proc ↔
      (FdCall.openFile filename).Regular fs s proc := by
  simp only [FdCall.Refines, FdCall.apply, FdCall.Regular]
  by_cases nothing : NamesNothing fs (loadString s.mem filename)
  · rw [openHandler_nothing nothing]
    refine ⟨fun _ => Or.inl nothing, fun _ => ⟨proc, found, ?_, ?_⟩⟩
    · intro impossible
      exact absurd impossible (by decide)
    · intro _
      rfl
  · obtain ⟨obj, files, normal, refused, opened⟩ := openHandler_named nothing
    cases added : s.toTables.addObject s.currentProcess obj with
    | none =>
        rw [refused added]
        have full := (addObject_eq_none found normal).mp added
        -- `ENOSPC` is not negative, and no descriptor is free.
        constructor
        · intro refines
          obtain ⟨_, _, allocates, _⟩ := refines
          obtain ⟨fd, _, _, lowest, _⟩ := allocates (by decide)
          exact absurd lowest (objectsFull_iff.mp full fd)
        · intro regular
          rcases regular with names | room
          · exact absurd names nothing
          · exact absurd full room
    | some pair =>
        obtain ⟨fd, t⟩ := pair
        rw [opened fd t added]
        refine ⟨fun _ => Or.inr ?_, fun _ => allocates_of_added found normal added⟩
        intro full
        have none_left := (addObject_eq_none found normal).mpr full
        rw [added] at none_left
        cases none_left

theorem semCreate_refines {s : State} {proc : Process} (cnt : Nat)
    (found : s.processList s.currentProcess = some proc) :
    (FdCall.semCreate cnt).Refines fs s proc := by
  simp only [FdCall.Refines, FdCall.apply]
  cases chosen : s.toTables.freeDevice with
  | none => simp only [semCreateHandler, chosen]
  | some slot =>
      cases added : (s.toTables.newSemaphore slot (toInt32 cnt)).addObject s.currentProcess
          (.device slot) with
      | none => simp only [semCreateHandler, chosen, added]
      | some pair =>
          obtain ⟨fd, t⟩ := pair
          simp only [semCreateHandler, chosen, added]
          exact allocates_of_added (t := s.toTables.newSemaphore slot (toInt32 cnt)) found rfl added

theorem removeObject_unbinds {t : Tables} {pid : Pid} {proc : Process}
    (found : t.processList pid = some proc) (fd : Fd) :
    ∃ proc', (t.removeObject pid fd).processList pid = some proc' ∧
      proc'.descriptors = proc.descriptors.unbind fd.val :=
  ⟨_, removeObject_self found fd, (ofCells_update proc.objects fd).1⟩

theorem close_refines {s : State} {proc : Process} (fd : Nat)
    (found : s.processList s.currentProcess = some proc) :
    (FdCall.close fd).Refines fs s proc := by
  simp only [FdCall.Refines, FdCall.apply, MapStep, closeHandler]
  split
  · next inside => exact removeObject_unbinds found ⟨fd, inside⟩
  · next beyond =>
      have free := proc.descriptors.bounded fd (Nat.not_lt.mp beyond)
      exact ⟨proc, found, (Table.unbind_free free).symm⟩

theorem setObject_binds {t : Tables} {pid : Pid} {proc : Process}
    (found : t.processList pid = some proc) (fd : Fd) (obj : Object) :
    ∃ proc', (t.setObject pid fd obj).processList pid = some proc' ∧
      proc'.descriptors = proc.descriptors.bind fd obj := by
  refine ⟨proc.bind fd (some obj), ?_, (ofCells_update proc.objects fd).2 obj⟩
  rw [Tables.setObject, modify_processList, if_pos rfl, removeObject_self found]
  simp only [Option.map_some, Process.bind, Function.update_idem]

theorem descriptors_get {proc : Process} {fd : Nat} (inside : fd < 128) :
    proc.descriptors.get fd = proc.objects ⟨fd, inside⟩ := ofCells_get proc.objects ⟨fd, inside⟩

/-- `dup2` of a descriptor to itself does nothing, whatever it is bound to. -/
theorem dup2_same {s : State} {proc : Process} (fd : Nat)
    (found : s.processList s.currentProcess = some proc) :
    (FdCall.dup2 fd fd).Refines fs s proc ↔ (proc.descriptors.get fd).isSome := by
  have applied : (FdCall.dup2 fd fd).apply fs s proc = .ok (s, 0) := by
    simp only [FdCall.apply, dup2Handler, if_true]
  simp only [FdCall.Refines, applied, MapStep]
  constructor
  · intro refines
    obtain ⟨_, _, zero, _, _⟩ := refines
    exact (zero.mp trivial).1
  · intro bound
    obtain ⟨obj, held⟩ := Option.isSome_iff_exists.mp bound
    have inside : fd < 128 := by
      by_contra beyond
      rw [proc.descriptors.bounded fd (Nat.not_lt.mp beyond)] at held
      cases held
    refine ⟨proc, found, ?_, ?_, ?_⟩
    · exact ⟨fun _ => ⟨bound, inside⟩, fun _ => trivial⟩
    · intro _
      refine ⟨obj, inside, held, ?_⟩
      rw [Table.bind_bound]
      exact held
    · intro impossible
      exact absurd rfl impossible

/-- A `dup2` between different descriptors reads past the table if the first is out of range,
and reports success without a binding if the second is. -/
theorem dup2_different {s : State} {proc : Process} {oldfd newfd : Nat} (differ : oldfd ≠ newfd)
    (found : s.processList s.currentProcess = some proc) :
    (FdCall.dup2 oldfd newfd).Refines fs s proc ↔
      oldfd < 128 ∧ ((proc.descriptors.get oldfd).isSome → newfd < 128) := by
  simp only [FdCall.Refines, FdCall.apply, MapStep, dup2Handler, if_neg differ]
  by_cases inside : oldfd < 128
  · rw [getObject_inside inside, ← descriptors_get inside]
    cases held : proc.descriptors.get oldfd with
    | none =>
        refine ⟨fun _ => ⟨inside, ?_⟩, fun _ => ⟨proc, found, ?_, ?_, fun _ => rfl⟩⟩
        · intro impossible
          cases impossible
        · constructor
          · intro impossible
            exact absurd impossible (by decide)
          · intro bound
            cases bound.1
        · intro impossible
          exact absurd impossible (by decide)
    | some obj =>
        by_cases target : newfd < 128
        · obtain ⟨proc', found', bound⟩ :=
            setObject_binds (t := s.toTables) found ⟨newfd, target⟩ obj
          simp only [dif_pos target]
          refine ⟨fun _ => ⟨inside, fun _ => target⟩, fun _ => ⟨proc', found', ?_, ?_, ?_⟩⟩
          · exact ⟨fun _ => ⟨rfl, target⟩, fun _ => trivial⟩
          · intro _
            exact ⟨obj, target, rfl, bound⟩
          · intro impossible
            exact absurd rfl impossible
        · simp only [dif_neg target]
          constructor
          · intro refines
            obtain ⟨_, _, zero, _, _⟩ := refines
            exact absurd (zero.mp trivial).2 target
          · intro regular
            exact absurd (regular.2 rfl) target
  · rw [getObject_beyond (Nat.not_lt.mp inside)]
    constructor
    · intro impossible
      cases impossible
    · intro regular
      exact absurd regular.1 inside

theorem dup2_refines {s : State} {proc : Process} (oldfd newfd : Nat)
    (found : s.processList s.currentProcess = some proc) :
    (FdCall.dup2 oldfd newfd).Refines fs s proc ↔
      (FdCall.dup2 oldfd newfd).Regular fs s proc := by
  simp only [FdCall.Regular]
  by_cases same : oldfd = newfd
  · rw [← same, dup2_same oldfd found]
    constructor
    · intro bound
      have inside : oldfd < 128 := by
        by_contra beyond
        rw [proc.descriptors.bounded oldfd (Nat.not_lt.mp beyond)] at bound
        cases bound
      exact ⟨inside, fun _ => inside, fun _ => bound⟩
    · intro regular
      exact regular.2.2 rfl
  · rw [dup2_different same found]
    constructor
    · intro regular
      exact ⟨regular.1, regular.2, fun equal => absurd equal same⟩
    · intro regular
      exact ⟨regular.1, regular.2.1⟩

theorem fdCall_refines {s : State} {proc : Process} (call : FdCall)
    (found : s.processList s.currentProcess = some proc) :
    call.Refines fs s proc ↔ call.Regular fs s proc := by
  cases call with
  | openFile filename => exact open_refines filename found
  | close fd => exact iff_of_true (close_refines fd found) trivial
  | dup2 oldfd newfd => exact dup2_refines oldfd newfd found
  | semCreate cnt => exact iff_of_true (semCreate_refines cnt found) trivial

theorem FdStep.mapStep {objects objects' : Fd → Option Object} {label : FdCall × Int}
    (step : FdStep fs objects label objects') :
    MapStep (ofCells objects) label (ofCells objects') := by
  obtain ⟨s, s', proc, proc', found, found', rfl, rfl, regular, applied⟩ := step
  have refines := (fdCall_refines label.1 found).mpr regular
  simp only [FdCall.Refines, applied] at refines
  obtain ⟨after, found_after, mapped⟩ := refines
  cases found_after.symm.trans found'
  exact mapped

theorem objectAt_self {t : Tables} {pid : Pid} {proc : Process}
    (found : t.processList pid = some proc) (fd : Fd) : t.objectAt pid fd = proc.objects fd := by
  rw [Tables.objectAt, found, Option.bind_some]

theorem removeObject_free {t : Tables} {pid : Pid} {proc : Process} {fd : Fd}
    (found : t.processList pid = some proc) (free : proc.objects fd = none) :
    t.removeObject pid fd = t := by
  simp only [Tables.removeObject, found, free]

/-- `setObject` gives up what it is to replace before it looks at the new object. -/
theorem setsOrKeeps_iff {t : Tables} {pid : Pid} {proc : Process} (pos : Int)
    (obj : Option Object) (found : t.processList pid = some proc) :
    SetsOrKeeps t pid pos obj ↔
      ¬ (0 ≤ pos ∧ obj = none ∧ (proc.descriptors.get pos.toNat).isSome) := by
  by_cases inside : 0 ≤ pos ∧ pos < 128
  · have bound := position_lt inside
    simp only [SetsOrKeeps, Tables.setObjectAt, dif_pos inside]
    cases obj with
    | some obj => simp [inside.1]
    | none =>
        rw [descriptors_get bound]
        simp only [reduceCtorEq, false_and, false_or, inside.1, true_and]
        constructor
        · intro keeps held
          obtain ⟨proc', found', unbound⟩ := removeObject_unbinds found ⟨pos.toNat, bound⟩
          have kept := keeps pid ⟨pos.toNat, bound⟩
          have gone := congrArg (fun table => table.get pos.toNat) unbound
          simp only [Table.unbind_self, descriptors_get bound] at gone
          rw [objectAt_self found', objectAt_self found, gone] at kept
          rw [← kept] at held
          cases held
        · intro free owner fd
          have empty := Option.not_isSome_iff_eq_none.mp free
          rw [removeObject_free found empty]
  · simp only [SetsOrKeeps, Tables.setObjectAt, dif_neg inside]
    refine iff_of_true (Or.inr fun _ _ => trivial) ?_
    intro held
    have beyond : 128 ≤ pos.toNat := by omega
    rw [proc.descriptors.bounded _ beyond] at held
    cases held.2.2

/-- When the object table acts as a map: `open` must find a place if its path names something,
`dup2` must have its first argument in range, bound if it is also the second, and its second
in range if the first is bound; `setObject` must not be given null for a bound position. A run
of such calls is a run of the map. -/
theorem descriptor_table_iff (fs : FileSystem) :
    (∀ s proc call, s.processList s.currentProcess = some proc →
      (FdCall.Refines fs s proc call ↔ call.Regular fs s proc)) ∧
    (∀ t pid proc pos obj, t.processList pid = some proc →
      (SetsOrKeeps t pid pos obj ↔
        ¬ (0 ≤ pos ∧ obj = none ∧ (proc.descriptors.get pos.toNat).isSome))) ∧
    ∀ objects calls objects', Run (FdStep fs) objects calls objects' →
      Run MapStep (ofCells objects) calls (ofCells objects') := by
  refine ⟨?_, ?_, ?_⟩
  · intro s proc call found
    exact fdCall_refines call found
  · intro t pid proc pos obj found
    exact setsOrKeeps_iff pos obj found
  · intro objects calls objects' run
    apply run.simulate ofCells
    intro mid label next step
    exact step.mapStep

/-- `dup2` of the first free descriptor to itself, by the process that runs after a fork. -/
theorem dup2_of_unbound_succeeds :
    ¬ ∀ fs place s, Reachable fs place HltProgram s → ∀ proc call,
      s.processList s.currentProcess = some proc → FdCall.Refines fs s proc call := by
  intro claim
  obtain ⟨s, reachable, unbound⟩ := smallRun_exists HltProgram [plainCall 2 0 0 0]
    (fun s => s.toTables.objectAt s.currentProcess 3 = none) (by decide +kernel)
  obtain ⟨proc, awake⟩ := reachable.inv.running
  have refines := claim _ _ s reachable proc (.dup2 3 3) awake.1
  have bound : (proc.descriptors.get 3).isSome := (dup2_same 3 awake.1).mp refines
  rw [descriptors_get (by decide : 3 < 128)] at bound
  rw [objectAt_self awake.1] at unbound
  have free : proc.objects ⟨3, by decide⟩ = none := unbound
  rw [free] at bound
  cases bound

end SysImpl.Kernel
