import SysImpl.Kernel.Images
import Mathlib.Data.List.Sort

/-! How a call of `execv` can end.

The loader checks the file before `exec` changes anything, but not all of it: after the
point of no return `addObject` can still find the object table full, and the section table
is indexed by the position of a header in the file. -/

namespace SysImpl.Kernel

open Bytes

def keptObjects (call : ExecCall) (objects : Fd → Option Object) : Fd → Option Object := fun pos =>
  if keepsObject call.keepLow call.keepHigh pos then objects pos else none

def restoredMem (s : State) (ppid : Option Pid) (m : Mem) : Mem :=
  match ppid.bind s.processList with
  | none => m
  | some parent =>
      match parent.stackBackup with
      | none => m
      | some saved => copyTo m parent.stackTopBackup saved

/-- The complete effect of `exec`: registers, object table, stack and image. -/
structure Installed (place : Placement) (s : State) (pid : Pid) (proc : Process) (call : ExecCall)
    (content : List UInt8) (around : Surroundings) (sections : List Section) (entry : Nat)
    (s' : State) : Prop where
  room : sections.length ≤ (freeSegments (keptObjects call proc.objects)).length
  process : ∃ next, s'.processList pid = some next ∧
    next.usermodeState = startTss place pid entry ∧
    next.objects = attached (keptObjects call proc.objects)
      ((freeSegments (keptObjects call proc.objects)).zip (sections.map (Section.segment pid)))
  memory : s'.mem = restoredMem s proc.ppid
    (copySections content around pid 0 sections (storeStack place pid call.args s.mem))

variable {t : Tables} {pid : Pid} {proc : Process}

theorem removeObject_found (found : t.processList pid = some proc) (pos : Fd) :
    (t.removeObject pid pos).processList = Function.update t.processList pid
      (some { proc with objects := Function.update proc.objects pos none }) := by
  funext other
  by_cases here : other = pid
  · rw [here, removeObject_self found, Function.update_self]
  · rw [Function.update_of_ne here]
    rcases removeObject_processes t pid pos with same | bound
    · rw [same]
    · rw [bound, modify_processList, if_neg here]

theorem removeObjects_found (drop : Fd → Bool) (positions : List Fd)
    (found : t.processList pid = some proc) :
    (positions.foldl (fun t pos => if drop pos then t.removeObject pid pos else t) t).processList =
      Function.update t.processList pid (some { proc with
        objects := fun pos => if pos ∈ positions ∧ drop pos then none else proc.objects pos }) := by
  induction positions generalizing t proc with
  | nil => simp [← found]
  | cons pos rest ih =>
      rw [List.foldl_cons]
      by_cases dropped : drop pos
      · rw [if_pos dropped]
        have here : (t.removeObject pid pos).processList pid =
            some { proc with objects := Function.update proc.objects pos none } := by
          rw [removeObject_found found, Function.update_self]
        rw [ih here, removeObject_found found, Function.update_idem]
        congr 3
        funext other
        by_cases same : other = pos
        · simp [same, dropped]
        · simp [same]
      · rw [if_neg dropped, ih found]
        congr 3
        funext other
        by_cases same : other = pos
        · simp [same, dropped]
        · simp [same]

theorem removeObjects_kept (call : ExecCall) (found : t.processList pid = some proc) :
    (t.removeObjects pid fun pos => !keepsObject call.keepLow call.keepHigh pos).processList =
      Function.update t.processList pid
        (some { proc with objects := keptObjects call proc.objects }) := by
  rw [Tables.removeObjects, removeObjects_found _ _ found]
  congr 3
  funext pos
  cases keeps : keepsObject call.keepLow call.keepHigh pos with
  | false => simp [keptObjects, keeps]
  | true => simp [keptObjects, keeps]

theorem reset_processes (place : Placement) (call : ExecCall) (entry : Nat)
    (found : t.processList pid = some proc) :
    ((t.removeObjects pid fun pos => !keepsObject call.keepLow call.keepHigh pos).modify pid
        fun proc => { proc with usermodeState := startTss place pid entry }).processList =
      Function.update t.processList pid (some { proc with
        usermodeState := startTss place pid entry
        objects := keptObjects call proc.objects }) := by
  have removed := removeObjects_kept call found
  funext other
  rw [modify_processList, removed]
  by_cases here : other = pid
  · rw [if_pos here, here, Function.update_self, Function.update_self]
    rfl
  · rw [if_neg here, Function.update_of_ne here, Function.update_of_ne here]

def execedProcess (place : Placement) (pid : Pid) (call : ExecCall) (sections : List Section)
    (entry : Nat) (proc : Process) : Process :=
  Process.attachSections pid sections { proc with
    usermodeState := startTss place pid entry
    objects := keptObjects call proc.objects }

theorem execedProcess_rest (place : Placement) (pid : Pid) (call : ExecCall)
    (sections : List Section) (entry : Nat) (proc : Process) :
    let next := execedProcess place pid call sections entry proc
    next.serial = proc.serial ∧ next.ppid = proc.ppid ∧ next.stackBackup = proc.stackBackup ∧
      next.stackTopBackup = proc.stackTopBackup := by
  simp only [execedProcess, Process.attachSections, and_self]

section Install

variable (place : Placement) (s : State) (call : ExecCall) (content : List UInt8)
  (around : Surroundings) (sections : List Section) (entry : Nat)

theorem install_spec (found : s.processList pid = some proc) :
    let installed := install place s pid call content around sections entry
    let room := (freeSegments (keptObjects call proc.objects)).length
    installed.2 = decide (sections.length ≤ room) ∧
      installed.1.processList = Function.update s.processList pid
        (some (execedProcess place pid call sections entry proc)) ∧
      installed.1.mem = copySections content around pid 0 (sections.take (room + 1))
        (storeStack place pid call.args s.mem) := by
  have reset := reset_processes place call entry found
  have loaded := loadSections_spec content around 0 sections (storeStack place pid call.args s.mem)
    ((congrFun reset pid).trans (Function.update_self pid _ _))
  simp only [install, loaded]
  refine ⟨trivial, ?_, trivial⟩
  rw [setProcess_processList, reset, Function.update_idem]
  rfl

theorem restoreParent_mem (s : State) (ppid : Option Pid) :
    (restoreParent s ppid).mem = restoredMem s ppid s.mem := by
  cases ppid with
  | none => rfl
  | some parent =>
      simp only [restoreParent, restoreStack, restoredMem, Option.bind_some]
      cases s.processList parent with
      | none => rfl
      | some proc =>
          cases backup : proc.stackBackup with
          | none => simp [backup]
          | some saved => simp [backup]

theorem install_complete (found : s.processList pid = some proc)
    (room : sections.length ≤ (freeSegments (keptObjects call proc.objects)).length) :
    Installed place s pid proc call content around sections entry
      (finishExec (install place s pid call content around sections entry).1 pid) := by
  obtain ⟨_, processes, memory⟩ := install_spec place s call content around sections entry found
  generalize install place s pid call content around sections entry = installed at processes memory
  have here : installed.1.processList pid =
      some (execedProcess place pid call sections entry proc) := by
    rw [processes, Function.update_self]
  obtain ⟨serial, ppid, backup, top⟩ := execedProcess_rest place pid call sections entry proc
  have regs : (execedProcess place pid call sections entry proc).usermodeState =
      startTss place pid entry := by simp only [execedProcess, Process.attachSections]
  have objects : (execedProcess place pid call sections entry proc).objects =
      attached (keptObjects call proc.objects) ((freeSegments (keptObjects call proc.objects)).zip
        (sections.map (Section.segment pid))) := by
    simp only [execedProcess, Process.attachSections]
  have finished : finishExec installed.1 pid =
      restoreParent (installed.1.note (.execed ⟨pid, proc.serial⟩)) proc.ppid := by
    simp only [finishExec, here, serial, ppid]
  generalize execedProcess place pid call sections entry proc = next at *
  refine ⟨room, ?_, ?_⟩
  · have tables := restoreParent_tables (installed.1.note (.execed ⟨pid, proc.serial⟩)) proc.ppid
    rw [finished, tables]
    cases known : proc.ppid with
    | none => exact ⟨next, here, regs, objects⟩
    | some parent =>
        by_cases same : pid = parent
        · refine ⟨next.wake, ?_, ?_, ?_⟩
          · simp only [Tables.wakeParent, modify_processList, if_pos same, State.note_tables,
              note_processList, here, Option.map_some]
          · rw [← regs, Process.wake]
            split
            · rfl
            · rfl
          · rw [← objects, Process.wake]
            split
            · rfl
            · rfl
        · refine ⟨next, ?_, regs, objects⟩
          simp only [Tables.wakeParent, modify_processList, if_neg same, State.note_tables,
            note_processList]
          exact here
  · have whole : sections.take ((freeSegments (keptObjects call proc.objects)).length + 1) =
        sections := List.take_of_length_le (by omega)
    rw [whole] at memory
    have same : ∀ m, restoredMem (installed.1.note (.execed ⟨pid, proc.serial⟩)) proc.ppid m =
        restoredMem s proc.ppid m := by
      intro m
      cases known : proc.ppid with
      | none => rfl
      | some parent =>
          simp only [restoredMem, Option.bind_some, State.note_tables, note_processList, processes]
          by_cases own : parent = pid
          · rw [own, Function.update_self, found]
            simp only [backup, top]
          · rw [Function.update_of_ne own]
    rw [finished, restoreParent_mem, same]
    exact congrArg _ memory

end Install

theorem freeSegments_attached (objects : Fd → Option Object) (segments : List Object)
    (room : segments.length ≤ (freeSegments objects).length) :
    freeSegments (attached objects ((freeSegments objects).zip segments)) =
      (freeSegments objects).drop segments.length := by
  induction segments generalizing objects with
  | nil => simp [attached]
  | cons obj rest ih =>
      cases free : freeSegments objects with
      | nil =>
          rw [free] at room
          simp at room
      | cons pos others =>
          have left := freeSegments_bind free obj
          have fewer : rest.length ≤ others.length := by
            rw [free] at room
            simpa using room
          have later := ih (Function.update objects pos (some obj)) (by rw [left]; exact fewer)
          rw [left] at later
          simpa [attached] using later

theorem Installed.same_length {place : Placement} {s s' : State} {call : ExecCall}
    {content content' : List UInt8} {around around' : Surroundings}
    {sections sections' : List Section} {entry entry' : Nat}
    (first : Installed place s pid proc call content around sections entry s')
    (second : Installed place s pid proc call content' around' sections' entry' s') :
    sections.length = sections'.length := by
  obtain ⟨next, found, _, objects⟩ := first.process
  obtain ⟨next', found', _, objects'⟩ := second.process
  have same : next = next' := Option.some.inj (found.symm.trans found')
  have left := freeSegments_attached (keptObjects call proc.objects)
    (sections.map (Section.segment pid)) (by simpa using first.room)
  have left' := freeSegments_attached (keptObjects call proc.objects)
    (sections'.map (Section.segment pid)) (by simpa using second.room)
  rw [← objects, List.length_map] at left
  rw [← objects', ← same, left, List.length_map] at left'
  have lengths := congrArg List.length left'
  simp only [List.length_drop] at lengths
  have room := first.room
  have room' := second.room
  omega

def tableEntry (b : Mem) (n : Nat) (stale : Nat → Section) (i : Nat) : Section :=
  if i ∈ (loadableHeaders b).take n then headerSection b i else stale i

theorem storeSections_fold (b : Mem) (n : Nat) (headers : List Nat) (table : Nat → Section) :
    headers.foldlM (fun table i =>
        if i < n then some (Function.update table i (headerSection b i)) else none) table =
      if ∀ i ∈ headers, i < n then
        some fun i => if i ∈ headers then headerSection b i else table i
      else none := by
  induction headers generalizing table with
  | nil => simp
  | cons first rest ih =>
      rw [List.foldlM_cons]
      by_cases inside : first < n
      · rw [if_pos inside]
        refine (ih (Function.update table first (headerSection b first))).trans ?_
        have both : (∀ i ∈ first :: rest, i < n) ↔ ∀ i ∈ rest, i < n := by simp [inside]
        simp only [both]
        split
        · congr 1
          funext i
          by_cases same : i = first
          · simp [same]
          · simp [same]
        · rfl
      · rw [if_neg inside]
        have outside : ¬ ∀ i ∈ first :: rest, i < n := fun all => inside (all first List.mem_cons_self)
        rw [if_neg outside]
        rfl

theorem storeSections_eq (b : Mem) (n : Nat) (stale : Nat → Section) :
    storeSections b n stale =
      if ∀ i ∈ (loadableHeaders b).take n, i < n then some (tableEntry b n stale) else none :=
  storeSections_fold b n ((loadableHeaders b).take n) stale

theorem loadableHeaders_range {b : Mem} {n : Nat} (length : (loadableHeaders b).length = n)
    (inside : ∀ i ∈ loadableHeaders b, i < n) : loadableHeaders b = List.range n := by
  have sorted : (loadableHeaders b).Pairwise (· < ·) := List.pairwise_lt_range.filter _
  have distinct : (loadableHeaders b).Nodup := sorted.imp fun less => Nat.ne_of_lt less
  have subset : loadableHeaders b ⊆ List.range n := by
    intro i member
    exact List.mem_range.mpr (inside i member)
  have perm : (loadableHeaders b).Perm (List.range n) :=
    (List.subperm_of_subset distinct subset).perm_of_length_le (by simp [length])
  exact perm.eq_of_pairwise (fun _ _ _ _ less greater => absurd less (Nat.lt_asymm greater)) sorted
    List.pairwise_lt_range

def fileSections (b : Mem) : List Section := (loadableHeaders b).map (headerSection b)

/-- A call of `execv` returns 0 with the file completely installed, or a negative number with
nothing changed. -/
def AllOrNothing (fs : FileSystem) (place : Placement) (s : State) (pid : Pid) (proc : Process)
    (path : List UInt8) (call : ExecCall) (around : Surroundings) : Prop :=
  ∃ s' ret, execv fs place s pid path call around = .ok (s', ret) ∧
    (ret < 0 ∧ s' = s ∨ ret = 0 ∧ ∃ image, fs.openFile path = some image ∧
      Installed place s pid proc call image.content around
        (fileSections (fileBytes image.content around 1))
        (elfEntry (fileBytes image.content around 1)) s')

/-- What `execv` takes for granted of a file of some bytes: there is room on the heap, what is
an ELF file in the first pass still is one in the second, its loadable headers are the first
ones, and the object table has room for their segments. -/
def LoadsWhole (proc : Process) (content : List UInt8) (call : ExecCall) (around : Surroundings) :
    Prop :=
  let counted := fileBytes content around 0
  let stored := fileBytes content around 1
  let n := countSections counted
  around.room 0 ∧ (elfIdent counted → around.room 1 ∧ elfIdent stored ∧
    (∀ i ∈ (loadableHeaders stored).take n, i < n) ∧
    ((∀ i < n, (tableEntry stored n (staleTable around) i).fits) →
      loadableHeaders stored = List.range n ∧ around.room 2 ∧
        n ≤ (freeSegments (keptObjects call proc.objects)).length))

theorem fileSections_range {b : Mem} {n : Nat} (stale : Nat → Section)
    (headers : loadableHeaders b = List.range n) :
    (List.range n).map (tableEntry b n stale) = fileSections b := by
  rw [fileSections, headers]
  apply List.map_congr_left
  intro i member
  rw [tableEntry, headers, List.take_of_length_le (by simp), if_pos member]

theorem exec_cases {place : Placement} {s : State} {call : ExecCall} {content : List UInt8}
    {around : Surroundings} (sections : List Section) (entry : Nat)
    (found : s.processList pid = some proc) :
    (¬ sections.all Section.fits ∧
      exec place s pid call content around sections entry = .ok none) ∨
    (sections.all Section.fits ∧ around.room 2 ∧
      sections.length ≤ (freeSegments (keptObjects call proc.objects)).length ∧
      ∃ s', exec place s pid call content around sections entry = .ok (some s') ∧
        Installed place s pid proc call content around sections entry s') ∨
    (sections.all Section.fits ∧ ¬ (around.room 2 ∧
      sections.length ≤ (freeSegments (keptObjects call proc.objects)).length) ∧
      ∃ stop, exec place s pid call content around sections entry = .error stop) := by
  by_cases fits : sections.all Section.fits
  · by_cases room : around.room 2
    · obtain ⟨ended, _⟩ := install_spec place s call content around sections entry found
      have complete := install_complete place s call content around sections entry found
      cases built : install place s pid call content around sections entry with
      | mk installed done =>
          rw [built] at ended complete
          simp only [exec, if_pos fits, if_pos room, built]
          by_cases enough :
              sections.length ≤ (freeSegments (keptObjects call proc.objects)).length
          · have whole : done = true := ended.trans (decide_eq_true enough)
            rw [whole]
            exact Or.inr (Or.inl ⟨fits, room, enough, _, rfl, complete enough⟩)
          · have stopped : done = false := ended.trans (decide_eq_false enough)
            rw [stopped]
            exact Or.inr (Or.inr ⟨fits, fun both => enough both.2, _, rfl⟩)
    · refine Or.inr (Or.inr ⟨fits, fun both => room both.1, .outOfHeapMemory, ?_⟩)
      simp only [exec, if_pos fits, if_neg room]
  · refine Or.inl ⟨fits, ?_⟩
    simp only [exec, if_neg fits]

theorem enoexec_neg : enoexec < 0 := by decide
theorem enoent_neg : enoent < 0 := by decide

theorem AllOrNothing.not_stopped {fs : FileSystem} {place : Placement} {s : State}
    {path : List UInt8} {call : ExecCall} {around : Surroundings} {stop : Stop}
    (ran : execv fs place s pid path call around = .error stop) :
    ¬ AllOrNothing fs place s pid proc path call around := by
  intro ⟨s', ret, returned, _⟩
  rw [ran] at returned
  cases returned

section Whole

variable {fs : FileSystem} {place : Placement} {s : State} {path : List UInt8} {call : ExecCall}
  {around : Surroundings}

theorem execv_stored {image : FileImage} (file : fs.openFile path = some image)
    (heap : around.room 0 = true) (ident : elfIdent (fileBytes image.content around 0) = true)
    (table : around.room 1 = true) (again : elfIdent (fileBytes image.content around 1) = true)
    {n : Nat} (number : countSections (fileBytes image.content around 0) = n)
    (inside : ∀ i ∈ (loadableHeaders (fileBytes image.content around 1)).take n, i < n) :
    execv fs place s pid path call around =
      (exec place s pid call image.content around ((List.range n).map (tableEntry
        (fileBytes image.content around 1) n (staleTable around)))
        (elfEntry (fileBytes image.content around 1))).map
          fun last => last.elim (s, enoexec) (·, 0) := by
  simp only [execv, file, heap, ident, table, again, if_true, number, storeSections_eq,
    if_pos inside]
  rcases exec place s pid call image.content around _ _ with stop | ⟨_ | last⟩
  · rfl
  · rfl
  · rfl

theorem stored_iff {image : FileImage} {n : Nat} (found : s.processList pid = some proc)
    (file : fs.openFile path = some image)
    (ran : execv fs place s pid path call around =
      (exec place s pid call image.content around ((List.range n).map (tableEntry
        (fileBytes image.content around 1) n (staleTable around)))
        (elfEntry (fileBytes image.content around 1))).map
          fun last => last.elim (s, enoexec) (·, 0))
    (inside : ∀ i ∈ (loadableHeaders (fileBytes image.content around 1)).take n, i < n) :
    AllOrNothing fs place s pid proc path call around ↔
      ((∀ i < n, (tableEntry (fileBytes image.content around 1) n (staleTable around) i).fits) →
        loadableHeaders (fileBytes image.content around 1) = List.range n ∧ around.room 2 ∧
          n ≤ (freeSegments (keptObjects call proc.objects)).length) := by
  generalize storing : fileBytes image.content around 1 = stored at ran inside
  have each : ((List.range n).map (tableEntry stored n (staleTable around))).all Section.fits ↔
      ∀ i < n, (tableEntry stored n (staleTable around) i).fits := by simp
  rcases exec_cases ((List.range n).map (tableEntry stored n (staleTable around)))
      (elfEntry stored) found with
    ⟨rejected, ended⟩ | ⟨fits, heap, room, last, ended, installed⟩ | ⟨fits, full, stop, ended⟩
  · rw [ended] at ran
    refine ⟨fun _ fits => absurd (each.mpr fits) rejected, fun _ => ⟨s, enoexec, ran, ?_⟩⟩
    exact Or.inl ⟨enoexec_neg, rfl⟩
  · have ran : execv fs place s pid path call around = .ok (last, 0) := by rw [ran, ended]; rfl
    rw [List.length_map, List.length_range] at room
    constructor
    · intro ⟨s', ret, returned, outcome⟩ _
      refine ⟨?_, heap, room⟩
      rw [ran, Except.ok.injEq, Prod.mk.injEq] at returned
      rcases outcome with ⟨negative, _⟩ | ⟨_, other, same, whole⟩
      · rw [← returned.2] at negative
        exact absurd negative (by decide)
      · -- The number of headers shows in the object table.
        rw [file, Option.some.injEq] at same
        rw [← same, storing, ← returned.1] at whole
        have length := installed.same_length whole
        simp only [fileSections, List.length_map, List.length_range] at length
        rw [length, List.take_length] at inside
        rw [length]
        exact loadableHeaders_range rfl inside
    · intro whole
      obtain ⟨headers, _, _⟩ := whole (each.mp fits)
      rw [fileSections_range _ headers] at installed
      refine ⟨last, 0, ran, Or.inr ⟨rfl, image, file, ?_⟩⟩
      rw [storing]
      exact installed
  · have ran : execv fs place s pid path call around = .error stop := by rw [ran, ended]; rfl
    refine ⟨fun whole => absurd whole (AllOrNothing.not_stopped ran), ?_⟩
    intro whole
    obtain ⟨_, heap, room⟩ := whole (each.mp fits)
    exact absurd ⟨heap, by simpa using room⟩ full

theorem parsed_iff {image : FileImage} (found : s.processList pid = some proc)
    (file : fs.openFile path = some image) (heap : around.room 0 = true)
    (ident : elfIdent (fileBytes image.content around 0) = true) :
    AllOrNothing fs place s pid proc path call around ↔
      around.room 1 ∧ elfIdent (fileBytes image.content around 1) ∧
      (∀ i ∈ (loadableHeaders (fileBytes image.content around 1)).take
        (countSections (fileBytes image.content around 0)),
          i < countSections (fileBytes image.content around 0)) ∧
      ((∀ i < countSections (fileBytes image.content around 0),
          (tableEntry (fileBytes image.content around 1)
            (countSections (fileBytes image.content around 0)) (staleTable around) i).fits) →
        loadableHeaders (fileBytes image.content around 1) =
          List.range (countSections (fileBytes image.content around 0)) ∧ around.room 2 ∧
            countSections (fileBytes image.content around 0) ≤
              (freeSegments (keptObjects call proc.objects)).length) := by
  generalize number : countSections (fileBytes image.content around 0) = n
  cases table : around.room 1 with
  | false =>
      have ran : execv fs place s pid path call around = .error .outOfHeapMemory := by
        simp [execv, file, heap, ident, table]
      exact ⟨fun whole => absurd whole (AllOrNothing.not_stopped ran),
        fun whole => absurd whole.1 (by decide)⟩
  | true =>
      cases again : elfIdent (fileBytes image.content around 1) with
      | false =>
          have ran : execv fs place s pid path call around = .error .uncaughtException := by
            simp [execv, file, heap, ident, table, again]
          exact ⟨fun whole => absurd whole (AllOrNothing.not_stopped ran),
            fun whole => absurd whole.2.1 (by decide)⟩
      | true =>
          by_cases inside : ∀ i ∈ (loadableHeaders (fileBytes image.content around 1)).take n, i < n
          · rw [stored_iff found file
              (execv_stored file heap ident table again number inside) inside]
            exact ⟨fun whole => ⟨rfl, rfl, inside, whole⟩, fun whole => whole.2.2.2⟩
          · have ran : execv fs place s pid path call around = .error .indexOutOfRange := by
              simp only [execv, file, heap, ident, table, again, if_true, number, storeSections_eq,
                if_neg inside]
            exact ⟨fun whole => absurd whole (AllOrNothing.not_stopped ran),
              fun whole => absurd whole.2.2.1 inside⟩

/-- The call is all or nothing exactly for the files that `execv` can load whole. -/
theorem exec_all_or_nothing_iff (found : s.processList pid = some proc) :
    AllOrNothing fs place s pid proc path call around ↔
      ∀ image, fs.openFile path = some image → LoadsWhole proc image.content call around := by
  cases file : fs.openFile path with
  | none =>
      have ran : execv fs place s pid path call around = .ok (s, enoent) := by
        simp only [execv, file]
      refine ⟨fun _ image here => (by cases here), fun _ => ⟨s, enoent, ran, ?_⟩⟩
      exact Or.inl ⟨enoent_neg, rfl⟩
  | some image =>
      have only : (∀ other, some image = some other → LoadsWhole proc other.content call around) ↔
          LoadsWhole proc image.content call around := by simp
      rw [only, LoadsWhole]
      cases heap : around.room 0 with
      | false =>
          have ran : execv fs place s pid path call around = .error .outOfHeapMemory := by
            simp [execv, file, heap]
          exact ⟨fun whole => absurd whole (AllOrNothing.not_stopped ran),
            fun whole => absurd whole.1 (by decide)⟩
      | true =>
          cases ident : elfIdent (fileBytes image.content around 0) with
          | false =>
              have ran : execv fs place s pid path call around = .ok (s, enoexec) := by
                simp [execv, file, heap, ident]
              refine ⟨fun _ => ⟨rfl, fun elf => absurd elf (by decide)⟩,
                fun _ => ⟨s, enoexec, ran, ?_⟩⟩
              exact Or.inl ⟨enoexec_neg, rfl⟩
          | true =>
              simp only [true_and, forall_const]
              exact parsed_iff found file heap ident

end Whole

section Sample

def programFile (count : Nat) : List UInt8 :=
  [0x7f, 0x45, 0x4c, 0x46, 1, 1] ++ List.replicate 22 0 ++ [52, 0, 0, 0] ++ List.replicate 20 0 ++
    (List.replicate count ([1, 0, 0, 0] ++ List.replicate 16 0 ++ [4, 0, 0, 0] ++
      List.replicate 8 0)).flatten

def programVolume (count : Nat) : FileSystem := ⟨fun _ => some ⟨programFile count, none⟩⟩

def plainState : State where
  toTables := bootTables fun _ => 0
  currentProcess := 0
  processSleepUntil := fun _ => 0
  com1 := ⟨false, [], []⟩
  con := ⟨false, [], []⟩
  hw := smallBoot.hw
  mem := fun _ => 0
  userTss := default
  files := []

instance (proc : Process) (content : List UInt8) (call : ExecCall) (around : Surroundings) :
    Decidable (LoadsWhole proc content call around) :=
  inferInstanceAs (Decidable (_ ∧ (_ → _)))

/-- A file with one section is installed. -/
theorem exec_all_or_nothing_one :
    AllOrNothing (programVolume 1) smallPlacement plainState 0 initProcess [] ⟨[], 7, 0⟩
      smallSurroundings := by
  apply (exec_all_or_nothing_iff (bootTables_process _ 0)).mpr
  intro image file
  rw [← Option.some.inj file]
  decide +kernel

/-- A file with one section more than an object table holds stops the kernel, when the objects
and registers of the process are already gone. -/
theorem exec_stops_midway :
    ¬ ∀ fs place s pid proc path call around, s.processList pid = some proc →
      AllOrNothing fs place s pid proc path call around := by
  intro claim
  obtain ⟨s', ret, ran, _⟩ := claim (programVolume 17) smallPlacement plainState 0 initProcess []
    ⟨[], 7, 0⟩ smallSurroundings (bootTables_process _ 0)
  have stopped : (execv (programVolume 17) smallPlacement plainState 0 [] ⟨[], 7, 0⟩
      smallSurroundings).toOption.isNone = true := by decide +kernel
  rw [ran] at stopped
  cases stopped

end Sample

end SysImpl.Kernel
