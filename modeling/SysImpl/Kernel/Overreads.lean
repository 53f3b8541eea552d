import SysImpl.Kernel.Headers

/-! Which offsets of its file buffer a call of `execv` reads.

Neither `parseElfSections` nor the copy of the sections knows the size of the buffer. The
offsets are kept in the order of the reads, up to where the call returns or stops. -/

namespace SysImpl.Kernel

open Bytes

def elfMagic : List UInt8 := [0x7f, 0x45, 0x4c, 0x46, 1, 1]

def identReads (b : Mem) : Nat → List UInt8 → List Nat
  | _, [] => []
  | i, ch :: rest => i :: if b i = ch then identReads b (i + 1) rest else []

def sectionReads (sec : Section) : List Nat :=
  (List.range sec.limit).map fun j => u32 (sec.offset + j)

def loadReads (pid : Pid) : List Section → Tables → List Nat
  | [], _ => []
  | sec :: rest, t =>
      sectionReads sec ++ match t.addObject pid (.segment (sec.relocate pid) sec.limit) with
        | none => []
        | some (_, t) => loadReads pid rest t

def execReads (place : Placement) (s : State) (pid : Pid) (call : ExecCall)
    (around : Surroundings) (sections : List Section) (entry : Nat) : List Nat :=
  if sections.all Section.fits then
    if around.room 2 then
      let t := s.toTables.removeObjects pid fun pos => !keepsObject call.keepLow call.keepHigh pos
      let t := t.modify pid fun proc => { proc with usermodeState := startTss place pid entry }
      loadReads pid sections t
    else []
  else []

/-- `execv` from its second call of `parseElfSections` on, with a table of `n` entries. -/
def storedReads (place : Placement) (s : State) (pid : Pid) (call : ExecCall)
    (content : List UInt8) (around : Surroundings) (n : Nat) : List Nat :=
  let stored := fileBytes content around 1
  match parseElfSections stored true n with
  | none => identReads stored 0 elfMagic
  | some second =>
      second.reads ++ match storeSections stored n (staleTable around) with
        | none => []
        | some table =>
            execReads place s pid call around ((List.range n).map table) (elfEntry stored)

def execvReads (place : Placement) (s : State) (pid : Pid) (call : ExecCall)
    (content : List UInt8) (around : Surroundings) : List Nat :=
  if around.room 0 then
    let counted := fileBytes content around 0
    match parseElfSections counted false 0 with
    | none => identReads counted 0 elfMagic
    | some first =>
        first.reads ++
          if around.room 1 then storedReads place s pid call content around first.num else []
  else []

/-- The call returns `-ENOEXEC` or reads its file buffer only at offsets in the file. -/
def Contained (fs : FileSystem) (place : Placement) (s : State) (pid : Pid) (path : List UInt8)
    (call : ExecCall) (around : Surroundings) : Prop :=
  (∃ s', execv fs place s pid path call around = .ok (s', enoexec)) ∨
    ∀ image, fs.openFile path = some image →
      ∀ x ∈ execvReads place s pid call image.content around, x < image.content.length

/-- The file is not accepted: it is not ELF, or one of its sections is too large. -/
def Rejects (content : List UInt8) (around : Surroundings) : Prop :=
  let stored := fileBytes content around 1
  let n := countSections (fileBytes content around 0)
  elfIdent (fileBytes content around 0) = false ∨
    (around.room 1 = true ∧ elfIdent stored = true ∧ (∀ i ∈ (loadableHeaders stored).take n, i < n) ∧
      ∃ i < n, ¬ (tableEntry stored n (staleTable around) i).fits = true)

structure HeadersInside (content : List UInt8) (around : Surroundings) : Prop where
  header : 32 ≤ content.length
  types : ∀ i < elfPhoff (fileBytes content around 0),
    ∀ x ∈ wordReads (phdr (fileBytes content around 0) i), x < content.length

def FieldsInside (content : List UInt8) (around : Surroundings) : Prop :=
  ∀ i ∈ loadableHeaders (fileBytes content around 0),
    ∀ x ∈ fieldReads (fileBytes content around 0) i, x < content.length

/-- The segments are in the file, up to one more than there is room for in the object table. -/
def SegmentsInside (proc : Process) (content : List UInt8) (call : ExecCall)
    (around : Surroundings) : Prop :=
  ∀ i < min (countSections (fileBytes content around 0))
      ((freeSegments (keptObjects call proc.objects)).length + 1),
    ∀ x ∈ sectionReads (headerSection (fileBytes content around 0) i), x < content.length

def StagesInside (proc : Process) (content : List UInt8) (call : ExecCall)
    (around : Surroundings) : Prop :=
  let counted := fileBytes content around 0
  let n := countSections counted
  HeadersInside content around ∧ (around.room 1 = true → FieldsInside content around ∧
    (loadableHeaders counted = List.range n → (∀ i < n, (headerSection counted i).fits = true) →
      around.room 2 = true → SegmentsInside proc content call around))

variable {content : List UInt8} {around : Surroundings} {pid : Pid} {proc : Process}

theorem fileBytes_pass {pass pass' x : Nat} (inside : u32 x < content.length) :
    fileBytes content around pass x = fileBytes content around pass' x := by
  simp [fileBytes, inside]

theorem load32_pass {pass pass' x : Nat} (inside : ∀ y ∈ wordReads x, y < content.length) :
    load32 (fileBytes content around pass) x = load32 (fileBytes content around pass') x := by
  have byte : ∀ j < 4, fileBytes content around pass (x + j) =
      fileBytes content around pass' (x + j) := by
    intro j small
    apply fileBytes_pass
    apply inside
    exact List.mem_map_of_mem (List.mem_range.mpr small)
  have first := byte 0 (by omega)
  rw [Nat.add_zero] at first
  rw [load32, load32, first, byte 1 (by omega), byte 2 (by omega), byte 3 (by omega)]

theorem small_word {x y : Nat} (small : x + 4 ≤ 2 ^ 32) :
    y ∈ wordReads x ↔ x ≤ y ∧ y < x + 4 := by
  simp only [wordReads, List.mem_map, List.mem_range, u32]
  constructor
  · intro listed
    obtain ⟨j, below, rfl⟩ := listed
    rw [Nat.mod_eq_of_lt (by omega)]
    omega
  · intro within
    exact ⟨y - x, by omega, by rw [Nat.mod_eq_of_lt (by omega)]; omega⟩

namespace HeadersInside

variable (headers : HeadersInside content around)
include headers

theorem word {x : Nat} (early : x + 4 ≤ 32) : ∀ y ∈ wordReads x, y < content.length := by
  intro y member
  have header := headers.header
  have within := (small_word (by omega)).mp member
  omega

theorem ident : elfIdent (fileBytes content around 1) = elfIdent (fileBytes content around 0) := by
  have header := headers.header
  have byte : ∀ x < 6, fileBytes content around 1 x = fileBytes content around 0 x := by
    intro x small
    apply fileBytes_pass
    rw [u32, Nat.mod_eq_of_lt (by omega)]
    omega
  simp only [elfIdent]
  rw [byte 0 (by omega), byte 1 (by omega), byte 2 (by omega), byte 3 (by omega),
    byte 4 (by omega), byte 5 (by omega)]

theorem phoff : elfPhoff (fileBytes content around 1) = elfPhoff (fileBytes content around 0) :=
  load32_pass (headers.word (by omega))

theorem phdr (i : Nat) :
    phdr (fileBytes content around 1) i = phdr (fileBytes content around 0) i := by
  rw [Kernel.phdr, Kernel.phdr, headers.phoff]

theorem loadableHeaders :
    loadableHeaders (fileBytes content around 1) = loadableHeaders (fileBytes content around 0) := by
  rw [Kernel.loadableHeaders, Kernel.loadableHeaders, headers.phoff]
  apply List.filter_congr
  intro i member
  rw [loadable, loadable, headers.phdr,
    load32_pass (headers.types i (List.mem_range.mp member))]

theorem fieldReads (i : Nat) :
    fieldReads (fileBytes content around 1) i = fieldReads (fileBytes content around 0) i := by
  rw [Kernel.fieldReads, Kernel.fieldReads, headers.phdr]

theorem headerSection (fields : FieldsInside content around) {i : Nat}
    (member : i ∈ Kernel.loadableHeaders (fileBytes content around 0)) :
    headerSection (fileBytes content around 1) i = headerSection (fileBytes content around 0) i := by
  have inside := fields i member
  simp only [Kernel.fieldReads, List.mem_append] at inside
  simp only [Kernel.headerSection, headers.phdr]
  rw [load32_pass fun y word => inside y (Or.inl (Or.inl word)),
    load32_pass fun y word => inside y (Or.inl (Or.inr word)),
    load32_pass fun y word => inside y (Or.inr word)]

end HeadersInside

theorem loadReads_spec (sections : List Section) {t : Tables}
    (found : t.processList pid = some proc) :
    loadReads pid sections t =
      (sections.take ((freeSegments proc.objects).length + 1)).flatMap sectionReads := by
  induction sections generalizing t proc with
  | nil => simp [loadReads]
  | cons sec rest ih =>
      simp only [loadReads, Tables.addObject, found, Option.bind_some, freePosition_segment]
      cases free : freeSegments proc.objects with
      | nil => simp
      | cons pos others =>
          have bound : (t.modify pid (Process.bind pos (some (sec.segment pid)))).processList pid =
              some (proc.bind pos (some (sec.segment pid))) := by
            rw [modify_processList, if_pos rfl, found, Option.map_some]
          have left : freeSegments (proc.bind pos (some (sec.segment pid))).objects = others :=
            freeSegments_bind free (sec.segment pid)
          have later := ih bound
          rw [left] at later
          simp only [List.head?_cons, Option.map_some]
          rw [List.length_cons, List.take_succ_cons, List.flatMap_cons, ← later]
          rfl

theorem execReads_spec {place : Placement} {s : State} {call : ExecCall} (sections : List Section)
    (entry : Nat) (found : s.processList pid = some proc) (fits : sections.all Section.fits)
    (room : around.room 2 = true) :
    execReads place s pid call around sections entry =
      (sections.take ((freeSegments (keptObjects call proc.objects)).length + 1)).flatMap
        sectionReads := by
  simp only [execReads, if_pos fits, if_pos room]
  have reset := congrFun (reset_processes place call entry found) pid
  rw [Function.update_self] at reset
  have copied := loadReads_spec sections reset
  exact copied

variable {fs : FileSystem} {place : Placement} {s : State} {path : List UInt8} {call : ExecCall}

theorem execv_rejects_iff {image : FileImage} (found : s.processList pid = some proc)
    (file : fs.openFile path = some image) (heap : around.room 0 = true) :
    (∃ s', execv fs place s pid path call around = .ok (s', enoexec)) ↔
      Rejects image.content around := by
  simp only [Rejects]
  generalize number : countSections (fileBytes image.content around 0) = n
  cases ident : elfIdent (fileBytes image.content around 0) with
  | false => simp [execv, file, heap, ident]
  | true =>
      cases table : around.room 1 with
      | false => simp [execv, file, heap, ident, table]
      | true =>
          cases again : elfIdent (fileBytes image.content around 1) with
          | false => simp [execv, file, heap, ident, table, again]
          | true =>
              by_cases inside :
                  ∀ i ∈ (loadableHeaders (fileBytes image.content around 1)).take n, i < n
              · have each : ((List.range n).map (tableEntry (fileBytes image.content around 1) n
                    (staleTable around))).all Section.fits ↔ ¬ ∃ i < n, ¬ (tableEntry
                      (fileBytes image.content around 1) n (staleTable around) i).fits = true := by
                  simp
                rw [execv_stored file heap ident table again number inside]
                simp only [reduceCtorEq, true_and, false_or]
                rcases exec_cases ((List.range n).map (tableEntry
                      (fileBytes image.content around 1) n (staleTable around)))
                    (elfEntry (fileBytes image.content around 1)) found with
                  ⟨rejected, ended⟩ | ⟨fits, -, -, last, ended, -⟩ | ⟨fits, -, stop, ended⟩
                · rw [ended]
                  rw [each, not_not] at rejected
                  exact iff_of_true ⟨s, rfl⟩ ⟨inside, rejected⟩
                · rw [ended]
                  refine iff_of_false ?_ fun unfit => each.mp fits unfit.2
                  intro returned
                  obtain ⟨s', same⟩ := returned
                  cases same
                · rw [ended]
                  refine iff_of_false ?_ fun unfit => each.mp fits unfit.2
                  intro returned
                  obtain ⟨s', same⟩ := returned
                  cases same
              · simp [execv, file, heap, ident, table, again, number, storeSections_eq, inside]

theorem fieldReads_inside_iff {second : Parsed} (headers : HeadersInside content around)
    (reads : ∀ x, x ∈ second.reads ↔ x < 6 ∨ x ∈ wordReads 24 ∨ x ∈ wordReads 28 ∨
      (∃ j < elfPhoff (fileBytes content around 0),
        x ∈ wordReads (phdr (fileBytes content around 0) j)) ∨
      ∃ j ∈ loadableHeaders (fileBytes content around 0),
        x ∈ fieldReads (fileBytes content around 0) j) :
    (∀ x ∈ second.reads, x < content.length) ↔ FieldsInside content around := by
  constructor
  · intro inside i member x field
    exact inside x ((reads x).mpr (Or.inr (Or.inr (Or.inr (Or.inr ⟨i, member, field⟩)))))
  · intro fields x read
    rcases (reads x).mp read with
      early | word | word | ⟨i, below, word⟩ | ⟨i, member, field⟩
    · exact (Nat.lt_of_lt_of_le early (by decide)).trans_le headers.header
    · exact headers.word (by decide) x word
    · exact headers.word (by decide) x word
    · exact headers.types i below x word
    · exact fields i member x field

theorem segmentReads_inside_iff :
    (∀ x ∈ ((List.range (min (countSections (fileBytes content around 0))
        ((freeSegments (keptObjects call proc.objects)).length + 1))).map
          (headerSection (fileBytes content around 0))).flatMap sectionReads, x < content.length) ↔
      SegmentsInside proc content call around := by
  simp only [SegmentsInside, List.mem_flatMap, List.mem_map, List.mem_range]
  constructor
  · intro copies i below x read
    exact copies x ⟨_, ⟨i, below, rfl⟩, read⟩
  · intro copies x read
    obtain ⟨_, ⟨i, below, rfl⟩, read⟩ := read
    exact copies i below x read

theorem storedReads_inside_iff (found : s.processList pid = some proc)
    (headers : HeadersInside content around)
    (ident : elfIdent (fileBytes content around 0) = true) :
    (∀ x ∈ storedReads place s pid call content around
        (countSections (fileBytes content around 0)), x < content.length) ↔
      FieldsInside content around ∧
        (loadableHeaders (fileBytes content around 0) =
            List.range (countSections (fileBytes content around 0)) →
          (∀ i < countSections (fileBytes content around 0),
            (headerSection (fileBytes content around 0) i).fits = true) →
          around.room 2 = true → SegmentsInside proc content call around) := by
  obtain ⟨second, ran, -, -, -, reads⟩ := parseElfSections_spec
    (headers.ident.trans ident) true (countSections (fileBytes content around 0))
  simp only [storedReads, ran, storeSections_eq]
  have whole : (loadableHeaders (fileBytes content around 1)).take
      (countSections (fileBytes content around 0)) =
        loadableHeaders (fileBytes content around 0) := by
    rw [headers.loadableHeaders, countSections, List.take_length]
  simp only [whole, headers.phoff, headers.phdr, headers.fieldReads, true_and] at reads ⊢
  simp only [List.forall_mem_append, fieldReads_inside_iff headers reads]
  refine and_congr_right fun fields => ?_
  generalize number : countSections (fileBytes content around 0) = n at *
  by_cases inside : ∀ i ∈ loadableHeaders (fileBytes content around 0), i < n
  · have ordered : loadableHeaders (fileBytes content around 0) = List.range n :=
      loadableHeaders_range number inside
    have entry : ∀ i < n, tableEntry (fileBytes content around 1) n (staleTable around) i =
        headerSection (fileBytes content around 0) i := by
      intro i below
      have member : i ∈ loadableHeaders (fileBytes content around 0) := by
        rw [ordered]
        exact List.mem_range.mpr below
      rw [tableEntry, whole, if_pos member, headers.headerSection fields member]
    have sections : (List.range n).map
        (tableEntry (fileBytes content around 1) n (staleTable around)) =
          (List.range n).map (headerSection (fileBytes content around 0)) := by
      apply List.map_congr_left
      intro i member
      exact entry i (List.mem_range.mp member)
    rw [if_pos inside]
    simp only [sections, ordered, true_imp_iff]
    by_cases fits : ∀ i < n, (headerSection (fileBytes content around 0) i).fits = true
    · have all : ((List.range n).map (headerSection (fileBytes content around 0))).all
          Section.fits = true := by simpa using fits
      cases room : around.room 2 with
      | false =>
          simp [execReads, all, room]
      | true =>
          rw [execReads_spec _ _ found all room, ← List.map_take, List.take_range, Nat.min_comm]
          have copied := @segmentReads_inside_iff content around proc call
          rw [number] at copied
          rw [copied]
          exact ⟨fun copies _ _ => copies, fun copies => copies fits rfl⟩
    · have some : ¬ ((List.range n).map (headerSection (fileBytes content around 0))).all
          Section.fits = true := by simpa using fits
      simp [execReads, some, fits]
  · have disordered : loadableHeaders (fileBytes content around 0) ≠ List.range n := by
      intro ordered
      apply inside
      intro i member
      rw [ordered] at member
      exact List.mem_range.mp member
    simp [inside, disordered]

theorem countedReads_inside_iff {first : Parsed}
    (reads : ∀ x, x ∈ first.reads ↔ x < 6 ∨ (false = true ∧ x ∈ wordReads 24) ∨ x ∈ wordReads 28 ∨
      (∃ j < elfPhoff (fileBytes content around 0),
        x ∈ wordReads (phdr (fileBytes content around 0) j)) ∨
      ∃ j ∈ (loadableHeaders (fileBytes content around 0)).take 0,
        x ∈ fieldReads (fileBytes content around 0) j) :
    (∀ x ∈ first.reads, x < content.length) ↔ HeadersInside content around := by
  constructor
  · intro inside
    constructor
    · have last : 31 ∈ wordReads 28 := (small_word (by decide)).mpr (by decide)
      exact inside 31 ((reads 31).mpr (Or.inr (Or.inr (Or.inl last))))
    · intro i below x word
      exact inside x ((reads x).mpr (Or.inr (Or.inr (Or.inr (Or.inl ⟨i, below, word⟩)))))
  · intro headers x read
    rcases (reads x).mp read with early | ⟨none, -⟩ | word | ⟨i, below, word⟩ | ⟨i, none, -⟩
    · exact (Nat.lt_of_lt_of_le early (by decide)).trans_le headers.header
    · cases none
    · exact headers.word (by decide) x word
    · exact headers.types i below x word
    · cases none

theorem execvReads_inside_iff (found : s.processList pid = some proc) (heap : around.room 0 = true)
    (ident : elfIdent (fileBytes content around 0) = true) :
    (∀ x ∈ execvReads place s pid call content around, x < content.length) ↔
      StagesInside proc content call around := by
  obtain ⟨first, ran, -, number, -, reads⟩ := parseElfSections_spec ident false 0
  simp only [execvReads, if_pos heap, ran, number, List.forall_mem_append, StagesInside]
  rw [countedReads_inside_iff reads]
  refine and_congr_right fun headers => ?_
  cases table : around.room 1 with
  | false => simp
  | true =>
      simp only [if_true, true_imp_iff]
      exact storedReads_inside_iff found headers ident

/-- When no byte behind the file is read: the file is not accepted, or the header, the types of
all headers that the loop goes over, the fields of the loadable ones and their segments are
in the file, as far as the call gets. -/
theorem over_reads_iff {fs : FileSystem} {s : State} {pid : Pid} {proc : Process}
    (found : s.processList pid = some proc) (place : Placement) (path : List UInt8)
    (call : ExecCall) (around : Surroundings) :
    Contained fs place s pid path call around ↔
      ∀ image, fs.openFile path = some image → around.room 0 = true →
        Rejects image.content around ∨ StagesInside proc image.content call around := by
  constructor
  · intro contained image file heap
    cases ident : elfIdent (fileBytes image.content around 0) with
    | false => exact Or.inl (Or.inl ident)
    | true =>
        rcases contained with rejected | inside
        · exact Or.inl ((execv_rejects_iff found file heap).mp rejected)
        · exact Or.inr ((execvReads_inside_iff found heap ident).mp (inside image file))
  · intro stages
    cases file : fs.openFile path with
    | none =>
        refine Or.inr ?_
        intro image opened
        rw [file] at opened
        cases opened
    | some image =>
        cases heap : around.room 0 with
        | false =>
            refine Or.inr ?_
            intro other _ x read
            simp only [execvReads, heap, Bool.false_eq_true, if_false] at read
            cases read
        | true =>
            rcases stages image file heap with rejects | inside
            · exact Or.inl ((execv_rejects_iff found file heap).mpr rejects)
            · cases ident : elfIdent (fileBytes image.content around 0) with
              | false => exact Or.inl ((execv_rejects_iff found file heap).mpr (Or.inl ident))
              | true =>
                  refine Or.inr ?_
                  intro other opened
                  rw [file, Option.some.injEq] at opened
                  rw [← opened]
                  exact (execvReads_inside_iff found heap ident).mpr inside

def wholeFile : List UInt8 :=
  elfFile 52 52 (bytes32 1 ++ bytes32 84 ++ List.replicate 8 0 ++ bytes32 4 ++ bytes32 4 ++
    List.replicate 8 0 ++ [7, 9, 8, 6] ++ List.replicate 1628 0)

/-- Behind the segment there are zeros up to the end of the last header. -/
theorem wholeFile_zeros {x : Nat} (low : 88 ≤ x) (high : x < 1716) :
    fileBytes wholeFile smallSurroundings 0 x = 0 := by
  have split : wholeFile = wholeFile.take 88 ++ List.replicate 1628 0 := by decide +kernel
  have front : (wholeFile.take 88).length = 88 := by decide +kernel
  have word : u32 x = x := Nat.mod_eq_of_lt (by omega)
  rw [fileBytes, word, split, List.getElem?_append_right (by omega), front,
    List.getElem?_replicate_of_lt (by omega), Option.getD_some]

theorem wholeFile_headers : loadableHeaders (fileBytes wholeFile smallSurroundings 0) = [0] := by
  have place : elfPhoff (fileBytes wholeFile smallSurroundings 0) = 52 := by decide +kernel
  have first : loadable (fileBytes wholeFile smallSurroundings 0) 0 = true := by decide +kernel
  have second : loadable (fileBytes wholeFile smallSurroundings 0) 1 = false := by decide +kernel
  have others : ∀ i ∈ List.range' 2 50, ¬ loadable (fileBytes wholeFile smallSurroundings 0) i := by
    intro i member
    have inside := List.mem_range'_1.mp member
    rw [loadable, phdr, place, load32, wholeFile_zeros (by omega) (by omega),
      wholeFile_zeros (by omega) (by omega), wholeFile_zeros (by omega) (by omega),
      wholeFile_zeros (by omega) (by omega)]
    decide
  have parts : List.range 52 = 0 :: 1 :: List.range' 2 50 := by decide
  rw [loadableHeaders, place, parts, List.filter_cons_of_pos first,
    List.filter_cons_of_neg (by rw [second]; decide), List.filter_eq_nil_iff.mpr others]

theorem over_reads_iff_whole :
    Contained ⟨fun _ => some ⟨wholeFile, none⟩⟩ smallPlacement plainState 0 [] ⟨[], 7, 0⟩
      smallSurroundings := by
  apply (over_reads_iff (bootTables_process _ 0) smallPlacement [] ⟨[], 7, 0⟩
    smallSurroundings).mpr
  intro image file _
  rw [← Option.some.inj file]
  have length : wholeFile.length = 1716 := by decide +kernel
  have place : elfPhoff (fileBytes wholeFile smallSurroundings 0) = 52 := by decide +kernel
  have sec : headerSection (fileBytes wholeFile smallSurroundings 0) 0 = ⟨0, 4, 84⟩ := by
    decide +kernel
  refine Or.inr ⟨⟨?_, ?_⟩, fun _ => ⟨?_, fun _ _ _ => ?_⟩⟩
  · rw [length]
    decide
  · intro i below x member
    rw [place] at below
    rw [phdr, place] at member
    obtain ⟨j, small, rfl⟩ := List.mem_map.mp member
    have inside := List.mem_range.mp small
    rw [length, u32]
    omega
  · intro i member
    rw [wholeFile_headers, List.mem_singleton] at member
    rw [member, length, fieldReads, phdr, place]
    decide
  · intro i below
    rw [countSections, wholeFile_headers] at below
    obtain rfl : i = 0 := by
      simp only [List.length_singleton] at below
      omega
    rw [sec, length]
    decide

/-- A file of the six bytes that are checked, with zeros behind it in memory. -/
theorem truncated_file_overread :
    ¬ ∀ fs place s pid proc path call around, s.processList pid = some proc →
      Contained fs place s pid path call around := by
  intro claim
  obtain ⟨s, reachable, _⟩ := smallRun_exists (fun _ _ => True) [] (fun _ => True) (by decide +kernel)
  obtain ⟨proc, awake⟩ := reachable.inv.running
  have ident : elfIdent (fileBytes elfMagic smallSurroundings 0) = true := by decide +kernel
  rcases claim ⟨fun _ => some ⟨elfMagic, none⟩⟩ smallPlacement s s.currentProcess proc []
      ⟨[], 7, 0⟩ smallSurroundings awake.1 with rejected | inside
  · have none : countSections (fileBytes elfMagic smallSurroundings 0) = 0 := by decide +kernel
    rcases (execv_rejects_iff awake.1 rfl rfl).mp rejected with other | ⟨-, -, -, i, below, -⟩
    · have other : elfIdent (fileBytes elfMagic smallSurroundings 0) = false := other
      rw [ident] at other
      cases other
    · have below : i < countSections (fileBytes elfMagic smallSurroundings 0) := below
      rw [none] at below
      exact absurd below (Nat.not_lt_zero i)
  · have stages := (execvReads_inside_iff awake.1 rfl ident).mp (inside ⟨elfMagic, none⟩ rfl)
    exact absurd stages.1.header (by decide)

end SysImpl.Kernel
