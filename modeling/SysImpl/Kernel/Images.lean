import SysImpl.Kernel.Steps

/-! What the loop of `exec` over the sections writes and attaches.

Each section is copied first and attached after that. The segments go to the free
positions at the end of the object table, in order; when these run out, one more section
is copied and the loop is left with an exception. -/

namespace SysImpl.Kernel

open Bytes

def freeSegments (objects : Fd → Option Object) : List Fd :=
  (List.finRange 128).filter fun pos => 112 ≤ pos.val ∧ objects pos = none

def attached (objects : Fd → Option Object) : List (Fd × Object) → Fd → Option Object
  | [] => objects
  | (pos, obj) :: rest => attached (Function.update objects pos (some obj)) rest

def Section.segment (pid : Pid) (sec : Section) : Object := .segment (sec.relocate pid) sec.limit

def Process.attachSections (pid : Pid) (sections : List Section) (proc : Process) : Process :=
  let segments := (freeSegments proc.objects).zip (sections.map (Section.segment pid))
  { proc with objects := attached proc.objects segments }

def copySections (content : List UInt8) (around : Surroundings) (pid : Pid) :
    Nat → List Section → Mem → Mem
  | _, [], m => m
  | index, sec :: rest, m =>
      copySections content around pid (index + 1) rest
        (copyTo m (sec.relocate pid) (sectionBytes content around index sec))

variable {t : Tables} {pid : Pid} {proc : Process}

theorem freePosition_segment (proc : Process) (base size : Nat) :
    proc.freePosition (.segment base size) = (freeSegments proc.objects).head? := by
  rw [freeSegments, List.head?_filter]
  rfl

theorem freeSegments_bind {objects : Fd → Option Object} {pos : Fd} {rest : List Fd}
    (free : freeSegments objects = pos :: rest) (obj : Object) :
    freeSegments (Function.update objects pos (some obj)) = rest := by
  have distinct : (freeSegments objects).Nodup := (List.nodup_finRange 128).filter _
  rw [free] at distinct
  have fewer : freeSegments (Function.update objects pos (some obj)) =
      (freeSegments objects).filter fun other => other ≠ pos := by
    simp only [freeSegments, List.filter_filter]
    apply List.filter_congr
    intro other _
    by_cases same : other = pos
    · simp [same]
    · simp [same]
  rw [fewer, free, List.filter_cons_of_neg (by simp)]
  apply List.filter_eq_self.mpr
  intro other member
  have outside := (List.nodup_cons.mp distinct).1
  simp only [decide_eq_true_eq]
  intro same
  rw [same] at member
  exact outside member

theorem loadSections_spec (content : List UInt8) (around : Surroundings) (index : Nat)
    (sections : List Section) (m : Mem) (found : t.processList pid = some proc) :
    loadSections content around pid index sections t m =
      (t.setProcess pid (some (proc.attachSections pid sections)),
        copySections content around pid index
          (sections.take ((freeSegments proc.objects).length + 1)) m,
        decide (sections.length ≤ (freeSegments proc.objects).length)) := by
  induction sections generalizing index t m proc with
  | nil =>
      have same : t.setProcess pid (some proc) = t := by
        rw [Tables.setProcess, ← found, Function.update_eq_self]
      simp [loadSections, Process.attachSections, attached, copySections, same]
  | cons sec rest ih =>
      simp only [loadSections, Tables.addObject, found, Option.bind_some, freePosition_segment]
      cases free : freeSegments proc.objects with
      | nil =>
          have same : t.setProcess pid (some proc) = t := by
            rw [Tables.setProcess, ← found, Function.update_eq_self]
          simp [Process.attachSections, free, attached, copySections, same]
      | cons pos others =>
          have bound : (t.modify pid (Process.bind pos (some (sec.segment pid)))).processList pid =
              some (proc.bind pos (some (sec.segment pid))) := by
            rw [modify_processList, if_pos rfl, found, Option.map_some]
          have left : freeSegments (proc.bind pos (some (sec.segment pid))).objects = others :=
            freeSegments_bind free (sec.segment pid)
          simp only [List.head?_cons, Option.map_some]
          have later := ih (index + 1) (copyTo m (sec.relocate pid)
            (sectionBytes content around index sec)) bound
          rw [left] at later
          have final : (t.modify pid (Process.bind pos (some (sec.segment pid)))).setProcess pid
              (some ((proc.bind pos (some (sec.segment pid))).attachSections pid rest)) =
                t.setProcess pid (some (proc.attachSections pid (sec :: rest))) := by
            simp only [Process.attachSections, left, free, List.map_cons, List.zip_cons_cons,
              attached]
            simp [Tables.setProcess, Tables.modify, Process.bind]
          rw [final] at later
          refine later.trans ?_
          simp [copySections]

/-- The image of a process: `imageSpace` bytes from the start of its slot. -/
def InSlot (pid : Pid) (address : Nat) : Prop :=
  imageBase pid ≤ address ∧ address < imageBase pid + imageSpace

instance (pid : Pid) (address : Nat) : Decidable (InSlot pid address) :=
  inferInstanceAs (Decidable (_ ∧ _))

def Section.Words (sec : Section) : Prop := sec.base < 2 ^ 32 ∧ sec.limit < 2 ^ 32

theorem imageBase_bound (pid : Pid) : imageBase pid + imageSpace < 2 ^ 32 := by
  have bound := pid.isLt
  simp only [imageBase, imageSpace, userSpaceStart]
  omega

theorem sectionBytes_length (content : List UInt8) (around : Surroundings) (index : Nat)
    (sec : Section) : (sectionBytes content around index sec).length = sec.limit := by
  simp [sectionBytes]

theorem Section.copied_address {sec : Section} (small : sec.base + sec.limit ≤ imageSpace) {i : Nat}
    (inside : i < sec.limit) : u32 (sec.relocate pid + i) = imageBase pid + sec.base + i := by
  have bound := imageBase_bound pid
  simp only [Section.relocate, u32]
  omega

theorem Section.copied_inside {sec : Section} (fits : sec.fits)
    (straight : sec.base + sec.limit < 2 ^ 32) {i : Nat} (inside : i < sec.limit) :
    InSlot pid (u32 (sec.relocate pid + i)) := by
  have small : sec.base + sec.limit < imageSpace := by
    have wraps : u32 (sec.base + sec.limit) = sec.base + sec.limit := Nat.mod_eq_of_lt straight
    simp only [Section.fits, wraps, decide_eq_true_eq] at fits
    exact fits
  rw [Section.copied_address (Nat.le_of_lt small) inside]
  exact ⟨by omega, by omega⟩

/-- A section that wraps and passes the check is not. -/
theorem Section.copied_outside {sec : Section} (pid : Pid) (words : sec.Words) (fits : sec.fits)
    (wraps : 2 ^ 32 ≤ sec.base + sec.limit) :
    ∃ i < sec.limit, ¬ InSlot pid (u32 (sec.relocate pid + i)) := by
  have bound := imageBase_bound pid
  have small : u32 (sec.base + sec.limit) < imageSpace := by simpa [Section.fits] using fits
  obtain ⟨base, limit⟩ := words
  by_cases low : sec.base < imageSpace
  · -- It starts in the slot and goes on past its end.
    refine ⟨imageSpace - sec.base, by simp only [imageSpace] at *; omega, ?_⟩
    have address : u32 (sec.relocate pid + (imageSpace - sec.base)) =
        imageBase pid + imageSpace := by
      simp only [Section.relocate, u32]
      omega
    rw [address]
    intro inside
    exact absurd inside.2 (Nat.lt_irrefl _)
  · refine ⟨0, by omega, ?_⟩
    intro inside
    have start := inside.1
    have finish := inside.2
    simp only [Section.relocate, u32, Nat.add_zero, Nat.mod_mod] at start finish
    omega

theorem copySections_frame (content : List UInt8) (around : Surroundings) (index : Nat)
    {sections : List Section} {m : Mem} {address : Nat}
    (apart : ∀ sec ∈ sections, ∀ i < sec.limit, u32 (sec.relocate pid + i) ≠ address) :
    copySections content around pid index sections m address = m address := by
  induction sections generalizing index m with
  | nil => rfl
  | cons sec rest ih =>
      simp only [copySections]
      rw [ih (index + 1) fun other member => apart other (List.mem_cons_of_mem _ member)]
      apply copyTo_outside
      intro i inside
      rw [sectionBytes_length] at inside
      exact apart sec List.mem_cons_self i inside

def onesAround : Surroundings := ⟨fun _ _ => 1, fun _ => (0, 0, 0), fun _ => true⟩

theorem copySections_ones (pid : Pid) (index : Nat) {sections : List Section} {m : Mem} {address : Nat}
    (bounded : ∀ sec ∈ sections, sec.limit < 2 ^ 32)
    (written : m address = 1 ∨
      ∃ sec ∈ sections, ∃ i < sec.limit, u32 (sec.relocate pid + i) = address) :
    copySections [] onesAround pid index sections m address = 1 := by
  induction sections generalizing index m with
  | nil =>
      rcases written with before | ⟨sec, member, _⟩
      · exact before
      · cases member
  | cons sec rest ih =>
      simp only [copySections]
      apply ih (index + 1) fun other member => bounded other (List.mem_cons_of_mem _ member)
      have length := sectionBytes_length [] onesAround index sec
      have ones : ∀ i (inside : i < (sectionBytes [] onesAround index sec).length),
          (sectionBytes [] onesAround index sec)[i] = 1 := by
        intro i inside
        simp [sectionBytes, fileBytes, onesAround]
      by_cases here : ∃ i < sec.limit, u32 (sec.relocate pid + i) = address
      · obtain ⟨i, inside, same⟩ := here
        apply Or.inl
        have stored := copyTo_inside m (sec.relocate pid) i (sectionBytes [] onesAround index sec)
          (by rw [length]; exact inside)
          (by rw [length]; exact Nat.le_of_lt (bounded sec List.mem_cons_self))
        rw [same] at stored
        rw [stored]
        exact ones i _
      · rcases written with before | ⟨other, member, i, inside, same⟩
        · apply Or.inl
          rw [copyTo_outside]
          · exact before
          · intro i inside same
            rw [length] at inside
            exact here ⟨i, inside, same⟩
        · rcases List.mem_cons.mp member with first | later
          · rw [first] at inside same
            exact absurd ⟨i, inside, same⟩ here
          · exact Or.inr ⟨other, later, i, inside, same⟩

/-- The copies of the sections leave every byte outside the slot of the process alone,
whatever the file and memory hold. -/
def Confined (t : Tables) (pid : Pid) (sections : List Section) : Prop :=
  ∀ content around m address, ¬ InSlot pid address →
    (loadSections content around pid 0 sections t m).2.1 address = m address

/-- Accepted sections are copied into the slot of the process exactly when none of those that
are copied wraps around the end of the address space. -/
theorem image_confined_iff {sections : List Section} (found : t.processList pid = some proc)
    (words : ∀ sec ∈ sections, sec.Words) (accepted : sections.all Section.fits) :
    Confined t pid sections ↔
      ∀ sec ∈ sections.take ((freeSegments proc.objects).length + 1),
        sec.base + sec.limit < 2 ^ 32 := by
  have fits : ∀ sec ∈ sections, sec.fits := by simpa using accepted
  constructor
  · intro confined sec member
    have here := List.mem_of_mem_take member
    by_contra wraps
    obtain ⟨i, inside, outside⟩ := Section.copied_outside pid (words sec here) (fits sec here)
      (by omega)
    have same := confined [] onesAround (fun _ => 0) _ outside
    rw [loadSections_spec [] onesAround 0 sections (fun _ => 0) found] at same
    have one := copySections_ones (m := fun _ => 0) pid 0
      (fun other chosen => (words other (List.mem_of_mem_take chosen)).2)
      (Or.inr ⟨sec, member, i, inside, rfl⟩)
    exact absurd (one.symm.trans same) (by decide)
  · intro straight content around m address outside
    rw [loadSections_spec content around 0 sections m found]
    apply copySections_frame
    intro sec member i inside same
    apply outside
    rw [← same]
    exact Section.copied_inside (fits sec (List.mem_of_mem_take member)) (straight sec member) inside

/-- A section of a page at the start of the image. -/
theorem image_confined_page : Confined (bootTables fun _ => 0) 0 [⟨0, 4096, 0⟩] := by
  apply (image_confined_iff (bootTables_process _ 0) _ (by decide)).mpr
  · intro sec member
    rw [List.mem_singleton.mp (List.mem_of_mem_take member)]
    decide
  · intro sec member
    rw [List.mem_singleton.mp member]
    exact ⟨by decide, by decide⟩

/-- A section that ends at the end of the address space passes the check and is copied to the
bytes before the slot. -/
theorem wrapped_section_escapes :
    ¬ ∀ t pid proc sections, t.processList pid = some proc →
      (∀ sec ∈ sections, Section.Words sec) → sections.all Section.fits →
        Confined t pid sections := by
  intro claim
  have confined := claim (bootTables fun _ => 0) 0 initProcess [⟨2 ^ 32 - 4, 4, 0⟩]
    (bootTables_process _ 0) (by
      intro sec member
      rw [List.mem_singleton.mp member]
      exact ⟨by decide, by decide⟩) (by decide)
  have same := confined [] onesAround (fun _ => 0) (0x2000000 - 4) (by decide)
  revert same
  decide +kernel

end SysImpl.Kernel
