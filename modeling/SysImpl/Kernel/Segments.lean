import SysImpl.Kernel.Outcome

/-! What the memory of a segment holds after an `execv`.

A program header gives the bytes of a segment in the file and its size in memory. The loader
keeps the second one only, so the bytes behind those of the file come from the file buffer
too. -/

namespace SysImpl.Kernel

open Bytes

def elfBytes (content : List UInt8) : Mem := fun x => content.getD x 0

def elfPhentsize (b : Mem) : Nat := load16 b 42
def elfPhnum (b : Mem) : Nat := load16 b 44

def phFilesz (b : Mem) (i : Nat) : Nat := load32 b (phdr b i + 16)

def elfSegments (b : Mem) : List Nat := (List.range (elfPhnum b)).filter (loadable b)

def Section.Apart (sec other : Section) : Prop :=
  sec.base + sec.limit ≤ other.base ∨ other.base + other.limit ≤ sec.base

/-- A 32-bit little-endian ELF file with segments that are disjoint, at least as large as in
the file, and inside the image space. -/
structure WellFormedElf (content : List UInt8) : Prop where
  ident : elfIdent (elfBytes content) = true
  header : 52 ≤ content.length
  small : content.length < 2 ^ 32
  entsize : elfPhentsize (elfBytes content) = 32
  table : elfPhoff (elfBytes content) + 32 * elfPhnum (elfBytes content) ≤ content.length
  inFile : ∀ i ∈ elfSegments (elfBytes content), (headerSection (elfBytes content) i).offset +
    phFilesz (elfBytes content) i ≤ content.length
  sizes : ∀ i ∈ elfSegments (elfBytes content),
    phFilesz (elfBytes content) i ≤ (headerSection (elfBytes content) i).limit
  inImage : ∀ i ∈ elfSegments (elfBytes content), (headerSection (elfBytes content) i).base +
    (headerSection (elfBytes content) i).limit ≤ imageSpace
  disjoint : ∀ i ∈ elfSegments (elfBytes content), ∀ j ∈ elfSegments (elfBytes content), i ≠ j →
    (headerSection (elfBytes content) i).Apart (headerSection (elfBytes content) j)

/-- The byte that a segment of a file has in memory: one of the file, or a zero. -/
def segmentByte (content : List UInt8) (i j : Nat) : UInt8 :=
  if j < phFilesz (elfBytes content) i then
    elfBytes content ((headerSection (elfBytes content) i).offset + j)
  else 0

def segmentAddress (content : List UInt8) (pid : Pid) (i j : Nat) : Nat :=
  imageBase pid + (headerSection (elfBytes content) i).base + j

def SegmentsLoaded (content : List UInt8) (pid : Pid) (m : Mem) : Prop :=
  ∀ i ∈ elfSegments (elfBytes content), ∀ j < (headerSection (elfBytes content) i).limit,
    m (segmentAddress content pid i j) = segmentByte content i j

/-- The loop of `parseElfSections`, which goes over as many headers as `e_phoff` says, finds
the loadable headers of the file and no others, in both passes. -/
def OwnHeaders (content : List UInt8) (around : Surroundings) : Prop :=
  ∀ pass < 2, loadableHeaders (fileBytes content around pass) = elfSegments (elfBytes content)

/-- The saved stack of the parent, which `exec` restores, is not in the segments. -/
def StackApart (s : State) (proc : Process) (content : List UInt8) (pid : Pid) : Prop :=
  ∀ parent, proc.ppid.bind s.processList = some parent → ∀ saved, parent.stackBackup = some saved →
    ∀ i ∈ elfSegments (elfBytes content), ∀ j < (headerSection (elfBytes content) i).limit,
      ∀ k < saved.length, u32 (parent.stackTopBackup + k) ≠ segmentAddress content pid i j

/-- Behind the bytes of each segment in the file buffer there are zeros, up to its size. -/
def ZeroTails (content : List UInt8) (around : Surroundings) : Prop :=
  ∀ i ∈ elfSegments (elfBytes content), ∀ j, phFilesz (elfBytes content) i ≤ j →
    j < (headerSection (elfBytes content) i).limit →
    fileBytes content around (2 + i) ((headerSection (elfBytes content) i).offset + j) = 0

variable {content : List UInt8} {around : Surroundings} {pid : Pid} {proc : Process}

theorem fileBytes_inside {pass x : Nat} (small : content.length < 2 ^ 32) (inside : x < content.length) :
    fileBytes content around pass x = elfBytes content x := by
  have same : u32 x = x := Nat.mod_eq_of_lt (by omega)
  simp [fileBytes, elfBytes, same, inside]

theorem fileBytes_load32 {pass x : Nat} (small : content.length < 2 ^ 32)
    (inside : x + 4 ≤ content.length) :
    load32 (fileBytes content around pass) x = load32 (elfBytes content) x := by
  apply load32_congr
  intro y _ high
  exact fileBytes_inside small (by omega)

theorem WellFormedElf.headerSection_eq (elf : WellFormedElf content) {pass i : Nat}
    (member : i ∈ elfSegments (elfBytes content)) :
    headerSection (fileBytes content around pass) i = headerSection (elfBytes content) i := by
  have header := elf.header
  have inside := elf.table
  have index : i < elfPhnum (elfBytes content) := List.mem_range.mp (List.mem_filter.mp member).1
  have table : elfPhoff (fileBytes content around pass) = elfPhoff (elfBytes content) :=
    fileBytes_load32 elf.small (by omega)
  simp only [headerSection, phdr, table]
  rw [fileBytes_load32 elf.small (by omega), fileBytes_load32 elf.small (by omega),
    fileBytes_load32 elf.small (by omega)]

theorem restoredMem_outside {s : State} {ppid : Option Pid} {m : Mem} {address : Nat}
    (apart : ∀ parent, ppid.bind s.processList = some parent → ∀ saved,
      parent.stackBackup = some saved →
        ∀ k < saved.length, u32 (parent.stackTopBackup + k) ≠ address) :
    restoredMem s ppid m address = m address := by
  simp only [restoredMem]
  cases known : ppid.bind s.processList with
  | none => rfl
  | some parent =>
      cases backup : parent.stackBackup with
      | none => simp only [backup]
      | some saved =>
          simp only [backup]
          exact copyTo_outside m _ _ saved (apart parent known saved backup)

theorem copySections_byte {index k j : Nat} {sections : List Section} {sec : Section} {m : Mem}
    (here : sections[k]? = some sec) (inside : j < sec.limit) (bounded : sec.limit < 2 ^ 32)
    (apart : ∀ other ∈ sections.drop (k + 1), ∀ i < other.limit,
      u32 (other.relocate pid + i) ≠ u32 (sec.relocate pid + j)) :
    copySections content around pid index sections m (u32 (sec.relocate pid + j)) =
      fileBytes content around (2 + (index + k)) (sec.offset + j) := by
  induction sections generalizing index k m with
  | nil => cases here
  | cons first rest ih =>
      simp only [copySections]
      cases k with
      | zero =>
          rw [List.getElem?_cons_zero, Option.some.injEq] at here
          subst here
          rw [List.drop_succ_cons, List.drop_zero] at apart
          rw [copySections_frame content around (index + 1) apart]
          have length := sectionBytes_length content around index first
          rw [copyTo_inside m _ j _ (by rw [length]; exact inside) (by rw [length]; omega)]
          simp [sectionBytes]
      | succ k =>
          rw [List.getElem?_cons_succ] at here
          rw [ih here (by rw [List.drop_succ_cons] at apart; exact apart)]
          congr 1
          omega

variable {fs : FileSystem} {place : Placement} {s s' : State} {path : List UInt8} {call : ExecCall}

theorem execv_installed {image : FileImage} {n : Nat} {stored : Mem}
    (found : s.processList pid = some proc) (file : fs.openFile path = some image)
    (number : countSections (fileBytes image.content around 0) = n)
    (storing : fileBytes image.content around 1 = stored)
    (done : execv fs place s pid path call around = .ok (s', 0)) :
    (∀ i ∈ (loadableHeaders stored).take n, i < n) ∧
      Installed place s pid proc call image.content around
        ((List.range n).map (tableEntry stored n (staleTable around))) (elfEntry stored) s' := by
  have rejected : (.ok (s, enoexec) : Except Stop (State × Int)) ≠ .ok (s', 0) := by
    simp [enoexec]
  simp only [execv, file, storeSections_eq, number, storing] at done
  split_ifs at done with heap counted table again inside
  · refine ⟨inside, ?_⟩
    simp only at done
    rcases exec_cases ((List.range n).map (tableEntry stored n (staleTable around)))
        (elfEntry stored) found with
      ⟨_, ended⟩ | ⟨_, _, _, last, ended, installed⟩ | ⟨_, _, stop, ended⟩
    · rw [ended] at done
      exact absurd done rejected
    · rw [ended] at done
      simp only [Except.ok.injEq, Prod.mk.injEq, and_true] at done
      rw [← done]
      exact installed
    · rw [ended] at done
      cases done
  · exact absurd done rejected

theorem execv_segments {image : FileImage} (found : s.processList pid = some proc)
    (file : fs.openFile path = some image) (elf : WellFormedElf image.content)
    (own : OwnHeaders image.content around)
    (done : execv fs place s pid path call around = .ok (s', 0)) :
    ∃ n, elfSegments (elfBytes image.content) = List.range n ∧
      s'.mem = restoredMem s proc.ppid (copySections image.content around pid 0
        ((List.range n).map (headerSection (elfBytes image.content)))
        (storeStack place pid call.args s.mem)) := by
  generalize number : countSections (fileBytes image.content around 0) = n
  obtain ⟨inside, installed⟩ := execv_installed found file number rfl done
  have first := own 0 (by decide)
  have second := own 1 (by decide)
  have length : (loadableHeaders (fileBytes image.content around 1)).length = n := by
    rw [second, ← first]
    exact number
  rw [List.take_of_length_le (Nat.le_of_eq length)] at inside
  have headers := loadableHeaders_range length inside
  refine ⟨n, second.symm.trans headers, ?_⟩
  rw [installed.memory, fileSections_range _ headers, fileSections, headers]
  congr 2
  apply List.map_congr_left
  intro i member
  rw [← headers, second] at member
  exact elf.headerSection_eq member

/-- The byte a segment gets: the byte of the file buffer that far behind its offset. -/
theorem execv_segment_byte {image : FileImage} (found : s.processList pid = some proc)
    (file : fs.openFile path = some image) (elf : WellFormedElf image.content)
    (own : OwnHeaders image.content around) (apart : StackApart s proc image.content pid)
    (done : execv fs place s pid path call around = .ok (s', 0)) {i j : Nat}
    (member : i ∈ elfSegments (elfBytes image.content))
    (inside : j < (headerSection (elfBytes image.content) i).limit) :
    s'.mem (segmentAddress image.content pid i j) =
      fileBytes image.content around (2 + i)
        ((headerSection (elfBytes image.content) i).offset + j) := by
  obtain ⟨n, headers, memory⟩ := execv_segments found file elf own done
  have index : i < n := by rwa [headers, List.mem_range] at member
  have address : ∀ other ∈ elfSegments (elfBytes image.content), ∀ k,
      k < (headerSection (elfBytes image.content) other).limit →
      u32 ((headerSection (elfBytes image.content) other).relocate pid + k) =
        segmentAddress image.content pid other k := by
    intro other known k below
    exact Section.copied_address (elf.inImage other known) below
  have bounded : (headerSection (elfBytes image.content) i).limit < 2 ^ 32 := by
    have small := elf.inImage i member
    simp only [imageSpace] at small
    omega
  rw [memory, restoredMem_outside]
  · have here : ((List.range n).map (headerSection (elfBytes image.content)))[i]? =
        some (headerSection (elfBytes image.content) i) := by simp [index]
    rw [← address i member j inside, copySections_byte here inside bounded]
    · rw [Nat.zero_add]
    · -- A later section is another segment of the file.
      intro sec later k below
      rw [← List.map_drop] at later
      obtain ⟨other, position, rfl⟩ := List.mem_map.mp later
      have known : other ∈ elfSegments (elfBytes image.content) := by
        rw [headers]
        exact List.mem_of_mem_drop position
      have different : other ≠ i := by
        obtain ⟨k, within, here⟩ := List.mem_drop_iff_getElem.mp position
        rw [List.getElem_range] at here
        omega
      rw [address other known k below, address i member j inside]
      have disjoint := elf.disjoint other known i member different
      simp only [Section.Apart] at disjoint
      simp only [segmentAddress]
      omega
  · intro parent known saved backup k below
    exact apart parent known saved backup i member j inside k below

/-- After a successful `execv` memory holds the segments of the file exactly when zeros follow
their bytes in the file buffer. -/
theorem segments_loaded_iff {image : FileImage} (found : s.processList pid = some proc)
    (file : fs.openFile path = some image) (elf : WellFormedElf image.content)
    (own : OwnHeaders image.content around) (apart : StackApart s proc image.content pid)
    (done : execv fs place s pid path call around = .ok (s', 0)) :
    SegmentsLoaded image.content pid s'.mem ↔ ZeroTails image.content around := by
  have byte {i j : Nat} := execv_segment_byte (i := i) (j := j) found file elf own apart done
  constructor
  · intro loaded i member j past below
    rw [← byte member below, loaded i member j below, segmentByte, if_neg (by omega)]
  · intro zeros i member j below
    rw [byte member below, segmentByte]
    by_cases inFile : j < phFilesz (elfBytes image.content) i
    · have covered := elf.inFile i member
      rw [if_pos inFile, fileBytes_inside elf.small (by omega)]
    · rw [if_neg inFile]
      exact zeros i member j (by omega) below

section Sample

def segmentFile (rest : List UInt8) : List UInt8 :=
  [0x7f, 0x45, 0x4c, 0x46, 1, 1] ++ List.replicate 22 0 ++ [52, 0, 0, 0] ++ List.replicate 10 0 ++
    [32, 0, 1, 0] ++ List.replicate 6 0 ++
    [1, 0, 0, 0, 84, 0, 0, 0] ++ List.replicate 8 0 ++ [2, 0, 0, 0, 4, 0, 0, 0] ++
    List.replicate 8 0 ++ [7, 9] ++ rest

def segmentVolume (rest : List UInt8) : FileSystem := ⟨fun _ => some ⟨segmentFile rest, none⟩⟩

instance (sec other : Section) : Decidable (sec.Apart other) :=
  inferInstanceAs (Decidable (_ ∨ _))

theorem segmentFile_elf {rest : List UInt8} (sample : rest = [0, 0] ∨ rest = [5, 6]) :
    WellFormedElf (segmentFile rest) := by
  rcases sample with rfl | rfl
  · constructor <;> decide +kernel
  · constructor <;> decide +kernel

theorem plainState_apart (content : List UInt8) : StackApart plainState initProcess content 0 := by
  intro parent known
  cases known

instance (content : List UInt8) (around : Surroundings) : Decidable (OwnHeaders content around) :=
  inferInstanceAs (Decidable (∀ pass < 2, _))

theorem segmentFile_own {rest : List UInt8} (sample : rest = [0, 0] ∨ rest = [5, 6]) :
    OwnHeaders (segmentFile rest) smallSurroundings := by
  rcases sample with rfl | rfl
  · decide +kernel
  · decide +kernel

def segmentCall (rest : List UInt8) : Except Stop (State × Int) :=
  execv (segmentVolume rest) smallPlacement plainState 0 [] ⟨[], 7, 0⟩ smallSurroundings

theorem segmentCall_done (rest : List UInt8)
    (zero : (segmentCall rest).toOption.map Prod.snd = some 0) :
    ∃ s', execv (segmentVolume rest) smallPlacement plainState 0 [] ⟨[], 7, 0⟩ smallSurroundings =
      .ok (s', 0) := by
  cases ran : segmentCall rest with
  | error stop =>
      rw [ran] at zero
      cases zero
  | ok last =>
      obtain ⟨s', ret⟩ := last
      rw [ran] at zero
      rw [← Option.some.inj zero]
      exact ⟨s', ran⟩

theorem segmentVolume_file (rest : List UInt8) :
    (segmentVolume rest).openFile [] = some ⟨segmentFile rest, none⟩ := rfl

/-- With zeros behind its bytes the segment is loaded as the file says. -/
theorem segments_loaded_zeros : ∃ s', segmentCall [0, 0] = .ok (s', 0) ∧
    SegmentsLoaded (segmentFile [0, 0]) 0 s'.mem := by
  obtain ⟨s', done⟩ := segmentCall_done [0, 0] (by decide +kernel)
  refine ⟨s', done, ?_⟩
  have found : plainState.processList 0 = some initProcess := bootTables_process _ 0
  apply (segments_loaded_iff found (segmentVolume_file [0, 0]) (segmentFile_elf (.inl rfl))
    (segmentFile_own (.inl rfl)) (plainState_apart _) done).mpr
  have zeros : ∀ i ∈ elfSegments (elfBytes (segmentFile [0, 0])), ∀ j,
      j < (headerSection (elfBytes (segmentFile [0, 0])) i).limit →
      phFilesz (elfBytes (segmentFile [0, 0])) i ≤ j →
      fileBytes (segmentFile [0, 0]) smallSurroundings (2 + i)
        ((headerSection (elfBytes (segmentFile [0, 0])) i).offset + j) = 0 := by
    decide +kernel
  intro i member j past below
  exact zeros i member j below past

/-- With other bytes of the file there, they are loaded instead of zeros. -/
theorem segment_tail_copied :
    ¬ ∀ fs place s pid proc path call around image s', s.processList pid = some proc →
      fs.openFile path = some image → WellFormedElf image.content →
      execv fs place s pid path call around = .ok (s', 0) →
      SegmentsLoaded image.content pid s'.mem := by
  intro claim
  obtain ⟨s', done⟩ := segmentCall_done [5, 6] (by decide +kernel)
  have found : plainState.processList 0 = some initProcess := bootTables_process _ 0
  have member : 0 ∈ elfSegments (elfBytes (segmentFile [5, 6])) := by decide +kernel
  have below : 2 < (headerSection (elfBytes (segmentFile [5, 6])) 0).limit := by decide +kernel
  have elf : WellFormedElf (segmentFile [5, 6]) := segmentFile_elf (.inr rfl)
  have loaded := claim _ _ _ _ _ _ _ _ _ _ found (segmentVolume_file [5, 6]) elf done
  have byte := execv_segment_byte found (segmentVolume_file [5, 6]) elf
    (segmentFile_own (.inr rfl)) (plainState_apart _) done member below
  rw [loaded 0 member 2 below] at byte
  exact absurd byte (by decide +kernel)

end Sample

end SysImpl.Kernel
