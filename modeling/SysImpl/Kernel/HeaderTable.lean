import SysImpl.Kernel.Headers

/-! Which headers `parseElfSections` goes over.

Its loop is bounded by `e_phoff`, the place of the header table, where the number of the
entries is `e_phnum`. What lies behind the table is then read as headers. -/

namespace SysImpl.Kernel

open Bytes

/-- A 32-bit little-endian ELF file with its program header table in the file. -/
structure TabledElf (content : List UInt8) : Prop where
  ident : elfIdent (elfBytes content) = true
  header : 52 ≤ content.length
  small : content.length < 2 ^ 31
  table : elfPhoff (elfBytes content) + 32 * elfPhnum (elfBytes content) ≤ content.length

structure SameTable (content other : List UInt8) : Prop where
  header : ∀ x < 52, elfBytes other x = elfBytes content x
  table : ∀ x, elfPhoff (elfBytes content) ≤ x →
    x < elfPhoff (elfBytes content) + 32 * elfPhnum (elfBytes content) →
      elfBytes other x = elfBytes content x

/-- A call counts and stores the `PT_LOAD` entries of the table. -/
def FindsTable (content : List UInt8) (around : Surroundings) (pass : Nat) : Prop :=
  ∀ entry n, ∃ parsed, parseElfSections (fileBytes content around pass) entry n = some parsed ∧
    parsed.num = (elfSegments (elfBytes content)).length ∧
    parsed.stores = ((elfSegments (elfBytes content)).take n).map
      fun i => (i, headerSection (elfBytes content) i)

/-- Bytes outside the ELF header and the table make no difference to a call. -/
def DependsOnTable (content : List UInt8) (around : Surroundings) (pass : Nat) : Prop :=
  ∀ other, TabledElf other → SameTable content other → ∀ entry n,
    parseElfSections (fileBytes other around pass) entry n =
      parseElfSections (fileBytes content around pass) entry n

def NoneBetween (content : List UInt8) (around : Surroundings) (pass : Nat) : Prop :=
  ∀ i, min (elfPhoff (elfBytes content)) (elfPhnum (elfBytes content)) ≤ i →
    i < max (elfPhoff (elfBytes content)) (elfPhnum (elfBytes content)) →
      loadable (fileBytes content around pass) i = false

variable {content other : List UInt8} {around : Surroundings} {pass : Nat}

theorem TabledElf.bytes (elf : TabledElf content) {x : Nat} (inside : x < content.length) :
    fileBytes content around pass x = elfBytes content x :=
  fileBytes_inside (by have small := elf.small; omega) inside

theorem TabledElf.word (elf : TabledElf content) {x : Nat} (inside : x + 4 ≤ content.length) :
    load32 (fileBytes content around pass) x = load32 (elfBytes content) x :=
  fileBytes_load32 (by have small := elf.small; omega) inside

theorem TabledElf.phoff (elf : TabledElf content) :
    elfPhoff (fileBytes content around pass) = elfPhoff (elfBytes content) :=
  elf.word (by have header := elf.header; omega)

theorem TabledElf.fileIdent (elf : TabledElf content) :
    elfIdent (fileBytes content around pass) = true := by
  have header := elf.header
  rw [← elf.ident]
  simp only [elfIdent]
  rw [elf.bytes (by omega), elf.bytes (by omega), elf.bytes (by omega), elf.bytes (by omega),
    elf.bytes (by omega), elf.bytes (by omega)]

theorem TabledElf.phdr (elf : TabledElf content) (i : Nat) :
    phdr (fileBytes content around pass) i = elfPhoff (elfBytes content) + 32 * i := by
  rw [Kernel.phdr, elf.phoff]

theorem TabledElf.entry (elf : TabledElf content) {i : Nat} (index : i < elfPhnum (elfBytes content)) :
    loadable (fileBytes content around pass) i = loadable (elfBytes content) i ∧
      headerSection (fileBytes content around pass) i = headerSection (elfBytes content) i := by
  have inside := elf.table
  simp only [loadable, headerSection, elf.phdr]
  simp only [Kernel.phdr]
  rw [elf.word (by omega), elf.word (by omega), elf.word (by omega), elf.word (by omega)]
  exact ⟨rfl, rfl⟩

theorem TabledElf.headers_iff (elf : TabledElf content) :
    loadableHeaders (fileBytes content around pass) = elfSegments (elfBytes content) ↔
      NoneBetween content around pass := by
  have found : ∀ i, i ∈ loadableHeaders (fileBytes content around pass) ↔
      i < elfPhoff (elfBytes content) ∧ loadable (fileBytes content around pass) i = true := by
    intro i
    rw [mem_loadableHeaders, elf.phoff]
  have listed : ∀ i, i ∈ elfSegments (elfBytes content) ↔
      i < elfPhnum (elfBytes content) ∧ loadable (fileBytes content around pass) i = true := by
    intro i
    simp only [elfSegments, List.mem_filter, List.mem_range]
    refine and_congr_right fun index => ?_
    have same : loadable (fileBytes content around pass) i = loadable (elfBytes content) i :=
      (elf.entry index).1
    rw [same]
  constructor
  · intro same i above below
    by_contra load
    have load := Bool.eq_true_of_not_eq_false load
    have both := found i
    rw [same, listed i] at both
    simp only [load, and_true] at both
    omega
  · intro none
    have sorted : (loadableHeaders (fileBytes content around pass)).Pairwise (· < ·) :=
      List.pairwise_lt_range.filter _
    have sorted' : (elfSegments (elfBytes content)).Pairwise (· < ·) :=
      List.pairwise_lt_range.filter _
    apply List.Perm.eq_of_pairwise (fun _ _ _ _ less greater => absurd less (Nat.lt_asymm greater))
      sorted sorted'
    rw [List.perm_ext_iff_of_nodup (sorted.imp Nat.ne_of_lt) (sorted'.imp Nat.ne_of_lt)]
    intro i
    rw [found, listed]
    refine and_congr_left fun load => ?_
    by_contra differ
    have load' := none i (by omega) (by omega)
    rw [load] at load'
    cases load'

theorem TabledElf.findsTable_iff (elf : TabledElf content) :
    FindsTable content around pass ↔ NoneBetween content around pass := by
  rw [← elf.headers_iff]
  constructor
  · intro finds
    -- A table with room for everything shows all the headers.
    obtain ⟨parsed, ran, number, stores⟩ := finds false
      (countSections (fileBytes content around pass))
    obtain ⟨again, ran', -, number', stores', -⟩ :=
      parseElfSections_spec elf.fileIdent false (countSections (fileBytes content around pass))
    cases ran.symm.trans ran'
    have length := number'.symm.trans number
    rw [stores', length, List.take_length] at stores
    have indices := congrArg (List.map Prod.fst) stores
    have whole : (loadableHeaders (fileBytes content around pass)).length =
        (elfSegments (elfBytes content)).length := length
    rw [← whole, List.take_length] at indices
    simpa [List.map_map, Function.comp_def] using indices
  · intro same entry n
    obtain ⟨parsed, ran, -, number, stores, -⟩ :
        ∃ parsed, parseElfSections (fileBytes content around pass) entry n = some parsed ∧ _ :=
      parseElfSections_spec elf.fileIdent entry n
    refine ⟨parsed, ran, ?_, ?_⟩
    · rw [number, countSections, same]
    · rw [stores, same]
      apply List.map_congr_left
      intro i member
      have index := List.mem_range.mp (List.mem_filter.mp (List.mem_of_mem_take member)).1
      rw [(elf.entry index).2]

theorem parseLoop_congr {b b' : Mem} (n : Nat) {rounds i : Nat} (parsed : Parsed)
    (place : elfPhoff b' = elfPhoff b)
    (same : ∀ j, i ≤ j → j < i + rounds → loadable b' j = loadable b j ∧
      (loadable b j = true → headerSection b' j = headerSection b j)) :
    parseLoop b' n rounds i parsed = parseLoop b n rounds i parsed := by
  induction rounds generalizing i parsed with
  | zero => rfl
  | succ rounds ih =>
      obtain ⟨load, fields⟩ := same i (by omega) (by omega)
      have header : ∀ j, phdr b' j = phdr b j := by
        intro j
        rw [Kernel.phdr, Kernel.phdr, place]
      have reads : ∀ j, fieldReads b' j = fieldReads b j := by
        intro j
        rw [fieldReads, fieldReads, header]
      simp only [parseLoop, load, header]
      rw [ih _ fun j above below => same j (by omega) (by omega)]
      by_cases loads : loadable b i = true
      · simp only [if_pos loads, Parsed.load, fields loads, reads]
      · simp only [if_neg loads]

theorem SameTable.phoff (same : SameTable content other) :
    elfPhoff (elfBytes other) = elfPhoff (elfBytes content) :=
  load32_congr fun x _ above => same.header x (by omega)

theorem SameTable.phnum (same : SameTable content other) :
    elfPhnum (elfBytes other) = elfPhnum (elfBytes content) := by
  rw [elfPhnum, elfPhnum, load16, load16, same.header 44 (by omega), same.header 45 (by omega)]

/-- An entry of the table is the same in both files, and so is what the loop takes for an
entry in the ELF header. -/
theorem SameTable.loadable (same : SameTable content other) (elf : TabledElf content)
    (elf' : TabledElf other) {i : Nat}
    (inside : i < elfPhnum (elfBytes content) ∨ elfPhoff (elfBytes content) + 32 * i + 4 ≤ 52) :
    loadable (fileBytes other around pass) i = loadable (fileBytes content around pass) i := by
  have table := elf.table
  have table' := elf'.table
  have header := elf.header
  have header' := elf'.header
  rw [same.phoff, same.phnum] at table'
  have word : load32 (elfBytes other) (elfPhoff (elfBytes content) + 32 * i) =
      load32 (elfBytes content) (elfPhoff (elfBytes content) + 32 * i) := by
    apply load32_congr
    intro x above below
    rcases inside with index | early
    · exact same.table x (by omega) (by omega)
    · exact same.header x (by omega)
  simp only [Kernel.loadable, elf.phdr, elf'.phdr, same.phoff]
  rw [elf.word (by omega), elf'.word (by omega), word]

theorem SameTable.headerSection (same : SameTable content other) (elf : TabledElf content)
    (elf' : TabledElf other) {i : Nat} (index : i < elfPhnum (elfBytes content)) :
    headerSection (fileBytes other around pass) i = headerSection (fileBytes content around pass) i := by
  have table := elf.table
  have table' := elf'.table
  rw [same.phoff, same.phnum] at table'
  have word : ∀ field, field + 4 ≤ 32 →
      load32 (elfBytes other) (elfPhoff (elfBytes content) + 32 * i + field) =
        load32 (elfBytes content) (elfPhoff (elfBytes content) + 32 * i + field) := by
    intro field small
    apply load32_congr
    intro x above below
    exact same.table x (by omega) (by omega)
  simp only [Kernel.headerSection, elf.phdr, elf'.phdr, same.phoff]
  rw [elf.word (by omega), elf.word (by omega), elf.word (by omega), elf'.word (by omega),
    elf'.word (by omega), elf'.word (by omega), word 12 (by omega), word 20 (by omega),
    word 4 (by omega)]

/-- A loop that ends with the table, or in the ELF header without finding anything more,
depends on nothing else. -/
theorem TabledElf.dependsOnTable (elf : TabledElf content)
    (bound : elfPhoff (elfBytes content) ≤ max (elfPhnum (elfBytes content)) 2)
    (none : NoneBetween content around pass) : DependsOnTable content around pass := by
  intro other elf' same entry n
  have place : elfPhoff (fileBytes other around pass) = elfPhoff (fileBytes content around pass) := by
    rw [elf.phoff, elf'.phoff, same.phoff]
  have value : entry = true → elfEntry (fileBytes other around pass) =
      elfEntry (fileBytes content around pass) := by
    intro _
    have header := elf.header
    have header' := elf'.header
    rw [elfEntry, elfEntry, elf.word (by omega), elf'.word (by omega)]
    exact load32_congr fun x _ above => same.header x (by omega)
  have started : (if entry then some (elfEntry (fileBytes other around pass)) else Option.none) =
      if entry then some (elfEntry (fileBytes content around pass)) else Option.none := by
    cases entry with
    | false => rfl
    | true => exact congrArg some (value rfl)
  simp only [parseElfSections, elf.fileIdent, elf'.fileIdent, if_true, started, place]
  rw [parseLoop_congr n _ place]
  intro j _ below
  rw [Nat.zero_add, elf.phoff] at below
  constructor
  · apply same.loadable elf elf'
    by_cases index : j < elfPhnum (elfBytes content)
    · exact Or.inl index
    · exact Or.inr (by omega)
  · intro load
    apply same.headerSection elf elf'
    by_contra beyond
    rw [none j (by omega) (by omega)] at load
    cases load

def withWord (content : List UInt8) (offset word : Nat) : List UInt8 :=
  (List.range (max content.length (offset + 4))).map (store32 (elfBytes content) offset word)

theorem withWord_bytes (content : List UInt8) (offset word : Nat) :
    elfBytes (withWord content offset word) = store32 (elfBytes content) offset word := by
  funext x
  by_cases inside : x < max content.length (offset + 4)
  · simp [elfBytes, withWord, List.getD, inside]
  · have beyond : content.length ≤ x := by omega
    rw [store32_outside _ _ _ _ (by omega)]
    simp [elfBytes, withWord, List.getD, inside, beyond]

theorem TabledElf.withWord (elf : TabledElf content) {offset : Nat} (word : Nat)
    (header : 52 ≤ offset) (small : offset + 4 < 2 ^ 31)
    (apart : offset + 4 ≤ elfPhoff (elfBytes content) ∨
      elfPhoff (elfBytes content) + 32 * elfPhnum (elfBytes content) ≤ offset) :
    TabledElf (withWord content offset word) ∧ SameTable content (withWord content offset word) := by
  have same : SameTable content (Kernel.withWord content offset word) := by
    constructor
    · intro x before
      rw [withWord_bytes]
      exact store32_outside _ _ _ _ (by omega)
    · intro x above below
      rw [withWord_bytes]
      exact store32_outside _ _ _ _ (by omega)
  have length : (Kernel.withWord content offset word).length = max content.length (offset + 4) := by
    simp [Kernel.withWord]
  have table := elf.table
  have size := elf.small
  refine ⟨⟨?_, ?_, ?_, ?_⟩, same⟩
  · rw [← elf.ident]
    simp only [elfIdent]
    rw [same.header 0 (by omega), same.header 1 (by omega), same.header 2 (by omega),
      same.header 3 (by omega), same.header 4 (by omega), same.header 5 (by omega)]
  · omega
  · omega
  · rw [same.phoff, same.phnum]
    omega

/-- Where some header of the loop is, if the loop goes on behind the table: its address wraps
around for a table near the end of the largest files. -/
theorem beyond_table {place number : Nat} (more : max number 2 < place) (few : number < 2 ^ 16)
    (small : place < 2 ^ 31) :
    ∃ i offset, number ≤ i ∧ i < place ∧ u32 (place + 32 * i) = offset ∧ 52 ≤ offset ∧
      offset + 4 < 2 ^ 31 ∧ (offset + 4 ≤ place ∨ place + 32 * number ≤ offset) := by
  by_cases near : place + 32 * max number 2 + 4 < 2 ^ 31
  · refine ⟨max number 2, place + 32 * max number 2, by omega, by omega, ?_, by omega, near,
      by omega⟩
    exact Nat.mod_eq_of_lt (by omega)
  · refine ⟨(2 ^ 32 + 64 + place % 32 - place) / 32, 64 + place % 32, by omega, by omega, ?_,
      by omega, by omega, by omega⟩
    rw [u32]
    omega

theorem load32_wrapped {x offset : Nat} (place : u32 x = offset) :
    load32 (fileBytes content around pass) x = load32 (fileBytes content around pass) offset := by
  have byte : ∀ j < 4, fileBytes content around pass (x + j) =
      fileBytes content around pass (offset + j) := by
    intro j small
    have same : u32 (x + j) = u32 (offset + j) := by
      rw [← place, u32, u32, u32, Nat.mod_add_mod]
    rw [fileBytes, fileBytes, same]
  have first := byte 0 (by omega)
  rw [Nat.add_zero, Nat.add_zero] at first
  rw [load32, load32, first, byte 1 (by omega), byte 2 (by omega), byte 3 (by omega)]

theorem TabledElf.bounded (elf : TabledElf content) (depends : DependsOnTable content around pass) :
    elfPhoff (elfBytes content) ≤ max (elfPhnum (elfBytes content)) 2 := by
  by_contra more
  have table := elf.table
  have size := elf.small
  obtain ⟨i, offset, above, below, place, header, small, apart⟩ :=
    beyond_table (Nat.lt_of_not_le more) (load16_lt _ _) (by omega)
  -- The word at this offset can be made loadable, and can be made not so.
  have reads : ∀ word < 2 ^ 32, loadable (fileBytes content around pass) i = (word == 1) := by
    intro word bound
    obtain ⟨elf', same⟩ := elf.withWord word header small apart
    obtain ⟨parsed, ran, -, -, stores, -⟩ := parseElfSections_spec
      (elf.fileIdent : elfIdent (fileBytes content around pass) = true) false
      (elfPhoff (elfBytes content))
    obtain ⟨parsed', ran', -, -, stores', -⟩ := parseElfSections_spec
      (elf'.fileIdent : elfIdent (fileBytes (Kernel.withWord content offset word) around pass) = true)
      false (elfPhoff (elfBytes content))
    have equal := depends _ elf' same false (elfPhoff (elfBytes content))
    rw [ran, ran', Option.some.injEq] at equal
    have whole : (loadableHeaders (fileBytes content around pass)).length ≤
        elfPhoff (elfBytes content) := by
      have place : elfPhoff (fileBytes content around pass) = _ := elf.phoff
      rw [← place]
      exact count_le_phoff
    have whole' : (loadableHeaders (fileBytes (Kernel.withWord content offset word)
        around pass)).length ≤ elfPhoff (elfBytes content) := by
      have place : elfPhoff (fileBytes (Kernel.withWord content offset word) around pass) = _ :=
        elf'.phoff
      rw [← same.phoff, ← place]
      exact count_le_phoff
    rw [equal, stores, List.take_of_length_le whole, List.take_of_length_le whole'] at stores'
    have indices := congrArg (List.map Prod.fst) stores'
    simp only [List.map_map, Function.comp_def, List.map_id'] at indices
    have both : i ∈ loadableHeaders (fileBytes content around pass) ↔
        i ∈ loadableHeaders (fileBytes (Kernel.withWord content offset word) around pass) := by
      rw [indices]
    rw [mem_loadableHeaders, mem_loadableHeaders, elf.phoff, elf'.phoff, same.phoff] at both
    simp only [below, true_and] at both
    have seen : load32 (fileBytes (Kernel.withWord content offset word) around pass)
        (elfPhoff (elfBytes content) + 32 * i) = word := by
      have length : (Kernel.withWord content offset word).length =
          max content.length (offset + 4) := by simp [Kernel.withWord]
      rw [load32_wrapped place, elf'.word (by omega), withWord_bytes,
        load32_store32 _ _ _ bound]
    rw [Bool.eq_iff_iff, both]
    simp only [Kernel.loadable, elf'.phdr, same.phoff, seen]
  have one := reads 1 (by decide)
  have zero := reads 0 (by decide)
  rw [one] at zero
  cases zero

/-- When a call finds just the table: the loop ends with the table, or in the ELF header, and
no entry between the end of the one and the end of the other is loadable. -/
theorem header_table_iff {content : List UInt8} (elf : TabledElf content) (around : Surroundings)
    (pass : Nat) :
    (FindsTable content around pass ∧ DependsOnTable content around pass) ↔
      (elfPhoff (elfBytes content) ≤ max (elfPhnum (elfBytes content)) 2 ∧
        NoneBetween content around pass) := by
  constructor
  · intro both
    exact ⟨elf.bounded both.2, elf.findsTable_iff.mp both.1⟩
  · intro ends
    exact ⟨elf.findsTable_iff.mpr ends.2, elf.dependsOnTable ends.1 ends.2⟩

def fullTable : List UInt8 := elfFile 52 52 (bytes32 1 ++ List.replicate 1660 0)

theorem header_table_iff_full :
    FindsTable fullTable smallSurroundings 0 ∧ DependsOnTable fullTable smallSurroundings 0 := by
  have elf : TabledElf fullTable :=
    ⟨by decide +kernel, by decide +kernel, by decide +kernel, by decide +kernel⟩
  have place : elfPhoff (elfBytes fullTable) = 52 := by decide +kernel
  have number : elfPhnum (elfBytes fullTable) = 52 := by decide +kernel
  refine (header_table_iff elf smallSurroundings 0).mpr ⟨?_, ?_⟩
  · rw [place, number]
    decide
  · intro i above below
    rw [place, number] at above below
    omega

/-- A table of one entry at offset 52, with a word 1 behind it. -/
theorem data_read_as_header :
    ¬ ∀ content around pass, TabledElf content →
      FindsTable content around pass ∧ DependsOnTable content around pass := by
  intro claim
  have elf : TabledElf (elfFile 52 1 (List.replicate 32 0 ++ bytes32 1)) :=
    ⟨by decide +kernel, by decide +kernel, by decide +kernel, by decide +kernel⟩
  have none := elf.findsTable_iff.mp (claim _ smallSurroundings 0 elf).1
  have load := none 1 (by decide +kernel) (by decide +kernel)
  revert load
  decide +kernel

end SysImpl.Kernel
