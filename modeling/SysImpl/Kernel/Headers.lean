import SysImpl.Kernel.Segments

/-! The loop of `parseElfSections`, with what it stores and what it reads.

`execv` calls it twice, to count the loadable headers and to fill a table of that size. The
second call compares the number of headers stored so far with the size of the table, and
stores each under its index in the file. -/

namespace SysImpl.Kernel

open Bytes

def wordReads (x : Nat) : List Nat := (List.range 4).map fun j => u32 (x + j)

def fieldReads (b : Mem) (i : Nat) : List Nat :=
  wordReads (phdr b i + 12) ++ wordReads (phdr b i + 20) ++ wordReads (phdr b i + 4)

/-- A call of `parseElfSections`: the entries of `sections` it writes, in order, what it
returns, and the offsets it reads. -/
structure Parsed where
  entry : Option Nat
  stores : List (Nat × Section)
  num : Nat
  reads : List Nat

def Parsed.load (b : Mem) (n i : Nat) (parsed : Parsed) : Parsed :=
  if parsed.num < n then
    { parsed with
      stores := parsed.stores ++ [(i, headerSection b i)]
      num := parsed.num + 1
      reads := parsed.reads ++ fieldReads b i }
  else { parsed with num := parsed.num + 1 }

def parseLoop (b : Mem) (n : Nat) : Nat → Nat → Parsed → Parsed
  | 0, _, parsed => parsed
  | rounds + 1, i, parsed =>
      let parsed := { parsed with reads := parsed.reads ++ wordReads (phdr b i) }
      parseLoop b n rounds (i + 1) (if loadable b i then parsed.load b n i else parsed)

/-- `parseElfSections`, with an `entry` to fill or without; `none` is `InvalidElfException`. -/
def parseElfSections (b : Mem) (entry : Bool) (n : Nat) : Option Parsed :=
  if elfIdent b then
    some (parseLoop b n (elfPhoff b) 0
      { entry := if entry then some (elfEntry b) else none
        stores := []
        num := 0
        reads := List.range 6 ++ (if entry then wordReads 24 else []) ++ wordReads 28 })
  else none

/-- No loadable header follows one that is not. -/
def LoadableFirst (b : Mem) : Prop :=
  ∀ i j, i < j → j < elfPhoff b → loadable b j = true → loadable b i = true

/-- After a first call that returns `n`, a second one with a table of `n` entries stores below
`n` only, stores all entries, and has the loadable headers in the table in their order. -/
def TwoPass (b : Mem) : Prop :=
  ∀ first, parseElfSections b false 0 = some first →
    ∃ second, parseElfSections b true first.num = some second ∧
      (∀ store ∈ second.stores, store.1 < first.num) ∧
      (∀ k < first.num, ∃ store ∈ second.stores, store.1 = k) ∧
      ∀ stale, ∃ table, storeSections b first.num stale = some table ∧
        ∀ k i, (loadableHeaders b)[k]? = some i → table k = headerSection b i

variable {b : Mem} {n : Nat}

theorem parseLoop_spec (rounds i : Nat) (parsed : Parsed) :
    (parseLoop b n rounds i parsed).entry = parsed.entry ∧
      (parseLoop b n rounds i parsed).num =
        parsed.num + ((List.range' i rounds).filter (loadable b)).length ∧
      (parseLoop b n rounds i parsed).stores = parsed.stores ++
        ((((List.range' i rounds).filter (loadable b)).take (n - parsed.num)).map
          fun j => (j, headerSection b j)) ∧
      ∀ x, x ∈ (parseLoop b n rounds i parsed).reads ↔ x ∈ parsed.reads ∨
        (∃ j ∈ List.range' i rounds, x ∈ wordReads (phdr b j)) ∨
        ∃ j ∈ ((List.range' i rounds).filter (loadable b)).take (n - parsed.num),
          x ∈ fieldReads b j := by
  induction rounds generalizing i parsed with
  | zero => simp [parseLoop]
  | succ rounds ih =>
      simp only [parseLoop]
      obtain ⟨entry, num, stores, reads⟩ :=
        ih (i + 1) (if loadable b i then Parsed.load b n i
          { parsed with reads := parsed.reads ++ wordReads (phdr b i) }
          else { parsed with reads := parsed.reads ++ wordReads (phdr b i) })
      by_cases load : loadable b i
      · simp only [if_pos load] at entry num stores reads ⊢
        rw [List.range'_succ, List.filter_cons_of_pos load]
        by_cases room : parsed.num < n
        · simp only [Parsed.load, if_pos room] at entry num stores reads ⊢
          have more : n - parsed.num = n - (parsed.num + 1) + 1 := by omega
          rw [more, List.take_succ_cons]
          refine ⟨entry, ?_, ?_, ?_⟩
          · rw [num, List.length_cons]
            omega
          · rw [stores, List.map_cons, List.append_assoc, List.singleton_append]
          · intro x
            rw [reads]
            simp only [List.mem_append, List.mem_cons, exists_eq_or_imp, or_assoc]
            rw [or_left_comm (a := x ∈ fieldReads b i)]
        · simp only [Parsed.load, if_neg room] at entry num stores reads ⊢
          have full : n - parsed.num = 0 := by omega
          have still : n - (parsed.num + 1) = 0 := by omega
          rw [still, List.take_zero] at stores reads
          rw [full, List.take_zero]
          refine ⟨entry, ?_, stores, ?_⟩
          · rw [num, List.length_cons]
            omega
          · intro x
            rw [reads]
            simp only [List.mem_append, List.mem_cons, exists_eq_or_imp, or_assoc]
      · simp only [if_neg load] at entry num stores reads ⊢
        rw [List.range'_succ, List.filter_cons_of_neg load]
        refine ⟨entry, num, stores, ?_⟩
        intro x
        rw [reads]
        simp only [List.mem_append, List.mem_cons, exists_eq_or_imp, or_assoc]

/-- A call that does not throw goes over the loadable headers in order, stores the first `n` of
them, and returns their number. -/
theorem parseElfSections_spec (ident : elfIdent b = true) (entry : Bool) (n : Nat) :
    ∃ parsed, parseElfSections b entry n = some parsed ∧
      parsed.entry = (if entry then some (elfEntry b) else none) ∧
      parsed.num = countSections b ∧
      parsed.stores = ((loadableHeaders b).take n).map (fun j => (j, headerSection b j)) ∧
      ∀ x, x ∈ parsed.reads ↔ x < 6 ∨ (entry = true ∧ x ∈ wordReads 24) ∨ x ∈ wordReads 28 ∨
        (∃ j < elfPhoff b, x ∈ wordReads (phdr b j)) ∨
        ∃ j ∈ (loadableHeaders b).take n, x ∈ fieldReads b j := by
  obtain ⟨entered, num, stores, reads⟩ := parseLoop_spec (b := b) (n := n) (elfPhoff b) 0
    { entry := if entry then some (elfEntry b) else none
      stores := []
      num := 0
      reads := List.range 6 ++ (if entry then wordReads 24 else []) ++ wordReads 28 }
  refine ⟨_, if_pos ident, entered, ?_, ?_, ?_⟩
  · rw [num, Nat.zero_add, ← List.range_eq_range']
    rfl
  · rw [stores, List.nil_append, Nat.sub_zero, ← List.range_eq_range']
    rfl
  · intro x
    rw [reads, Nat.sub_zero, ← List.range_eq_range']
    cases entry with
    | false => simp [loadableHeaders, or_assoc]
    | true => simp [loadableHeaders, or_assoc]

theorem parseElfSections_none (ident : elfIdent b = false) (entry : Bool) (n : Nat) :
    parseElfSections b entry n = none := by
  simp only [parseElfSections, ident, Bool.false_eq_true, if_false]

theorem mem_loadableHeaders {i : Nat} :
    i ∈ loadableHeaders b ↔ i < elfPhoff b ∧ loadable b i = true := by
  simp [loadableHeaders]

theorem count_le_phoff : countSections b ≤ elfPhoff b := by
  have less := List.length_filter_le (loadable b) (List.range (elfPhoff b))
  rwa [List.length_range] at less

theorem LoadableFirst.headers (first : LoadableFirst b) :
    loadableHeaders b = List.range (countSections b) := by
  apply loadableHeaders_range rfl
  intro i member
  by_contra beyond
  obtain ⟨inside, load⟩ := mem_loadableHeaders.mp member
  -- All of the indices up to this one are loadable, which is more than there are.
  have earlier : List.range (i + 1) ⊆ loadableHeaders b := by
    intro j before
    have before := List.mem_range.mp before
    rcases Nat.lt_or_eq_of_le (Nat.le_of_lt_succ before) with less | same
    · exact mem_loadableHeaders.mpr ⟨less.trans inside, first j i less inside load⟩
    · rw [same]
      exact member
  have more := (List.subperm_of_subset List.nodup_range earlier).length_le
  rw [List.length_range] at more
  exact beyond more

theorem LoadableFirst.of_headers {n : Nat} (headers : loadableHeaders b = List.range n) :
    LoadableFirst b := by
  intro i j less inside load
  have member : j ∈ loadableHeaders b := mem_loadableHeaders.mpr ⟨inside, load⟩
  rw [headers] at member
  have earlier : i ∈ loadableHeaders b := by
    rw [headers]
    exact List.mem_range.mpr (less.trans (List.mem_range.mp member))
  exact (mem_loadableHeaders.mp earlier).2

/-- The two calls fit together exactly if no loadable header follows one that is not. -/
theorem two_pass_iff (b : Mem) : TwoPass b ↔ (elfIdent b = true → LoadableFirst b) := by
  constructor
  · intro passes ident
    obtain ⟨first, counted, -, number, -⟩ := parseElfSections_spec ident false 0
    obtain ⟨second, stored, inside, -⟩ := passes first counted
    obtain ⟨again, ran, -, -, stores, -⟩ := parseElfSections_spec ident true first.num
    cases stored.symm.trans ran
    rw [number, countSections, List.take_length] at stores
    apply LoadableFirst.of_headers
    apply loadableHeaders_range rfl
    intro i member
    have below := inside (i, headerSection b i) (by
      rw [stores]
      exact List.mem_map_of_mem member)
    rwa [number] at below
  · intro first parsed counted
    cases ident : elfIdent b with
    | false =>
        rw [parseElfSections_none ident] at counted
        cases counted
    | true =>
        obtain ⟨before, ran, -, number, -⟩ := parseElfSections_spec ident false 0
        cases counted.symm.trans ran
        obtain ⟨second, stored, -, -, stores, -⟩ := parseElfSections_spec ident true parsed.num
        have headers := (first ident).headers
        rw [number, headers, List.take_of_length_le (by simp)] at stores
        refine ⟨second, stored, ?_, ?_, ?_⟩
        · intro store member
          rw [stores] at member
          obtain ⟨i, within, rfl⟩ := List.mem_map.mp member
          rw [number]
          exact List.mem_range.mp within
        · intro k below
          rw [number] at below
          refine ⟨(k, headerSection b k), ?_, rfl⟩
          rw [stores]
          exact List.mem_map_of_mem (List.mem_range.mpr below)
        · intro stale
          refine ⟨tableEntry b parsed.num stale, ?_, ?_⟩
          · rw [storeSections_eq, number, headers, List.take_of_length_le (by simp), if_pos]
            intro i member
            exact List.mem_range.mp member
          · intro k i here
            rw [headers, List.getElem?_eq_some_iff] at here
            obtain ⟨within, same⟩ := here
            rw [List.getElem_range] at same
            subst same
            rw [tableEntry, number, headers, List.take_of_length_le (by simp), if_pos]
            exact List.mem_range.mpr (by simpa using within)

def elfFile (place number : Nat) (rest : List UInt8) : List UInt8 :=
  [0x7f, 0x45, 0x4c, 0x46, 1, 1] ++ List.replicate 22 0 ++ bytes32 place ++ List.replicate 12 0 ++
    [UInt8.ofNat number, 0] ++ List.replicate 6 0 ++ rest

def lateHeader : List UInt8 :=
  elfFile 52 2 (List.replicate 32 0 ++ bytes32 1 ++ List.replicate 28 0)

/-- A second header that alone is loadable is stored under its index 1 in a table of one entry. -/
theorem late_header_overruns : ¬ ∀ b, TwoPass b := by
  intro claim
  have ident : elfIdent (elfBytes lateHeader) = true := by decide +kernel
  obtain ⟨first, counted, -, number, -⟩ := parseElfSections_spec ident false 0
  obtain ⟨second, stored, inside, -⟩ := claim _ first counted
  obtain ⟨again, ran, -, -, stores, -⟩ := parseElfSections_spec ident true first.num
  cases stored.symm.trans ran
  have headers : loadableHeaders (elfBytes lateHeader) = [1] := by decide +kernel
  rw [countSections, headers] at number
  rw [number, headers] at stores
  have below := inside (1, headerSection (elfBytes lateHeader) 1) (by
    rw [stores]
    exact List.mem_cons_self)
  rw [number] at below
  exact absurd below (by decide)

end SysImpl.Kernel
