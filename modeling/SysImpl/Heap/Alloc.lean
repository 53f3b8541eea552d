import SysImpl.Heap.Layout

/-! `HeapAlloc` refines first-fit allocation.

The walk passes the free nodes that are too small and stops at the first that fits;
the stores it then makes turn the memory of a block list into the memory of the list
with that block carved. -/

namespace SysImpl.Heap

open Bytes Links Blocks

variable {heap size need : Nat} {blocks front back : List Block} {block : Block} {m : Mem}

theorem setLink_eq (m : Mem) (heap value : Nat) (nodes : List Nat)
    (nonzero : ∀ node ∈ nodes, node ≠ 0) :
    setLink m heap (lastOr 0 nodes) value = store32 m (lastCell 8 (heap + 4) nodes) value := by
  unfold setLink
  by_cases passed : nodes = []
  · subst passed
    simp [lastOr, lastCell]
  · rw [if_pos (nonzero _ (lastOr_mem 0 nodes passed)), lastCell_eq (heap + 4) 0 nodes passed]

theorem allocLoop_skip (heap fuel : Nat) {nodes rest : List Nat} {cell : Nat} (prev : Nat)
    (chain : Chain 8 m cell (nodes ++ rest))
    (small : ∀ node ∈ nodes, node ≠ 0 ∧ nodeFree m node = availMagic ∧ nodeSize m node < need) :
    allocLoop heap need (nodes.length + fuel) (headOr (nodes ++ rest)) prev m =
      allocLoop heap need fuel (headOr rest) (lastOr prev nodes) m := by
  induction nodes generalizing cell prev with
  | nil => simp [lastOr]
  | cons node tail ih =>
      obtain ⟨nonzero, magic, less⟩ := small node (by simp)
      have next : nodeNext m node = headOr (tail ++ rest) := chain_head chain.2
      have steps : (node :: tail).length + fuel = tail.length + fuel + 1 := by
        simp only [List.length_cons]
        omega
      rw [steps]
      simp only [List.cons_append, headOr, allocLoop, nonzero, if_false, magic, ne_eq,
        not_true_eq_false, Nat.not_le.mpr less, next, lastOr]
      exact ih node chain.2 (by intro other member; exact small other (by simp [member]))

theorem Holds.small (arena : Arena heap size blocks) (holds : Holds m heap blocks)
    (part : front ⊆ blocks) (before : ∀ other ∈ front, other.live = true ∨ other.size < need) :
    ∀ node ∈ freeAddrs front,
      node ≠ 0 ∧ nodeFree m node = availMagic ∧ nodeSize m node < need := by
  intro node member
  obtain ⟨other, inside, free, rfl⟩ := mem_freeAddrs.mp member
  have place := arena.bounds other (part inside)
  obtain ⟨recorded, tagged⟩ := holds.headers other (part inside)
  rw [free] at tagged
  have less : other.size < need := by
    rcases before other inside with live | less
    · rw [free] at live
      cases live
    · exact less
  rw [recorded]
  exact ⟨by omega, tagged, less⟩

theorem allocLoop_miss (arena : Arena heap size blocks) (holds : Holds m heap blocks)
    (none_fits : ∀ other ∈ blocks, other.live = true ∨ other.size < need) :
    allocLoop heap need (2 ^ 32) (firstAvail m heap) 0 m = .ok (none, m) := by
  have small := holds.small arena (fun _ member => member) none_fits
  have chain : Chain 8 m (heap + 4) (freeAddrs blocks ++ []) := by simpa using holds.links
  have enough := arena.free_length
  have skip := allocLoop_skip heap (2 ^ 32 - (freeAddrs blocks).length) 0 chain small
  rw [show (freeAddrs blocks).length + (2 ^ 32 - (freeAddrs blocks).length) = 2 ^ 32 by omega]
    at skip
  rw [firstAvail, chain_head chain, skip]
  obtain ⟨left, enough⟩ : ∃ left, 2 ^ 32 - (freeAddrs blocks).length = left + 1 :=
    ⟨2 ^ 32 - (freeAddrs blocks).length - 1, by omega⟩
  rw [enough]
  simp [allocLoop, headOr]

def takeNode (m : Mem) (heap cell node need : Nat) : Mem :=
  store32 (store32 (splitNode m node need).2 cell (splitNode m node need).1) (node + 4) heap

theorem allocLoop_hit (arena : Arena heap size (front ++ block :: back))
    (holds : Holds m heap (front ++ block :: back)) (free : block.live = false)
    (fits : need ≤ block.size) (before : ∀ other ∈ front, other.live = true ∨ other.size < need) :
    allocLoop heap need (2 ^ 32) (firstAvail m heap) 0 m =
      .ok (some (block.addr + payloadOffset),
        takeNode m heap (lastCell 8 (heap + 4) (freeAddrs front)) block.addr need) := by
  have small := holds.small arena (by simp) before
  have chain : Chain 8 m (heap + 4) (freeAddrs front ++ block.addr :: freeAddrs back) := by
    have links := holds.links
    rwa [freeAddrs_append, freeAddrs_cons, free, if_neg (by simp)] at links
  have enough := arena.free_length
  rw [freeAddrs_append, freeAddrs_cons, free, if_neg (by simp), List.length_append,
    List.length_cons] at enough
  have skip := allocLoop_skip heap (2 ^ 32 - (freeAddrs front).length) 0 chain small
  rw [show (freeAddrs front).length + (2 ^ 32 - (freeAddrs front).length) = 2 ^ 32 by omega]
    at skip
  rw [firstAvail, chain_head chain, skip]
  obtain ⟨left, enough⟩ : ∃ left, 2 ^ 32 - (freeAddrs front).length = left + 1 :=
    ⟨2 ^ 32 - (freeAddrs front).length - 1, by omega⟩
  have place := arena.bounds block (by simp)
  have nonzero : block.addr ≠ 0 := by omega
  obtain ⟨recorded, tagged⟩ := holds.headers block (by simp)
  have magic : nodeFree m block.addr = availMagic := by rwa [free] at tagged
  have large : need ≤ nodeSize m block.addr := by rwa [recorded]
  have front_nonzero : ∀ node ∈ freeAddrs front, node ≠ 0 := by
    intro node member
    exact (small node member).1
  rw [enough]
  simp only [headOr, allocLoop, nonzero, if_false, magic, ne_eq, not_true_eq_false, large, if_true]
  rw [setLink_eq _ _ _ _ front_nonzero]
  rfl

theorem splitNode_words (inside : block.addr + block.size < 2 ^ 32)
    (recorded : nodeSize m block.addr = block.size) (large : 16 ≤ block.size - need → 16 ≤ need)
    (fits : need ≤ block.size) :
    (splitNode m block.addr need).1 =
        (if 16 ≤ block.size - need then block.addr + need else nodeNext m block.addr) ∧
      nodeSize (splitNode m block.addr need).2 block.addr =
        (if 16 ≤ block.size - need then need else block.size) ∧
      (16 ≤ block.size - need →
        nodeSize (splitNode m block.addr need).2 (block.addr + need) = block.size - need ∧
        nodeFree (splitNode m block.addr need).2 (block.addr + need) = availMagic ∧
        nodeNext (splitNode m block.addr need).2 (block.addr + need) = nodeNext m block.addr) ∧
      ∀ word, (word + 4 ≤ block.addr ∨ block.addr + 4 ≤ word ∧ word + 4 ≤ block.addr + need ∨
          block.addr + block.size ≤ word) →
        load32 (splitNode m block.addr need).2 word = load32 m word := by
  have next_bound : nodeNext m block.addr < 2 ^ 32 := load32_lt m _
  unfold splitNode
  rw [recorded]
  by_cases split : 16 ≤ block.size - need
  · have address : u32 (block.addr + need) = block.addr + need := Nat.mod_eq_of_lt (by omega)
    have magic : availMagic < 2 ^ 32 := by decide
    rw [if_pos split, if_pos split, if_pos (show minNodeSize ≤ _ from split), address]
    simp only [nodeSize, nodeFree, nodeNext] at recorded next_bound ⊢
    refine ⟨trivial, ?_, ?_, ?_⟩
    · rw [load32_store32 _ _ _ (by omega)]
    · intro _
      refine ⟨?_, ?_, ?_⟩
      · rw [load32_store32_of_disjoint _ _ _ _ (by omega),
          load32_store32_of_disjoint _ _ _ _ (by omega),
          load32_store32_of_disjoint _ _ _ _ (by omega), load32_store32 _ _ _ (by omega)]
      · rw [load32_store32_of_disjoint _ _ _ _ (by omega), load32_store32 _ _ _ magic]
      · rw [load32_store32_of_disjoint _ _ _ _ (by omega),
          load32_store32_of_disjoint _ _ _ _ (by omega),
          load32_store32_of_disjoint _ _ (block.addr + 8) _ (by omega),
          load32_store32 _ _ _ next_bound]
    · intro word apart
      rw [load32_store32_of_disjoint _ _ _ _ (by omega),
        load32_store32_of_disjoint _ _ _ _ (by omega),
        load32_store32_of_disjoint _ _ _ _ (by omega),
        load32_store32_of_disjoint _ _ _ _ (by omega)]
  · rw [if_neg split, if_neg split, if_neg (show ¬ minNodeSize ≤ _ from split)]
    exact ⟨rfl, recorded, fun impossible => absurd impossible split, fun _ _ => rfl⟩

/-- A word that `takeNode` does not write: outside the list cell, the tag of the taken
node, and the headers that the split writes. -/
theorem takeNode_other {cell word : Nat} (inside : block.addr + block.size < 2 ^ 32)
    (whole : 8 ≤ block.size)
    (recorded : nodeSize m block.addr = block.size) (large : 16 ≤ block.size - need → 16 ≤ need)
    (fits : need ≤ block.size)
    (off_cell : cell + 4 ≤ word ∨ word + 4 ≤ cell)
    (off_block : word + 4 ≤ block.addr ∨ block.addr + block.size ≤ word) :
    load32 (takeNode m heap cell block.addr need) word = load32 m word := by
  have words := (splitNode_words inside recorded large fits).2.2.2
  unfold takeNode
  rw [load32_store32_of_disjoint _ _ _ _ (by omega), load32_store32_of_disjoint _ _ _ _ off_cell]
  exact words word (by omega)

/-- The words that `takeNode` does write: the tag and the size of the taken node, the list cell
before it and, if it is split, the header of the rest. -/
theorem takeNode_words {cell : Nat} (inside : block.addr + block.size < 2 ^ 32)
    (recorded : nodeSize m block.addr = block.size) (large : 16 ≤ block.size - need → 16 ≤ need)
    (fits : need ≤ block.size) (off_cell : cell + 4 ≤ block.addr) (below : heap < 2 ^ 32) :
    nodeFree (takeNode m heap cell block.addr need) block.addr = heap ∧
      nodeSize (takeNode m heap cell block.addr need) block.addr =
        (if 16 ≤ block.size - need then need else block.size) ∧
      load32 (takeNode m heap cell block.addr need) cell =
        (if 16 ≤ block.size - need then block.addr + need else nodeNext m block.addr) ∧
      (16 ≤ block.size - need → ∀ word, block.addr + need ≤ word →
        load32 (takeNode m heap cell block.addr need) word =
          load32 (splitNode m block.addr need).2 word) := by
  obtain ⟨next, kept_size, _⟩ := splitNode_words inside recorded large fits
  refine ⟨load32_store32 _ _ _ below, ?_, ?_, ?_⟩
  · rw [← kept_size]
    simp only [nodeSize, takeNode]
    rw [load32_store32_of_disjoint _ _ _ _ (by omega), load32_store32_of_disjoint _ _ _ _ (by omega)]
  · have bound : (splitNode m block.addr need).1 < 2 ^ 32 := by
      rw [next]
      split
      · omega
      · exact load32_lt m _
    rw [← next]
    simp only [takeNode]
    rw [load32_store32_of_disjoint _ _ _ _ (by omega), load32_store32 _ _ _ bound]
  · intro split word low
    simp only [takeNode]
    rw [load32_store32_of_disjoint _ _ _ _ (by omega), load32_store32_of_disjoint _ _ _ _ (by omega)]

theorem takeNode_holds (arena : Arena heap size (front ++ block :: back))
    (holds : Holds m heap (front ++ block :: back)) (free : block.live = false)
    (large : 16 ≤ block.size - need → 16 ≤ need)
    (fits : need ≤ block.size) :
    Holds (takeNode m heap (lastCell 8 (heap + 4) (freeAddrs front)) block.addr need) heap
      (front ++ carve minNodeSize need block ++ back) := by
  have below := arena.below
  have place := arena.bounds block (by simp)
  have recorded := (holds.headers block (by simp)).1
  have inside : block.addr + block.size < 2 ^ 32 := by omega
  obtain ⟨_, _, remainder, _⟩ := splitNode_words inside recorded large fits
  obtain ⟨cell_low, cell_high⟩ := arena.cell_bounds
  obtain ⟨-, chain⟩ := holds.split
  rw [freeAddrs_cons, free, if_neg (by simp)] at chain
  obtain ⟨before, after⟩ := arena.around
  generalize place_eq : lastCell 8 (heap + 4) (freeAddrs front) = cell at *
  have other_word : ∀ word, (cell + 4 ≤ word ∨ word + 4 ≤ cell) →
      (word + 4 ≤ block.addr ∨ block.addr + block.size ≤ word) →
      load32 (takeNode m heap cell block.addr need) word = load32 m word :=
    fun word off_cell off_block => takeNode_other inside (by omega) recorded large fits off_cell off_block
  obtain ⟨tag_word, size_word, cell_word, split_word⟩ :=
    takeNode_words inside recorded large fits cell_high (show heap < 2 ^ 32 by omega)
  subst place_eq
  apply Holds.replace [block] arena holds before after cell_high (Nat.le_add_right _ _)
  · exact other_word
  · intro other member
    unfold carve at member
    split at member
    · next split =>
        obtain ⟨first, second, _⟩ := remainder split
        rw [if_pos (show 16 ≤ _ from split)] at size_word
        rcases List.mem_cons.mp member with rfl | member
        · exact ⟨size_word, tag_word⟩
        · rw [List.mem_singleton.mp member]
          simp only [minNodeSize] at split
          exact ⟨(split_word split (block.addr + need) (by omega)).trans first,
            (split_word split (block.addr + need + 4) (by omega)).trans second⟩
    · next whole =>
        rw [if_neg (show ¬ 16 ≤ _ from whole)] at size_word
        rw [List.mem_singleton.mp member]
        exact ⟨size_word, tag_word⟩
  · intro back_links
    unfold carve
    split
    · next split =>
        rw [if_pos (show 16 ≤ _ from split)] at cell_word
        obtain ⟨_, _, third⟩ := remainder split
        simp only [minNodeSize] at split
        simp only [List.cons_append, List.nil_append, freeAddrs_cons, if_true, Bool.false_eq_true,
          if_false]
        refine ⟨cell_word, chain_congr ?_ back_links chain.2⟩
        exact (split_word split (block.addr + need + 8) (by omega)).trans third
    · next whole =>
        rw [if_neg (show ¬ 16 ≤ _ from whole)] at cell_word
        simp only [List.cons_append, List.nil_append, freeAddrs_cons, if_true]
        exact chain_congr cell_word back_links chain.2

/-- `takeNode` writes only the list cell, the header of the taken block and, if that is split,
the header and the link of the rest. -/
theorem takeNode_frame {cell x : Nat} (inside : block.addr + block.size < 2 ^ 32)
    (recorded : nodeSize m block.addr = block.size) (fits : need ≤ block.size)
    (off_cell : x < cell ∨ cell + 4 ≤ x) (off_header : x < block.addr ∨ block.addr + 8 ≤ x)
    (off_rest : 16 ≤ block.size - need →
      x < block.addr + need ∨ block.addr + need + 12 ≤ x) :
    takeNode m heap cell block.addr need x = m x := by
  unfold takeNode splitNode
  rw [recorded, store32_outside _ _ _ _ (by omega), store32_outside _ _ _ _ off_cell]
  by_cases split : 16 ≤ block.size - need
  · have address : u32 (block.addr + need) = block.addr + need := Nat.mod_eq_of_lt (by omega)
    have outside := off_rest split
    rw [if_pos (show minNodeSize ≤ _ from split), address]
    simp only
    rw [store32_outside _ _ _ _ (by omega), store32_outside _ _ _ _ (by omega),
      store32_outside _ _ _ _ (by omega), store32_outside _ _ _ _ (by omega)]
  · rw [if_neg (show ¬ minNodeSize ≤ _ from split)]

theorem cell_inLinks (front : List Block) (part : front ⊆ blocks) {x : Nat}
    (low : lastCell 8 (heap + 4) (freeAddrs front) ≤ x)
    (high : x < lastCell 8 (heap + 4) (freeAddrs front) + 4) : InLinks heap blocks x := by
  rcases cell_cases heap front with same | ⟨other, inner, free, equal⟩
  · exact Or.inl (by omega)
  · exact Or.inr ⟨other, part inner, free, by omega⟩

/-- The bytes that an allocation writes: the links of the heap, the header of the node it
takes and, if that is split, the header and the link of the rest. -/
def Taking (m : Mem) (heap need : Nat) (blocks : List Block) (taken x : Nat) : Prop :=
  InLinks heap blocks x ∨ (taken ≤ x ∧ x < taken + 8) ∨
    (16 ≤ nodeSize m taken - need ∧ taken + need ≤ x ∧ x < taken + need + 12)

/-- What a call of `HeapAlloc` does on a heap that memory holds: it carves the block
that first-fit allocation chooses, or finds none, and writes only free parts of the heap. -/
theorem allocLoop_spec (arena : Arena heap size blocks) (holds : Holds m heap blocks)
    (carves : Carves minNodeSize need blocks) :
    (allocate minNodeSize need blocks = none ∧
        allocLoop heap need (2 ^ 32) (firstAvail m heap) 0 m = .ok (none, m)) ∨
      ∃ taken result m', allocate minNodeSize need blocks = some (taken, result) ∧
        allocLoop heap need (2 ^ 32) (firstAvail m heap) 0 m =
          .ok (some (taken + payloadOffset), m') ∧
        Holds m' heap result ∧ ∀ x, ¬ Taking m heap need blocks taken x → m' x = m x := by
  cases found : allocate minNodeSize need blocks with
  | none => exact Or.inl ⟨rfl, allocLoop_miss arena holds (allocate_eq_none found)⟩
  | some pair =>
      obtain ⟨taken, result⟩ := pair
      obtain ⟨front, block, back, rfl, free, fits, before, rfl, rfl⟩ := allocate_eq_some found
      have large := carves front block back rfl free fits before
      refine Or.inr ⟨_, _, _, rfl, allocLoop_hit arena holds free fits before,
        takeNode_holds arena holds free large fits, ?_⟩
      intro x outside
      have below := arena.below
      have place := arena.bounds block (by simp)
      have recorded := (holds.headers block (by simp)).1
      simp only [Taking, recorded, not_or] at outside
      apply takeNode_frame (by omega) recorded fits
      · by_contra inside
        exact outside.1 (cell_inLinks front (by simp) (by omega) (by omega))
      · omega
      · omega

theorem Taking.inFree {taken x : Nat} {result : List Block} (arena : Arena heap size blocks)
    (holds : Holds m heap blocks) (found : allocate minNodeSize need blocks = some (taken, result))
    (taking : Taking m heap need blocks taken x) : InFree heap blocks x := by
  obtain ⟨front, block, back, rfl, free, fits, _, rfl, _⟩ := allocate_eq_some found
  have place := arena.bounds block (by simp)
  have recorded := (holds.headers block (by simp)).1
  rcases taking with links | header | ⟨split, rest⟩
  · exact links.inFree arena
  · exact Or.inr ⟨block, by simp, free, by omega, by omega⟩
  · exact Or.inr ⟨block, by simp, free, by omega, by omega⟩

end SysImpl.Heap
