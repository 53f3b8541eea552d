import SysImpl.Heap.Alloc

/-! `HeapFree` refines releasing a block.

The walk finds the two free neighbours of the node in address order; linking the node
in between them and the two merges then turn the memory of a block list into the memory
of the list with that block released. -/

namespace SysImpl.Heap

open Bytes Links Blocks

variable {heap size : Nat} {blocks front back : List Block} {block left right : Block} {m : Mem}

theorem freeLoop_skip (heap node fuel : Nat) {nodes rest : List Nat} {cell : Nat} (prev : Nat)
    (chain : Chain 8 m cell (nodes ++ rest))
    (lower : ∀ other ∈ nodes, other ≠ 0 ∧ other ≤ node) :
    freeLoop heap node (nodes.length + fuel) (headOr (nodes ++ rest)) prev m =
      freeLoop heap node fuel (headOr rest) (lastOr prev nodes) m := by
  induction nodes generalizing cell prev with
  | nil => simp [lastOr]
  | cons first tail ih =>
      obtain ⟨nonzero, below⟩ := lower first (by simp)
      have next : nodeNext m first = headOr (tail ++ rest) := chain_head chain.2
      have steps : (first :: tail).length + fuel = tail.length + fuel + 1 := by
        simp only [List.length_cons]
        omega
      rw [steps]
      simp only [List.cons_append, headOr, freeLoop, nonzero, Nat.not_lt.mpr below, false_or,
        if_false, next, lastOr]
      exact ih first chain.2 (by intro other member; exact lower other (by simp [member]))

/-- The walk stops between the free nodes below the node and those above it. -/
theorem freeLoop_stop (arena : Arena heap size (front ++ block :: back)) (live : block.live = true)
    (links : Chain 8 m (heap + 4) (freeAddrs (front ++ block :: back))) :
    freeLoop heap block.addr (2 ^ 32) (firstAvail m heap) 0 m =
      .ok (insertNode m heap block.addr (headOr (freeAddrs back)) (lastOr 0 (freeAddrs front))) := by
  obtain ⟨before, after⟩ := arena.around
  have chain : Chain 8 m (heap + 4) (freeAddrs front ++ freeAddrs back) := by
    rwa [freeAddrs_append, freeAddrs_cons, live, if_pos rfl] at links
  have lower : ∀ other ∈ freeAddrs front, other ≠ 0 ∧ other ≤ block.addr := by
    intro other member
    obtain ⟨inner, inside, _, rfl⟩ := mem_freeAddrs.mp member
    have gap := before inner inside
    have bounds := arena.bounds inner (by simp [inside])
    omega
  have enough := arena.free_length
  rw [freeAddrs_append, List.length_append] at enough
  have skip := freeLoop_skip heap block.addr (2 ^ 32 - (freeAddrs front).length) 0 chain lower
  rw [show (freeAddrs front).length + (2 ^ 32 - (freeAddrs front).length) = 2 ^ 32 by omega]
    at skip
  rw [firstAvail, chain_head chain, skip]
  obtain ⟨left, enough⟩ : ∃ left, 2 ^ 32 - (freeAddrs front).length = left + 1 :=
    ⟨2 ^ 32 - (freeAddrs front).length - 1, by omega⟩
  have stop : headOr (freeAddrs back) = 0 ∨ block.addr < headOr (freeAddrs back) := by
    cases above : freeAddrs back with
    | nil => exact Or.inl rfl
    | cons other tail =>
        apply Or.inr
        have member : other ∈ freeAddrs back := by simp [above]
        obtain ⟨inner, inside, _, rfl⟩ := mem_freeAddrs.mp member
        have gap := after inner inside
        have bounds := arena.bounds block (by simp)
        simp only [headOr]
        omega
  rw [enough, freeLoop, if_pos stop]

/-- Linking a node in: its own link first, then the cell that pointed past it. -/
theorem link_holds (arena : Arena heap size (front ++ block :: back)) (live : block.live = true)
    (holds : Holds m heap (front ++ block :: back)) :
    Holds (store32 (store32 (store32 m (block.addr + 4) availMagic) (block.addr + 8)
        (headOr (freeAddrs back))) (lastCell 8 (heap + 4) (freeAddrs front)) block.addr) heap
      (front ++ ⟨block.addr, block.size, false⟩ :: back) := by
  have below := arena.below
  have place := arena.bounds block (by simp)
  have recorded := (holds.headers block (by simp)).1
  obtain ⟨cell_low, cell_high⟩ := arena.cell_bounds
  obtain ⟨-, chain⟩ := holds.split
  rw [freeAddrs_cons, live, if_pos rfl] at chain
  obtain ⟨before, after⟩ := arena.around
  have magic : availMagic < 2 ^ 32 := by decide
  have now_bound : headOr (freeAddrs back) < 2 ^ 32 := by
    rw [← chain_head chain]
    exact load32_lt m _
  generalize place_eq : lastCell 8 (heap + 4) (freeAddrs front) = cell at *
  generalize after_eq : store32 (store32 (store32 m (block.addr + 4) availMagic) (block.addr + 8)
    (headOr (freeAddrs back))) cell block.addr = m'
  have other_word : ∀ word, (cell + 4 ≤ word ∨ word + 4 ≤ cell) →
      (word + 4 ≤ block.addr + 4 ∨ block.addr + 12 ≤ word) → load32 m' word = load32 m word := by
    intro word off_cell off_block
    rw [← after_eq, load32_store32_of_disjoint _ _ _ _ off_cell,
      load32_store32_of_disjoint _ _ _ _ (by omega), load32_store32_of_disjoint _ _ _ _ (by omega)]
  have tag_word : nodeFree m' block.addr = availMagic := by
    rw [← after_eq, nodeFree, load32_store32_of_disjoint _ _ _ _ (by omega),
      load32_store32_of_disjoint _ _ _ _ (by omega), load32_store32 _ _ _ magic]
  have next_word : load32 m' (block.addr + 8) = headOr (freeAddrs back) := by
    rw [← after_eq, load32_store32_of_disjoint _ _ _ _ (by omega), load32_store32 _ _ _ now_bound]
  have cell_word : load32 m' cell = block.addr := by
    rw [← after_eq, load32_store32 _ _ _ (by omega)]
  subst place_eq
  rw [show front ++ (⟨block.addr, block.size, false⟩ : Block) :: back =
    front ++ [⟨block.addr, block.size, false⟩] ++ back by simp]
  apply Holds.replace [block] arena holds before after cell_high (Nat.le_add_right _ _)
  · intro word off_cell off_block
    exact other_word word off_cell (by omega)
  · intro other member
    rw [List.mem_singleton.mp member]
    exact ⟨(other_word block.addr (by omega) (by omega)).trans recorded, tag_word⟩
  · intro kept
    simp only [List.cons_append, List.nil_append, freeAddrs_cons, Bool.false_eq_true, if_false]
    exact ⟨cell_word, chain_congr (next_word.trans (chain_head chain).symm) kept chain⟩

/-- Two free neighbours become one once the left node has both sizes and the right link. -/
theorem merge_holds {m' : Mem} (arena : Arena heap size (front ++ left :: right :: back))
    (holds : Holds m heap (front ++ left :: right :: back))
    (left_free : left.live = false) (right_free : right.live = false)
    (size_word : nodeSize m' left.addr = left.size + right.size)
    (next_word : nodeNext m' left.addr = nodeNext m right.addr)
    (others : ∀ word, (word + 4 ≤ left.addr ∨ left.addr + 4 ≤ word) →
      (word + 4 ≤ left.addr + 8 ∨ left.addr + 12 ≤ word) → load32 m' word = load32 m word) :
    Holds m' heap (front ++ ⟨left.addr, left.size + right.size, false⟩ :: back) := by
  obtain ⟨before, after⟩ := arena.around
  have place := arena.bounds left (by simp)
  obtain ⟨-, chain⟩ := holds.split
  rw [freeAddrs_cons, left_free, if_neg (by simp), freeAddrs_cons, right_free,
    if_neg (by simp)] at chain
  have cell_bounds := arena.cell_bounds
  rw [show front ++ (⟨left.addr, left.size + right.size, false⟩ : Block) :: back =
    front ++ [⟨left.addr, left.size + right.size, false⟩] ++ back by simp]
  apply Holds.replace [left, right] arena holds before
    (fun other member => after other (List.mem_cons_of_mem _ member)) cell_bounds.2
    (Nat.le_add_right _ _)
  · intro word _ off_block
    exact others word (by omega) (by omega)
  · intro other member
    have tagged := (holds.headers left (by simp)).2
    rw [left_free] at tagged
    rw [List.mem_singleton.mp member]
    exact ⟨size_word, (others (left.addr + 4) (by omega) (by omega)).trans tagged⟩
  · intro kept
    simp only [List.cons_append, List.nil_append, freeAddrs_cons, Bool.false_eq_true, if_false]
    exact ⟨(others _ (by omega) (by omega)).trans chain.1, chain_congr next_word kept chain.2.2⟩

theorem lastOr_concat (last node : Nat) (nodes : List Nat) :
    lastOr last (nodes ++ [node]) = node := by
  induction nodes generalizing last with
  | nil => rfl
  | cons first rest ih => exact ih first

theorem not_touching (arena : Arena heap size (front ++ block :: back))
    (ahead : ∀ last ∈ front.getLast?, last.live = true) {other : Block} (member : other ∈ front)
    (free : other.live = false) : other.addr + other.size ≠ block.addr := by
  rcases List.eq_nil_or_concat' front with rfl | ⟨rest, last, rfl⟩
  · cases member
  · have last_live : last.live = true := ahead last (by simp)
    rcases List.mem_append.mp member with inner | inner
    · rw [List.append_assoc, List.singleton_append] at arena
      have gap := arena.around.1 other inner
      have bounds := arena.bounds last (by simp)
      have next := tiles_adjacent arena.tiles
      omega
    · rw [List.mem_singleton.mp inner, last_live] at free
      cases free

theorem mergePrev_holds (arena : Arena heap size (front ++ block :: back))
    (free : block.live = false) (holds : Holds m heap (front ++ block :: back)) :
    (mergePrev m (lastOr 0 (freeAddrs front)) block.addr).1 = (absorb front block).2.addr ∧
      Holds (mergePrev m (lastOr 0 (freeAddrs front)) block.addr).2 heap
        ((absorb front block).1 ++ (absorb front block).2 :: back) ∧
      ∀ x, ¬ InLinks heap (front ++ block :: back) x →
        (mergePrev m (lastOr 0 (freeAddrs front)) block.addr).2 x = m x := by
  have below := arena.below
  have place := arena.bounds block (by simp)
  rcases absorb_cases front block with ⟨same, ahead⟩ | ⟨rest, last, rfl, last_free, merged⟩
  · have apart : ¬ (lastOr 0 (freeAddrs front) ≠ 0 ∧
        u32 (lastOr 0 (freeAddrs front) + nodeSize m (lastOr 0 (freeAddrs front))) =
          block.addr) := by
      rintro ⟨nonzero, touching⟩
      have passed : freeAddrs front ≠ [] := by
        intro empty
        rw [empty] at nonzero
        exact nonzero rfl
      obtain ⟨other, inside, other_free, equal⟩ := mem_freeAddrs.mp (lastOr_mem 0 _ passed)
      have gap := arena.around.1 other inside
      rw [← equal, (holds.headers other (by simp [inside])).1, u32,
        Nat.mod_eq_of_lt (by omega)] at touching
      exact not_touching arena ahead inside other_free touching
    rw [mergePrev, if_neg apart, same]
    exact ⟨rfl, holds, fun _ _ => rfl⟩
  · have last_addr : lastOr 0 (freeAddrs (rest ++ [last])) = last.addr := by
      rw [freeAddrs_append, freeAddrs_cons, last_free, if_neg (by simp)]
      exact lastOr_concat 0 last.addr (freeAddrs rest)
    rw [List.append_assoc, List.singleton_append] at arena holds
    have touch := tiles_adjacent arena.tiles
    have last_place := arena.bounds last (by simp)
    have last_size := (holds.headers last (by simp)).1
    have node_size := (holds.headers block (by simp)).1
    have touching : last.addr ≠ 0 ∧ u32 (last.addr + nodeSize m last.addr) = block.addr := by
      rw [last_size, u32, Nat.mod_eq_of_lt (by omega)]
      exact ⟨by omega, touch⟩
    have total : u32 (nodeSize m last.addr + nodeSize m block.addr) = last.size + block.size := by
      rw [last_size, node_size, u32, Nat.mod_eq_of_lt (by omega)]
    simp only [mergePrev, last_addr, if_pos touching, merged, total]
    refine ⟨trivial, ?_, ?_⟩
    · apply merge_holds arena holds last_free free
      · rw [nodeSize, load32_store32_of_disjoint _ _ _ _ (by omega),
          load32_store32 _ _ _ (by omega)]
      · simp only [nodeNext]
        rw [load32_store32 _ _ _ (load32_lt _ _), load32_store32_of_disjoint _ _ _ _ (by omega)]
      · intro word first second
        rw [load32_store32_of_disjoint _ _ _ _ (by omega),
          load32_store32_of_disjoint _ _ _ _ (by omega)]
    · intro x outside
      have off : ¬ (last.addr ≤ x ∧ x < last.addr + 4 ∨ last.addr + 8 ≤ x ∧ x < last.addr + 12) :=
        fun inside => outside (Or.inr ⟨last, by simp, last_free, inside⟩)
      rw [store32_outside _ _ _ _ (by omega), store32_outside _ _ _ _ (by omega)]

theorem mergeNext_holds (arena : Arena heap size (front ++ block :: back))
    (free : block.live = false) (holds : Holds m heap (front ++ block :: back)) :
    Holds (mergeNext m block.addr (headOr (freeAddrs back))) heap (front ++ join block back) ∧
      ∀ x, ¬ InLinks heap (front ++ block :: back) x →
        mergeNext m block.addr (headOr (freeAddrs back)) x = m x := by
  have below := arena.below
  have place := arena.bounds block (by simp)
  have node_size := (holds.headers block (by simp)).1
  have ends : u32 (block.addr + nodeSize m block.addr) = block.addr + block.size := by
    rw [node_size, u32, Nat.mod_eq_of_lt (by omega)]
  unfold mergeNext
  rw [ends]
  cases back with
  | nil =>
      have apart : block.addr + block.size ≠ headOr (freeAddrs []) := by
        change block.addr + block.size ≠ 0
        omega
      rw [if_neg apart]
      exact ⟨holds, fun _ _ => rfl⟩
  | cons head rest =>
      have touch := tiles_adjacent arena.tiles
      have head_place := arena.bounds head (by simp)
      cases head_free : head.live with
      | true =>
          have apart : block.addr + block.size ≠ headOr (freeAddrs (head :: rest)) := by
            rw [freeAddrs_cons, head_free, if_pos rfl]
            cases above : freeAddrs rest with
            | nil => exact (show block.addr + block.size ≠ 0 by omega)
            | cons other tail =>
                have member : other ∈ freeAddrs rest := by simp [above]
                obtain ⟨inner, inside, _, rfl⟩ := mem_freeAddrs.mp member
                have arena' : Arena heap size ((front ++ [block]) ++ head :: rest) := by
                  simpa using arena
                have gap := arena'.around.2 inner inside
                simp only [headOr]
                omega
          rw [if_neg apart]
          simp only [join, head_free, Bool.true_eq_false, if_false]
          exact ⟨holds, fun _ _ => trivial⟩
      | false =>
          have first : headOr (freeAddrs (head :: rest)) = head.addr := by
            rw [freeAddrs_cons, head_free, if_neg (by simp)]
            rfl
          have head_size := (holds.headers head (by simp)).1
          have total : u32 (nodeSize (store32 m (block.addr + 8) (nodeNext m head.addr)) block.addr +
              nodeSize (store32 m (block.addr + 8) (nodeNext m head.addr)) head.addr) =
                block.size + head.size := by
            simp only [nodeSize]
            rw [load32_store32_of_disjoint _ _ _ _ (by omega),
              load32_store32_of_disjoint _ _ _ _ (by omega)]
            rw [nodeSize] at node_size head_size
            rw [node_size, head_size, u32, Nat.mod_eq_of_lt (by omega)]
          rw [first, if_pos touch]
          simp only [join, head_free, if_true, total]
          constructor
          · apply merge_holds arena holds free head_free
            · rw [nodeSize, load32_store32 _ _ _ (by omega)]
            · simp only [nodeNext]
              rw [load32_store32_of_disjoint _ _ _ _ (by omega),
                load32_store32 _ _ _ (load32_lt _ _)]
            · intro word one two
              rw [load32_store32_of_disjoint _ _ _ _ (by omega),
                load32_store32_of_disjoint _ _ _ _ (by omega)]
          · intro x outside
            have off : ¬ (block.addr ≤ x ∧ x < block.addr + 4 ∨
                block.addr + 8 ≤ x ∧ x < block.addr + 12) :=
              fun inside => outside (Or.inr ⟨block, by simp, free, inside⟩)
            rw [store32_outside _ _ _ _ (by omega), store32_outside _ _ _ _ (by omega)]

theorem inLinks_absorb {x : Nat}
    (inside : InLinks heap ((absorb front block).1 ++ (absorb front block).2 :: back) x) :
    InLinks heap (front ++ block :: back) x := by
  rcases absorb_cases front block with ⟨same, _⟩ | ⟨rest, last, rfl, last_free, merged⟩
  · rwa [same] at inside
  · rw [merged] at inside
    rw [List.append_assoc, List.singleton_append]
    rcases inside with head | ⟨other, member, other_free, place⟩
    · exact Or.inl head
    · rcases List.mem_append.mp member with member | member
      · exact Or.inr ⟨other, by simp [member], other_free, place⟩
      · rcases List.mem_cons.mp member with rfl | member
        · exact Or.inr ⟨last, by simp, last_free, place⟩
        · exact Or.inr ⟨other, by simp [member], other_free, place⟩

theorem inLinks_freed {x : Nat}
    (inside : InLinks heap (front ++ ⟨block.addr, block.size, false⟩ :: back) x) :
    InLinks heap (front ++ block :: back) x ∨ block.addr ≤ x ∧ x < block.addr + 12 := by
  rcases inside with head | ⟨other, member, free, near⟩
  · exact Or.inl (Or.inl head)
  · rcases List.mem_append.mp member with member | member
    · exact Or.inl (Or.inr ⟨other, by simp [member], free, near⟩)
    · rcases List.mem_cons.mp member with rfl | member
      · simp only at near
        exact Or.inr (by omega)
      · exact Or.inl (Or.inr ⟨other, by simp [member], free, near⟩)

theorem Arena.tag_off (arena : Arena heap size blocks) (member : block ∈ blocks) {x : Nat}
    (low : block.addr + 4 ≤ x) (high : x < block.addr + 8) : ¬ InLinks heap blocks x := by
  have place := arena.bounds block member
  rintro (head | ⟨other, present, _, near⟩)
  · omega
  · have bounds := arena.bounds other present
    rcases arena.tiles_apart present member with rfl | gap
    · omega
    · omega

theorem tag_links (arena : Arena heap size blocks) (member : block ∈ blocks)
    (live : block.live = true) (links : Chain 8 m (heap + 4) (freeAddrs blocks)) :
    Chain 8 (store32 m (block.addr + 4) availMagic) (heap + 4) (freeAddrs blocks) := by
  have place := arena.bounds block member
  apply chain_congr _ _ links
  · exact load32_store32_of_disjoint _ _ _ _ (by omega)
  · intro node listed
    obtain ⟨other, inside, free, rfl⟩ := mem_freeAddrs.mp listed
    apply load32_store32_of_disjoint
    rcases arena.apart inside member with rfl | gap
    · rw [live] at free
      cases free
    · omega

theorem absorb_free (front : List Block) (free : block.live = false) :
    (absorb front block).2.live = false := by
  rcases absorb_cases front block with ⟨same, _⟩ | ⟨_, _, _, _, merged⟩
  · rw [same]
    exact free
  · rw [merged]

/-- What a call of `HeapFree` does with a live block of a heap that memory holds: it
releases the block, leaves its tag behind, and writes only the header and the link of that
block and the sizes and links of free ones. -/
theorem heapFree_spec {s : HeapState} (arena : Arena heap size (front ++ block :: back))
    (live : block.live = true) (holds : Holds s.mem heap (front ++ block :: back))
    (handle : heap ≠ availMagic) :
    ∃ m', heapFree s (block.addr + payloadOffset) = .ok { s with mem := m' } ∧
      Holds m' heap (release block.addr (front ++ block :: back)) ∧
      nodeFree m' block.addr = availMagic ∧
      ∀ x, ¬ InLinks heap (front ++ block :: back) x →
        (x < block.addr ∨ block.addr + 12 ≤ x) → m' x = s.mem x := by
  have below := arena.below
  have place := arena.bounds block (by simp)
  obtain ⟨recorded, tagged⟩ := holds.headers block (by simp)
  rw [live] at tagged
  have node : u32 (block.addr + payloadOffset + 2 ^ 32 - payloadOffset) = block.addr := by
    simp only [payloadOffset, u32]
    omega
  have untagged : nodeFree s.mem block.addr ≠ availMagic := by
    rw [tagged]
    exact handle
  have front_nonzero : ∀ node ∈ freeAddrs front, node ≠ 0 := by
    intro node member
    exact arena.free_nonzero node (by simp [freeAddrs_append, member])
  have freed : Arena heap size (front ++ ⟨block.addr, block.size, false⟩ :: back) := by
    refine ⟨?_, arena.above, arena.below⟩
    obtain ⟨mid, first, second⟩ := (tiles_append _ _ front _).mp arena.tiles
    exact (tiles_append _ _ _ _).mpr ⟨mid, first, second⟩
  -- The walk sees the list of before.
  have links := tag_links arena (by simp) live holds.links
  have linked := link_holds arena live holds
  rw [← setLink_eq _ _ _ _ front_nonzero] at linked
  obtain ⟨merged_addr, merged_holds, merged_frame⟩ := mergePrev_holds freed rfl linked
  have merged_arena : Arena heap size ((absorb front ⟨block.addr, block.size, false⟩).1 ++
      (absorb front ⟨block.addr, block.size, false⟩).2 :: back) :=
    ⟨absorb_tiles freed.tiles, arena.above, arena.below⟩
  obtain ⟨result_holds, result_frame⟩ :=
    mergeNext_holds merged_arena (absorb_free front rfl) merged_holds
  refine ⟨insertNode (store32 s.mem (block.addr + 4) availMagic) heap block.addr
    (headOr (freeAddrs back)) (lastOr 0 (freeAddrs front)), ?_, ?_, ?_, ?_⟩
  · rw [heapFree, node, if_neg untagged, tagged]
    simp only [tag, if_true]
    rw [freeLoop_stop arena live links]
  · rw [release_eq rfl arena.before_ne]
    simp only [insertNode, merged_addr]
    exact result_holds
  · -- A merge changes sizes and links only.
    have linked_tag := (linked.headers ⟨block.addr, block.size, false⟩ (by simp)).2
    refine Eq.trans (load32_congr ?_) linked_tag
    intro x low high
    have off := freed.tag_off (List.mem_append_right front List.mem_cons_self) low
      (show x < block.addr + 8 by omega)
    simp only [insertNode, merged_addr]
    rw [result_frame x (fun inside => off (inLinks_absorb inside)), merged_frame x off]
  · intro x outside off_block
    have still_outside : ¬ InLinks heap (front ++ ⟨block.addr, block.size, false⟩ :: back) x := by
      intro inside
      rcases inLinks_freed inside with links | own
      · exact outside links
      · omega
    have merged_outside : ¬ InLinks heap ((absorb front ⟨block.addr, block.size, false⟩).1 ++
        (absorb front ⟨block.addr, block.size, false⟩).2 :: back) x :=
      fun inside => still_outside (inLinks_absorb inside)
    have cell_off : x < lastCell 8 (heap + 4) (freeAddrs front) ∨
        lastCell 8 (heap + 4) (freeAddrs front) + 4 ≤ x := by
      by_contra inside
      exact outside (cell_inLinks front (by simp) (by omega) (by omega))
    simp only [insertNode, merged_addr]
    rw [result_frame x merged_outside, merged_frame x still_outside,
      setLink_eq _ _ _ _ front_nonzero, store32_outside _ _ _ _ cell_off,
      store32_outside _ _ _ _ (by omega), store32_outside _ _ _ _ (by omega)]

end SysImpl.Heap
