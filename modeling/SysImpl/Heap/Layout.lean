import SysImpl.Lib.Links
import SysImpl.Lib.Blocks
import SysImpl.Heap.Model

/-! How a block list lies in memory.

`Arena` places the blocks between the heap's first node and its end; `Holds` says that
memory carries them: every node has its size and tag, and the free ones are linked from
`firstAvail`. The address facts here are what every store of `heap.c` is framed by. -/

namespace SysImpl.Heap

open Bytes Links Blocks

/-- The `free` field of a node: the handle of its heap while it is live. -/
def tag (heap : Nat) (live : Bool) : Nat := if live then heap else availMagic

structure Arena (heap size : Nat) (blocks : List Block) : Prop where
  tiles : Tiles minNodeSize (firstNode heap) (heap + size) blocks
  above : heap + 8 ≤ firstNode heap
  below : heap + size < 2 ^ 32

def Header (m : Mem) (heap : Nat) (block : Block) : Prop :=
  nodeSize m block.addr = block.size ∧ nodeFree m block.addr = tag heap block.live

structure Holds (m : Mem) (heap : Nat) (blocks : List Block) : Prop where
  headers : ∀ block ∈ blocks, Header m heap block
  links : Chain 8 m (heap + 4) (freeAddrs blocks)

/-- A byte that belongs to the free part of a heap: its list head or a free block. -/
def InFree (heap : Nat) (blocks : List Block) (x : Nat) : Prop :=
  (heap + 4 ≤ x ∧ x < heap + 8) ∨
    ∃ block ∈ blocks, block.live = false ∧ block.addr ≤ x ∧ x < block.addr + block.size

/-- A byte of the list head, or of the size or the link of a free node. -/
def InLinks (heap : Nat) (blocks : List Block) (x : Nat) : Prop :=
  (heap + 4 ≤ x ∧ x < heap + 8) ∨
    ∃ block ∈ blocks, block.live = false ∧ (block.addr ≤ x ∧ x < block.addr + 4 ∨
      block.addr + 8 ≤ x ∧ x < block.addr + 12)

variable {heap size : Nat} {blocks front back : List Block} {block : Block} {m : Mem}

theorem Arena.bounds (arena : Arena heap size blocks) (block : Block) (member : block ∈ blocks) :
    heap + 8 ≤ block.addr ∧ block.addr + block.size ≤ heap + size ∧ 16 ≤ block.size := by
  have inside := (tiles_bounds arena.tiles).2 block member
  have above := arena.above
  simp only [minNodeSize] at inside
  omega

theorem InLinks.inFree {x : Nat} (links : InLinks heap blocks x) (arena : Arena heap size blocks) :
    InFree heap blocks x := by
  rcases links with head | ⟨block, member, free, place⟩
  · exact Or.inl head
  · have bounds := arena.bounds block member
    exact Or.inr ⟨block, member, free, by omega, by omega⟩

theorem Arena.around (arena : Arena heap size (front ++ block :: back)) :
    (∀ other ∈ front, other.addr + other.size ≤ block.addr) ∧
      (∀ other ∈ back, block.addr + block.size ≤ other.addr) :=
  tiles_around arena.tiles

theorem Arena.before_ne (arena : Arena heap size (front ++ block :: back)) :
    ∀ other ∈ front, other.addr ≠ block.addr := by
  intro other passed
  have gap := arena.around.1 other passed
  have large := arena.bounds other (by simp [passed])
  omega

/-- Two nodes of a heap are the same or share no byte. -/
theorem Arena.tiles_apart (arena : Arena heap size blocks) {left right : Block}
    (first : left ∈ blocks) (second : right ∈ blocks) :
    left = right ∨ left.addr + left.size ≤ right.addr ∨ right.addr + right.size ≤ left.addr := by
  obtain ⟨front, back, rfl⟩ := List.append_of_mem first
  obtain ⟨before, after⟩ := arena.around
  rcases List.mem_append.mp second with member | member
  · exact Or.inr (Or.inr (before right member))
  · rcases List.mem_cons.mp member with rfl | member
    · exact Or.inl rfl
    · exact Or.inr (Or.inl (after right member))

theorem Arena.apart (arena : Arena heap size blocks) {left right : Block}
    (first : left ∈ blocks) (second : right ∈ blocks) :
    left = right ∨ left.addr + 16 ≤ right.addr ∨ right.addr + 16 ≤ left.addr := by
  have large := arena.bounds left first
  have other_large := arena.bounds right second
  rcases arena.tiles_apart first second with same | gap
  · exact Or.inl same
  · omega

theorem Arena.free_rising (arena : Arena heap size blocks) :
    (freeAddrs blocks).Pairwise fun left right => left + 4 ≤ right :=
  (freeAddrs_rising arena.tiles).imp (by simp only [minNodeSize]; omega)

theorem Arena.free_nonzero (arena : Arena heap size blocks) :
    ∀ node ∈ freeAddrs blocks, node ≠ 0 := by
  intro node member
  obtain ⟨block, inside, _, rfl⟩ := mem_freeAddrs.mp member
  have := arena.bounds _ inside
  omega

theorem cell_cases (heap : Nat) (front : List Block) :
    lastCell 8 (heap + 4) (freeAddrs front) = heap + 4 ∨
      ∃ other ∈ front, other.live = false ∧
        lastCell 8 (heap + 4) (freeAddrs front) = other.addr + 8 := by
  rcases lastCell_cases 8 (heap + 4) (freeAddrs front) with same | ⟨node, member, equal⟩
  · exact Or.inl same
  · obtain ⟨other, inside, free, rfl⟩ := mem_freeAddrs.mp member
    exact Or.inr ⟨other, inside, free, equal⟩

theorem Arena.cell_header (arena : Arena heap size blocks) (part : front ⊆ blocks)
    (member : block ∈ blocks) :
    lastCell 8 (heap + 4) (freeAddrs front) + 4 ≤ block.addr ∨
      block.addr + 8 ≤ lastCell 8 (heap + 4) (freeAddrs front) := by
  have inside := arena.bounds block member
  rcases cell_cases heap front with same | ⟨other, inner, _, equal⟩
  · omega
  · rcases arena.apart (part inner) member with rfl | gap
    · omega
    · omega

theorem Arena.cell_bounds (arena : Arena heap size (front ++ block :: back)) :
    heap + 4 ≤ lastCell 8 (heap + 4) (freeAddrs front) ∧
      lastCell 8 (heap + 4) (freeAddrs front) + 4 ≤ block.addr := by
  have inside := arena.bounds block (by simp)
  rcases cell_cases heap front with same | ⟨other, inner, _, equal⟩
  · omega
  · have before := arena.around.1 other inner
    have large := arena.bounds other (by simp [inner])
    omega

theorem Arena.pathCells_below (arena : Arena heap size (front ++ back)) {cell : Nat}
    (member : cell ∈ pathCells 8 (heap + 4) (freeAddrs front)) :
    cell + 4 ≤ lastCell 8 (heap + 4) (freeAddrs front) := by
  have rising := arena.free_rising
  rw [freeAddrs_append] at rising
  apply Links.pathCells_below (List.pairwise_append.mp rising).1
  · intro node inside
    obtain ⟨block, inner, _, rfl⟩ := mem_freeAddrs.mp inside
    have := arena.bounds block (by simp [inner])
    omega
  · exact member

/-- The free list splits at a block: the stretch before it ends in the cell that the
rest of the list starts from. -/
theorem Holds.split (holds : Holds m heap (front ++ back)) :
    Path 8 m (heap + 4) (freeAddrs front) ∧
      Chain 8 m (lastCell 8 (heap + 4) (freeAddrs front)) (freeAddrs back) := by
  have links := holds.links
  rwa [freeAddrs_append, chain_append] at links

theorem Holds.of_parts {middle : List Block} (in_front : ∀ other ∈ front, Header m heap other)
    (in_middle : ∀ other ∈ middle, Header m heap other)
    (in_back : ∀ other ∈ back, Header m heap other)
    (path : Path 8 m (heap + 4) (freeAddrs front))
    (chain : Chain 8 m (lastCell 8 (heap + 4) (freeAddrs front)) (freeAddrs (middle ++ back))) :
    Holds m heap (front ++ middle ++ back) := by
  constructor
  · intro other member
    rcases List.mem_append.mp member with member | member
    · rcases List.mem_append.mp member with member | member
      · exact in_front other member
      · exact in_middle other member
    · exact in_back other member
  · rw [List.append_assoc, freeAddrs_append, chain_append]
    exact ⟨path, chain⟩

theorem Header.congr {m' : Mem} (header : Header m heap block)
    (first : load32 m' block.addr = load32 m block.addr)
    (second : load32 m' (block.addr + 4) = load32 m (block.addr + 4)) :
    Header m' heap block :=
  ⟨first.trans header.1, second.trans header.2⟩

/-- Some blocks are replaced by others on their place, when only their words and the cell
before them are written. -/
theorem Holds.replace {m' : Mem} {middle : List Block} {low high : Nat} (taken : List Block)
    (arena : Arena heap size (front ++ (taken ++ back)))
    (holds : Holds m heap (front ++ (taken ++ back)))
    (before : ∀ other ∈ front, other.addr + other.size ≤ low)
    (after : ∀ other ∈ back, high ≤ other.addr)
    (cell_low : lastCell 8 (heap + 4) (freeAddrs front) + 4 ≤ low) (order : low ≤ high)
    (words : ∀ word, (lastCell 8 (heap + 4) (freeAddrs front) + 4 ≤ word ∨
        word + 4 ≤ lastCell 8 (heap + 4) (freeAddrs front)) →
      (word + 4 ≤ low ∨ high ≤ word) → load32 m' word = load32 m word)
    (headers : ∀ other ∈ middle, Header m' heap other)
    (links : (∀ node ∈ freeAddrs back, load32 m' (node + 8) = load32 m (node + 8)) →
      Chain 8 m' (lastCell 8 (heap + 4) (freeAddrs front)) (freeAddrs (middle ++ back))) :
    Holds m' heap (front ++ middle ++ back) := by
  have off_cell : ∀ other ∈ front ++ (taken ++ back),
      lastCell 8 (heap + 4) (freeAddrs front) + 4 ≤ other.addr ∨
        other.addr + 8 ≤ lastCell 8 (heap + 4) (freeAddrs front) :=
    fun _ member => arena.cell_header (by simp) member
  apply Holds.of_parts
  · intro other member
    have gap := before other member
    have large := arena.bounds other (by simp [member])
    have apart := off_cell other (by simp [member])
    exact (holds.headers other (by simp [member])).congr
      (words _ (by omega) (by omega)) (words _ (by omega) (by omega))
  · exact headers
  · intro other member
    have gap := after other member
    exact (holds.headers other (by simp [member])).congr
      (words _ (by omega) (by omega)) (words _ (by omega) (by omega))
  · apply path_congr _ holds.split.1
    intro c member
    have lower := arena.pathCells_below member
    exact words c (by omega) (by omega)
  · apply links
    intro node member
    obtain ⟨other, inner, _, rfl⟩ := mem_freeAddrs.mp member
    have gap := after other inner
    exact words _ (by omega) (by omega)

theorem Tiles.length_bound {least low high : Nat} (tiles : Tiles least low high blocks) :
    least * blocks.length ≤ high - low := by
  induction blocks generalizing low with
  | nil => simp
  | cons head rest ih =>
      have smaller := ih tiles.2.2
      have large := tiles.2.1
      have inside := (tiles_bounds tiles.2.2).1
      simp only [List.length_cons, Nat.mul_add, Nat.mul_one]
      omega

/-- The walks of `heap.c` pass fewer nodes than there are addresses. -/
theorem Arena.free_length (arena : Arena heap size blocks) :
    (freeAddrs blocks).length + 1 ≤ 2 ^ 32 := by
  have filtered : (freeAddrs blocks).length ≤ blocks.length := by
    simp only [freeAddrs, List.length_map]
    exact List.length_filter_le _ _
  have total := Tiles.length_bound arena.tiles
  have below := arena.below
  simp only [minNodeSize] at total
  omega

end SysImpl.Heap
