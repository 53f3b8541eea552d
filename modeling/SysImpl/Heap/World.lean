import SysImpl.Lib.Runs
import SysImpl.Heap.Free

/-! Several heaps and their clients.

A world is the memory with the heaps created so far and the blocks handed out and not
yet returned. The clients of `heap.c` may create a heap in an unused region, choose any
default heap, ask a created heap for a block, return a block they hold, and write inside
the payloads of their blocks. -/

namespace SysImpl.Heap

open Bytes Links Blocks Runs

structure World where
  state : HeapState
  /-- The created heaps, each with the size it was given. -/
  heaps : List (Nat × Nat)
  /-- The nodes of the live blocks, each with the heap it was allocated from. -/
  live : List (Nat × Nat)

def World.boot (m : Mem) : World := ⟨⟨m, 0⟩, [], []⟩

inductive Op where
  | create (size heapMem : Nat)
  | setKernelHeap (heap : Nat)
  | alloc (hHeap size : Nat)
  | free (mem : Nat)
  | write (address : Nat) (byte : UInt8)
  deriving DecidableEq

/-- The region has room for the `HeapInfo`, the alignment gap and a smallest node. -/
def Region (size heapMem : Nat) : Prop :=
  (heapMem + 8 + 7) / 8 * 8 + minNodeSize ≤ heapMem + size ∧ heapMem + size < 2 ^ 32

def Apart (a b : Nat × Nat) : Prop := a.1 + a.2 ≤ b.1 ∨ b.1 + b.2 ≤ a.1

instance (a b : Nat × Nat) : Decidable (Apart a b) :=
  inferInstanceAs (Decidable (a.1 + a.2 ≤ b.1 ∨ b.1 + b.2 ≤ a.1))

/-- What the clients may ask for. -/
def Allowed (w : World) : Op → Prop
  | .create size heapMem =>
      Region size heapMem ∧ ∀ other ∈ w.heaps, Apart other (heapMem, size)
  | .setKernelHeap _ => True
  | .alloc hHeap size =>
      ∃ entry ∈ w.heaps, entry.1 = resolve w.state hHeap ∧ 1 ≤ size ∧ size ≤ entry.2
  | .free mem => ∃ entry ∈ w.live, mem = entry.1 + payloadOffset
  | .write address _ => ∃ entry ∈ w.live, entry.1 + payloadOffset ≤ address ∧
      address < entry.1 + nodeSize w.state.mem entry.1

def World.step (w : World) : Op → Outcome World
  | .create size heapMem =>
      let (heap, s) := heapInitialize w.state size heapMem
      .ok { w with state := s, heaps := (heap, size) :: w.heaps }
  | .setKernelHeap heap => .ok { w with state := (setKernelHeap w.state heap).2 }
  | .alloc hHeap size =>
      match heapAlloc w.state hHeap size with
      | .ok (ptr, s) =>
          if ptr = 0 then .ok { w with state := s }
          else .ok { w with
            state := s, live := (ptr - payloadOffset, resolve w.state hHeap) :: w.live }
      | .panic reason => .panic reason
      | .hang => .hang
  | .free mem =>
      match heapFree w.state mem with
      | .ok s =>
          .ok { w with
            state := s, live := w.live.filter fun entry => entry.1 + payloadOffset ≠ mem }
      | .panic reason => .panic reason
      | .hang => .hang
  | .write address byte =>
      .ok { w with state := { w.state with mem := Function.update w.state.mem address byte } }

def Step (w : World) (op : Op) (w' : World) : Prop := Allowed w op ∧ w.step op = .ok w'

/-- The two requests the tag and the size arithmetic of `heap.c` leave no room for: a
heap whose handle is the tag of a free node, and a size whose node size wraps. -/
def Sound : Op → Prop
  | .create _ heapMem => heapMem ≠ availMagic
  | .alloc _ size => size ≤ 2 ^ 32 - 16
  | _ => True

instance (op : Op) : Decidable (Sound op) :=
  match op with
  | .create _ heapMem => inferInstanceAs (Decidable (heapMem ≠ availMagic))
  | .alloc _ size => inferInstanceAs (Decidable (size ≤ 2 ^ 32 - 16))
  | .setKernelHeap _ | .free _ | .write _ _ => isTrue trivial

structure Represents (w : World) (heap size : Nat) (blocks : List Block) : Prop where
  rising : (freeAddrs blocks).Pairwise (· < ·)
  links : Chain 8 w.state.mem (heap + 4) (freeAddrs blocks)
  magic : ∀ node ∈ freeAddrs blocks, nodeFree w.state.mem node = availMagic
  handles : ∀ node, (node, heap) ∈ w.live → nodeFree w.state.mem node = heap
  taken : ∀ node, (node, heap) ∈ w.live ↔ ∃ block ∈ blocks, block.live = true ∧ block.addr = node
  tiles : Tiles minNodeSize (firstNode heap) (heap + size) blocks
  sizes : ∀ block ∈ blocks, nodeSize w.state.mem block.addr = block.size
  separated : Separated blocks

/-- The heaps lie apart from each other, and each of them is represented. -/
structure Laid (w : World) : Prop where
  regions : ∀ entry ∈ w.heaps, Region entry.2 entry.1
  apart : w.heaps.Pairwise Apart
  owned : ∀ entry ∈ w.live, ∃ home ∈ w.heaps, home.1 = entry.2
  represented : ∀ entry ∈ w.heaps, ∃ blocks, Represents w entry.1 entry.2 blocks

structure WorldOk (w : World) : Prop where
  regions : ∀ entry ∈ w.heaps, Region entry.2 entry.1 ∧ entry.1 ≠ availMagic
  apart : w.heaps.Pairwise Apart
  owned : ∀ entry ∈ w.live, ∃ home ∈ w.heaps, home.1 = entry.2
  represented : ∀ entry ∈ w.heaps, ∃ blocks, Represents w entry.1 entry.2 blocks

variable {w w' : World} {heap size : Nat} {blocks : List Block} {m m' : Mem}

theorem WorldOk.laid (ok : WorldOk w) : Laid w :=
  ⟨fun entry member => (ok.regions entry member).1, ok.apart, ok.owned, ok.represented⟩

theorem Laid.worldOk (laid : Laid w) (untagged : ∀ entry ∈ w.heaps, entry.1 ≠ availMagic) :
    WorldOk w :=
  ⟨fun entry member => ⟨laid.regions entry member, untagged entry member⟩, laid.apart, laid.owned,
    laid.represented⟩

theorem Region.firstNode_eq (region : Region size heap) :
    firstNode heap = (heap + 8 + 7) / 8 * 8 := by
  obtain ⟨room, below⟩ := region
  simp only [minNodeSize] at room
  have first : u32 (heap + 8) = heap + 8 := Nat.mod_eq_of_lt (by omega)
  have second : u32 (heap + 8 + 8 - 1) = heap + 8 + 7 := Nat.mod_eq_of_lt (by omega)
  rw [firstNode, alignCeil, first, second]

theorem Region.arena (region : Region size heap)
    (tiles : Tiles minNodeSize (firstNode heap) (heap + size) blocks) : Arena heap size blocks := by
  refine ⟨tiles, ?_, region.2⟩
  rw [region.firstNode_eq]
  omega

theorem Represents.holds (rep : Represents w heap size blocks) :
    Holds w.state.mem heap blocks := by
  refine ⟨?_, rep.links⟩
  intro block member
  refine ⟨rep.sizes block member, ?_⟩
  cases status : block.live with
  | true => exact rep.handles _ ((rep.taken _).mpr ⟨block, member, status, rfl⟩)
  | false => exact rep.magic _ (mem_freeAddrs.mpr ⟨block, member, status, rfl⟩)

theorem Represents.of_holds (arena : Arena heap size blocks)
    (holds : Holds w.state.mem heap blocks) (separated : Separated blocks)
    (taken : ∀ node, (node, heap) ∈ w.live ↔
      ∃ block ∈ blocks, block.live = true ∧ block.addr = node) :
    Represents w heap size blocks := by
  refine ⟨?_, holds.links, ?_, ?_, taken, arena.tiles, fun block member =>
    (holds.headers block member).1, separated⟩
  · exact arena.free_rising.imp (by omega)
  · intro node member
    obtain ⟨block, inside, free, rfl⟩ := mem_freeAddrs.mp member
    have tagged := (holds.headers block inside).2
    rwa [free] at tagged
  · intro node member
    obtain ⟨block, inside, live, rfl⟩ := (taken node).mp member
    have tagged := (holds.headers block inside).2
    rwa [live] at tagged

theorem Represents.mem_live (rep : Represents w heap size blocks) {block : Block}
    (live : block.live = true) :
    block ∈ blocks ↔
      (block.addr, heap) ∈ w.live ∧ nodeSize w.state.mem block.addr = block.size := by
  constructor
  · intro member
    exact ⟨(rep.taken _).mpr ⟨block, member, live, rfl⟩, rep.sizes block member⟩
  · rintro ⟨held, recorded⟩
    obtain ⟨other, member, otherLive, start⟩ := (rep.taken _).mp held
    have sizes := rep.sizes other member
    rw [start, recorded] at sizes
    have same : block = other := by
      cases block
      cases other
      simp_all
    rw [same]
    exact member

/-- A heap has one representation. -/
theorem Represents.unique {blocks' : List Block} (rep : Represents w heap size blocks)
    (rep' : Represents w heap size blocks') : blocks = blocks' := by
  apply tiles_canonical (by decide) rep.tiles rep'.tiles rep.separated rep'.separated
  intro block live
  rw [rep.mem_live live, rep'.mem_live live]

/-- Memory may change in the payloads of live blocks. -/
theorem Holds.frame (arena : Arena heap size blocks) (holds : Holds m heap blocks)
    (head : ∀ x, heap + 4 ≤ x → x < heap + 8 → m' x = m x)
    (node : ∀ block ∈ blocks, ∀ x, block.addr ≤ x →
      (x < block.addr + 8 ∨ block.live = false ∧ x < block.addr + block.size) → m' x = m x) :
    Holds m' heap blocks := by
  constructor
  · intro block member
    apply (holds.headers block member).congr
    · apply load32_congr
      intro x low high
      exact node block member x low (Or.inl (by omega))
    · apply load32_congr
      intro x low high
      exact node block member x (by omega) (Or.inl (by omega))
  · apply chain_congr _ _ holds.links
    · apply load32_congr
      intro x low high
      exact head x low (by omega)
    · intro next member
      obtain ⟨block, inside, free, rfl⟩ := mem_freeAddrs.mp member
      have bounds := arena.bounds block inside
      apply load32_congr
      intro x low high
      exact node block inside x (by omega) (Or.inr ⟨free, by omega⟩)

theorem Represents.elsewhere (region : Region size heap) (rep : Represents w heap size blocks)
    (same : ∀ x, heap ≤ x → x < heap + size → w'.state.mem x = w.state.mem x)
    (live : ∀ node, (node, heap) ∈ w'.live ↔ (node, heap) ∈ w.live) :
    Represents w' heap size blocks := by
  have arena := region.arena rep.tiles
  have room := (tiles_bounds rep.tiles).1
  have above := arena.above
  apply Represents.of_holds arena _ rep.separated
  · intro node
    rw [live, rep.taken]
  · apply rep.holds.frame arena
    · intro x low high
      exact same x (by omega) (by omega)
    · intro block member x low high
      have bounds := arena.bounds block member
      exact same x (by omega) (by omega)

theorem Arena.inFree_bounds (arena : Arena heap size blocks) {x : Nat}
    (inside : InFree heap blocks x) : heap ≤ x ∧ x < heap + size := by
  have above := arena.above
  have room := (tiles_bounds arena.tiles).1
  rcases inside with head | ⟨block, member, _, low, high⟩
  · omega
  · have bounds := arena.bounds block member
    omega

theorem Laid.same_or_apart (laid : Laid w) {a b : Nat × Nat} (first : a ∈ w.heaps)
    (second : b ∈ w.heaps) : a = b ∨ Apart a b := by
  have either := List.Pairwise.forall_of_forall_of_flip
    (R := fun a b : Nat × Nat => a = b ∨ Apart a b)
    (by intro a _; exact Or.inl rfl)
    (laid.apart.imp (by intro a b gap; exact Or.inr gap))
    (laid.apart.imp (by intro a b gap; exact Or.inr gap.symm))
  exact either first second

theorem Laid.handle_unique (laid : Laid w) {a b : Nat × Nat} (first : a ∈ w.heaps)
    (second : b ∈ w.heaps) (handle : a.1 = b.1) : a = b := by
  rcases laid.same_or_apart first second with same | gap
  · exact same
  · have room := (laid.regions a first).1
    have other := (laid.regions b second).1
    simp only [minNodeSize] at room other
    rcases gap with gap | gap
    · omega
    · omega

theorem Laid.live_block (laid : Laid w) {entry : Nat × Nat} (held : entry ∈ w.live) :
    ∃ home ∈ w.heaps, home.1 = entry.2 ∧ ∃ blocks, Represents w home.1 home.2 blocks ∧
      ∃ block ∈ blocks, block.live = true ∧ block.addr = entry.1 ∧
        block.size = nodeSize w.state.mem entry.1 := by
  obtain ⟨home, member, handle⟩ := laid.owned entry held
  obtain ⟨blocks, rep⟩ := laid.represented home member
  have here : (entry.1, home.1) ∈ w.live := by rw [handle]; exact held
  obtain ⟨block, inside, live, start⟩ := (rep.taken entry.1).mp here
  refine ⟨home, member, handle, blocks, rep, block, inside, live, start, ?_⟩
  rw [← start, rep.sizes block inside]

theorem Laid.live_size (laid : Laid w) {entry : Nat × Nat} (held : entry ∈ w.live) :
    16 ≤ nodeSize w.state.mem entry.1 := by
  obtain ⟨home, member, _, blocks, rep, block, inside, _, _, size⟩ := laid.live_block held
  rw [← size]
  exact (((laid.regions home member).arena rep.tiles).bounds block inside).2.2

theorem Laid.live_apart (laid : Laid w) {home entry : Nat × Nat} (member : home ∈ w.heaps)
    (rep : Represents w home.1 home.2 blocks) (held : entry ∈ w.live) {x : Nat}
    (low : entry.1 ≤ x) (high : x < entry.1 + nodeSize w.state.mem entry.1) :
    ¬ InFree home.1 blocks x := by
  intro free
  obtain ⟨place, placeMember, _, others, otherRep, block, inside, live, start, length⟩ :=
    laid.live_block held
  have arena := (laid.regions home member).arena rep.tiles
  have bounds := ((laid.regions place placeMember).arena otherRep.tiles).bounds block inside
  rcases laid.same_or_apart placeMember member with rfl | gap
  · rw [otherRep.unique rep] at inside
    rcases free with head | ⟨other, present, otherFree, first, last⟩
    · omega
    · rcases arena.tiles_apart inside present with same | away
      · rw [same, otherFree] at live
        cases live
      · omega
  · have region := arena.inFree_bounds free
    simp only [Apart] at gap
    omega

theorem Laid.live_disjoint (laid : Laid w) {entry other : Nat × Nat} (held : entry ∈ w.live)
    (otherHeld : other ∈ w.live) (differ : entry ≠ other) :
    entry.1 + nodeSize w.state.mem entry.1 ≤ other.1 ∨
      other.1 + nodeSize w.state.mem other.1 ≤ entry.1 := by
  obtain ⟨home, member, handle, blocks, rep, block, inside, _, start, length⟩ :=
    laid.live_block held
  obtain ⟨home', member', handle', blocks', rep', block', inside', _, start', length'⟩ :=
    laid.live_block otherHeld
  have arena := (laid.regions home member).arena rep.tiles
  have bounds := arena.bounds block inside
  have bounds' := ((laid.regions home' member').arena rep'.tiles).bounds block' inside'
  rcases laid.same_or_apart member member' with rfl | gap
  · rw [rep'.unique rep] at inside'
    rcases arena.tiles_apart inside inside' with same | away
    · apply absurd _ differ
      rw [same, start'] at start
      exact Prod.ext start.symm (handle.symm.trans handle')
    · omega
  · simp only [Apart] at gap
    omega

theorem heapInitialize_frame (s : HeapState) (region : Region size heap) {x : Nat}
    (outside : x < heap ∨ heap + size ≤ x) :
    (heapInitialize s size heap).2.mem x = s.mem x := by
  have first := region.firstNode_eq
  obtain ⟨room, below⟩ := region
  simp only [minNodeSize] at room
  generalize place : firstNode heap = node at *
  simp only [heapInitialize, place]
  rw [store32_outside _ _ _ _ (by omega), store32_outside _ _ _ _ (by omega),
    store32_outside _ _ _ _ (by omega), store32_outside _ _ _ _ (by omega),
    store32_outside _ _ _ _ (by omega)]

theorem Region.whole (region : Region size heap) :
    Arena heap size [⟨firstNode heap, heap + size - firstNode heap, false⟩] := by
  have first := region.firstNode_eq
  have room := region.1
  simp only [minNodeSize] at room
  apply region.arena
  refine ⟨rfl, ?_, ?_⟩
  · simp only [minNodeSize]
    omega
  · simp only [Tiles]
    omega

theorem heapInitialize_holds (s : HeapState) (region : Region size heap) :
    Holds (heapInitialize s size heap).2.mem heap
      [⟨firstNode heap, heap + size - firstNode heap, false⟩] := by
  have first := region.firstNode_eq
  obtain ⟨room, below⟩ := region
  simp only [minNodeSize] at room
  generalize place : firstNode heap = node at *
  have rest : u32 (heap + size + 2 ^ 32 - node) = heap + size - node := by
    simp only [u32]
    omega
  have magic : availMagic < 2 ^ 32 := by decide
  simp only [heapInitialize, place, rest]
  constructor
  · intro block only
    rw [List.mem_singleton.mp only]
    constructor
    · simp only [nodeSize]
      rw [load32_store32_of_disjoint _ _ _ _ (by omega),
        load32_store32_of_disjoint _ _ _ _ (by omega), load32_store32 _ _ _ (by omega)]
    · simp only [nodeFree, tag]
      rw [load32_store32_of_disjoint _ _ _ _ (by omega), load32_store32 _ _ _ magic]
      rfl
  · constructor
    · rw [load32_store32_of_disjoint _ _ _ _ (by omega),
        load32_store32_of_disjoint _ _ _ _ (by omega),
        load32_store32_of_disjoint _ _ _ _ (by omega), load32_store32 _ _ _ (by omega)]
    · exact load32_store32 _ _ _ (by omega)

theorem Laid.unused_live (laid : Laid w) (unused : ∀ other ∈ w.heaps, Apart other (heap, size))
    (region : Region size heap) (node : Nat) : (node, heap) ∉ w.live := by
  intro member
  obtain ⟨home, inside, equal⟩ := laid.owned _ member
  have gap := unused home inside
  have large := (laid.regions home inside).1
  have room := region.1
  simp only [minNodeSize, Apart] at large gap equal room
  omega

theorem Laid.create (laid : Laid w) (region : Region size heap)
    (unused : ∀ other ∈ w.heaps, Apart other (heap, size)) :
    ∃ w', w.step (.create size heap) = .ok w' ∧ Laid w' ∧ w'.heaps = (heap, size) :: w.heaps ∧
      (∀ x, (x < heap ∨ heap + size ≤ x) → w'.state.mem x = w.state.mem x) ∧
      Represents w' heap size [⟨firstNode heap, heap + size - firstNode heap, false⟩] ∧
      ∀ entry ∈ w.heaps, ∀ blocks, Represents w entry.1 entry.2 blocks →
        Represents w' entry.1 entry.2 blocks := by
  refine ⟨⟨(heapInitialize w.state size heap).2, (heap, size) :: w.heaps, w.live⟩, rfl, ?_⟩
  have here : Represents ⟨(heapInitialize w.state size heap).2, (heap, size) :: w.heaps, w.live⟩
      heap size [⟨firstNode heap, heap + size - firstNode heap, false⟩] := by
    apply Represents.of_holds region.whole (heapInitialize_holds w.state region)
    · exact List.isChain_singleton _
    · intro other
      constructor
      · intro present
        exact absurd present (laid.unused_live unused region other)
      · rintro ⟨block, only, live, _⟩
        rw [List.mem_singleton.mp only] at live
        cases live
  have elsewhere : ∀ entry ∈ w.heaps, ∀ blocks, Represents w entry.1 entry.2 blocks →
      Represents ⟨(heapInitialize w.state size heap).2, (heap, size) :: w.heaps, w.live⟩
        entry.1 entry.2 blocks := by
    intro entry member blocks rep
    have gap := unused entry member
    simp only [Apart] at gap
    refine rep.elsewhere (laid.regions entry member) ?_ (fun _ => Iff.rfl)
    intro x low high
    exact heapInitialize_frame w.state region (by omega)
  refine ⟨?_, rfl, fun x => heapInitialize_frame w.state region, here, elsewhere⟩
  constructor
  · intro entry member
    rcases List.mem_cons.mp member with rfl | member
    · exact region
    · exact laid.regions entry member
  · refine List.pairwise_cons.mpr ⟨?_, laid.apart⟩
    intro other member
    exact (unused other member).symm
  · intro entry member
    obtain ⟨home, inside, equal⟩ := laid.owned entry member
    exact ⟨home, List.mem_cons_of_mem _ inside, equal⟩
  · intro entry member
    rcases List.mem_cons.mp member with rfl | member
    · exact ⟨_, here⟩
    · obtain ⟨blocks, rep⟩ := laid.represented entry member
      exact ⟨blocks, elsewhere entry member blocks rep⟩

theorem create_ok (ok : WorldOk w) (region : Region size heap)
    (unused : ∀ other ∈ w.heaps, Apart other (heap, size)) (handle : heap ≠ availMagic) :
    ∃ w', w.step (.create size heap) = .ok w' ∧ WorldOk w' := by
  obtain ⟨w', stepped, laid, heaps, _⟩ := ok.laid.create region unused
  refine ⟨w', stepped, laid.worldOk ?_⟩
  rw [heaps]
  intro entry member
  rcases List.mem_cons.mp member with rfl | member
  · exact handle
  · exact (ok.regions entry member).2

theorem requestSize_eq {n : Nat} (most : n ≤ 2 ^ 32 - 16) :
    requestSize n = (n + 7) / 8 * 8 + 8 := by
  have first : u32 (n + 8 - 1) = n + 7 := Nat.mod_eq_of_lt (by omega)
  have second : u32 ((n + 7) / 8 * 8 + payloadOffset) = (n + 7) / 8 * 8 + 8 :=
    Nat.mod_eq_of_lt (by simp only [payloadOffset]; omega)
  rw [requestSize, alignCeil, first, second]

theorem requestSize_bound {n : Nat} (least : 1 ≤ n) (most : n ≤ 2 ^ 32 - 16) :
    16 ≤ requestSize n := by
  rw [requestSize_eq most]
  omega

def World.after (w : World) (m : Mem) (live : List (Nat × Nat)) : World :=
  ⟨{ w.state with mem := m }, w.heaps, live⟩

/-- What holds of the heaps of a world holds after a change of one of them that stays
inside its region and its live blocks. -/
theorem Laid.of_change {home : Nat × Nat} {live : List (Nat × Nat)} {result : List Block}
    (laid : Laid w) (member : home ∈ w.heaps)
    (frame : ∀ x, (x < home.1 ∨ home.1 + home.2 ≤ x) → m x = w.state.mem x)
    (others : ∀ node heap, heap ≠ home.1 → ((node, heap) ∈ live ↔ (node, heap) ∈ w.live))
    (here : Represents (w.after m live) home.1 home.2 result) :
    Laid (w.after m live) ∧ ∀ entry ∈ w.heaps, ∀ blocks, Represents w entry.1 entry.2 blocks →
      Represents (w.after m live) entry.1 entry.2
        (if entry.1 = home.1 then result else blocks) := by
  have all : ∀ entry ∈ w.heaps, ∀ blocks, Represents w entry.1 entry.2 blocks →
      Represents (w.after m live) entry.1 entry.2
        (if entry.1 = home.1 then result else blocks) := by
    intro entry inside blocks rep
    by_cases differs : entry.1 = home.1
    · rw [if_pos differs, laid.handle_unique inside member differs]
      exact here
    · have gap := (laid.same_or_apart inside member).resolve_left
        (fun same => differs (congrArg Prod.fst same))
      simp only [Apart] at gap
      rw [if_neg differs]
      apply rep.elsewhere (laid.regions entry inside)
      · intro x low high
        exact frame x (by omega)
      · intro node
        exact others node entry.1 differs
  refine ⟨⟨laid.regions, laid.apart, ?_, ?_⟩, all⟩
  · intro entry inside
    by_cases same : entry.2 = home.1
    · exact ⟨home, member, same.symm⟩
    · exact laid.owned entry ((others entry.1 entry.2 same).mp inside)
  · intro entry inside
    obtain ⟨blocks, rep⟩ := laid.represented entry inside
    exact ⟨_, all entry inside blocks rep⟩

theorem Laid.alloc {home : Nat × Nat} {hHeap n : Nat} (laid : Laid w) (member : home ∈ w.heaps)
    (handle : home.1 = resolve w.state hHeap) (rep : Represents w home.1 home.2 blocks)
    (carves : Carves minNodeSize (requestSize n) blocks) :
    (allocate minNodeSize (requestSize n) blocks = none ∧
        heapAlloc w.state hHeap n =
          if home.1 = w.state.hKernelHeap then .panic .outOfHeapMemory else .ok (0, w.state)) ∨
      ∃ taken result m', allocate minNodeSize (requestSize n) blocks = some (taken, result) ∧
        heapAlloc w.state hHeap n = .ok (taken + payloadOffset, { w.state with mem := m' }) ∧
        (∀ x, ¬ Taking w.state.mem home.1 (requestSize n) blocks taken x → m' x = w.state.mem x) ∧
        Laid (w.after m' ((taken, home.1) :: w.live)) ∧
        ∀ entry ∈ w.heaps, ∀ blocks, Represents w entry.1 entry.2 blocks →
          Represents (w.after m' ((taken, home.1) :: w.live)) entry.1 entry.2
            (if entry.1 = home.1 then result else blocks) := by
  have arena := (laid.regions home member).arena rep.tiles
  rcases allocLoop_spec arena rep.holds carves with
    ⟨failed, missed⟩ | ⟨taken, result, m', found, hit, holds, frame⟩
  · exact Or.inl ⟨failed, by simp only [heapAlloc, ← handle, missed]⟩
  · refine Or.inr ⟨taken, result, m', found, by simp only [heapAlloc, ← handle, hit], frame, ?_⟩
    apply laid.of_change member
    · intro x outside
      apply frame
      intro taking
      have bounds := arena.inFree_bounds (taking.inFree arena rep.holds found)
      omega
    · intro other heap differs
      simp [differs]
    · apply Represents.of_holds ⟨allocate_tiles carves arena.tiles found, arena.above, arena.below⟩
        holds (allocate_separated rep.separated found)
      intro other
      rw [allocate_live found other, ← rep.taken other]
      simp [World.after]

theorem Laid.taken_fresh {home entry : Nat × Nat} {need taken : Nat} {result : List Block}
    (laid : Laid w) (member : home ∈ w.heaps) (rep : Represents w home.1 home.2 blocks)
    (found : allocate minNodeSize need blocks = some (taken, result)) (held : entry ∈ w.live) :
    entry.1 ≠ taken := by
  rintro rfl
  obtain ⟨front, block, back, rfl, free, _, _, start, _⟩ := allocate_eq_some found
  have large := laid.live_size held
  have bounds := ((laid.regions home member).arena rep.tiles).bounds block (by simp)
  refine laid.live_apart member rep held (Nat.le_refl _) (by omega) ?_
  exact Or.inr ⟨block, by simp, free, by omega, by omega⟩

theorem step_alloc {hHeap n taken : Nat}
    (hit : heapAlloc w.state hHeap n = .ok (taken + payloadOffset, { w.state with mem := m })) :
    w.step (.alloc hHeap n) = .ok (w.after m ((taken, resolve w.state hHeap) :: w.live)) := by
  have some : taken + payloadOffset ≠ 0 := by simp [payloadOffset]
  simp only [World.step, hit, if_neg some, Nat.add_sub_cancel]
  rfl

theorem alloc_ok {home : Nat × Nat} {hHeap n : Nat} (ok : WorldOk w) (member : home ∈ w.heaps)
    (handle : home.1 = resolve w.state hHeap) (least : 1 ≤ n) (most : n ≤ 2 ^ 32 - 16) :
    w.step (.alloc hHeap n) = .panic .outOfHeapMemory ∨
      ∃ w', w.step (.alloc hHeap n) = .ok w' ∧ WorldOk w' := by
  obtain ⟨blocks, rep⟩ := ok.represented home member
  rcases ok.laid.alloc member handle rep (Carves.of_le (requestSize_bound least most)) with
    ⟨_, missed⟩ | ⟨taken, result, m', _, hit, _, laid, _⟩
  · simp only [World.step, missed]
    by_cases kernel : home.1 = w.state.hKernelHeap
    · exact Or.inl (by rw [if_pos kernel])
    · exact Or.inr ⟨w, by rw [if_neg kernel]; rfl, ok⟩
  · rw [step_alloc hit, ← handle]
    exact Or.inr ⟨_, rfl, laid.worldOk fun entry inside => (ok.regions entry inside).2⟩

theorem Represents.taken_release {front back : List Block} {block : Block}
    (arena : Arena heap size (front ++ block :: back))
    (rep : Represents w heap size (front ++ block :: back)) (node : Nat) :
    (node, heap) ∈ w.live ∧ node ≠ block.addr ↔
      ∃ found ∈ release block.addr (front ++ block :: back), found.live = true ∧
        found.addr = node := by
  rw [rep.taken node]
  constructor
  · rintro ⟨⟨found, present, live, rfl⟩, kept⟩
    refine ⟨found, (mem_release_live rfl arena.before_ne live).mpr ?_, live, rfl⟩
    rcases List.mem_append.mp present with present | present
    · exact Or.inl present
    · rcases List.mem_cons.mp present with rfl | present
      · exact absurd rfl kept
      · exact Or.inr present
  · rintro ⟨found, present, live, rfl⟩
    rcases (mem_release_live rfl arena.before_ne live).mp present with present | present
    · exact ⟨⟨found, by simp [present], live, rfl⟩, arena.before_ne found present⟩
    · have gap := arena.around.2 found present
      have bounds := arena.bounds block (by simp)
      exact ⟨⟨found, by simp [present], live, rfl⟩, by omega⟩

/-- A live block goes back to its heap, unless the handle of the heap is the tag of a free
node. -/
theorem Laid.free {home : Nat × Nat} {node : Nat} (laid : Laid w) (member : home ∈ w.heaps)
    (rep : Represents w home.1 home.2 blocks) (live : (node, home.1) ∈ w.live)
    (untagged : home.1 ≠ availMagic) :
    ∃ w', w.step (.free (node + payloadOffset)) = .ok w' ∧
      heapFree w.state (node + payloadOffset) = .ok w'.state ∧ w'.heaps = w.heaps ∧
      nodeFree w'.state.mem node = availMagic ∧
      (∀ x, ¬ InLinks home.1 blocks x → (x < node ∨ node + 12 ≤ x) →
        w'.state.mem x = w.state.mem x) ∧ Laid w' ∧
      ∀ entry ∈ w.heaps, ∀ blocks, Represents w entry.1 entry.2 blocks →
        Represents w' entry.1 entry.2
          (if entry.1 = home.1 then release node blocks else blocks) := by
  have arena := (laid.regions home member).arena rep.tiles
  obtain ⟨block, inside, block_live, rfl⟩ := (rep.taken node).mp live
  obtain ⟨front, back, rfl⟩ := List.append_of_mem inside
  have bounds := arena.bounds block inside
  obtain ⟨m', freed, holds, marked, frame⟩ := heapFree_spec arena block_live rep.holds untagged
  have here : Represents (w.after m' (w.live.filter fun entry =>
      entry.1 + payloadOffset ≠ block.addr + payloadOffset)) home.1 home.2
      (release block.addr (front ++ block :: back)) := by
    apply Represents.of_holds ⟨release_tiles rfl arena.before_ne arena.tiles, arena.above,
      arena.below⟩ holds (release_separated rfl arena.before_ne rep.separated)
    intro other
    rw [← rep.taken_release arena other]
    simp [World.after]
  have others : ∀ other heap, heap ≠ home.1 → (((other, heap) ∈ w.live.filter fun entry =>
      entry.1 + payloadOffset ≠ block.addr + payloadOffset) ↔ (other, heap) ∈ w.live) := by
    intro other heap differs
    simp only [List.mem_filter, and_iff_left_iff_imp]
    intro present
    have gap := laid.live_disjoint present live fun same => differs (congrArg Prod.snd same)
    have large := laid.live_size present
    have other_large := laid.live_size live
    simp only at gap large other_large
    apply decide_eq_true
    omega
  have outside : ∀ x, (x < home.1 ∨ home.1 + home.2 ≤ x) → m' x = w.state.mem x := by
    intro x off
    apply frame
    · intro links
      have := arena.inFree_bounds (links.inFree arena)
      omega
    · omega
  obtain ⟨laid', all⟩ := laid.of_change member outside others here
  refine ⟨w.after m' (w.live.filter fun entry =>
    entry.1 + payloadOffset ≠ block.addr + payloadOffset), ?_, freed, rfl, marked, frame,
    laid', ?_⟩
  · simp only [World.step, freed]
    rfl
  intro entry present blocks other_rep
  have released := all entry present blocks other_rep
  by_cases same : entry.1 = home.1
  · rw [if_pos same] at released ⊢
    have equal := laid.handle_unique present member same
    rw [equal] at other_rep
    rw [other_rep.unique rep]
    exact released
  · rw [if_neg same] at released ⊢
    exact released

theorem free_ok {node heap : Nat} (ok : WorldOk w) (live : (node, heap) ∈ w.live) :
    ∃ w', w.step (.free (node + payloadOffset)) = .ok w' ∧ WorldOk w' ∧
      ∀ entry ∈ w.heaps, ∀ blocks, Represents w entry.1 entry.2 blocks →
        Represents w' entry.1 entry.2
          (if entry.1 = heap then release node blocks else blocks) := by
  obtain ⟨home, member, handle⟩ := ok.owned _ live
  simp only at handle
  subst handle
  obtain ⟨blocks, rep⟩ := ok.represented home member
  obtain ⟨w', stepped, _, heaps, _, _, laid, released⟩ :=
    ok.laid.free member rep live (ok.regions home member).2
  refine ⟨w', stepped, laid.worldOk ?_, released⟩
  rw [heaps]
  intro entry inside
  exact (ok.regions entry inside).2

theorem Laid.write {node heap address : Nat} (laid : Laid w) (byte : UInt8)
    (live : (node, heap) ∈ w.live) (low : node + payloadOffset ≤ address)
    (high : address < node + nodeSize w.state.mem node) :
    Laid (w.after (Function.update w.state.mem address byte) w.live) ∧
      ∀ entry ∈ w.heaps, ∀ blocks, Represents w entry.1 entry.2 blocks →
        Represents (w.after (Function.update w.state.mem address byte) w.live) entry.1 entry.2
          blocks := by
  obtain ⟨home, member, handle⟩ := laid.owned _ live
  simp only at handle
  subst handle
  obtain ⟨blocks, rep⟩ := laid.represented home member
  have arena := (laid.regions home member).arena rep.tiles
  obtain ⟨block, inside, block_live, rfl⟩ := (rep.taken node).mp live
  have bounds := arena.bounds block inside
  rw [rep.sizes block inside] at high
  simp only [payloadOffset] at low
  have off : ∀ x, x ≠ address →
      Function.update w.state.mem address byte x = w.state.mem x := fun x differs =>
    Function.update_of_ne differs _ _
  have here : Represents (w.after (Function.update w.state.mem address byte) w.live) home.1 home.2
      blocks := by
    refine Represents.of_holds arena ?_ rep.separated rep.taken
    apply rep.holds.frame arena
    · intro x first last
      exact off x (by omega)
    · intro other other_inside x first last
      apply off
      rcases arena.tiles_apart other_inside inside with rfl | gap
      · rw [block_live] at last
        simp only [Bool.true_eq_false, false_and, or_false] at last
        omega
      · have large := arena.bounds other other_inside
        omega
  obtain ⟨laid', all⟩ := laid.of_change member
    (fun x outside => off x (by omega)) (fun _ _ _ => Iff.rfl) here
  refine ⟨laid', ?_⟩
  intro entry present others other_rep
  have kept := all entry present others other_rep
  by_cases same : entry.1 = home.1
  · have equal := laid.handle_unique present member same
    rw [if_pos same] at kept
    rw [equal] at other_rep
    rw [other_rep.unique rep]
    exact kept
  · rwa [if_neg same] at kept

theorem write_ok {node heap address : Nat} {byte : UInt8} (ok : WorldOk w)
    (live : (node, heap) ∈ w.live) (low : node + payloadOffset ≤ address)
    (high : address < node + nodeSize w.state.mem node) :
    WorldOk (w.after (Function.update w.state.mem address byte) w.live) :=
  (ok.laid.write byte live low high).1.worldOk fun entry inside => (ok.regions entry inside).2

theorem Laid.setKernelHeap (laid : Laid w) (heap : Nat) :
    Laid { w with state := (Heap.setKernelHeap w.state heap).2 } ∧
      ∀ entry ∈ w.heaps, ∀ blocks, Represents w entry.1 entry.2 blocks →
        Represents { w with state := (Heap.setKernelHeap w.state heap).2 } entry.1 entry.2
          blocks := by
  have all : ∀ entry ∈ w.heaps, ∀ blocks, Represents w entry.1 entry.2 blocks →
      Represents { w with state := (Heap.setKernelHeap w.state heap).2 } entry.1 entry.2
        blocks := by
    intro entry member blocks rep
    exact rep.elsewhere (laid.regions entry member) (fun _ _ _ => rfl) fun _ => Iff.rfl
  refine ⟨⟨laid.regions, laid.apart, laid.owned, ?_⟩, all⟩
  intro entry member
  obtain ⟨blocks, rep⟩ := laid.represented entry member
  exact ⟨blocks, all entry member blocks rep⟩

/-- A permitted step either finds the kernel heap exhausted or keeps every heap in order. -/
theorem WorldOk.step {op : Op} (ok : WorldOk w) (allowed : Allowed w op) (sound : Sound op) :
    w.step op = .panic .outOfHeapMemory ∨ ∃ w', w.step op = .ok w' ∧ WorldOk w' := by
  cases op with
  | create size heapMem => exact Or.inr (create_ok ok allowed.1 allowed.2 sound)
  | setKernelHeap heap =>
      exact Or.inr ⟨_, rfl, (ok.laid.setKernelHeap heap).1.worldOk fun entry member =>
        (ok.regions entry member).2⟩
  | alloc hHeap n =>
      obtain ⟨home, member, handle, least, _⟩ := allowed
      exact alloc_ok ok member handle least sound
  | free mem =>
      obtain ⟨⟨node, heap⟩, member, rfl⟩ := allowed
      obtain ⟨w', freed, ok', _⟩ := free_ok ok member
      exact Or.inr ⟨w', freed, ok'⟩
  | write address byte =>
      obtain ⟨⟨node, heap⟩, member, low, high⟩ := allowed
      exact Or.inr ⟨_, rfl, write_ok ok member low high⟩

theorem boot_ok (m : Mem) : WorldOk (World.boot m) := by
  constructor
  · intro entry member
    cases member
  · exact List.Pairwise.nil
  · intro entry member
    cases member
  · intro entry member
    cases member

theorem run_ok {ops : List Op} (run : Run Step (World.boot m) ops w)
    (sound : ∀ op ∈ ops, Sound op) : WorldOk w := by
  apply run.invariant WorldOk (boot_ok m)
  intro mid op next member ok taken
  rcases ok.step taken.1 (sound op member) with failed | ⟨w', stepped, ok'⟩
  · rw [taken.2] at failed
    cases failed
  · rw [taken.2] at stepped
    injection stepped with equal
    rwa [equal]

/-- Along every permitted run each heap keeps its representation, no permitted request
meets a wrong tag or a double free, and a block goes back to the heap it came from. -/
theorem heaps_stay_represented {ops : List Op} (run : Run Step (World.boot m) ops w)
    (sound : ∀ op ∈ ops, Sound op) :
    (∀ entry ∈ w.heaps, ∃ blocks, Represents w entry.1 entry.2 blocks) ∧
      (∀ op, Allowed w op → Sound op → w.step op ≠ .panic .unexpectedMagic ∧
        w.step op ≠ .panic .doubleFree ∧ w.step op ≠ .hang) ∧
      ∀ node heap, (node, heap) ∈ w.live →
        ∃ w', w.step (.free (node + payloadOffset)) = .ok w' ∧
          ∀ entry ∈ w.heaps, ∀ blocks, Represents w entry.1 entry.2 blocks →
            Represents w' entry.1 entry.2
              (if entry.1 = heap then release node blocks else blocks) := by
  have ok := run_ok run sound
  refine ⟨ok.represented, ?_, ?_⟩
  · intro op allowed op_sound
    rcases ok.step allowed op_sound with failed | ⟨w', stepped, _⟩
    · simp [failed]
    · simp [stepped]
  · intro node heap live
    obtain ⟨w', freed, _, released⟩ := free_ok ok live
    exact ⟨w', freed, released⟩

/-- Two heaps, the second made the default, with a block taken from each. -/
theorem two_heaps_stay_represented :
    ∃ w, Run Step (World.boot fun _ => 0)
        [.create 64 4096, .create 80 4160, .setKernelHeap 4160, .alloc 4096 8, .alloc 0 24] w ∧
      w.live = [(4168, 4160), (4104, 4096)] ∧
      (∀ entry ∈ w.heaps, ∃ blocks, Represents w entry.1 entry.2 blocks) ∧
      ∃ w', w.step (.free (4104 + payloadOffset)) = .ok w' ∧
        ∀ entry ∈ w.heaps, ∀ blocks, Represents w entry.1 entry.2 blocks →
          Represents w' entry.1 entry.2
            (if entry.1 = 4096 then release 4104 blocks else blocks) := by
  obtain ⟨w, run, live⟩ : ∃ w, Run Step (World.boot fun _ => 0)
      [.create 64 4096, .create 80 4160, .setKernelHeap 4160, .alloc 4096 8, .alloc 0 24] w ∧
      w.live = [(4168, 4160), (4104, 4096)] :=
    ⟨_, Run.cons ⟨⟨⟨by decide, by decide⟩, by simp [World.boot]⟩, rfl⟩
      (Run.cons ⟨⟨⟨by decide, by decide⟩, by decide⟩, rfl⟩
        (Run.cons ⟨trivial, rfl⟩
          (Run.cons ⟨⟨(4096, 64), by decide, rfl, by decide, by decide⟩, rfl⟩
            (Run.cons ⟨⟨(4160, 80), by decide, rfl, by decide, by decide⟩, rfl⟩ (Run.nil _))))),
      rfl⟩
  obtain ⟨kept, _, returned⟩ := heaps_stay_represented run (by decide)
  exact ⟨w, run, live, kept, returned 4104 4096 (by simp [live])⟩

/-- A heap whose handle is the tag of a free node cannot get a block back, and a request
whose node size wraps leaves a live node on the free list. -/
theorem heaps_can_panic :
    (∃ w, Run Step (World.boot fun _ => 0) [.create 64 0xAA55AA55, .alloc 0xAA55AA55 8] w ∧
        Allowed w (.free 0xAA55AA68) ∧ w.step (.free 0xAA55AA68) = .panic .doubleFree) ∧
      ∃ w, Run Step (World.boot fun _ => 0) [.create (2 ^ 32 - 9) 8, .alloc 8 (2 ^ 32 - 9)] w ∧
        Allowed w (.alloc 8 1) ∧ w.step (.alloc 8 1) = .panic .unexpectedMagic := by
  constructor
  · refine ⟨_, Run.cons ⟨⟨⟨by decide, by decide⟩, by simp [World.boot]⟩, rfl⟩
      (Run.cons ⟨⟨_, List.mem_cons_self, rfl, by decide, by decide⟩, rfl⟩ (Run.nil _)),
      ⟨_, List.mem_cons_self, rfl⟩, ?_⟩
    rfl
  · refine ⟨_, Run.cons ⟨⟨⟨by decide, by decide⟩, by simp [World.boot]⟩, rfl⟩
      (Run.cons ⟨⟨_, List.mem_cons_self, rfl, by decide, by decide⟩, rfl⟩ (Run.nil _)),
      ⟨_, List.mem_cons_self, rfl, by decide, by decide⟩, ?_⟩
    rfl

end SysImpl.Heap
