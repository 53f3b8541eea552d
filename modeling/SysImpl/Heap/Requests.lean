import SysImpl.Heap.Canonical

/-! Requests of any size.

`HeapAlloc` takes every 32-bit number for a size. The node of a request is a node of its own
if its size is at least `MIN_NODE_SIZE`; a smaller one is harmless only when it is not split
off the node that serves it. -/

namespace SysImpl.Heap

open Bytes Links Blocks Runs

def Permitted (w : World) : Op → Prop
  | .alloc hHeap size => (∃ entry ∈ w.heaps, entry.1 = resolve w.state hHeap) ∧ size < 2 ^ 32
  | .create size heapMem => Allowed w (.create size heapMem)
  | .setKernelHeap heap => Allowed w (.setKernelHeap heap)
  | .free mem => Allowed w (.free mem)
  | .write address byte => Allowed w (.write address byte)

def Call (w : World) (op : Op) (w' : World) : Prop := Permitted w op ∧ w.step op = .ok w'

/-- A size that is neither zero nor so large that its node size wraps. -/
def Proper (size : Nat) : Prop := 1 ≤ size ∧ size ≤ 2 ^ 32 - 16

instance (size : Nat) : Decidable (Proper size) :=
  inferInstanceAs (Decidable (1 ≤ size ∧ size ≤ 2 ^ 32 - 16))

/-- The first free node, if there is one, is not split for a request. -/
def Unsplit (w : World) (heap size : Nat) : Prop :=
  firstAvail w.state.mem heap = 0 ∨
    nodeSize w.state.mem (firstAvail w.state.mem heap) - requestSize size < minNodeSize

/-- The requests that do not split off a node below the smallest size. -/
def Fits (w : World) : Op → Prop
  | .alloc hHeap size => Proper size ∨ Unsplit w (resolve w.state hHeap) size
  | .create _ _ | .setKernelHeap _ | .free _ | .write _ _ => True

def Served (w : World) (op : Op) (w' : World) : Prop := Call w op w' ∧ Fits w op

def Aligned (w : World) : Prop :=
  ∀ entry ∈ w.heaps, ∀ blocks, Represents w entry.1 entry.2 blocks →
    ∀ block ∈ blocks, block.addr % 8 = 0

variable {w w' : World} {heap size : Nat} {blocks : List Block} {m : Mem} {op : Op}

theorem requestSize_mod (n : Nat) : requestSize n % 8 = 0 := by
  simp only [requestSize, alignCeil, payloadOffset, u32]
  omega

theorem Represents.carves {n : Nat} (region : Region size heap)
    (rep : Represents w heap size blocks) (fits : Proper n ∨ Unsplit w heap n) :
    Carves minNodeSize (requestSize n) blocks := by
  rcases fits with ⟨least, most⟩ | unsplit
  · exact Carves.of_le (requestSize_bound least most)
  · intro front block back shape free enough before split
    by_contra small
    have arena := region.arena rep.tiles
    -- Every free node is large enough for such a request, so the first one is chosen.
    have none : freeAddrs front = [] := by
      apply List.eq_nil_iff_forall_not_mem.mpr
      intro addr member
      obtain ⟨other, inside, otherFree, _⟩ := mem_freeAddrs.mp member
      have bounds := arena.bounds other (by simp [shape, inside])
      simp only [minNodeSize] at small
      rcases before other inside with live | less
      · rw [otherFree] at live
        cases live
      · omega
    have first : firstAvail w.state.mem heap = block.addr := by
      have links := rep.links
      rw [shape, freeAddrs_append, none, freeAddrs_cons, free, if_neg (by simp)] at links
      exact chain_head links
    have bounds := arena.bounds block (by simp [shape])
    rcases unsplit with empty | whole
    · omega
    · rw [first, rep.sizes block (by simp [shape])] at whole
      omega

theorem Laid.free_tagged {node : Nat} (laid : Laid w) (live : (node, availMagic) ∈ w.live) :
    heapFree w.state (node + payloadOffset) = .panic .doubleFree := by
  obtain ⟨home, member, handle, blocks, rep, block, inside, _, start, _⟩ := laid.live_block live
  have bounds := ((laid.regions home member).arena rep.tiles).bounds block inside
  have below := (laid.regions home member).2
  have address : u32 (node + payloadOffset + 2 ^ 32 - payloadOffset) = node := by
    simp only [payloadOffset, u32]
    omega
  have tagged : nodeFree w.state.mem node = availMagic := by
    simp only at handle
    rw [← handle] at live
    exact (rep.handles node live).trans handle
  simp only [heapFree, address, if_pos tagged]

theorem Laid.freed {node : Nat} (laid : Laid w) (live : (node, heap) ∈ w.live)
    (stepped : w.step (.free (node + payloadOffset)) = .ok w') :
    ∃ size blocks, (heap, size) ∈ w.heaps ∧ Represents w heap size blocks ∧ w'.heaps = w.heaps ∧
      nodeFree w'.state.mem node = availMagic ∧
      (∀ x, ¬ InLinks heap blocks x → (x < node ∨ node + 12 ≤ x) →
        w'.state.mem x = w.state.mem x) ∧ Laid w' ∧
      ∀ entry ∈ w.heaps, ∀ others, Represents w entry.1 entry.2 others →
        Represents w' entry.1 entry.2
          (if entry.1 = heap then release node others else others) := by
  by_cases tagged : heap = availMagic
  · subst tagged
    simp only [World.step, laid.free_tagged live] at stepped
    cases stepped
  · obtain ⟨home, member, handle⟩ := laid.owned _ live
    simp only at handle
    subst handle
    obtain ⟨blocks, rep⟩ := laid.represented home member
    obtain ⟨after, done, _, known⟩ := laid.free member rep live tagged
    rw [done] at stepped
    injection stepped with same
    subst same
    exact ⟨home.2, blocks, member, rep, known⟩

theorem Aligned.of_blocks
    (known : ∀ entry ∈ w.heaps, ∃ blocks, Represents w entry.1 entry.2 blocks ∧
      ∀ block ∈ blocks, block.addr % 8 = 0) : Aligned w := by
  intro entry member blocks rep
  obtain ⟨others, otherRep, aligned⟩ := known entry member
  rw [rep.unique otherRep]
  exact aligned

structure Tidy (w : World) : Prop where
  laid : Laid w
  aligned : Aligned w

theorem Tidy.create (tidy : Tidy w) (region : Region size heap)
    (unused : ∀ other ∈ w.heaps, Apart other (heap, size)) :
    ∃ w', w.step (.create size heap) = .ok w' ∧ Tidy w' := by
  obtain ⟨w', stepped, laid, heaps, _, here, elsewhere⟩ := tidy.laid.create region unused
  refine ⟨w', stepped, laid, Aligned.of_blocks ?_⟩
  rw [heaps]
  intro entry member
  rcases List.mem_cons.mp member with rfl | member
  · refine ⟨_, here, ?_⟩
    intro block only
    rw [List.mem_singleton.mp only, region.firstNode_eq]
    exact Nat.mul_mod_left _ _
  · obtain ⟨blocks, rep⟩ := tidy.laid.represented entry member
    exact ⟨blocks, elsewhere entry member blocks rep, tidy.aligned entry member blocks rep⟩

theorem Tidy.alloc {home : Nat × Nat} {hHeap n : Nat} (tidy : Tidy w) (member : home ∈ w.heaps)
    (handle : home.1 = resolve w.state hHeap) (fits : Proper n ∨ Unsplit w home.1 n)
    (stepped : w.step (.alloc hHeap n) = .ok w') : Tidy w' := by
  obtain ⟨blocks, rep⟩ := tidy.laid.represented home member
  rcases tidy.laid.alloc member handle rep
      (rep.carves (tidy.laid.regions home member) fits) with
    ⟨_, missed⟩ | ⟨taken, result, m', found, hit, _, laid, all⟩
  · simp only [World.step, missed] at stepped
    split_ifs at stepped with kernel
    injection stepped with same
    rw [← same]
    exact tidy
  · rw [step_alloc hit, ← handle] at stepped
    injection stepped with same
    rw [← same]
    refine ⟨laid, Aligned.of_blocks ?_⟩
    intro entry inside
    obtain ⟨others, otherRep⟩ := tidy.laid.represented entry inside
    refine ⟨_, all entry inside others otherRep, ?_⟩
    split_ifs with here
    · intro block present
      obtain ⟨old, there, start⟩ := allocate_addrs found present
      have aligned := tidy.aligned home member blocks rep old there
      have multiple := requestSize_mod n
      omega
    · exact tidy.aligned entry inside others otherRep

theorem Tidy.free {node heap : Nat} (tidy : Tidy w) (live : (node, heap) ∈ w.live)
    (stepped : w.step (.free (node + payloadOffset)) = .ok w') : Tidy w' := by
  obtain ⟨size, _, member, _, heaps, _, _, laid, all⟩ := tidy.laid.freed live stepped
  refine ⟨laid, Aligned.of_blocks ?_⟩
  rw [heaps]
  intro entry inside
  obtain ⟨others, otherRep⟩ := tidy.laid.represented entry inside
  refine ⟨_, all entry inside others otherRep, ?_⟩
  split_ifs with here
  · rw [tidy.laid.handle_unique inside member here] at otherRep
    obtain ⟨block, present, _, rfl⟩ := (otherRep.taken node).mp live
    obtain ⟨front, back, rfl⟩ := List.append_of_mem present
    have arena := (tidy.laid.regions _ member).arena otherRep.tiles
    intro other released
    obtain ⟨old, there, start⟩ := release_addrs rfl arena.before_ne released
    rw [start]
    exact tidy.aligned _ member _ otherRep old there
  · exact tidy.aligned entry inside others otherRep

theorem Tidy.served (tidy : Tidy w) (served : Served w op w') : Tidy w' := by
  obtain ⟨⟨permitted, stepped⟩, fits⟩ := served
  cases op with
  | create size heapMem =>
      obtain ⟨after, done, result⟩ := tidy.create permitted.1 permitted.2
      rw [done] at stepped
      injection stepped with same
      rwa [← same]
  | setKernelHeap heap =>
      obtain ⟨laid, all⟩ := tidy.laid.setKernelHeap heap
      injection stepped with same
      rw [← same]
      refine ⟨laid, Aligned.of_blocks ?_⟩
      intro entry inside
      obtain ⟨blocks, rep⟩ := tidy.laid.represented entry inside
      exact ⟨blocks, all entry inside blocks rep, tidy.aligned entry inside blocks rep⟩
  | alloc hHeap n =>
      obtain ⟨⟨home, member, handle⟩, _⟩ := permitted
      refine tidy.alloc member handle ?_ stepped
      rw [handle]
      exact fits
  | free mem =>
      obtain ⟨⟨node, heap⟩, live, rfl⟩ := permitted
      exact tidy.free live stepped
  | write address byte =>
      obtain ⟨⟨node, heap⟩, live, low, high⟩ := permitted
      obtain ⟨laid, all⟩ := tidy.laid.write byte live low high
      injection stepped with same
      rw [← same]
      refine ⟨laid, Aligned.of_blocks ?_⟩
      intro entry inside
      obtain ⟨blocks, rep⟩ := tidy.laid.represented entry inside
      exact ⟨blocks, all entry inside blocks rep, tidy.aligned entry inside blocks rep⟩

theorem boot_tidy (m : Mem) : Tidy (World.boot m) := by
  refine ⟨(boot_ok m).laid, ?_⟩
  intro entry member
  cases member

theorem served_tidy {ops : List Op} (run : Run Served (World.boot m) ops w) : Tidy w := by
  apply run.invariant Tidy (boot_tidy m)
  intro mid op next _ tidy served
  exact tidy.served served

def InFreeList (m : Mem) (heap x : Nat) : Prop :=
  ∃ free ∈ freeList m heap, free.1 ≤ x ∧ x < free.1 + 12

theorem Represents.inLinks (region : Region size heap) (rep : Represents w heap size blocks)
    {x : Nat} (links : InLinks heap blocks x) :
    (heap + 4 ≤ x ∧ x < heap + 8) ∨ InFreeList w.state.mem heap x := by
  rcases links with head | ⟨block, member, free, place⟩
  · exact Or.inl head
  · refine Or.inr ⟨(block.addr, block.size), ?_, by simp only; omega, by simp only; omega⟩
    rw [rep.freeList region]
    exact List.mem_map.mpr ⟨block, List.mem_filter.mpr ⟨member, by simp [free]⟩, rfl⟩

/-- What a free writes: its own node, `firstAvail`, and nodes that are free already. -/
def Confined (w : World) (node heap : Nat) (s : HeapState) : Prop :=
  ∀ x, s.mem x ≠ w.state.mem x → (node ≤ x ∧ x < node + nodeSize w.state.mem node) ∨
    (heap + 4 ≤ x ∧ x < heap + 8) ∨ InFreeList w.state.mem heap x

def Spares (w : World) (node heap : Nat) (s : HeapState) : Prop :=
  ∀ entry ∈ w.live, entry ≠ (node, heap) → ∀ x, entry.1 ≤ x →
    x < entry.1 + nodeSize w.state.mem entry.1 → s.mem x = w.state.mem x

theorem Laid.free_confined {node heap : Nat} (laid : Laid w) (live : (node, heap) ∈ w.live) :
    (heap = availMagic ∧ heapFree w.state (node + payloadOffset) = .panic .doubleFree) ∨
      ∃ s, heapFree w.state (node + payloadOffset) = .ok s ∧ Confined w node heap s ∧
        Spares w node heap s := by
  by_cases tagged : heap = availMagic
  · subst tagged
    exact Or.inl ⟨rfl, laid.free_tagged live⟩
  · obtain ⟨home, member, handle⟩ := laid.owned _ live
    simp only at handle
    subst handle
    obtain ⟨blocks, rep⟩ := laid.represented home member
    have region := laid.regions home member
    obtain ⟨after, _, freed, _, _, frame, _⟩ := laid.free member rep live tagged
    have large := laid.live_size live
    simp only at large
    refine Or.inr ⟨after.state, freed, ?_, ?_⟩
    · intro x changed
      by_contra outside
      simp only [not_or] at outside
      apply changed
      apply frame
      · intro links
        rcases rep.inLinks region links with head | free
        · exact outside.2.1 head
        · exact outside.2.2 free
      · omega
    · intro entry held differ x low high
      apply frame
      · intro links
        exact laid.live_apart member rep held low high (links.inFree (region.arena rep.tiles))
      · have apart := laid.live_disjoint held live differ
        simp only at apart
        omega

/-- In every run whose requests fit, a free writes no byte of another live block. -/
theorem frees_confined {ops : List Op} (run : Run Served (World.boot m) ops w) {node heap : Nat}
    (live : (node, heap) ∈ w.live) :
    (heap = availMagic ∧ heapFree w.state (node + payloadOffset) = .panic .doubleFree) ∨
      ∃ s, heapFree w.state (node + payloadOffset) = .ok s ∧ Confined w node heap s ∧
        Spares w node heap s :=
  (served_tidy run).laid.free_confined live

/-- Two blocks of eight bytes, the first of them freed. -/
theorem frees_confined_pair :
    ∃ w s, Run Served (World.boot fun _ => 0) [.create 128 4096, .alloc 4096 8, .alloc 4096 8] w ∧
      w.live = [(4120, 4096), (4104, 4096)] ∧
      heapFree w.state (4104 + payloadOffset) = .ok s ∧ Confined w 4104 4096 s ∧
      Spares w 4104 4096 s := by
  obtain ⟨w, run, live⟩ : ∃ w, Run Served (World.boot fun _ => 0)
      [.create 128 4096, .alloc 4096 8, .alloc 4096 8] w ∧ w.live = [(4120, 4096), (4104, 4096)] :=
    ⟨_, Run.cons ⟨⟨⟨⟨by decide, by decide⟩, by simp [World.boot]⟩, rfl⟩, trivial⟩
      (Run.cons ⟨⟨⟨⟨(4096, 128), by decide, rfl⟩, by decide⟩, rfl⟩, Or.inl (by decide)⟩
        (Run.cons ⟨⟨⟨⟨(4096, 128), by decide, rfl⟩, by decide⟩, rfl⟩, Or.inl (by decide)⟩
          (Run.nil _))),
      rfl⟩
  rcases frees_confined run (show (4104, 4096) ∈ w.live by simp [live]) with
    ⟨tagged, _⟩ | ⟨s, freed, confined, spares⟩
  · cases tagged
  · exact ⟨w, s, run, live, freed, confined, spares⟩

/-- A block of no bytes has a node of eight, and freeing it writes its link over the header of
the live node behind it. -/
theorem empty_block_corrupts :
    ∃ w s, Run Call (World.boot fun _ => 0) [.create 128 4096, .alloc 4096 0, .alloc 4096 8] w ∧
      w.live = [(4112, 4096), (4104, 4096)] ∧
      heapFree w.state (4104 + payloadOffset) = .ok s ∧ nodeSize w.state.mem 4112 = 16 ∧
      nodeSize s.mem 4112 = 4128 ∧ ¬ Confined w 4104 4096 s := by
  refine ⟨_, _, Run.cons ⟨⟨⟨by decide, by decide⟩, by simp [World.boot]⟩, rfl⟩
      (Run.cons ⟨⟨⟨(4096, 128), by decide, rfl⟩, by decide⟩, rfl⟩
        (Run.cons ⟨⟨⟨(4096, 128), by decide, rfl⟩, by decide⟩, rfl⟩ (Run.nil _))),
      rfl, rfl, by decide +kernel, by decide +kernel, ?_⟩
  intro confined
  rcases confined 4112 (by decide +kernel) with ⟨_, inside⟩ | ⟨_, inside⟩ | ⟨free, member, place⟩
  · exact absurd inside (by decide +kernel)
  · exact absurd inside (by decide)
  · have only : free ∈ [(4128, 96), (112, 0)] := by
      convert member using 1
      decide +kernel
    have apart : ∀ free ∈ [(4128, 96), (112, 0)], ¬ (free.1 ≤ 4112 ∧ 4112 < free.1 + 12) := by decide
    exact apart free only place

end SysImpl.Heap
