import SysImpl.Heap.Requests

/-! `HeapAlloc` takes the lowest node that is large enough, and touches no live block. -/

namespace SysImpl.Heap

open Bytes Links Blocks Runs

def wanted (n : Nat) : Nat := (n + 7) / 8 * 8 + 8

/-- A request fails: with a panic on the kernel heap, with a null pointer on others. -/
def Fails (w : World) (hHeap n : Nat) : Prop :=
  heapAlloc w.state hHeap n =
    if resolve w.state hHeap = w.state.hKernelHeap then .panic .outOfHeapMemory
    else .ok (0, w.state)

/-- The payload of the lowest node of the free list that is large enough, for `n` bytes. -/
structure LowestFit (w : World) (heap size n ptr : Nat) : Prop where
  lowest : ∃ free ∈ freeList w.state.mem heap, ptr = free.1 + payloadOffset ∧ wanted n ≤ free.2 ∧
    ∀ other ∈ freeList w.state.mem heap, wanted n ≤ other.2 → free.1 ≤ other.1
  aligned : ptr % 8 = 0
  inside : heap ≤ ptr ∧ ptr + n ≤ heap + size
  apart : ∀ entry ∈ w.live, ptr + n ≤ entry.1 + payloadOffset ∨
    entry.1 + nodeSize w.state.mem entry.1 ≤ ptr

def SparesAll (w : World) (s : HeapState) : Prop :=
  ∀ entry ∈ w.live, ∀ x, entry.1 ≤ x → x < entry.1 + nodeSize w.state.mem entry.1 →
    s.mem x = w.state.mem x

variable {w w' : World} {heap size : Nat} {blocks : List Block} {m : Mem} {op : Op}

theorem Represents.mem_freeList (region : Region size heap) (rep : Represents w heap size blocks)
    {free : Nat × Nat} : free ∈ Heap.freeList w.state.mem heap ↔
      ∃ block ∈ blocks, block.live = false ∧ (block.addr, block.size) = free := by
  rw [rep.freeList region, List.mem_map]
  simp [and_assoc]

theorem Represents.freeList_empty (region : Region size heap) (rep : Represents w heap size blocks)
    (empty : firstAvail w.state.mem heap = 0) : Heap.freeList w.state.mem heap = [] := by
  have arena := region.arena rep.tiles
  have none : freeAddrs blocks = [] := by
    cases list : freeAddrs blocks with
    | nil => rfl
    | cons first rest =>
        have links := rep.links
        rw [list] at links
        have here : firstAvail w.state.mem heap = first := chain_head links
        have nonzero := arena.free_nonzero first (by rw [list]; exact List.mem_cons_self)
        omega
  rw [rep.freeList region]
  simpa [freeAddrs] using none

theorem Tidy.lowest_fit {home : Nat × Nat} {hHeap n : Nat} (tidy : Tidy w) (member : home ∈ w.heaps)
    (handle : resolve w.state hHeap = home.1) (least : 1 ≤ n)
    (most : n ≤ 2 ^ 32 - 16 ∨ firstAvail w.state.mem home.1 = 0) :
    (Fails w hHeap n ∧ ∀ free ∈ freeList w.state.mem home.1, free.2 < wanted n) ∨
      ∃ ptr s, heapAlloc w.state hHeap n = .ok (ptr, s) ∧ ptr ≠ 0 ∧
        LowestFit w home.1 home.2 n ptr ∧ SparesAll w s := by
  obtain ⟨blocks, rep⟩ := tidy.laid.represented home member
  have region := tidy.laid.regions home member
  have arena := region.arena rep.tiles
  have fits : Proper n ∨ Unsplit w home.1 n := by
    rcases most with most | empty
    · exact Or.inl ⟨least, most⟩
    · exact Or.inr (Or.inl empty)
  rcases tidy.laid.alloc member handle.symm rep (rep.carves region fits) with
    ⟨failed, missed⟩ | ⟨taken, result, m', found, hit, frame, _⟩
  · refine Or.inl ⟨?_, ?_⟩
    · rw [Fails, missed, handle]
    · rcases most with most | empty
      · intro free listed
        obtain ⟨block, inside, blockFree, rfl⟩ := (rep.mem_freeList region).mp listed
        have small := (allocate_eq_none failed block inside).resolve_left (by simp [blockFree])
        rwa [requestSize_eq most] at small
      · rw [rep.freeList_empty region empty]
        intro free listed
        cases listed
  · obtain ⟨front, block, back, rfl, blockFree, enough, before, rfl, _⟩ := allocate_eq_some found
    have listed : (block.addr, block.size) ∈ freeList w.state.mem home.1 :=
      (rep.mem_freeList region).mpr ⟨block, by simp, blockFree, rfl⟩
    have proper : n ≤ 2 ^ 32 - 16 := by
      rcases most with most | empty
      · exact most
      · rw [rep.freeList_empty region empty] at listed
        cases listed
    have bounds := arena.bounds block (by simp)
    have aligned := tidy.aligned home member _ rep block (by simp)
    rw [requestSize_eq proper] at enough before
    refine Or.inr ⟨_, _, hit, by simp [payloadOffset], ?_, ?_⟩
    · constructor
      · refine ⟨_, listed, rfl, enough, ?_⟩
        intro other otherListed large
        obtain ⟨old, inside, oldFree, rfl⟩ := (rep.mem_freeList region).mp otherListed
        simp only [wanted] at large ⊢
        rcases List.mem_append.mp inside with inside | inside
        · rcases before old inside with live | less
          · rw [oldFree] at live
            cases live
          · omega
        · rcases List.mem_cons.mp inside with rfl | inside
          · exact Nat.le_refl _
          · have gap := arena.around.2 old inside
            omega
      · simp only [payloadOffset]
        omega
      · simp only [payloadOffset]
        omega
      · intro entry held
        by_contra overlap
        have large := tidy.laid.live_size held
        simp only [payloadOffset, not_or, Nat.not_le] at overlap
        -- The first byte that both have lies in the free block.
        have shared : ¬ InFree home.1 (front ++ block :: back) (max entry.1 block.addr) :=
          tidy.laid.live_apart member rep held (Nat.le_max_left _ _) (by omega)
        exact shared (Or.inr ⟨block, by simp, blockFree, Nat.le_max_right _ _, by omega⟩)
    · intro entry held x low high
      apply frame
      intro taking
      exact tidy.laid.live_apart member rep held low high (taking.inFree arena rep.holds found)

/-- In every run whose requests fit, a request fails if no free node is large enough, and else
gets the lowest one that is; neither a request nor a free changes any other live block. -/
theorem first_fit {ops : List Op} (run : Run Served (World.boot m) ops w)
    (member : (heap, size) ∈ w.heaps) :
    (∀ hHeap n, resolve w.state hHeap = heap → 1 ≤ n → n ≤ size →
      n ≤ 2 ^ 32 - 16 ∨ firstAvail w.state.mem heap = 0 →
      (Fails w hHeap n ↔ ∀ free ∈ freeList w.state.mem heap, free.2 < wanted n) ∧
      (¬ Fails w hHeap n → ∃ ptr s, heapAlloc w.state hHeap n = .ok (ptr, s) ∧ ptr ≠ 0 ∧
        LowestFit w heap size n ptr ∧ SparesAll w s)) ∧
    ∀ node s, (node, heap) ∈ w.live → heapFree w.state (node + payloadOffset) = .ok s →
      Spares w node heap s := by
  have tidy := served_tidy run
  constructor
  · intro hHeap n handle least _ most
    rcases tidy.lowest_fit member handle least most with
      ⟨failed, small⟩ | ⟨ptr, s, given, some, fit, spares⟩
    · exact ⟨⟨fun _ => small, fun _ => failed⟩, fun works => absurd failed works⟩
    · have works : ¬ Fails w hHeap n := by
        rw [Fails, given]
        split_ifs
        · intro same
          cases same
        · intro same
          injection same with pair
          exact some (Prod.mk.inj pair).1
      obtain ⟨free, listed, _, enough, _⟩ := fit.lowest
      refine ⟨⟨fun failed => absurd failed works, ?_⟩, fun _ => ⟨ptr, s, given, some, fit, spares⟩⟩
      intro small
      exact absurd (small free listed) (Nat.not_lt.mpr enough)
  · intro node s live freed
    rcases tidy.laid.free_confined live with ⟨_, caught⟩ | ⟨s', done, _, spares⟩
    · rw [caught] at freed
      cases freed
    · rw [done] at freed
      injection freed with same
      rwa [← same]

/-- A second block, behind one that is live. -/
theorem first_fit_second :
    ∃ w ptr s, Run Served (World.boot fun _ => 0) [.create 128 4096, .alloc 4096 8] w ∧
      w.live = [(4104, 4096)] ∧ heapAlloc w.state 4096 24 = .ok (ptr, s) ∧ ptr ≠ 0 ∧
      LowestFit w 4096 128 24 ptr ∧ SparesAll w s := by
  obtain ⟨w, run, heaps, live, listed, handle⟩ : ∃ w, Run Served (World.boot fun _ => 0)
      [.create 128 4096, .alloc 4096 8] w ∧ w.heaps = [(4096, 128)] ∧ w.live = [(4104, 4096)] ∧
      freeList w.state.mem 4096 = [(4120, 104)] ∧ resolve w.state 4096 = 4096 :=
    ⟨_, Run.cons ⟨⟨⟨⟨by decide, by decide⟩, by simp [World.boot]⟩, rfl⟩, trivial⟩
      (Run.cons ⟨⟨⟨⟨(4096, 128), by decide, rfl⟩, by decide⟩, rfl⟩, Or.inl (by decide)⟩
        (Run.nil _)),
      rfl, rfl, by decide +kernel, rfl⟩
  obtain ⟨fails, fit⟩ := (first_fit run (show (4096, 128) ∈ w.heaps by simp [heaps])).1 4096 24
    handle (by decide) (by decide) (Or.inl (by decide))
  have works : ¬ Fails w 4096 24 := by
    rw [fails, listed]
    decide
  obtain ⟨ptr, s, given, some, lowest, spares⟩ := fit works
  exact ⟨w, ptr, s, run, live, given, some, lowest, spares⟩

/-- The node of an empty block is too small for a header and a link, and the split overwrites
the link it copies: the next request follows it out of the heap. And a size whose node size
wraps is given a node, though none is large enough. -/
theorem requests_break_first_fit :
    (∃ w, Run Call (World.boot fun _ => 0) [.create 128 4096, .alloc 4096 0] w ∧
      (∀ free ∈ freeList w.state.mem 4096, free.2 < wanted 112) ∧
      heapAlloc w.state 4096 112 = .panic .unexpectedMagic ∧ ¬ Fails w 4096 112) ∧
    ∃ w ptr s, Run Call (World.boot fun _ => 0) [.create (2 ^ 32 - 9) 8] w ∧
      (∀ free ∈ freeList w.state.mem 8, free.2 < wanted (2 ^ 32 - 9)) ∧
      heapAlloc w.state 8 (2 ^ 32 - 9) = .ok (ptr, s) ∧ ptr = 24 := by
  constructor
  · have run : ∃ w, Run Call (World.boot fun _ => 0) [.create 128 4096, .alloc 4096 0] w ∧
        freeList w.state.mem 4096 = [(4112, 112), (112, 0)] ∧ w.state.hKernelHeap = 0 ∧
        heapAlloc w.state 4096 112 = .panic .unexpectedMagic :=
      ⟨_, Run.cons ⟨⟨⟨by decide, by decide⟩, by simp [World.boot]⟩, rfl⟩
        (Run.cons ⟨⟨⟨(4096, 128), by decide, rfl⟩, by decide⟩, rfl⟩ (Run.nil _)),
        by decide +kernel, rfl, rfl⟩
    obtain ⟨w, run, listed, kernel, panics⟩ := run
    refine ⟨w, run, by rw [listed]; decide, panics, ?_⟩
    rw [Fails, panics, kernel]
    intro same
    cases same
  · refine ⟨_, _, _, Run.cons ⟨⟨⟨by decide, by decide⟩, by simp [World.boot]⟩, rfl⟩ (Run.nil _),
      ?_, rfl, rfl⟩
    decide +kernel

end SysImpl.Heap
