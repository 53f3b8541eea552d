import SysImpl.Heap.World

/-! The free list of a heap as a function of its live blocks.

Whatever was allocated and freed before, the live nodes of a heap with their sizes leave
one way to arrange the free ones. -/

namespace SysImpl.Heap

open Bytes Links Blocks Runs

def walkFree (m : Mem) : Nat → Nat → List (Nat × Nat)
  | 0, _ => []
  | fuel + 1, now =>
      if now = 0 then [] else (now, nodeSize m now) :: walkFree m fuel (nodeNext m now)

def freeList (m : Mem) (heap : Nat) : List (Nat × Nat) := walkFree m (2 ^ 32) (firstAvail m heap)

/-- The same free list, from the same `firstAvail`. -/
def SameFree (heap : Nat) (m m' : Mem) : Prop :=
  firstAvail m heap = firstAvail m' heap ∧ freeList m heap = freeList m' heap

def SameLive (heap : Nat) (w w' : World) : Prop :=
  ∀ node size, ((node, heap) ∈ w.live ∧ nodeSize w.state.mem node = size) ↔
    ((node, heap) ∈ w'.live ∧ nodeSize w'.state.mem node = size)

/-- A world that the clients can come to. -/
def Reached (w : World) : Prop :=
  ∃ m ops, Run Step (World.boot m) ops w ∧ ∀ op ∈ ops, Sound op

variable {w w' : World} {heap size : Nat} {blocks blocks' : List Block} {m : Mem}

theorem walkFree_chain {nodes : List Nat} {cell fuel : Nat} (chain : Chain 8 m cell nodes)
    (nonzero : ∀ node ∈ nodes, node ≠ 0) (enough : nodes.length < fuel) :
    walkFree m fuel (load32 m cell) = nodes.map fun node => (node, nodeSize m node) := by
  induction nodes generalizing cell fuel with
  | nil =>
      obtain ⟨fuel, rfl⟩ := Nat.exists_eq_succ_of_ne_zero (Nat.ne_of_gt enough)
      have null : load32 m cell = 0 := chain
      simp [walkFree, null]
  | cons node rest ih =>
      obtain ⟨fuel, rfl⟩ := Nat.exists_eq_succ_of_ne_zero
        (Nat.ne_of_gt (Nat.lt_of_le_of_lt (Nat.zero_le _) enough))
      obtain ⟨here, later⟩ := chain
      have shorter : rest.length < fuel := by
        simp only [List.length_cons] at enough
        omega
      have walked := ih later
        (fun other member => nonzero other (List.mem_cons_of_mem _ member)) shorter
      simp only [walkFree, here, if_neg (nonzero node List.mem_cons_self), List.map_cons]
      rw [← walked]
      rfl

theorem Represents.freeList (region : Region size heap) (rep : Represents w heap size blocks) :
    freeList w.state.mem heap =
      (blocks.filter fun block => !block.live).map fun block => (block.addr, block.size) := by
  have arena := region.arena rep.tiles
  have length := arena.free_length
  rw [Heap.freeList, firstAvail, walkFree_chain rep.links arena.free_nonzero (by omega), freeAddrs,
    List.map_map]
  apply List.map_congr_left
  intro block member
  exact Prod.ext rfl (rep.sizes block (List.mem_filter.mp member).1)

theorem Represents.canonical (rep : Represents w heap size blocks)
    (rep' : Represents w' heap size blocks') (same : SameLive heap w w') : blocks = blocks' := by
  apply tiles_canonical (by decide) rep.tiles rep'.tiles rep.separated rep'.separated
  intro block live
  rw [rep.mem_live live, rep'.mem_live live]
  exact same block.addr block.size

theorem WorldOk.sameFree (ok : WorldOk w) (ok' : WorldOk w') (member : (heap, size) ∈ w.heaps)
    (member' : (heap, size) ∈ w'.heaps) (same : SameLive heap w w') :
    SameFree heap w.state.mem w'.state.mem := by
  obtain ⟨blocks, rep⟩ := ok.represented _ member
  obtain ⟨blocks', rep'⟩ := ok'.represented _ member'
  have equal := rep.canonical rep' same
  subst equal
  have region := (ok.regions _ member).1
  refine ⟨?_, ?_⟩
  · exact (chain_head rep.links).trans (chain_head rep'.links).symm
  · rw [rep.freeList region, rep'.freeList region]

theorem SameLive.of_kept (live : ∀ entry, entry ∈ w'.live ↔ entry ∈ w.live)
    (sizes : ∀ entry ∈ w.live,
      nodeSize w'.state.mem entry.1 = nodeSize w.state.mem entry.1) : SameLive heap w w' := by
  intro node size
  rw [live]
  constructor
  · rintro ⟨held, recorded⟩
    exact ⟨held, (sizes _ held).trans recorded⟩
  · rintro ⟨held, recorded⟩
    exact ⟨held, (sizes _ held).symm.trans recorded⟩

theorem step_free {mem : Nat} (stepped : w.step (.free mem) = .ok w') :
    heapFree w.state mem = .ok w'.state ∧ w'.heaps = w.heaps ∧
      w'.live = w.live.filter fun entry => entry.1 + payloadOffset ≠ mem := by
  simp only [World.step] at stepped
  split at stepped
  · next s freed =>
      injection stepped with equal
      rw [← equal]
      exact ⟨freed, rfl, rfl⟩
  · cases stepped
  · cases stepped

theorem free_keeps {node : Nat} (ok : WorldOk w) (held : (node, heap) ∈ w.live) :
    ∃ w', w.step (.free (node + payloadOffset)) = .ok w' ∧ WorldOk w' ∧
      ∀ entry ∈ w'.live, nodeSize w'.state.mem entry.1 = nodeSize w.state.mem entry.1 := by
  obtain ⟨w', stepped, ok', released⟩ := free_ok ok held
  refine ⟨w', stepped, ok', ?_⟩
  obtain ⟨_, heaps, live⟩ := step_free stepped
  intro entry member
  obtain ⟨home, homeMember, handle⟩ := ok'.owned entry member
  rw [heaps] at homeMember
  obtain ⟨blocks, rep⟩ := ok.represented home homeMember
  have after := released home homeMember blocks rep
  have here : (entry.1, home.1) ∈ w'.live := by rw [handle]; exact member
  obtain ⟨block, present, blockLive, start⟩ := (after.taken entry.1).mp here
  have still : block ∈ blocks := by
    by_cases same : home.1 = heap
    · rw [if_pos same] at present
      rw [← same] at held
      obtain ⟨freed, inside, _, rfl⟩ := (rep.taken node).mp held
      obtain ⟨front, back, rfl⟩ := List.append_of_mem inside
      have arena := (ok.regions home homeMember).1.arena rep.tiles
      rcases (mem_release_live rfl arena.before_ne blockLive).mp present with found | found
      · simp [found]
      · simp [found]
    · rwa [if_neg same] at present
  rw [← start, after.sizes block present, rep.sizes block still]

/-- Distinct live blocks can be freed one after the other, and the blocks that are left
keep their sizes. -/
theorem frees_run (ok : WorldOk w) (frees : List Nat)
    (held : ∀ mem ∈ frees, ∃ entry ∈ w.live, mem = entry.1 + payloadOffset)
    (distinct : frees.Nodup) :
    ∃ w', Run Step w (frees.map Op.free) w' ∧ WorldOk w' ∧ w'.heaps = w.heaps ∧
      (∀ entry, entry ∈ w'.live ↔ entry ∈ w.live ∧ entry.1 + payloadOffset ∉ frees) ∧
      ∀ entry ∈ w'.live, nodeSize w'.state.mem entry.1 = nodeSize w.state.mem entry.1 := by
  induction frees generalizing w with
  | nil => exact ⟨w, Run.nil w, ok, rfl, by simp, fun _ _ => rfl⟩
  | cons mem rest ih =>
      obtain ⟨fresh, distinctRest⟩ := List.nodup_cons.mp distinct
      obtain ⟨⟨node, heap⟩, member, rfl⟩ := held mem List.mem_cons_self
      obtain ⟨mid, stepped, okMid, sizesMid⟩ := free_keeps ok member
      obtain ⟨_, heaps, live⟩ := step_free stepped
      have heldMid : ∀ other ∈ rest, ∃ entry ∈ mid.live, other = entry.1 + payloadOffset := by
        intro other later
        obtain ⟨entry, inside, rfl⟩ := held other (List.mem_cons_of_mem _ later)
        refine ⟨entry, ?_, rfl⟩
        rw [live]
        refine List.mem_filter.mpr ⟨inside, decide_eq_true ?_⟩
        intro same
        exact fresh (same ▸ later)
      obtain ⟨last, run, okLast, heapsLast, liveLast, sizesLast⟩ := ih okMid heldMid distinctRest
      refine ⟨last, Run.cons ⟨⟨_, member, rfl⟩, stepped⟩ run, okLast, heapsLast.trans heaps, ?_, ?_⟩
      · intro entry
        rw [liveLast, live, List.mem_filter, List.mem_cons, not_or, decide_eq_true_iff, and_assoc]
      · intro entry inside
        exact (sizesLast entry inside).trans (sizesMid entry ((liveLast entry).mp inside).1)

/-- A successful allocation hands out a node that was not live, and leaves the sizes of
the live nodes as they are. -/
theorem alloc_keeps {home : Nat × Nat} {hHeap n ptr : Nat} {s : HeapState} (ok : WorldOk w)
    (member : home ∈ w.heaps) (handle : home.1 = resolve w.state hHeap) (least : 1 ≤ n)
    (most : n ≤ 2 ^ 32 - 16) (given : heapAlloc w.state hHeap n = .ok (ptr, s)) (some : ptr ≠ 0) :
    WorldOk ⟨s, w.heaps, (ptr - payloadOffset, home.1) :: w.live⟩ ∧
      payloadOffset ≤ ptr ∧ ∀ entry ∈ w.live, entry.1 ≠ ptr - payloadOffset ∧
        nodeSize s.mem entry.1 = nodeSize w.state.mem entry.1 := by
  obtain ⟨blocks, rep⟩ := ok.represented home member
  have arena := (ok.regions home member).1.arena rep.tiles
  rcases ok.laid.alloc member handle rep (Carves.of_le (requestSize_bound least most)) with
    ⟨_, missed⟩ | ⟨taken, result, m', found, hit, frame, laid, _⟩
  · rw [missed] at given
    split_ifs at given
    injection given with equal
    exact absurd (Prod.mk.inj equal).1.symm some
  · rw [hit] at given
    injection given with equal
    obtain ⟨rfl, rfl⟩ := Prod.mk.inj equal
    rw [Nat.add_sub_cancel]
    refine ⟨laid.worldOk fun entry inside => (ok.regions entry inside).2, by omega, ?_⟩
    intro entry held
    have large := ok.laid.live_size held
    refine ⟨ok.laid.taken_fresh member rep found held, ?_⟩
    apply load32_congr
    intro x low high
    apply frame
    intro taking
    exact ok.laid.live_apart member rep held low (by omega)
      (taking.inFree arena rep.holds found)

theorem alloc_free {home : Nat × Nat} {hHeap n ptr : Nat} {s : HeapState} (ok : WorldOk w)
    (member : home ∈ w.heaps) (handle : home.1 = resolve w.state hHeap) (least : 1 ≤ n)
    (most : n ≤ 2 ^ 32 - 16) (given : heapAlloc w.state hHeap n = .ok (ptr, s)) (some : ptr ≠ 0) :
    ∃ s', heapFree s ptr = .ok s' ∧ ∀ entry ∈ w.heaps, SameFree entry.1 w.state.mem s'.mem := by
  obtain ⟨okMid, large, kept⟩ := alloc_keeps ok member handle least most given some
  obtain ⟨w', stepped, ok', sizes⟩ := free_keeps okMid List.mem_cons_self
  rw [Nat.sub_add_cancel large] at stepped
  obtain ⟨freed, heaps, live⟩ := step_free stepped
  refine ⟨w'.state, freed, ?_⟩
  have liveThen : ∀ entry, entry ∈ w'.live ↔ entry ∈ w.live := by
    intro entry
    rw [live, List.mem_filter, decide_eq_true_iff, List.mem_cons]
    constructor
    · rintro ⟨rfl | inside, away⟩
      · exact absurd (Nat.sub_add_cancel large) away
      · exact inside
    · intro inside
      have away := (kept entry inside).1
      exact ⟨Or.inr inside, by omega⟩
  intro entry inside
  apply ok.sameFree ok' inside (by rw [heaps]; exact inside)
  apply SameLive.of_kept liveThen
  intro other held
  exact (sizes other ((liveThen other).mpr held)).trans (kept other held).2

/-- With no live block there is one free node, and it is the one `HeapInitialize` makes. -/
theorem WorldOk.all_free (ok : WorldOk w) (member : (heap, size) ∈ w.heaps)
    (none : ∀ node, (node, heap) ∉ w.live) (s : HeapState) :
    SameFree heap w.state.mem (heapInitialize s size heap).2.mem ∧
      freeList w.state.mem heap = [(firstNode heap, heap + size - firstNode heap)] := by
  obtain ⟨region, untagged⟩ := ok.regions _ member
  have bootOk : WorldOk ⟨s, [], []⟩ := by
    constructor
    · intro entry inside
      cases inside
    · exact List.Pairwise.nil
    · intro entry inside
      cases inside
    · intro entry inside
      cases inside
  obtain ⟨fresh, stepped, freshOk⟩ := create_ok bootOk region (by intro other inside; cases inside)
    untagged
  simp only [World.step] at stepped
  injection stepped with equal
  subst equal
  refine ⟨ok.sameFree freshOk member List.mem_cons_self ?_, ?_⟩
  · intro node size
    simp [none node]
  · obtain ⟨blocks, rep⟩ := ok.represented _ member
    have room := region.1
    have single : blocks = [⟨firstNode heap, heap + size - firstNode heap, false⟩] := by
      rw [← region.firstNode_eq] at room
      simp only at room
      apply tiles_canonical (by decide) rep.tiles _ rep.separated (List.isChain_singleton _)
      · intro block live
        rw [rep.mem_live live]
        constructor
        · intro held
          exact absurd held.1 (none block.addr)
        · intro only
          rw [List.mem_singleton.mp only] at live
          cases live
      · refine ⟨rfl, by simp only; omega, ?_⟩
        simp only [Tiles]
        omega
    rw [rep.freeList region, single]
    rfl

/-- In every world that can be reached, the live blocks of a heap determine its free list.
So live blocks can be freed in any order with one result, freeing a block just allocated
restores the free list, and with no live block left the heap is one free node again. -/
theorem free_list_canonical (reached : Reached w) (member : (heap, size) ∈ w.heaps) :
    (∀ w', Reached w' → (heap, size) ∈ w'.heaps → SameLive heap w w' →
        SameFree heap w.state.mem w'.state.mem) ∧
      (∀ frees frees' : List Nat, frees.Perm frees' → frees.Nodup →
        (∀ mem ∈ frees, ∃ entry ∈ w.live, mem = entry.1 + payloadOffset) →
        ∃ w₁ w₂, Run Step w (frees.map Op.free) w₁ ∧ Run Step w (frees'.map Op.free) w₂ ∧
          SameFree heap w₁.state.mem w₂.state.mem) ∧
      (∀ hHeap n ptr s, Allowed w (.alloc hHeap n) → Sound (.alloc hHeap n) →
        heapAlloc w.state hHeap n = .ok (ptr, s) → ptr ≠ 0 →
        ∃ s', heapFree s ptr = .ok s' ∧ SameFree heap w.state.mem s'.mem) ∧
      ((∀ node, (node, heap) ∉ w.live) → ∀ s,
        SameFree heap w.state.mem (heapInitialize s size heap).2.mem ∧
          freeList w.state.mem heap = [(firstNode heap, heap + size - firstNode heap)]) := by
  obtain ⟨m, ops, run, sound⟩ := reached
  have ok := run_ok run sound
  refine ⟨?_, ?_, ?_, fun none s => ok.all_free member none s⟩
  · rintro w' ⟨m', ops', run', sound'⟩ member' same
    exact ok.sameFree (run_ok run' sound') member member' same
  · intro frees frees' perm distinct held
    have held' : ∀ mem ∈ frees', ∃ entry ∈ w.live, mem = entry.1 + payloadOffset :=
      fun mem inside => held mem (perm.mem_iff.mpr inside)
    obtain ⟨w₁, run₁, ok₁, heaps₁, live₁, sizes₁⟩ := frees_run ok frees held distinct
    obtain ⟨w₂, run₂, ok₂, heaps₂, live₂, sizes₂⟩ :=
      frees_run ok frees' held' (perm.nodup_iff.mp distinct)
    refine ⟨w₁, w₂, run₁, run₂, ok₁.sameFree ok₂ (by rw [heaps₁]; exact member)
      (by rw [heaps₂]; exact member) ?_⟩
    have live : ∀ entry, entry ∈ w₂.live ↔ entry ∈ w₁.live := by
      intro entry
      rw [live₁, live₂, perm.mem_iff]
    apply SameLive.of_kept live
    intro entry inside
    exact (sizes₂ entry ((live entry).mpr inside)).trans (sizes₁ entry inside).symm
  · rintro hHeap n ptr s ⟨home, inside, handle, least, _⟩ most given some
    obtain ⟨s', freed, same⟩ := alloc_free ok inside handle least most given some
    exact ⟨s', freed, same _ member⟩

/-- Two blocks freed in either order. -/
theorem free_list_canonical_pair :
    ∃ w w₁ w₂, Run Step (World.boot fun _ => 0) [.create 128 4096, .alloc 4096 8, .alloc 4096 24] w ∧
      Run Step w [.free 4112, .free 4128] w₁ ∧ Run Step w [.free 4128, .free 4112] w₂ ∧
      SameFree 4096 w₁.state.mem w₂.state.mem := by
  obtain ⟨w, run, heaps, live⟩ : ∃ w, Run Step (World.boot fun _ => 0)
      [.create 128 4096, .alloc 4096 8, .alloc 4096 24] w ∧ w.heaps = [(4096, 128)] ∧
      w.live = [(4120, 4096), (4104, 4096)] :=
    ⟨_, Run.cons ⟨⟨⟨by decide, by decide⟩, by simp [World.boot]⟩, rfl⟩
      (Run.cons ⟨⟨(4096, 128), by decide, rfl, by decide, by decide⟩, rfl⟩
        (Run.cons ⟨⟨(4096, 128), by decide, rfl, by decide, by decide⟩, rfl⟩ (Run.nil _))),
      rfl, rfl⟩
  obtain ⟨_, anyOrder, _⟩ := free_list_canonical ⟨_, _, run, by decide⟩
    (show (4096, 128) ∈ w.heaps by simp [heaps])
  obtain ⟨w₁, w₂, run₁, run₂, same⟩ := anyOrder [4112, 4128] [4128, 4112]
    (List.Perm.swap _ _ _) (by decide) (by simp [live, payloadOffset])
  exact ⟨w, w₁, w₂, run, run₁, run₂, same⟩

/-- In a heap whose handle is the tag of a free node a block just allocated cannot be freed,
and a block whose node size wraps leaves a node of no size on the free list. -/
theorem free_list_not_restored :
    (∃ w, Run Step (World.boot fun _ => 0) [.create 64 0xAA55AA55, .alloc 0xAA55AA55 8] w ∧
        Allowed w (.free 0xAA55AA68) ∧ w.step (.free 0xAA55AA68) = .panic .doubleFree) ∧
      ∃ w₁ w₂, Run Step (World.boot fun _ => 0) [.create (2 ^ 32 - 9) 8] w₁ ∧
        Run Step w₁ [.alloc 8 (2 ^ 32 - 9), .free 24] w₂ ∧
        (freeList w₁.state.mem 8).head? = some (16, 2 ^ 32 - 17) ∧
        (freeList w₂.state.mem 8).head? = some (16, 0) := by
  constructor
  · refine ⟨_, Run.cons ⟨⟨⟨by decide, by decide⟩, by simp [World.boot]⟩, rfl⟩
      (Run.cons ⟨⟨_, List.mem_cons_self, rfl, by decide, by decide⟩, rfl⟩ (Run.nil _)),
      ⟨_, List.mem_cons_self, rfl⟩, ?_⟩
    rfl
  · refine ⟨_, _, Run.cons ⟨⟨⟨by decide, by decide⟩, by simp [World.boot]⟩, rfl⟩ (Run.nil _),
      Run.cons ⟨⟨_, List.mem_cons_self, rfl, by decide, by decide⟩, rfl⟩
        (Run.cons ⟨⟨_, List.mem_cons_self, rfl⟩, rfl⟩ (Run.nil _)), ?_, ?_⟩
    · decide +kernel
    · decide +kernel

end SysImpl.Heap
