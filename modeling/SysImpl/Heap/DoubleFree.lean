import SysImpl.Heap.Requests

/-! A block that is freed twice.

`HeapFree` knows a free block by its tag. The tag of a block that was freed stays where it is
when the node is merged with another one, and no later call writes it before a block that is
handed out covers it: all nodes lie at multiples of eight, so their sizes and links never
meet the tag of another. -/

namespace SysImpl.Heap

open Bytes Links Blocks Runs

/-- A request does not return a block whose node covers the header of another. -/
def Uncovered (node : Nat) (w : World) : Op → Prop
  | .alloc hHeap n => ∀ ptr s, heapAlloc w.state hHeap n = .ok (ptr, s) → ptr ≠ 0 →
      ¬ (ptr - payloadOffset ≤ node ∧
        node + 8 ≤ ptr - payloadOffset + nodeSize s.mem (ptr - payloadOffset))
  | .create _ _ | .setKernelHeap _ | .free _ | .write _ _ => True

def Around (step : World → Op → World → Prop) (node : Nat) (w : World) (op : Op) (w' : World) :
    Prop :=
  step w op w' ∧ Uncovered node w op

def Inside (node : Nat) (blocks : List Block) : Prop :=
  ∃ block ∈ blocks, block.live = false ∧ block.addr ≤ node ∧ node + 8 ≤ block.addr + block.size

/-- A header that was left behind in the free part of a heap, with the tag of a free node. -/
structure Stale (node : Nat) (w : World) : Prop where
  aligned : node % 8 = 0
  marked : nodeFree w.state.mem node = availMagic
  inside : ∃ entry ∈ w.heaps, ∃ blocks, Represents w entry.1 entry.2 blocks ∧ Inside node blocks

variable {w w' : World} {heap size node : Nat} {blocks : List Block} {m : Mem} {op : Op}

theorem Inside.inFree {x : Nat} (inside : Inside node blocks) (low : node ≤ x) (high : x < node + 8) :
    InFree heap blocks x := by
  obtain ⟨block, member, free, start, ends⟩ := inside
  exact Or.inr ⟨block, member, free, by omega, by omega⟩

/-- The tag of a stale header is in no size and no link. -/
theorem Inside.off_links {x : Nat} (inside : Inside node blocks) (arena : Arena heap size blocks)
    (aligned : ∀ block ∈ blocks, block.addr % 8 = 0) (here : node % 8 = 0) (low : node + 4 ≤ x)
    (high : x < node + 8) : ¬ InLinks heap blocks x := by
  obtain ⟨block, member, free, start, ends⟩ := inside
  have bounds := arena.bounds block member
  have place := aligned block member
  rintro (head | ⟨other, otherMember, _, near⟩)
  · omega
  · have otherBounds := arena.bounds other otherMember
    rcases arena.tiles_apart otherMember member with rfl | gap
    · omega
    · omega

theorem Stale.of_change (stale : Stale node w)
    (same : ∀ x, node + 4 ≤ x → x < node + 8 → w'.state.mem x = w.state.mem x)
    (inside : ∃ entry ∈ w'.heaps, ∃ blocks, Represents w' entry.1 entry.2 blocks ∧
      Inside node blocks) : Stale node w' := by
  refine ⟨stale.aligned, ?_, inside⟩
  rw [← stale.marked]
  exact load32_congr fun x low high => same x low (by omega)

theorem Stale.create (tidy : Tidy w) (stale : Stale node w) (region : Region size heap)
    (unused : ∀ other ∈ w.heaps, Apart other (heap, size))
    (stepped : w.step (.create size heap) = .ok w') : Stale node w' := by
  obtain ⟨after, done, _, heaps, frame, _, elsewhere⟩ := tidy.laid.create region unused
  rw [done] at stepped
  injection stepped with same
  subst same
  obtain ⟨entry, member, blocks, rep, inside⟩ := stale.inside
  have gap := unused entry member
  simp only [Apart] at gap
  apply stale.of_change
  · intro x low high
    have bounds := ((tidy.laid.regions entry member).arena rep.tiles).inFree_bounds
      (inside.inFree (show node ≤ x by omega) high)
    exact frame x (by omega)
  · exact ⟨entry, by rw [heaps]; exact List.mem_cons_of_mem _ member, blocks,
      elsewhere entry member blocks rep, inside⟩

theorem Stale.write {address owner handle : Nat} {byte : UInt8} (tidy : Tidy w)
    (stale : Stale node w) (live : (owner, handle) ∈ w.live) (low : owner + payloadOffset ≤ address)
    (high : address < owner + nodeSize w.state.mem owner) :
    Stale node (w.after (Function.update w.state.mem address byte) w.live) := by
  obtain ⟨_, all⟩ := tidy.laid.write byte live low high
  obtain ⟨entry, member, blocks, rep, inside⟩ := stale.inside
  apply stale.of_change
  · intro x first last
    apply Function.update_of_ne
    rintro rfl
    exact tidy.laid.live_apart member rep live (by simp only; omega) high
      (inside.inFree (by omega) last)
  · exact ⟨entry, member, blocks, all entry member blocks rep, inside⟩

theorem Inside.elsewhere {home entry : Nat × Nat} {x : Nat} {others : List Block} (laid : Laid w)
    (member : home ∈ w.heaps) (rep : Represents w home.1 home.2 others) (present : entry ∈ w.heaps)
    (entryRep : Represents w entry.1 entry.2 blocks) (inside : Inside node blocks)
    (differ : entry ≠ home) (low : node ≤ x) (high : x < node + 8) : ¬ InFree home.1 others x := by
  intro free
  have bounds := ((laid.regions home member).arena rep.tiles).inFree_bounds free
  have place := ((laid.regions entry present).arena entryRep.tiles).inFree_bounds
    (inside.inFree low high)
  have gap := (laid.same_or_apart present member).resolve_left differ
  simp only [Apart] at gap
  omega

theorem Stale.free {owner handle : Nat} (tidy : Tidy w) (stale : Stale node w)
    (live : (owner, handle) ∈ w.live)
    (stepped : w.step (.free (owner + payloadOffset)) = .ok w') : Stale node w' := by
  obtain ⟨size, others, member, otherRep, heaps, _, frame, _, all⟩ :=
    tidy.laid.freed live stepped
  obtain ⟨entry, present, blocks, rep, inside⟩ := stale.inside
  have arena := (tidy.laid.regions _ member).arena otherRep.tiles
  apply stale.of_change
  · intro x low high
    apply frame
    · by_cases equal : entry = (handle, size)
      · subst equal
        rw [rep.unique otherRep] at inside
        exact inside.off_links arena (tidy.aligned _ member _ otherRep) stale.aligned low high
      · intro links
        exact inside.elsewhere tidy.laid member otherRep present rep equal
          (show node ≤ x by omega) high (links.inFree arena)
    · have large := tidy.laid.live_size live
      simp only at large
      by_contra near
      exact tidy.laid.live_apart present rep live (show owner ≤ x by omega)
        (show x < owner + nodeSize w.state.mem owner by omega) (inside.inFree (by omega) high)
  · refine ⟨entry, by rw [heaps]; exact present, _, all entry present blocks rep, ?_⟩
    split_ifs with equal
    · rw [tidy.laid.handle_unique present member equal] at rep
      obtain rfl := rep.unique otherRep
      obtain ⟨block, there, _, rfl⟩ := (rep.taken owner).mp live
      obtain ⟨front, back, rfl⟩ := List.append_of_mem there
      obtain ⟨old, oldMember, oldFree, start, ends⟩ := inside
      obtain ⟨larger, largerMember, largerFree, within⟩ :=
        release_within rfl arena.before_ne rep.tiles oldMember (Or.inl oldFree)
      refine ⟨larger, largerMember, largerFree, ?_, ?_⟩
      · exact Nat.le_trans within.1 start
      · exact Nat.le_trans ends within.2
    · exact inside

theorem Tidy.free_stale {heap : Nat} (tidy : Tidy w) (live : (node, heap) ∈ w.live)
    (stepped : w.step (.free (node + payloadOffset)) = .ok w') : Stale node w' := by
  obtain ⟨size, blocks, member, rep, heaps, marked, _, _, all⟩ := tidy.laid.freed live stepped
  have arena := (tidy.laid.regions _ member).arena rep.tiles
  have released := all _ member blocks rep
  rw [if_pos rfl] at released
  obtain ⟨block, there, _, rfl⟩ := (rep.taken node).mp live
  have aligned := tidy.aligned _ member blocks rep block there
  have bounds := arena.bounds block there
  obtain ⟨front, back, rfl⟩ := List.append_of_mem there
  obtain ⟨larger, largerMember, largerFree, within⟩ :=
    release_within rfl arena.before_ne rep.tiles there (Or.inr rfl)
  refine ⟨aligned, marked, (heap, size), by rw [heaps]; exact member, _, released, larger,
    largerMember, largerFree, within.1, ?_⟩
  have ends := within.2
  omega

theorem Inside.off_taking {x taken need : Nat} {result : List Block} {block : Block}
    (arena : Arena heap size blocks) (holds : Holds m heap blocks)
    (found : allocate minNodeSize need blocks = some (taken, result)) (member : block ∈ blocks)
    (free : block.live = false) (start : block.addr ≤ node)
    (ends : node + 8 ≤ block.addr + block.size) (other : block.addr ≠ taken)
    (aligned : ∀ block ∈ blocks, block.addr % 8 = 0) (here : node % 8 = 0) (low : node + 4 ≤ x)
    (high : x < node + 8) : ¬ Taking m heap need blocks taken x ∧ block ∈ result := by
  have inside : Inside node blocks := ⟨block, member, free, start, ends⟩
  have off := inside.off_links arena aligned here low high
  obtain ⟨front, chosen, back, rfl, _, fits, _, rfl, rfl⟩ := allocate_eq_some found
  have recorded := (holds.headers chosen (by simp)).1
  have bounds := arena.bounds chosen (by simp)
  have differ : block ≠ chosen := fun same => other (by rw [same])
  constructor
  · rintro (links | header | ⟨split, rest⟩)
    · exact off links
    · rcases arena.tiles_apart member (show chosen ∈ front ++ chosen :: back by simp) with
        same | gap
      · exact differ same
      · omega
    · rcases arena.tiles_apart member (show chosen ∈ front ++ chosen :: back by simp) with
        same | gap
      · exact differ same
      · omega
  · simp only [List.mem_append, List.mem_cons] at member ⊢
    rcases member with member | same | member
    · exact Or.inl (Or.inl member)
    · exact absurd same differ
    · exact Or.inr member

/-- An allocation from the block around a stale header splits it, and the header lies in the
rest, which begins with it or leaves its tag as it is. -/
theorem Stale.alloc_rest {entry : Nat × Nat} {need : Nat} {front back : List Block} {block : Block}
    (stale : Stale node w) (present : entry ∈ w.heaps)
    (arena : Arena entry.1 entry.2 (front ++ block :: back)) (free : block.live = false)
    (start : block.addr ≤ node) (ends : node + 8 ≤ block.addr + block.size)
    (aligned : ∀ other ∈ front ++ block :: back, other.addr % 8 = 0) (multiple : need % 8 = 0)
    (heaps : w'.heaps = w.heaps)
    (after : Represents w' entry.1 entry.2 (front ++ carve minNodeSize need block ++ back))
    (frame : ∀ x, ¬ Taking w.state.mem entry.1 need (front ++ block :: back) block.addr x →
      w'.state.mem x = w.state.mem x)
    (uncovered : ¬ (block.addr ≤ node ∧
      node + 8 ≤ block.addr + nodeSize w'.state.mem block.addr)) : Stale node w' := by
  have inside : Inside node (front ++ block :: back) := ⟨block, by simp, free, start, ends⟩
  have place := aligned block (by simp)
  have here := stale.aligned
  by_cases split : minNodeSize ≤ block.size - need
  · have shape : carve minNodeSize need block =
        [⟨block.addr, need, true⟩, ⟨block.addr + need, block.size - need, false⟩] := if_pos split
    rw [shape] at after
    have taken := after.sizes ⟨block.addr, need, true⟩ (by simp)
    simp only at taken
    rw [taken] at uncovered
    have rest : (⟨block.addr + need, block.size - need, false⟩ : Block) ∈
        front ++ [⟨block.addr, need, true⟩, ⟨block.addr + need, block.size - need, false⟩] ++ back := by
      simp
    have kept : Inside node (front ++ [⟨block.addr, need, true⟩,
        ⟨block.addr + need, block.size - need, false⟩] ++ back) := by
      refine ⟨_, rest, rfl, ?_, ?_⟩
      · simp only
        omega
      · simp only
        omega
    refine ⟨here, ?_, entry, by rw [heaps]; exact present, _, after, kept⟩
    by_cases begins : node = block.addr + need
    · rw [begins]
      exact after.magic _ (mem_freeAddrs.mpr ⟨_, rest, rfl, rfl⟩)
    · rw [← stale.marked]
      apply load32_congr
      intro x low high
      apply frame
      rintro (links | header | ⟨_, written⟩)
      · exact inside.off_links arena aligned here low (by omega) links
      · omega
      · omega
  · have shape : carve minNodeSize need block = [⟨block.addr, block.size, true⟩] := if_neg split
    rw [shape] at after
    have taken := after.sizes ⟨block.addr, block.size, true⟩ (by simp)
    simp only at taken
    rw [taken] at uncovered
    exact absurd ⟨start, ends⟩ uncovered

theorem Stale.alloc {home : Nat × Nat} {hHeap n : Nat} (tidy : Tidy w) (stale : Stale node w)
    (member : home ∈ w.heaps) (handle : home.1 = resolve w.state hHeap)
    (fits : Proper n ∨ Unsplit w home.1 n) (uncovered : Uncovered node w (.alloc hHeap n))
    (stepped : w.step (.alloc hHeap n) = .ok w') : Stale node w' := by
  obtain ⟨others, otherRep⟩ := tidy.laid.represented home member
  have arena := (tidy.laid.regions home member).arena otherRep.tiles
  obtain ⟨entry, present, blocks, rep, inside⟩ := stale.inside
  rcases tidy.laid.alloc member handle otherRep
      (otherRep.carves (tidy.laid.regions home member) fits) with
    ⟨_, missed⟩ | ⟨taken, result, m', found, hit, frame, _, all⟩
  · simp only [World.step, missed] at stepped
    split_ifs at stepped
    injection stepped with same
    rw [← same]
    exact stale
  · have some : taken + payloadOffset ≠ 0 := by simp [payloadOffset]
    have apart := uncovered _ _ hit some
    rw [Nat.add_sub_cancel] at apart
    rw [step_alloc hit, ← handle] at stepped
    injection stepped with same
    subst same
    have after := all entry present blocks rep
    by_cases equal : entry = home
    · subst equal
      rw [if_pos rfl] at after
      obtain rfl := rep.unique otherRep
      have aligned := tidy.aligned entry present blocks rep
      obtain ⟨block, there, free, start, ends⟩ := inside
      by_cases chosen : block.addr = taken
      · -- The block around the header is split, and the header lies in the rest.
        obtain ⟨front, block', back, rfl, _, enough, _, start', rfl⟩ := allocate_eq_some found
        obtain rfl : block = block' := by
          rcases arena.tiles_apart there (show block' ∈ front ++ block' :: back by simp) with
            same | gap
          · exact same
          · have bounds := arena.bounds block there
            have bounds' := arena.bounds block' (by simp)
            omega
        subst start'
        exact stale.alloc_rest present arena free start ends aligned (requestSize_mod n) rfl
          after frame apart
      · have kept : ∀ x, node + 4 ≤ x → x < node + 8 →
            ¬ Taking w.state.mem entry.1 (requestSize n) blocks taken x ∧ block ∈ result :=
          fun x low high => Inside.off_taking arena rep.holds found there free start ends chosen
            aligned stale.aligned low high
        apply stale.of_change
        · intro x low high
          exact frame x (kept x low high).1
        · exact ⟨entry, present, result, after, block, (kept (node + 4) (by omega) (by omega)).2,
            free, start, ends⟩
    · have differ : entry.1 ≠ home.1 := fun same =>
        equal (tidy.laid.handle_unique present member same)
      rw [if_neg differ] at after
      apply stale.of_change
      · intro x low high
        apply frame
        intro taking
        exact inside.elsewhere tidy.laid member otherRep present rep equal (show node ≤ x by omega)
          high (taking.inFree arena otherRep.holds found)
      · exact ⟨entry, present, blocks, after, inside⟩

theorem Stale.step (tidy : Tidy w) (stale : Stale node w) (step : Around Served node w op w') :
    Stale node w' := by
  obtain ⟨⟨⟨permitted, stepped⟩, fits⟩, uncovered⟩ := step
  cases op with
  | create size heapMem => exact stale.create tidy permitted.1 permitted.2 stepped
  | setKernelHeap heap =>
      obtain ⟨_, all⟩ := tidy.laid.setKernelHeap heap
      obtain ⟨entry, member, blocks, rep, inside⟩ := stale.inside
      injection stepped with same
      rw [← same]
      exact stale.of_change (fun _ _ _ => rfl)
        ⟨entry, member, blocks, all entry member blocks rep, inside⟩
  | alloc hHeap n =>
      obtain ⟨⟨home, member, handle⟩, _⟩ := permitted
      refine stale.alloc tidy member handle ?_ uncovered stepped
      rw [handle]
      exact fits
  | free mem =>
      obtain ⟨⟨owner, handle⟩, live, rfl⟩ := permitted
      exact stale.free tidy live stepped
  | write address byte =>
      obtain ⟨⟨owner, handle⟩, live, low, high⟩ := permitted
      injection stepped with same
      rw [← same]
      exact stale.write tidy live low high

/-- A stale header is found by `HeapFree`. -/
theorem Stale.caught (tidy : Tidy w) (stale : Stale node w) :
    heapFree w.state (node + payloadOffset) = .panic .doubleFree := by
  obtain ⟨entry, member, blocks, rep, inside⟩ := stale.inside
  have bounds := ((tidy.laid.regions entry member).arena rep.tiles).inFree_bounds
    (inside.inFree (Nat.le_refl node) (by omega))
  have below := (tidy.laid.regions entry member).2
  have address : u32 (node + payloadOffset + 2 ^ 32 - payloadOffset) = node := by
    simp only [payloadOffset, u32]
    omega
  simp only [heapFree, address, if_pos stale.marked]

/-- In every run whose requests fit, a block that was freed and is freed again is caught, as
long as no block was handed out over its header. -/
theorem double_free_caught {ops others : List Op} {w₁ w₂ : World} {heap : Nat}
    (run : Run Served (World.boot m) ops w) (live : (node, heap) ∈ w.live)
    (freed : Served w (.free (node + payloadOffset)) w₁)
    (later : Run (Around Served node) w₁ others w₂) :
    heapFree w₂.state (node + payloadOffset) = .panic .doubleFree := by
  have tidy := served_tidy run
  have start : Tidy w₁ ∧ Stale node w₁ := ⟨tidy.served freed, tidy.free_stale live freed.1.2⟩
  have last : Tidy w₂ ∧ Stale node w₂ := by
    apply later.invariant (fun w => Tidy w ∧ Stale node w) start
    intro mid op next _ both step
    exact ⟨both.1.served step.1, both.2.step both.1 step⟩
  exact last.2.caught last.1

/-- The first of two blocks, whose node is merged away when the second is freed. -/
theorem double_free_caught_merged :
    ∃ w w₁ w₂, Run Served (World.boot fun _ => 0)
        [.create 128 4096, .alloc 4096 8, .alloc 4096 8] w ∧
      Served w (.free 4112) w₁ ∧ Run (Around Served 4104) w₁ [.free 4128] w₂ ∧
      freeList w₂.state.mem 4096 = [(4104, 120)] ∧
      heapFree w₂.state (4104 + payloadOffset) = .panic .doubleFree := by
  obtain ⟨w, w₁, w₂, run, live, freed, later, listed⟩ : ∃ w w₁ w₂, Run Served
      (World.boot fun _ => 0) [.create 128 4096, .alloc 4096 8, .alloc 4096 8] w ∧
      w.live = [(4120, 4096), (4104, 4096)] ∧ Served w (.free (4104 + payloadOffset)) w₁ ∧
      Run (Around Served 4104) w₁ [.free 4128] w₂ ∧ freeList w₂.state.mem 4096 = [(4104, 120)] :=
    ⟨_, _, _, Run.cons ⟨⟨⟨⟨by decide, by decide⟩, by simp [World.boot]⟩, rfl⟩, trivial⟩
      (Run.cons ⟨⟨⟨⟨(4096, 128), by decide, rfl⟩, by decide⟩, rfl⟩, Or.inl (by decide)⟩
        (Run.cons ⟨⟨⟨⟨(4096, 128), by decide, rfl⟩, by decide⟩, rfl⟩, Or.inl (by decide)⟩
          (Run.nil _))), rfl, ⟨⟨⟨(4104, 4096), by decide, rfl⟩, rfl⟩, trivial⟩,
      Run.cons ⟨⟨⟨⟨(4120, 4096), by decide, rfl⟩, rfl⟩, trivial⟩, trivial⟩ (Run.nil _),
      by decide +kernel⟩
  exact ⟨w, w₁, w₂, run, freed, later, listed,
    double_free_caught run (show (4104, 4096) ∈ w.live by simp [live]) freed later⟩

theorem freeLoop_no_panic (heap node fuel now prev : Nat) (m : Mem) (reason : Panic) :
    freeLoop heap node fuel now prev m ≠ .panic reason := by
  induction fuel generalizing now prev with
  | zero => simp [freeLoop]
  | succ fuel ih =>
      simp only [freeLoop]
      split_ifs
      · simp
      · exact ih _ _

theorem heapFree_untagged {s : HeapState} (small : node < 2 ^ 32)
    (tagged : nodeFree s.mem node ≠ availMagic) :
    heapFree s (node + payloadOffset) ≠ .panic .doubleFree := by
  have address : u32 (node + payloadOffset + 2 ^ 32 - payloadOffset) = node := by
    simp only [payloadOffset, u32]
    omega
  simp only [heapFree, address, if_neg tagged]
  split
  · simp
  · next reason panics => exact absurd panics (freeLoop_no_panic _ _ _ _ _ _ reason)
  · simp

def strayMem : Mem := fun x =>
  if x = 2 ^ 32 - 30 then 24
  else if x = 2 ^ 32 - 26 then 0x55
  else if x = 2 ^ 32 - 25 then 0xAA
  else if x = 2 ^ 32 - 24 then 0x55
  else if x = 2 ^ 32 - 23 then 0xAA
  else if x = 2 ^ 32 - 22 then 20
  else 0

/-- A request whose node size wraps puts a stray link into the free list. The node it leads to
lies in a payload, and its link leads to four bytes before the block that was freed: the next
insertion writes over the tag, and the second free of the block is not caught. -/
theorem double_free_missed :
    ∃ w w₁ w₂, Run Step (World.boot strayMem) [.create (2 ^ 32 - 7) 1, .alloc 1 (2 ^ 32 - 7),
        .alloc 1 8, .alloc 1 (2 ^ 32 - 56)] w ∧ w.live = [(40, 1), (24, 1), (16, 1)] ∧
      Step w (.free (24 + payloadOffset)) w₁ ∧
      Run (Around Step 24) w₁ [.alloc 1 16, .free 48] w₂ ∧
      heapFree w₂.state (24 + payloadOffset) ≠ .panic .doubleFree := by
  refine ⟨_, _, _, Run.cons ⟨⟨⟨by decide, by decide⟩, by simp [World.boot]⟩, rfl⟩
      (Run.cons ⟨⟨_, List.mem_cons_self, rfl, by decide, by decide⟩, rfl⟩
        (Run.cons ⟨⟨_, List.mem_cons_self, rfl, by decide, by decide⟩, rfl⟩
          (Run.cons ⟨⟨_, List.mem_cons_self, rfl, by decide, by decide⟩, rfl⟩ (Run.nil _)))),
    rfl, ⟨⟨(24, 1), by decide, rfl⟩, rfl⟩,
    Run.cons ⟨⟨⟨_, List.mem_cons_self, rfl, by decide, by decide⟩, rfl⟩, ?_⟩
      (Run.cons ⟨⟨⟨(40, 1), by decide, rfl⟩, rfl⟩, trivial⟩ (Run.nil _)), ?_⟩
  · rintro ptr s given _ ⟨low, _⟩
    obtain ⟨after, known⟩ : ∃ after, Outcome.ok (ptr, s) = .ok (2 ^ 32 - 22, after) :=
      ⟨_, given.symm.trans rfl⟩
    injection known with pair
    rw [(Prod.mk.inj pair).1] at low
    exact absurd low (by decide)
  · apply heapFree_untagged (by decide)
    decide +kernel

end SysImpl.Heap
