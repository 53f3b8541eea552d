import SysImpl.Heap.FirstFit

/-! `malloc`, `calloc` and `realloc` over the heap.

They serve their callers from the kernel heap; `calloc` and `realloc` then write the block
they got, and `realloc` returns the old one. Where their sizes fit, each of them is a run of
requests that the heap serves. -/

namespace SysImpl.Heap

open Bytes Links Blocks Runs

/-- A loop that stores bytes one after the other. Each byte may depend on the memory that the
loop has come to. -/
def storeLoop (dst : Nat) (byte : Mem → Nat → UInt8) : Nat → Mem → Mem
  | 0, m => m
  | i + 1, m =>
      Function.update (storeLoop dst byte i m) (u32 (dst + i)) (byte (storeLoop dst byte i m) i)

def memset (m : Mem) (b : Nat) (c : UInt8) (len : Nat) : Mem := storeLoop b (fun _ _ => c) len m

def memcpy (m : Mem) (dst src n : Nat) : Mem := storeLoop dst (fun m i => m (u32 (src + i))) n m

def Outcome.bind {α β : Type} : Outcome α → (α → Outcome β) → Outcome β
  | .ok result, next => next result
  | .panic reason, _ => .panic reason
  | .hang, _ => .hang

def malloc (s : HeapState) (size : Nat) : Outcome (Nat × HeapState) := heapAlloc s 0 size

def free (s : HeapState) (ptr : Nat) : Outcome HeapState := heapFree s ptr

def calloc (s : HeapState) (count size : Nat) : Outcome (Nat × HeapState) :=
  let total := u32 (count * size)
  (malloc s total).bind fun ret => .ok (ret.1, { ret.2 with mem := memset ret.2.mem ret.1 0 total })

def realloc (s : HeapState) (ptr size : Nat) : Outcome (Nat × HeapState) :=
  (malloc s size).bind fun ret =>
    if ptr ≠ 0 then
      (free { ret.2 with mem := memcpy ret.2.mem ret.1 ptr size } ptr).bind fun s => .ok (ret.1, s)
    else .ok ret

/-- The payload bytes of the node of a block. -/
def capacity (m : Mem) (ptr : Nat) : Nat := nodeSize m (ptr - payloadOffset) - payloadOffset

/-- A call that returns a block returns one of at least `n` bytes, and it returns none where
no free node has room for them. -/
structure Ample (w : World) (heap n : Nat) (call : Outcome (Nat × HeapState)) : Prop where
  holds : ∀ ptr s, call = .ok (ptr, s) → ptr ≠ 0 → n ≤ capacity s.mem ptr
  refuses : (∀ free ∈ freeList w.state.mem heap, free.2 < wanted n) →
    ∀ ptr s, call = .ok (ptr, s) → ptr = 0

/-- The node size for a request does not wrap, or no free node is of what is left of it. -/
def Sized (w : World) (heap n : Nat) : Prop :=
  n ≤ 2 ^ 32 - 16 ∨ ∀ free ∈ freeList w.state.mem heap, free.2 < requestSize (u32 n)

variable {w w' : World} {heap size : Nat} {blocks : List Block} {m : Mem} {op : Op}

theorem storeLoop_outside {dst len x : Nat} (byte : Mem → Nat → UInt8) (m : Mem)
    (below : dst + len ≤ 2 ^ 32) (outside : x < dst ∨ dst + len ≤ x) :
    storeLoop dst byte len m x = m x := by
  induction len with
  | zero => rfl
  | succ len ih =>
      have address : u32 (dst + len) = dst + len := Nat.mod_eq_of_lt (by omega)
      rw [storeLoop, address, Function.update_of_ne (by omega), ih (by omega) (by omega)]

theorem Outcome.bind_ok {α β : Type} {call : Outcome α} {next : α → Outcome β} {result : β}
    (done : call.bind next = .ok result) : ∃ mid, call = .ok mid ∧ next mid = .ok result := by
  cases call with
  | ok mid => exact ⟨mid, rfl, done⟩
  | panic reason => cases done
  | hang => cases done

theorem storeLoop_run {node heap : Nat} (laid : Laid w) (held : (node, heap) ∈ w.live)
    (byte : Mem → Nat → UInt8) {len : Nat}
    (room : payloadOffset + len ≤ nodeSize w.state.mem node) :
    RunOf Served (fun _ => True) w
      (w.after (storeLoop (node + payloadOffset) byte len w.state.mem) w.live) := by
  obtain ⟨home, member, _, blocks, rep, block, inside, _, start, length⟩ := laid.live_block held
  have bounds := ((laid.regions home member).arena rep.tiles).bounds block inside
  have below := (laid.regions home member).2
  simp only [payloadOffset] at room start length ⊢
  induction len with
  | zero => exact RunOf.refl w
  | succ len ih =>
      have address : u32 (node + 8 + len) = node + 8 + len := Nat.mod_eq_of_lt (by omega)
      have header : nodeSize (storeLoop (node + 8) byte len w.state.mem) node =
          nodeSize w.state.mem node := by
        apply load32_congr
        intro x _ high
        exact storeLoop_outside byte _ (by omega) (by omega)
      have step : Served (w.after (storeLoop (node + 8) byte len w.state.mem) w.live)
          (.write (node + 8 + len) (byte (storeLoop (node + 8) byte len w.state.mem) len))
          (w.after (storeLoop (node + 8) byte (len + 1) w.state.mem) w.live) := by
        refine ⟨⟨⟨(node, heap), held, ?_, ?_⟩, ?_⟩, trivial⟩
        · simp only [payloadOffset]
          omega
        · change node + 8 + len < node + nodeSize (storeLoop (node + 8) byte len w.state.mem) node
          rw [header]
          omega
        · simp only [World.step, storeLoop, address]
          rfl
      exact (ih (by omega)).trans (RunOf.single step trivial)

theorem Tidy.run (tidy : Tidy w) (run : RunOf Served (fun _ => True) w w') : Tidy w' := by
  apply run.invariant Tidy tidy
  intro mid op next _ tidy served
  exact tidy.served served

theorem Laid.alloc_fails {home : Nat × Nat} {hHeap n : Nat} (laid : Laid w)
    (member : home ∈ w.heaps) (handle : resolve w.state hHeap = home.1)
    (none : ∀ free ∈ freeList w.state.mem home.1, free.2 < requestSize n) : Fails w hHeap n := by
  obtain ⟨blocks, rep⟩ := laid.represented home member
  have region := laid.regions home member
  have small : ∀ block ∈ blocks, block.live = false → block.size < requestSize n := by
    intro block inside free
    exact none _ ((rep.mem_freeList region).mpr ⟨block, inside, free, rfl⟩)
  have carves : Carves minNodeSize (requestSize n) blocks := by
    intro front block back shape free fits _ _
    have less := small block (by simp [shape]) free
    omega
  rcases laid.alloc member handle.symm rep carves with
    ⟨_, missed⟩ | ⟨taken, result, m', found, _⟩
  · rw [Fails, missed, handle]
  · obtain ⟨front, block, back, rfl, free, fits, _⟩ := allocate_eq_some found
    have less := small block (by simp) free
    omega

theorem Fails.null {hHeap n ptr : Nat} {s : HeapState} (failed : Fails w hHeap n)
    (done : heapAlloc w.state hHeap n = .ok (ptr, s)) : ptr = 0 := by
  rw [Fails, done] at failed
  split_ifs at failed
  injection failed with same
  exact (Prod.mk.inj same).1

theorem Tidy.alloc_block {home : Nat × Nat} {hHeap n ptr : Nat} {s : HeapState} (tidy : Tidy w)
    (member : home ∈ w.heaps) (handle : resolve w.state hHeap = home.1) (proper : Proper n)
    (done : heapAlloc w.state hHeap n = .ok (ptr, s)) (some : ptr ≠ 0) :
    ∃ node w', ptr = node + payloadOffset ∧ Served w (.alloc hHeap n) w' ∧ w'.state = s ∧
      w'.live = (node, home.1) :: w.live ∧ payloadOffset + n ≤ nodeSize s.mem node ∧
      ∀ entry ∈ w.live, entry ≠ (node, home.1) := by
  obtain ⟨blocks, rep⟩ := tidy.laid.represented home member
  have region := tidy.laid.regions home member
  have carves := rep.carves region (Or.inl proper)
  rcases tidy.laid.alloc member handle.symm rep carves with
    ⟨_, missed⟩ | ⟨taken, result, m', found, hit, _, _, all⟩
  · have failed : Fails w hHeap n := by rw [Fails, missed, handle]
    exact absurd (failed.null done) some
  · rw [hit] at done
    injection done with same
    obtain ⟨rfl, rfl⟩ := Prod.mk.inj same
    refine ⟨taken, w.after m' ((taken, home.1) :: w.live), rfl, ⟨⟨⟨⟨home, member, handle.symm⟩, ?_⟩,
      ?_⟩, Or.inl proper⟩, rfl, rfl, ?_, ?_⟩
    · have most := proper.2
      omega
    · rw [step_alloc hit, handle]
    · obtain ⟨block, inside, rfl, large⟩ := allocate_taken found
      have sizes := (all home member blocks rep).sizes block (by simpa using inside)
      change nodeSize m' block.addr = block.size at sizes
      rw [requestSize_eq proper.2] at large
      simp only [payloadOffset, sizes]
      omega
    · rintro entry held rfl
      exact tidy.laid.taken_fresh member rep found held rfl

theorem Tidy.refuses {home : Nat × Nat} {hHeap n ptr : Nat} {s : HeapState} (tidy : Tidy w)
    (member : home ∈ w.heaps) (handle : resolve w.state hHeap = home.1) (sized : Sized w home.1 n)
    (none : ∀ free ∈ freeList w.state.mem home.1, free.2 < wanted n)
    (done : heapAlloc w.state hHeap (u32 n) = .ok (ptr, s)) : ptr = 0 := by
  apply (tidy.laid.alloc_fails member handle _).null done
  rcases sized with most | small
  · have same : u32 n = n := Nat.mod_eq_of_lt (by omega)
    rw [same, requestSize_eq most]
    exact none
  · exact small

theorem Tidy.proper {home : Nat × Nat} {hHeap n ptr : Nat} {s : HeapState} (tidy : Tidy w)
    (member : home ∈ w.heaps) (handle : resolve w.state hHeap = home.1) (sized : Sized w home.1 n)
    (positive : 0 < n) (done : heapAlloc w.state hHeap (u32 n) = .ok (ptr, s)) (some : ptr ≠ 0) :
    u32 n = n ∧ Proper n := by
  rcases sized with most | small
  · exact ⟨Nat.mod_eq_of_lt (by omega), positive, most⟩
  · exact absurd ((tidy.laid.alloc_fails member handle small).null done) some

theorem Tidy.heapAlloc_ample {home : Nat × Nat} {hHeap n : Nat} (tidy : Tidy w)
    (member : home ∈ w.heaps) (handle : resolve w.state hHeap = home.1)
    (sized : Sized w home.1 n) : Ample w home.1 n (heapAlloc w.state hHeap (u32 n)) := by
  constructor
  · intro ptr s done some
    rcases Nat.eq_zero_or_pos n with rfl | positive
    · exact Nat.zero_le _
    · obtain ⟨same, proper⟩ := tidy.proper member handle sized positive done some
      rw [same] at done
      obtain ⟨node, w', rfl, _, _, _, room, _⟩ := tidy.alloc_block member handle proper done some
      simp only [capacity, Nat.add_sub_cancel]
      omega
  · intro none ptr s done
    exact tidy.refuses member handle sized none done

theorem storeLoop_capacity {node len : Nat} (byte : Mem → Nat → UInt8) (m : Mem)
    (below : node + payloadOffset + len ≤ 2 ^ 32) :
    capacity (storeLoop (node + payloadOffset) byte len m) (node + payloadOffset) =
      capacity m (node + payloadOffset) := by
  have header : nodeSize (storeLoop (node + payloadOffset) byte len m) node = nodeSize m node := by
    apply load32_congr
    intro x _ high
    exact storeLoop_outside byte m below (by simp only [payloadOffset]; omega)
  simp only [capacity, Nat.add_sub_cancel, header]

theorem Laid.live_below (laid : Laid w) {entry : Nat × Nat} (held : entry ∈ w.live) :
    entry.1 + nodeSize w.state.mem entry.1 < 2 ^ 32 := by
  obtain ⟨home, member, _, blocks, rep, block, inside, _, start, length⟩ := laid.live_block held
  have bounds := ((laid.regions home member).arena rep.tiles).bounds block inside
  have below := (laid.regions home member).2
  omega

theorem calloc_run {home : Nat × Nat} {count size ret : Nat} {s : HeapState} (tidy : Tidy w)
    (member : home ∈ w.heaps) (kernel : resolve w.state 0 = home.1) (proper : Proper (count * size))
    (done : calloc w.state count size = .ok (ret, s)) (some : ret ≠ 0) :
    ∃ w', RunOf Served (fun _ => True) w w' ∧ w'.state = s ∧ count * size ≤ capacity s.mem ret := by
  have total : u32 (count * size) = count * size := by
    have most := proper.2
    exact Nat.mod_eq_of_lt (by omega)
  simp only [calloc, total] at done
  obtain ⟨⟨ptr, mid⟩, given, finish⟩ := Outcome.bind_ok done
  injection finish with same
  obtain ⟨rfl, rfl⟩ := Prod.mk.inj same
  obtain ⟨node, w', rfl, served, rfl, live, room, _⟩ :=
    tidy.alloc_block member kernel proper given some
  have laid := (tidy.served served).laid
  have held : (node, home.1) ∈ w'.live := by
    rw [live]
    exact List.mem_cons_self
  have below := laid.live_below held
  simp only at below
  refine ⟨_, (RunOf.single served trivial).trans
    (storeLoop_run laid held (fun _ _ => 0) room), rfl, ?_⟩
  simp only [memset]
  rw [storeLoop_capacity _ _ (by omega)]
  simp only [capacity, Nat.add_sub_cancel]
  omega

theorem Laid.free_capacity {node heap other otherHeap : Nat} {s : HeapState} (laid : Laid w)
    (held : (node, heap) ∈ w.live) (otherHeld : (other, otherHeap) ∈ w.live)
    (differ : (node, heap) ≠ (other, otherHeap))
    (freed : heapFree w.state (other + payloadOffset) = .ok s) :
    ∃ w', Served w (.free (other + payloadOffset)) w' ∧ w'.state = s ∧
      capacity s.mem (node + payloadOffset) = capacity w.state.mem (node + payloadOffset) := by
  rcases laid.free_confined otherHeld with ⟨_, caught⟩ | ⟨after, done, _, spares⟩
  · rw [caught] at freed
    cases freed
  · rw [done] at freed
    injection freed with same
    subst same
    have stepped : w.step (.free (other + payloadOffset)) =
        .ok ⟨after, w.heaps, w.live.filter fun entry =>
          entry.1 + payloadOffset ≠ other + payloadOffset⟩ := by
      simp only [World.step, done]
    refine ⟨_, ⟨⟨⟨_, otherHeld, rfl⟩, stepped⟩, trivial⟩, rfl, ?_⟩
    have large := laid.live_size held
    have header : nodeSize after.mem node = nodeSize w.state.mem node := by
      apply load32_congr
      intro x low high
      exact spares (node, heap) held differ x low (by simp only at large ⊢; omega)
    simp only [capacity, Nat.add_sub_cancel, header]

theorem realloc_run {home : Nat × Nat} {ptr n ret : Nat} {s : HeapState} (tidy : Tidy w)
    (member : home ∈ w.heaps) (kernel : resolve w.state 0 = home.1) (proper : Proper n)
    (old : ptr = 0 ∨ ∃ entry ∈ w.live, ptr = entry.1 + payloadOffset)
    (done : realloc w.state ptr n = .ok (ret, s)) (some : ret ≠ 0) :
    ∃ w', RunOf Served (fun _ => True) w w' ∧ w'.state = s ∧ n ≤ capacity s.mem ret := by
  obtain ⟨⟨new, mid⟩, given, finish⟩ := Outcome.bind_ok done
  by_cases null : ptr = 0
  · rw [if_neg (by simpa using null)] at finish
    injection finish with same
    obtain ⟨rfl, rfl⟩ := Prod.mk.inj same
    obtain ⟨node, w', rfl, served, rfl, _, room, _⟩ :=
      tidy.alloc_block member kernel proper given some
    refine ⟨w', RunOf.single served trivial, rfl, ?_⟩
    simp only [capacity, Nat.add_sub_cancel]
    omega
  · obtain ⟨⟨oldNode, oldHeap⟩, oldHeld, rfl⟩ := old.resolve_left null
    rw [if_pos null] at finish
    obtain ⟨last, freed, finish⟩ := Outcome.bind_ok finish
    injection finish with same
    obtain ⟨rfl, rfl⟩ := Prod.mk.inj same
    obtain ⟨node, w', rfl, served, rfl, live, room, fresh⟩ :=
      tidy.alloc_block member kernel proper given some
    have laid := (tidy.served served).laid
    have held : (node, home.1) ∈ w'.live := by
      rw [live]
      exact List.mem_cons_self
    have below := laid.live_below held
    simp only at below
    have copied := (RunOf.single served trivial).trans (storeLoop_run laid held
      (fun m i => m (u32 (oldNode + payloadOffset + i))) room)
    generalize memory : storeLoop (node + payloadOffset)
      (fun m i => m (u32 (oldNode + payloadOffset + i))) n w'.state.mem = m' at copied
    have capacities : capacity m' (node + payloadOffset) =
        capacity w'.state.mem (node + payloadOffset) := by
      rw [← memory]
      exact storeLoop_capacity _ _ (by omega)
    have laid' := (tidy.run copied).laid
    have stillOld : (oldNode, oldHeap) ∈ (w'.after m' w'.live).live := by
      change (oldNode, oldHeap) ∈ w'.live
      rw [live]
      exact List.mem_cons_of_mem _ oldHeld
    have freed' : heapFree (w'.after m' w'.live).state (oldNode + payloadOffset) = .ok last := by
      rw [← freed, ← memory]
      rfl
    obtain ⟨final, step, ends, kept⟩ := laid'.free_capacity held stillOld
      (fun same => fresh _ oldHeld same.symm) freed'
    refine ⟨final, copied.trans (RunOf.single step trivial), ends, ?_⟩
    rw [kept]
    change n ≤ capacity m' (node + payloadOffset)
    rw [capacities, capacity, Nat.add_sub_cancel]
    omega

theorem Tidy.calloc_ample {home : Nat × Nat} {count size : Nat} (tidy : Tidy w)
    (member : home ∈ w.heaps) (kernel : resolve w.state 0 = home.1)
    (sized : Sized w home.1 (count * size)) :
    Ample w home.1 (count * size) (calloc w.state count size) := by
  constructor
  · intro ret s done some
    rcases Nat.eq_zero_or_pos (count * size) with zero | positive
    · rw [zero]
      exact Nat.zero_le _
    · obtain ⟨⟨ptr, mid⟩, given, finish⟩ := Outcome.bind_ok done
      injection finish with same
      have ret_eq : ptr = ret := (Prod.mk.inj same).1
      rw [← ret_eq] at some
      obtain ⟨_, proper⟩ := tidy.proper member kernel sized positive given some
      obtain ⟨_, _, _, room⟩ := calloc_run tidy member kernel proper done (by rwa [← ret_eq])
      exact room
  · intro none ret s done
    obtain ⟨⟨ptr, mid⟩, given, finish⟩ := Outcome.bind_ok done
    injection finish with same
    rw [← (Prod.mk.inj same).1]
    exact tidy.refuses member kernel sized none given

theorem Tidy.realloc_ample {home : Nat × Nat} {ptr n : Nat} (tidy : Tidy w)
    (member : home ∈ w.heaps) (kernel : resolve w.state 0 = home.1) (small : n < 2 ^ 32)
    (sized : Sized w home.1 n) (old : ptr = 0 ∨ ∃ entry ∈ w.live, ptr = entry.1 + payloadOffset) :
    Ample w home.1 n (realloc w.state ptr n) := by
  have same : u32 n = n := Nat.mod_eq_of_lt small
  -- Whatever is done with the old block, the pointer is that of the new one.
  have begins : ∀ ret s, realloc w.state ptr n = .ok (ret, s) →
      ∃ mid, heapAlloc w.state 0 (u32 n) = .ok (ret, mid) := by
    intro ret s done
    obtain ⟨⟨new, mid⟩, given, finish⟩ := Outcome.bind_ok done
    rw [same]
    split_ifs at finish
    · obtain ⟨last, _, finish⟩ := Outcome.bind_ok finish
      injection finish with pair
      rw [← (Prod.mk.inj pair).1]
      exact ⟨mid, given⟩
    · injection finish with pair
      rw [← (Prod.mk.inj pair).1]
      exact ⟨mid, given⟩
  constructor
  · intro ret s done some
    rcases Nat.eq_zero_or_pos n with rfl | positive
    · exact Nat.zero_le _
    · obtain ⟨mid, given⟩ := begins ret s done
      obtain ⟨_, proper⟩ := tidy.proper member kernel sized positive given some
      obtain ⟨_, _, _, room⟩ := realloc_run tidy member kernel proper old done some
      exact room
  · intro none ret s done
    obtain ⟨mid, given⟩ := begins ret s done
    exact tidy.refuses member kernel sized none given

/-- In every run whose requests fit, a block has the bytes that were asked for, if the node
size of the request does not wrap. -/
theorem capacity_real {ops : List Op} (run : Run Served (World.boot m) ops w) :
    (∀ hHeap n, (∃ entry ∈ w.heaps, entry.1 = resolve w.state hHeap) → n < 2 ^ 32 →
        Sized w (resolve w.state hHeap) n →
        Ample w (resolve w.state hHeap) n (heapAlloc w.state hHeap n)) ∧
      ((∃ entry ∈ w.heaps, entry.1 = w.state.hKernelHeap) →
        (∀ n, n < 2 ^ 32 → Sized w w.state.hKernelHeap n →
          Ample w w.state.hKernelHeap n (malloc w.state n) ∧
          ∀ ptr, (ptr = 0 ∨ ∃ entry ∈ w.live, ptr = entry.1 + payloadOffset) →
            Ample w w.state.hKernelHeap n (realloc w.state ptr n)) ∧
        ∀ count size, count < 2 ^ 32 → size < 2 ^ 32 → Sized w w.state.hKernelHeap (count * size) →
          Ample w w.state.hKernelHeap (count * size) (calloc w.state count size)) := by
  have tidy := served_tidy run
  have single : ∀ hHeap n, (∃ entry ∈ w.heaps, entry.1 = resolve w.state hHeap) → n < 2 ^ 32 →
      Sized w (resolve w.state hHeap) n →
      Ample w (resolve w.state hHeap) n (heapAlloc w.state hHeap n) := by
    rintro hHeap n ⟨home, member, handle⟩ small sized
    have same : u32 n = n := Nat.mod_eq_of_lt small
    rw [← handle] at sized ⊢
    have ample := tidy.heapAlloc_ample member handle.symm sized
    rwa [same] at ample
  refine ⟨single, ?_⟩
  rintro ⟨home, member, handle⟩
  have kernel : resolve w.state 0 = home.1 := by rw [handle]; rfl
  constructor
  · intro n small sized
    refine ⟨single 0 n ⟨home, member, handle⟩ small sized, ?_⟩
    intro ptr old
    rw [← handle] at sized ⊢
    exact tidy.realloc_ample member kernel small sized old
  · intro count size _ _ sized
    rw [← handle] at sized ⊢
    exact tidy.calloc_ample member kernel sized

def bootKernelHeap : List Op := [.create 128 4096, .setKernelHeap 4096]

theorem bootKernelHeap_run : ∃ w, Run Served (World.boot fun _ => 0) bootKernelHeap w ∧
    w.heaps = [(4096, 128)] ∧ w.state.hKernelHeap = 4096 :=
  ⟨_, Run.cons ⟨⟨⟨⟨by decide, by decide⟩, by simp [World.boot]⟩, rfl⟩, trivial⟩
    (Run.cons ⟨⟨trivial, rfl⟩, trivial⟩ (Run.nil _)), rfl, rfl⟩

/-- An array of five numbers. -/
theorem capacity_real_array :
    ∃ w, Run Served (World.boot fun _ => 0) bootKernelHeap w ∧
      Ample w 4096 20 (calloc w.state 5 4) := by
  obtain ⟨w, run, heaps, kernel⟩ := bootKernelHeap_run
  refine ⟨w, run, ?_⟩
  have ample := ((capacity_real run).2 ⟨(4096, 128), by simp [heaps], kernel.symm⟩).2 5 4
    (by decide) (by decide) (Or.inl (by decide))
  rwa [kernel] at ample

/-- The largest sizes, and a product that wraps, get a block without a payload. -/
theorem large_requests_cut :
    ∃ w s s', Run Call (World.boot fun _ => 0) bootKernelHeap w ∧
      malloc w.state (2 ^ 32 - 1) = .ok (4112, s) ∧ capacity s.mem 4112 = 0 ∧
      calloc w.state (2 ^ 16) (2 ^ 16) = .ok (4112, s') ∧ capacity s'.mem 4112 = 0 := by
  refine ⟨_, _, _, Run.cons ⟨⟨⟨by decide, by decide⟩, by simp [World.boot]⟩, rfl⟩
      (Run.cons ⟨trivial, rfl⟩ (Run.nil _)), rfl, ?_, rfl, ?_⟩
  · decide +kernel
  · decide +kernel

end SysImpl.Heap
