import SysImpl.Lib.Bytes

/-! The kernel heap of `heap.c`, over byte-addressed memory.

A `HeapNode` is `size` at offset 0, `free` at offset 4 and, overlaying the payload,
`next` at offset 8. A `HeapInfo` is `heapSize` at offset 0 and `firstAvail` at
offset 4. Pointers and `uintptr_t` values are numbers below `2 ^ 32`; every sum the
source computes on them is taken modulo `2 ^ 32`. -/

namespace SysImpl.Heap

open Bytes

def availMagic : Nat := 0xAA55AA55

def payloadOffset : Nat := 8

def minNodeSize : Nat := 12 + 4

def alignCeil (p a : Nat) : Nat := u32 (p + a - 1) / a * a

def nodeSize (m : Mem) (node : Nat) : Nat := load32 m node
def nodeFree (m : Mem) (node : Nat) : Nat := load32 m (node + 4)
def nodeNext (m : Mem) (node : Nat) : Nat := load32 m (node + 8)
def firstAvail (m : Mem) (heap : Nat) : Nat := load32 m (heap + 4)

structure HeapState where
  mem : Mem
  hKernelHeap : Nat

inductive Panic where
  | unexpectedMagic
  | outOfHeapMemory
  | doubleFree
  deriving DecidableEq, Repr

/-- A call returns, panics, or follows a cyclic list for ever. -/
inductive Outcome (α : Type) where
  | ok (result : α)
  | panic (reason : Panic)
  | hang
  deriving Repr

def firstNode (heapMem : Nat) : Nat := alignCeil (u32 (heapMem + 8)) 8

def heapInitialize (s : HeapState) (size heapMem : Nat) : Nat × HeapState :=
  let first := firstNode heapMem
  let m := store32 s.mem heapMem size
  let m := store32 m (heapMem + 4) first
  let m := store32 m first (u32 (heapMem + size + 2 ^ 32 - first))
  let m := store32 m (first + 4) availMagic
  let m := store32 m (first + 8) 0
  (heapMem, { s with mem := m })

/-- The split of `HeapAlloc`: the next free node and the memory after it. -/
def splitNode (m : Mem) (now size : Nat) : Nat × Mem :=
  if minNodeSize ≤ nodeSize m now - size then
    let newnode := u32 (now + size)
    let m1 := store32 m newnode (nodeSize m now - size)
    let m2 := store32 m1 (newnode + 8) (nodeNext m1 now)
    let m3 := store32 m2 (newnode + 4) availMagic
    (newnode, store32 m3 now size)
  else (nodeNext m now, m)

/-- Store a list pointer where the walk stands: in `prev->next`, or in `firstAvail`. -/
def setLink (m : Mem) (heap prev value : Nat) : Mem :=
  if prev ≠ 0 then store32 m (prev + 8) value else store32 m (heap + 4) value

/-- The loop of `HeapAlloc`. The walk changes no memory before it returns, so among
`2 ^ 32` addresses it ends within that many steps or never. -/
def allocLoop (heap size : Nat) : Nat → Nat → Nat → Mem → Outcome (Option Nat × Mem)
  | 0, _, _, _ => .hang
  | fuel + 1, now, prev, m =>
      if now = 0 then .ok (none, m)
      else if nodeFree m now ≠ availMagic then .panic .unexpectedMagic
      else if size ≤ nodeSize m now then
        let (next, m) := splitNode m now size
        let m := setLink m heap prev next
        .ok (some (now + payloadOffset), store32 m (now + 4) heap)
      else allocLoop heap size fuel (nodeNext m now) now m

/-- The handle a request is served from: the kernel heap for a null handle. -/
def resolve (s : HeapState) (hHeap : Nat) : Nat := if hHeap = 0 then s.hKernelHeap else hHeap

def requestSize (size : Nat) : Nat := u32 (alignCeil size 8 + payloadOffset)

def heapAlloc (s : HeapState) (hHeap size : Nat) : Outcome (Nat × HeapState) :=
  let heap := resolve s hHeap
  match allocLoop heap (requestSize size) (2 ^ 32) (firstAvail s.mem heap) 0 s.mem with
  | .ok (some ptr, m) => .ok (ptr, { s with mem := m })
  | .ok (none, m) =>
      if heap = s.hKernelHeap then .panic .outOfHeapMemory else .ok (0, { s with mem := m })
  | .panic reason => .panic reason
  | .hang => .hang

def mergePrev (m : Mem) (prev node : Nat) : Nat × Mem :=
  if prev ≠ 0 ∧ u32 (prev + nodeSize m prev) = node then
    let m := store32 m prev (u32 (nodeSize m prev + nodeSize m node))
    (prev, store32 m (prev + 8) (nodeNext m node))
  else (node, m)

def mergeNext (m : Mem) (node now : Nat) : Mem :=
  if u32 (node + nodeSize m node) = now then
    let m := store32 m (node + 8) (nodeNext m now)
    store32 m node (u32 (nodeSize m node + nodeSize m now))
  else m

/-- The body of the loop of `HeapFree` once the place is found: link the node in
between `prev` and `now`, then merge it with either if they touch. -/
def insertNode (m : Mem) (heap node now prev : Nat) : Mem :=
  let m := store32 m (node + 8) now
  let m := setLink m heap prev node
  let (node, m) := mergePrev m prev node
  mergeNext m node now

/-- The loop of `HeapFree`. Its condition `now || ppnow` first fails after an iteration
with a null `now`, and that iteration returns. -/
def freeLoop (heap node : Nat) : Nat → Nat → Nat → Mem → Outcome Mem
  | 0, _, _, _ => .hang
  | fuel + 1, now, prev, m =>
      if now = 0 ∨ node < now then .ok (insertNode m heap node now prev)
      else freeLoop heap node fuel (nodeNext m now) now m

def heapFree (s : HeapState) (mem : Nat) : Outcome HeapState :=
  let node := u32 (mem + 2 ^ 32 - payloadOffset)
  if nodeFree s.mem node = availMagic then .panic .doubleFree
  else
    let heap := nodeFree s.mem node
    let m := store32 s.mem (node + 4) availMagic
    match freeLoop heap node (2 ^ 32) (firstAvail m heap) 0 m with
    | .ok m => .ok { s with mem := m }
    | .panic reason => .panic reason
    | .hang => .hang

def getKernelHeap (s : HeapState) : Nat := s.hKernelHeap

def setKernelHeap (s : HeapState) (heap : Nat) : Nat × HeapState :=
  (s.hKernelHeap, { s with hKernelHeap := heap })

end SysImpl.Heap
