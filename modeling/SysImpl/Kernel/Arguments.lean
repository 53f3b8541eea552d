import SysImpl.Kernel.Syscall
import Mathlib.Data.Nat.Find

/-! The arguments of a program, from the array passed to `exec` to the `argv` of `main`.

The kernel copies the arguments out of user memory before it builds the new stack, and
cuts each copy to the 19 characters that `strlcpy` is given room for. The copies are laid
out in the runtime info block, and `start` in the user library reads them back. -/

namespace SysImpl.Kernel

open Bytes

def startLoop (m : Mem) (info : Nat) : Nat → Nat → List Nat
  | 0, _ => []
  | fuel + 1, argc =>
      let offset := load16 (seenFrom m info) (4 + 2 * argc)
      if offset ≠ 0xFFFF then u32 (info + 36 + offset) :: startLoop m info fuel (argc + 1) else []

/-- `start`, with its argument on the stack: `argc`, and `argv` with the null pointer. -/
def start (m : Mem) (esp : Nat) : Nat × List Nat :=
  let argv := startLoop m (loadWord m (esp + 4)) maxArguments 0
  (argv.length, argv ++ [0])

def stringsSize (args : List (List UInt8)) : Nat := (args.map fun arg => arg.length + 1).sum

/-- The number of arguments the runtime info block has room for. -/
def fittingArguments (args : List (List UInt8)) : Nat :=
  Nat.findGreatest (fun k => stringsSize (args.take k) ≤ infoBufferSize)
    (min maxArguments args.length)

/-- `start` finds as many arguments as there is room for, and each as it was passed. -/
structure RoundTrip (place : Placement) (pid : Pid) (args : List (List UInt8)) (m : Mem) :
    Prop where
  argc : (start (storeStack place pid args m) (startTss place pid 0).esp).1 = fittingArguments args
  argv : ∀ i < fittingArguments args,
    (start (storeStack place pid args m) (startTss place pid 0).esp).2[i]?.map
      (loadString (storeStack place pid args m)) = args[i]?
  null : (start (storeStack place pid args m)
    (startTss place pid 0).esp).2[fittingArguments args]? = some 0

/-- What the loop over the copies leaves in the block, seen from its start: an offset and a
string for each copy, and all else as it was. -/
structure Stored (before after : Mem) (i total : Nat) (copies : List (List UInt8)) : Prop where
  offset : ∀ j < copies.length,
    load16 after (4 + 2 * (i + j)) = total + stringsSize (copies.take j)
  bytes : ∀ j copy, copies[j]? = some copy → ∀ l ≤ copy.length,
    after (36 + total + stringsSize (copies.take j) + l) = (copy ++ [0])[l]?.getD 0
  frame : ∀ x < 2 ^ 32, (x < 4 + 2 * i ∨ 4 + 2 * (i + copies.length) ≤ x) →
    (x < 36 + total ∨ 36 + total + stringsSize copies ≤ x) → after x = before x

@[simp] theorem stringsSize_nil : stringsSize [] = 0 := rfl

@[simp] theorem stringsSize_cons (arg : List UInt8) (rest : List (List UInt8)) :
    stringsSize (arg :: rest) = arg.length + 1 + stringsSize rest := by
  simp [stringsSize]

theorem stringsSize_le {args : List (List UInt8)} {bound : Nat}
    (short : ∀ arg ∈ args, arg.length ≤ bound) :
    stringsSize args ≤ args.length * (bound + 1) := by
  induction args with
  | nil => simp
  | cons arg rest ih =>
      have first := short arg List.mem_cons_self
      have later := ih fun arg member => short arg (List.mem_cons_of_mem _ member)
      rw [stringsSize_cons, List.length_cons, Nat.succ_mul]
      omega

theorem stringsSize_take_le {args : List (List UInt8)} {j : Nat} {arg : List UInt8}
    (found : args[j]? = some arg) :
    stringsSize (args.take j) + arg.length + 1 ≤ stringsSize args := by
  induction args generalizing j with
  | nil => simp at found
  | cons first rest ih =>
      cases j with
      | zero =>
          rw [List.getElem?_cons_zero, Option.some.injEq] at found
          rw [List.take_zero, stringsSize_nil, stringsSize_cons, found]
          omega
      | succ j =>
          rw [List.getElem?_cons_succ] at found
          have later := ih found
          rw [List.take_succ_cons, stringsSize_cons, stringsSize_cons]
          omega

theorem load16_congr {m m' : Mem} {address : Nat} (low : m' address = m address)
    (high : m' (address + 1) = m (address + 1)) : load16 m' address = load16 m address := by
  rw [load16, load16, low, high]

theorem load16_bytes16 (m : Mem) (address value : Nat) (small : value < 2 ^ 16) :
    load16 (storeBytes m address (bytes16 value)) address = value := by
  have b0 := storeBytes_inside m address 0 (bytes16 value) (by simp [bytes16])
  have b1 := storeBytes_inside m address 1 (bytes16 value) (by simp [bytes16])
  simp only [bytes16, List.getElem_cons_zero, List.getElem_cons_succ, Nat.add_zero] at b0 b1
  unfold load16 bytes16
  rw [b0, b1]
  simp only [UInt8.toNat_ofNat']
  omega

theorem storeArgument_stored (info i total : Nat) (arg : List UInt8) (m : Mem)
    (few : i < maxArguments) (room : total + arg.length + 1 ≤ infoBufferSize) :
    Stored (seenFrom m info)
      (seenFrom (copyTo (copyTo m (u32 (info + 36 + total)) (arg ++ [0]))
        (u32 (info + 4 + 2 * i)) (bytes16 total)) info) i total [arg] := by
  simp only [maxArguments, infoBufferSize] at few room
  have size : (arg ++ [0]).length = arg.length + 1 := List.length_append
  have half : (bytes16 total).length = 2 := rfl
  have text : ∀ x < 2 ^ 32, seenFrom (copyTo m (u32 (info + 36 + total)) (arg ++ [0])) info x =
      storeBytes (seenFrom m info) (36 + total) (arg ++ [0]) x := by
    intro x small
    rw [Nat.add_assoc]
    exact seenFrom_copyTo m info (36 + total) x _ (by omega) small
  have entry : ∀ x < 2 ^ 32, seenFrom (copyTo (copyTo m (u32 (info + 36 + total)) (arg ++ [0]))
      (u32 (info + 4 + 2 * i)) (bytes16 total)) info x =
        storeBytes (seenFrom (copyTo m (u32 (info + 36 + total)) (arg ++ [0])) info) (4 + 2 * i)
          (bytes16 total) x := by
    intro x small
    rw [Nat.add_assoc info 4]
    exact seenFrom_copyTo _ info (4 + 2 * i) x _ (by omega) small
  refine ⟨?_, ?_, ?_⟩
  · intro j below
    have zero : j = 0 := by simpa using below
    subst zero
    rw [Nat.add_zero, load16_congr (entry _ (by omega)) (entry _ (by omega))]
    simpa using load16_bytes16 _ (4 + 2 * i) total (by omega)
  · intro j copy found l inside
    have zero : j = 0 := by
      by_contra positive
      rw [List.getElem?_eq_none (by simp; omega)] at found
      cases found
    subst zero
    rw [List.getElem?_cons_zero, Option.some.injEq] at found
    subst found
    have index : l < (arg ++ [0]).length := by omega
    simp only [List.take_zero, stringsSize_nil, Nat.add_zero]
    rw [entry _ (by omega),
      storeBytes_outside _ _ _ _ (by omega), text _ (by omega), storeBytes_inside _ _ _ _ index,
      List.getElem?_eq_getElem index, Option.getD_some]
  · intro x small table buffer
    simp only [List.length_singleton, stringsSize_cons, stringsSize_nil] at table buffer
    rw [entry x small, storeBytes_outside _ _ _ _ (by omega), text x small,
      storeBytes_outside _ _ _ _ (by omega)]

theorem storeArguments_stored (info : Nat) (copies : List (List UInt8)) (i total : Nat) (m : Mem)
    (few : i + copies.length ≤ maxArguments) (room : total + stringsSize copies ≤ infoBufferSize) :
    Stored (seenFrom m info) (seenFrom (storeArguments info i total copies m) info) i total
      copies := by
  induction copies generalizing i total m with
  | nil =>
      refine ⟨?_, ?_, ?_⟩
      · intro j below
        simp at below
      · intro j copy found
        simp at found
      · intro x _ _ _
        rfl
  | cons arg rest ih =>
      simp only [List.length_cons, stringsSize_cons] at few room
      have fits : total + arg.length + 1 ≤ infoBufferSize := by omega
      have first := storeArgument_stored info i total arg m (by omega) fits
      simp only [storeArguments, if_pos fits]
      generalize copyTo (copyTo m (u32 (info + 36 + total)) (arg ++ [0]))
        (u32 (info + 4 + 2 * i)) (bytes16 total) = stored at first
      have later := ih (i + 1) (total + arg.length + 1) stored (by omega) (by omega)
      simp only [maxArguments, infoBufferSize] at few room
      -- The first entry and string lie before what the later rounds write.
      refine ⟨?_, ?_, ?_⟩
      · intro j below
        cases j with
        | zero =>
            have kept := first.offset 0 (by simp)
            simp only [List.take_zero] at kept ⊢
            rw [← kept]
            apply load16_congr
            · exact later.frame _ (by omega) (by omega) (by omega)
            · exact later.frame _ (by omega) (by omega) (by omega)
        | succ j =>
            have here := later.offset j (by simpa using below)
            rw [List.take_succ_cons, stringsSize_cons]
            rw [show i + (j + 1) = i + 1 + j by omega, here]
            omega
      · intro j copy found l inside
        cases j with
        | zero =>
            rw [List.getElem?_cons_zero, Option.some.injEq] at found
            subst found
            rw [← first.bytes 0 arg rfl l inside]
            simp only [List.take_zero, stringsSize_nil, Nat.add_zero]
            exact later.frame _ (by omega) (by omega) (by omega)
        | succ j =>
            rw [List.getElem?_cons_succ] at found
            rw [← later.bytes j copy found l inside, List.take_succ_cons, stringsSize_cons]
            congr 1
            omega
      · intro x small table buffer
        simp only [List.length_cons, stringsSize_cons] at table buffer
        rw [later.frame x small (by omega) (by omega)]
        apply first.frame x small
        · simp only [List.length_singleton]
          omega
        · simp only [stringsSize_cons, stringsSize_nil]
          omega

def infoAddress (place : Placement) (pid : Pid) : Nat :=
  u32 (place.userStackTop pid + 2 ^ 32 - 528)

def argumentBlock (place : Placement) (pid : Pid) (args : List (List UInt8)) (m : Mem) : Mem :=
  storeArguments (infoAddress place pid) 0 0 (copyArguments args)
    (copyTo m (u32 (infoAddress place pid + 4)) (List.replicate 32 0xFF))

theorem copyTo_u32 (m : Mem) (address : Nat) (bytes : List UInt8) :
    copyTo m (u32 address) bytes = copyTo m address bytes := by
  have same : u32 (u32 address) = u32 address := Nat.mod_mod _ _
  funext x
  simp only [copyTo, same]

theorem storeStack_seen (place : Placement) (pid : Pid) (args : List (List UInt8)) (m : Mem)
    {x : Nat} (small : x < 2 ^ 32 - 4) :
    seenFrom (storeStack place pid args m) (infoAddress place pid) x =
      storeBytes (seenFrom (argumentBlock place pid args m) (infoAddress place pid)) 0
        (bytes32 (infoAddress place pid)) x := by
  have word : ∀ value, (bytes32 value).length = 4 := fun _ => rfl
  have last := seenFrom_copyTo
    (copyTo (argumentBlock place pid args m) (infoAddress place pid)
      (bytes32 (infoAddress place pid))) (infoAddress place pid) (2 ^ 32 - 4) x (bytes32 0)
    (by have four := word 0; omega) (by omega)
  rw [storeBytes_outside _ _ _ _ (by omega)] at last
  have pointer := seenFrom_copyTo (argumentBlock place pid args m) (infoAddress place pid) 0 x
    (bytes32 (infoAddress place pid)) (by rw [word]; omega) (by omega)
  rw [Nat.add_zero, copyTo_u32] at pointer
  rw [← pointer, ← last]
  have address : infoAddress place pid + 2 ^ 32 - 4 = infoAddress place pid + (2 ^ 32 - 4) := by
    omega
  rw [← address]
  rfl

theorem storeStack_pointer (place : Placement) (pid : Pid) (args : List (List UInt8)) (m : Mem) :
    loadWord (storeStack place pid args m) ((startTss place pid 0).esp + 4) =
      infoAddress place pid := by
  have bound : infoAddress place pid < 2 ^ 32 := Nat.mod_lt _ (by decide)
  have shift : ∀ j < 4, u32 ((startTss place pid 0).esp + 4 + j) =
      u32 (infoAddress place pid + j) := by
    intro j _
    simp only [startTss, infoAddress, u32]
    omega
  have seen : loadWord (storeStack place pid args m) ((startTss place pid 0).esp + 4) =
      load32 (seenFrom (storeStack place pid args m) (infoAddress place pid)) 0 := by
    simp only [loadWord, load32, seenFrom, Nat.zero_add, shift 1 (by decide), shift 2 (by decide),
      shift 3 (by decide)]
    rw [← shift 0 (by decide)]
  refine (seen.trans ?_).trans (load32_store32 (seenFrom (argumentBlock place pid args m)
    (infoAddress place pid)) 0 (infoAddress place pid) bound)
  apply load32_congr
  intro x _ high
  exact storeStack_seen place pid args m (by omega)

theorem copyArguments_length (args : List (List UInt8)) :
    (copyArguments args).length = min maxArguments args.length := by
  simp [copyArguments]

theorem copyArguments_fit (args : List (List UInt8)) :
    stringsSize (copyArguments args) ≤ infoBufferSize := by
  have short : ∀ copy ∈ copyArguments args, copy.length ≤ 19 := by
    intro copy member
    obtain ⟨arg, _, rfl⟩ := List.mem_map.mp member
    rw [List.length_take]
    exact Nat.min_le_left _ _
  have size := stringsSize_le short
  have few : (copyArguments args).length ≤ 16 := by
    rw [copyArguments_length]
    exact Nat.min_le_left _ _
  simp only [infoBufferSize]
  omega

theorem argumentBlock_stored (place : Placement) (pid : Pid) (args : List (List UInt8)) (m : Mem) :
    Stored (seenFrom (copyTo m (u32 (infoAddress place pid + 4)) (List.replicate 32 0xFF))
        (infoAddress place pid))
      (seenFrom (argumentBlock place pid args m) (infoAddress place pid)) 0 0
      (copyArguments args) := by
  apply storeArguments_stored
  · rw [copyArguments_length, Nat.zero_add]
    exact Nat.min_le_left _ _
  · rw [Nat.zero_add]
    exact copyArguments_fit args

theorem storeStack_stored (place : Placement) (pid : Pid) (args : List (List UInt8)) (m : Mem) :
    (∀ j < (copyArguments args).length,
      load16 (seenFrom (storeStack place pid args m) (infoAddress place pid)) (4 + 2 * j) =
        stringsSize ((copyArguments args).take j)) ∧
    (∀ j, (copyArguments args).length ≤ j → j < maxArguments →
      load16 (seenFrom (storeStack place pid args m) (infoAddress place pid)) (4 + 2 * j) =
        0xFFFF) ∧
    (∀ j copy, (copyArguments args)[j]? = some copy → ∀ l ≤ copy.length,
      seenFrom (storeStack place pid args m) (infoAddress place pid)
        (36 + stringsSize ((copyArguments args).take j) + l) = (copy ++ [0])[l]?.getD 0) := by
  have stored := argumentBlock_stored place pid args m
  have few : (copyArguments args).length ≤ 16 := by
    rw [copyArguments_length]
    exact Nat.min_le_left _ _
  have room := copyArguments_fit args
  simp only [infoBufferSize] at room
  have block : ∀ x, 4 ≤ x → x < 1024 →
      seenFrom (storeStack place pid args m) (infoAddress place pid) x =
        seenFrom (argumentBlock place pid args m) (infoAddress place pid) x := by
    intro x low high
    rw [storeStack_seen place pid args m (by omega)]
    exact storeBytes_outside _ _ _ _ (Or.inr (by rw [bytes32_length]; omega))
  refine ⟨?_, ?_, ?_⟩
  · intro j below
    rw [load16_congr (block _ (by omega) (by omega)) (block _ (by omega) (by omega))]
    have entry := stored.offset j below
    rwa [Nat.zero_add, Nat.zero_add] at entry
  · intro j above below
    simp only [maxArguments] at below
    have blank : ∀ x, 4 + 2 * j ≤ x → x < 6 + 2 * j →
        seenFrom (storeStack place pid args m) (infoAddress place pid) x = 0xFF := by
      intro x low high
      rw [block x (by omega) (by omega), stored.frame x (by omega) (by omega) (by omega),
        seenFrom_copyTo m (infoAddress place pid) 4 x _ (by rw [List.length_replicate]; omega)
          (by omega)]
      have filled := storeBytes_inside (seenFrom m (infoAddress place pid)) 4 (x - 4)
        (List.replicate 32 0xFF) (by rw [List.length_replicate]; omega)
      rw [List.getElem_replicate, Nat.add_sub_cancel' (by omega)] at filled
      exact filled
    rw [load16, blank _ (by omega) (by omega), blank _ (by omega) (by omega)]
    rfl
  · intro j copy found l inside
    have below : j < (copyArguments args).length := (List.getElem?_eq_some_iff.mp found).1
    have prior : stringsSize ((copyArguments args).take j) + copy.length + 1 ≤
        stringsSize (copyArguments args) := stringsSize_take_le found
    rw [block _ (by omega) (by omega)]
    have text := stored.bytes j copy found l inside
    rwa [Nat.add_zero] at text

theorem startLoop_spec (m : Mem) (info fuel argc : Nat) (offsets : List Nat)
    (entries : ∀ j offset, offsets[j]? = some offset →
      load16 (seenFrom m info) (4 + 2 * (argc + j)) = offset ∧ offset ≠ 0xFFFF)
    (few : offsets.length ≤ fuel)
    (ends : offsets.length < fuel →
      load16 (seenFrom m info) (4 + 2 * (argc + offsets.length)) = 0xFFFF) :
    startLoop m info fuel argc = offsets.map fun offset => u32 (info + 36 + offset) := by
  induction offsets generalizing fuel argc with
  | nil =>
      cases fuel with
      | zero => rfl
      | succ fuel =>
          have stop := ends (Nat.succ_pos fuel)
          rw [List.length_nil, Nat.add_zero] at stop
          simp [startLoop, stop]
  | cons offset rest ih =>
      cases fuel with
      | zero => simp at few
      | succ fuel =>
          obtain ⟨entry, valid⟩ := entries 0 offset rfl
          rw [Nat.add_zero] at entry
          have later : startLoop m info fuel (argc + 1) =
              rest.map fun offset => u32 (info + 36 + offset) := by
            apply ih
            · intro j next found
              have there := entries (j + 1) next found
              rwa [show argc + (j + 1) = argc + 1 + j by omega] at there
            · simpa using few
            · intro less
              have stop := ends (by simpa using less)
              rwa [List.length_cons,
                show argc + (rest.length + 1) = argc + 1 + rest.length by omega] at stop
          simp only [startLoop, entry, if_pos valid, later, List.map_cons]

theorem stringFrom_spec (m : Mem) (fuel address : Nat) (text : List UInt8)
    (strings : 0 ∉ text) (room : text.length < fuel)
    (bytes : ∀ l ≤ text.length, m (u32 (address + l)) = (text ++ [0])[l]?.getD 0) :
    stringFrom fuel m address = text := by
  induction text generalizing fuel address with
  | nil =>
      cases fuel with
      | zero => simp at room
      | succ fuel =>
          have first := bytes 0 (Nat.le_refl _)
          simp only [Nat.add_zero, List.nil_append, List.getElem?_cons_zero,
            Option.getD_some] at first
          simp only [stringFrom, first, if_true]
  | cons ch rest ih =>
      cases fuel with
      | zero => simp at room
      | succ fuel =>
          have first := bytes 0 (Nat.zero_le _)
          simp only [Nat.add_zero, List.cons_append, List.getElem?_cons_zero,
            Option.getD_some] at first
          have nonzero : ch ≠ 0 := by
            intro zero
            exact strings (by rw [zero]; exact List.mem_cons_self)
          have later : stringFrom fuel m (address + 1) = rest := by
            apply ih
            · exact fun member => strings (List.mem_cons_of_mem _ member)
            · simpa using room
            · intro l inside
              have next := bytes (l + 1) (by simpa using inside)
              rwa [List.cons_append, List.getElem?_cons_succ,
                show address + (l + 1) = address + 1 + l by omega] at next
          simp only [stringFrom, first, if_neg nonzero, later]

theorem loadString_spec (m : Mem) (address : Nat) {text : List UInt8} (strings : 0 ∉ text)
    (room : text.length < 2 ^ 32)
    (bytes : ∀ l ≤ text.length, m (u32 (address + l)) = (text ++ [0])[l]?.getD 0) :
    loadString m address = text := by
  rw [loadString]
  exact stringFrom_spec m _ address text strings room bytes

def copyOffsets (args : List (List UInt8)) : List Nat :=
  (List.range (copyArguments args).length).map fun j => stringsSize ((copyArguments args).take j)

theorem copyOffsets_entry {args : List (List UInt8)} {j offset : Nat}
    (found : (copyOffsets args)[j]? = some offset) :
    ∃ copy, (copyArguments args)[j]? = some copy ∧
      offset = stringsSize ((copyArguments args).take j) := by
  have below : j < (copyArguments args).length := by
    simpa [copyOffsets] using (List.getElem?_eq_some_iff.mp found).1
  refine ⟨_, List.getElem?_eq_getElem below, ?_⟩
  simpa [copyOffsets, below] using found.symm

theorem start_spec (place : Placement) (pid : Pid) (args : List (List UInt8)) (m : Mem)
    (strings : ∀ arg ∈ args, 0 ∉ arg) :
    ∃ pointers, start (storeStack place pid args m) (startTss place pid 0).esp =
        (pointers.length, pointers ++ [0]) ∧
      pointers.map (loadString (storeStack place pid args m)) = copyArguments args := by
  obtain ⟨entries, ends, bytes⟩ := storeStack_stored place pid args m
  have count : (copyArguments args).length ≤ maxArguments := by
    rw [copyArguments_length]
    exact Nat.min_le_left _ _
  have room := copyArguments_fit args
  simp only [infoBufferSize] at room
  have length : (copyOffsets args).length = (copyArguments args).length := by simp [copyOffsets]
  have looped : startLoop (storeStack place pid args m) (infoAddress place pid) maxArguments 0 =
      (copyOffsets args).map fun offset => u32 (infoAddress place pid + 36 + offset) := by
    apply startLoop_spec
    · intro j offset found
      obtain ⟨copy, here, rfl⟩ := copyOffsets_entry found
      have prior := stringsSize_take_le here
      rw [Nat.zero_add]
      exact ⟨entries j (List.getElem?_eq_some_iff.mp here).1, by omega⟩
    · rw [length]
      exact count
    · intro less
      rw [length] at less ⊢
      rw [Nat.zero_add]
      exact ends _ (Nat.le_refl _) less
  refine ⟨(copyOffsets args).map fun offset => u32 (infoAddress place pid + 36 + offset), ?_, ?_⟩
  · simp only [start, storeStack_pointer, looped]
  · rw [List.map_map]
    apply List.ext_getElem?
    intro j
    rw [List.getElem?_map]
    cases found : (copyOffsets args)[j]? with
    | none =>
        rw [List.getElem?_eq_none_iff, length, ← List.getElem?_eq_none_iff] at found
        rw [found, Option.map_none]
    | some offset =>
        obtain ⟨copy, here, rfl⟩ := copyOffsets_entry found
        have nonzero : 0 ∉ copy := by
          obtain ⟨arg, member, rfl⟩ := List.mem_map.mp (List.mem_of_getElem? here)
          intro zero
          exact strings arg (List.mem_of_mem_take member) (List.mem_of_mem_take zero)
        have prior := stringsSize_take_le here
        rw [here, Option.map_some, Option.some.injEq, Function.comp_apply]
        have small : copy.length < 2 ^ 32 := by omega
        apply loadString_spec (storeStack place pid args m) _ nonzero small
        intro l inside
        rw [← bytes j copy here l inside, seenFrom]
        apply congrArg (storeStack place pid args m)
        simp only [u32]
        omega

theorem copyArguments_get (args : List (List UInt8)) {i : Nat} (few : i < maxArguments) :
    (copyArguments args)[i]? = args[i]?.map (List.take 19) := by
  rw [copyArguments, List.getElem?_map, List.getElem?_take_of_lt few]

theorem fittingArguments_short {args : List (List UInt8)}
    (short : ∀ arg ∈ args.take maxArguments, arg.length ≤ 19) :
    fittingArguments args = min maxArguments args.length := by
  apply Nat.le_antisymm (Nat.findGreatest_le _)
  apply Nat.le_findGreatest (Nat.le_refl _)
  have few : args.take (min maxArguments args.length) = args.take maxArguments := by
    rw [← List.take_take, List.take_length]
  have size := stringsSize_le short
  have count : (args.take maxArguments).length ≤ 16 := by
    rw [List.length_take]
    exact Nat.min_le_left _ _
  rw [few]
  simp only [infoBufferSize]
  omega

theorem start_text {place : Placement} {pid : Pid} {args : List (List UInt8)} {m : Mem}
    {pointers : List Nat}
    (copies : pointers.map (loadString (storeStack place pid args m)) = copyArguments args)
    {i : Nat} (below : i < pointers.length) :
    (pointers ++ [0])[i]?.map (loadString (storeStack place pid args m)) =
      args[i]?.map (List.take 19) := by
  have length : pointers.length = min maxArguments args.length := by
    rw [← copyArguments_length, ← copies, List.length_map]
  rw [List.getElem?_append_left below, ← List.getElem?_map, copies]
  exact copyArguments_get args (by omega)

theorem RoundTrip.short {place : Placement} {pid : Pid} {m : Mem} {args : List (List UInt8)}
    (trip : RoundTrip place pid args m) (strings : ∀ arg ∈ args, 0 ∉ arg) :
    ∀ arg ∈ args.take maxArguments, arg.length ≤ 19 := by
  obtain ⟨pointers, started, copies⟩ := start_spec place pid args m strings
  have length : pointers.length = min maxArguments args.length := by
    rw [← copyArguments_length, ← copies, List.length_map]
  intro arg member
  obtain ⟨i, found⟩ := List.mem_iff_getElem?.mp member
  have below := (List.getElem?_eq_some_iff.mp found).1
  rw [List.length_take] at below
  have few : i < maxArguments := by omega
  rw [List.getElem?_take_of_lt few] at found
  have argc := trip.argc
  have argv := trip.argv i (by rw [← argc, started]; omega)
  rw [started] at argv
  rw [start_text copies (by omega), found, Option.map_some, Option.some.injEq] at argv
  rw [← argv, List.length_take]
  exact Nat.min_le_left _ _

/-- The arguments reach `main` as they were passed to `exec` when none of the first sixteen is
longer than 19 characters, and only then. -/
theorem arguments_round_trip_iff (place : Placement) (pid : Pid) (m : Mem)
    {args : List (List UInt8)} (strings : ∀ arg ∈ args, 0 ∉ arg) :
    RoundTrip place pid args m ↔ ∀ arg ∈ args.take maxArguments, arg.length ≤ 19 := by
  constructor
  · intro trip
    exact trip.short strings
  · intro short
    obtain ⟨pointers, started, copies⟩ := start_spec place pid args m strings
    have length : pointers.length = min maxArguments args.length := by
      rw [← copyArguments_length, ← copies, List.length_map]
    have fitting := fittingArguments_short short
    refine ⟨?_, ?_, ?_⟩
    · rw [started, fitting, length]
    · intro i below
      rw [started]
      rw [fitting, ← length] at below
      rw [start_text copies below]
      cases found : args[i]? with
      | none => rfl
      | some arg =>
          have few : i < maxArguments := by omega
          have bound := short arg (List.mem_iff_getElem?.mpr
            ⟨i, (List.getElem?_take_of_lt few).trans found⟩)
          rw [Option.map_some, List.take_of_length_le bound]
    · rw [started, fitting, ← length]
      simp

/-- Two short arguments. -/
theorem arguments_round_trip_iff_short :
    RoundTrip ⟨0x7000000, 0x500000⟩ 1 [[99, 97, 116], [97]] (fun _ => 0) :=
  (arguments_round_trip_iff _ _ _ (by decide)).mpr (by decide)

/-- An argument of 20 characters is cut to 19. -/
theorem long_argument_cut :
    ¬ ∀ place pid m, ∀ args : List (List UInt8), (∀ arg ∈ args, 0 ∉ arg) →
      RoundTrip place pid args m := by
  intro claim
  have trip := claim ⟨0x7000000, 0x500000⟩ 1 (fun _ => 0) [List.replicate 20 97] (by decide)
  have short := trip.short (by decide) (List.replicate 20 97) (by decide)
  exact absurd short (by decide)

end SysImpl.Kernel
