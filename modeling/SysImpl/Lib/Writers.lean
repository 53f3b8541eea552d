import SysImpl.Lib.Bytes

/-! A writer with a bounded buffer that counts past its end.

The writer has a pointer and a count of all the characters it was given. Only the
characters that fit are stored, and the pointer follows the count as long as they do. -/

namespace SysImpl.Writers

open SysImpl.Bytes

/-- The memory, the write pointer and the count of characters. -/
structure Writer where
  mem : Mem
  q : Nat
  o : Nat

/-- A character is stored if it fits, and counted in any case. -/
def Writer.put (n : Nat) (x : UInt8) (w : Writer) : Writer :=
  if w.o < n then
    { mem := Function.update w.mem w.q x, q := u32 (w.q + 1), o := u32 (w.o + 1) }
  else
    { w with o := u32 (w.o + 1) }

def Writer.putBack (n : Nat) (x : UInt8) (w : Writer) : Writer :=
  let q := u32 (w.q + (2 ^ 32 - 1))
  let o := u32 (w.o + (2 ^ 32 - 1))
  { mem := if o < n then Function.update w.mem q x else w.mem, q, o }

/-- The writer has been given a text for a buffer: the buffer holds what fits of it, and
nothing else of the memory has changed. -/
structure Wrote (m : Mem) (buffer n : Nat) (text : List UInt8) (w : Writer) : Prop where
  mem : w.mem = storeBytes m buffer (text.take n)
  count : w.o = text.length
  place : text.length ≤ n → w.q = u32 (buffer + text.length)
  word : w.q < 2 ^ 32

/-- A writer on its way back to the end of `text`: `left` places are still to be filled
before `done`. -/
structure Filling (m : Mem) (buffer n : Nat) (text : List UInt8) (left : Nat)
    (done : List UInt8) (w : Writer) : Prop where
  mem : w.mem = storeBytes (storeBytes m buffer (text.take n)) (buffer + text.length + left)
    (done.take (n - (text.length + left)))
  count : w.o = text.length + left
  place : text.length ≤ n → w.q = u32 (buffer + text.length + left)

variable {m : Mem} {buffer n left : Nat} {text more done : List UInt8} {x : UInt8} {w : Writer}

theorem storeBytes_nil (m : Mem) (address : Nat) : storeBytes m address [] = m := by
  funext a
  simp [storeBytes]

theorem storeBytes_single (m : Mem) (address : Nat) (x : UInt8) :
    storeBytes m address [x] = Function.update m address x := by
  funext a
  by_cases here : a = address
  · subst here
    simp [storeBytes]
  · rw [Function.update_of_ne here]
    exact storeBytes_outside m address a [x] (by simp only [List.length_singleton]; omega)

theorem storeBytes_append (m : Mem) (address : Nat) (first second : List UInt8) :
    storeBytes m address (first ++ second) =
      storeBytes (storeBytes m address first) (address + first.length) second := by
  funext a
  by_cases low : a < address + first.length
  · rw [storeBytes_outside (storeBytes m address first) _ a second (Or.inl low)]
    by_cases before : a < address
    · rw [storeBytes_outside _ _ _ _ (Or.inl before), storeBytes_outside _ _ _ _ (Or.inl before)]
    · have inside : a - address < first.length := by omega
      simp only [storeBytes, show address ≤ a by omega, if_true]
      rw [List.getElem?_append_left inside]
  · have past : first.length ≤ a - address := by omega
    rw [storeBytes, storeBytes, if_pos (by omega), if_pos (by omega),
      List.getElem?_append_right past, storeBytes_outside m address a first (Or.inr (by omega)),
      Nat.sub_sub]

/-- Filling in place by place from the end stores the same bytes as going forward. -/
theorem storeBytes_cons (m : Mem) (address : Nat) (x : UInt8) (rest : List UInt8) :
    storeBytes m address (x :: rest) =
      Function.update (storeBytes m (address + 1) rest) address x := by
  funext a
  by_cases here : a = address
  · subst here
    simp [storeBytes]
  · rw [Function.update_of_ne here]
    by_cases before : a < address
    · rw [storeBytes_outside _ _ _ _ (Or.inl before),
        storeBytes_outside _ _ _ _ (Or.inl (by omega))]
    · obtain ⟨i, rfl⟩ : ∃ i, a = address + 1 + i := ⟨a - (address + 1), by omega⟩
      simp only [storeBytes, show address ≤ address + 1 + i by omega,
        show address + 1 ≤ address + 1 + i by omega, if_true,
        show address + 1 + i - address = i + 1 by omega,
        show address + 1 + i - (address + 1) = i by omega, List.getElem?_cons_succ]

theorem Wrote.start (m : Mem) (buffer n : Nat) (word : buffer < 2 ^ 32) :
    Wrote m buffer n [] ⟨m, buffer, 0⟩ where
  mem := by rw [List.take_nil, storeBytes_nil]
  count := rfl
  place := fun _ => by simp only [u32, List.length_nil]; omega
  word := word

theorem Wrote.put (wrote : Wrote m buffer n text w) (x : UInt8) (fits : buffer + n ≤ 2 ^ 32)
    (short : text.length + 1 < 2 ^ 32) : Wrote m buffer n (text ++ [x]) (w.put n x) := by
  have counted : u32 (w.o + 1) = (text ++ [x]).length := by
    rw [wrote.count, List.length_append, List.length_singleton]
    exact Nat.mod_eq_of_lt short
  by_cases room : text.length < n
  · have place : w.q = buffer + text.length := by
      rw [wrote.place (by omega)]
      exact Nat.mod_eq_of_lt (by omega)
    have taken : w.put n x =
        { mem := Function.update w.mem w.q x, q := u32 (w.q + 1), o := u32 (w.o + 1) } := by
      rw [Writer.put, if_pos (by rwa [wrote.count])]
    rw [taken]
    refine ⟨?_, counted, ?_, Nat.mod_lt _ (by decide)⟩
    · show Function.update w.mem w.q x = _
      rw [wrote.mem, place, List.take_of_length_le (Nat.le_of_lt room),
        List.take_of_length_le (by simp only [List.length_append, List.length_singleton]; omega),
        storeBytes_append, storeBytes_single]
    · intro _
      show u32 (w.q + 1) = _
      rw [place, List.length_append, List.length_singleton, Nat.add_assoc]
  · have kept : w.put n x = { w with o := u32 (w.o + 1) } := by
      rw [Writer.put, if_neg (by rwa [wrote.count])]
    rw [kept]
    refine ⟨?_, counted, ?_, wrote.word⟩
    · show w.mem = _
      rw [wrote.mem, List.take_append_of_le_length (by omega)]
    · intro within
      simp only [List.length_append, List.length_singleton] at within
      omega

def Writer.puts (n : Nat) (xs : List UInt8) (w : Writer) : Writer :=
  xs.foldl (fun w x => w.put n x) w

@[simp] theorem Writer.puts_nil (n : Nat) (w : Writer) : w.puts n [] = w := rfl

@[simp] theorem Writer.puts_cons (n : Nat) (x : UInt8) (xs : List UInt8) (w : Writer) :
    w.puts n (x :: xs) = (w.put n x).puts n xs := rfl

theorem Wrote.puts (wrote : Wrote m buffer n text w) (more : List UInt8)
    (fits : buffer + n ≤ 2 ^ 32) (short : text.length + more.length < 2 ^ 32) :
    Wrote m buffer n (text ++ more) (w.puts n more) := by
  induction more generalizing text w with
  | nil => simpa using wrote
  | cons x rest ih =>
    simp only [List.length_cons] at short
    have next := wrote.put x fits (by omega)
    have all := ih next (by simp only [List.length_append, List.length_singleton]; omega)
    simpa only [List.append_assoc, List.singleton_append, Writer.puts_cons] using all

theorem Wrote.skip (wrote : Wrote m buffer n text w) (left : Nat)
    (short : text.length + left < 2 ^ 32) :
    Filling m buffer n text left [] { w with q := u32 (w.q + left), o := u32 (w.o + left) } where
  mem := by rw [List.take_nil, storeBytes_nil, wrote.mem]
  count := by
    show u32 (w.o + left) = _
    rw [wrote.count]
    exact Nat.mod_eq_of_lt short
  place := fun within => by
    show u32 (w.q + left) = _
    rw [wrote.place within]
    simp only [u32]
    omega

theorem Filling.putBack (filling : Filling m buffer n text (left + 1) done w) (x : UInt8)
    (fits : buffer + n ≤ 2 ^ 32) (short : text.length + left + 1 < 2 ^ 32) :
    Filling m buffer n text left (x :: done) (w.putBack n x) := by
  have counted : u32 (w.o + (2 ^ 32 - 1)) = text.length + left := by
    rw [filling.count]
    simp only [u32]
    omega
  have placed : text.length ≤ n →
      u32 (w.q + (2 ^ 32 - 1)) = u32 (buffer + text.length + left) := by
    intro within
    rw [filling.place within]
    simp only [u32]
    omega
  refine ⟨?_, counted, placed⟩
  show (if u32 (w.o + (2 ^ 32 - 1)) < n then
    Function.update w.mem (u32 (w.q + (2 ^ 32 - 1))) x else w.mem) = _
  rw [counted]
  by_cases room : text.length + left < n
  · have place : u32 (w.q + (2 ^ 32 - 1)) = buffer + text.length + left := by
      rw [placed (by omega)]
      exact Nat.mod_eq_of_lt (by omega)
    obtain ⟨k, count⟩ : ∃ k, n - (text.length + left) = k + 1 :=
      ⟨n - (text.length + left) - 1, by omega⟩
    rw [if_pos room, place, filling.mem, count, List.take_succ_cons, storeBytes_cons,
      show n - (text.length + (left + 1)) = k by omega,
      show buffer + text.length + (left + 1) = buffer + text.length + left + 1 by omega]
  · rw [if_neg room, filling.mem, show n - (text.length + (left + 1)) = 0 by omega,
      show n - (text.length + left) = 0 by omega, List.take_zero, List.take_zero,
      storeBytes_nil, storeBytes_nil]

/-- Once every place is filled in, the number is there as if it had been written forward. -/
theorem Filling.finish (filling : Filling m buffer n text 0 done w) (q o : Nat)
    (place : text.length + done.length ≤ n → q = u32 (buffer + text.length + done.length))
    (count : o = text.length + done.length) (word : q < 2 ^ 32) :
    Wrote m buffer n (text ++ done) ⟨w.mem, q, o⟩ where
  mem := by
    show w.mem = _
    rw [filling.mem, List.take_append]
    by_cases room : text.length ≤ n
    · rw [storeBytes_append, List.take_of_length_le room, Nat.add_zero, Nat.add_zero]
    · rw [show n - (text.length + 0) = 0 by omega, show n - text.length = 0 by omega,
        List.take_zero, List.append_nil, storeBytes_nil]
  count := by rw [List.length_append, count]
  place := fun within => by
    rw [List.length_append] at within ⊢
    rw [place within, Nat.add_assoc]
  word := word

theorem Wrote.store (wrote : Wrote m buffer n text w) (address : Nat) (bytes : List UInt8)
    (apart : address + bytes.length ≤ buffer ∨ buffer + n ≤ address) :
    Wrote (storeBytes m address bytes) buffer n text
      { w with mem := storeBytes w.mem address bytes } where
  mem := by
    show storeBytes w.mem address bytes = _
    rw [wrote.mem]
    funext x
    have taken : (text.take n).length ≤ n := List.length_take_le n text
    by_cases inside : buffer ≤ x ∧ x < buffer + (text.take n).length
    · rw [storeBytes_outside _ address x bytes (by omega)]
      obtain ⟨i, rfl⟩ : ∃ i, x = buffer + i := ⟨x - buffer, by omega⟩
      rw [storeBytes_inside _ _ _ _ (by omega), storeBytes_inside _ _ _ _ (by omega)]
    · have same := storeBytes_outside m buffer x (text.take n) (by omega)
      rw [storeBytes_outside _ buffer x (text.take n) (by omega)]
      simp only [storeBytes] at same ⊢
      rw [same]
  count := wrote.count
  place := wrote.place
  word := wrote.word

theorem Wrote.part (wrote : Wrote m buffer n text w) (fits : buffer + n ≤ 2 ^ 32)
    (short : text.length + more.length < 2 ^ 32) :
    w.q + (if w.o < n then n - w.o else 0) ≤ 2 ^ 32 ∧
      Wrote m buffer n (text ++ more)
        { mem := storeBytes w.mem w.q (more.take (if w.o < n then n - w.o else 0))
          q := u32 (w.q + more.length)
          o := u32 (w.o + more.length) } := by
  have count := wrote.count
  have counted : u32 (w.o + more.length) = (text ++ more).length := by
    rw [count, List.length_append]
    exact Nat.mod_eq_of_lt short
  by_cases room : text.length < n
  · have place : w.q = buffer + text.length := by
      rw [wrote.place (by omega)]
      exact Nat.mod_eq_of_lt (by omega)
    rw [if_pos (by omega)]
    refine ⟨by omega, ?_, counted, fun _ => ?_, Nat.mod_lt _ (by decide)⟩
    · show storeBytes w.mem w.q _ = _
      rw [wrote.mem, place, count, List.take_append, List.take_of_length_le (Nat.le_of_lt room),
        storeBytes_append]
    · show u32 (w.q + more.length) = _
      rw [place, List.length_append, Nat.add_assoc]
  · have word := wrote.word
    rw [if_neg (by omega)]
    refine ⟨by omega, ?_, counted, fun within => ?_, Nat.mod_lt _ (by decide)⟩
    · show storeBytes w.mem w.q _ = _
      rw [List.take_zero, storeBytes_nil, wrote.mem, List.take_append_of_le_length (by omega)]
    · rw [List.length_append] at within
      show u32 (w.q + more.length) = _
      rw [wrote.place (by omega), List.length_append]
      simp only [u32]
      omega

theorem Wrote.terminate (wrote : Wrote m buffer n text w) (fits : buffer + n ≤ 2 ^ 32) :
    (if w.o < n then Function.update w.mem w.q 0
      else if 0 < n then Function.update w.mem (buffer + (n - 1)) 0
      else w.mem) =
      storeBytes m buffer (if n = 0 then [] else text.take (n - 1) ++ [0]) := by
  have count := wrote.count
  by_cases room : text.length < n
  · have place : w.q = buffer + text.length := by
      rw [wrote.place (by omega)]
      exact Nat.mod_eq_of_lt (by omega)
    rw [if_pos (by omega), if_neg (by omega), wrote.mem, place,
      List.take_of_length_le (Nat.le_of_lt room), List.take_of_length_le (by omega),
      storeBytes_append, storeBytes_single]
  · rw [if_neg (by omega), wrote.mem]
    by_cases none : n = 0
    · rw [if_neg (by omega), if_pos none, none, List.take_zero]
    · rw [if_pos (by omega), if_neg none, storeBytes_append, storeBytes_single]
      obtain ⟨x, last⟩ : ∃ x, text.take n = text.take (n - 1) ++ [x] := by
        have split := @List.take_succ_eq_append_getElem _ (n - 1) text (by omega)
        rw [show n - 1 + 1 = n by omega] at split
        exact ⟨_, split⟩
      have length : (text.take (n - 1)).length = n - 1 := by
        rw [List.length_take]
        omega
      rw [last, storeBytes_append, storeBytes_single, length, Function.update_idem]

end SysImpl.Writers
