import SysImpl.Text.FormatInt

/-! `vsnprintf` of `src/printf.c`: a state machine over the characters of the format.

Every character of the format leads to at most one output: a character, an integer, a
string, or the store of `%n`. What an output is does not depend on the buffer, so that the
whole text of a call can be told apart from what the buffer has room for. -/

namespace SysImpl.Text

open SysImpl.Bytes SysImpl.Writers

/-- The variable arguments, as 32-bit words in the order they are taken, and the strings
that pointers among them lead to. Nothing that `vsnprintf` writes overlaps them. -/
structure Args where
  word : Nat → UInt32
  string : Nat → List UInt8

inductive FormatState where
  | st_normal
  | st_flags
  | st_width
  | st_prec
  | st_modifiers
  deriving DecidableEq

/-- An `int` after a computation on `int`s, which wraps. -/
def int32 (x : Int) : Int := asInt (x % 2 ^ 32).toNat

/-- The variables of the loop beside its output. `ap` counts the words taken. -/
structure Scan where
  state : FormatState := .st_normal
  flags : Flags := {}
  rank : Int := 0
  width : Int := 0
  prec : Int := -1
  ap : Nat := 0

/-- What the end of a directive, or a character outside of one, has the loop do. -/
inductive Output where
  | none
  | emit (ch : UInt8)
  | int (val : Nat) (flags : Flags) (base width : Nat) (prec : Int)
  | string (sarg : List UInt8) (flags : Flags) (width : Nat) (prec : Int)
  | count (rank : Int) (pointer : Nat)

def signExtend (bits x : Nat) : Nat :=
  let low := x % 2 ^ bits
  if low < 2 ^ (bits - 1) then low else 2 ^ 64 - 2 ^ bits + low

def signedArg (args : Args) (rank : Int) (ap : Nat) : Nat × Nat :=
  let word := (args.word ap).toNat
  if rank = -2 then (signExtend 8 word, ap + 1)
  else if rank = -1 then (signExtend 16 word, ap + 1)
  else if rank = 2 then (word + 2 ^ 32 * (args.word (ap + 1)).toNat, ap + 2)
  else (signExtend 32 word, ap + 1)

def unsignedArg (args : Args) (rank : Int) (ap : Nat) : Nat × Nat :=
  let word := (args.word ap).toNat
  if rank = -2 then (word % 2 ^ 8, ap + 1)
  else if rank = -1 then (word % 2 ^ 16, ap + 1)
  else if rank = 2 then (word + 2 ^ 32 * (args.word (ap + 1)).toNat, ap + 2)
  else (word, ap + 1)

def nullText : List UInt8 := [40, 110, 117, 108, 108, 41]

def convertUnsigned (args : Args) (base : Nat) (upper : Bool) (s : Scan) : Scan × Output :=
  let (val, ap) := unsignedArg args s.rank s.ap
  let flags := { s.flags with upper := s.flags.upper || upper }
  ({ s with flags, ap }, .int val flags base s.width.toNat s.prec)

def convertPointer (args : Args) (upper : Bool) (s : Scan) : Scan × Output :=
  let flags := { s.flags with upper := s.flags.upper || upper, hash := true }
  ({ s with flags, prec := 8, ap := s.ap + 1 },
    .int (args.word s.ap).toNat flags 16 s.width.toNat 8)

/-- The terminal sequences, with their rank made canonical. A width below 0, which only an
overflow leaves, pads as little as 0. -/
def terminal (args : Args) (ch : UInt8) (s : Scan) : Scan × Output :=
  if ch = 80 then convertPointer args true s
  else if ch = 112 then convertPointer args false s
  else if ch = 100 ∨ ch = 105 then
    let (val, ap) := signedArg args s.rank s.ap
    let flags := { s.flags with signed := true }
    ({ s with flags, ap }, .int val flags 10 s.width.toNat s.prec)
  else if ch = 111 then convertUnsigned args 8 false s
  else if ch = 117 then convertUnsigned args 10 false s
  else if ch = 88 then convertUnsigned args 16 true s
  else if ch = 120 then convertUnsigned args 16 false s
  else if ch = 99 then
    ({ s with ap := s.ap + 1 },
      .string [(args.word s.ap).toNat.toUInt8] s.flags s.width.toNat s.prec)
  else if ch = 115 then
    let sarg := (args.word s.ap).toNat
    ({ s with ap := s.ap + 1 },
      .string (if sarg = 0 then nullText else args.string sarg) s.flags s.width.toNat s.prec)
  else if ch = 110 then
    ({ s with ap := s.ap + 1 }, .count s.rank (args.word s.ap).toNat)
  else (s, .emit ch)

def canonicalRank (rank : Int) : Int := if rank < -2 then -2 else if 2 < rank then 2 else rank

def stModifiers (args : Args) (ch : UInt8) (s : Scan) : Scan × Output :=
  if ch = 104 then ({ s with rank := int32 (s.rank - 1) }, .none)
  else if ch = 108 then ({ s with rank := int32 (s.rank + 1) }, .none)
  else if ch = 106 then ({ s with rank := 2 }, .none)
  else if ch = 122 ∨ ch = 116 then ({ s with rank := 1 }, .none)
  else if ch = 76 ∨ ch = 113 then ({ s with rank := int32 (s.rank + 2) }, .none)
  else terminal args ch { s with state := .st_normal, rank := canonicalRank s.rank }

def digitOf (ch : UInt8) : Option Nat := if 48 ≤ ch ∧ ch ≤ 57 then some (ch.toNat - 48) else none

/-- `st_prec`. The character that ends the precision is processed again. -/
def stPrec (args : Args) (ch : UInt8) (s : Scan) : Scan × Output :=
  match digitOf ch with
  | some d => ({ s with prec := int32 (s.prec * 10 + d) }, .none)
  | none =>
    if ch = 42 then
      let prec := asInt (args.word s.ap).toNat
      ({ s with prec := if prec < 0 then -1 else prec, ap := s.ap + 1 }, .none)
    else
      stModifiers args ch { s with state := .st_modifiers }

/-- `st_width`. The character that ends the width is processed again, unless it is the
point before a precision. -/
def stWidth (args : Args) (ch : UInt8) (s : Scan) : Scan × Output :=
  match digitOf ch with
  | some d => ({ s with width := int32 (s.width * 10 + d) }, .none)
  | none =>
    if ch = 42 then
      let width := asInt (args.word s.ap).toNat
      ({ s with
          width := if width < 0 then int32 (-width) else width
          flags := { s.flags with minus := s.flags.minus || decide (width < 0) }
          ap := s.ap + 1 }, .none)
    else if ch = 46 then ({ s with prec := 0, state := .st_prec }, .none)
    else stModifiers args ch { s with state := .st_modifiers }

def stFlags (args : Args) (ch : UInt8) (s : Scan) : Scan × Output :=
  if ch = 45 then ({ s with flags := { s.flags with minus := true } }, .none)
  else if ch = 43 then ({ s with flags := { s.flags with plus := true } }, .none)
  else if ch = 39 then ({ s with flags := { s.flags with tick := true } }, .none)
  else if ch = 32 then ({ s with flags := { s.flags with space := true } }, .none)
  else if ch = 35 then ({ s with flags := { s.flags with hash := true } }, .none)
  else if ch = 48 then ({ s with flags := { s.flags with zero := true } }, .none)
  else stWidth args ch { s with state := .st_width }

def stNormal (ch : UInt8) (s : Scan) : Scan × Output :=
  if ch = 37 then
    ({ s with state := .st_flags, flags := {}, rank := 0, width := 0, prec := -1 }, .none)
  else
    (s, .emit ch)

def scanStep (args : Args) (ch : UInt8) (s : Scan) : Scan × Output :=
  match s.state with
  | .st_normal => stNormal ch s
  | .st_flags => stFlags args ch s
  | .st_width => stWidth args ch s
  | .st_prec => stPrec args ch s
  | .st_modifiers => stModifiers args ch s

/-- `is_string`. A precision below -1, or a length that is no `int`, makes `slen` negative, and
the loop that counts it down to 0 reads off the string. -/
def formatString (n : Nat) (sarg : List UInt8) (flags : Flags) (width : Nat) (prec : Int)
    (w : Writer) : Option Writer :=
  if prec < -1 ∨ 2 ^ 31 ≤ sarg.length then none
  else
    let slen := if prec ≠ -1 ∧ prec < sarg.length then prec.toNat else sarg.length
    let (w, width) :=
      if !flags.minus && decide (slen < width) then
        padTo n (if flags.zero then 48 else 32) slen width w
      else
        (w, width)
    let w := w.puts n (sarg.take slen)
    some (if flags.minus && decide (slen < width) then padTo n 32 slen width w else (w, width)).1

def countSize (rank : Int) : Nat :=
  if rank = -2 then 1 else if rank = -1 then 2 else if rank = 2 then 8 else 4

def countBytes (rank : Int) (o : Nat) : List UInt8 :=
  (bytes32 o ++ [0, 0, 0, 0]).take (countSize rank)

def output (n : Nat) (w : Writer) : Output → Option Writer
  | .none => some w
  | .emit ch => some (w.put n ch)
  | .int val flags base width prec =>
    let (mem, sz) := formatInt w.mem w.q (if w.o < n then n - w.o else 0) val flags base width prec
    some { mem, q := u32 (w.q + sz), o := u32 (w.o + sz) }
  | .string sarg flags width prec => formatString n sarg flags width prec w
  | .count rank pointer => some { w with mem := storeBytes w.mem pointer (countBytes rank w.o) }

def printLoop (args : Args) (n : Nat) : List UInt8 → Scan → Writer → Option Writer
  | [], _, w => some w
  | ch :: format, s, w =>
    (output n w (scanStep args ch s).2).bind (printLoop args n format (scanStep args ch s).1)

/-- `vsnprintf`: the memory after it and its result, unless it reads off a string. `format` has
the bytes before the terminator. -/
def vsnprintf (mem : Mem) (buffer n : Nat) (format : List UInt8) (args : Args) :
    Option (Mem × Int) :=
  (printLoop args n format {} ⟨mem, buffer, 0⟩).map fun w =>
    let mem :=
      if w.o < n then Function.update w.mem w.q 0
      else if 0 < n then Function.update w.mem (buffer + (n - 1)) 0
      else w.mem
    (mem, asInt w.o)

def outputs (args : Args) : List UInt8 → Scan → List Output
  | [], _ => []
  | ch :: format, s => (scanStep args ch s).2 :: outputs args format (scanStep args ch s).1

/-- A string conversion: as much of the string as the precision allows, filled up to the
width. -/
def stringText (sarg : List UInt8) (flags : Flags) (width : Nat) (prec : Int) : List UInt8 :=
  let shown := sarg.take (if prec = -1 then sarg.length else prec.toNat)
  let gap := width - shown.length
  if flags.minus then shown ++ List.replicate gap 32
  else List.replicate gap (if flags.zero then 48 else 32) ++ shown

def Output.text : Output → List UInt8
  | .none => []
  | .emit ch => [ch]
  | .int val flags base width prec => intText val flags base width prec
  | .string sarg flags width prec => stringText sarg flags width prec
  | .count _ _ => []

def formatText (args : Args) (format : List UInt8) : List UInt8 :=
  (outputs args format {}).flatMap Output.text

def Output.stored (m : Mem) (o : Nat) : Output → Mem
  | .count rank pointer => storeBytes m pointer (countBytes rank o)
  | _ => m

/-- The stores of all `%n` of a format. -/
def countsStored (m : Mem) : Nat → List Output → Mem
  | _, [] => m
  | o, out :: rest => countsStored (out.stored m o) (o + out.text.length) rest

/-- The objects the format has `%n` store to do not overlap the buffer. -/
def CountsApart (outs : List Output) (buffer n : Nat) : Prop :=
  ∀ rank pointer, Output.count rank pointer ∈ outs →
    pointer + countSize rank ≤ buffer ∨ buffer + n ≤ pointer

/-- A string conversion does not read off its string. -/
def Output.OnString : Output → Prop
  | .string sarg _ _ prec => -1 ≤ prec ∧ sarg.length < 2 ^ 31
  | _ => True

def Output.Proper : Output → Prop
  | .int val _ base _ _ => val < 2 ^ 64 ∧ 2 ≤ base
  | _ => True

variable {m : Mem} {buffer n : Nat} {text format : List UInt8} {args : Args} {w : Writer}
  {s : Scan}

theorem signExtend_lt {bits : Nat} (x : Nat) (some : 0 < bits) (small : bits ≤ 32) :
    signExtend bits x < 2 ^ 64 := by
  have low : x % 2 ^ bits < 2 ^ bits := Nat.mod_lt _ (Nat.two_pow_pos _)
  have power : 2 ^ bits ≤ 2 ^ 32 := Nat.pow_le_pow_right (by decide) small
  have half : 2 ^ (bits - 1) ≤ 2 ^ 32 := Nat.pow_le_pow_right (by decide) (by omega)
  simp only [signExtend]
  split <;> omega

theorem signedArg_lt (args : Args) (rank : Int) (ap : Nat) :
    (signedArg args rank ap).1 < 2 ^ 64 := by
  have low := (args.word ap).toNat_lt
  have high := (args.word (ap + 1)).toNat_lt
  simp only [signedArg]
  split
  · exact signExtend_lt _ (by decide) (by decide)
  · split
    · exact signExtend_lt _ (by decide) (by decide)
    · split
      · show _ + 2 ^ 32 * _ < _
        omega
      · exact signExtend_lt _ (by decide) (by decide)

theorem unsignedArg_lt (args : Args) (rank : Int) (ap : Nat) :
    (unsignedArg args rank ap).1 < 2 ^ 64 := by
  have low := (args.word ap).toNat_lt
  have high := (args.word (ap + 1)).toNat_lt
  simp only [unsignedArg]
  split
  · exact Nat.lt_of_lt_of_le (Nat.mod_lt _ (by decide)) (by decide)
  · split
    · exact Nat.lt_of_lt_of_le (Nat.mod_lt _ (by decide)) (by decide)
    · split
      · show _ + 2 ^ 32 * _ < _
        omega
      · show (args.word ap).toNat < _
        omega

theorem convertUnsigned_proper (args : Args) {base : Nat} (upper : Bool) (s : Scan)
    (big : 2 ≤ base) : (convertUnsigned args base upper s).2.Proper :=
  ⟨unsignedArg_lt args s.rank s.ap, big⟩

theorem convertPointer_proper (args : Args) (upper : Bool) (s : Scan) :
    (convertPointer args upper s).2.Proper :=
  ⟨Nat.lt_trans (args.word s.ap).toNat_lt (by decide), by decide⟩

theorem terminal_proper (args : Args) (ch : UInt8) (s : Scan) :
    (terminal args ch s).2.Proper := by
  unfold terminal
  split
  · exact convertPointer_proper args true s
  split
  · exact convertPointer_proper args false s
  split
  · exact ⟨signedArg_lt args s.rank s.ap, by decide⟩
  split
  · exact convertUnsigned_proper args false s (by decide)
  split
  · exact convertUnsigned_proper args false s (by decide)
  split
  · exact convertUnsigned_proper args true s (by decide)
  split
  · exact convertUnsigned_proper args false s (by decide)
  split
  · trivial
  split
  · trivial
  split <;> trivial

theorem stModifiers_proper (args : Args) (ch : UInt8) (s : Scan) :
    (stModifiers args ch s).2.Proper := by
  unfold stModifiers
  split_ifs
  all_goals first | trivial | exact terminal_proper args ch _

theorem stWidth_proper (args : Args) (ch : UInt8) (s : Scan) : (stWidth args ch s).2.Proper := by
  unfold stWidth
  split
  · trivial
  · split_ifs
    · trivial
    · trivial
    · exact stModifiers_proper args ch _

theorem scanStep_proper (args : Args) (ch : UInt8) (s : Scan) :
    (scanStep args ch s).2.Proper := by
  unfold scanStep
  cases s.state with
  | st_normal =>
    simp only [stNormal]
    split <;> trivial
  | st_flags =>
    simp only [stFlags]
    split_ifs
    all_goals first | trivial | exact stWidth_proper args ch _
  | st_width => exact stWidth_proper args ch s
  | st_prec =>
    show (stPrec args ch s).2.Proper
    unfold stPrec
    split
    · trivial
    · split
      · trivial
      · exact stModifiers_proper args ch _
  | st_modifiers => exact stModifiers_proper args ch s

@[simp] theorem countBytes_length (rank : Int) (o : Nat) :
    (countBytes rank o).length = countSize rank := by
  simp only [countBytes, List.length_take, List.length_append, bytes32_length, List.length_cons,
    List.length_nil, countSize]
  split_ifs <;> rfl

theorem formatString_eq (sarg : List UInt8) (flags : Flags) (width : Nat) {prec : Int}
    (on : -1 ≤ prec ∧ sarg.length < 2 ^ 31) (w : Writer) :
    formatString n sarg flags width prec w =
      some (w.puts n (stringText sarg flags width prec)) := by
  have shown : sarg.take (if prec ≠ -1 ∧ prec < sarg.length then prec.toNat else sarg.length) =
      sarg.take (if prec = -1 then sarg.length else prec.toNat) := by
    by_cases none : prec = -1
    · simp [none]
    · by_cases short : prec < sarg.length
      · rw [if_pos ⟨none, short⟩, if_neg none]
      · rw [if_neg (fun both => short both.2), if_neg none, List.take_of_length_le (Nat.le_refl _),
          List.take_of_length_le (by omega)]
  have length : (sarg.take (if prec = -1 then sarg.length else prec.toNat)).length =
      (if prec ≠ -1 ∧ prec < sarg.length then prec.toNat else sarg.length) := by
    rw [← shown, List.length_take, Nat.min_eq_left]
    split <;> omega
  have reads : ¬ (prec < -1 ∨ 2 ^ 31 ≤ sarg.length) := by omega
  simp only [formatString, stringText, shown, length, if_neg reads, Option.some.injEq]
  generalize (if prec ≠ -1 ∧ prec < sarg.length then prec.toNat else sarg.length) = slen
  generalize sarg.take (if prec = -1 then sarg.length else prec.toNat) = shown
  rw [padTo_if n _ (!flags.minus) width w (Nat.le_refl slen)]
  cases flags.minus with
  | true =>
    rw [padTo_if n _ true _ _ (Nat.le_refl slen)]
    simp [Writer.puts]
  | false =>
    rw [padTo_if n _ false _ _ (Nat.le_refl slen)]
    simp [Writer.puts]

theorem output_wrote {out : Output} (wrote : Wrote m buffer n text w)
    (fits : buffer + n ≤ 2 ^ 32) (short : text.length + out.text.length < 2 ^ 32)
    (proper : out.Proper) (on : out.OnString) (apart : CountsApart [out] buffer n) :
    ∃ w', output n w out = some w' ∧
      Wrote (out.stored m text.length) buffer n (text ++ out.text) w' := by
  cases out with
  | none => exact ⟨w, rfl, by simpa only [Output.text, List.append_nil, Output.stored] using wrote⟩
  | emit ch => exact ⟨w.put n ch, rfl, wrote.put ch fits short⟩
  | int val flags base width prec =>
    obtain ⟨inside, further⟩ := wrote.part fits short
    have length : (intText val flags base width prec).length < 2 ^ 32 := by
      simp only [Output.text] at short
      omega
    have number := formatInt_wrote w.mem flags width prec proper.2 proper.1 wrote.word inside length
    refine ⟨_, ?_, further⟩
    simp only [output, number, Output.text]
  | string sarg flags width prec =>
    exact ⟨_, formatString_eq sarg flags width on w, wrote.puts _ fits short⟩
  | count rank pointer =>
    have room := apart rank pointer (List.mem_singleton_self _)
    rw [← countBytes_length rank w.o] at room
    have stored := wrote.store pointer (countBytes rank w.o) room
    refine ⟨_, rfl, ?_⟩
    simpa only [Output.text, Output.stored, List.append_nil, wrote.count] using stored

theorem printLoop_wrote (args : Args) (format : List UInt8) (s : Scan)
    (wrote : Wrote m buffer n text w) (fits : buffer + n ≤ 2 ^ 32)
    (short : text.length + ((outputs args format s).flatMap Output.text).length < 2 ^ 32)
    (on : ∀ out ∈ outputs args format s, out.OnString)
    (apart : CountsApart (outputs args format s) buffer n) :
    ∃ w', printLoop args n format s w = some w' ∧
      Wrote (countsStored m text.length (outputs args format s)) buffer n
        (text ++ (outputs args format s).flatMap Output.text) w' := by
  induction format generalizing m text s w with
  | nil =>
    refine ⟨w, rfl, ?_⟩
    simpa only [outputs, List.flatMap_nil, List.append_nil, countsStored] using wrote
  | cons ch format ih =>
    simp only [outputs, List.flatMap_cons, List.length_append] at short
    simp only [outputs] at apart on
    obtain ⟨mid, put, here⟩ := output_wrote wrote fits (by omega) (scanStep_proper args ch s)
      (on _ List.mem_cons_self) (fun rank pointer found => apart rank pointer (by
        rw [List.mem_singleton] at found
        exact found ▸ List.mem_cons_self))
    obtain ⟨last, ran, rest⟩ := ih (scanStep args ch s).1 here
      (by simp only [List.length_append]; omega)
      (fun out member => on out (List.mem_cons_of_mem _ member))
      (fun rank pointer found => apart rank pointer (List.mem_cons_of_mem _ found))
    refine ⟨last, ?_, ?_⟩
    · rw [printLoop, put, Option.bind_some, ran]
    · simpa only [outputs, List.flatMap_cons, List.append_assoc, List.length_append,
        countsStored] using rest

/-- The terminator goes behind what fits, and the count is the length of the whole text. -/
theorem vsnprintf_of_wrote {mem : Mem}
    (ran : printLoop args n format {} ⟨mem, buffer, 0⟩ = some w) (wrote : Wrote m buffer n text w)
    (fits : buffer + n ≤ 2 ^ 32) (short : text.length < 2 ^ 31) :
    vsnprintf mem buffer n format args =
      some (storeBytes m buffer (if n = 0 then [] else text.take (n - 1) ++ [0]),
        (text.length : Int)) := by
  have ended := wrote.terminate fits
  have result : asInt text.length = (text.length : Int) := if_pos short
  rw [vsnprintf, ran, Option.map_some]
  exact congrArg some (Prod.ext ended (by rw [← result, ← wrote.count]))

/-- Whatever the size of the buffer, `vsnprintf` returns the length of the whole text and
leaves as much of it in the buffer as there is room for before the terminator. Beyond the
buffer only the objects of `%n` change, which get the lengths in the whole text. -/
theorem vsnprintf_truncates (mem : Mem) (buffer n : Nat) (format : List UInt8) (args : Args)
    (word : buffer < 2 ^ 32) (fits : buffer + n ≤ 2 ^ 32)
    (short : (formatText args format).length < 2 ^ 31)
    (on : ∀ out ∈ outputs args format {}, out.OnString)
    (apart : CountsApart (outputs args format {}) buffer n) :
    vsnprintf mem buffer n format args =
      some (storeBytes (countsStored mem 0 (outputs args format {})) buffer
        (if n = 0 then [] else (formatText args format).take (n - 1) ++ [0]),
        ((formatText args format).length : Int)) := by
  obtain ⟨w, ran, all⟩ := printLoop_wrote args format {} (Wrote.start mem buffer n word) fits
    (by rw [← formatText, List.length_nil]; omega) on apart
  exact vsnprintf_of_wrote ran all fits short

theorem countsApart_of_none {outs : List Output} (buffer n : Nat)
    (none : outs.all fun out => match out with | .count _ _ => false | _ => true) :
    CountsApart outs buffer n := by
  intro rank pointer found
  have kept := List.all_eq_true.mp none _ found
  cases kept

instance (out : Output) : Decidable out.OnString := by
  cases out with
  | string => exact inferInstanceAs (Decidable (_ ∧ _))
  | _ => exact inferInstanceAs (Decidable True)

/-- `%d` of -42 in a buffer of three bytes. -/
theorem vsnprintf_truncates_minus :
    vsnprintf (fun _ => 35) 100 3 [37, 100] ⟨fun _ => 4294967254, fun _ => []⟩ =
      some (storeBytes (fun _ => 35) 100 [45, 52, 0], 3) :=
  vsnprintf_truncates (fun _ => 35) 100 3 [37, 100] ⟨fun _ => 4294967254, fun _ => []⟩
    (by decide) (by decide) (by decide) (by decide) (countsApart_of_none 100 3 (by decide))

end SysImpl.Text
