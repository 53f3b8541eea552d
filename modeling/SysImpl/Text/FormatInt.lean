import SysImpl.Lib.Writers
import Mathlib.Data.Nat.Digits.Defs

/-! `format_int` of `src/printf.c`: one integer conversion.

The function counts the digits, emits the padding and the sign, leaves the places of the
number free and fills them in from the right. `intText` says what the text is. -/

namespace SysImpl.Text

open SysImpl.Bytes SysImpl.Writers

structure Flags where
  zero : Bool := false
  minus : Bool := false
  plus : Bool := false
  tick : Bool := false
  space : Bool := false
  hash : Bool := false
  signed : Bool := false
  upper : Bool := false
  deriving DecidableEq

def lcdigits : List UInt8 :=
  [48, 49, 50, 51, 52, 53, 54, 55, 56, 57, 97, 98, 99, 100, 101, 102]

def ucdigits : List UInt8 :=
  [48, 49, 50, 51, 52, 53, 54, 55, 56, 57, 65, 66, 67, 68, 69, 70]

/-- The loop that counts the digits, which finds none in 0. A number of 64 bits is gone
after 64 rounds. -/
def countDigits (base : Nat) : Nat → Nat → Nat
  | 0, _ => 0
  | fuel + 1, tmpval => if tmpval = 0 then 0 else countDigits base fuel (tmpval / base) + 1

/-- `while (width > least) { EMIT(ch); width--; }` -/
def padTo (n : Nat) (ch : UInt8) (least : Nat) : Nat → Writer → Writer × Nat
  | 0, w => (w, 0)
  | width + 1, w =>
    if least < width + 1 then padTo n ch least width (w.put n ch) else (w, width + 1)

/-- The variables of the loop that generates the number: `w` has `qq` and `oo`. -/
structure Filler where
  w : Writer
  ndigits : Nat
  b4tick : Nat
  val : Nat

def fillStep (n : Nat) (digits : List UInt8) (base tickskip : Nat) (s : Filler) : Filler :=
  let s :=
    if s.b4tick = 0 then
      { s with w := s.w.putBack n 95, ndigits := s.ndigits - 1, b4tick := tickskip - 1 }
    else
      { s with b4tick := s.b4tick - 1 }
  { s with
    w := s.w.putBack n (digits.getD (s.val % base) 0)
    ndigits := s.ndigits - 1
    val := s.val / base }

def fillLoop (n : Nat) (digits : List UInt8) (base tickskip : Nat) : Nat → Filler → Filler
  | 0, s => s
  | fuel + 1, s =>
    if 0 < s.ndigits then
      fillLoop n digits base tickskip fuel (fillStep n digits base tickskip s)
    else
      s

def negative (flags : Flags) (val : Nat) : Bool := flags.signed && decide (2 ^ 63 ≤ val)

def magnitude (flags : Flags) (val : Nat) : Nat := if negative flags val then 2 ^ 64 - val else val

def adjustDigits (flags : Flags) (base : Nat) (prec : Int) (val : Nat) : Nat :=
  let ndigits := countDigits base 64 val
  let prec : Int :=
    if flags.hash && base == 8 && decide (prec < (ndigits + 1 : Nat)) then
      (ndigits + 1 : Nat)
    else
      prec
  if (ndigits : Int) < prec then prec.toNat else if val = 0 then 1 else ndigits

def emitFront (n : Nat) (flags : Flags) (base : Nat) (minus : Bool) (w : Writer) : Writer :=
  let w :=
    if minus then w.put n 45
    else if flags.plus then w.put n 43
    else if flags.space then w.put n 32
    else w
  if flags.hash && base == 16 then
    (w.put n 48).put n (if flags.upper then 88 else 120)
  else
    w

/-- `format_int`: the memory after it and the number of characters. `val` is the 64-bit
pattern of the argument. -/
def formatInt (mem : Mem) (q n val : Nat) (flags : Flags) (base width : Nat) (prec : Int) :
    Mem × Nat :=
  let digits := if flags.upper then ucdigits else lcdigits
  let minus := negative flags val
  let val := magnitude flags val
  let ndigits := adjustDigits flags base prec val
  let tickskip := if flags.tick then (if base = 16 then 4 else 3) else ndigits
  let ndigits := ndigits + (ndigits - 1) / tickskip
  let nchars := ndigits + (if minus || flags.plus || flags.space then 1 else 0)
  let nchars := nchars + (if flags.hash && base == 16 then 2 else 0)
  let w : Writer := ⟨mem, q, 0⟩
  let (w, width) :=
    if !(flags.minus || flags.zero) && decide (nchars < width) then
      padTo n 32 nchars width w
    else
      (w, width)
  let w := emitFront n flags base minus w
  let (w, width) :=
    if !flags.minus && flags.zero && decide (ndigits < width) then
      padTo n 48 nchars width w
    else
      (w, width)
  let w := { w with q := u32 (w.q + ndigits), o := u32 (w.o + ndigits) }
  let filled := fillLoop n digits base tickskip ndigits ⟨w, ndigits, tickskip, val⟩
  let w := { w with mem := filled.w.mem }
  let (w, _) := if flags.minus then padTo n 32 nchars width w else (w, width)
  (w.mem, w.o)

/-- The digits a number is shown with: as many as it has, one more before an octal number
of the alternative form, and no less than the precision or one. -/
def places (flags : Flags) (base : Nat) (prec : Int) (val : Nat) : Nat :=
  let digits := (Nat.digits base val).length
  max 1 (max (if flags.hash && base == 8 then digits + 1 else digits) prec.toNat)

def digitsBack (digits : List UInt8) (base : Nat) : Nat → Nat → List UInt8
  | 0, _ => []
  | count + 1, val => digits.getD (val % base) 0 :: digitsBack digits base count (val / base)

/-- A tick mark after every `skip` digits, the first of them after `b4tick`. -/
def ticked (skip : Nat) : Nat → List UInt8 → List UInt8
  | _, [] => []
  | 0, d :: rest => 95 :: d :: ticked skip (skip - 1) rest
  | b4tick + 1, d :: rest => d :: ticked skip b4tick rest

def numberText (flags : Flags) (base : Nat) (prec : Int) (val : Nat) : List UInt8 :=
  let back := digitsBack (if flags.upper then ucdigits else lcdigits) base
    (places flags base prec val) val
  let skip := if base = 16 then 4 else 3
  (if flags.tick then ticked skip skip back else back).reverse

def frontText (flags : Flags) (base val : Nat) : List UInt8 :=
  (if negative flags val then [45] else if flags.plus then [43] else
    if flags.space then [32] else []) ++
  (if flags.hash && base == 16 then [48, if flags.upper then 88 else 120] else [])

/-- The text of an integer conversion, filled up to its width on the side the flags say. -/
def intText (val : Nat) (flags : Flags) (base width : Nat) (prec : Int) : List UInt8 :=
  let front := frontText flags base val
  let number := numberText flags base prec (magnitude flags val)
  let gap := width - (front.length + number.length)
  if flags.minus then front ++ number ++ List.replicate gap 32
  else if flags.zero then front ++ List.replicate gap 48 ++ number
  else List.replicate gap 32 ++ front ++ number

variable {m : Mem} {buffer n base skip : Nat} {digits text : List UInt8} {flags : Flags}

theorem countDigits_eq (fuel val : Nat) (big : 2 ≤ base) (bound : val < 2 ^ fuel) :
    countDigits base fuel val = (Nat.digits base val).length := by
  induction fuel generalizing val with
  | zero =>
    obtain rfl : val = 0 := by simpa using bound
    simp [countDigits]
  | succ fuel ih =>
    unfold countDigits
    split
    · next zero => simp [zero]
    · next positive =>
      have smaller : val / base < 2 ^ fuel := by
        apply Nat.div_lt_of_lt_mul
        calc
          val < 2 ^ fuel * 2 := by rwa [← Nat.pow_succ]
          _ ≤ 2 ^ fuel * base := Nat.mul_le_mul_left _ big
          _ = base * 2 ^ fuel := Nat.mul_comm _ _
      rw [ih _ smaller, Nat.digits_def' big (Nat.pos_of_ne_zero positive), List.length_cons]

theorem padTo_eq (n : Nat) (ch : UInt8) (least width : Nat) (w : Writer) :
    padTo n ch least width w =
      (w.puts n (List.replicate (width - least) ch), min width least) := by
  induction width generalizing w with
  | zero => simp [padTo]
  | succ width ih =>
    unfold padTo
    split
    · next wide =>
      rw [ih, show width + 1 - least = width - least + 1 by omega, List.replicate_succ,
        Writer.puts_cons, Nat.min_eq_right (Nat.le_of_lt_succ wide),
        Nat.min_eq_right (Nat.le_of_lt wide)]
    · next narrow =>
      rw [show width + 1 - least = 0 by omega, Nat.min_eq_left (by omega)]
      rfl

@[simp] theorem digitsBack_length (digits : List UInt8) (base count val : Nat) :
    (digitsBack digits base count val).length = count := by
  induction count generalizing val with
  | zero => rfl
  | succ count ih => simp [digitsBack, ih]

theorem ticked_length (positive : 0 < skip) (b4tick : Nat) (within : b4tick ≤ skip)
    (back : List UInt8) :
    (ticked skip b4tick back).length = back.length + (back.length + skip - 1 - b4tick) / skip := by
  induction back generalizing b4tick with
  | nil =>
    have none : (0 + skip - 1 - b4tick) / skip = 0 := Nat.div_eq_of_lt (by omega)
    simp only [ticked, List.length_nil, none]
  | cons d rest ih =>
    cases b4tick with
    | zero =>
      have more : (rest.length + 1 + skip - 1 - 0) / skip = rest.length / skip + 1 := by
        rw [show rest.length + 1 + skip - 1 - 0 = rest.length + skip by omega,
          Nat.add_div_right _ positive]
      have rest_eq : rest.length + skip - 1 - (skip - 1) = rest.length := by omega
      simp only [ticked, List.length_cons]
      rw [ih (skip - 1) (by omega), more, rest_eq]
      omega
    | succ b4tick =>
      simp only [ticked, List.length_cons]
      rw [ih b4tick (by omega),
        show rest.length + 1 + skip - 1 - (b4tick + 1) = rest.length + skip - 1 - b4tick by omega]
      omega

theorem ticked_short (b4tick : Nat) (back : List UInt8) (short : back.length ≤ b4tick) :
    ticked skip b4tick back = back := by
  induction back generalizing b4tick with
  | nil => rfl
  | cons d rest ih =>
    cases b4tick with
    | zero => simp at short
    | succ b4tick =>
      simp only [ticked]
      rw [ih b4tick (by simpa using short)]

/-- The loop from the right fills in the digits and their tick marks, the last one first. -/
theorem fillLoop_filling (skip base : Nat) (digits : List UInt8) (fits : buffer + n ≤ 2 ^ 32)
    (count : Nat) (s : Filler) (fuel : Nat) (done : List UInt8) (enough : count ≤ fuel)
    (total : s.ndigits = (ticked skip s.b4tick (digitsBack digits base count s.val)).length)
    (short : text.length + s.ndigits < 2 ^ 32)
    (filling : Filling m buffer n text s.ndigits done s.w) :
    Filling m buffer n text 0
      ((ticked skip s.b4tick (digitsBack digits base count s.val)).reverse ++ done)
      (fillLoop n digits base skip fuel s).w := by
  induction count generalizing s fuel done with
  | zero =>
    have none : s.ndigits = 0 := by simpa [digitsBack, ticked] using total
    have stopped : fillLoop n digits base skip fuel s = s := by
      cases fuel with
      | zero => rfl
      | succ fuel => rw [fillLoop, if_neg (by omega)]
    rw [stopped]
    rw [none] at filling
    simpa [digitsBack, ticked] using filling
  | succ count ih =>
    obtain ⟨fuel, rfl⟩ : ∃ k, fuel = k + 1 := ⟨fuel - 1, by omega⟩
    obtain ⟨w, ndigits, b4tick, val⟩ := s
    simp only at total short filling
    cases b4tick with
    | zero =>
      -- a tick mark is due before this digit
      simp only [digitsBack, ticked, List.length_cons] at total
      have step : fillLoop n digits base skip (fuel + 1) ⟨w, ndigits, 0, val⟩ =
          fillLoop n digits base skip fuel
            ⟨(w.putBack n 95).putBack n (digits.getD (val % base) 0), ndigits - 1 - 1, skip - 1,
              val / base⟩ := by
        rw [fillLoop, if_pos (by show 0 < ndigits; omega)]
        rfl
      obtain ⟨left, rfl⟩ : ∃ k, ndigits = k + 2 := ⟨ndigits - 2, by omega⟩
      have marked := filling.putBack 95 fits (by omega)
      have next := marked.putBack (digits.getD (val % base) 0) fits (by omega)
      have rest := ih ⟨(w.putBack n 95).putBack n (digits.getD (val % base) 0), left, skip - 1,
        val / base⟩ fuel _ (by omega) (by simp only; omega)
        (by show text.length + left < 2 ^ 32; omega) next
      rw [step]
      simpa [digitsBack, ticked] using rest
    | succ b4tick =>
      simp only [digitsBack, ticked, List.length_cons] at total
      have step : fillLoop n digits base skip (fuel + 1) ⟨w, ndigits, b4tick + 1, val⟩ =
          fillLoop n digits base skip fuel
            ⟨w.putBack n (digits.getD (val % base) 0), ndigits - 1, b4tick, val / base⟩ := by
        rw [fillLoop, if_pos (by show 0 < ndigits; omega)]
        rfl
      obtain ⟨left, rfl⟩ : ∃ k, ndigits = k + 1 := ⟨ndigits - 1, by omega⟩
      have next := filling.putBack (digits.getD (val % base) 0) fits (by omega)
      have rest := ih ⟨w.putBack n (digits.getD (val % base) 0), left, b4tick, val / base⟩ fuel _
        (by omega) (by simp only; omega) (by show text.length + left < 2 ^ 32; omega) next
      rw [step]
      simpa [digitsBack, ticked] using rest

theorem places_pos (flags : Flags) (base : Nat) (prec : Int) (val : Nat) :
    0 < places flags base prec val :=
  Nat.le_max_left _ _

theorem numberText_length (flags : Flags) (base : Nat) (prec : Int) (val : Nat) :
    (numberText flags base prec val).length =
      places flags base prec val + (places flags base prec val - 1) /
        (if flags.tick then (if base = 16 then 4 else 3) else places flags base prec val) := by
  have some := places_pos flags base prec val
  unfold numberText
  by_cases tick : flags.tick
  · have positive : 0 < if base = 16 then 4 else 3 := by split <;> decide
    simp only [tick, if_true, List.length_reverse]
    rw [ticked_length positive _ (Nat.le_refl _), digitsBack_length]
    congr 2
    omega
  · simp only [tick, Bool.false_eq_true, if_false]
    rw [List.length_reverse, digitsBack_length, Nat.div_eq_of_lt (by omega)]
    rfl

theorem numberText_back (flags : Flags) (base : Nat) (prec : Int) (val : Nat) :
    (ticked (if flags.tick then (if base = 16 then 4 else 3) else places flags base prec val)
      (if flags.tick then (if base = 16 then 4 else 3) else places flags base prec val)
      (digitsBack (if flags.upper then ucdigits else lcdigits) base
        (places flags base prec val) val)).reverse = numberText flags base prec val := by
  unfold numberText
  by_cases tick : flags.tick
  · simp only [tick, if_true]
  · simp only [tick, Bool.false_eq_true, if_false]
    rw [ticked_short _ _ (by rw [digitsBack_length])]

theorem adjustDigits_eq (flags : Flags) (prec : Int) (val : Nat) (big : 2 ≤ base)
    (word : val < 2 ^ 64) : adjustDigits flags base prec val = places flags base prec val := by
  have none : val = 0 ↔ (Nat.digits base val).length = 0 := by
    rw [List.length_eq_zero_iff, Nat.digits_eq_nil_iff_eq_zero]
  simp only [adjustDigits, countDigits_eq 64 val big word, none, places]
  by_cases octal : flags.hash && base == 8
  · simp only [octal, Bool.true_and, decide_eq_true_eq, if_true]
    split <;> split <;> try split
    all_goals omega
  · simp only [octal, Bool.false_and, Bool.false_eq_true, if_false]
    split
    · omega
    · split <;> omega

/-- Padding on a condition. The test that the source makes before its loop may let the loop
be entered for nothing. -/
theorem padTo_if (n : Nat) (ch : UInt8) (when : Bool) {guard least : Nat} (width : Nat)
    (w : Writer) (weaker : guard ≤ least) :
    (if when && decide (guard < width) then padTo n ch least width w else (w, width)) =
      (w.puts n (List.replicate (if when then width - least else 0) ch),
        if when then min width least else width) := by
  cases when with
  | false => rfl
  | true =>
    simp only [Bool.true_and, decide_eq_true_eq, if_true]
    split
    · exact padTo_eq n ch least width w
    · rw [show width - least = 0 by omega, Nat.min_eq_left (by omega)]
      rfl

theorem frontText_length (flags : Flags) (base val : Nat) :
    (frontText flags base val).length =
      (if negative flags val || flags.plus || flags.space then 1 else 0) +
        (if flags.hash && base == 16 then 2 else 0) := by
  rw [frontText, List.length_append]
  congr 1
  · cases negative flags val <;> cases flags.plus <;> cases flags.space <;> rfl
  · split <;> rfl

theorem emitFront_eq (flags : Flags) (base val : Nat) (w : Writer) :
    emitFront n flags base (negative flags val) w = w.puts n (frontText flags base val) := by
  simp only [emitFront, frontText, Writer.puts, List.foldl_append]
  cases negative flags val <;> cases flags.plus <;> cases flags.space <;>
    cases flags.hash && base == 16 <;> rfl

theorem magnitude_lt {val : Nat} (flags : Flags) (word : val < 2 ^ 64) :
    magnitude flags val < 2 ^ 64 := by
  unfold magnitude
  split
  · next minus =>
    simp only [negative, Bool.and_eq_true, decide_eq_true_eq] at minus
    omega
  · exact word

theorem intText_eq (val : Nat) (flags : Flags) (base width : Nat) (prec : Int) :
    intText val flags base width prec =
      (let number := numberText flags base prec (magnitude flags val)
       let gap := width - (number.length + (frontText flags base val).length)
       List.replicate (if !(flags.minus || flags.zero) then gap else 0) 32 ++
         frontText flags base val ++
         List.replicate (if !flags.minus && flags.zero then gap else 0) 48 ++ number ++
         List.replicate (if flags.minus then gap else 0) 32) := by
  simp only [intText, Nat.add_comm (frontText flags base val).length]
  cases flags.minus <;> cases flags.zero <;> simp

/-- `format_int` writes the text of the conversion through its buffer and returns the
length of the text. -/
theorem formatInt_wrote (mem : Mem) (flags : Flags) (width : Nat) (prec : Int) {q val : Nat}
    (big : 2 ≤ base)
    (word : val < 2 ^ 64) (start : q < 2 ^ 32) (fits : q + n ≤ 2 ^ 32)
    (short : (intText val flags base width prec).length < 2 ^ 32) :
    formatInt mem q n val flags base width prec =
      (storeBytes mem q ((intText val flags base width prec).take n),
        (intText val flags base width prec).length) := by
  have smaller := magnitude_lt flags word
  have counted := adjustDigits_eq flags prec (magnitude flags val) big smaller
  have total := numberText_length flags base prec (magnitude flags val)
  have before := frontText_length flags base val
  have parts := intText_eq val flags base width prec
  have back := numberText_back flags base prec (magnitude flags val)
  have early := padTo_if n 32 (!(flags.minus || flags.zero)) width ⟨mem, q, 0⟩
    (Nat.le_refl ((numberText flags base prec (magnitude flags val)).length +
      (frontText flags base val).length))
  unfold formatInt
  simp only [counted, ← total, Nat.add_assoc, ← before, early, emitFront_eq]
  generalize numberText flags base prec (magnitude flags val) = number at *
  generalize frontText flags base val = front at *
  have middle (rest : Nat) (w : Writer)
      (same : (!flags.minus && flags.zero) = true → rest = width) :
      (if !flags.minus && flags.zero && decide (number.length < rest) then
        padTo n 48 (number.length + front.length) rest w else (w, rest)) =
      (w.puts n (List.replicate
          (if !flags.minus && flags.zero then width - (number.length + front.length) else 0) 48),
        if !flags.minus && flags.zero then min width (number.length + front.length) else rest) := by
    rw [padTo_if n 48 _ rest w (Nat.le_add_right _ _)]
    split
    · next zero => rw [same zero]
    · rfl
  rw [middle _ _ (by intro zero; simp_all)]
  have late (rest : Nat) (w : Writer) (same : flags.minus = true → rest = width) :
      (if flags.minus then padTo n 32 (number.length + front.length) rest w else (w, rest)).1 =
        w.puts n (List.replicate
          (if flags.minus then width - (number.length + front.length) else 0) 32) := by
    split
    · next minus => rw [padTo_eq, same minus]
    · rfl
  rw [late _ _ (by intro minus; simp [minus])]
  generalize intText val flags base width prec = text at *
  simp only at parts
  generalize (if !(flags.minus || flags.zero) then width - (number.length + front.length) else 0) =
    spaces at *
  generalize (if !flags.minus && flags.zero then width - (number.length + front.length) else 0) =
    zeros at *
  generalize (if flags.minus then width - (number.length + front.length) else 0) = after at *
  have sizes : text.length = spaces + front.length + zeros + number.length + after := by
    rw [parts]
    simp only [List.length_append, List.length_replicate]
  have empty := Wrote.start mem q n start
  have padded := empty.puts (List.replicate spaces 32) fits (by simp; omega)
  have headed := padded.puts front fits (by simp; omega)
  have zeroed := headed.puts (List.replicate zeros 48) fits (by simp; omega)
  generalize (Writer.puts n (List.replicate zeros 48) (Writer.puts n front
    (Writer.puts n (List.replicate spaces 32) ⟨mem, q, 0⟩))) = w at *
  have skipped := zeroed.skip number.length (by simp; omega)
  generalize skip : (if flags.tick then (if base = 16 then 4 else 3) else
    places flags base prec (magnitude flags val)) = tickskip at *
  have filled := fillLoop_filling tickskip base
    (if flags.upper then ucdigits else lcdigits) fits
    (places flags base prec (magnitude flags val))
    ⟨{ w with q := u32 (w.q + number.length), o := u32 (w.o + number.length) }, number.length,
      tickskip, magnitude flags val⟩ number.length [] (by rw [total]; exact Nat.le_add_right _ _)
    (by simp only [← back, List.length_reverse]) (by simp; omega) skipped
  simp only [back, List.append_nil] at filled
  have written := filled.finish (u32 (w.q + number.length)) (u32 (w.o + number.length))
    (fun within => skipped.place (by omega)) (by simpa using skipped.count)
    (Nat.mod_lt _ (by decide))
  have whole := written.puts (List.replicate after 32) fits (by simp; omega)
  rw [List.nil_append, ← parts] at whole
  exact Prod.ext whole.mem whole.count

end SysImpl.Text
