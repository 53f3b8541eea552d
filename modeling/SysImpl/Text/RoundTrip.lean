import SysImpl.Text.Directives
import SysImpl.Text.Strtol

/-! What `vsnprintf` prints of a number, `strtol` reads back. -/

namespace SysImpl.Text

open SysImpl.Bytes SysImpl.Writers

def shownValue (flags : Flags) (val : Nat) : Int :=
  if negative flags val then -(magnitude flags val : Int) else magnitude flags val

variable {base count : Nat} {flags : Flags}

theorem digitValue_digit (upper : Bool) {d : Nat} (small : d < 16) :
    digitValue ((if upper then ucdigits else lcdigits).getD d 0) = some d := by
  have each : ∀ upper : Bool, ∀ d : Fin 16,
      digitValue ((if upper then ucdigits else lcdigits).getD d.val 0) = some d.val := by
    decide +kernel
  exact each upper ⟨d, small⟩

theorem digitValue_zero : digitValue 48 = some 0 := rfl

theorem mem_digitsBack {upper : Bool} {val : Nat} (positive : 0 < base) {c : UInt8}
    (member : c ∈ digitsBack (if upper then ucdigits else lcdigits) base count val) :
    ∃ d, d < base ∧ c = (if upper then ucdigits else lcdigits).getD d 0 := by
  induction count generalizing val with
  | zero => simp [digitsBack] at member
  | succ count ih =>
    simp only [digitsBack, List.mem_cons] at member
    rcases member with rfl | later
    · exact ⟨val % base, Nat.mod_lt _ positive, rfl⟩
    · exact ih later

theorem positional_digitsBack {upper : Bool} (positive : 0 < base) (hexadecimal : base ≤ 16)
    (val : Nat) :
    positional base (digitsBack (if upper then ucdigits else lcdigits) base count val).reverse =
      val % base ^ count := by
  induction count generalizing val with
  | zero => simp [digitsBack, positional, Nat.mod_one]
  | succ count ih =>
    have small : val % base < base := Nat.mod_lt _ positive
    have higher := ih (val / base)
    simp only [positional] at higher
    simp only [digitsBack, List.reverse_cons, positional, List.foldl_append, higher,
      List.foldl_cons, List.foldl_nil, digitValue_digit upper (by omega : val % base < 16),
      Option.getD_some]
    rw [Nat.pow_succ', Nat.mod_mul]
    ring

theorem head_digitsBack (upper : Bool) {val : Nat} (small : val < base ^ count) :
    (digitsBack (if upper then ucdigits else lcdigits) base (count + 1) val).reverse.head? =
      some 48 := by
  induction count generalizing val with
  | zero =>
    obtain rfl : val = 0 := by simpa using small
    cases upper <;> simp [digitsBack, lcdigits, ucdigits]
  | succ count ih =>
    have smaller : val / base < base ^ count := by
      apply Nat.div_lt_of_lt_mul
      rwa [Nat.pow_succ'] at small
    have front := ih smaller
    rw [digitsBack, List.reverse_cons, List.head?_append, front]
    rfl

theorem positional_zeros (zeros : Nat) (ds : List UInt8) :
    positional base (List.replicate zeros 48 ++ ds) = positional base ds := by
  induction zeros with
  | zero => rfl
  | succ zeros ih =>
    rw [← ih, List.replicate_succ, List.cons_append, positional, List.foldl_cons,
      digitValue_zero, Option.getD_some, Nat.zero_mul, Nat.add_zero]
    rfl

theorem magnitude_fits (flags : Flags) (prec : Int) (val : Nat) (big : 1 < base) :
    val < base ^ places flags base prec val ∧
      (flags.hash && base == 8 → val < base ^ (places flags base prec val - 1)) := by
  have written : val < base ^ (Nat.digits base val).length := Nat.lt_base_pow_length_digits big
  constructor
  · refine Nat.lt_of_lt_of_le written (Nat.pow_le_pow_right (by omega) ?_)
    simp only [places]
    split <;> omega
  · intro octal
    refine Nat.lt_of_lt_of_le written (Nat.pow_le_pow_right (by omega) ?_)
    simp only [places, octal, if_true]
    omega

def signText (flags : Flags) (val : Nat) : List UInt8 :=
  if negative flags val then [45] else if flags.plus then [43] else []

def spaceText (flags : Flags) (val : Nat) : List UInt8 :=
  if negative flags val || flags.plus || !flags.space then [] else [32]

def markText (flags : Flags) (base : Nat) : List UInt8 :=
  if flags.hash && base == 16 then [48, if flags.upper then 88 else 120] else []

theorem frontText_split (flags : Flags) (base val : Nat) :
    frontText flags base val = spaceText flags val ++ signText flags val ++ markText flags base := by
  simp only [frontText, spaceText, signText, markText]
  cases negative flags val <;> cases flags.plus <;> cases flags.space <;> rfl

/-- The padding behind a number. -/
def trailing (val : Nat) (flags : Flags) (base width : Nat) (prec : Int) : Nat :=
  if flags.minus then
    width - ((numberText flags base prec (magnitude flags val)).length +
      (frontText flags base val).length)
  else
    0

def shownNumeral (val : Nat) (flags : Flags) (base width : Nat) (prec : Int) : Numeral :=
  let number := numberText flags base prec (magnitude flags val)
  let gap := width - (number.length + (frontText flags base val).length)
  { blanks :=
      List.replicate (if !(flags.minus || flags.zero) then gap else 0) 32 ++ spaceText flags val
    sign := signText flags val
    mark := markText flags base
    digits := List.replicate (if !flags.minus && flags.zero then gap else 0) 48 ++ number
    rest := List.replicate (trailing val flags base width prec) 32 }

theorem shownNumeral_parts (val : Nat) (flags : Flags) (base width : Nat) (prec : Int) :
    intText val flags base width prec =
      (shownNumeral val flags base width prec).blanks ++
        ((shownNumeral val flags base width prec).sign ++
          ((shownNumeral val flags base width prec).mark ++
            ((shownNumeral val flags base width prec).digits ++
              (shownNumeral val flags base width prec).rest))) := by
  rw [intText_eq]
  simp only [shownNumeral, trailing, frontText_split, List.append_assoc]

theorem numberText_plain {prec : Int} {val : Nat} (plain : flags.tick = false) :
    numberText flags base prec val =
      (digitsBack (if flags.upper then ucdigits else lcdigits) base
        (places flags base prec val) val).reverse := by
  simp only [numberText, plain, Bool.false_eq_true, if_false]

theorem shownNumeral_digits {val width : Nat} {prec : Int} (plain : flags.tick = false)
    (positive : 0 < base) {c : UInt8}
    (member : c ∈ (shownNumeral val flags base width prec).digits) :
    ∃ d, d < base ∧ c = (if flags.upper then ucdigits else lcdigits).getD d 0 := by
  simp only [shownNumeral, List.mem_append] at member
  rcases member with zero | digit
  · obtain ⟨-, rfl⟩ := List.mem_replicate.mp zero
    exact ⟨0, positive, by cases flags.upper <;> rfl⟩
  · rw [numberText_plain plain, List.mem_reverse] at digit
    exact mem_digitsBack positive digit

theorem shownNumeral_positional (val width : Nat) (prec : Int) (plain : flags.tick = false)
    (big : 1 < base) (hexadecimal : base ≤ 16) :
    positional base (shownNumeral val flags base width prec).digits = magnitude flags val := by
  have fits := (magnitude_fits flags prec (magnitude flags val) big).1
  simp only [shownNumeral]
  rw [positional_zeros, numberText_plain plain, positional_digitsBack (by omega) hexadecimal,
    Nat.mod_eq_of_lt fits]

theorem shownNumeral_octal {val width : Nat} {prec : Int} (plain : flags.tick = false)
    (hash : flags.hash) : (shownNumeral val flags 8 width prec).digits.head? = some 48 := by
  simp only [shownNumeral]
  generalize (if !flags.minus && flags.zero then _ else 0) = zeros
  cases zeros with
  | succ zeros => rfl
  | zero =>
    have some := places_pos flags 8 prec (magnitude flags val)
    have spare := (magnitude_fits flags prec (magnitude flags val) (by decide : 1 < 8)).2
      (by rw [hash]; rfl)
    have front := head_digitsBack flags.upper spare
    rw [Nat.sub_add_cancel some] at front
    rw [List.replicate_zero, List.nil_append, numberText_plain plain]
    exact front

/-- The base is found again: it is the one given, or follows from the alternative form. -/
theorem shownNumeral_radix (val width : Nat) (prec : Int) {read : Nat}
    (plain : flags.tick = false) (counts : base = 8 ∨ base = 10 ∨ base = 16)
    (reads : read = base ∨ (read = 0 ∧ flags.hash ∧ base ≠ 10)) :
    (shownNumeral val flags base width prec).radix read = base := by
  by_cases marked : flags.hash && base == 16
  · have shape : (shownNumeral val flags base width prec).mark ≠ [] := by
      simp [shownNumeral, markText, marked]
    rw [Numeral.radix, if_pos shape]
    simp only [Bool.and_eq_true, beq_iff_eq] at marked
    exact marked.2.symm
  · have shape : (shownNumeral val flags base width prec).mark = [] := by
      simp [shownNumeral, markText, marked]
    rw [Numeral.radix, shape, if_neg (by simp)]
    rcases reads with rfl | ⟨rfl, hash, not_ten⟩
    · rw [if_neg (by omega)]
    · obtain rfl : base = 8 := by
        simp only [hash, Bool.true_and, beq_iff_eq] at marked
        omega
      rw [if_pos rfl, if_pos (shownNumeral_octal plain hash)]

/-- The letters that mark a hexadecimal number are no digits, and neither are signs and
blanks. -/
theorem digit_plain (upper : Bool) {d : Nat} (small : d < 16) :
    let c := (if upper then ucdigits else lcdigits).getD d 0
    isspace c = false ∧ c ≠ 43 ∧ c ≠ 45 ∧ c ≠ 120 ∧ c ≠ 88 := by
  have each : ∀ upper : Bool, ∀ d : Fin 16,
      let c := (if upper then ucdigits else lcdigits).getD d.val 0
      isspace c = false ∧ c ≠ 43 ∧ c ≠ 45 ∧ c ≠ 120 ∧ c ≠ 88 := by
    decide +kernel
  exact each upper ⟨d, small⟩

theorem shownNumeral_some (val : Nat) (flags : Flags) (base width : Nat) (prec : Int) :
    (shownNumeral val flags base width prec).digits ≠ [] := by
  have length := numberText_length flags base prec (magnitude flags val)
  have some := places_pos flags base prec (magnitude flags val)
  intro none
  have empty := congrArg List.length none
  simp only [shownNumeral, List.length_append, List.length_nil, length] at empty
  generalize (places flags base prec (magnitude flags val) - 1) / _ = ticks at empty
  omega

theorem shownNumeral_of (val width : Nat) (prec : Int) {read : Nat}
    (plain : flags.tick = false) (counts : base = 8 ∨ base = 10 ∨ base = 16)
    (reads : read = base ∨ (read = 0 ∧ flags.hash ∧ base ≠ 10)) :
    (shownNumeral val flags base width prec).Of read (intText val flags base width prec) := by
  have radix := shownNumeral_radix val width prec plain counts reads
  have digit {c : UInt8} (member : c ∈ (shownNumeral val flags base width prec).digits) :=
    shownNumeral_digits plain (by omega) member
  have some := shownNumeral_some val flags base width prec
  refine ⟨shownNumeral_parts val flags base width prec, ?_, ?_, ?_, ?_, ?_, ?_, ?_⟩
  · intro c member
    simp only [shownNumeral, spaceText, List.mem_append, List.mem_replicate] at member
    rcases member with ⟨-, rfl⟩ | blank
    · rfl
    · split at blank
      · simp at blank
      · rw [List.mem_singleton] at blank
        subst blank
        rfl
  · simp only [shownNumeral, signText]
    split_ifs
    · exact Or.inr (Or.inr rfl)
    · exact Or.inr (Or.inl rfl)
    · exact Or.inl rfl
  · intro _ c first
    by_cases marked : flags.hash && base == 16
    · have mark : (shownNumeral val flags base width prec).mark =
          [48, if flags.upper then 88 else 120] := by
        simp [shownNumeral, markText, marked]
      rw [mark] at first
      obtain rfl : 48 = c := Option.some.inj first
      decide
    · have mark : (shownNumeral val flags base width prec).mark = [] := by
        simp [shownNumeral, markText, marked]
      obtain ⟨d, ds, shape⟩ := List.exists_cons_of_ne_nil some
      rw [mark, shape] at first
      obtain rfl : d = c := Option.some.inj first
      obtain ⟨x, small, rfl⟩ := digit (by rw [shape]; exact List.mem_cons_self)
      obtain ⟨no_space, no_plus, no_minus, -⟩ := digit_plain flags.upper
        (by omega : x < 16)
      exact ⟨no_space, no_plus, no_minus⟩
  · by_cases marked : flags.hash && base == 16
    · refine Or.inr ⟨?_, ?_⟩
      · simp only [Bool.and_eq_true, beq_iff_eq] at marked
        omega
      · simp only [shownNumeral, markText, marked, if_true]
        cases flags.upper
        · exact Or.inl rfl
        · exact Or.inr rfl
    · exact Or.inl (by simp [shownNumeral, markText, marked])
  · intro _ _ x s shape
    have member : x ∈ (shownNumeral val flags base width prec).digits ∨
        x ∈ (shownNumeral val flags base width prec).rest := by
      rw [← List.mem_append, shape]
      exact List.mem_cons_of_mem _ List.mem_cons_self
    rcases member with inside | after
    · obtain ⟨d, small, rfl⟩ := digit inside
      obtain ⟨-, -, -, lower, upper⟩ := digit_plain flags.upper (by omega : d < 16)
      exact ⟨lower, upper⟩
    · simp only [shownNumeral, List.mem_replicate] at after
      rw [after.2]
      decide
  · intro c member
    obtain ⟨d, small, rfl⟩ := digit member
    rw [radix]
    exact digitIn_iff.mpr ⟨d, digitValue_digit flags.upper (by omega), small⟩
  · intro c first
    have after := List.mem_of_mem_head? first
    simp only [shownNumeral, List.mem_replicate] at after
    rw [after.2]
    rfl

/-- `strtol` reads the text of an integer conversion back as the number it shows, clamped to a
`long`, and stops at the padding behind it. -/
theorem strtol_intText {val : Nat} (flags : Flags) (width : Nat) (prec : Int) {read : Nat}
    (plain : flags.tick = false) (counts : base = 8 ∨ base = 10 ∨ base = 16)
    (reads : read = base ∨ (read = 0 ∧ flags.hash ∧ base ≠ 10)) :
    strtol (intText val flags base width prec) read =
      (saturate (shownValue flags val),
        (intText val flags base width prec).length - trailing val flags base width prec) := by
  have of := shownNumeral_of val width prec plain counts reads
  have radix := shownNumeral_radix val width prec plain counts reads
  have value := shownNumeral_positional val width prec plain
    (by omega : 1 < base) (by omega)
  have exactly : (shownNumeral val flags base width prec).exact read = shownValue flags val := by
    rw [Numeral.exact, radix, value, shownValue]
    cases minus : negative flags val <;> cases plus : flags.plus <;>
      simp [shownNumeral, signText, minus, plus]
  have length := congrArg List.length of.parts
  have rest : (shownNumeral val flags base width prec).rest.length =
      trailing val flags base width prec := List.length_replicate
  simp only [List.length_append] at length
  rw [strtol_of of, exactly]
  refine Prod.ext rfl ?_
  simp only [Numeral.stop, if_neg (shownNumeral_some val flags base width prec)]
  omega

def Output.Counts (tick : Bool) : Output → Prop
  | .int _ flags base _ _ => flags.tick = tick ∧ (base = 8 ∨ base = 10 ∨ base = 16)
  | _ => True

theorem terminal_counts (args : Args) (ch : UInt8) (s : Scan) :
    (terminal args ch s).2.Counts s.flags.tick := by
  have pointer (upper : Bool) : (convertPointer args upper s).2.Counts s.flags.tick :=
    ⟨rfl, Or.inr (Or.inr rfl)⟩
  have unsigned {base : Nat} (upper : Bool) (counts : base = 8 ∨ base = 10 ∨ base = 16) :
      (convertUnsigned args base upper s).2.Counts s.flags.tick := ⟨rfl, counts⟩
  unfold terminal
  split
  · exact pointer true
  split
  · exact pointer false
  split
  · exact ⟨rfl, Or.inr (Or.inl rfl)⟩
  split
  · exact unsigned false (Or.inl rfl)
  split
  · exact unsigned false (Or.inr (Or.inl rfl))
  split
  · exact unsigned true (Or.inr (Or.inr rfl))
  split
  · exact unsigned false (Or.inr (Or.inr rfl))
  split
  · trivial
  split
  · trivial
  split <;> trivial

theorem formatText_directive {args : Args} {d : Directive} (numbers : d.Fits args 0) :
    formatText args d.spell = (terminal args d.conv (d.asked args 0)).2.text := by
  have alone := @formatText_pieces args [.directive d] ⟨numbers, trivial⟩
  simpa [meanings, Piece.spell, Piece.meaning] using alone

theorem loadBytes_storeBytes (m : Mem) (address : Nat) (bytes more : List UInt8) :
    loadBytes (storeBytes m address (bytes ++ more)) address bytes.length = bytes := by
  apply List.ext_getElem (by simp)
  intro i inside inside'
  simp only [loadBytes, List.getElem_map, List.getElem_range]
  rw [storeBytes_inside _ _ _ _ (by simp only [List.length_append]; omega),
    List.getElem_append_left inside']

/-- What `vsnprintf` leaves in a buffer for a directive of an integer, `strtol` reads back: in
the base of the directive, or in base 0 if the directive marks the base. The width, the
precision, the flags other than the tick mark and the length modifiers may be any. A number that
no `long` can hold comes back as the nearest one that it can. -/
theorem vsnprintf_strtol (mem : Mem) (buffer n : Nat) (args : Args) (d : Directive)
    {val base width read : Nat} {flags : Flags} {prec : Int}
    (conversion : (terminal args d.conv (d.asked args 0)).2 = .int val flags base width prec)
    (plain : 39 ∉ d.flags) (numbers : d.Fits args 0)
    (word : buffer < 2 ^ 32) (fits : buffer + n ≤ 2 ^ 32)
    (short : (intText val flags base width prec).length < 2 ^ 31)
    (room : (intText val flags base width prec).length < n)
    (reads : read = base ∨ (read = 0 ∧ flags.hash ∧ base ≠ 10)) :
    let text := intText val flags base width prec
    ∃ mem', vsnprintf mem buffer n d.spell args = some (mem', (text.length : Int)) ∧
      mem' (buffer + text.length) = 0 ∧
      strtol (loadBytes mem' buffer text.length) read =
        (saturate (shownValue flags val), text.length - trailing val flags base width prec) := by
  have counts := terminal_counts args d.conv (d.asked args 0)
  rw [conversion] at counts
  have untick : flags.tick = false := by
    rw [counts.1]
    simpa [Directive.asked, writtenFlags] using plain
  have text : formatText args d.spell = intText val flags base width prec := by
    rw [formatText_directive numbers, conversion]
    rfl
  have alone : said (outputs args d.spell {}) = [.int val flags base width prec] := by
    have meaning := @outputs_pieces args {} [.directive d] ⟨numbers, trivial⟩ rfl
    simpa [meanings, Piece.spell, Piece.meaning, conversion] using meaning
  have kept {out : Output} (found : out ∈ outputs args d.spell {}) (speaks : out.Silent = false) :
      out = .int val flags base width prec := by
    have mem_said : out ∈ said (outputs args d.spell {}) :=
      List.mem_filter.mpr ⟨found, by rw [speaks]; rfl⟩
    rw [alone, List.mem_singleton] at mem_said
    exact mem_said
  have apart : CountsApart (outputs args d.spell {}) buffer n := by
    intro rank pointer found
    cases kept found rfl
  have on : ∀ out ∈ outputs args d.spell {}, out.OnString := by
    intro out found
    cases out with
    | string sarg flags width prec => cases kept found rfl
    | _ => trivial
  obtain ⟨w, ran, wrote⟩ := printLoop_wrote args d.spell {} (Wrote.start mem buffer n word) fits
    (by rw [← formatText, text, List.length_nil]; omega) on apart
  have printed := vsnprintf_of_wrote ran wrote fits
    (by rwa [← formatText, List.nil_append, text])
  rw [← formatText, List.nil_append, text, if_neg (by omega),
    List.take_of_length_le (by omega)] at printed
  refine ⟨_, printed, ?_, ?_⟩
  · rw [storeBytes_inside _ _ _ _ (by simp), List.getElem_append_right (Nat.le_refl _)]
    simp
  · rw [loadBytes_storeBytes]
    exact strtol_intText flags width prec untick counts.2 reads

theorem vsnprintf_strtol_minus :
    ∃ mem', vsnprintf (fun _ => 35) 100 6 plusFive.spell ⟨fun _ => 4294967254, fun _ => []⟩ =
        some (mem', 5) ∧
      mem' (100 + 5) = 0 ∧ strtol (loadBytes mem' 100 5) 10 = (-42, 5) := by
  have text : intText (2 ^ 64 - 42) { plus := true, signed := true } 10 5 (-1) =
      [32, 32, 45, 52, 50] := by decide
  have value : saturate (shownValue { plus := true, signed := true } (2 ^ 64 - 42)) = -42 := by
    decide
  have behind : trailing (2 ^ 64 - 42) { plus := true, signed := true } 10 5 (-1) = 0 := by decide
  have printed := @vsnprintf_strtol (fun _ => 35) 100 6 ⟨fun _ => 4294967254, fun _ => []⟩ plusFive
    (2 ^ 64 - 42) 10 5 10 { plus := true, signed := true } (-1) (by rfl) (by decide)
    (plusFive_fits _ 0) (by decide) (by decide) (by rw [text]; decide) (by rw [text]; decide) (Or.inl rfl)
  rw [text, value, behind] at printed
  exact printed

end SysImpl.Text
