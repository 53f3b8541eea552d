import SysImpl.Lib.Bytes
import SysImpl.Lib.Spans
import Mathlib.Algebra.Order.Group.Nat

/-! `strtol` of `src/string.c`, and what it reads of any string.

A string is the list of its bytes before the terminator. Behind the character in `c` the
pointer `s` is always one further, so that `c` and `s` together are a rest of the string. -/

namespace SysImpl.Text

open SysImpl.Bytes SysImpl.Spans

def isspace (c : UInt8) : Bool := c = 32 || (9 ≤ c && c ≤ 13)

def isdigit (c : UInt8) : Bool := 48 ≤ c && c ≤ 57

def isupper (c : UInt8) : Bool := 65 ≤ c && c ≤ 90

def islower (c : UInt8) : Bool := 97 ≤ c && c ≤ 122

def digitValue (c : UInt8) : Option Nat :=
  if isdigit c then some (c.toNat - 48)
  else if isupper c then some (c.toNat - 55)
  else if islower c then some (c.toNat - 87)
  else none

/-- The loop over the digits, with `acc`, `any` and the rest of the string it stops at. -/
def accumulate (base cutoff cutlim : Nat) : List UInt8 → Nat → Int → Nat × Int × List UInt8
  | [], acc, any => (acc, any, [])
  | c :: s, acc, any =>
    match digitValue c with
    | none => (acc, any, c :: s)
    | some d =>
      if base ≤ d then (acc, any, c :: s)
      else if any < 0 ∨ cutoff < acc ∨ (acc = cutoff ∧ cutlim < d) then
        accumulate base cutoff cutlim s acc (-1)
      else
        accumulate base cutoff cutlim s (u32 (acc * base + d)) 1

def takeSign : List UInt8 → Bool × List UInt8
  | 45 :: s => (true, s)
  | 43 :: s => (false, s)
  | s => (false, s)

/-- The mark of a hexadecimal number, where the base lets it stand, and the base to count in. -/
def takeMark (base : Nat) : List UInt8 → Nat × List UInt8
  | c :: x :: s =>
    if (base = 0 ∨ base = 16) ∧ c = 48 ∧ (x = 120 ∨ x = 88) then (16, s)
    else (if base = 0 then (if c = 48 then 8 else 10) else base, c :: x :: s)
  | s => (if base = 0 then (if s.head? = some 48 then 8 else 10) else base, s)

def strtol (nptr : List UInt8) (base : Nat) : Int × Nat :=
  let s := nptr.dropWhile isspace
  let (neg, s) := takeSign s
  let (base, s) := takeMark base s
  let cutoff := if neg then 2 ^ 31 else 2 ^ 31 - 1
  let (acc, any, s) := accumulate base (cutoff / base) (cutoff % base) s 0 0
  let acc :=
    if any < 0 then (if neg then 2 ^ 31 else 2 ^ 31 - 1)
    else if neg then u32 (2 ^ 32 - acc)
    else acc
  (asInt acc, if any = 0 then 0 else nptr.length - s.length)

structure Numeral where
  blanks : List UInt8
  sign : List UInt8
  mark : List UInt8
  digits : List UInt8
  rest : List UInt8

def Numeral.radix (n : Numeral) (base : Nat) : Nat :=
  if n.mark ≠ [] then 16
  else if base = 0 then (if n.digits.head? = some 48 then 8 else 10)
  else base

def digitIn (radix : Nat) (c : UInt8) : Bool := (digitValue c).any fun d => decide (d < radix)

/-- A string cut into the parts of a number, each as long as it can be. -/
structure Numeral.Of (n : Numeral) (base : Nat) (text : List UInt8) : Prop where
  parts : text = n.blanks ++ (n.sign ++ (n.mark ++ (n.digits ++ n.rest)))
  blanks : ∀ c ∈ n.blanks, isspace c
  sign : n.sign = [] ∨ n.sign = [43] ∨ n.sign = [45]
  unsigned : n.sign = [] →
    ∀ c ∈ (n.mark ++ (n.digits ++ n.rest)).head?, isspace c = false ∧ c ≠ 43 ∧ c ≠ 45
  mark : n.mark = [] ∨ (base = 0 ∨ base = 16) ∧ (n.mark = [48, 120] ∨ n.mark = [48, 88])
  unmarked : n.mark = [] → base = 0 ∨ base = 16 →
    ∀ x s, n.digits ++ n.rest = 48 :: x :: s → x ≠ 120 ∧ x ≠ 88
  digits : ∀ c ∈ n.digits, digitIn (n.radix base) c
  rest : ∀ c ∈ n.rest.head?, digitIn (n.radix base) c = false

def positional (radix : Nat) (digits : List UInt8) : Nat :=
  digits.foldl (fun value c => value * radix + (digitValue c).getD 0) 0

def Numeral.exact (n : Numeral) (base : Nat) : Int :=
  if n.sign = [45] then -(positional (n.radix base) n.digits : Int)
  else positional (n.radix base) n.digits

def saturate (x : Int) : Int := max (-2 ^ 31) (min x (2 ^ 31 - 1))

def Numeral.stop (n : Numeral) : Nat :=
  if n.digits = [] then 0
  else n.blanks.length + n.sign.length + n.mark.length + n.digits.length

variable {base cutoff cutlim limit acc : Nat} {ds rest text : List UInt8} {n : Numeral}

theorem digitIn_iff {c : UInt8} : digitIn base c ↔ ∃ d, digitValue c = some d ∧ d < base := by
  simp [digitIn, Option.any_eq_true]

theorem accumulate_rest (stop : ∀ c ∈ rest.head?, digitIn base c = false) (acc : Nat) (any : Int) :
    accumulate base cutoff cutlim rest acc any = (acc, any, rest) := by
  cases rest with
  | nil => rfl
  | cons c s =>
    have plain := stop c rfl
    rw [accumulate]
    cases value : digitValue c with
    | none => rfl
    | some d =>
      have big : base ≤ d := by simpa [digitIn, value] using plain
      exact if_pos big

theorem accumulate_over (all : ∀ c ∈ ds, digitIn base c)
    (stop : ∀ c ∈ rest.head?, digitIn base c = false) :
    accumulate base cutoff cutlim (ds ++ rest) acc (-1) = (acc, -1, rest) := by
  induction ds with
  | nil => exact accumulate_rest stop acc (-1)
  | cons c ds ih =>
    obtain ⟨d, value, small⟩ := digitIn_iff.mp (all c List.mem_cons_self)
    rw [List.cons_append, accumulate, value]
    simp only
    rw [if_neg (by omega), if_pos (Or.inl (by decide))]
    exact ih fun c found => all c (List.mem_cons_of_mem _ found)

def withDigit (radix value : Nat) (c : UInt8) : Nat := value * radix + (digitValue c).getD 0

theorem le_foldl_withDigit (positive : 0 < base) (ds : List UInt8) (acc : Nat) :
    acc ≤ ds.foldl (withDigit base) acc := by
  induction ds generalizing acc with
  | nil => exact Nat.le_refl acc
  | cons c ds ih =>
    calc
      acc ≤ acc * base := Nat.le_mul_of_pos_right acc positive
      _ ≤ withDigit base acc c := Nat.le_add_right _ _
      _ ≤ _ := ih _

/-- The test against the cutoff says whether the number with one more digit is too large. -/
theorem cutoff_iff (limit acc : Nat) {d : Nat} (small : d < base) :
    limit / base < acc ∨ (acc = limit / base ∧ limit % base < d) ↔ limit < acc * base + d := by
  have divided := Nat.div_add_mod limit base
  have below : limit % base < base := Nat.mod_lt _ (by omega)
  constructor
  · rintro (more | ⟨same, last⟩)
    · have step : base * (limit / base + 1) ≤ base * acc := Nat.mul_le_mul_left _ more
      rw [Nat.mul_add, Nat.mul_one] at step
      rw [Nat.mul_comm acc base]
      omega
    · rw [Nat.mul_comm acc base, same]
      omega
  · intro beyond
    by_contra neither
    rw [not_or, not_lt, not_and, not_lt] at neither
    obtain ⟨within, last⟩ := neither
    rcases Nat.lt_or_eq_of_le within with less | same
    · have step : base * (acc + 1) ≤ base * (limit / base) := Nat.mul_le_mul_left _ less
      rw [Nat.mul_add, Nat.mul_one] at step
      rw [Nat.mul_comm acc base] at beyond
      omega
    · have final := last same
      rw [Nat.mul_comm acc base, same] at beyond
      omega

theorem accumulate_eq (acc : Nat) (bound : limit < 2 ^ 32) (all : ∀ c ∈ ds, digitIn base c)
    (stop : ∀ c ∈ rest.head?, digitIn base c = false) (any : Int) (found : 0 ≤ any)
    (within : acc ≤ limit) :
    (ds.foldl (withDigit base) acc ≤ limit →
      accumulate base (limit / base) (limit % base) (ds ++ rest) acc any =
        (ds.foldl (withDigit base) acc, if ds = [] then any else 1, rest)) ∧
    (limit < ds.foldl (withDigit base) acc →
      ∃ acc', accumulate base (limit / base) (limit % base) (ds ++ rest) acc any =
        (acc', -1, rest)) := by
  induction ds generalizing acc any with
  | nil =>
    exact ⟨fun _ => accumulate_rest stop acc any,
      fun beyond => absurd within (not_le.mpr beyond)⟩
  | cons c ds ih =>
    obtain ⟨d, value, small⟩ := digitIn_iff.mp (all c List.mem_cons_self)
    have later : ∀ c ∈ ds, digitIn base c := fun c found => all c (List.mem_cons_of_mem _ found)
    have digit : withDigit base acc c = acc * base + d := by simp [withDigit, value]
    have grows := le_foldl_withDigit (by omega : 0 < base) ds (acc * base + d)
    have test := cutoff_iff limit acc small
    rw [List.foldl_cons, digit, List.cons_append, accumulate, value]
    simp only
    rw [if_neg (by omega)]
    by_cases beyond : limit < acc * base + d
    · rw [if_pos (Or.inr (test.mpr beyond)), accumulate_over later stop]
      exact ⟨fun fits => by omega, fun _ => ⟨acc, rfl⟩⟩
    · have word : u32 (acc * base + d) = acc * base + d := Nat.mod_eq_of_lt (by omega)
      rw [if_neg (by rw [test]; omega), word]
      have next := ih _ later 1 (by decide) (by omega : acc * base + d ≤ limit)
      simpa using next

theorem takeSign_of (of : n.Of base text) :
    takeSign (n.sign ++ (n.mark ++ (n.digits ++ n.rest))) =
      (decide (n.sign = [45]), n.mark ++ (n.digits ++ n.rest)) := by
  rcases of.sign with none | plus | minus
  · have plain := of.unsigned none
    rw [none, List.nil_append]
    cases shape : n.mark ++ (n.digits ++ n.rest) with
    | nil => rfl
    | cons c s =>
      obtain ⟨-, not_plus, not_minus⟩ := plain c (by rw [shape]; rfl)
      unfold takeSign
      split
      · next same => exact absurd (List.cons.inj same).1 not_minus
      · next same => exact absurd (List.cons.inj same).1 not_plus
      · rfl
  · rw [plus]
    rfl
  · rw [minus]
    rfl

/-- A first character 0 is always one of the digits. -/
theorem head_zero_iff (digits : List UInt8) (positive : 0 < base)
    (stop : ∀ c ∈ rest.head?, digitIn base c = false) :
    (digits ++ rest).head? = some 48 ↔ digits.head? = some 48 := by
  cases digits with
  | cons c s => rfl
  | nil =>
    constructor
    · intro zero
      have plain := stop 48 zero
      have digit : digitIn base 48 := digitIn_iff.mpr ⟨0, rfl, positive⟩
      rw [plain] at digit
      exact absurd digit (by decide)
    · intro impossible
      simp at impossible

theorem radix_pos (n : Numeral) : 0 < n.radix 0 := by
  simp only [Numeral.radix, if_true]
  split_ifs <;> decide

theorem takeMark_of (of : n.Of base text) :
    takeMark base (n.mark ++ (n.digits ++ n.rest)) = (n.radix base, n.digits ++ n.rest) := by
  rcases of.mark with none | ⟨hexadecimal, marked⟩
  · have radix : n.radix base =
        if base = 0 then (if (n.digits ++ n.rest).head? = some 48 then 8 else 10) else base := by
      by_cases zero : base = 0
      · subst zero
        simp only [Numeral.radix, none, ne_eq, not_true, if_false, if_true,
          head_zero_iff n.digits (radix_pos n) of.rest]
      · simp [Numeral.radix, none, zero]
    have plain := of.unmarked none
    rw [radix, none, List.nil_append]
    generalize n.digits ++ n.rest = s at *
    rcases s with _ | ⟨c, _ | ⟨x, s⟩⟩
    · simp [takeMark]
    · simp [takeMark]
    · have no_mark : ¬ ((base = 0 ∨ base = 16) ∧ c = 48 ∧ (x = 120 ∨ x = 88)) := by
        rintro ⟨hexadecimal, rfl, letter⟩
        obtain ⟨lower, upper⟩ := plain hexadecimal x s rfl
        exact letter.elim lower upper
      rw [takeMark, if_neg no_mark]
      simp
  · have radix : n.radix base = 16 := by
      rcases marked with shape | shape <;> simp [Numeral.radix, shape]
    rw [radix]
    rcases marked with shape | shape <;> rw [shape] <;> simp [takeMark, hexadecimal]

theorem asInt_within (neg : Prop) [Decidable neg] {value : Nat}
    (within : value ≤ if neg then 2 ^ 31 else 2 ^ 31 - 1) :
    asInt (if neg then u32 (2 ^ 32 - value) else value) =
      saturate (if neg then -(value : Int) else value) := by
  unfold asInt saturate u32
  split_ifs at within ⊢ <;> omega

theorem asInt_over (neg : Prop) [Decidable neg] {value : Nat}
    (beyond : (if neg then 2 ^ 31 else 2 ^ 31 - 1) < value) :
    asInt (if neg then 2 ^ 31 else 2 ^ 31 - 1) =
      saturate (if neg then -(value : Int) else value) := by
  unfold asInt saturate
  split_ifs at beyond ⊢ <;> omega

/-- Of any string `strtol` reads the number at its start: the blanks before it, its sign and
its mark do not count, and a number that no `long` can hold becomes the nearest one. -/
theorem strtol_of (of : n.Of base text) :
    strtol text base = (saturate (n.exact base), n.stop) := by
  have start : (n.blanks ++ (n.sign ++ (n.mark ++ (n.digits ++ n.rest)))).dropWhile isspace =
      n.sign ++ (n.mark ++ (n.digits ++ n.rest)) := by
    rw [List.dropWhile_append_of_pos of.blanks]
    rcases of.sign with none | plus | minus
    · have plain := of.unsigned none
      rw [none, List.nil_append]
      cases shape : n.mark ++ (n.digits ++ n.rest) with
      | nil => rfl
      | cons c s =>
        obtain ⟨no_space, -, -⟩ := plain c (by rw [shape]; rfl)
        exact List.dropWhile_cons_of_neg (by rw [no_space]; decide)
    · rw [plus]
      rfl
    · rw [minus]
      rfl
  have length := congrArg List.length of.parts
  simp only [List.length_append] at length
  have loop (limit : Nat) (bound : limit < 2 ^ 32) := accumulate_eq 0 bound of.digits
    of.rest 0 (by decide) (Nat.zero_le limit)
  have value : n.digits.foldl (withDigit (n.radix base)) 0 =
      positional (n.radix base) n.digits := rfl
  rw [value] at loop
  have stop (found : n.digits ≠ []) :
      text.length - n.rest.length = n.stop := by
    rw [Numeral.stop, if_neg found]
    omega
  have nothing (none : n.digits = []) : positional (n.radix base) n.digits = 0 := by
    rw [none]
    rfl
  rw [strtol, of.parts, start]
  simp only [takeSign_of of, takeMark_of of, ← of.parts, decide_eq_true_eq]
  obtain ⟨small, large⟩ := loop (if n.sign = [45] then 2 ^ 31 else 2 ^ 31 - 1)
    (by split <;> decide)
  by_cases within : positional (n.radix base) n.digits ≤
      if n.sign = [45] then 2 ^ 31 else 2 ^ 31 - 1
  · rw [small within]
    by_cases found : n.digits = []
    · simp only [found, if_true, Int.lt_irrefl, if_false]
      refine Prod.ext ?_ (by simp [Numeral.stop, found])
      have shown := asInt_within (n.sign = [45]) within
      simpa only [Numeral.exact, found] using shown
    · simp only [found, if_false, Int.one_ne_zero, show ¬ (1 : Int) < 0 by decide]
      exact Prod.ext (asInt_within (n.sign = [45]) within) (stop found)
  · obtain ⟨acc, beyond⟩ := large (not_le.mp within)
    have found : n.digits ≠ [] := by
      intro none
      rw [nothing none] at within
      exact within (Nat.zero_le _)
    rw [beyond]
    simp only [show (-1 : Int) < 0 by decide, if_true, show ¬ (-1 : Int) = 0 by decide, if_false]
    exact Prod.ext (asInt_over (n.sign = [45]) (not_le.mp within)) (stop found)

theorem exists_sign (s : List UInt8) :
    ∃ sign tail, s = sign ++ tail ∧ (sign = [] ∨ sign = [43] ∨ sign = [45]) ∧
      (sign = [] → ∀ c ∈ tail.head?, c ≠ 43 ∧ c ≠ 45) := by
  cases s with
  | nil => exact ⟨[], [], rfl, Or.inl rfl, fun _ c none => by simp at none⟩
  | cons c s =>
    by_cases plus : c = 43
    · exact ⟨[43], s, by rw [plus]; rfl, Or.inr (Or.inl rfl), fun none => by simp at none⟩
    · by_cases minus : c = 45
      · exact ⟨[45], s, by rw [minus]; rfl, Or.inr (Or.inr rfl), fun none => by simp at none⟩
      · refine ⟨[], c :: s, rfl, Or.inl rfl, ?_⟩
        intro _ first same
        obtain rfl : c = first := Option.some.inj same
        exact ⟨plus, minus⟩

theorem exists_mark (base : Nat) (s : List UInt8) :
    ∃ mark tail, s = mark ++ tail ∧
      (mark = [] ∨ (base = 0 ∨ base = 16) ∧ (mark = [48, 120] ∨ mark = [48, 88])) ∧
      (mark = [] → base = 0 ∨ base = 16 → ∀ x t, tail = 48 :: x :: t → x ≠ 120 ∧ x ≠ 88) := by
  by_cases marked : (base = 0 ∨ base = 16) ∧ ∃ x t, s = 48 :: x :: t ∧ (x = 120 ∨ x = 88)
  · obtain ⟨hexadecimal, x, t, rfl, letter⟩ := marked
    refine ⟨[48, x], t, rfl, Or.inr ⟨hexadecimal, ?_⟩, fun none => by simp at none⟩
    rcases letter with rfl | rfl
    · exact Or.inl rfl
    · exact Or.inr rfl
  · refine ⟨[], s, rfl, Or.inl rfl, fun _ hexadecimal x t shape => ?_⟩
    constructor
    · rintro rfl
      exact marked ⟨hexadecimal, _, t, shape, Or.inl rfl⟩
    · rintro rfl
      exact marked ⟨hexadecimal, _, t, shape, Or.inr rfl⟩

theorem exists_numeral (base : Nat) (text : List UInt8) : ∃ n : Numeral, n.Of base text := by
  obtain ⟨blanks, afterBlanks, rfl, blank, no_blank⟩ := exists_cut isspace text
  obtain ⟨sign, afterSign, rfl, signed, unsigned⟩ := exists_sign afterBlanks
  obtain ⟨mark, afterMark, rfl, marked, unmarked⟩ := exists_mark base afterSign
  obtain ⟨digits, rest, rfl, all, stop⟩ := exists_cut (digitIn
    (if mark ≠ [] then 16
      else if base = 0 then (if afterMark.head? = some 48 then 8 else 10) else base)) afterMark
  have radix : (⟨blanks, sign, mark, digits, rest⟩ : Numeral).radix base =
      if mark ≠ [] then 16
      else if base = 0 then (if (digits ++ rest).head? = some 48 then 8 else 10) else base := by
    by_cases counted : mark = [] ∧ base = 0
    · obtain ⟨rfl, rfl⟩ := counted
      simp only [ne_eq, not_true, if_false, if_true] at stop
      have first := head_zero_iff digits (by split <;> decide) stop
      simp only [Numeral.radix, ne_eq, not_true, if_false, if_true, first]
    · by_cases none : mark = []
      · simp [Numeral.radix, none, show base ≠ 0 from fun zero => counted ⟨none, zero⟩]
      · simp [Numeral.radix, none]
  refine ⟨⟨blanks, sign, mark, digits, rest⟩, rfl, blank, signed, ?_, marked, unmarked, ?_, ?_⟩
  · intro none c first
    subst none
    exact ⟨no_blank c first, unsigned rfl c first⟩
  · rw [radix]
    exact all
  · rw [radix]
    exact stop

/-- Every string begins with a number in the base that is given, if only with an empty one,
and `strtol` reads it to the nearest `long` and finds its end. -/
theorem strtol_reads (base : Nat) (text : List UInt8) :
    (∃ n : Numeral, n.Of base text) ∧
      ∀ n : Numeral, n.Of base text → strtol text base = (saturate (n.exact base), n.stop) :=
  ⟨exists_numeral base text, fun _ of => strtol_of of⟩

end SysImpl.Text
