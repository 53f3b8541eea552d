import SysImpl.Text.Printf

/-! What a format means: its literal characters and its directives, one after the other. -/

namespace SysImpl.Text

open SysImpl.Bytes

/-- A width or a precision: written in digits, of which there may be none, or taken from the
arguments. -/
inductive Amount where
  | digits (ds : List (Fin 10))
  | star

def flagChars : List UInt8 := [45, 43, 39, 32, 35, 48]

def modifierChars : List UInt8 := [104, 108, 106, 122, 116, 76, 113]

/-- A directive without its `%`. What is written as a width does not start like a flag, and
the conversion is none of the characters that may stand before it. -/
structure Directive where
  flags : List UInt8
  width : Amount
  prec : Option Amount
  modifiers : List UInt8
  conv : UInt8
  flags_chars : ∀ ch ∈ flags, ch ∈ flagChars
  width_start : ∀ ds, width = .digits ds → ds.head? ≠ some 0
  modifiers_chars : ∀ ch ∈ modifiers, ch ∈ modifierChars
  conv_ends : conv ∉ flagChars ++ modifierChars ++ [42, 46] ∧ digitOf conv = none

inductive Piece where
  | literal (ch : UInt8) (plain : ch ≠ 37)
  | directive (d : Directive)

def digitChar (d : Fin 10) : UInt8 := UInt8.ofNat (48 + d.val)

def Amount.spell : Amount → List UInt8
  | .digits ds => ds.map digitChar
  | .star => [42]

def Directive.spell (d : Directive) : List UInt8 :=
  37 :: (d.flags ++ d.width.spell ++
    (match d.prec with | some prec => 46 :: prec.spell | none => []) ++ d.modifiers ++ [d.conv])

def Piece.spell : Piece → List UInt8
  | .literal ch _ => [ch]
  | .directive d => d.spell

def decimal (ds : List (Fin 10)) : Nat := ds.foldl (fun n d => n * 10 + d.val) 0

def Amount.value (args : Args) (ap : Nat) : Amount → Int × Nat
  | .digits ds => (decimal ds, ap)
  | .star => (asInt (args.word ap).toNat, ap + 1)

def writtenFlags (flags : List UInt8) : Flags where
  minus := decide (45 ∈ flags)
  plus := decide (43 ∈ flags)
  tick := decide (39 ∈ flags)
  space := decide (32 ∈ flags)
  hash := decide (35 ∈ flags)
  zero := decide (48 ∈ flags)

/-- The rank that one modifier makes of another. -/
def modified (rank : Int) (ch : UInt8) : Int :=
  if ch = 104 then rank - 1
  else if ch = 108 then rank + 1
  else if ch = 106 then 2
  else if ch = 122 ∨ ch = 116 then 1
  else rank + 2

/-- What a directive asks for: the arguments of its width, of its precision and of its
conversion are taken in this order. A negative width is a width to the left, and a negative
precision is none. -/
def Directive.asked (args : Args) (ap : Nat) (d : Directive) : Scan :=
  let (width, ap) := d.width.value args ap
  let (prec, ap) :=
    match d.prec with
    | some prec => prec.value args ap
    | none => (-1, ap)
  let flags := writtenFlags d.flags
  { state := .st_normal
    flags := { flags with minus := flags.minus || decide (width < 0) }
    rank := canonicalRank (d.modifiers.foldl modified 0)
    width := (width.natAbs : Int)
    prec := if prec < 0 then -1 else prec
    ap }

/-- A width is an `int`, also once it is negated. -/
def Amount.IsWidth (args : Args) (ap : Nat) : Amount → Prop
  | .digits ds => decimal ds < 2 ^ 31
  | .star => -2 ^ 31 < asInt (args.word ap).toNat

def Amount.IsPrec : Amount → Prop
  | .digits ds => decimal ds < 2 ^ 31
  | .star => True

structure Directive.Fits (args : Args) (ap : Nat) (d : Directive) : Prop where
  width : d.width.IsWidth args ap
  prec : ∀ prec, d.prec = some prec → prec.IsPrec
  modifiers : d.modifiers.length < 2 ^ 30

def Piece.meaning (args : Args) (ap : Nat) : Piece → Output × Nat
  | .literal ch _ => (.emit ch, ap)
  | .directive d =>
    let (s, out) := terminal args d.conv (d.asked args ap)
    (out, s.ap)

def Piece.Fits (args : Args) (ap : Nat) : Piece → Prop
  | .literal _ _ => True
  | .directive d => d.Fits args ap

/-- What a sequence of pieces puts out, each with the arguments that the ones before it have
left. -/
def meanings (args : Args) : Nat → List Piece → List Output
  | _, [] => []
  | ap, piece :: rest => (piece.meaning args ap).1 :: meanings args (piece.meaning args ap).2 rest

/-- Every directive fits, with the arguments that the ones before it have left. -/
def Fits (args : Args) : Nat → List Piece → Prop
  | _, [] => True
  | ap, piece :: rest => piece.Fits args ap ∧ Fits args (piece.meaning args ap).2 rest

def Output.Silent : Output → Bool
  | .none => true
  | _ => false

def said (outs : List Output) : List Output := outs.filter fun out => !out.Silent

variable {args : Args} {rest : List UInt8} {s : Scan}

theorem int32_eq {x : Int} (low : -2 ^ 31 ≤ x) (high : x < 2 ^ 31) : int32 x = x := by
  simp only [int32, asInt]
  split <;> omega

theorem le_foldl_decimal (ds : List (Fin 10)) (n : Nat) :
    n ≤ ds.foldl (fun n d => n * 10 + d.val) n := by
  induction ds generalizing n with
  | nil => exact Nat.le_refl n
  | cons d ds ih => exact Nat.le_trans (by omega) (ih (n * 10 + d.val))

theorem int32_decimal {d : Fin 10} {ds : List (Fin 10)} {n : Nat}
    (small : (d :: ds).foldl (fun n d => n * 10 + d.val) n < 2 ^ 31) :
    int32 ((n : Int) * 10 + (d.val : Int)) = (n * 10 + d.val : Nat) := by
  have below := le_foldl_decimal ds (n * 10 + d.val)
  rw [List.foldl_cons] at small
  rw [int32_eq (by omega) (by omega)]
  omega

theorem said_text (outs : List Output) :
    (said outs).flatMap Output.text = outs.flatMap Output.text := by
  induction outs with
  | nil => rfl
  | cons out outs ih => cases out <;> simp_all [said, Output.Silent, Output.text]

theorem said_cons (out : Output) (outs : List Output) (speaks : out.Silent = false) :
    said (out :: outs) = out :: said outs := by
  simp [said, speaks]

def setFlag (flags : Flags) (ch : UInt8) : Flags :=
  { flags with
    minus := flags.minus || decide (45 = ch)
    plus := flags.plus || decide (43 = ch)
    tick := flags.tick || decide (39 = ch)
    space := flags.space || decide (32 = ch)
    hash := flags.hash || decide (35 = ch)
    zero := flags.zero || decide (48 = ch) }

/-- The order of the flags, and how often each stands, does not matter. -/
theorem foldl_setFlag (flags : List UInt8) : flags.foldl setFlag {} = writtenFlags flags := by
  have from_any (f : Flags) : flags.foldl setFlag f =
      { f with
        minus := f.minus || decide (45 ∈ flags)
        plus := f.plus || decide (43 ∈ flags)
        tick := f.tick || decide (39 ∈ flags)
        space := f.space || decide (32 ∈ flags)
        hash := f.hash || decide (35 ∈ flags)
        zero := f.zero || decide (48 ∈ flags) } := by
    induction flags generalizing f with
    | nil => simp
    | cons ch rest ih =>
      rw [List.foldl_cons, ih]
      simp only [setFlag, List.mem_cons, Bool.decide_or, Bool.or_assoc]
  rw [from_any]
  simp [writtenFlags]

theorem outputs_quiet {ch : UInt8} {s' : Scan} (quiet : scanStep args ch s = (s', .none)) :
    said (outputs args (ch :: rest) s) = said (outputs args rest s') := by
  rw [outputs, quiet]
  rfl

theorem digitOf_digitChar (d : Fin 10) : digitOf (digitChar d) = some d.val := by
  revert d
  decide

theorem outputs_flags (flags : List UInt8) (chars : ∀ ch ∈ flags, ch ∈ flagChars)
    (here : s.state = .st_flags) :
    said (outputs args (flags ++ rest) s) =
      said (outputs args rest { s with flags := flags.foldl setFlag s.flags }) := by
  induction flags generalizing s with
  | nil => rfl
  | cons ch flags ih =>
    have step : scanStep args ch s = ({ s with flags := setFlag s.flags ch }, .none) := by
      have char := chars ch List.mem_cons_self
      simp only [flagChars, List.mem_cons, List.not_mem_nil, or_false] at char
      simp only [scanStep, here, stFlags]
      rcases char with rfl | rfl | rfl | rfl | rfl | rfl <;> simp [setFlag]
    rw [List.cons_append, outputs_quiet step]
    exact ih (fun ch found => chars ch (List.mem_cons_of_mem _ found)) here

/-- The loop over digits, of a width or of a precision. -/
theorem outputs_digits (set : Int → Scan)
    (step : ∀ (d : Fin 10) (given : Int), scanStep args (digitChar d) (set given) =
      (set (int32 (given * 10 + (d.val : Int))), .none))
    (ds : List (Fin 10)) (given : Nat)
    (small : ds.foldl (fun n d => n * 10 + d.val) given < 2 ^ 31) :
    said (outputs args (ds.map digitChar ++ rest) (set given)) =
      said (outputs args rest (set (ds.foldl (fun n d => n * 10 + d.val) given : Nat))) := by
  induction ds generalizing given with
  | nil => rfl
  | cons d ds ih =>
    rw [List.map_cons, List.cons_append, outputs_quiet (step d given), int32_decimal small]
    exact ih (given * 10 + d.val) small

theorem modified_near (rank : Int) (ch : UInt8) :
    -2 ≤ modified rank ch - rank ∧ modified rank ch - rank ≤ 2 ∨
      (modified rank ch = 1 ∨ modified rank ch = 2) := by
  simp only [modified]
  split_ifs <;> omega

theorem outputs_modifiers (modifiers : List UInt8) (chars : ∀ ch ∈ modifiers, ch ∈ modifierChars)
    (here : s.state = .st_modifiers)
    (near : s.rank.natAbs + 2 * modifiers.length < 2 ^ 31) :
    said (outputs args (modifiers ++ rest) s) =
      said (outputs args rest { s with rank := modifiers.foldl modified s.rank }) := by
  induction modifiers generalizing s with
  | nil => rfl
  | cons ch modifiers ih =>
    rw [List.length_cons] at near
    have step : scanStep args ch s = ({ s with rank := modified s.rank ch }, .none) := by
      have char := chars ch List.mem_cons_self
      simp only [modifierChars, List.mem_cons, List.not_mem_nil, or_false] at char
      have less : int32 (s.rank - 1) = s.rank - 1 := int32_eq (by omega) (by omega)
      have more : int32 (s.rank + 1) = s.rank + 1 := int32_eq (by omega) (by omega)
      have twice : int32 (s.rank + 2) = s.rank + 2 := int32_eq (by omega) (by omega)
      simp only [scanStep, here, stModifiers, less, more, twice]
      rcases char with rfl | rfl | rfl | rfl | rfl | rfl | rfl <;> simp [modified]
    rw [List.cons_append, outputs_quiet step]
    refine ih (s := { s with rank := modified s.rank ch })
      (fun ch found => chars ch (List.mem_cons_of_mem _ found)) here ?_
    have moved := modified_near s.rank ch
    simp only
    omega

theorem outputs_leave_flags {ch : UInt8} (plain : ch ∉ flagChars) (here : s.state = .st_flags) :
    outputs args (ch :: rest) s = outputs args (ch :: rest) { s with state := .st_width } := by
  simp only [flagChars, List.mem_cons, List.not_mem_nil, or_false, not_or] at plain
  have step : scanStep args ch s = scanStep args ch { s with state := .st_width } := by
    simp only [scanStep, here, stFlags, plain, if_false]
  rw [outputs, outputs, step]

theorem outputs_leave_width {ch : UInt8} (plain : ch ≠ 42 ∧ ch ≠ 46) (no_digit : digitOf ch = none)
    (here : s.state = .st_width) :
    outputs args (ch :: rest) s = outputs args (ch :: rest) { s with state := .st_modifiers } := by
  have step : scanStep args ch s = scanStep args ch { s with state := .st_modifiers } := by
    simp only [scanStep, here, stWidth, no_digit, plain, if_false]
  rw [outputs, outputs, step]

theorem outputs_leave_prec {ch : UInt8} (plain : ch ≠ 42) (no_digit : digitOf ch = none)
    (here : s.state = .st_prec) :
    outputs args (ch :: rest) s = outputs args (ch :: rest) { s with state := .st_modifiers } := by
  have step : scanStep args ch s = scanStep args ch { s with state := .st_modifiers } := by
    simp only [scanStep, here, stPrec, no_digit, plain, if_false]
  rw [outputs, outputs, step]

theorem Directive.tail_start (d : Directive) :
    ∃ ch rest', d.modifiers ++ [d.conv] = ch :: rest' ∧ ch ∉ flagChars ∧ ch ≠ 42 ∧ ch ≠ 46 ∧
      digitOf ch = none := by
  obtain ⟨ends, no_digit⟩ := d.conv_ends
  simp only [List.mem_append, not_or] at ends
  cases shape : d.modifiers with
  | nil =>
    refine ⟨d.conv, [], rfl, ends.1.1, ?_, ?_, no_digit⟩
    · rintro same
      exact ends.2 (by rw [same]; decide)
    · rintro same
      exact ends.2 (by rw [same]; decide)
  | cons ch modifiers =>
    refine ⟨ch, modifiers ++ [d.conv], rfl, ?_⟩
    have char := d.modifiers_chars ch (by rw [shape]; exact List.mem_cons_self)
    simp only [modifierChars, List.mem_cons, List.not_mem_nil, or_false] at char
    rcases char with rfl | rfl | rfl | rfl | rfl | rfl | rfl <;> decide

def precSpell : Option Amount → List UInt8
  | some prec => 46 :: prec.spell
  | none => []

theorem Directive.spell_eq (d : Directive) :
    d.spell = 37 :: (d.flags ++ (d.width.spell ++ (precSpell d.prec ++
      (d.modifiers ++ [d.conv])))) := by
  cases shape : d.prec <;> simp [Directive.spell, precSpell, shape]

/-- What follows the flags does not look like one. -/
theorem Directive.width_leaves (d : Directive) :
    ∃ ch rest', d.width.spell ++ (precSpell d.prec ++ (d.modifiers ++ [d.conv])) = ch :: rest' ∧
      ch ∉ flagChars := by
  obtain ⟨ch, rest', tail, plain, -⟩ := d.tail_start
  cases width : d.width with
  | star => exact ⟨42, _, rfl, by decide⟩
  | digits ds =>
    cases ds with
    | cons first ds =>
      have start := d.width_start _ width
      have positive : first ≠ 0 := by simpa using start
      have plain_digit : ∀ d : Fin 10, d ≠ 0 → digitChar d ∉ flagChars := by decide
      exact ⟨digitChar first, _, rfl, plain_digit first positive⟩
    | nil =>
      cases prec : d.prec with
      | none => exact ⟨ch, rest', by simpa [Amount.spell, precSpell] using tail, plain⟩
      | some amount => exact ⟨46, _, rfl, by decide⟩

theorem outputs_amount_width (flags : Flags) (ap : Nat) {width : Amount}
    (fits : width.IsWidth args ap) :
    said (outputs args (width.spell ++ rest) ⟨.st_width, flags, 0, 0, -1, ap⟩) =
      said (outputs args rest
        ⟨.st_width, { flags with minus := flags.minus || decide ((width.value args ap).1 < 0) }, 0,
          ((width.value args ap).1.natAbs : Int), -1, (width.value args ap).2⟩) := by
  cases width with
  | digits ds =>
    have positive : ¬ (decimal ds : Int) < 0 := by omega
    simp only [Amount.value, positive, decide_false, Bool.or_false, Int.natAbs_natCast]
    exact outputs_digits (fun width => ⟨.st_width, flags, 0, width, -1, ap⟩)
      (fun d given => by simp only [scanStep, stWidth, digitOf_digitChar]) ds 0 fits
  | star =>
    have step : scanStep args 42 ⟨.st_width, flags, 0, 0, -1, ap⟩ =
        (⟨.st_width, { flags with
            minus := flags.minus || decide (asInt (args.word ap).toNat < 0) }, 0,
          ((asInt (args.word ap).toNat).natAbs : Int), -1, ap + 1⟩, .none) := by
      have size : (if asInt (args.word ap).toNat < 0 then int32 (-asInt (args.word ap).toNat)
          else asInt (args.word ap).toNat) = ((asInt (args.word ap).toNat).natAbs : Int) := by
        have low : -2 ^ 31 < asInt (args.word ap).toNat := fits
        split
        · rw [int32_eq (by omega) (by omega)]
          omega
        · omega
      exact congrArg (fun width => ((⟨.st_width, _, 0, width, -1, ap + 1⟩, .none) : Scan × Output))
        size
    rw [Amount.spell, List.singleton_append, outputs_quiet step]
    rfl

theorem outputs_amount_prec (d : Directive) (flags : Flags) (width : Int) (ap : Nat)
    (fits : ∀ prec, d.prec = some prec → prec.IsPrec) :
    said (outputs args (precSpell d.prec ++ (d.modifiers ++ [d.conv]) ++ rest)
        ⟨.st_width, flags, 0, width, -1, ap⟩) =
      (let (prec, ap) :=
        match d.prec with
        | some prec => prec.value args ap
        | none => (-1, ap)
       said (outputs args (d.modifiers ++ [d.conv] ++ rest)
        ⟨.st_modifiers, flags, 0, width, if prec < 0 then -1 else prec, ap⟩)) := by
  obtain ⟨ch, rest', tail, -, not_star, not_point, no_digit⟩ := d.tail_start
  cases shape : d.prec with
  | none =>
    rw [precSpell, List.nil_append, tail, List.cons_append,
      outputs_leave_width ⟨not_star, not_point⟩ no_digit rfl]
    rfl
  | some prec =>
    have point : scanStep args 46 ⟨.st_width, flags, 0, width, -1, ap⟩ =
        (⟨.st_prec, flags, 0, width, 0, ap⟩, .none) := rfl
    rw [precSpell, List.cons_append, List.cons_append, outputs_quiet point, List.append_assoc]
    cases prec with
    | digits ds =>
      have positive : ¬ (decimal ds : Int) < 0 := by omega
      have read : said (outputs args (ds.map digitChar ++ (d.modifiers ++ [d.conv] ++ rest))
          ⟨.st_prec, flags, 0, width, 0, ap⟩) =
          said (outputs args (d.modifiers ++ [d.conv] ++ rest)
            ⟨.st_prec, flags, 0, width, (decimal ds : Int), ap⟩) :=
        outputs_digits (fun prec => ⟨.st_prec, flags, 0, width, prec, ap⟩)
          (fun d given => by simp only [scanStep, stPrec, digitOf_digitChar]) ds 0 (fits _ shape)
      rw [Amount.spell, read, tail, List.cons_append, outputs_leave_prec not_star no_digit rfl]
      simp only [Amount.value, positive, if_false]
    | star =>
      have step : scanStep args 42 ⟨.st_prec, flags, 0, width, 0, ap⟩ =
          (⟨.st_prec, flags, 0, width, if asInt (args.word ap).toNat < 0 then -1 else
            asInt (args.word ap).toNat, ap + 1⟩, .none) := rfl
      rw [Amount.spell, List.singleton_append, outputs_quiet step, tail, List.cons_append,
        outputs_leave_prec not_star no_digit rfl]
      rfl

theorem terminal_speaks (ch : UInt8) (s : Scan) : (terminal args ch s).2.Silent = false := by
  unfold terminal
  repeat' split
  all_goals rfl

theorem terminal_state (ch : UInt8) (s : Scan) : (terminal args ch s).1.state = s.state := by
  unfold terminal
  repeat' split
  all_goals rfl

/-- A directive is read as what it is made of, and leaves the rest of the format to be read
from the argument after its own. -/
theorem outputs_directive {d : Directive} (fits : d.Fits args s.ap) (here : s.state = .st_normal) :
    said (outputs args (d.spell ++ rest) s) =
      (terminal args d.conv (d.asked args s.ap)).2 ::
        said (outputs args rest (terminal args d.conv (d.asked args s.ap)).1) := by
  obtain ⟨state, flags, rank, width, prec, ap⟩ := s
  simp only at here
  subst here
  obtain ⟨next, rest', shape, plain⟩ := d.width_leaves
  have percent : scanStep args 37 ⟨.st_normal, flags, rank, width, prec, ap⟩ =
      (⟨.st_flags, {}, 0, 0, -1, ap⟩, .none) := rfl
  have leave : outputs args (d.width.spell ++ (precSpell d.prec ++ (d.modifiers ++ [d.conv])) ++
        rest) ⟨.st_flags, writtenFlags d.flags, 0, 0, -1, ap⟩ =
      outputs args (d.width.spell ++ (precSpell d.prec ++ (d.modifiers ++ [d.conv])) ++ rest)
        ⟨.st_width, writtenFlags d.flags, 0, 0, -1, ap⟩ := by
    rw [shape, List.cons_append]
    exact outputs_leave_flags plain rfl
  have last (s : Scan) (modifying : s.state = .st_modifiers) :
      scanStep args d.conv s =
        terminal args d.conv { s with state := .st_normal, rank := canonicalRank s.rank } := by
    have ends := d.conv_ends.1
    simp only [List.mem_append, not_or, modifierChars, List.mem_cons, List.not_mem_nil,
      or_false] at ends
    simp only [scanStep, modifying, stModifiers, ends, if_false, or_self]
  rw [d.spell_eq, List.cons_append, outputs_quiet percent, List.append_assoc,
    outputs_flags d.flags d.flags_chars rfl, foldl_setFlag, leave, List.append_assoc,
    outputs_amount_width _ _ fits.width, outputs_amount_prec _ _ _ _ fits.prec]
  simp only
  have near := fits.modifiers
  rw [List.append_assoc, outputs_modifiers d.modifiers d.modifiers_chars rfl
      (by simp only [Int.natAbs_zero]; omega),
    List.singleton_append, outputs, last _ rfl, said_cons _ _ (terminal_speaks _ _)]
  rfl

theorem outputs_pieces {pieces : List Piece} (fits : Fits args s.ap pieces)
    (here : s.state = .st_normal) :
    said (outputs args (pieces.flatMap Piece.spell) s) = meanings args s.ap pieces := by
  induction pieces generalizing s with
  | nil => rfl
  | cons piece pieces ih =>
    rw [List.flatMap_cons]
    cases piece with
    | literal ch plain =>
      have step : scanStep args ch s = (s, .emit ch) := by
        simp only [scanStep, here, stNormal, plain, if_false]
      rw [Piece.spell, List.singleton_append, outputs, step, said_cons _ _ rfl, ih fits.2 here]
      rfl
    | directive d =>
      have later := ih (s := (terminal args d.conv (d.asked args s.ap)).1) fits.2
        (by rw [terminal_state]; rfl)
      rw [Piece.spell, outputs_directive fits.1 here, later]
      rfl

/-- The format of any literal characters and directives, if the numbers in them are `int`s, puts
out what they mean, in order, each directive with the arguments that the ones before it have
left. -/
theorem format_meaning (args : Args) (pieces : List Piece) (fits : Fits args 0 pieces) :
    said (outputs args (pieces.flatMap Piece.spell) {}) = meanings args 0 pieces :=
  outputs_pieces fits rfl

/-- `%+5d` -/
def plusFive : Directive where
  flags := [43]
  width := .digits [5]
  prec := none
  modifiers := []
  conv := 100
  flags_chars := by simp [flagChars]
  width_start := by rintro ds ⟨⟩; decide
  modifiers_chars := by simp
  conv_ends := ⟨by simp [flagChars, modifierChars], rfl⟩

theorem plusFive_fits (args : Args) (ap : Nat) : plusFive.Fits args ap :=
  ⟨(by decide : decimal [5] < 2 ^ 31), by rintro prec ⟨⟩, by decide⟩

/-- `%+5d!` -/
theorem format_meaning_five :
    said (outputs ⟨fun _ => 7, fun _ => []⟩ [37, 43, 53, 100, 33] {}) =
      [.int 7 { plus := true, signed := true } 10 5 (-1), .emit 33] :=
  format_meaning ⟨fun _ => 7, fun _ => []⟩ [.directive plusFive, .literal 33 (by decide)]
    ⟨plusFive_fits _ 0, trivial, trivial⟩

theorem formatText_pieces {args : Args} {pieces : List Piece} (fits : Fits args 0 pieces) :
    formatText args (pieces.flatMap Piece.spell) =
      (meanings args 0 pieces).flatMap Output.text := by
  have meaning := @outputs_pieces args {} pieces fits rfl
  rw [← show _ = meanings args 0 pieces from meaning, said_text]
  rfl

end SysImpl.Text
