import SysImpl.Kernel.Arguments
import SysImpl.Lib.Spans

/-! The command line of the kernel.

`parse_cmdline` cuts the line into words in place: it stores a zero over every blank and gives
the path of the first program and its arguments as pointers into the line. The words are
those of a scan of the text. -/

namespace SysImpl.Kernel

open Bytes Spans

/-- The output parameters of `parse_cmdline` and its local variables. -/
structure Parsing where
  initPath : Nat
  args : Nat → Nat
  beginArgs : Bool
  nowArgInd : Nat

def skipBlanks : Nat → Mem → Nat → Option (Mem × Nat)
  | 0, _, _ => none
  | fuel + 1, m, next =>
      if m next ≠ 0 ∧ m next = 32 then skipBlanks fuel (Function.update m next 0) (next + 1)
      else some (m, next)

def wordEnd : Nat → Mem → Nat → Option Nat
  | 0, _, _ => none
  | fuel + 1, m, nowEnd =>
      if m nowEnd ≠ 0 ∧ m nowEnd ≠ 32 then wordEnd fuel m (nowEnd + 1) else some nowEnd

def strcmp (m : Mem) : Nat → List UInt8 → Int
  | _, [] => 0
  | s1, ch :: s2 =>
      if m s1 ≠ ch then (m s1).toNat - ch.toNat
      else if m s1 = 0 then 0
      else strcmp m (s1 + 1) s2

def dashes : List UInt8 := [45, 45]

def takeWord (m : Mem) (parsing : Parsing) (nowStart : Nat) : Parsing :=
  if parsing.beginArgs = false ∧ strcmp m nowStart (dashes ++ [0]) = 0 then
    { parsing with
      beginArgs := true
      args := Function.update parsing.args parsing.nowArgInd parsing.initPath
      nowArgInd := parsing.nowArgInd + 1 }
  else if parsing.beginArgs then
    if parsing.nowArgInd < maxArguments then
      { parsing with
        args := Function.update parsing.args parsing.nowArgInd nowStart
        nowArgInd := parsing.nowArgInd + 1 }
    else parsing
  else { parsing with initPath := nowStart }

def cmdlineLoop : Nat → Mem → Parsing → Nat → Option (Mem × Parsing)
  | 0, _, _, _ => none
  | fuel + 1, m, parsing, nowStart =>
      match wordEnd (fuel + 1) m nowStart with
      | none => none
      | some nowEnd =>
          if m nowEnd = 0 then some (m, takeWord m parsing nowStart)
          else
            match skipBlanks (fuel + 1) m nowEnd with
            | none => none
            | some (m, next) =>
                let parsing := takeWord m parsing nowStart
                if m next ≠ 0 then cmdlineLoop fuel m parsing next else some (m, parsing)

def finishArgs (parsing : Parsing) : Parsing :=
  if parsing.beginArgs then parsing
  else
    { parsing with
      args := Function.update parsing.args parsing.nowArgInd parsing.initPath
      nowArgInd := parsing.nowArgInd + 1 }

def parseCmdline (fuel : Nat) (m : Mem) (cmdline initPath : Nat) (args : Nat → Nat) :
    Option (Mem × Parsing) :=
  match skipBlanks fuel m cmdline with
  | none => none
  | some (m, nowStart) =>
      match cmdlineLoop fuel m ⟨initPath, args, false, 0⟩ nowStart with
      | none => none
      | some (m, parsing) => some (m, finishArgs parsing)

def clearArgs (args : Nat → Nat) : Nat → Nat := fun i => if i ≤ maxArguments then 0 else args i

structure Word where
  pointer : Nat
  text : List UInt8

/-- The words of a text that starts at an address. A word starts at every character that is
no blank and follows a blank or nothing. -/
def wordsFrom : Nat → Bool → List UInt8 → List Word
  | _, _, [] => []
  | address, afterBlank, ch :: rest =>
      if ch ≠ 32 ∧ afterBlank then
        ⟨address, (ch :: rest).takeWhile fun ch => ch != 32⟩ ::
          wordsFrom (address + 1) (ch == 32) rest
      else wordsFrom (address + 1) (ch == 32) rest

def beforeDashes (words : List Word) : List Word :=
  words.takeWhile fun word => word.text != dashes

def afterDashes (words : List Word) : List Word :=
  (words.dropWhile fun word => word.text != dashes).tail

def Spells (m : Mem) : Nat → List UInt8 → Prop
  | address, [] => m address = 0
  | address, ch :: rest => ch ≠ 0 ∧ m address = ch ∧ Spells m (address + 1) rest

/-- What is expected of `parse_cmdline`. -/
structure Parses (m : Mem) (cmdline initPath : Nat) (args : Nat → Nat) (text : List UInt8)
    (after : Mem × Parsing) : Prop where
  path : after.2.initPath = ((beforeDashes (wordsFrom cmdline true text)).getLast?.map
    Word.pointer).getD initPath
  first : after.2.args 0 = after.2.initPath
  arguments : ∀ i < maxArguments, after.2.args (i + 1) =
    if i + 1 < maxArguments then
      ((afterDashes (wordsFrom cmdline true text))[i]?.map Word.pointer).getD 0
    else 0
  beyond : ∀ i > maxArguments, after.2.args i = args i
  words : ∀ word ∈ wordsFrom cmdline true text, loadString after.1 word.pointer = word.text
  frame : ∀ address, address < cmdline ∨ cmdline + text.length ≤ address →
    after.1 address = m address

def blanked (m : Mem) (address length : Nat) : Mem := fun x =>
  if address ≤ x ∧ x < address + length ∧ m x = 32 then 0 else m x

def Parsing.take (parsing : Parsing) (word : Word) : Parsing :=
  if parsing.beginArgs = false ∧ word.text = dashes then
    { parsing with
      beginArgs := true
      args := Function.update parsing.args parsing.nowArgInd parsing.initPath
      nowArgInd := parsing.nowArgInd + 1 }
  else if parsing.beginArgs then
    if parsing.nowArgInd < maxArguments then
      { parsing with
        args := Function.update parsing.args parsing.nowArgInd word.pointer
        nowArgInd := parsing.nowArgInd + 1 }
    else parsing
  else { parsing with initPath := word.pointer }

variable {m m' : Mem} {address fuel : Nat} {text rest gap : List UInt8} {parsing : Parsing}

theorem Spells.congr (spells : Spells m address text)
    (same : ∀ x, address ≤ x → x ≤ address + text.length → m' x = m x) :
    Spells m' address text := by
  induction text generalizing address with
  | nil =>
      rw [Spells, same address (Nat.le_refl _) (Nat.le_add_right _ _)]
      exact spells
  | cons ch rest ih =>
      obtain ⟨nonzero, first, later⟩ := spells
      refine ⟨nonzero, ?_, ih later ?_⟩
      · rw [same address (Nat.le_refl _) (Nat.le_add_right _ _), first]
      · intro x low high
        exact same x (by omega) (by rw [List.length_cons]; omega)

theorem Spells.right (spells : Spells m address (gap ++ rest)) :
    Spells m (address + gap.length) rest := by
  induction gap generalizing address with
  | nil => exact spells
  | cons ch gap ih =>
      obtain ⟨-, -, later⟩ := spells
      have right := ih later
      rwa [List.length_cons, show address + (gap.length + 1) = address + 1 + gap.length by omega]

theorem Spells.left (spells : Spells m address (text ++ rest))
    (same : ∀ x, address ≤ x → x < address + text.length → m' x = m x)
    (stop : m' (address + text.length) = 0) : Spells m' address text := by
  induction text generalizing address with
  | nil => exact stop
  | cons ch text ih =>
      obtain ⟨nonzero, first, later⟩ := spells
      rw [List.length_cons] at same stop
      refine ⟨nonzero, ?_, ih later ?_ ?_⟩
      · rw [same address (Nat.le_refl _) (by omega), first]
      · intro x low high
        exact same x (by omega) (by omega)
      · rwa [show address + 1 + text.length = address + (text.length + 1) by omega]

theorem Spells.loadString (spells : Spells m address text)
    (below : address + text.length < 2 ^ 32) : loadString m address = text := by
  have loaded : ∀ fuel, text.length < fuel → stringFrom fuel m address = text := by
    induction text generalizing address with
    | nil =>
        intro fuel room
        cases fuel with
        | zero => exact absurd room (Nat.not_lt_zero _)
        | succ fuel =>
            have zero : m (u32 address) = 0 := by
              rw [u32, Nat.mod_eq_of_lt (Nat.lt_of_le_of_lt (Nat.le_add_right _ _) below)]
              exact spells
            rw [stringFrom, if_pos zero]
    | cons ch rest ih =>
        intro fuel room
        obtain ⟨nonzero, first, later⟩ := spells
        rw [List.length_cons] at below room
        cases fuel with
        | zero => exact absurd room (Nat.not_lt_zero _)
        | succ fuel =>
            have here : m (u32 address) = ch := by
              rw [u32, Nat.mod_eq_of_lt (by omega)]
              exact first
            rw [stringFrom, here, if_neg nonzero, ih later (by omega) fuel (by omega)]
  exact loaded _ (by omega)

theorem strcmp_eq_zero {literal : List UInt8} (strings : 0 ∉ literal)
    (spells : Spells m address text) :
    strcmp m address (literal ++ [0]) = 0 ↔ text = literal := by
  have differ : ∀ a b : UInt8, a ≠ b → ¬ ((a.toNat : Int) - b.toNat = 0) := by
    intro a b different zero
    exact different (UInt8.toNat_inj.mp (by omega))
  induction literal generalizing address text with
  | nil =>
      cases text with
      | nil =>
          have zero : m address = 0 := spells
          simp [strcmp, zero]
      | cons ch rest =>
          obtain ⟨nonzero, first, -⟩ := spells
          have other : m address ≠ 0 := by rw [first]; exact nonzero
          rw [List.nil_append, strcmp, if_pos other]
          exact ⟨fun zero => absurd zero (differ _ _ other), fun same => by cases same⟩
  | cons wanted literal ih =>
      have some : wanted ≠ 0 := fun zero => strings (by rw [zero]; exact List.mem_cons_self)
      cases text with
      | nil =>
          have zero : m address = 0 := spells
          have other : m address ≠ wanted := by rw [zero]; exact some.symm
          rw [List.cons_append, strcmp, if_pos other]
          exact ⟨fun zero => absurd zero (differ _ _ other), fun same => by cases same⟩
      | cons ch rest =>
          obtain ⟨nonzero, first, later⟩ := spells
          rw [List.cons_append, strcmp, first]
          by_cases same : ch = wanted
          · have compared : strcmp m (address + 1) (literal ++ [0]) = 0 ↔ rest = literal :=
              ih (fun member => strings (List.mem_cons_of_mem _ member)) later
            rw [if_neg (not_not.mpr same), if_neg nonzero, compared, same, List.cons.injEq]
            exact (and_iff_right rfl).symm
          · rw [if_pos same]
            refine ⟨fun zero => absurd zero (differ _ _ same), ?_⟩
            intro equal
            exact absurd (List.cons.inj equal).1 same

theorem wordEnd_spec (spells : Spells m address (text ++ rest)) (word : 32 ∉ text)
    (stop : ∀ ch ∈ rest.head?, ch = 32) (enough : text.length < fuel) :
    wordEnd fuel m address = some (address + text.length) := by
  induction text generalizing address fuel with
  | nil =>
      obtain ⟨fuel, rfl⟩ := Nat.exists_eq_add_of_lt enough
      have ends : ¬ (m address ≠ 0 ∧ m address ≠ 32) := by
        cases rest with
        | nil => exact fun both => both.1 spells
        | cons ch rest =>
            obtain ⟨-, first, -⟩ := spells
            exact fun both => both.2 (first.trans (stop ch rfl))
      rw [List.length_nil, Nat.zero_add, wordEnd, if_neg ends]
      rfl
  | cons ch text ih =>
      obtain ⟨nonzero, first, later⟩ := spells
      cases fuel with
      | zero => exact absurd enough (Nat.not_lt_zero _)
      | succ fuel =>
          have goes : m address ≠ 0 ∧ m address ≠ 32 := by
            rw [first]
            exact ⟨nonzero, fun blank => word (by rw [blank]; exact List.mem_cons_self)⟩
          rw [List.length_cons] at enough ⊢
          rw [wordEnd, if_pos goes,
            ih later (fun member => word (List.mem_cons_of_mem _ member)) (by omega),
            show address + 1 + text.length = address + (text.length + 1) by omega]

def zeroed (m : Mem) (address length : Nat) : Mem := fun x =>
  if address ≤ x ∧ x < address + length then 0 else m x

theorem skipBlanks_spec (spells : Spells m address (gap ++ rest)) (blank : ∀ ch ∈ gap, ch = 32)
    (stop : ∀ ch ∈ rest.head?, ch ≠ 32) (enough : gap.length < fuel) :
    skipBlanks fuel m address =
      some (zeroed m address gap.length, address + gap.length) := by
  induction gap generalizing m address fuel with
  | nil =>
      obtain ⟨fuel, rfl⟩ := Nat.exists_eq_add_of_lt enough
      have ends : ¬ (m address ≠ 0 ∧ m address = 32) := by
        cases rest with
        | nil => exact fun both => both.1 spells
        | cons ch rest =>
            obtain ⟨-, first, -⟩ := spells
            exact fun both => stop ch rfl (first.symm.trans both.2)
      have same : zeroed m address 0 = m := by
        funext x
        rw [zeroed, if_neg (by omega)]
      rw [List.length_nil, Nat.zero_add, skipBlanks, if_neg ends, same]
      rfl
  | cons ch gap ih =>
      obtain ⟨nonzero, first, later⟩ := spells
      cases fuel with
      | zero => exact absurd enough (Nat.not_lt_zero _)
      | succ fuel =>
          have goes : m address ≠ 0 ∧ m address = 32 := by
            rw [first]
            exact ⟨nonzero, blank ch List.mem_cons_self⟩
          have kept : Spells (Function.update m address 0) (address + 1) (gap ++ rest) := by
            apply later.congr
            intro x low _
            exact Function.update_of_ne (by omega) _ _
          have memory : zeroed (Function.update m address 0) (address + 1) gap.length =
              zeroed m address (gap.length + 1) := by
            funext x
            simp only [zeroed, Function.update_apply]
            by_cases here : x = address
            · rw [if_pos here, ite_self, if_pos (by omega)]
            · rw [if_neg here]
              exact if_congr (by omega) rfl rfl
          rw [List.length_cons] at enough ⊢
          rw [skipBlanks, if_pos goes,
            ih kept (fun ch member => blank ch (List.mem_cons_of_mem _ member)) (by omega),
            memory, show address + 1 + gap.length = address + (gap.length + 1) by omega]

theorem wordsFrom_blanks (afterBlank : Bool) (blank : ∀ ch ∈ gap, ch = 32)
    (some : gap ≠ [] ∨ afterBlank = true) :
    wordsFrom address afterBlank (gap ++ rest) = wordsFrom (address + gap.length) true rest := by
  induction gap generalizing address afterBlank with
  | nil =>
      rcases some with some | after
      · exact absurd rfl some
      · rw [after]
        rfl
  | cons ch gap ih =>
      have first := blank ch List.mem_cons_self
      have space : (ch == 32) = true := beq_iff_eq.mpr first
      rw [List.cons_append, wordsFrom, if_neg (fun both => both.1 first), space,
        ih true (fun ch member => blank ch (List.mem_cons_of_mem _ member)) (Or.inr rfl),
        List.length_cons, show address + 1 + gap.length = address + (gap.length + 1) by omega]

theorem wordsFrom_inner (word : 32 ∉ text) :
    wordsFrom address false (text ++ rest) = wordsFrom (address + text.length) false rest := by
  induction text generalizing address with
  | nil => rfl
  | cons ch text ih =>
      have other : (ch == 32) = false := by
        apply beq_eq_false_iff_ne.mpr
        exact fun blank => word (by rw [blank]; exact List.mem_cons_self)
      rw [List.cons_append, wordsFrom, if_neg (fun both => Bool.false_ne_true both.2), other,
        ih (fun member => word (List.mem_cons_of_mem _ member)), List.length_cons,
        show address + 1 + text.length = address + (text.length + 1) by omega]

theorem takeWhile_word (word : 32 ∉ text) (stop : ∀ ch ∈ rest.head?, ch = 32) :
    ((text ++ rest).takeWhile fun ch => ch != 32) = text := by
  rw [List.takeWhile_append_of_pos]
  · cases rest with
    | nil => simp
    | cons ch rest =>
        rw [stop ch rfl]
        simp
  · intro ch member
    exact bne_iff_ne.mpr fun blank => word (by rw [← blank]; exact member)

theorem wordsFrom_word (some : text ≠ []) (word : 32 ∉ text)
    (stop : ∀ ch ∈ rest.head?, ch = 32) :
    wordsFrom address true (text ++ rest) =
      ⟨address, text⟩ :: wordsFrom (address + text.length) false rest := by
  cases text with
  | nil => exact absurd rfl some
  | cons ch text =>
      have whole := takeWhile_word word stop
      have other : ch ≠ 32 := fun blank => word (by rw [blank]; exact List.mem_cons_self)
      rw [List.cons_append] at whole
      rw [List.cons_append, wordsFrom, if_pos ⟨other, rfl⟩, whole, beq_eq_false_iff_ne.mpr other,
        wordsFrom_inner (fun member => word (List.mem_cons_of_mem _ member)), List.length_cons,
        show address + 1 + text.length = address + (text.length + 1) by omega]

theorem takeWord_eq (spells : Spells m address text) :
    takeWord m parsing address = parsing.take ⟨address, text⟩ := by
  have literal : (0 : UInt8) ∉ dashes := by decide
  simp only [takeWord, Parsing.take, strcmp_eq_zero literal spells]

theorem blanked_append (m : Mem) (address first second : Nat) :
    blanked (blanked m address first) (address + first) second =
      blanked m address (first + second) := by
  funext x
  by_cases early : address ≤ x ∧ x < address + first ∧ m x = 32
  · have there : blanked m address first x = 0 := if_pos early
    have whole : blanked m address (first + second) x = 0 :=
      if_pos ⟨early.1, by omega, early.2.2⟩
    rw [whole, blanked]
    split
    · rfl
    · exact there
  · have there : blanked m address first x = m x := if_neg early
    by_cases late : address + first ≤ x ∧ x < address + first + second ∧ m x = 32
    · have whole : blanked m address (first + second) x = 0 :=
        if_pos ⟨by omega, by omega, late.2.2⟩
      rw [whole]
      exact if_pos ⟨late.1, late.2.1, there.trans late.2.2⟩
    · have plain : blanked m address (first + second) x = m x := by
        apply if_neg
        intro blank
        by_cases before : x < address + first
        · exact early ⟨blank.1, before, blank.2.2⟩
        · exact late ⟨by omega, by omega, blank.2.2⟩
      rw [plain, ← there]
      apply if_neg
      intro blank
      exact late ⟨blank.1, blank.2.1, there.symm.trans blank.2.2⟩

theorem blanked_word (spells : Spells m address (text ++ rest)) (word : 32 ∉ text) :
    blanked m address text.length = m := by
  induction text generalizing address with
  | nil =>
      funext x
      rw [blanked, if_neg (by rw [List.length_nil]; omega)]
  | cons ch text ih =>
      obtain ⟨-, first, later⟩ := spells
      have here : blanked m address 1 = m := by
        funext x
        rw [blanked, if_neg]
        intro blank
        have place : x = address := by omega
        rw [place, first] at blank
        exact word (by rw [← blank.2.2]; exact List.mem_cons_self)
      rw [List.length_cons, Nat.add_comm, ← blanked_append, here]
      exact ih later fun member => word (List.mem_cons_of_mem _ member)

theorem blanked_gap (spells : Spells m address (gap ++ rest)) (blank : ∀ ch ∈ gap, ch = 32) :
    blanked m address gap.length = zeroed m address gap.length := by
  funext x
  simp only [blanked, zeroed]
  apply if_congr ?_ rfl rfl
  refine ⟨fun both => ⟨both.1, both.2.1⟩, ?_⟩
  intro inside
  refine ⟨inside.1, inside.2, ?_⟩
  obtain ⟨front, back, split, length⟩ : ∃ front back, gap = front ++ back ∧
      front.length = x - address :=
    ⟨gap.take (x - address), gap.drop (x - address), (List.take_append_drop _ _).symm,
      by rw [List.length_take]; omega⟩
  subst split
  rw [List.append_assoc] at spells
  have there := spells.right
  cases back with
  | nil =>
      rw [List.append_nil] at inside
      omega
  | cons ch back =>
      obtain ⟨-, first, -⟩ := there
      rw [← blank ch (List.mem_append_right _ List.mem_cons_self), ← first]
      congr 1
      omega

theorem exists_gap (text : List UInt8) :
    ∃ gap rest, text = gap ++ rest ∧ (∀ ch ∈ gap, ch = 32) ∧ ∀ ch ∈ rest.head?, ch ≠ 32 := by
  obtain ⟨gap, rest, split, blank, next⟩ := exists_cut (fun ch => ch == 32) text
  exact ⟨gap, rest, split, fun ch member => beq_iff_eq.mp (blank ch member),
    fun ch first => beq_eq_false_iff_ne.mp (next ch first)⟩

theorem exists_run (text : List UInt8) :
    ∃ word rest, text = word ++ rest ∧ 32 ∉ word ∧ ∀ ch ∈ rest.head?, ch = 32 := by
  obtain ⟨word, rest, split, letters, stop⟩ := exists_cut (fun ch => ch != 32) text
  exact ⟨word, rest, split, fun member => bne_iff_ne.mp (letters 32 member) rfl,
    fun ch first => bne_eq_false_iff_eq.mp (stop ch first)⟩

theorem exists_word (some : text ≠ []) (start : ∀ ch ∈ text.head?, ch ≠ 32) :
    ∃ word gap rest, text = word ++ (gap ++ rest) ∧ word ≠ [] ∧ 32 ∉ word ∧
      (∀ ch ∈ gap, ch = 32) ∧ (∀ ch ∈ rest.head?, ch ≠ 32) ∧ (gap = [] → rest = []) := by
  obtain ⟨word, tail, rfl, letters, stop⟩ := exists_run text
  obtain ⟨gap, rest, rfl, blank, next⟩ := exists_gap tail
  refine ⟨word, gap, rest, rfl, ?_, letters, blank, next, ?_⟩
  · intro none
    rw [none, List.nil_append] at some start
    cases split : gap ++ rest with
    | nil => exact some split
    | cons ch tail =>
        rw [split] at start stop
        exact start ch rfl (stop ch rfl)
  · intro none
    rw [none, List.nil_append] at stop
    cases rest with
    | nil => rfl
    | cons ch rest => exact absurd (stop ch rfl) (next ch rfl)

theorem cmdlineLoop_last (spells : Spells m address text) (letters : 32 ∉ text)
    (enough : text.length < fuel + 1) :
    cmdlineLoop (fuel + 1) m parsing address = some (m, parsing.take ⟨address, text⟩) := by
  have whole : Spells m address (text ++ []) := by rwa [List.append_nil]
  have zero : m (address + text.length) = 0 := whole.right
  have none : ∀ ch ∈ ([] : List UInt8).head?, ch = 32 := by
    intro ch first
    cases first
  have ended := wordEnd_spec whole letters none enough
  simp only [cmdlineLoop, ended, if_pos zero, takeWord_eq spells]

theorem cmdlineLoop_word (spells : Spells m address (text ++ (gap ++ rest))) (letters : 32 ∉ text)
    (blank : ∀ ch ∈ gap, ch = 32) (some : gap ≠ []) (next : ∀ ch ∈ rest.head?, ch ≠ 32)
    (enough : text.length + gap.length < fuel + 1) :
    Spells (blanked m address (text.length + gap.length)) (address + text.length + gap.length)
        rest ∧
      cmdlineLoop (fuel + 1) m parsing address =
        if blanked m address (text.length + gap.length) (address + text.length + gap.length) ≠ 0
        then cmdlineLoop fuel (blanked m address (text.length + gap.length))
          (parsing.take ⟨address, text⟩) (address + text.length + gap.length)
        else Option.some (blanked m address (text.length + gap.length),
          parsing.take ⟨address, text⟩) := by
  have after := spells.right
  have memory : blanked m address (text.length + gap.length) =
      zeroed m (address + text.length) gap.length := by
    rw [← blanked_append, blanked_word spells letters, blanked_gap after blank]
  have positive : 0 < gap.length := List.length_pos_iff.mpr some
  have front : Spells (zeroed m (address + text.length) gap.length) address text := by
    apply spells.left
    · intro x _ high
      exact if_neg (by omega)
    · exact if_pos ⟨Nat.le_refl _, by omega⟩
  have back : Spells (zeroed m (address + text.length) gap.length)
      (address + text.length + gap.length) rest := by
    apply after.right.congr
    intro x low _
    exact if_neg (by omega)
  rw [memory]
  refine ⟨back, ?_⟩
  cases gap with
  | nil => exact absurd rfl some
  | cons ch gap =>
      have space : m (address + text.length) ≠ 0 := by
        obtain ⟨nonzero, first, -⟩ := after
        rw [first]
        exact nonzero
      have stop : ∀ other ∈ ((ch :: gap) ++ rest).head?, other = 32 := by
        intro other first
        rw [← Option.some.inj first]
        exact blank ch List.mem_cons_self
      have ended := wordEnd_spec spells letters stop (show text.length < fuel + 1 by omega)
      have skipped := skipBlanks_spec after blank next
        (show (ch :: gap).length < fuel + 1 by omega)
      simp only [cmdlineLoop, ended, if_neg space, skipped, takeWord_eq front]

theorem cmdlineLoop_spec (spells : Spells m address text) (some : text ≠ [])
    (start : ∀ ch ∈ text.head?, ch ≠ 32) (enough : text.length < fuel) :
    cmdlineLoop fuel m parsing address =
      Option.some (blanked m address text.length,
        (wordsFrom address true text).foldl Parsing.take parsing) := by
  induction fuel generalizing m address text parsing with
  | zero => exact absurd enough (Nat.not_lt_zero _)
  | succ fuel ih =>
      obtain ⟨word, gap, rest, rfl, nonempty, letters, blank, next, last⟩ :=
        exists_word some start
      have lengths : (word ++ (gap ++ rest)).length = word.length + gap.length + rest.length := by
        rw [List.length_append, List.length_append, Nat.add_assoc]
      by_cases ends : gap = []
      · have none : rest = [] := last ends
        subst ends none
        have whole : Spells m address (word ++ []) := spells
        have none : ∀ ch ∈ ([] : List UInt8).head?, ch = 32 := by
          intro ch first
          cases first
        have alone : wordsFrom address true (word ++ []) = [⟨address, word⟩] :=
          wordsFrom_word nonempty letters none
        rw [List.append_nil, List.append_nil] at spells enough ⊢
        rw [List.append_nil] at alone
        rw [cmdlineLoop_last spells letters enough, blanked_word whole letters, alone]
        rfl
      · have stop : ∀ ch ∈ (gap ++ rest).head?, ch = 32 := by
          intro ch first
          cases gap with
          | nil => exact absurd rfl ends
          | cons other gap =>
              rw [← Option.some.inj first]
              exact blank other List.mem_cons_self
        rw [lengths] at enough ⊢
        obtain ⟨back, round⟩ := @cmdlineLoop_word m address fuel word rest gap parsing spells
          letters blank ends next (by omega)
        have total : blanked (blanked m address (word.length + gap.length))
            (address + word.length + gap.length) rest.length =
              blanked m address (word.length + gap.length + rest.length) := by
          rw [Nat.add_assoc address, blanked_append]
        rw [round, wordsFrom_word nonempty letters stop, List.foldl_cons,
          wordsFrom_blanks false blank (Or.inl ends), ← total]
        cases rest with
        | nil =>
            have zero : ¬ blanked m address (word.length + gap.length)
                (address + word.length + gap.length) ≠ 0 := not_not.mpr back
            rw [if_neg zero, blanked_word back List.not_mem_nil]
            rfl
        | cons ch rest =>
            have goes := back.1
            rw [← back.2.1] at goes
            have shorter : (ch :: rest).length < fuel := by
              have letter : 0 < word.length := List.length_pos_iff.mpr nonempty
              omega
            rw [if_pos goes, ih back (List.cons_ne_nil _ _) next shorter]

theorem foldl_beforeDashes {words : List Word} (before : parsing.beginArgs = false)
    (plain : ∀ word ∈ words, word.text ≠ dashes) :
    words.foldl Parsing.take parsing =
      { parsing with
        initPath := (words.getLast?.map Word.pointer).getD parsing.initPath } := by
  induction words generalizing parsing with
  | nil => rfl
  | cons word rest ih =>
      have other := plain word List.mem_cons_self
      have taken : parsing.take word = { parsing with initPath := word.pointer } := by
        rw [Parsing.take, if_neg fun both => other both.2, before, if_neg Bool.false_ne_true]
      rw [List.foldl_cons, taken,
        @ih { parsing with initPath := word.pointer } before
          (fun word member => plain word (List.mem_cons_of_mem _ member))]
      cases rest with
      | nil => rfl
      | cons next rest => rw [List.getLast?_cons_cons, List.getLast?_cons, Option.map_some]; rfl

theorem foldl_afterDashes {words : List Word} (begun : parsing.beginArgs = true) :
    (words.foldl Parsing.take parsing).initPath = parsing.initPath ∧
      (words.foldl Parsing.take parsing).beginArgs = true ∧
      ∀ i, (words.foldl Parsing.take parsing).args i =
        if parsing.nowArgInd ≤ i ∧ i < maxArguments then
          (words[i - parsing.nowArgInd]?.map Word.pointer).getD (parsing.args i)
        else parsing.args i := by
  induction words generalizing parsing with
  | nil => exact ⟨rfl, begun, fun i => by simp⟩
  | cons word rest ih =>
      have later : ¬ (parsing.beginArgs = false ∧ word.text = dashes) := by
        intro both
        rw [begun] at both
        cases both.1
      rw [List.foldl_cons]
      by_cases room : parsing.nowArgInd < maxArguments
      · have taken : parsing.take word = { parsing with
            args := Function.update parsing.args parsing.nowArgInd word.pointer
            nowArgInd := parsing.nowArgInd + 1 } := by
          rw [Parsing.take, if_neg later, if_pos begun, if_pos room]
        rw [taken]
        obtain ⟨path, flag, args⟩ := @ih { parsing with
            args := Function.update parsing.args parsing.nowArgInd word.pointer
            nowArgInd := parsing.nowArgInd + 1 } begun
        refine ⟨path, flag, ?_⟩
        intro i
        rw [args i]
        simp only
        by_cases here : i = parsing.nowArgInd
        · subst here
          rw [if_neg (by omega), if_pos ⟨Nat.le_refl _, room⟩, Function.update_self, Nat.sub_self]
          rfl
        · rw [Function.update_of_ne here]
          by_cases inside : parsing.nowArgInd ≤ i ∧ i < maxArguments
          · rw [if_pos (by omega), if_pos inside,
              show i - parsing.nowArgInd = i - (parsing.nowArgInd + 1) + 1 by omega,
              List.getElem?_cons_succ]
          · rw [if_neg (by omega), if_neg inside]
      · have taken : parsing.take word = parsing := by
          rw [Parsing.take, if_neg later, if_pos begun, if_neg room]
        rw [taken]
        obtain ⟨path, flag, args⟩ := ih begun
        refine ⟨path, flag, ?_⟩
        intro i
        rw [args i, if_neg (by omega), if_neg (by omega)]

theorem clearArgs_within {args : Nat → Nat} {i : Nat} (within : i ≤ maxArguments) :
    clearArgs args i = 0 := if_pos within

theorem clearArgs_beyond {args : Nat → Nat} {i : Nat} (beyond : maxArguments < i) :
    clearArgs args i = args i := if_neg (Nat.not_le.mpr beyond)

theorem beforeDashes_plain (words : List Word) :
    ∀ word ∈ beforeDashes words, word.text ≠ dashes := fun _ member =>
  bne_iff_ne.mp (List.mem_takeWhile_imp (p := fun word : Word => word.text != dashes) member)

theorem finishArgs_spec (words : List Word) (initPath : Nat) (args : Nat → Nat) :
    let parsing := finishArgs (words.foldl Parsing.take ⟨initPath, clearArgs args, false, 0⟩)
    parsing.initPath = ((beforeDashes words).getLast?.map Word.pointer).getD initPath ∧
      parsing.args 0 = parsing.initPath ∧
      (∀ i < maxArguments, parsing.args (i + 1) =
        if i + 1 < maxArguments then ((afterDashes words)[i]?.map Word.pointer).getD 0 else 0) ∧
      ∀ i > maxArguments, parsing.args i = args i := by
  have path : (beforeDashes words).foldl Parsing.take ⟨initPath, clearArgs args, false, 0⟩ =
      ⟨((beforeDashes words).getLast?.map Word.pointer).getD initPath, clearArgs args, false, 0⟩ :=
    foldl_beforeDashes rfl (beforeDashes_plain words)
  generalize ((beforeDashes words).getLast?.map Word.pointer).getD initPath = last at path ⊢
  cases behind : words.dropWhile fun word => word.text != dashes with
  | nil =>
      have none : afterDashes words = [] := by rw [afterDashes, behind]; rfl
      have whole : beforeDashes words = words := by
        have split := List.takeWhile_append_dropWhile (p := fun word : Word => word.text != dashes)
          (l := words)
        rwa [behind, List.append_nil] at split
      rw [whole] at path
      rw [path, none, finishArgs, if_neg Bool.false_ne_true]
      refine ⟨rfl, ?_, ?_, ?_⟩
      · simp only [Function.update_self]
      · intro i below
        have later : i + 1 ≠ 0 := Nat.succ_ne_zero i
        simp only [Function.update_of_ne later, clearArgs_within below]
        exact (ite_self _).symm
      · intro i beyond
        have later : i ≠ 0 := Nat.ne_zero_of_lt beyond
        simp only [Function.update_of_ne later, clearArgs_beyond beyond]
  | cons word after =>
      have rest : afterDashes words = after := by rw [afterDashes, behind]; rfl
      have split : words = beforeDashes words ++ word :: after := by
        rw [← behind]
        exact List.takeWhile_append_dropWhile.symm
      have stopped := List.head?_dropWhile_not (fun word : Word => word.text != dashes) words
      rw [behind] at stopped
      have separator : word.text = dashes := bne_eq_false_iff_eq.mp stopped
      have begun : Parsing.take ⟨last, clearArgs args, false, 0⟩ word =
          ⟨last, Function.update (clearArgs args) 0 last, true, 1⟩ := by
        rw [Parsing.take, if_pos ⟨rfl, separator⟩]
      have folded : words.foldl Parsing.take ⟨initPath, clearArgs args, false, 0⟩ =
          after.foldl Parsing.take ⟨last, Function.update (clearArgs args) 0 last, true, 1⟩ := by
        rw [split, List.foldl_append, path, List.foldl_cons, begun]
      obtain ⟨same, flag, entries⟩ :=
        @foldl_afterDashes ⟨last, Function.update (clearArgs args) 0 last, true, 1⟩ after rfl
      simp only at same entries
      have before : maxArguments ≠ 0 := by decide
      rw [rest, folded, finishArgs, if_pos flag]
      refine ⟨same, ?_, ?_, ?_⟩
      · rw [entries, if_neg (by omega), same, Function.update_self]
      · intro i below
        have later : i + 1 ≠ 0 := Nat.succ_ne_zero i
        rw [entries, Function.update_of_ne later, clearArgs_within below]
        exact if_congr (by omega) rfl rfl
      · intro i beyond
        have later : i ≠ 0 := Nat.ne_zero_of_lt beyond
        rw [entries, if_neg (by omega), Function.update_of_ne later, clearArgs_beyond beyond]

/-- A run of characters other than blanks that no such character is next to. -/
structure IsWord (address : Nat) (afterBlank : Bool) (text : List UInt8) (word : Word) : Prop where
  some : word.text ≠ []
  letters : 32 ∉ word.text
  placed : ∃ front back, text = front ++ (word.text ++ back) ∧
    word.pointer = address + front.length ∧ (∀ ch ∈ back.head?, ch = 32) ∧
    (front.getLast? = Option.some 32 ∨ front = [] ∧ afterBlank = true)

/-- The words of a text are its maximal runs of characters that are no blanks. -/
theorem mem_wordsFrom (afterBlank : Bool) (word : Word) :
    word ∈ wordsFrom address afterBlank text ↔ IsWord address afterBlank text word := by
  induction text generalizing address afterBlank with
  | nil =>
      refine ⟨fun member => absurd member List.not_mem_nil, ?_⟩
      rintro ⟨some, -, front, back, split, -⟩
      exact absurd (List.append_eq_nil_iff.mp (List.append_eq_nil_iff.mp split.symm).2).1 some
  | cons ch rest ih =>
      have cut : word ∈ wordsFrom address afterBlank (ch :: rest) ↔
          (ch ≠ 32 ∧ afterBlank = true) ∧
              word = ⟨address, (ch :: rest).takeWhile fun ch => ch != 32⟩ ∨
            word ∈ wordsFrom (address + 1) (ch == 32) rest := by
        rw [wordsFrom]
        by_cases starts : ch ≠ 32 ∧ afterBlank = true
        · rw [if_pos starts, List.mem_cons, and_iff_right starts]
        · rw [if_neg starts]
          exact ⟨Or.inr, fun either => either.resolve_left fun first => starts first.1⟩
      rw [cut, ih]
      constructor
      · rintro (⟨⟨letter, after⟩, rfl⟩ | ⟨some, letters, front, back, split, pointer, stop, left⟩)
        · obtain ⟨run, back, split, letters, stop⟩ := exists_run (ch :: rest)
          have whole := takeWhile_word letters stop
          rw [← split] at whole
          rw [whole]
          refine ⟨?_, letters, [], back, split, rfl, stop, Or.inr ⟨rfl, after⟩⟩
          intro none
          have none : run = [] := none
          rw [none, List.nil_append] at split
          exact letter (stop ch (by rw [← split]; rfl))
        · refine ⟨some, letters, ch :: front, back, ?_, ?_, stop, Or.inl ?_⟩
          · rw [split, List.cons_append]
          · rw [pointer, List.length_cons]
            omega
          · rcases left with left | ⟨rfl, blank⟩
            · rw [List.getLast?_cons, left]
              rfl
            · rw [beq_iff_eq.mp blank]
              rfl
      · rintro ⟨some, letters, front, back, split, pointer, stop, left⟩
        cases front with
        | nil =>
            have after : afterBlank = true := by
              rcases left with none | both
              · cases none
              · exact both.2
            have whole := takeWhile_word letters stop
            rw [List.nil_append] at split
            rw [← split] at whole
            refine Or.inl ⟨⟨?_, after⟩, ?_⟩
            · intro blank
              rw [blank, List.takeWhile_cons] at whole
              exact some whole.symm
            · cases word
              exact congrArg₂ Word.mk pointer whole.symm
        | cons first front =>
            rw [List.cons_append, List.cons.injEq] at split
            obtain ⟨rfl, split⟩ := split
            refine Or.inr ⟨some, letters, front, back, split, ?_, stop, ?_⟩
            · rw [pointer, List.length_cons]
              omega
            · rcases left with last | ⟨none, -⟩
              · cases front with
                | nil => exact Or.inr ⟨rfl, beq_iff_eq.mpr (Option.some.inj last)⟩
                | cons next front =>
                    rw [List.getLast?_cons_cons] at last
                    exact Or.inl last
              · cases none

theorem Spells.word {word : Word} (spells : Spells m address text)
    (member : word ∈ wordsFrom address true text) :
    Spells (blanked m address text.length) word.pointer word.text := by
  obtain ⟨some, letters, front, back, rfl, pointer, stop, -⟩ := (mem_wordsFrom true word).mp member
  have here := spells.right
  have lengths : (front ++ (word.text ++ back)).length =
      front.length + (word.text.length + back.length) := by
    rw [List.length_append, List.length_append]
  have plain := blanked_word here letters
  rw [pointer, lengths]
  apply here.left
  · intro x low high
    apply if_neg
    intro blank
    have zero : blanked m (address + front.length) word.text.length x = 0 :=
      if_pos ⟨low, high, blank.2.2⟩
    rw [plain, blank.2.2] at zero
    cases zero
  · have after := here.right
    cases back with
    | nil =>
        have zero : m (address + front.length + word.text.length) = 0 := after
        rw [blanked, zero]
        exact ite_self _
    | cons ch back =>
        obtain ⟨-, first, -⟩ := after
        refine if_pos ⟨by omega, ?_, first.trans (stop ch rfl)⟩
        rw [List.length_cons]
        omega

def Typed (text : List UInt8) : Prop := ∃ ch ∈ text, ch ≠ 32

theorem parseCmdline_typed (initPath : Nat) (args : Nat → Nat) (spells : Spells m address text)
    (typed : Typed text) (enough : text.length < fuel) :
    parseCmdline fuel m address initPath args =
      some (blanked m address text.length, finishArgs
        ((wordsFrom address true text).foldl Parsing.take ⟨initPath, args, false, 0⟩)) := by
  obtain ⟨gap, rest, rfl, blank, next⟩ := exists_gap text
  have nonempty : rest ≠ [] := by
    intro none
    obtain ⟨ch, member, other⟩ := typed
    rw [none, List.append_nil] at member
    exact other (blank ch member)
  rw [List.length_append] at enough ⊢
  have skipped := skipBlanks_spec spells blank next (show gap.length < fuel by omega)
  have back : Spells (zeroed m address gap.length) (address + gap.length) rest := by
    apply spells.right.congr
    intro x low _
    exact if_neg (by omega)
  simp only [parseCmdline, skipped,
    cmdlineLoop_spec back nonempty next (show rest.length < fuel by omega)]
  rw [← blanked_gap spells blank, blanked_append, wordsFrom_blanks true blank (Or.inr rfl)]

theorem not_typed (blank : ¬ Typed text) : ∀ ch ∈ text, ch = 32 := by
  intro ch member
  by_contra other
  exact blank ⟨ch, member, other⟩

theorem parseCmdline_blank (initPath : Nat) (args : Nat → Nat) (spells : Spells m address text)
    (blank : ¬ Typed text) (enough : text.length < fuel) :
    ∃ after, parseCmdline fuel m address initPath args = some after ∧
      after.2.initPath = address + text.length := by
  have spaces := not_typed blank
  have whole : Spells m address (text ++ []) := by rwa [List.append_nil]
  have skipped := skipBlanks_spec whole spaces (by simp) enough
  have back : Spells (zeroed m address text.length) (address + text.length) [] := by
    apply whole.right.congr
    intro x low _
    exact if_neg (by omega)
  cases fuel with
  | zero => exact absurd enough (Nat.not_lt_zero _)
  | succ fuel =>
      simp only [parseCmdline, skipped,
        cmdlineLoop_last back List.not_mem_nil (Nat.zero_lt_succ fuel)]
      exact ⟨_, rfl, rfl⟩

/-- When the command line is parsed as expected: exactly if there is something in it besides
blanks. A line of blanks only leads to an empty path. -/
theorem parse_cmdline_iff {m : Mem} {cmdline initPath fuel : Nat} {args : Nat → Nat}
    {text : List UInt8} (spells : Spells m cmdline text)
    (below : cmdline + text.length < 2 ^ 32)
    (outside : initPath < cmdline ∨ cmdline + text.length < initPath)
    (enough : text.length < fuel) :
    ∃ after, parseCmdline fuel m cmdline initPath (clearArgs args) = some after ∧
      (Parses m cmdline initPath args text after ↔ Typed text) := by
  by_cases typed : Typed text
  · refine ⟨_, parseCmdline_typed initPath (clearArgs args) spells typed enough, ?_⟩
    obtain ⟨path, first, arguments, beyond⟩ :=
      finishArgs_spec (wordsFrom cmdline true text) initPath args
    refine iff_of_true ⟨path, first, arguments, beyond, ?_, ?_⟩ typed
    · intro word member
      apply (spells.word member).loadString
      obtain ⟨-, -, front, back, split, pointer, -, -⟩ := (mem_wordsFrom true word).mp member
      have lengths := congrArg List.length split
      rw [List.length_append, List.length_append] at lengths
      omega
    · intro address outside
      exact if_neg (by omega)
  · obtain ⟨after, parsed, path⟩ :=
      parseCmdline_blank initPath (clearArgs args) spells typed enough
    refine ⟨after, parsed, iff_of_false ?_ typed⟩
    intro parses
    have none : wordsFrom cmdline true text = [] := by
      have moved : wordsFrom cmdline true (text ++ []) =
          wordsFrom (cmdline + text.length) true [] :=
        wordsFrom_blanks true (not_typed typed) (Or.inr rfl)
      rwa [List.append_nil] at moved
    have expected := parses.path
    rw [none, path] at expected
    have same : cmdline + text.length = initPath := expected
    omega

/-- A line of two words and a separator. -/
theorem parse_cmdline_words :
    ∃ after, parseCmdline 7 (storeBytes (fun _ => 0) 4096 [97, 32, 45, 45, 32, 98]) 4096 64
        (clearArgs fun _ => 0) = some after ∧
      Parses (storeBytes (fun _ => 0) 4096 [97, 32, 45, 45, 32, 98]) 4096 64 (fun _ => 0)
        [97, 32, 45, 45, 32, 98] after := by
  have spells : Spells (storeBytes (fun _ => 0) 4096 [97, 32, 45, 45, 32, 98]) 4096
      [97, 32, 45, 45, 32, 98] :=
    ⟨by decide, by decide, by decide, by decide, by decide, by decide, by decide, by decide,
      by decide, by decide, by decide, by decide, rfl⟩
  obtain ⟨after, done, parses⟩ := @parse_cmdline_iff _ 4096 64 7 (fun _ => 0) _ spells
    (by decide) (by decide) (by decide)
  exact ⟨after, done, parses.mpr ⟨97, by decide, by decide⟩⟩

/-- After an empty line the path is not the one that `main` has chosen. -/
theorem parse_cmdline_empty :
    ¬ ∀ m cmdline initPath fuel args text, Spells m cmdline text →
      cmdline + text.length < 2 ^ 32 →
      (initPath < cmdline ∨ cmdline + text.length < initPath) → text.length < fuel →
      ∃ after, parseCmdline fuel m cmdline initPath (clearArgs args) = some after ∧
        Parses m cmdline initPath args text after := by
  intro claim
  have spells : Spells (fun _ => 0) 4096 [] := rfl
  have blank : ¬ Typed [] := by
    rintro ⟨ch, member, -⟩
    exact List.not_mem_nil member
  obtain ⟨after, parsed, parses⟩ := claim (fun _ => 0) 4096 64 1 (fun _ => 0) [] spells
    (by decide) (Or.inl (by decide)) (by decide)
  obtain ⟨other, same, path⟩ :=
    parseCmdline_blank 64 (clearArgs fun _ => 0) spells blank (Nat.lt_add_one 0)
  rw [parsed] at same
  have expected := parses.path
  rw [Option.some.inj same, path] at expected
  exact absurd expected (by decide)

end SysImpl.Kernel
