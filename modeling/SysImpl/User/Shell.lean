import SysImpl.User.Strtok

/-! The command line of the shell.

The shell cuts what it has read into words in place, takes redirections out and leaves the
pointers to the other words in an array for `exec`. -/

namespace SysImpl.User

open Bytes Fields Kernel

def blanks : List UInt8 := [32, 10]

def dirWord : List UInt8 := [100, 105, 114]

structure WordsState where
  mem : Mem
  last : Nat
  i : Nat
  stdinFile : Nat
  stdoutFile : Nat

/-- What `main` takes a line for, before it makes the calls. -/
inductive Action where
  | none
  | dir (path : Nat)
  | run (cmd stdinFile stdoutFile : Nat) (wait : Bool)

def takeArgument (args : Nat) (s : WordsState) (now : Nat) : WordsState :=
  if s.mem now = 62 then { s with stdoutFile := now + 1 }
  else if s.mem now = 60 then { s with stdinFile := now + 1 }
  else if s.i < maxArguments then
    { s with mem := store32 s.mem (args + 4 * s.i) now, i := s.i + 1 }
  else s

def wordsLoop (fuel args : Nat) : Nat → WordsState → Option WordsState
  | 0, _ => none
  | rounds + 1, s =>
      match strtokR fuel blanks s.mem 0 s.last with
      | none => none
      | some (now, m, last) =>
          let s := { s with mem := m, last := last }
          if now = 0 then some s else wordsLoop fuel args rounds (takeArgument args s now)

def runCommand (fuel args : Nat) (m : Mem) (cmd last : Nat) : Option (Action × Mem) :=
  match wordsLoop fuel args fuel ⟨store32 m args cmd, last, 1, 0, 0⟩ with
  | none => none
  | some s =>
      if strcmp s.mem (load32 s.mem (args + 4 * (s.i - 1))) [38, 0] = 0 then
        some (.run cmd s.stdinFile s.stdoutFile false, store32 s.mem (args + 4 * (s.i - 1)) 0)
      else some (.run cmd s.stdinFile s.stdoutFile true, store32 s.mem (args + 4 * s.i) 0)

def shellLine (fuel args buffer siz last : Nat) (m : Mem) : Option (Action × Mem) :=
  match strtokR fuel blanks (Function.update m (buffer + siz) 0) buffer last with
  | none => none
  | some (cmd, m, last) =>
      if cmd = 0 then some (.none, m)
      else if strcmp m cmd (dirWord ++ [0]) = 0 then
        match strtokR fuel blanks m 0 last with
        | none => none
        | some (path, m, _) => some (.dir path, m)
      else runCommand fuel args m cmd last

def marked (mark : UInt8) (word : List UInt8) : Bool := word.head? == some mark

def plainWord (word : List UInt8) : Bool := !marked 62 word && !marked 60 word

structure Command where
  words : List (List UInt8)
  input : Option (List UInt8)
  output : Option (List UInt8)
  wait : Bool
  deriving DecidableEq

def redirection (mark : UInt8) (words : List (List UInt8)) : Option (List UInt8) :=
  (words.filter (marked mark)).getLast?.map List.tail

def argumentWords (first : List UInt8) (rest : List (List UInt8)) : List (List UInt8) :=
  (first :: rest.filter plainWord).take maxArguments

/-- The command of a line. An ampersand at the end of the arguments is none of them. -/
def commandOf (first : List UInt8) (rest : List (List UInt8)) : Command where
  words :=
    if (argumentWords first rest).getLast? = some [38] then (argumentWords first rest).dropLast
    else argumentWords first rest
  input := redirection 60 rest
  output := redirection 62 rest
  wait := (argumentWords first rest).getLast? ≠ some [38]

def stringAt (m : Mem) (pointer : Nat) : Option (List UInt8) :=
  if pointer = 0 then none else some (loadString m pointer)

/-- An action is what the words of a line ask for. -/
def Parsed (m : Mem) (args : Nat) (words : List (List UInt8)) : Action → Prop
  | .none => words = []
  | .dir path => ∃ rest, words = dirWord :: rest ∧ stringAt m path = rest.head?
  | .run cmd stdinFile stdoutFile wait =>
      ∃ first rest, words = first :: rest ∧ first ≠ dirWord ∧ loadString m cmd = first ∧
        (∀ count, maxArguments ≤ count →
          loadArguments m args count = (commandOf first rest).words) ∧
        stringAt m stdinFile = (commandOf first rest).input ∧
        stringAt m stdoutFile = (commandOf first rest).output ∧
        wait = (commandOf first rest).wait

def Apart (args buffer limit : Nat) : Prop :=
  args + 4 * (maxArguments + 1) ≤ buffer ∨ limit < args

def Elsewhere (args buffer limit x : Nat) : Prop :=
  (x < buffer ∨ limit < x) ∧ (x < args ∨ args + 4 * (maxArguments + 1) ≤ x)

def markedPointer (mark : UInt8) (words : List Word) : Nat :=
  ((words.filter fun word => marked mark word.text).getLast?.map fun word => word.pointer + 1).getD 0

def argumentPointers (cmd : Word) (later : List Word) : List Word :=
  (cmd :: later.filter fun word => plainWord word.text).take maxArguments

structure Held (buffer limit : Nat) (m : Mem) (word : Word) : Prop where
  spells : Spells m word.pointer word.text
  low : buffer ≤ word.pointer
  high : word.pointer + word.text.length ≤ limit
  some : word.text ≠ []

structure Kept (buffer limit : Nat) (m : Mem) (last : Nat) (words : List Word) : Prop where
  held : ∀ word ∈ words, Held buffer limit m word
  behind : 0 < last → ∀ word ∈ words, word.pointer + word.text.length < last

/-- The variables of the loop after the command and some words behind it. -/
structure Noted (args : Nat) (cmd : Word) (later : List Word) (s : WordsState) : Prop where
  count : s.i = (argumentPointers cmd later).length
  stored : ∀ (k : Nat) word, (argumentPointers cmd later)[k]? = some word →
    load32 s.mem (args + 4 * k) = word.pointer
  input : s.stdinFile = markedPointer 60 later
  output : s.stdoutFile = markedPointer 62 later

variable {args buffer limit fuel rounds : Nat} {m m' : Mem} {text : List UInt8} {word cmd : Word}
  {later words : List Word} {s : WordsState}

theorem Held.congr (held : Held buffer limit m word)
    (same : ∀ x, word.pointer ≤ x → x ≤ word.pointer + word.text.length → m' x = m x) :
    Held buffer limit m' word :=
  ⟨held.spells.congr same, held.low, held.high, held.some⟩

theorem Held.head (held : Held buffer limit m word) (mark : UInt8) :
    marked mark word.text = true ↔ m word.pointer = mark := by
  obtain ⟨c, rest, spelled⟩ := List.exists_cons_of_ne_nil held.some
  have spells := held.spells
  rw [spelled] at spells
  rw [marked, spelled, List.head?_cons, beq_iff_eq, Option.some.injEq, spells.2.1]

theorem Kept.store {last : Nat} (kept : Kept buffer limit m last words)
    (apart : Apart args buffer limit) {k : Nat} (inside : k ≤ maxArguments) (value : Nat) :
    Kept buffer limit (store32 m (args + 4 * k) value) last words := by
  refine ⟨fun word member => ?_, kept.behind⟩
  have held := kept.held word member
  have low := held.low
  have high := held.high
  refine held.congr fun x _ _ => store32_outside m _ _ x ?_
  simp only [Apart] at apart
  omega

theorem Left.store {last : Nat} (left : Left m last limit text) (apart : Apart args buffer limit)
    (after : 0 < last → buffer ≤ last) {k : Nat} (inside : k ≤ maxArguments) (value : Nat) :
    Left (store32 m (args + 4 * k) value) last limit text := by
  rcases left with none | ⟨positive, spells, ends⟩
  · exact Or.inl none
  · have low := after positive
    refine Or.inr ⟨positive, spells.congr fun x _ _ => store32_outside m _ _ x ?_, ends⟩
    simp only [Apart] at apart
    omega

theorem argumentPointers_length (cmd : Word) (later : List Word) :
    (argumentPointers cmd later).length ≤ maxArguments :=
  List.length_take_le _ _

theorem take_concat {α : Type} (whole : List α) (x : α) (n : Nat) :
    (whole ++ [x]).take n =
      if (whole.take n).length < n then whole.take n ++ [x] else whole.take n := by
  rw [List.length_take, List.take_append]
  split_ifs with room
  · rw [List.take_of_length_le (by rw [List.length_singleton]; omega : [x].length ≤ _)]
  · rw [Nat.sub_eq_zero_of_le (by omega), List.take_zero, List.append_nil]

theorem argumentPointers_append (cmd : Word) (later : List Word) (word : Word) :
    argumentPointers cmd (later ++ [word]) =
      if plainWord word.text ∧ (argumentPointers cmd later).length < maxArguments then
        argumentPointers cmd later ++ [word]
      else argumentPointers cmd later := by
  rw [argumentPointers, List.filter_append]
  cases plain : plainWord word.text with
  | false =>
    rw [List.filter_singleton, plain, cond_false, List.append_nil, if_neg fun both => nomatch both.1]
    rfl
  | true =>
    rw [List.filter_singleton, plain, cond_true, ← List.cons_append, take_concat]
    simp only [true_and]
    rfl

theorem markedPointer_append (mark : UInt8) (later : List Word) (word : Word) :
    markedPointer mark (later ++ [word]) =
      if marked mark word.text then word.pointer + 1 else markedPointer mark later := by
  by_cases has : marked mark word.text = true
  · rw [if_pos has, markedPointer, List.filter_append]
    simp [has]
  · rw [if_neg has, markedPointer, List.filter_append]
    simp [has, markedPointer]

theorem Kept.token {last last' tok : Nat} {cut rest : List UInt8}
    (kept : Kept buffer limit m last words) (positive : 0 < last) (low : buffer ≤ last)
    (within : last + text.length ≤ limit)
    (token : TakesToken blanks m last text tok m' last' cut rest) :
    Kept buffer limit m' last' (words ++ [⟨tok, cut⟩]) := by
  have place := token.place
  have inside := token.inside
  have behind := kept.behind positive
  have some : cut ≠ [] := fields_ne_nil (token.fields ▸ List.mem_cons_self)
  refine ⟨fun word member => ?_, fun after word member => ?_⟩
  · rcases List.mem_append.mp member with earlier | new
    · have ends := behind word earlier
      refine (kept.held word earlier).congr fun x _ high => ?_
      rcases token.frame x with same | ⟨-, -, here, -⟩
      · exact same
      · omega
    · rw [List.mem_singleton.mp new]
      exact ⟨token.spells, Nat.le_trans low place, Nat.le_trans inside within, some⟩
  · have beyond := token.behind after
    rcases List.mem_append.mp member with earlier | new
    · have ends := behind word earlier
      omega
    · rw [List.mem_singleton.mp new]
      exact beyond

theorem Noted.token {last last' tok : Nat} {cut rest : List UInt8} (noted : Noted args cmd later s)
    (apart : Apart args buffer limit) (low : buffer ≤ last) (within : last + text.length ≤ limit)
    (token : TakesToken blanks s.mem last text tok m' last' cut rest) :
    Noted args cmd later { s with mem := m', last := last' } := by
  refine ⟨noted.count, fun k word found => ?_, noted.input, noted.output⟩
  have room := argumentPointers_length cmd later
  have inside := (List.getElem?_eq_some_iff.mp found).1
  have place := token.place
  rw [← noted.stored k word found]
  refine load32_congr fun x _ _ => ?_
  rcases token.frame x with same | ⟨-, -, here, below⟩
  · exact same
  · simp only [Apart] at apart
    omega

theorem Noted.take (noted : Noted args cmd later s) (held : Held buffer limit s.mem word)
    (below : limit < 2 ^ 32) :
    Noted args cmd (later ++ [word]) (takeArgument args s word.pointer) := by
  have output := held.head 62
  have input := held.head 60
  have high := held.high
  have room := argumentPointers_length cmd later
  rw [takeArgument]
  split_ifs with first second space
  · have notInput : marked 60 word.text = false := by
      rw [Bool.eq_false_iff, Ne, input, first]
      decide
    refine ⟨?_, ?_, ?_, ?_⟩ <;>
      simp only [argumentPointers_append, markedPointer_append, plainWord, output.mpr first, notInput]
    · exact noted.count
    · exact noted.stored
    · exact noted.input
    · rfl
  · have notOutput : marked 62 word.text = false := by
      rw [Bool.eq_false_iff, Ne, output]
      exact first
    refine ⟨?_, ?_, ?_, ?_⟩ <;>
      simp only [argumentPointers_append, markedPointer_append, plainWord, input.mpr second, notOutput]
    · exact noted.count
    · exact noted.stored
    · rfl
    · exact noted.output
  all_goals
    have notInput : marked 60 word.text = false := by
      rw [Bool.eq_false_iff, Ne, input]
      exact second
    have notOutput : marked 62 word.text = false := by
      rw [Bool.eq_false_iff, Ne, output]
      exact first
    have plain : plainWord word.text = true := by rw [plainWord, notInput, notOutput]; rfl
  · have short : (argumentPointers cmd later).length < maxArguments := noted.count ▸ space
    refine ⟨?_, fun k other found => ?_, ?_, ?_⟩
    · rw [argumentPointers_append, if_pos ⟨plain, short⟩, List.length_append, ← noted.count]
      rfl
    · rw [argumentPointers_append, if_pos ⟨plain, short⟩] at found
      by_cases new : k = s.i
      · rw [new, noted.count, List.getElem?_concat_length, Option.some.injEq] at found
        rw [new, ← found]
        exact load32_store32 _ _ _ (by omega)
      · rw [load32_store32_of_disjoint _ _ _ _ (by omega)]
        rw [List.getElem?_append] at found
        split_ifs at found with early
        · exact noted.stored k other found
        · have far := (List.getElem?_eq_some_iff.mp found).1
          rw [noted.count] at new
          simp only [List.length_singleton] at far
          omega
    · rw [markedPointer_append, notInput]
      exact noted.input
    · rw [markedPointer_append, notOutput]
      exact noted.output
  · have full : ¬ (plainWord word.text = true ∧
        (argumentPointers cmd later).length < maxArguments) := fun both =>
      space (noted.count ▸ both.2)
    refine ⟨?_, fun k other found => ?_, ?_, ?_⟩
    · rw [argumentPointers_append, if_neg full]
      exact noted.count
    · rw [argumentPointers_append, if_neg full] at found
      exact noted.stored k other found
    · rw [markedPointer_append, notInput]
      exact noted.input
    · rw [markedPointer_append, notOutput]
      exact noted.output

theorem takeArgument_mem (args : Nat) (s : WordsState) (now : Nat) :
    (takeArgument args s now).mem = s.mem ∨ (s.i < maxArguments ∧
      (takeArgument args s now).mem = store32 s.mem (args + 4 * s.i) now) := by
  rw [takeArgument]
  split_ifs with first second space
  · exact Or.inl rfl
  · exact Or.inl rfl
  · exact Or.inr ⟨space, rfl⟩
  · exact Or.inl rfl

theorem takeArgument_last (args : Nat) (s : WordsState) (now : Nat) :
    (takeArgument args s now).last = s.last := by
  rw [takeArgument]
  split_ifs <;> rfl

theorem Kept.take (kept : Kept buffer limit s.mem s.last words) (apart : Apart args buffer limit)
    (now : Nat) :
    Kept buffer limit (takeArgument args s now).mem (takeArgument args s now).last words := by
  rw [takeArgument_last]
  rcases takeArgument_mem args s now with same | ⟨room, stored⟩
  · rwa [same]
  · rw [stored]
    exact kept.store apart (Nat.le_of_lt room) now

theorem Left.take (left : Left s.mem s.last limit text) (apart : Apart args buffer limit)
    (low : 0 < s.last → buffer ≤ s.last) (now : Nat) :
    Left (takeArgument args s now).mem (takeArgument args s now).last limit text := by
  rw [takeArgument_last]
  rcases takeArgument_mem args s now with same | ⟨room, stored⟩
  · rwa [same]
  · rw [stored]
    exact left.store apart low (Nat.le_of_lt room) now

theorem takeArgument_frame (s : WordsState) (now : Nat) {x : Nat}
    (elsewhere : Elsewhere args buffer limit x) : (takeArgument args s now).mem x = s.mem x := by
  have outside := elsewhere.2
  rcases takeArgument_mem args s now with same | ⟨room, stored⟩
  · rw [same]
  · rw [stored]
    exact store32_outside _ _ _ x (by omega)

theorem token_frame {last last' tok : Nat} {cut rest : List UInt8} (low : buffer ≤ last)
    (within : last + text.length ≤ limit)
    (token : TakesToken blanks m last text tok m' last' cut rest) {x : Nat}
    (elsewhere : Elsewhere args buffer limit x) : m' x = m x := by
  rcases token.frame x with same | ⟨-, -, here, inside⟩
  · exact same
  · have outside := elsewhere.1
    have place := token.place
    omega

/-- The loop takes every word that is left, and changes nothing but the line and the array. -/
theorem wordsLoop_spec (apart : Apart args buffer limit) (below : limit < 2 ^ 32)
    (kept : Kept buffer limit s.mem s.last (cmd :: later)) (noted : Noted args cmd later s)
    (left : Left s.mem s.last limit text) (low : 0 < s.last → buffer ≤ s.last)
    (enough : text.length < fuel) (more : text.length < rounds) :
    ∃ s' found, wordsLoop fuel args rounds s = some s' ∧
      found.map Word.text = fields blanks.contains text ∧
      Kept buffer limit s'.mem s'.last (cmd :: (later ++ found)) ∧
      Noted args cmd (later ++ found) s' ∧
      ∀ x, Elsewhere args buffer limit x → s'.mem x = s.mem x := by
  induction rounds generalizing s later text with
  | zero => exact absurd more (Nat.not_lt_zero _)
  | succ rounds ih =>
      rcases strtokR_left left (by decide : (0 : UInt8) ∉ blanks) enough with
        ⟨none, ended⟩ | ⟨tok, m', last', cut, rest, taken, positive, within, token⟩
      · refine ⟨{ s with last := 0 }, [], ?_, none.symm, ?_, ?_, fun x _ => rfl⟩
        · rw [wordsLoop, ended]
          rfl
        · rw [List.append_nil]
          exact ⟨kept.held, fun impossible => absurd impossible (Nat.lt_irrefl 0)⟩
        · rw [List.append_nil]
          exact ⟨noted.count, noted.stored, noted.input, noted.output⟩
      · have place := token.place
        have shorter := token.shorter
        have start := low positive
        have cutKept := kept.token positive start within token
        have cutNoted := noted.token apart start within token
        have held := cutKept.held ⟨tok, cut⟩ (List.mem_append_right _ List.mem_cons_self)
        have after : 0 < last' → buffer ≤ last' := fun positive => by
          have beyond := token.behind positive
          omega
        have leftover : Left m' last' limit rest := token.left.widen within
        have sameLast := takeArgument_last args { s with mem := m', last := last' } tok
        obtain ⟨s', found, done, texts, keptAll, notedAll, frame⟩ :=
          ih (cutKept.take apart tok) (cutNoted.take held below) (leftover.take apart after tok)
            (by rwa [sameLast]) (by omega) (by omega)
        refine ⟨s', ⟨tok, cut⟩ :: found, ?_, ?_, ?_, ?_, ?_⟩
        · rw [wordsLoop, taken]
          simp only [show tok ≠ 0 by omega, if_false, done]
        · rw [token.fields, List.map_cons, texts]
        · rwa [List.append_cons]
        · rwa [List.append_cons]
        · intro x elsewhere
          rw [frame x elsewhere, takeArgument_frame _ _ elsewhere]
          exact token_frame start within token elsewhere

theorem loadWord_eq {address : Nat} (room : address + 4 ≤ 2 ^ 32) :
    loadWord m address = load32 m address := by
  refine load32_congr fun x _ high => ?_
  rw [u32, Nat.mod_eq_of_lt (by omega)]

theorem loadArguments_stored (held : ∀ word ∈ words, Held buffer limit m word)
    (stored : ∀ (k : Nat) word, words[k]? = some word → load32 m (args + 4 * k) = word.pointer)
    (stop : load32 m (args + 4 * words.length) = 0) (positive : 0 < buffer)
    (below : limit < 2 ^ 32) (room : args + 4 * (words.length + 1) ≤ 2 ^ 32) {count : Nat}
    (enough : words.length ≤ count) : loadArguments m args count = words.map Word.text := by
  induction words generalizing args count with
  | nil =>
      cases count with
      | zero => rfl
      | succ count =>
          have zero : loadWord m args = 0 := (loadWord_eq (by simpa using room)).trans stop
          rw [loadArguments, zero]
          rfl
  | cons word words ih =>
      rw [List.length_cons] at stop room enough
      cases count with
      | zero => exact absurd enough (Nat.not_succ_le_zero _)
      | succ count =>
          have first : loadWord m args = word.pointer :=
            (loadWord_eq (by omega)).trans (stored 0 word rfl)
          have one := held word List.mem_cons_self
          have low := one.low
          have high := one.high
          have later : loadArguments m (args + 4) count = words.map Word.text := by
            refine ih (fun word member => held word (List.mem_cons_of_mem _ member))
              (fun k word found => ?_) ?_ (by omega) (by omega)
            · rw [Nat.add_assoc, show 4 + 4 * k = 4 * (k + 1) by omega]
              exact stored (k + 1) word (by rwa [List.getElem?_cons_succ])
            · rwa [Nat.add_assoc, show 4 + 4 * words.length = 4 * (words.length + 1) by omega]
          simp only [loadArguments, first, show word.pointer ≠ 0 by omega, if_false, later,
            List.map_cons, one.spells.loadString (by omega : word.pointer + word.text.length < _)]

theorem argumentPointers_texts (cmd : Word) (later : List Word) :
    (argumentPointers cmd later).map Word.text = argumentWords cmd.text (later.map Word.text) := by
  rw [argumentPointers, argumentWords, List.map_take, List.map_cons, List.filter_map]
  rfl

theorem argumentPointers_member (member : word ∈ argumentPointers cmd later) :
    word ∈ cmd :: later := by
  rcases List.mem_cons.mp (List.mem_of_mem_take member) with rfl | member
  · exact List.mem_cons_self
  · exact List.mem_cons_of_mem _ (List.mem_of_mem_filter member)

theorem stringAt_marked (held : ∀ word ∈ later, Held buffer limit m word)
    (below : limit < 2 ^ 32) (mark : UInt8) :
    stringAt m (markedPointer mark later) = redirection mark (later.map Word.text) := by
  have texts : (later.map Word.text).filter (marked mark) =
      (later.filter fun word => marked mark word.text).map Word.text := List.filter_map
  rw [redirection, texts, List.getLast?_map, markedPointer]
  cases last : (later.filter fun word => marked mark word.text).getLast? with
  | none => rfl
  | some word =>
      have one := held word (List.mem_of_mem_filter (List.mem_of_getLast? last))
      obtain ⟨c, rest, spelled⟩ := List.exists_cons_of_ne_nil one.some
      have spells := one.spells
      have high := one.high
      rw [spelled] at spells high
      rw [List.length_cons] at high
      simp only [stringAt, Option.map_some, Option.getD_some, Nat.succ_ne_zero, if_false, spelled,
        List.tail_cons]
      rw [spells.2.2.loadString (by omega)]

theorem Noted.terminated (noted : Noted args cmd later s)
    (kept : Kept buffer limit s.mem s.last (cmd :: later)) (apart : Apart args buffer limit)
    (positive : 0 < buffer) (below : limit < 2 ^ 32)
    (room : args + 4 * (maxArguments + 1) ≤ 2 ^ 32) {n count : Nat} (inside : n ≤ s.i)
    (enough : maxArguments ≤ count) :
    loadArguments (store32 s.mem (args + 4 * n) 0) args count =
      ((argumentPointers cmd later).take n).map Word.text := by
  have full := argumentPointers_length cmd later
  rw [← noted.count] at full
  have length : ((argumentPointers cmd later).take n).length = n := by
    rw [List.length_take, ← noted.count, Nat.min_eq_left inside]
  refine loadArguments_stored (fun word member => ?_) (fun k word found => ?_) ?_ positive below
    (by omega) (by omega)
  · exact (kept.store apart (by omega) 0).held word
      (argumentPointers_member (List.mem_of_mem_take member))
  · have early := (List.getElem?_eq_some_iff.mp found).1
    rw [load32_store32_of_disjoint _ _ _ _ (by omega)]
    exact noted.stored k word (by rwa [List.getElem?_take_of_lt (by omega)] at found)
  · rw [length]
    exact load32_store32 _ _ _ (by decide)

theorem Noted.parsed (noted : Noted args cmd later s)
    (kept : Kept buffer limit s.mem s.last (cmd :: later)) (apart : Apart args buffer limit)
    (positive : 0 < buffer) (below : limit < 2 ^ 32)
    (room : args + 4 * (maxArguments + 1) ≤ 2 ^ 32) (other : cmd.text ≠ dirWord) {n : Nat}
    (inside : n ≤ s.i)
    (words : (commandOf cmd.text (later.map Word.text)).words =
      (argumentWords cmd.text (later.map Word.text)).take n) :
    Parsed (store32 s.mem (args + 4 * n) 0) args (cmd.text :: later.map Word.text)
      (.run cmd.pointer s.stdinFile s.stdoutFile
        (commandOf cmd.text (later.map Word.text)).wait) := by
  have full := argumentPointers_length cmd later
  rw [← noted.count] at full
  have held := (kept.store apart (Nat.le_trans inside full) 0).held
  have command := held cmd List.mem_cons_self
  have high := command.high
  have files := @stringAt_marked buffer limit _ later
    (fun word member => held word (List.mem_cons_of_mem _ member)) below
  refine ⟨cmd.text, _, rfl, other, command.spells.loadString (by omega), fun count enough => ?_,
    ?_, ?_, rfl⟩
  · rw [noted.terminated kept apart positive below room inside enough, words, List.map_take,
      argumentPointers_texts]
  · rw [noted.input]
    exact files 60
  · rw [noted.output]
    exact files 62

theorem runCommand_spec (cmd : Word) (apart : Apart args buffer limit) (positive : 0 < buffer)
    (below : limit < 2 ^ 32) (room : args + 4 * (maxArguments + 1) ≤ 2 ^ 32) {last : Nat}
    (kept : Kept buffer limit m last [cmd]) (left : Left m last limit text)
    (low : 0 < last → buffer ≤ last) (other : cmd.text ≠ dirWord) (enough : text.length < fuel) :
    ∃ action m', runCommand fuel args m cmd.pointer last = some (action, m') ∧
      Parsed m' args (cmd.text :: fields blanks.contains text) action ∧
      ∀ x, Elsewhere args buffer limit x → m' x = m x := by
  have command := kept.held cmd List.mem_cons_self
  have high := command.high
  have zeroth : args + 4 * 0 = args := rfl
  have noted : Noted args cmd [] ⟨store32 m args cmd.pointer, last, 1, 0, 0⟩ := by
    refine ⟨rfl, fun k word found => ?_, rfl, rfl⟩
    obtain ⟨inside, rfl⟩ := List.getElem?_eq_some_iff.mp found
    have first : k = 0 := Nat.lt_one_iff.mp inside
    subst first
    exact load32_store32 _ _ _ (by omega)
  obtain ⟨s, found, done, texts, keptAll, notedAll, frame⟩ :=
    @wordsLoop_spec args buffer limit fuel fuel text cmd []
      ⟨store32 m args cmd.pointer, last, 1, 0, 0⟩ apart below
      (kept.store apart (Nat.zero_le _) cmd.pointer) noted
      (left.store apart low (Nat.zero_le _) cmd.pointer) low enough enough
  rw [List.nil_append] at keptAll notedAll
  have some : argumentPointers cmd found ≠ [] := by simp [argumentPointers, maxArguments]
  obtain ⟨front, word, split⟩ : ∃ front word, argumentPointers cmd found = front ++ [word] :=
    ⟨_, _, (List.dropLast_append_getLast some).symm⟩
  have count : s.i = front.length + 1 := by
    rw [notedAll.count, split, List.length_append]
    rfl
  have full := argumentPointers_length cmd found
  rw [← notedAll.count] at full
  have stored : load32 s.mem (args + 4 * (s.i - 1)) = word.pointer :=
    notedAll.stored (s.i - 1) word (by rw [split, count]; simp)
  have wordHeld : Held buffer limit s.mem word :=
    keptAll.held word (argumentPointers_member (split ▸ List.mem_append_right _ List.mem_cons_self))
  have ampersand : strcmp s.mem word.pointer [38, 0] = 0 ↔ word.text = [38] :=
    strcmp_eq_zero (by decide : (0 : UInt8) ∉ [38]) wordHeld.spells
  have words : argumentWords cmd.text (found.map Word.text) =
      front.map Word.text ++ [word.text] := by
    rw [← argumentPointers_texts, split, List.map_append]
    rfl
  have outside : ∀ n ≤ maxArguments, ∀ x, Elsewhere args buffer limit x →
      store32 s.mem (args + 4 * n) 0 x = m x := by
    intro n inside x elsewhere
    have apart := elsewhere.2
    rw [store32_outside _ _ _ x (by omega), frame x elsewhere]
    exact store32_outside _ _ _ x (by simp only [maxArguments] at apart; omega)
  rw [runCommand, done]
  simp only [stored, ampersand, ← texts]
  by_cases background : word.text = [38]
  · have command : (commandOf cmd.text (found.map Word.text)).words =
          (argumentWords cmd.text (found.map Word.text)).take (s.i - 1) ∧
        (commandOf cmd.text (found.map Word.text)).wait = false := by
      simp [commandOf, words, background, count]
    have parsed := notedAll.parsed keptAll apart positive below room other (Nat.sub_le _ 1)
      command.1
    rw [command.2] at parsed
    rw [if_pos background]
    exact ⟨_, _, rfl, parsed, outside _ (Nat.le_trans (Nat.sub_le _ _) full)⟩
  · have command : (commandOf cmd.text (found.map Word.text)).words =
          (argumentWords cmd.text (found.map Word.text)).take s.i ∧
        (commandOf cmd.text (found.map Word.text)).wait = true := by
      simp [commandOf, words, background, count]
    have parsed := notedAll.parsed keptAll apart positive below room other (Nat.le_refl _)
      command.1
    rw [command.2] at parsed
    rw [if_neg background]
    exact ⟨_, _, rfl, parsed, outside _ full⟩

theorem spells_loaded {address siz : Nat} (stop : m (address + siz) = 0) :
    Spells m address ((loadBytes m address siz).takeWhile (· ≠ 0)) := by
  induction siz generalizing address with
  | zero => exact stop
  | succ siz ih =>
      have unfolded : loadBytes m address (siz + 1) =
          m address :: loadBytes m (address + 1) siz := by
        simp only [loadBytes, List.range_succ_eq_map, List.map_cons, List.map_map]
        refine congrArg _ (List.map_congr_left fun i _ => ?_)
        exact congrArg m (by simp only [Nat.succ_eq_add_one]; omega)
      rw [unfolded]
      by_cases zero : m address = 0
      · rw [List.takeWhile_cons_of_neg (by simpa using zero)]
        exact zero
      · rw [List.takeWhile_cons_of_pos (by simpa using zero)]
        exact ⟨zero, rfl, ih (by rwa [Nat.add_right_comm, Nat.add_assoc])⟩

/-- The shell takes a line for what its words ask for, whatever the line is, and writes to its
two arrays only. -/
theorem shell_line {siz : Nat} (positive : 0 < buffer) (below : buffer + siz < 2 ^ 32)
    (room : args + 4 * (maxArguments + 1) ≤ 2 ^ 32) (apart : Apart args buffer (buffer + siz))
    (enough : siz < fuel) (m : Mem) (last : Nat) :
    ∃ action m', shellLine fuel args buffer siz last m = some (action, m') ∧
      Parsed m' args
        (fields blanks.contains ((loadBytes m buffer siz).takeWhile (· ≠ 0))) action ∧
      ∀ x, Elsewhere args buffer (buffer + siz) x → m' x = m x := by
  have ended : ∀ x, Elsewhere args buffer (buffer + siz) x →
      Function.update m (buffer + siz) 0 x = m x := by
    intro x elsewhere
    have outside := elsewhere.1
    exact Function.update_of_ne (by omega) _ _
  have line : loadBytes (Function.update m (buffer + siz) 0) buffer siz =
      loadBytes m buffer siz := by
    refine List.map_congr_left fun i member => Function.update_of_ne ?_ _ _
    have inside := List.mem_range.mp member
    omega
  have spells := spells_loaded (Function.update_self (buffer + siz) (0 : UInt8) m)
  rw [line] at spells
  generalize known : (loadBytes m buffer siz).takeWhile (· ≠ 0) = text at spells ⊢
  have short : text.length ≤ siz := by
    have front : text <+: loadBytes m buffer siz := known ▸ List.takeWhile_prefix _
    exact loadBytes_length m buffer siz ▸ front.length_le
  have strings : (0 : UInt8) ∉ blanks := by decide
  rw [shellLine]
  rcases strtokR_spec spells strings positive (by omega : text.length < fuel)
      (if_neg (by omega) : (if buffer = 0 then last else buffer) = buffer) with
    ⟨none, empty⟩ | ⟨tok, m₁, last₁, cut, rest, taken, token⟩
  · rw [empty]
    exact ⟨_, _, rfl, none, ended⟩
  have place := token.place
  have shorter := token.shorter
  have limits := token.left.widen (by omega : buffer + text.length ≤ buffer + siz)
  have frame : ∀ x, Elsewhere args buffer (buffer + siz) x → m₁ x = m x := fun x elsewhere =>
    (token_frame (Nat.le_refl _) (by omega) token elsewhere).trans (ended x elsewhere)
  have compared : strcmp m₁ tok (dirWord ++ [0]) = 0 ↔ cut = dirWord :=
    strcmp_eq_zero (by decide) token.spells
  have kept := @Kept.token buffer (buffer + siz) _ m₁ text [] buffer last₁ tok cut rest
    ⟨by simp, by simp⟩ positive (Nat.le_refl _) (by omega) token
  rw [taken, token.fields]
  simp only [show tok ≠ 0 by omega, if_false, compared]
  by_cases listing : cut = dirWord
  · rw [if_pos listing]
    rcases strtokR_left limits strings (by omega : rest.length < fuel) with
      ⟨none, ended⟩ | ⟨path, m₂, last₂, name, more, taken, positive, within, second⟩
    · rw [ended]
      exact ⟨_, _, rfl, ⟨[], by rw [listing, none], rfl⟩, frame⟩
    · have start := token.behind positive
      have place := second.place
      have inside := second.inside
      rw [taken]
      refine ⟨_, _, rfl, ⟨_, by rw [listing], ?_⟩, fun x elsewhere =>
        (token_frame (by omega) within second elsewhere).trans (frame x elsewhere)⟩
      rw [second.fields, stringAt, if_neg (by omega), second.spells.loadString (by omega)]
      rfl
  · rw [if_neg listing]
    obtain ⟨action, m', done, parsed, unchanged⟩ :=
      runCommand_spec ⟨tok, cut⟩ apart positive below room kept limits
        (fun after => by have beyond := token.behind after; omega) listing
        (by omega : rest.length < fuel)
    exact ⟨action, m', done, parsed, fun x elsewhere =>
      (unchanged x elsewhere).trans (frame x elsewhere)⟩

/-- `ls >f a &` -/
def typedLine : List UInt8 := [108, 115, 32, 62, 102, 32, 97, 32, 38, 10]

example : commandOf [108, 115] [[62, 102], [97], [38]] =
    ⟨[[108, 115], [97]], none, some [102], false⟩ := by
  decide

theorem shell_line_ampersand :
    ∃ action m', shellLine 256 2000 1000 10 0 (storeBytes (fun _ => 0) 1000 typedLine) =
        some (action, m') ∧
      Parsed m' 2000 [[108, 115], [62, 102], [97], [38]] action := by
  have words : fields blanks.contains ((loadBytes (storeBytes (fun _ => 0) 1000 typedLine)
      1000 10).takeWhile (· ≠ 0)) = [[108, 115], [62, 102], [97], [38]] := by
    decide +kernel
  obtain ⟨action, m', done, parsed, -⟩ := @shell_line 2000 1000 256 10 (by decide) (by decide)
    (by decide) (Or.inr (by decide)) (by decide) (storeBytes (fun _ => 0) 1000 typedLine) 0
  exact ⟨action, m', done, words ▸ parsed⟩

end SysImpl.User
