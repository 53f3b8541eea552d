import SysImpl.Kernel.CommandLine
import SysImpl.Lib.Fields

/-! `strtok` of the user library.

It stores a zero over the delimiter behind every token and goes on behind that. So the tokens
are the fields of the string, each at its place. -/

namespace SysImpl.User

open Bytes Fields Kernel

def skipDelims (delim : List UInt8) : Nat → Mem → Nat → Option (UInt8 × Nat)
  | 0, _, _ => none
  | fuel + 1, m, s =>
      if delim.contains (m s) then skipDelims delim fuel m (s + 1) else some (m s, s + 1)

/-- The loop that looks for the end of a token. The terminator of `delim` counts as well. -/
def scanToken (delim : List UInt8) : Nat → Mem → Nat → Option (UInt8 × Nat)
  | 0, _, _ => none
  | fuel + 1, m, s =>
      if (delim ++ [0]).contains (m s) then some (m s, s + 1) else scanToken delim fuel m (s + 1)

/-- `__strtok_r`: the token or a null pointer, the memory and `*last`. -/
def strtokR (fuel : Nat) (delim : List UInt8) (m : Mem) (s last : Nat) :
    Option (Nat × Mem × Nat) :=
  let s := if s = 0 then last else s
  if s = 0 then some (0, m, last)
  else
    match skipDelims delim fuel m s with
    | none => none
    | some (c, s) =>
        if c = 0 then some (0, m, 0)
        else
          let tok := s - 1
          match scanToken delim fuel m s with
          | none => none
          | some (c, s) =>
              if c = 0 then some (tok, m, 0) else some (tok, Function.update m (s - 1) 0, s)

/-- Calls of `strtok(NULL, delim)`, up to the first null pointer, and what they leave in `*last`. -/
def strtokNext (fuel : Nat) (delim : List UInt8) :
    Nat → Mem → Nat → Option (List Nat × Mem × Nat)
  | 0, _, _ => none
  | rounds + 1, m, last =>
      match strtokR fuel delim m 0 last with
      | none => none
      | some (tok, m, last) =>
          if tok = 0 then some ([], m, last)
          else (strtokNext fuel delim rounds m last).map fun later => (tok :: later.1, later.2)

def strtokAll (fuel : Nat) (delim : List UInt8) (m : Mem) (s last : Nat) :
    Option (List Nat × Mem × Nat) :=
  match strtokR fuel delim m s last with
  | none => none
  | some (tok, m, last) =>
      if tok = 0 then some ([], m, last)
      else (strtokNext fuel delim fuel m last).map fun later => (tok :: later.1, later.2)

def Left (m : Mem) (last limit : Nat) (text : List UInt8) : Prop :=
  (last = 0 ∧ text = []) ∨ (0 < last ∧ Spells m last text ∧ last + text.length ≤ limit)

/-- A call takes the first field of the text at `s` as the token. -/
structure TakesToken (delim : List UInt8) (m : Mem) (s : Nat) (text : List UInt8) (tok : Nat)
    (m' : Mem) (last : Nat) (word rest : List UInt8) : Prop where
  fields : fields delim.contains text = word :: fields delim.contains rest
  shorter : rest.length < text.length
  place : s ≤ tok
  inside : tok + word.length ≤ s + text.length
  spells : Spells m' tok word
  left : Left m' last (s + text.length) rest
  behind : 0 < last → tok + word.length < last
  frame : ∀ x, m' x = m x ∨
    (m' x = 0 ∧ delim.contains (m x) ∧ x = tok + word.length ∧ x < s + text.length)

structure Cut (delim : List UInt8) (m : Mem) (s limit : Nat) (text : List UInt8)
    (toks : List Nat) (m' : Mem) : Prop where
  held : List.Forall₂ (fun tok word => Spells m' tok word ∧ s ≤ tok ∧ tok + word.length ≤ limit)
    toks (fields delim.contains text)
  frame : ∀ x, m' x = m x ∨
    (m' x = 0 ∧ delim.contains (m x) ∧ 0 < s ∧ s ≤ x ∧ x < limit)

variable {delim text rest gap word : List UInt8} {m m' : Mem} {s last fuel : Nat}

theorem Left.widen {limit limit' : Nat} (left : Left m last limit text) (within : limit ≤ limit') :
    Left m last limit' text :=
  left.imp id fun ⟨after, later, ends⟩ => ⟨after, later, Nat.le_trans ends within⟩

theorem skipDelims_spec (spells : Spells m s (gap ++ rest)) (all : ∀ c ∈ gap, delim.contains c)
    (stop : delim.contains (m (s + gap.length)) = false) (enough : gap.length < fuel) :
    skipDelims delim fuel m s = some (m (s + gap.length), s + gap.length + 1) := by
  induction gap generalizing s fuel with
  | nil =>
      cases fuel with
      | zero => exact absurd enough (Nat.not_lt_zero _)
      | succ fuel =>
          rw [List.length_nil, Nat.add_zero] at stop ⊢
          rw [skipDelims, stop, if_neg (by simp)]
          rfl
  | cons ch gap ih =>
      obtain ⟨-, first, later⟩ := spells
      have next : s + (ch :: gap).length = s + 1 + gap.length := by
        rw [List.length_cons]
        omega
      rw [List.length_cons] at enough
      rw [next] at stop ⊢
      cases fuel with
      | zero => exact absurd enough (Nat.not_lt_zero _)
      | succ fuel =>
          rw [skipDelims, first, if_pos (all ch List.mem_cons_self)]
          exact ih later (fun c member => all c (List.mem_cons_of_mem _ member)) stop (by omega)

theorem scanToken_spec (spells : Spells m s (word ++ rest))
    (plain : ∀ c ∈ word, delim.contains c = false)
    (stop : (delim ++ [0]).contains (m (s + word.length))) (enough : word.length < fuel) :
    scanToken delim fuel m s = some (m (s + word.length), s + word.length + 1) := by
  induction word generalizing s fuel with
  | nil =>
      cases fuel with
      | zero => exact absurd enough (Nat.not_lt_zero _)
      | succ fuel =>
          rw [List.length_nil, Nat.add_zero] at stop ⊢
          rw [scanToken, if_pos stop]
          rfl
  | cons ch word ih =>
      obtain ⟨nonzero, first, later⟩ := spells
      have next : s + (ch :: word).length = s + 1 + word.length := by
        rw [List.length_cons]
        omega
      have goes : (delim ++ [0]).contains ch = false := by
        have other := plain ch List.mem_cons_self
        simp only [List.contains_eq_mem, decide_eq_false_iff_not] at other ⊢
        simpa [nonzero] using other
      rw [List.length_cons] at enough
      rw [next] at stop ⊢
      cases fuel with
      | zero => exact absurd enough (Nat.not_lt_zero _)
      | succ fuel =>
          rw [scanToken, first, goes, if_neg (by simp)]
          exact ih later (fun c member => plain c (List.mem_cons_of_mem _ member)) stop (by omega)

theorem spells_stop (spells : Spells m s text) : m (s + text.length) = 0 := by
  have ends : Spells m s (text ++ []) := by rwa [List.append_nil]
  exact ends.right

theorem spells_head {c : UInt8} (spells : Spells m s (gap ++ c :: rest)) :
    m (s + gap.length) = c := by
  have right := spells.right
  exact right.2.1

theorem strtokR_token (spells : Spells m s (gap ++ (word ++ rest)))
    (all : ∀ c ∈ gap, delim.contains c) (some_ : word ≠ [])
    (plain : ∀ c ∈ word, delim.contains c = false)
    (stop : (delim ++ [0]).contains (m (s + gap.length + word.length))) (positive : 0 < s)
    (enough : (gap ++ (word ++ rest)).length < fuel) {given last : Nat}
    (start : (if given = 0 then last else given) = s) :
    strtokR fuel delim m given last =
      if m (s + gap.length + word.length) = 0 then some (s + gap.length, m, 0)
      else some (s + gap.length, Function.update m (s + gap.length + word.length) 0,
        s + gap.length + word.length + 1) := by
  obtain ⟨c, more, rfl⟩ := List.exists_cons_of_ne_nil some_
  obtain ⟨nonzero, first, later⟩ := spells.right
  simp only [List.length_append, List.length_cons] at enough stop ⊢
  have skipped := skipDelims_spec spells all
    (by rw [first]; exact plain c List.mem_cons_self) (by omega : gap.length < fuel)
  have ends : s + gap.length + 1 + more.length = s + gap.length + (more.length + 1) := by omega
  have scanned := scanToken_spec later (fun c member => plain c (List.mem_cons_of_mem _ member))
    (by rwa [ends]) (by omega : more.length < fuel)
  rw [ends] at scanned
  simp only [strtokR, start]
  rw [if_neg (by omega), skipped, first]
  simp only [nonzero, if_false, scanned]
  rfl

/-- A call finds no token, or takes the first field. -/
theorem strtokR_spec (spells : Spells m s text) (strings : 0 ∉ delim) (positive : 0 < s)
    (enough : text.length < fuel) {given last : Nat}
    (start : (if given = 0 then last else given) = s) :
    (fields delim.contains text = [] ∧ strtokR fuel delim m given last = some (0, m, 0)) ∨
      ∃ tok m' last' word rest, strtokR fuel delim m given last = some (tok, m', last') ∧
        TakesToken delim m s text tok m' last' word rest := by
  have zero : delim.contains 0 = false := by simpa using strings
  cases next delim.contains text with
  | none all =>
      have skipped := skipDelims_spec (show Spells m s (text ++ []) by rwa [List.append_nil]) all
        (by rw [spells_stop spells]; exact zero) enough
      refine Or.inl ⟨?_, ?_⟩
      · have empty := fields_gap all []
        rwa [List.append_nil, fields_nil] at empty
      · simp only [strtokR, start]
        rw [if_neg (by omega), skipped, spells_stop spells]
        rfl
  | @last gap word all some_ plain =>
      have stopped := spells_stop spells
      rw [List.length_append, ← Nat.add_assoc] at stopped
      have whole : Spells m s (gap ++ (word ++ [])) := by rwa [List.append_nil]
      have taken := strtokR_token whole all some_ plain (by rw [stopped]; simp) positive
        (by rwa [List.append_nil]) start
      rw [if_pos stopped] at taken
      refine Or.inr ⟨_, _, _, word, [], taken, ?_, ?_, ?_, ?_, spells.right, Or.inl ⟨rfl, rfl⟩, ?_,
        fun x => Or.inl rfl⟩
      · rw [fields_gap all, fields_word some_ plain, fields_nil]
      · rw [List.length_append]
        exact Nat.lt_of_lt_of_le (List.length_pos_of_ne_nil some_) (Nat.le_add_left _ _)
      · exact Nat.le_add_right _ _
      · rw [List.length_append, Nat.add_assoc]
      · exact fun impossible => absurd impossible (Nat.lt_irrefl 0)
  | @more gap word rest x all some_ plain apart =>
      have ended : m (s + gap.length + word.length) = x := spells_head spells.right
      have nonzero : x ≠ 0 := by
        rintro rfl
        rw [zero] at apart
        cases apart
      have taken := strtokR_token spells all some_ plain
        (by rw [ended]; simpa using Or.inl (by simpa using apart)) positive enough start
      rw [ended, if_neg nonzero] at taken
      have length : (gap ++ (word ++ x :: rest)).length =
          gap.length + word.length + 1 + rest.length := by
        simp only [List.length_append, List.length_cons]
        omega
      have behind : Spells m (s + gap.length + word.length + 1) rest :=
        spells.right.right.2.2
      refine Or.inr ⟨_, _, _, word, rest, taken, ?_, ?_, ?_, ?_, ?_, Or.inr ⟨?_, ?_, ?_⟩, ?_, ?_⟩
      · rw [fields_gap all, fields_append word rest apart, fields_word some_ plain]
        rfl
      · rw [length]
        omega
      · exact Nat.le_add_right _ _
      · rw [length]
        omega
      · refine spells.right.left (fun y low high => ?_) (Function.update_self _ _ _)
        rw [Function.update_of_ne (by omega)]
      · omega
      · refine behind.congr fun y low high => ?_
        rw [Function.update_of_ne (by omega)]
      · rw [length]
        omega
      · exact fun _ => Nat.lt_succ_self _
      · intro y
        by_cases here : y = s + gap.length + word.length
        · subst here
          refine Or.inr ⟨Function.update_self _ _ _, by rw [ended]; exact apart, rfl, ?_⟩
          rw [length]
          omega
        · exact Or.inl (Function.update_of_ne here _ _)

theorem TakesToken.cut {limit tok last' : Nat} {m₁ m₂ : Mem} {toks : List Nat}
    (token : TakesToken delim m s text tok m₁ last' word rest) (positive : 0 < s)
    (within : s + text.length ≤ limit) (later : Cut delim m₁ last' limit rest toks m₂) :
    Cut delim m s limit text (tok :: toks) m₂ := by
  obtain ⟨held, frame⟩ := later
  have place := token.place
  have inside := token.inside
  have behind := token.behind
  have others : List.Forall₂ (fun tok word => Spells m₂ tok word ∧ s ≤ tok ∧
      tok + word.length ≤ limit) toks (Fields.fields delim.contains rest) := by
    rcases token.left with ⟨-, rfl⟩ | ⟨after, -, -⟩
    · rw [fields_nil] at held ⊢
      cases held
      exact List.Forall₂.nil
    · have apart := behind after
      exact held.imp fun later word kept => ⟨kept.1, by omega, kept.2.2⟩
  refine ⟨?_, ?_⟩
  · rw [token.fields]
    refine List.Forall₂.cons ⟨token.spells.congr fun x _ high => ?_, place, by omega⟩ others
    rcases frame x with same | ⟨-, -, after, beyond, -⟩
    · exact same
    · have apart := behind after
      omega
  · intro x
    rcases frame x with same | ⟨zero, delimiter, after, beyond, below⟩
    · rcases token.frame x with kept | ⟨zero, delimiter, here, below⟩
      · exact Or.inl (same.trans kept)
      · exact Or.inr ⟨same.trans zero, delimiter, positive, by omega, by omega⟩
    · have apart := behind after
      rcases token.frame x with kept | ⟨-, -, here, -⟩
      · exact Or.inr ⟨zero, kept ▸ delimiter, positive, by omega, below⟩
      · omega

theorem strtokR_left {limit : Nat} (left : Left m last limit text) (strings : 0 ∉ delim)
    (enough : text.length < fuel) :
    (fields delim.contains text = [] ∧ strtokR fuel delim m 0 last = some (0, m, 0)) ∨
      ∃ tok m' last' word rest, strtokR fuel delim m 0 last = some (tok, m', last') ∧
        0 < last ∧ last + text.length ≤ limit ∧
        TakesToken delim m last text tok m' last' word rest := by
  rcases left with ⟨rfl, rfl⟩ | ⟨positive, spells, within⟩
  · exact Or.inl ⟨rfl, rfl⟩
  · rcases strtokR_spec spells strings positive enough (if_pos rfl) with
      none | ⟨tok, m', last', word, rest, taken, token⟩
    · exact Or.inl none
    · exact Or.inr ⟨tok, m', last', word, rest, taken, positive, within, token⟩

theorem strtokNext_spec (strings : 0 ∉ delim) {rounds limit : Nat} (left : Left m last limit text)
    (enough : text.length < fuel) (more : text.length < rounds) :
    ∃ toks m', strtokNext fuel delim rounds m last = some (toks, m', 0) ∧
      Cut delim m last limit text toks m' := by
  induction rounds generalizing m last text with
  | zero => exact absurd more (Nat.not_lt_zero _)
  | succ rounds ih =>
      rcases strtokR_left left strings enough with
        ⟨none, ended⟩ | ⟨tok, m₁, last₁, word, rest, taken, positive, within, token⟩
      · refine ⟨[], m, ?_, by rw [none]; exact List.Forall₂.nil, fun x => Or.inl rfl⟩
        rw [strtokNext, ended]
        rfl
      · have place := token.place
        have shorter := token.shorter
        obtain ⟨toks, m₂, later, cut⟩ := ih (token.left.widen within) (by omega) (by omega)
        refine ⟨tok :: toks, m₂, ?_, token.cut positive within cut⟩
        rw [strtokNext, taken]
        simp only [show tok ≠ 0 by omega, if_false, later]
        rfl

/-- Called again and again, `strtok` finds the fields of a string, one after the other, and
overwrites nothing but delimiters. It is a null pointer from then on, and changes nothing. -/
theorem strtok_fields (strings : 0 ∉ delim) (spells : Spells m s text) (positive : 0 < s)
    (below : s + text.length < 2 ^ 32) (enough : text.length < fuel) (last : Nat) :
    ∃ toks m', strtokAll fuel delim m s last = some (toks, m', 0) ∧
      strtokR fuel delim m' 0 0 = some (0, m', 0) ∧
      toks.map (loadString m') = fields delim.contains text ∧
      (∀ tok ∈ toks, s ≤ tok ∧ tok < s + text.length) ∧
      ∀ x, m' x = m x ∨
        (m' x = 0 ∧ delim.contains (m x) ∧ s ≤ x ∧ x < s + text.length) := by
  have whole : ∃ toks m', strtokAll fuel delim m s last = some (toks, m', 0) ∧
      Cut delim m s (s + text.length) text toks m' := by
    rcases strtokR_spec spells strings positive enough
        (if_neg (Nat.ne_of_gt positive) : (if s = 0 then last else s) = s) with
      ⟨none, ended⟩ | ⟨tok, m₁, last₁, word, rest, taken, token⟩
    · refine ⟨[], m, ?_, by rw [none]; exact List.Forall₂.nil, fun x => Or.inl rfl⟩
      rw [strtokAll, ended]
      rfl
    · have place := token.place
      have shorter := token.shorter
      obtain ⟨toks, m₂, later, cut⟩ :=
        @strtokNext_spec _ _ _ _ fuel strings fuel _ token.left (by omega) (by omega)
      refine ⟨tok :: toks, m₂, ?_, token.cut positive (Nat.le_refl _) cut⟩
      rw [strtokAll, taken]
      simp only [show tok ≠ 0 by omega, if_false, later]
      rfl
  obtain ⟨toks, m', done, held, frame⟩ := whole
  refine ⟨toks, m', done, rfl, ?_, ?_, ?_⟩
  · have loaded : List.Forall₂ (fun tok word => loadString m' tok = word) toks
        (fields delim.contains text) :=
      held.imp fun tok word kept => kept.1.loadString (by omega)
    exact List.forall₂_eq_eq_eq ▸ List.forall₂_map_left_iff.mpr loaded
  · have some : ∀ word ∈ fields delim.contains text, 0 < word.length := fun word member =>
      List.length_pos_of_ne_nil (fields_ne_nil member)
    intro tok member
    obtain ⟨i, inside, rfl⟩ := List.getElem_of_mem member
    have kept := held.get inside (held.length_eq ▸ inside)
    have length := some _ (List.get_mem _ ⟨i, held.length_eq ▸ inside⟩)
    simp only [List.get_eq_getElem] at kept length
    omega
  · intro x
    rcases frame x with same | ⟨zero, delimiter, -, low, high⟩
    · exact Or.inl same
    · exact Or.inr ⟨zero, delimiter, low, high⟩

/-- ` ab  c` -/
def spacedText : List UInt8 := [32, 97, 98, 32, 32, 99]

theorem strtok_fields_spaced :
    ∃ toks m', strtokAll 8 [32] (storeBytes (fun _ => 0) 100 spacedText) 100 0 =
        some (toks, m', 0) ∧
      toks.map (loadString m') = [[97, 98], [99]] := by
  obtain ⟨toks, m', done, -, found, -⟩ := @strtok_fields [32] spacedText
    (storeBytes (fun _ => 0) 100 spacedText) 100 8 (by decide) (by simp [Spells, storeBytes, spacedText])
    (by decide) (by decide) (by decide) 0
  exact ⟨toks, m', done, found⟩

end SysImpl.User
