import Mathlib.Data.List.Chain
import Mathlib.Order.Basic

/-! A first-fit allocator over a list of blocks.

The arena is a list of blocks in address order, each free or live. `allocate` takes
the first free block that is large enough and splits off the remainder when that is
a block of its own; `release` frees a block and joins it with its free neighbours.
Both keep the tiling of the arena and the rule that free blocks are never adjacent. -/

namespace SysImpl.Blocks

structure Block where
  addr : Nat
  size : Nat
  live : Bool
  deriving DecidableEq, Repr

/-- The blocks lie one behind the other from `low` to `high`, none below `least` bytes. -/
def Tiles (least : Nat) : Nat → Nat → List Block → Prop
  | low, high, [] => low = high
  | low, high, block :: rest =>
      block.addr = low ∧ least ≤ block.size ∧ Tiles least (low + block.size) high rest

def Separated (blocks : List Block) : Prop :=
  blocks.IsChain fun left right => left.live = true ∨ right.live = true

def freeAddrs (blocks : List Block) : List Nat :=
  (blocks.filter fun block => !block.live).map Block.addr

/-- What a chosen free block becomes: the live part, and the remainder if it is large enough. -/
def carve (least need : Nat) (block : Block) : List Block :=
  if least ≤ block.size - need then
    [⟨block.addr, need, true⟩, ⟨block.addr + need, block.size - need, false⟩]
  else [⟨block.addr, block.size, true⟩]

def allocate (least need : Nat) : List Block → Option (Nat × List Block)
  | [] => none
  | block :: rest =>
      if block.live = false ∧ need ≤ block.size then
        some (block.addr, carve least need block ++ rest)
      else
        (allocate least need rest).map fun found => (found.1, block :: found.2)

/-- The block that `allocate` chooses is taken whole, or `need` is a block of its own. -/
def Carves (least need : Nat) (blocks : List Block) : Prop :=
  ∀ front block back, blocks = front ++ block :: back → block.live = false → need ≤ block.size →
    (∀ other ∈ front, other.live = true ∨ other.size < need) →
    least ≤ block.size - need → least ≤ need

def join (block : Block) : List Block → List Block
  | [] => [block]
  | head :: rest =>
      if head.live = false then ⟨block.addr, block.size + head.size, false⟩ :: rest
      else block :: head :: rest

def absorb (front : List Block) (block : Block) : List Block × Block :=
  match front.getLast? with
  | none => (front, block)
  | some last =>
      if last.live = false then (front.dropLast, ⟨last.addr, last.size + block.size, false⟩)
      else (front, block)

def release (addr : Nat) (blocks : List Block) : List Block :=
  match blocks.dropWhile fun block => block.addr ≠ addr with
  | [] => blocks
  | block :: back =>
      let merged := absorb (blocks.takeWhile fun block => block.addr ≠ addr)
        ⟨block.addr, block.size, false⟩
      merged.1 ++ join merged.2 back

variable {least need low high addr : Nat} {blocks front back : List Block}

theorem tiles_append (low high : Nat) (front back : List Block) :
    Tiles least low high (front ++ back) ↔
      ∃ mid, Tiles least low mid front ∧ Tiles least mid high back := by
  induction front generalizing low with
  | nil => simp [Tiles]
  | cons block rest ih =>
      simp only [List.cons_append, Tiles, ih]
      constructor
      · rintro ⟨start, large, mid, first, second⟩
        exact ⟨mid, ⟨start, large, first⟩, second⟩
      · rintro ⟨mid, ⟨start, large, first⟩, second⟩
        exact ⟨start, large, mid, first, second⟩

theorem tiles_bounds (tiles : Tiles least low high blocks) :
    low ≤ high ∧ ∀ block ∈ blocks,
      low ≤ block.addr ∧ block.addr + block.size ≤ high ∧ least ≤ block.size := by
  induction blocks generalizing low with
  | nil => exact ⟨le_of_eq tiles, by simp⟩
  | cons block rest ih =>
      obtain ⟨start, large, rest_tiles⟩ := tiles
      obtain ⟨ordered, bounds⟩ := ih rest_tiles
      refine ⟨by omega, ?_⟩
      intro other member
      rcases List.mem_cons.mp member with rfl | member
      · exact ⟨by omega, by omega, large⟩
      · obtain ⟨lower, upper, size⟩ := bounds other member
        exact ⟨by omega, upper, size⟩

theorem tiles_around {block : Block} (tiles : Tiles least low high (front ++ block :: back)) :
    (∀ other ∈ front, other.addr + other.size ≤ block.addr) ∧
      (∀ other ∈ back, block.addr + block.size ≤ other.addr) := by
  obtain ⟨mid, first, start, _, second⟩ := (tiles_append low high front _).mp tiles
  constructor
  · intro other member
    have := (tiles_bounds first).2 other member
    omega
  · intro other member
    have := (tiles_bounds second).2 other member
    omega

theorem tiles_adjacent {left right : Block}
    (tiles : Tiles least low high (front ++ left :: right :: back)) :
    left.addr + left.size = right.addr := by
  obtain ⟨mid, _, start, _, next, _⟩ := (tiles_append low high front _).mp tiles
  omega

theorem tiles_rising (tiles : Tiles least low high blocks) :
    blocks.Pairwise fun left right => left.addr + least ≤ right.addr := by
  induction blocks generalizing low with
  | nil => exact List.Pairwise.nil
  | cons block rest ih =>
      refine List.pairwise_cons.mpr ⟨?_, ih tiles.2.2⟩
      intro other member
      have := (tiles_bounds tiles.2.2).2 other member
      have := tiles.1
      have := tiles.2.1
      omega

theorem freeAddrs_append (front back : List Block) :
    freeAddrs (front ++ back) = freeAddrs front ++ freeAddrs back := by
  simp [freeAddrs]

theorem freeAddrs_cons (block : Block) (rest : List Block) :
    freeAddrs (block :: rest) =
      if block.live then freeAddrs rest else block.addr :: freeAddrs rest := by
  cases block with
  | mk addr size live => cases live <;> simp [freeAddrs]

theorem mem_freeAddrs : addr ∈ freeAddrs blocks ↔
    ∃ block ∈ blocks, block.live = false ∧ block.addr = addr := by
  simp [freeAddrs, and_assoc]

theorem freeAddrs_rising (tiles : Tiles least low high blocks) :
    (freeAddrs blocks).Pairwise fun left right => left + least ≤ right :=
  List.Pairwise.map _ (fun _ _ below => below) ((tiles_rising tiles).filter _)

/-- A successful allocation carves the first free block that is large enough. -/
theorem allocate_eq_some {taken : Nat} {result : List Block}
    (found : allocate least need blocks = some (taken, result)) :
    ∃ front block back, blocks = front ++ block :: back ∧ block.live = false ∧
      need ≤ block.size ∧ (∀ other ∈ front, other.live = true ∨ other.size < need) ∧
      taken = block.addr ∧ result = front ++ carve least need block ++ back := by
  induction blocks generalizing result with
  | nil => simp [allocate] at found
  | cons block rest ih =>
      by_cases fits : block.live = false ∧ need ≤ block.size
      · rw [allocate, if_pos fits] at found
        obtain ⟨rfl, rfl⟩ := Prod.mk.inj (Option.some.inj found)
        exact ⟨[], block, rest, rfl, fits.1, fits.2, by simp, rfl, rfl⟩
      · rw [allocate, if_neg fits, Option.map_eq_some_iff] at found
        obtain ⟨⟨inner, tail⟩, inner_found, equal⟩ := found
        obtain ⟨rfl, rfl⟩ := Prod.mk.inj equal
        obtain ⟨front, chosen, back, rfl, free, large, before, rfl, rfl⟩ := ih inner_found
        refine ⟨block :: front, chosen, back, rfl, free, large, ?_, rfl, rfl⟩
        intro other member
        rcases List.mem_cons.mp member with rfl | member
        · cases live : other.live with
          | true => exact Or.inl rfl
          | false => exact Or.inr (by simp only [live, true_and] at fits; omega)
        · exact before other member

theorem allocate_eq_none (failed : allocate least need blocks = none) :
    ∀ block ∈ blocks, block.live = true ∨ block.size < need := by
  induction blocks with
  | nil => simp
  | cons block rest ih =>
      by_cases fits : block.live = false ∧ need ≤ block.size
      · rw [allocate, if_pos fits] at failed
        cases failed
      · rw [allocate, if_neg fits, Option.map_eq_none_iff] at failed
        intro other member
        rcases List.mem_cons.mp member with rfl | member
        · cases live : other.live with
          | true => exact Or.inl rfl
          | false => exact Or.inr (by simp only [live, true_and] at fits; omega)
        · exact ih failed other member

theorem Carves.of_le (large : least ≤ need) : Carves least need blocks := by
  intro front block back _ _ _ _ _
  exact large

theorem carve_tiles {block : Block} (large : least ≤ block.size - need → least ≤ need)
    (whole : least ≤ block.size) (fits : need ≤ block.size) :
    Tiles least block.addr (block.addr + block.size) (carve least need block) := by
  unfold carve
  split
  · next remainder =>
      simp only [Tiles, true_and]
      exact ⟨large remainder, remainder, by omega⟩
  · simp only [Tiles, true_and]
    exact ⟨whole, trivial⟩

theorem allocate_tiles {taken : Nat} {result : List Block} (carves : Carves least need blocks)
    (tiles : Tiles least low high blocks)
    (found : allocate least need blocks = some (taken, result)) :
    Tiles least low high result := by
  obtain ⟨front, block, back, rfl, free, fits, before, _, rfl⟩ := allocate_eq_some found
  obtain ⟨mid, first, start, whole, second⟩ := (tiles_append low high front _).mp tiles
  rw [List.append_assoc, tiles_append]
  refine ⟨mid, first, (tiles_append _ _ _ _).mpr ⟨mid + block.size, ?_, second⟩⟩
  rw [← start]
  exact carve_tiles (carves front block back rfl free fits before) whole fits

theorem allocate_separated {taken : Nat} {result : List Block} (separated : Separated blocks)
    (found : allocate least need blocks = some (taken, result)) : Separated result := by
  obtain ⟨front, block, back, rfl, free, _, _, _, rfl⟩ := allocate_eq_some found
  obtain ⟨first, second, _⟩ := List.isChain_append.mp separated
  obtain ⟨behind, rest⟩ := List.isChain_cons.mp second
  have next : ∀ head ∈ back.head?, head.live = true := by
    intro head member
    simpa [free] using behind head member
  rw [List.append_assoc]
  refine List.isChain_append.mpr ⟨first, ?_, ?_⟩
  · unfold carve
    split
    · refine List.isChain_cons.mpr ⟨by simp, List.isChain_cons.mpr ⟨?_, rest⟩⟩
      intro head member
      exact Or.inr (next head member)
    · exact List.isChain_cons.mpr ⟨by simp, rest⟩
  · intro last _ head member
    refine Or.inr ?_
    unfold carve at member
    split at member
    · simp only [List.cons_append, List.head?_cons, Option.mem_some_iff] at member
      rw [← member]
    · simp only [List.cons_append, List.head?_cons, Option.mem_some_iff] at member
      rw [← member]

theorem allocate_live {taken : Nat} {result : List Block}
    (found : allocate least need blocks = some (taken, result)) (a : Nat) :
    (∃ block ∈ result, block.live = true ∧ block.addr = a) ↔
      a = taken ∨ ∃ block ∈ blocks, block.live = true ∧ block.addr = a := by
  obtain ⟨front, block, back, rfl, free, _, _, rfl, rfl⟩ := allocate_eq_some found
  have carved : ∀ other ∈ carve least need block, other.live = true → other.addr = block.addr := by
    intro other member live
    unfold carve at member
    split at member
    · rcases List.mem_cons.mp member with rfl | member
      · rfl
      · rw [List.mem_singleton.mp member] at live
        cases live
    · rw [List.mem_singleton.mp member]
  have present : ∃ other ∈ carve least need block, other.live = true ∧ other.addr = block.addr := by
    unfold carve
    split
    · exact ⟨_, List.mem_cons_self, rfl, rfl⟩
    · exact ⟨_, List.mem_cons_self, rfl, rfl⟩
  constructor
  · rintro ⟨other, member, live, rfl⟩
    simp only [List.mem_append] at member
    rcases member with (member | member) | member
    · exact Or.inr ⟨other, by simp [member], live, rfl⟩
    · exact Or.inl (carved other member live)
    · exact Or.inr ⟨other, by simp [member], live, rfl⟩
  · rintro (rfl | ⟨other, member, live, rfl⟩)
    · obtain ⟨other, member, live, equal⟩ := present
      exact ⟨other, by simp [member], live, equal⟩
    · rcases List.mem_append.mp member with member | member
      · exact ⟨other, by simp [member], live, rfl⟩
      · rcases List.mem_cons.mp member with rfl | member
        · rw [free] at live
          cases live
        · exact ⟨other, by simp [member], live, rfl⟩

theorem allocate_taken {taken : Nat} {result : List Block}
    (found : allocate least need blocks = some (taken, result)) :
    ∃ block ∈ result, block.addr = taken ∧ need ≤ block.size := by
  obtain ⟨front, block, back, rfl, _, fits, _, rfl, rfl⟩ := allocate_eq_some found
  unfold carve
  split
  · exact ⟨⟨block.addr, need, true⟩, by simp, rfl, Nat.le_refl _⟩
  · exact ⟨⟨block.addr, block.size, true⟩, by simp, rfl, fits⟩

theorem allocate_addrs {taken : Nat} {result : List Block}
    (found : allocate least need blocks = some (taken, result)) {other : Block}
    (member : other ∈ result) :
    ∃ block ∈ blocks, other.addr = block.addr ∨ other.addr = block.addr + need := by
  obtain ⟨front, block, back, rfl, _, _, _, _, rfl⟩ := allocate_eq_some found
  simp only [List.mem_append] at member
  rcases member with (member | member) | member
  · exact ⟨other, by simp [member], Or.inl rfl⟩
  · refine ⟨block, by simp, ?_⟩
    unfold carve at member
    split at member
    · rcases List.mem_cons.mp member with rfl | member
      · exact Or.inl rfl
      · rw [List.mem_singleton.mp member]
        exact Or.inr rfl
    · rw [List.mem_singleton.mp member]
      exact Or.inl rfl
  · exact ⟨other, by simp [member], Or.inl rfl⟩

theorem release_eq {block : Block} (start : block.addr = addr)
    (before : ∀ other ∈ front, other.addr ≠ addr) :
    release addr (front ++ block :: back) =
      (absorb front ⟨block.addr, block.size, false⟩).1 ++
        join (absorb front ⟨block.addr, block.size, false⟩).2 back := by
  have drops : (front ++ block :: back).dropWhile (fun other => other.addr ≠ addr) =
      block :: back := by
    rw [List.dropWhile_append_of_pos (by simpa using before)]
    simp [start]
  have takes : (front ++ block :: back).takeWhile (fun other => other.addr ≠ addr) = front := by
    rw [List.takeWhile_append_of_pos (by simpa using before)]
    simp [start]
  unfold release
  rw [drops, takes]

theorem absorb_cases (front : List Block) (block : Block) :
    (absorb front block = (front, block) ∧ ∀ last ∈ front.getLast?, last.live = true) ∨
      ∃ rest last, front = rest ++ [last] ∧ last.live = false ∧
        absorb front block = (rest, ⟨last.addr, last.size + block.size, false⟩) := by
  rcases List.eq_nil_or_concat' front with rfl | ⟨rest, last, rfl⟩
  · exact Or.inl ⟨rfl, by simp⟩
  · cases live : last.live with
    | true => exact Or.inl ⟨by simp [absorb, live], by simp [live]⟩
    | false => exact Or.inr ⟨rest, last, rfl, live, by simp [absorb, live]⟩

theorem join_tiles {block : Block} (tiles : Tiles least low high (block :: back)) :
    Tiles least low high (join block back) := by
  cases back with
  | nil => exact tiles
  | cons head rest =>
      simp only [join]
      split
      · obtain ⟨start, large, next, _, rest_tiles⟩ := tiles
        refine ⟨start, Nat.le_add_right_of_le large, ?_⟩
        rwa [← Nat.add_assoc]
      · exact tiles

theorem absorb_tiles {block : Block} (tiles : Tiles least low high (front ++ block :: back)) :
    Tiles least low high ((absorb front block).1 ++ (absorb front block).2 :: back) := by
  rcases absorb_cases front block with ⟨same, _⟩ | ⟨rest, last, rfl, _, merged⟩
  · rwa [same]
  · rw [merged]
    simp only [List.append_assoc, List.singleton_append] at tiles
    obtain ⟨mid, first, start, large, next, _, second⟩ := (tiles_append low high rest _).mp tiles
    refine (tiles_append _ _ _ _).mpr ⟨mid, first, start, Nat.le_add_right_of_le large, ?_⟩
    rwa [← Nat.add_assoc]

theorem join_separated {block : Block} (separated : Separated back)
    (ahead : ∀ last ∈ front.getLast?, last.live = true) (first : Separated front) :
    Separated (front ++ join block back) := by
  refine List.isChain_append.mpr ⟨first, ?_, fun last member _ _ => Or.inl (ahead last member)⟩
  cases back with
  | nil => exact List.isChain_singleton _
  | cons head rest =>
      obtain ⟨behind, tail⟩ := List.isChain_cons.mp separated
      simp only [join]
      split
      · next free =>
          refine List.isChain_cons.mpr ⟨?_, tail⟩
          intro other member
          exact Or.inr (by simpa [free] using behind other member)
      · next live =>
          refine List.isChain_cons.mpr ⟨?_, separated⟩
          intro other member
          cases Option.mem_some_iff.mp member
          exact Or.inr (by simpa using live)

theorem release_separated {block : Block} (start : block.addr = addr)
    (before : ∀ other ∈ front, other.addr ≠ addr)
    (separated : Separated (front ++ block :: back)) :
    Separated (release addr (front ++ block :: back)) := by
  rw [release_eq start before]
  obtain ⟨first, second, _⟩ := List.isChain_append.mp separated
  have rest_separated : Separated back := (List.isChain_cons.mp second).2
  rcases absorb_cases front ⟨block.addr, block.size, false⟩ with
    ⟨same, ahead⟩ | ⟨rest, last, rfl, free, merged⟩
  · rw [same]
    exact join_separated rest_separated ahead first
  · rw [merged]
    obtain ⟨rest_first, _, seam⟩ := List.isChain_append.mp first
    refine join_separated rest_separated ?_ rest_first
    intro other member
    simpa [free] using seam other member last (by simp)

theorem release_tiles {block : Block} (start : block.addr = addr)
    (before : ∀ other ∈ front, other.addr ≠ addr)
    (tiles : Tiles least low high (front ++ block :: back)) :
    Tiles least low high (release addr (front ++ block :: back)) := by
  rw [release_eq start before]
  have freed : Tiles least low high (front ++ ⟨block.addr, block.size, false⟩ :: back) := by
    obtain ⟨mid, first, second⟩ := (tiles_append low high front _).mp tiles
    exact (tiles_append _ _ _ _).mpr ⟨mid, first, second⟩
  obtain ⟨mid, first, second⟩ := (tiles_append _ _ _ _).mp (absorb_tiles freed)
  exact (tiles_append _ _ _ _).mpr ⟨mid, first, join_tiles second⟩

theorem join_addrs {block other : Block} (member : other ∈ join block back) :
    other.addr = block.addr ∨ other ∈ back := by
  cases back with
  | nil => exact Or.inl (by rw [List.mem_singleton.mp member])
  | cons head rest =>
      simp only [join] at member
      split at member
      · rcases List.mem_cons.mp member with rfl | member
        · exact Or.inl rfl
        · exact Or.inr (List.mem_cons_of_mem _ member)
      · rcases List.mem_cons.mp member with rfl | member
        · exact Or.inl rfl
        · exact Or.inr member

theorem release_addrs {block other : Block} (start : block.addr = addr)
    (before : ∀ other ∈ front, other.addr ≠ addr)
    (member : other ∈ release addr (front ++ block :: back)) :
    ∃ old ∈ front ++ block :: back, other.addr = old.addr := by
  rw [release_eq start before] at member
  rcases absorb_cases front ⟨block.addr, block.size, false⟩ with
    ⟨same, _⟩ | ⟨rest, last, rfl, _, merged⟩
  · rw [same] at member
    rcases List.mem_append.mp member with member | member
    · exact ⟨other, by simp [member], rfl⟩
    · rcases join_addrs member with equal | member
      · exact ⟨block, by simp, equal⟩
      · exact ⟨other, by simp [member], rfl⟩
  · rw [merged] at member
    rcases List.mem_append.mp member with member | member
    · exact ⟨other, by simp [member], rfl⟩
    · rcases join_addrs member with equal | member
      · exact ⟨last, by simp, equal⟩
      · exact ⟨other, by simp [member], rfl⟩

def Within (inner outer : Block) : Prop :=
  outer.addr ≤ inner.addr ∧ inner.addr + inner.size ≤ outer.addr + outer.size

theorem Within.refl (block : Block) : Within block block := ⟨le_refl _, le_refl _⟩

theorem Within.trans {inner middle outer : Block} (first : Within inner middle)
    (second : Within middle outer) : Within inner outer :=
  ⟨le_trans second.1 first.1, le_trans first.2 second.2⟩

theorem join_within {block other : Block} (tiles : Tiles least low high (block :: back))
    (member : other ∈ block :: back) (free : other.live = false) :
    ∃ larger ∈ join block back, larger.live = false ∧ Within other larger := by
  cases back with
  | nil => exact ⟨other, member, free, Within.refl other⟩
  | cons head rest =>
      obtain ⟨start, _, next, _⟩ := tiles
      simp only [join]
      split
      · rcases List.mem_cons.mp member with rfl | member
        · exact ⟨_, List.mem_cons_self, rfl, by simp only [Within]; omega⟩
        · rcases List.mem_cons.mp member with rfl | member
          · exact ⟨_, List.mem_cons_self, rfl, by simp only [Within]; omega⟩
          · exact ⟨other, List.mem_cons_of_mem _ member, free, Within.refl other⟩
      · exact ⟨other, member, free, Within.refl other⟩

theorem absorb_within {block other : Block} (tiles : Tiles least low high (front ++ block :: back))
    (member : other ∈ front ++ block :: back) (free : other.live = false) :
    ∃ larger ∈ (absorb front block).1 ++ (absorb front block).2 :: back,
      larger.live = false ∧ Within other larger := by
  rcases absorb_cases front block with ⟨same, _⟩ | ⟨rest, last, rfl, _, merged⟩
  · rw [same]
    exact ⟨other, member, free, Within.refl other⟩
  · rw [merged]
    simp only [List.append_assoc, List.singleton_append] at tiles member
    have touch := tiles_adjacent tiles
    rcases List.mem_append.mp member with member | member
    · exact ⟨other, List.mem_append_left _ member, free, Within.refl other⟩
    · rcases List.mem_cons.mp member with rfl | member
      · exact ⟨_, List.mem_append_right _ List.mem_cons_self, rfl, by simp only [Within]; omega⟩
      · rcases List.mem_cons.mp member with rfl | member
        · exact ⟨_, List.mem_append_right _ List.mem_cons_self, rfl, by simp only [Within]; omega⟩
        · exact ⟨other, List.mem_append_right _ (List.mem_cons_of_mem _ member), free,
            Within.refl other⟩

theorem release_within {block other : Block} (start : block.addr = addr)
    (before : ∀ other ∈ front, other.addr ≠ addr)
    (tiles : Tiles least low high (front ++ block :: back))
    (member : other ∈ front ++ block :: back) (free : other.live = false ∨ other = block) :
    ∃ larger ∈ release addr (front ++ block :: back), larger.live = false ∧ Within other larger := by
  have freed : Tiles least low high (front ++ ⟨block.addr, block.size, false⟩ :: back) := by
    obtain ⟨mid, first, second⟩ := (tiles_append low high front _).mp tiles
    exact (tiles_append _ _ _ _).mpr ⟨mid, first, second⟩
  have there : ∃ same ∈ front ++ ⟨block.addr, block.size, false⟩ :: back,
      same.live = false ∧ Within other same := by
    rcases free with free | rfl
    · rcases List.mem_append.mp member with member | member
      · exact ⟨other, List.mem_append_left _ member, free, Within.refl other⟩
      · rcases List.mem_cons.mp member with rfl | member
        · exact ⟨_, List.mem_append_right _ List.mem_cons_self, rfl, Within.refl _⟩
        · exact ⟨other, List.mem_append_right _ (List.mem_cons_of_mem _ member), free,
            Within.refl other⟩
    · exact ⟨_, List.mem_append_right _ List.mem_cons_self, rfl, Within.refl _⟩
  obtain ⟨same, present, sameFree, inside⟩ := there
  obtain ⟨mid, midPresent, midFree, inMid⟩ := absorb_within freed present sameFree
  rw [release_eq start before]
  obtain ⟨seam, _, second⟩ := (tiles_append _ _ _ _).mp (absorb_tiles freed)
  rcases List.mem_append.mp midPresent with midPresent | midPresent
  · exact ⟨mid, List.mem_append_left _ midPresent, midFree, inside.trans inMid⟩
  · obtain ⟨larger, largerPresent, largerFree, inLarger⟩ := join_within second midPresent midFree
    exact ⟨larger, List.mem_append_right _ largerPresent, largerFree,
      inside.trans (inMid.trans inLarger)⟩

theorem mem_join_live {block other : Block} (free : block.live = false) (live : other.live = true) :
    other ∈ join block back ↔ other ∈ back := by
  have differs : ∀ dead : Block, dead.live = false → other ≠ dead := by
    rintro dead gone rfl
    rw [live] at gone
    cases gone
  cases back with
  | nil => simp [join, differs block free]
  | cons head rest =>
      simp only [join]
      split
      · next gone => simp [differs head gone, differs ⟨block.addr, block.size + head.size, false⟩ rfl]
      · simp [differs block free]

theorem mem_release_live {block other : Block} (start : block.addr = addr)
    (before : ∀ other ∈ front, other.addr ≠ addr) (live : other.live = true) :
    other ∈ release addr (front ++ block :: back) ↔ other ∈ front ∨ other ∈ back := by
  rw [release_eq start before]
  rcases absorb_cases front ⟨block.addr, block.size, false⟩ with
    ⟨same, _⟩ | ⟨rest, last, rfl, free, merged⟩
  · rw [same, List.mem_append, mem_join_live rfl live]
  · have differs : other ≠ last := by
      rintro rfl
      rw [live] at free
      cases free
    rw [merged, List.mem_append, mem_join_live rfl live]
    simp [differs]

/-- A free first block ends where the first block of any other such arrangement ends, if
every live block of the one is a live block of the other. -/
theorem first_free_le {first second : Block} {rest : List Block} (positive : 0 < least)
    (tiles : Tiles least low high (first :: rest)) (separated : Separated (first :: rest))
    (other : Tiles least low high (second :: back)) (free : first.live = false)
    (kept : ∀ block ∈ rest, block.live = true → block = second ∨ block ∈ back) :
    second.size ≤ first.size := by
  obtain ⟨start, large, next⟩ := tiles
  obtain ⟨start', large', next'⟩ := other
  have inside := (tiles_bounds next').1
  cases rest with
  | nil =>
      simp only [Tiles] at next
      omega
  | cons head tail =>
      have live : head.live = true := by
        have either := (List.isChain_cons.mp separated).1 head (by simp)
        simpa [free] using either
      have place : head.addr = low + first.size := next.1
      rcases kept head List.mem_cons_self live with same | member
      · rw [same, start'] at place
        omega
      · have bounds := (tiles_bounds next').2 head member
        omega

/-- The live blocks determine the free ones. -/
theorem tiles_canonical {blocks' : List Block} (positive : 0 < least)
    (tiles : Tiles least low high blocks) (tiles' : Tiles least low high blocks')
    (separated : Separated blocks) (separated' : Separated blocks')
    (same : ∀ block, block.live = true → (block ∈ blocks ↔ block ∈ blocks')) :
    blocks = blocks' := by
  induction blocks generalizing low blocks' with
  | nil =>
      cases blocks' with
      | nil => rfl
      | cons first' rest' =>
          have bounds := (tiles_bounds tiles').2 first' List.mem_cons_self
          simp only [Tiles] at tiles
          omega
  | cons first rest ih =>
      cases blocks' with
      | nil =>
          have bounds := (tiles_bounds tiles).2 first List.mem_cons_self
          simp only [Tiles] at tiles'
          omega
      | cons first' rest' =>
          have behind : ∀ block ∈ rest, low < block.addr := by
            intro block member
            have bounds := (tiles_bounds tiles.2.2).2 block member
            have large := tiles.2.1
            omega
          have behind' : ∀ block ∈ rest', low < block.addr := by
            intro block member
            have bounds := (tiles_bounds tiles'.2.2).2 block member
            have large := tiles'.2.1
            omega
          have equal : first = first' := by
            have start := tiles.1
            have start' := tiles'.1
            cases live : first.live with
            | true =>
                have member := (same first live).mp List.mem_cons_self
                rcases List.mem_cons.mp member with found | found
                · exact found
                · have := behind' first found
                  omega
            | false =>
                cases live' : first'.live with
                | true =>
                    have member := (same first' live').mpr List.mem_cons_self
                    rcases List.mem_cons.mp member with found | found
                    · exact found.symm
                    · have := behind first' found
                      omega
                | false =>
                    have most := first_free_le positive tiles separated tiles' live
                      fun block member kept => List.mem_cons.mp
                        ((same block kept).mp (List.mem_cons_of_mem _ member))
                    have most' := first_free_le positive tiles' separated' tiles live'
                      fun block member kept => List.mem_cons.mp
                        ((same block kept).mpr (List.mem_cons_of_mem _ member))
                    cases first with
                    | mk addr size status =>
                        cases first' with
                        | mk addr' size' status' =>
                            simp only at start start' live live' most most'
                            rw [start, start', live, live', Nat.le_antisymm most' most]
          subst equal
          have apart : ∀ block, block ∈ rest ∨ block ∈ rest' → block ≠ first := by
            intro block member here
            have start := tiles.1
            rcases member with member | member
            · have := behind block member
              rw [here] at this
              omega
            · have := behind' block member
              rw [here] at this
              omega
          refine congrArg (List.cons first) (ih tiles.2.2 tiles'.2.2
            (List.isChain_cons.mp separated).2 (List.isChain_cons.mp separated').2 ?_)
          intro block live
          have either := same block live
          simp only [List.mem_cons] at either
          constructor
          · intro member
            exact (either.mp (Or.inr member)).resolve_left (apart block (Or.inl member))
          · intro member
            exact (either.mpr (Or.inr member)).resolve_left (apart block (Or.inr member))

end SysImpl.Blocks
