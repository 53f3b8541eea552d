import SysImpl.Lib.Copies

/-! The console before the devices are set up.

`EarlyStageOutputDevice` stores characters to the text screen of the VGA. The screen is
scrolled when a character finds the cursor past its end, and not before. -/

namespace SysImpl.Kernel

open Copies

def vgaTextBase : Nat := 0xB8000

/-- The memory with the stores made to it, and the cursor. -/
structure EarlyStageOutputDevice where
  memory : Traced UInt8
  cursor : Nat

def memset (b : Nat) (c : UInt8) (len : Nat) : Traced UInt8 → Traced UInt8 :=
  Traced.fillFrom b c 0 len

def memcpy (dst src n : Nat) : Traced UInt8 → Traced UInt8 := Traced.copyFrom dst src 0 n

namespace EarlyStageOutputDevice

def fresh (m : Nat → UInt8) : EarlyStageOutputDevice := ⟨⟨m, []⟩, vgaTextBase⟩

def scroll (device : EarlyStageOutputDevice) : EarlyStageOutputDevice where
  memory := memset (vgaTextBase + 80 * 24 * 2) 0 (80 * 2)
    (memcpy vgaTextBase (vgaTextBase + 2 * 80) (80 * 24 * 2) device.memory)
  cursor := device.cursor - 80 * 2

/-- The `while` loop of `write`; every round moves the cursor down. -/
def scrollLoop : Nat → EarlyStageOutputDevice → EarlyStageOutputDevice
  | 0, device => device
  | fuel + 1, device =>
      if vgaTextBase + 80 * 25 * 2 ≤ device.cursor then scrollLoop fuel device.scroll else device

def put (device : EarlyStageOutputDevice) (ch : UInt8) : EarlyStageOutputDevice where
  memory := (device.memory.store device.cursor ch).store (device.cursor + 1) 4
  cursor := device.cursor + 2

def writeByte (device : EarlyStageOutputDevice) (ch : UInt8) : EarlyStageOutputDevice :=
  (scrollLoop device.cursor device).put ch

def write (device : EarlyStageOutputDevice) (data : List UInt8) : Nat × EarlyStageOutputDevice :=
  (data.length, data.foldl writeByte device)

def writeAll (device : EarlyStageOutputDevice) (writes : List (List UInt8)) :
    EarlyStageOutputDevice :=
  writes.foldl (fun device data => (device.write data).2) device

def scrolledRows (count : Nat) : Nat := if count ≤ 2000 then 0 else (count - 2000 + 79) / 80

/-- The screen shows the characters of `bytes` that are left after `k` rows. -/
structure Shows (m : Nat → UInt8) (bytes : List UInt8) (k : Nat)
    (device : EarlyStageOutputDevice) : Prop where
  stores : device.memory.Keeps fun address =>
    vgaTextBase ≤ address ∧ address < vgaTextBase + 4000
  cursor : device.cursor + 160 * k = vgaTextBase + 2 * bytes.length
  written : ∀ j ch, bytes[j + 80 * k]? = some ch →
    device.memory.cells (vgaTextBase + 2 * j) = ch ∧
      device.memory.cells (vgaTextBase + 2 * j + 1) = 4
  blank : 0 < k → ∀ j < 2000, bytes.length ≤ j + 80 * k →
    device.memory.cells (vgaTextBase + 2 * j) = 0 ∧
      device.memory.cells (vgaTextBase + 2 * j + 1) = 0
  untouched : k = 0 → ∀ address, device.cursor ≤ address →
    device.memory.cells address = m address
  frame : ∀ address, address < vgaTextBase ∨ vgaTextBase + 4000 ≤ address →
    device.memory.cells address = m address

variable {m : Nat → UInt8} {bytes : List UInt8} {k : Nat} {device : EarlyStageOutputDevice}

theorem fresh_shows (m : Nat → UInt8) : Shows m [] 0 (fresh m) where
  stores := fun _ member => absurd member List.not_mem_nil
  cursor := rfl
  written := fun _ _ there => by cases there
  blank := fun positive => absurd positive (Nat.lt_irrefl 0)
  untouched := fun _ _ _ => rfl
  frame := fun _ _ => rfl

theorem scroll_cells (device : EarlyStageOutputDevice) (address : Nat) :
    device.scroll.memory.cells address =
      if vgaTextBase ≤ address ∧ address < vgaTextBase + 3840 then
        device.memory.cells (address + 160)
      else if vgaTextBase + 3840 ≤ address ∧ address < vgaTextBase + 4000 then 0
      else device.memory.cells address := by
  simp only [scroll, memset, memcpy]
  rw [Traced.fillFrom_cells, Traced.copyFrom_cells _ _ (Nat.le_add_right _ _)]
  split
  · exact (if_neg (by omega)).symm
  · split
    · rw [if_pos (by omega),
        show address - vgaTextBase + (vgaTextBase + 2 * 80) = address + 160 by omega]
    · exact (if_neg (by omega)).symm

theorem Shows.scroll (shows : Shows m bytes k device) (full : bytes.length = 80 * k + 2000) :
    Shows m bytes (k + 1) device.scroll := by
  obtain ⟨stores, cursor, written, blank, untouched, frame⟩ := shows
  have copied : ∀ j, j < 1920 → ∀ offset < 2,
      device.scroll.memory.cells (vgaTextBase + 2 * j + offset) =
        device.memory.cells (vgaTextBase + 2 * (j + 80) + offset) := by
    intro j below offset two
    rw [scroll_cells, if_pos (by omega),
      show vgaTextBase + 2 * j + offset + 160 = vgaTextBase + 2 * (j + 80) + offset by omega]
  have zero : ∀ j, 1920 ≤ j → j < 2000 → ∀ offset < 2,
      device.scroll.memory.cells (vgaTextBase + 2 * j + offset) = 0 := by
    intro j above below offset two
    rw [scroll_cells, if_neg (by omega), if_pos (by omega)]
  refine ⟨?_, ?_, ?_, ?_, ?_, ?_⟩
  · apply Traced.Keeps.fillFrom
    · apply stores.copyFrom
      intro i below
      omega
    · intro i below
      omega
  · simp only [EarlyStageOutputDevice.scroll]
    omega
  · intro j ch there
    have inside := (List.getElem?_eq_some_iff.mp there).1
    rw [show j + 80 * (k + 1) = j + 80 + 80 * k by omega] at there
    obtain ⟨letter, colour⟩ := written (j + 80) ch there
    exact ⟨(copied j (by omega) 0 (by omega)).trans letter,
      (copied j (by omega) 1 (by omega)).trans colour⟩
  · intro _ j below after
    exact ⟨zero j (by omega) below 0 (by omega), zero j (by omega) below 1 (by omega)⟩
  · intro none
    exact absurd none (Nat.succ_ne_zero k)
  · intro address outside
    rw [scroll_cells, if_neg (by omega), if_neg (by omega)]
    exact frame address outside

theorem Shows.put (shows : Shows m bytes k device) (room : bytes.length < 80 * k + 2000)
    (ch : UInt8) (after : 80 * k ≤ bytes.length) : Shows m (bytes ++ [ch]) k (device.put ch) := by
  obtain ⟨stores, cursor, written, blank, untouched, frame⟩ := shows
  have length : (bytes ++ [ch]).length = bytes.length + 1 := List.length_append
  have other : ∀ address, address ≠ device.cursor → address ≠ device.cursor + 1 →
      (device.put ch).memory.cells address = device.memory.cells address := by
    intro address low high
    exact (Traced.store_other _ high).trans (Traced.store_other _ low)
  have low : (device.put ch).memory.cells device.cursor = ch :=
    (Traced.store_other _ (by omega)).trans (Traced.store_self _ _ _)
  have high : (device.put ch).memory.cells (device.cursor + 1) = 4 := Traced.store_self _ _ _
  refine ⟨?_, ?_, ?_, ?_, ?_, ?_⟩
  · exact (stores.store _ (by omega)).store _ (by omega)
  · simp only [EarlyStageOutputDevice.put, length]
    omega
  · intro j other' there
    have inside := (List.getElem?_eq_some_iff.mp there).1
    by_cases last : j + 80 * k = bytes.length
    · have place : vgaTextBase + 2 * j = device.cursor := by omega
      rw [last, List.getElem?_concat_length] at there
      rw [place, low, high]
      exact ⟨Option.some.inj there, rfl⟩
    · rw [List.getElem?_append_left (by omega)] at there
      rw [other _ (by omega) (by omega), other _ (by omega) (by omega)]
      exact written j other' there
  · intro positive j below behind
    rw [other _ (by omega) (by omega), other _ (by omega) (by omega)]
    exact blank positive j below (by omega)
  · intro none address behind
    have behind : device.cursor + 2 ≤ address := behind
    rw [other _ (by omega) (by omega)]
    exact untouched none address (by omega)
  · intro address outside
    rw [other _ (by omega) (by omega)]
    exact frame address outside

theorem scrollLoop_rest (fuel : Nat) (before : ¬ vgaTextBase + 80 * 25 * 2 ≤ device.cursor) :
    scrollLoop fuel device = device := by
  cases fuel with
  | zero => rfl
  | succ fuel => exact if_neg before

theorem scrollLoop_full (past : vgaTextBase + 80 * 25 * 2 ≤ device.cursor)
    (shown : device.scroll.cursor < vgaTextBase + 80 * 25 * 2) :
    scrollLoop device.cursor device = device.scroll := by
  have once : ∀ fuel, scrollLoop (fuel + 1) device = device.scroll := fun fuel =>
    (if_pos past).trans (scrollLoop_rest fuel (Nat.not_le.mpr shown))
  have rounds := once (device.cursor - 1)
  rwa [Nat.sub_add_cancel (by omega)] at rounds

theorem scrolledRows_bounds (count : Nat) :
    (scrolledRows count = 0 ∨ 80 * scrolledRows count + 1920 < count) ∧
      count ≤ 80 * scrolledRows count + 2000 := by
  rw [scrolledRows]
  split
  · omega
  · omega

theorem scrolledRows_eq {count : Nat} (low : k = 0 ∨ 80 * k + 1920 < count)
    (high : count ≤ 80 * k + 2000) : scrolledRows count = k := by
  rw [scrolledRows]
  split
  · omega
  · omega

theorem Shows.writeByte (shows : Shows m bytes (scrolledRows bytes.length) device) (ch : UInt8) :
    Shows m (bytes ++ [ch]) (scrolledRows (bytes ++ [ch]).length) (device.writeByte ch) := by
  have length : (bytes ++ [ch]).length = bytes.length + 1 := List.length_append
  obtain ⟨low, high⟩ := scrolledRows_bounds bytes.length
  have cursor := shows.cursor
  by_cases full : bytes.length = 80 * scrolledRows bytes.length + 2000
  · have more : scrolledRows (bytes.length + 1) = scrolledRows bytes.length + 1 :=
      scrolledRows_eq (by omega) (by omega)
    have past : vgaTextBase + 80 * 25 * 2 ≤ device.cursor := by omega
    have scrolled := shows.scroll full
    have moved := scrolled.cursor
    have shown : device.scroll.cursor < vgaTextBase + 80 * 25 * 2 := by omega
    rw [length, more, EarlyStageOutputDevice.writeByte, scrollLoop_full past shown]
    exact scrolled.put (by omega) ch (by omega)
  · have same : scrolledRows (bytes.length + 1) = scrolledRows bytes.length :=
      scrolledRows_eq (by omega) (by omega)
    have before : ¬ vgaTextBase + 80 * 25 * 2 ≤ device.cursor := by omega
    rw [length, same, EarlyStageOutputDevice.writeByte, scrollLoop_rest _ before]
    exact shows.put (by omega) ch (by omega)

theorem Shows.foldl {start : List UInt8}
    (shows : Shows m start (scrolledRows start.length) device) (data : List UInt8) :
    Shows m (start ++ data) (scrolledRows (start ++ data).length)
      (data.foldl EarlyStageOutputDevice.writeByte device) := by
  induction data generalizing start device with
  | nil => rwa [List.append_nil]
  | cons ch rest ih =>
      have later := ih (shows.writeByte ch)
      rwa [List.append_assoc] at later

theorem writeAll_eq (device : EarlyStageOutputDevice) (writes : List (List UInt8)) :
    device.writeAll writes = writes.flatten.foldl writeByte device := by
  induction writes generalizing device with
  | nil => rfl
  | cons data rest ih =>
      rw [List.flatten_cons, List.foldl_append, ← ih]
      rfl

end EarlyStageOutputDevice

/-- What the early console shows after any calls of `write`: the characters that are left
after the rows that the closed form says, each with attribute 4, and zeros behind them once a
row is scrolled out. All stores are made to the screen, and how the characters are split into
calls makes no difference. -/
theorem early_console_shows (m : Nat → UInt8) (writes : List (List UInt8)) :
    EarlyStageOutputDevice.Shows m writes.flatten
        (EarlyStageOutputDevice.scrolledRows writes.flatten.length)
        ((EarlyStageOutputDevice.fresh m).writeAll writes) ∧
      ∀ others : List (List UInt8), others.flatten = writes.flatten →
        (EarlyStageOutputDevice.fresh m).writeAll others =
          (EarlyStageOutputDevice.fresh m).writeAll writes := by
  constructor
  · rw [EarlyStageOutputDevice.writeAll_eq]
    exact (EarlyStageOutputDevice.fresh_shows m).foldl writes.flatten
  · intro others same
    rw [EarlyStageOutputDevice.writeAll_eq, EarlyStageOutputDevice.writeAll_eq, same]

end SysImpl.Kernel
