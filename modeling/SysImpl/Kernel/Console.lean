import SysImpl.Kernel.State

/-! Interrupts, and the line discipline of the two consoles.

The kernel runs with interrupts enabled. What arrives only shows where the kernel reads
the tick count or an input queue, so a batch of interrupts is taken in right before
each of these reads. Echoed output is not kept: nothing reads it back. -/

namespace SysImpl.Kernel

/-- `KBD_BUFFER_SIZE` is 64, and a ring keeps one place empty. -/
def kbdCapacity : Nat := 63

/-- `BUFFER_SIZE` is 256, and a ring keeps one place empty. -/
def lineCapacity : Nat := 255

def Irq.apply (hw : Hardware) : Irq → Hardware
  | .tick => { hw with pitTicks := hw.pitTicks + 1, rescheCounter := hw.rescheCounter - 1 }
  | .key ch =>
      if 0 < ch ∧ hw.kbd.length < kbdCapacity then { hw with kbd := hw.kbd ++ [ch] } else hw
  | .byte ch => { hw with uart := hw.uart ++ [ch] }

def Hardware.interrupts (hw : Hardware) (irqs : List Irq) : Hardware := irqs.foldl Irq.apply hw

def Hardware.arrive (hw : Hardware) : Hardware :=
  match hw.incoming with
  | [] => hw
  | batch :: rest => ({ hw with incoming := rest } : Hardware).interrupts batch

inductive Console where
  | serialIo
  | vgaText
  deriving DecidableEq, Repr

def Hardware.queue (hw : Hardware) : Console → List UInt8
  | .serialIo => hw.uart
  | .vgaText => hw.kbd

def Hardware.setQueue (hw : Hardware) (queue : List UInt8) : Console → Hardware
  | .serialIo => { hw with uart := queue }
  | .vgaText => { hw with kbd := queue }

/-- `getc` of either device: a carriage return reads as a newline. -/
def newline (ch : UInt8) : UInt8 := if ch = 13 then 10 else ch

def Hardware.getc (hw : Hardware) (console : Console) : Option UInt8 × Hardware :=
  let hw := hw.arrive
  match hw.queue console with
  | [] => (none, hw)
  | ch :: rest => (some (newline ch), hw.setQueue rest console)

/-- `commit`: what the committed ring has no room for is dropped. -/
def LineBuffer.commit (line : LineBuffer) : LineBuffer :=
  { line with
    committed := line.committed ++ line.buffer.take (lineCapacity - line.committed.length)
    buffer := [] }

inductive Fill where
  | endOfFile (line : LineBuffer) (hw : Hardware)
  | filled (line : LineBuffer) (hw : Hardware)

def LineBuffer.put (line : LineBuffer) (ch : UInt8) : LineBuffer :=
  if 128 ≤ ch then line
  else if ch = 8 then { line with buffer := line.buffer.dropLast }
  else if line.buffer.length < lineCapacity then
    let line := { line with buffer := line.buffer ++ [ch] }
    if ch = 10 then line.commit else line
  else line

theorem put_eof (line : LineBuffer) (ch : UInt8) : (line.put ch).eof = line.eof := by
  simp only [LineBuffer.put]
  split
  · rfl
  · split
    · rfl
    · split
      · split
        · rfl
        · rfl
      · rfl

/-- The loop of `LineBufferedIOMixin::read`. Every round takes a byte, so the number of
bytes queued or still to arrive bounds it. -/
def fillBuffer (console : Console) (size : Nat) : Nat → LineBuffer → Hardware → Fill
  | 0, line, hw => .filled line hw
  | fuel + 1, line, hw =>
      match hw.getc console with
      | (none, hw) => .filled line hw
      | (some ch, hw) =>
          if ch = 4 then
            if line.buffer = [] ∧ line.committed = [] then
              .endOfFile { line with eof := size == 0 } hw
            else .filled line.commit hw
          else fillBuffer console size fuel (line.put ch) hw

def Hardware.roundsLeft (hw : Hardware) (console : Console) : Nat :=
  (hw.queue console).length + hw.incoming.flatten.length + 1

/-- `LineBufferedIOMixin::read`: the return value, the bytes it stores, and the device after. -/
def readLine (console : Console) (size : Nat) (line : LineBuffer) (hw : Hardware) :
    Int × List UInt8 × LineBuffer × Hardware :=
  if line.eof then (0, [], { line with eof := size == 0 }, hw)
  else
    match fillBuffer console size (hw.roundsLeft console) line hw with
    | .endOfFile line hw => (0, [], line, hw)
    | .filled line hw =>
        if line.committed = [] then (eagain, [], line, hw)
        else
          let bytes := line.committed.take size
          (bytes.length, bytes, { line with committed := line.committed.drop size }, hw)

end SysImpl.Kernel
