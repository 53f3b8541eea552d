import SysImpl.Lib.Rings
import SysImpl.Lib.Runs
import SysImpl.Kernel.Console

/-! `LineBufferedIOMixin` with its two rings of 256 bytes.

The console of the kernel model keeps the two rings as lists. Here they are the arrays and
indices of the source, and every read is shown to do to the rings what it does to the
lists. -/

namespace SysImpl.Kernel

open Rings Runs

def bufferSize : Nat := 256

structure LineRings where
  eof : Bool
  buffer : Circular UInt8
  committed : Circular UInt8

namespace LineRings

/-- The loop of `commit`; every round takes a byte from the first ring. -/
def commitLoop : Nat → LineRings → LineRings
  | 0, rings => rings
  | fuel + 1, rings =>
      if rings.buffer.start ≠ rings.buffer.stop ∧
          (rings.committed.stop + 1) % bufferSize ≠ rings.committed.start then
        commitLoop fuel { rings with
          committed := rings.committed.push bufferSize (rings.buffer.slots rings.buffer.start)
          buffer := rings.buffer.drop bufferSize }
      else rings

def commit (rings : LineRings) : LineRings :=
  let rings := commitLoop bufferSize rings
  { rings with buffer := rings.buffer.clear }

/-- The branches of the loop of `read` for a byte other than `C-d`. -/
def put (rings : LineRings) (ch : UInt8) : LineRings :=
  if 128 ≤ ch then rings
  else if ch = 8 then
    if rings.buffer.start ≠ rings.buffer.stop then
      { rings with buffer := rings.buffer.unpush bufferSize }
    else rings
  else if (rings.buffer.stop + 1) % bufferSize ≠ rings.buffer.start then
    let rings := { rings with buffer := rings.buffer.push bufferSize ch }
    if ch = 10 then rings.commit else rings
  else rings

inductive Filled where
  | endOfFile (rings : LineRings) (hw : Hardware)
  | filled (rings : LineRings) (hw : Hardware)

def fill (console : Console) (size : Nat) : Nat → LineRings → Hardware → Filled
  | 0, rings, hw => .filled rings hw
  | fuel + 1, rings, hw =>
      match hw.getc console with
      | (none, hw) => .filled rings hw
      | (some ch, hw) =>
          if ch = 4 then
            if rings.buffer.start = rings.buffer.stop ∧
                rings.committed.start = rings.committed.stop then
              .endOfFile { rings with eof := size == 0 } hw
            else .filled rings.commit hw
          else fill console size fuel (rings.put ch) hw

def deliver : Nat → Circular UInt8 → List UInt8 × Circular UInt8
  | 0, ring => ([], ring)
  | size + 1, ring =>
      if ring.start ≠ ring.stop then
        let (bytes, rest) := deliver size (ring.drop bufferSize)
        (ring.slots ring.start :: bytes, rest)
      else ([], ring)

def read (console : Console) (size : Nat) (rings : LineRings) (hw : Hardware) :
    Int × List UInt8 × LineRings × Hardware :=
  if rings.eof then (0, [], { rings with eof := size == 0 }, hw)
  else
    match fill console size (hw.roundsLeft console) rings hw with
    | .endOfFile rings hw => (0, [], rings, hw)
    | .filled rings hw =>
        if rings.committed.start = rings.committed.stop then (eagain, [], rings, hw)
        else
          let (bytes, committed) := deliver size rings.committed
          (bytes.length, bytes, { rings with committed := committed }, hw)

def lists (rings : LineRings) : LineBuffer :=
  ⟨rings.eof, rings.buffer.contents bufferSize, rings.committed.contents bufferSize⟩

structure Inside (rings : LineRings) : Prop where
  buffer : rings.buffer.Inside bufferSize
  committed : rings.committed.Inside bufferSize

variable {rings : LineRings}

theorem commitLoop_spec (fuel : Nat) (inside : rings.Inside)
    (enough : rings.buffer.count bufferSize ≤ fuel) :
    (commitLoop fuel rings).Inside ∧ (commitLoop fuel rings).eof = rings.eof ∧
      (commitLoop fuel rings).committed.contents bufferSize =
        rings.committed.contents bufferSize ++ (rings.buffer.contents bufferSize).take
          (lineCapacity - (rings.committed.contents bufferSize).length) := by
  induction fuel generalizing rings with
  | zero =>
      have empty : rings.buffer.contents bufferSize = [] := by
        rw [← List.length_eq_zero_iff, Circular.contents_length]
        exact Nat.le_zero.mp enough
      simp [commitLoop, empty, inside]
  | succ fuel ih =>
      by_cases moves : rings.buffer.start ≠ rings.buffer.stop ∧
          (rings.committed.stop + 1) % bufferSize ≠ rings.committed.start
      · obtain ⟨some, room⟩ := moves
        have free : rings.committed.count bufferSize + 1 < bufferSize := by
          have below := Circular.count_lt inside.committed
          have notFull : rings.committed.count bufferSize ≠ bufferSize - 1 :=
            fun full => room ((Circular.full_iff inside.committed).mpr full)
          omega
        have fewer := Circular.drop_count inside.buffer some
        have moved : ({ rings with
            committed := rings.committed.push bufferSize (rings.buffer.slots rings.buffer.start)
            buffer := rings.buffer.drop bufferSize } : LineRings).Inside :=
          ⟨inside.buffer.drop, inside.committed.push _⟩
        have later := ih moved (by simp only; omega)
        simp only [commitLoop, if_pos (And.intro some room)]
        refine ⟨later.1, later.2.1, later.2.2.trans ?_⟩
        simp only [Circular.push_contents inside.committed _ free, List.append_assoc,
          List.length_append, List.length_singleton]
        rw [Circular.drop_contents inside.buffer some]
        have more : lineCapacity - (rings.committed.contents bufferSize).length =
            lineCapacity - ((rings.committed.contents bufferSize).length + 1) + 1 := by
          have capacity : lineCapacity + 1 = bufferSize := rfl
          rw [Circular.contents_length]
          omega
        rw [more, List.take_succ_cons]
        rfl
      · simp only [commitLoop, if_neg moves]
        refine ⟨inside, trivial, ?_⟩
        by_cases some : rings.buffer.start ≠ rings.buffer.stop
        · have full : (rings.committed.stop + 1) % bufferSize = rings.committed.start := by
            by_contra room
            exact moves ⟨some, room⟩
          have last := (Circular.full_iff inside.committed).mp full
          rw [Circular.contents_length, last]
          simp [bufferSize, lineCapacity]
        · rw [(Circular.contents_eq_nil inside.buffer).mpr (not_not.mp some)]
          simp

theorem commit_spec (inside : rings.Inside) :
    rings.commit.Inside ∧ rings.commit.lists = rings.lists.commit := by
  obtain ⟨kept, eof, committed⟩ := commitLoop_spec bufferSize inside
    (Nat.le_of_lt (Circular.count_lt inside.buffer))
  refine ⟨⟨kept.buffer.clear, kept.committed⟩, ?_⟩
  simp only [lists, commit, LineBuffer.commit, eof, committed, Circular.clear_contents]

theorem put_spec (inside : rings.Inside) (ch : UInt8) :
    (rings.put ch).Inside ∧ (rings.put ch).lists = rings.lists.put ch := by
  have capacity : lineCapacity + 1 = bufferSize := rfl
  have length : rings.lists.buffer.length = rings.buffer.count bufferSize :=
    Circular.contents_length
  simp only [put, LineBuffer.put]
  by_cases high : 128 ≤ ch
  · simp only [if_pos high]
    exact ⟨inside, trivial⟩
  simp only [if_neg high]
  by_cases back : ch = 8
  · simp only [if_pos back]
    by_cases some : rings.buffer.start ≠ rings.buffer.stop
    · rw [if_pos some]
      refine ⟨⟨inside.buffer.unpush, inside.committed⟩, ?_⟩
      simp only [lists, Circular.unpush_contents inside.buffer some]
    · rw [if_neg some]
      have empty := (Circular.contents_eq_nil inside.buffer).mpr (not_not.mp some)
      refine ⟨inside, ?_⟩
      simp only [lists, empty, List.dropLast_nil]
  simp only [if_neg back]
  by_cases full : (rings.buffer.stop + 1) % bufferSize = rings.buffer.start
  · have last := (Circular.full_iff inside.buffer).mp full
    have stuck : ¬ rings.lists.buffer.length < lineCapacity := by omega
    rw [if_neg (not_not.mpr full), if_neg stuck]
    exact ⟨inside, rfl⟩
  · have free : rings.buffer.count bufferSize + 1 < bufferSize := by
      have below := Circular.count_lt inside.buffer
      have notFull : rings.buffer.count bufferSize ≠ bufferSize - 1 :=
        fun last => full ((Circular.full_iff inside.buffer).mpr last)
      omega
    have pushed : ({ rings with buffer := rings.buffer.push bufferSize ch } : LineRings).Inside :=
      ⟨inside.buffer.push ch, inside.committed⟩
    have same : ({ rings with buffer := rings.buffer.push bufferSize ch } : LineRings).lists =
        { rings.lists with buffer := rings.lists.buffer ++ [ch] } := by
      simp only [lists, Circular.push_contents inside.buffer ch free]
    have small : rings.lists.buffer.length < lineCapacity := by omega
    rw [if_pos full, if_pos small]
    by_cases newline : ch = 10
    · simp only [if_pos newline, ← same]
      exact commit_spec pushed
    · simp only [if_neg newline, ← same]
      exact ⟨pushed, trivial⟩

def Filled.lists : Filled → Fill
  | .endOfFile rings hw => .endOfFile rings.lists hw
  | .filled rings hw => .filled rings.lists hw

def Filled.device : Filled → LineRings
  | .endOfFile rings _ => rings
  | .filled rings _ => rings

theorem fill_spec (console : Console) (size fuel : Nat) (inside : rings.Inside) (hw : Hardware) :
    (fill console size fuel rings hw).device.Inside ∧
      (fill console size fuel rings hw).lists = fillBuffer console size fuel rings.lists hw := by
  induction fuel generalizing rings hw with
  | zero => exact ⟨inside, rfl⟩
  | succ fuel ih =>
      simp only [fill, fillBuffer]
      cases hw.getc console with
      | mk got hw =>
          cases got with
          | none => exact ⟨inside, rfl⟩
          | some ch =>
              by_cases control : ch = 4
              · simp only [if_pos control]
                have empty : (rings.buffer.start = rings.buffer.stop ∧
                    rings.committed.start = rings.committed.stop) ↔
                      (rings.lists.buffer = [] ∧ rings.lists.committed = []) := by
                  rw [← Circular.contents_eq_nil inside.buffer,
                    ← Circular.contents_eq_nil inside.committed]
                  rfl
                by_cases idle : rings.buffer.start = rings.buffer.stop ∧
                    rings.committed.start = rings.committed.stop
                · rw [if_pos idle, if_pos (empty.mp idle)]
                  exact ⟨⟨inside.buffer, inside.committed⟩, rfl⟩
                · rw [if_neg idle, if_neg fun none => idle (empty.mpr none)]
                  obtain ⟨kept, same⟩ := commit_spec inside
                  exact ⟨kept, congrArg (fun lists => Fill.filled lists hw) same⟩
              · simp only [if_neg control]
                obtain ⟨kept, same⟩ := put_spec inside ch
                obtain ⟨final, lists⟩ := ih kept hw
                rw [same] at lists
                exact ⟨final, lists⟩

theorem deliver_spec (size : Nat) {ring : Circular UInt8} (inside : ring.Inside bufferSize) :
    (deliver size ring).2.Inside bufferSize ∧
      (deliver size ring).1 = (ring.contents bufferSize).take size ∧
      (deliver size ring).2.contents bufferSize = (ring.contents bufferSize).drop size := by
  induction size generalizing ring with
  | zero => exact ⟨inside, rfl, rfl⟩
  | succ size ih =>
      simp only [deliver]
      by_cases some : ring.start ≠ ring.stop
      · obtain ⟨kept, bytes, rest⟩ := ih inside.drop
        rw [if_pos some, Circular.drop_contents inside some, List.take_succ_cons,
          List.drop_succ_cons, ← bytes, ← rest]
        exact ⟨kept, rfl, rfl⟩
      · rw [if_neg some, (Circular.contents_eq_nil inside).mpr (not_not.mp some)]
        exact ⟨inside, rfl, by simp⟩

theorem read_spec (console : Console) (size : Nat) (inside : rings.Inside) (hw : Hardware) :
    (read console size rings hw).2.2.1.Inside ∧
      readLine console size rings.lists hw =
        ((read console size rings hw).1, (read console size rings hw).2.1,
          (read console size rings hw).2.2.1.lists, (read console size rings hw).2.2.2) := by
  simp only [read, readLine]
  rw [show rings.lists.eof = rings.eof from rfl]
  by_cases ended : rings.eof
  · simp only [if_pos ended]
    exact ⟨⟨inside.buffer, inside.committed⟩, rfl⟩
  · simp only [if_neg ended]
    obtain ⟨kept, same⟩ := fill_spec console size (hw.roundsLeft console) inside hw
    rw [← same]
    cases left : fill console size (hw.roundsLeft console) rings hw with
    | endOfFile after hw =>
        rw [left] at kept
        exact ⟨kept, rfl⟩
    | filled after hw =>
        rw [left] at kept
        have kept : after.Inside := kept
        have empty : after.committed.start = after.committed.stop ↔ after.lists.committed = [] :=
          (Circular.contents_eq_nil kept.committed).symm
        simp only [Filled.lists]
        by_cases none : after.committed.start = after.committed.stop
        · rw [if_pos none, if_pos (empty.mp none)]
          exact ⟨kept, rfl⟩
        · rw [if_neg none, if_neg fun idle => none (empty.mpr idle)]
          obtain ⟨inside, bytes, rest⟩ := deliver_spec size kept.committed
          refine ⟨⟨kept.buffer, inside⟩, ?_⟩
          simp only [lists, bytes, rest]

end LineRings

/-- What has been typed and not committed, and what has been committed. -/
structure Edited where
  line : List UInt8
  output : List UInt8
  deriving DecidableEq, Repr

/-- The reference editor, on one byte. -/
def Edited.edit (e : Edited) (ch : UInt8) : Edited :=
  if 128 ≤ ch then e
  else if ch = 4 then ⟨[], e.output ++ e.line⟩
  else if ch = 8 then ⟨e.line.dropLast, e.output⟩
  else if ch = 10 then ⟨[], e.output ++ (e.line ++ [10])⟩
  else ⟨e.line ++ [ch], e.output⟩

def editAll (bytes : List UInt8) : Edited := bytes.foldl Edited.edit ⟨[], []⟩

def takenBytes (console : Console) : Nat → Hardware → List UInt8
  | 0, _ => []
  | fuel + 1, hw =>
      match hw.getc console with
      | (none, _) => []
      | (some ch, hw) => if ch = 4 then [4] else ch :: takenBytes console fuel hw

def LineBuffer.feed (line : LineBuffer) (ch : UInt8) : LineBuffer :=
  if ch = 4 then line.commit else line.put ch

structure Session where
  rings : LineRings
  hw : Hardware
  consumed : List UInt8
  delivered : List UInt8

/-- A read: the interrupts before it, those that come while it runs, and its size. -/
structure ReadCall where
  before : List Irq
  during : List (List Irq)
  size : Nat

variable (console : Console)

def Session.ready (session : Session) (call : ReadCall) : Hardware :=
  { session.hw.interrupts call.before with incoming := call.during }

def Session.takes (session : Session) (call : ReadCall) : List UInt8 :=
  if session.rings.eof then []
  else takenBytes console ((session.ready call).roundsLeft console) (session.ready call)

def Session.read (session : Session) (call : ReadCall) : Session :=
  let (_, bytes, rings, hw) := session.rings.read console call.size (session.ready call)
  { rings := rings
    hw := hw
    consumed := session.consumed ++ session.takes console call
    delivered := session.delivered ++ bytes }

/-- After each of some bytes the line is shorter than 255 bytes, and the bytes committed and
not delivered are no more than 255. -/
def Roomy (delivered : Nat) : Edited → List UInt8 → Prop
  | _, [] => True
  | e, ch :: rest =>
      (e.edit ch).line.length < lineCapacity ∧
        (e.edit ch).output.length ≤ delivered + lineCapacity ∧ Roomy delivered (e.edit ch) rest

/-- A read during which nothing overflows. -/
def RoomyRead (session : Session) (call : ReadCall) (after : Session) : Prop :=
  Roomy session.delivered.length (editAll session.consumed) (session.takes console call) ∧
    after = session.read console call

def Session.Fresh (session : Session) : Prop :=
  session.rings.eof = false ∧ session.rings.buffer.start = 0 ∧ session.rings.buffer.stop = 0 ∧
    session.rings.committed.start = 0 ∧ session.rings.committed.stop = 0 ∧
    session.consumed = [] ∧ session.delivered = []

structure Follows (line : LineBuffer) (delivered : List UInt8) (e : Edited) : Prop where
  typed : line.buffer = e.line
  output : delivered ++ line.committed = e.output
  short : e.line.length < lineCapacity

variable {console} {line : LineBuffer} {delivered : List UInt8} {e : Edited}

/-- A commit that there is room for is one of the editor. -/
theorem Follows.commit (output : delivered ++ line.committed = e.output)
    (room : (e.output ++ line.buffer).length ≤ delivered.length + lineCapacity) :
    Follows line.commit delivered ⟨[], e.output ++ line.buffer⟩ := by
  have whole : line.buffer.take (lineCapacity - line.committed.length) = line.buffer := by
    apply List.take_of_length_le
    rw [← output] at room
    simp only [List.length_append] at room
    omega
  refine ⟨rfl, ?_, by simp [lineCapacity]⟩
  simp only [LineBuffer.commit, whole]
  rw [← List.append_assoc, output]

theorem Follows.feed (follows : Follows line delivered e) (ch : UInt8)
    (short : (e.edit ch).line.length < lineCapacity)
    (room : (e.edit ch).output.length ≤ delivered.length + lineCapacity) :
    Follows (line.feed ch) delivered (e.edit ch) := by
  obtain ⟨typed, output, before⟩ := follows
  simp only [LineBuffer.feed, LineBuffer.put, Edited.edit] at *
  by_cases high : 128 ≤ ch
  · have plain : ch ≠ 4 := by
      intro control
      rw [control] at high
      exact absurd high (by decide)
    simp only [if_pos high, if_neg plain]
    exact ⟨typed, output, before⟩
  simp only [if_neg high] at *
  by_cases control : ch = 4
  · simp only [if_pos control] at *
    rw [← typed] at room ⊢
    exact Follows.commit output room
  simp only [if_neg control] at *
  by_cases back : ch = 8
  · simp only [if_pos back] at *
    exact ⟨congrArg List.dropLast typed, output, short⟩
  simp only [if_neg back] at *
  have free : line.buffer.length < lineCapacity := by rw [typed]; exact before
  rw [if_pos free]
  by_cases newline : ch = 10
  · simp only [newline] at *
    rw [← typed] at room ⊢
    have pushed : delivered ++
        ({ line with buffer := line.buffer ++ [10] } : LineBuffer).committed = e.output := output
    exact Follows.commit pushed room
  · simp only [if_neg newline] at *
    exact ⟨congrArg (fun text => text ++ [ch]) typed, output, short⟩

theorem Follows.feedAll {bytes : List UInt8} (follows : Follows line delivered e)
    (roomy : Roomy delivered.length e bytes) :
    Follows (bytes.foldl LineBuffer.feed line) delivered (bytes.foldl Edited.edit e) := by
  induction bytes generalizing line e with
  | nil => exact follows
  | cons ch rest ih =>
      obtain ⟨short, room, later⟩ := roomy
      exact ih (follows.feed ch short room) later

def Fill.device : Fill → LineBuffer
  | .endOfFile line _ => line
  | .filled line _ => line

/-- The loop feeds the buffers what it takes. A `C-d` that ends the input finds nothing to
commit. -/
theorem fillBuffer_feeds (console : Console) (line : LineBuffer) (size fuel : Nat)
    (hw : Hardware) :
    (fillBuffer console size fuel line hw).device.buffer =
        ((takenBytes console fuel hw).foldl LineBuffer.feed line).buffer ∧
      (fillBuffer console size fuel line hw).device.committed =
        ((takenBytes console fuel hw).foldl LineBuffer.feed line).committed := by
  induction fuel generalizing line hw with
  | zero => exact ⟨rfl, rfl⟩
  | succ fuel ih =>
      simp only [fillBuffer, takenBytes]
      cases hw.getc console with
      | mk got hw =>
          cases got with
          | none => exact ⟨rfl, rfl⟩
          | some ch =>
              by_cases control : ch = 4
              · simp only [if_pos control]
                have fed : [4].foldl LineBuffer.feed line = line.commit := rfl
                rw [fed]
                by_cases idle : line.buffer = [] ∧ line.committed = []
                · rw [if_pos idle]
                  simp [Fill.device, LineBuffer.commit, idle]
                · rw [if_neg idle]
                  exact ⟨rfl, rfl⟩
              · simp only [if_neg control, List.foldl_cons]
                have fed : line.feed ch = line.put ch := if_neg control
                rw [fed]
                exact ih (line.put ch) hw

theorem fillBuffer_endOfFile {line after : LineBuffer} {size fuel : Nat} {hw rest : Hardware}
    (left : fillBuffer console size fuel line hw = .endOfFile after rest) :
    after.committed = [] := by
  induction fuel generalizing line hw with
  | zero => cases left
  | succ fuel ih =>
      simp only [fillBuffer] at left
      cases got : hw.getc console with
      | mk ch hw =>
          rw [got] at left
          cases ch with
          | none => cases left
          | some ch =>
              by_cases control : ch = 4
              · simp only [if_pos control] at left
                by_cases idle : line.buffer = [] ∧ line.committed = []
                · rw [if_pos idle] at left
                  cases left
                  exact idle.2
                · rw [if_neg idle] at left
                  cases left
              · simp only [if_neg control] at left
                exact ih left

theorem readLine_feeds (console : Console) (size : Nat) (hw : Hardware) (awake : line.eof = false) :
    (readLine console size line hw).2.2.1.buffer =
        ((takenBytes console (hw.roundsLeft console) hw).foldl LineBuffer.feed line).buffer ∧
      (readLine console size line hw).2.1 =
        ((takenBytes console (hw.roundsLeft console) hw).foldl LineBuffer.feed
          line).committed.take size ∧
      (readLine console size line hw).2.2.1.committed =
        ((takenBytes console (hw.roundsLeft console) hw).foldl LineBuffer.feed
          line).committed.drop size := by
  obtain ⟨buffer, committed⟩ := fillBuffer_feeds console line size (hw.roundsLeft console) hw
  rw [← buffer, ← committed]
  simp only [Kernel.readLine, awake]
  cases left : fillBuffer console size (hw.roundsLeft console) line hw with
  | endOfFile after rest =>
      have none : after.committed = [] := fillBuffer_endOfFile left
      simp [Fill.device, none]
  | filled after rest =>
      by_cases none : after.committed = []
      · simp [Fill.device, none]
      · simp [Fill.device, none]

theorem Follows.readLine {hw : Hardware} (size : Nat) (follows : Follows line delivered e)
    (awake : line.eof = false)
    (roomy : Roomy delivered.length e (takenBytes console (hw.roundsLeft console) hw)) :
    Follows (readLine console size line hw).2.2.1
      (delivered ++ (readLine console size line hw).2.1)
      ((takenBytes console (hw.roundsLeft console) hw).foldl Edited.edit e) := by
  obtain ⟨typed, output, short⟩ := follows.feedAll roomy
  obtain ⟨buffer, bytes, committed⟩ := readLine_feeds console size hw awake
  refine ⟨buffer.trans typed, ?_, short⟩
  rw [bytes, committed, List.append_assoc, List.take_append_drop]
  exact output

structure Session.Edits (session : Session) : Prop where
  inside : session.rings.Inside
  follows : Follows session.rings.lists session.delivered (editAll session.consumed)

theorem Session.Fresh.edits {session : Session} (fresh : session.Fresh) : session.Edits := by
  obtain ⟨-, bufferStart, bufferStop, committedStart, committedStop, consumed, delivered⟩ := fresh
  have inside : session.rings.Inside := by
    refine ⟨⟨?_, ?_⟩, ⟨?_, ?_⟩⟩
    · rw [bufferStart]; decide
    · rw [bufferStop]; decide
    · rw [committedStart]; decide
    · rw [committedStop]; decide
  have buffer : session.rings.lists.buffer = [] :=
    (Circular.contents_eq_nil inside.buffer).mpr (bufferStart.trans bufferStop.symm)
  have committed : session.rings.lists.committed = [] :=
    (Circular.contents_eq_nil inside.committed).mpr (committedStart.trans committedStop.symm)
  refine ⟨inside, ?_⟩
  rw [consumed, delivered]
  exact ⟨buffer, committed, by simp [editAll, lineCapacity]⟩

theorem Session.read_lists (console : Console) {session : Session}
    (inside : session.rings.Inside) (call : ReadCall) :
    (session.read console call).rings.Inside ∧
      (session.read console call).rings.lists =
        (readLine console call.size session.rings.lists (session.ready call)).2.2.1 ∧
      (session.read console call).delivered = session.delivered ++
        (readLine console call.size session.rings.lists (session.ready call)).2.1 := by
  obtain ⟨kept, same⟩ := LineRings.read_spec console call.size inside (session.ready call)
  refine ⟨kept, ?_, ?_⟩
  · rw [same]
    rfl
  · rw [same]
    rfl

theorem Session.Edits.read {session after : Session} {call : ReadCall} (edits : session.Edits)
    (taken : RoomyRead console session call after) : after.Edits := by
  obtain ⟨roomy, rfl⟩ := taken
  obtain ⟨inside, lists, delivered⟩ := Session.read_lists console edits.inside call
  refine ⟨inside, ?_⟩
  have consumed : editAll (session.read console call).consumed =
      (session.takes console call).foldl Edited.edit (editAll session.consumed) :=
    List.foldl_append
  rw [lists, delivered, consumed]
  simp only [Session.takes] at roomy ⊢
  by_cases ended : session.rings.eof
  · simp only [if_pos ended]
    have eof : session.rings.lists.eof = true := ended
    simp only [Kernel.readLine, if_pos eof, List.append_nil]
    exact ⟨edits.follows.typed, edits.follows.output, edits.follows.short⟩
  · simp only [if_neg ended] at roomy ⊢
    exact edits.follows.readLine call.size (Bool.eq_false_iff.mpr ended) roomy

/-- In every run of reads in which nothing overflows, all that was delivered followed by
what is committed is what the reference editor has committed, and the line not committed is
the editor's. All indices stay in the rings, also in the middle of the next read. -/
theorem lines_edited {session last : Session} {calls : List ReadCall} (fresh : session.Fresh)
    (run : Run (RoomyRead console) session calls last) :
    last.delivered ++ last.rings.committed.contents bufferSize =
        (editAll last.consumed).output ∧
      last.rings.buffer.contents bufferSize = (editAll last.consumed).line ∧
      last.rings.Inside ∧
      ∀ call fuel, (LineRings.fill console call.size fuel last.rings
        (last.ready call)).device.Inside := by
  have edits : last.Edits := by
    apply run.invariant Session.Edits fresh.edits
    intro mid call next _ before taken
    exact before.read taken
  refine ⟨edits.follows.output, edits.follows.typed, edits.inside, ?_⟩
  intro call fuel
  exact (LineRings.fill_spec console call.size fuel edits.inside (last.ready call)).1

def Session.waiting (bytes : List UInt8) : Session :=
  { rings := ⟨false, ⟨fun _ => 0, 0, 0⟩, ⟨fun _ => 0, 0, 0⟩⟩
    hw := ⟨0, 0, [], bytes, []⟩
    consumed := []
    delivered := [] }

theorem lines_edited_backspace :
    ((Session.waiting [97, 8, 200, 98, 10]).read .serialIo ⟨[], [], 1⟩).delivered = [98] ∧
      ((Session.waiting [97, 8, 200, 98, 10]).read .serialIo ⟨[], [], 1⟩).delivered ++
        ((Session.waiting [97, 8, 200, 98, 10]).read .serialIo
          ⟨[], [], 1⟩).rings.committed.contents bufferSize = [98, 10] := by
  have roomy : Roomy 0 ⟨[], []⟩ [97, 8, 200, 98, 10] :=
    ⟨by decide, by decide, by decide, by decide, by decide, by decide, by decide, by decide,
      by decide, by decide, trivial⟩
  have taken : RoomyRead .serialIo (Session.waiting [97, 8, 200, 98, 10]) ⟨[], [], 1⟩
      ((Session.waiting [97, 8, 200, 98, 10]).read .serialIo ⟨[], [], 1⟩) := ⟨roomy, rfl⟩
  exact ⟨by decide +kernel, (lines_edited ⟨rfl, rfl, rfl, rfl, rfl, rfl, rfl⟩
    (Run.cons taken (Run.nil _))).1⟩

end SysImpl.Kernel
