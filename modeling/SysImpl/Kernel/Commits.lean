import SysImpl.Kernel.LineRings
import Mathlib.Data.List.Infix

/-! What a commit keeps.

`commit` moves the line into the second ring until that is full, and then clears the first
ring, so that the rest of a line that does not fit is gone after it was echoed. The bytes on
the terminal are compared with those delivered, committed and typed. -/

namespace SysImpl.Kernel

open Rings Runs

namespace LineRings

def pending (rings : LineRings) : List UInt8 :=
  rings.committed.contents bufferSize ++ rings.buffer.contents bufferSize

/-- The second ring can take the whole line. -/
def Room (rings : LineRings) : Prop :=
  rings.committed.count bufferSize + rings.buffer.count bufferSize ≤ lineCapacity

def feed (rings : LineRings) (ch : UInt8) : LineRings :=
  if ch = 4 then rings.commit else rings.put ch

/-- The bytes that are echoed and not erased: `write` adds one and `backspace` takes the last
one away. -/
def echo (rings : LineRings) (echoed : List UInt8) (ch : UInt8) : List UInt8 :=
  if 128 ≤ ch then echoed
  else if ch = 4 then echoed
  else if ch = 8 then
    if rings.buffer.start ≠ rings.buffer.stop then echoed.dropLast else echoed
  else if (rings.buffer.stop + 1) % bufferSize ≠ rings.buffer.start then echoed ++ [ch]
  else echoed

def beforeCommit (rings : LineRings) (ch : UInt8) : Option LineRings :=
  if ch = 4 then some rings
  else if ch = 10 ∧ (rings.buffer.stop + 1) % bufferSize ≠ rings.buffer.start then
    some { rings with buffer := rings.buffer.push bufferSize ch }
  else none

def Fits (rings : LineRings) (ch : UInt8) : Prop :=
  ∀ typed ∈ rings.beforeCommit ch, typed.Room

def feedAll (rings : LineRings) (bytes : List UInt8) : LineRings := bytes.foldl feed rings

def echoAll : LineRings → List UInt8 → List UInt8 → List UInt8
  | _, echoed, [] => echoed
  | rings, echoed, ch :: rest => echoAll (rings.feed ch) (rings.echo echoed ch) rest

def FitsAll : LineRings → List UInt8 → Prop
  | _, [] => True
  | rings, ch :: rest => rings.Fits ch ∧ FitsAll (rings.feed ch) rest

variable {rings : LineRings}

theorem pending_length :
    rings.pending.length = rings.committed.count bufferSize + rings.buffer.count bufferSize := by
  rw [pending, List.length_append, Circular.contents_length, Circular.contents_length]

theorem commit_pending (inside : rings.Inside) :
    rings.commit.pending = rings.committed.contents bufferSize ++
      (rings.buffer.contents bufferSize).take
        (lineCapacity - rings.committed.count bufferSize) := by
  obtain ⟨-, same⟩ := commit_spec inside
  have committed := congrArg LineBuffer.committed same
  have buffer := congrArg LineBuffer.buffer same
  simp only [lists, LineBuffer.commit, Circular.contents_length] at committed buffer
  rw [pending, committed, buffer, List.append_nil]

theorem commit_keeps (inside : rings.Inside) :
    (rings.Room → rings.commit.pending = rings.pending) ∧
      (¬ rings.Room → rings.commit.pending.length < rings.pending.length) := by
  have committed : rings.committed.count bufferSize < bufferSize :=
    Circular.count_lt inside.committed
  have capacity : lineCapacity + 1 = bufferSize := rfl
  rw [commit_pending inside]
  simp only [Room]
  constructor
  · intro room
    rw [List.take_of_length_le (by rw [Circular.contents_length]; omega), pending]
  · intro full
    rw [pending_length, List.length_append, List.length_take, Circular.contents_length,
      Circular.contents_length]
    omega

theorem commit_pending_iff (inside : rings.Inside) :
    rings.commit.pending = rings.pending ↔ rings.Room := by
  obtain ⟨kept, lost⟩ := commit_keeps inside
  refine ⟨?_, kept⟩
  intro same
  by_contra full
  have shorter := lost full
  rw [same] at shorter
  exact lt_irrefl _ shorter

theorem commit_shorter (inside : rings.Inside) :
    rings.commit.pending.length ≤ rings.pending.length := by
  by_cases room : rings.Room
  · rw [(commit_keeps inside).1 room]
  · exact Nat.le_of_lt ((commit_keeps inside).2 room)

theorem feed_spec (inside : rings.Inside) (ch : UInt8) :
    (rings.feed ch).Inside ∧ (rings.feed ch).lists = rings.lists.feed ch := by
  simp only [feed, LineBuffer.feed]
  by_cases control : ch = 4
  · rw [if_pos control, if_pos control]
    exact commit_spec inside
  · rw [if_neg control, if_neg control]
    exact put_spec inside ch

theorem feedAll_spec (inside : rings.Inside) (bytes : List UInt8) :
    (rings.feedAll bytes).Inside ∧
      (rings.feedAll bytes).lists = bytes.foldl LineBuffer.feed rings.lists := by
  induction bytes generalizing rings with
  | nil => exact ⟨inside, rfl⟩
  | cons ch rest ih =>
      obtain ⟨kept, same⟩ := feed_spec inside ch
      obtain ⟨final, lists⟩ := ih kept
      rw [same] at lists
      exact ⟨final, lists⟩

theorem feed_cases (inside : rings.Inside) (echoed : List UInt8) (ch : UInt8) :
    (rings.beforeCommit ch = none ∧ (rings.feed ch).pending = rings.pending ∧
        rings.echo echoed ch = echoed) ∨
      (rings.beforeCommit ch = none ∧ rings.buffer.contents bufferSize ≠ [] ∧
        (rings.feed ch).pending = rings.pending.dropLast ∧
        rings.echo echoed ch = echoed.dropLast) ∨
      (rings.beforeCommit ch = none ∧ (rings.feed ch).pending = rings.pending ++ [ch] ∧
        rings.echo echoed ch = echoed ++ [ch]) ∨
      ∃ typed written, rings.beforeCommit ch = some typed ∧ typed.Inside ∧
        rings.feed ch = typed.commit ∧ typed.pending = rings.pending ++ written ∧
        rings.echo echoed ch = echoed ++ written := by
  simp only [feed, put, echo, beforeCommit]
  by_cases control : ch = 4
  · have low : ¬ (128 : UInt8) ≤ 4 := by decide
    simp only [control, if_neg low, if_true]
    exact Or.inr (Or.inr (Or.inr ⟨rings, [], rfl, inside, rfl, (List.append_nil _).symm,
      (List.append_nil _).symm⟩))
  simp only [if_neg control]
  by_cases high : 128 ≤ ch
  · have other : ¬ ch = 10 := by
      intro newline
      rw [newline] at high
      exact absurd high (by decide)
    simp [high, other]
  simp only [if_neg high]
  by_cases back : ch = 8
  · have other : ¬ (8 : UInt8) = 10 := by decide
    simp only [back, other, if_true, false_and, if_false]
    by_cases some : rings.buffer.start ≠ rings.buffer.stop
    · have typed : rings.buffer.contents bufferSize ≠ [] :=
        fun empty => some ((Circular.contents_eq_nil inside.buffer).mp empty)
      simp only [if_pos some]
      refine Or.inr (Or.inl ⟨trivial, typed, ?_, trivial⟩)
      rw [pending, pending, List.dropLast_append_of_ne_nil typed,
        Circular.unpush_contents inside.buffer some]
    · simp only [if_neg some]
      exact Or.inl ⟨trivial, trivial, trivial⟩
  simp only [if_neg back]
  by_cases free : (rings.buffer.stop + 1) % bufferSize ≠ rings.buffer.start
  · have room : rings.buffer.count bufferSize + 1 < bufferSize := by
      have below := Circular.count_lt inside.buffer
      have notFull : rings.buffer.count bufferSize ≠ bufferSize - 1 :=
        fun last => free ((Circular.full_iff inside.buffer).mpr last)
      omega
    have pushed : ({ rings with buffer := rings.buffer.push bufferSize ch } : LineRings).pending =
        rings.pending ++ [ch] := by
      rw [pending, pending, Circular.push_contents inside.buffer ch room, List.append_assoc]
    simp only [if_pos free]
    by_cases newline : ch = 10
    · rw [if_pos newline, if_pos ⟨newline, free⟩]
      exact Or.inr (Or.inr (Or.inr ⟨_, [ch], rfl, ⟨inside.buffer.push ch, inside.committed⟩, rfl,
        pushed, rfl⟩))
    · rw [if_neg newline, if_neg fun both => newline both.1]
      exact Or.inr (Or.inr (Or.inl ⟨rfl, pushed, trivial⟩))
  · simp only [if_neg free, if_neg fun both : ch = 10 ∧ _ => free both.2]
    exact Or.inl ⟨trivial, trivial, trivial⟩

variable {delivered echoed : List UInt8}

/-- While the commits fit, the terminal shows what is delivered and pending. -/
theorem feed_accounts (inside : rings.Inside) (ch : UInt8)
    (accounted : echoed = delivered ++ rings.pending) (fits : rings.Fits ch) :
    rings.echo echoed ch = delivered ++ (rings.feed ch).pending := by
  rcases feed_cases inside echoed ch with
    ⟨-, same, shown⟩ | ⟨-, typed, erased, shown⟩ | ⟨-, added, shown⟩ |
      ⟨typed, written, commits, kept, fed, line, shown⟩
  · rw [shown, same, accounted]
  · have some : rings.pending ≠ [] := by
      rw [pending]
      exact List.append_ne_nil_of_right_ne_nil _ typed
    rw [shown, erased, accounted, List.dropLast_append_of_ne_nil some]
  · rw [shown, added, accounted, List.append_assoc]
  · rw [shown, fed, (commit_keeps kept).1 (fits typed commits), line, accounted,
      List.append_assoc]

/-- A byte makes up for nothing that is lost, and loses more if its commit does not fit. -/
theorem feed_loses (inside : rings.Inside) (ch : UInt8)
    (most : delivered.length + rings.pending.length ≤ echoed.length) :
    delivered.length + (rings.feed ch).pending.length ≤ (rings.echo echoed ch).length ∧
      (delivered.length + rings.pending.length < echoed.length ∨ ¬ rings.Fits ch →
        delivered.length + (rings.feed ch).pending.length < (rings.echo echoed ch).length) := by
  have silent : rings.beforeCommit ch = none → rings.Fits ch := by
    intro none typed commits
    rw [none] at commits
    cases commits
  rcases feed_cases inside echoed ch with
    ⟨none, same, shown⟩ | ⟨none, typed, erased, shown⟩ | ⟨none, added, shown⟩ |
      ⟨typed, written, commits, kept, fed, line, shown⟩
  · rw [shown, same]
    refine ⟨most, ?_⟩
    rintro (less | unfit)
    · exact less
    · exact absurd (silent none) unfit
  · have some : 0 < rings.pending.length := by
      rw [pending]
      exact List.length_pos_iff.mpr (List.append_ne_nil_of_right_ne_nil _ typed)
    rw [shown, erased, List.length_dropLast, List.length_dropLast]
    refine ⟨by omega, ?_⟩
    rintro (less | unfit)
    · omega
    · exact absurd (silent none) unfit
  · rw [shown, added, List.length_append, List.length_append]
    refine ⟨by omega, ?_⟩
    rintro (less | unfit)
    · omega
    · exact absurd (silent none) unfit
  · have shorter := commit_shorter kept
    have length := congrArg List.length line
    rw [List.length_append] at length
    rw [shown, fed, List.length_append]
    refine ⟨by omega, ?_⟩
    rintro (less | unfit)
    · omega
    · have full : ¬ typed.Room := by
        intro room
        apply unfit
        intro other same
        rw [commits] at same
        cases same
        exact room
      have lost := (commit_keeps kept).2 full
      omega

theorem feedAll_accounts (inside : rings.Inside) (bytes : List UInt8)
    (accounted : echoed = delivered ++ rings.pending) (fits : rings.FitsAll bytes) :
    rings.echoAll echoed bytes = delivered ++ (rings.feedAll bytes).pending := by
  induction bytes generalizing rings echoed with
  | nil => exact accounted
  | cons ch rest ih =>
      exact ih (feed_spec inside ch).1 (feed_accounts inside ch accounted fits.1) fits.2

theorem feedAll_loses (inside : rings.Inside) (bytes : List UInt8)
    (most : delivered.length + rings.pending.length ≤ echoed.length)
    (lost : delivered.length + rings.pending.length < echoed.length ∨ ¬ rings.FitsAll bytes) :
    delivered.length + (rings.feedAll bytes).pending.length <
      (rings.echoAll echoed bytes).length := by
  induction bytes generalizing rings echoed with
  | nil =>
      rcases lost with less | unfit
      · exact less
      · exact absurd trivial unfit
  | cons ch rest ih =>
      obtain ⟨bound, more⟩ := feed_loses inside ch most
      apply ih (feed_spec inside ch).1 bound
      by_cases fits : rings.Fits ch
      · rcases lost with less | unfit
        · exact Or.inl (more (Or.inl less))
        · exact Or.inr fun later => unfit ⟨fits, later⟩
      · exact Or.inl (more (Or.inr fits))

/-- The terminal shows what is delivered and pending after some bytes exactly if every commit
among them fits. -/
theorem feedAll_accounts_iff (inside : rings.Inside) (bytes : List UInt8)
    (accounted : echoed = delivered ++ rings.pending) :
    rings.echoAll echoed bytes = delivered ++ (rings.feedAll bytes).pending ↔
      rings.FitsAll bytes := by
  refine ⟨?_, feedAll_accounts inside bytes accounted⟩
  intro same
  by_contra unfit
  have most : delivered.length + rings.pending.length ≤ echoed.length := by
    rw [accounted, List.length_append]
  have less := feedAll_loses inside bytes most (Or.inr unfit)
  rw [same, List.length_append] at less
  exact lt_irrefl _ less

end LineRings

structure Screen extends Session where
  echoed : List UInt8

variable (console : Console)

def Screen.read (screen : Screen) (call : ReadCall) : Screen where
  toSession := screen.toSession.read console call
  echoed := screen.rings.echoAll screen.echoed (screen.toSession.takes console call)

def Screen.Fresh (screen : Screen) : Prop :=
  screen.toSession.Fresh ∧ screen.echoed = []

/-- The bytes echoed and not erased are, each once and in order, those delivered and pending. -/
def Screen.Accounted (screen : Screen) : Prop :=
  screen.echoed = screen.delivered ++ screen.rings.pending

def FittingRead (screen : Screen) (call : ReadCall) (after : Screen) : Prop :=
  screen.rings.FitsAll (screen.toSession.takes console call) ∧
    after = screen.read console call

def SizedRead (screen : Screen) (call : ReadCall) (after : Screen) : Prop :=
  0 < call.size ∧ after = screen.read console call

variable {console} {session : Session} {call : ReadCall} {line : LineBuffer}

theorem LineBuffer.commit_prefix (line : LineBuffer) : line.committed <+: line.commit.committed :=
  List.prefix_append _ _

theorem LineBuffer.put_prefix (line : LineBuffer) (ch : UInt8) :
    line.committed <+: (line.put ch).committed := by
  simp only [LineBuffer.put]
  split
  · exact List.prefix_rfl
  · split
    · exact List.prefix_rfl
    · split
      · split
        · exact LineBuffer.commit_prefix { line with buffer := line.buffer ++ [ch] }
        · exact List.prefix_rfl
      · exact List.prefix_rfl

theorem LineBuffer.feedAll_prefix (line : LineBuffer) (bytes : List UInt8) :
    line.committed <+: (bytes.foldl LineBuffer.feed line).committed := by
  induction bytes generalizing line with
  | nil => exact List.prefix_rfl
  | cons ch rest ih =>
      refine List.IsPrefix.trans ?_ (ih (line.feed ch))
      rw [LineBuffer.feed]
      split
      · exact line.commit_prefix
      · exact line.put_prefix ch

theorem fillBuffer_awake {size : Nat} (fuel : Nat) (hw : Hardware) (sized : 0 < size)
    (awake : line.eof = false) : (fillBuffer console size fuel line hw).device.eof = false := by
  induction fuel generalizing line hw with
  | zero => exact awake
  | succ fuel ih =>
      simp only [fillBuffer]
      cases hw.getc console with
      | mk got hw =>
          cases got with
          | none => exact awake
          | some ch =>
              by_cases control : ch = 4
              · simp only [if_pos control]
                split
                · exact beq_eq_false_iff_ne.mpr sized.ne'
                · exact awake
              · simp only [if_neg control]
                exact ih _ ((put_eof line ch).trans awake)

theorem readLine_awake {size : Nat} (line : LineBuffer) (hw : Hardware) (sized : 0 < size) :
    (readLine console size line hw).2.2.1.eof = false := by
  simp only [readLine]
  split
  · exact beq_eq_false_iff_ne.mpr sized.ne'
  · next ended =>
      have awake : (fillBuffer console size (hw.roundsLeft console) line hw).device.eof = false :=
        fillBuffer_awake _ hw sized (Bool.eq_false_iff.mpr ended)
      cases left : fillBuffer console size (hw.roundsLeft console) line hw with
      | endOfFile after rest =>
          rw [left] at awake
          exact awake
      | filled after rest =>
          rw [left] at awake
          simp only
          split
          · exact awake
          · exact awake

theorem Session.takes_ended (ended : session.rings.eof = true) :
    session.takes console call = [] := if_pos ended

theorem Session.read_delivers (console : Console) (inside : session.rings.Inside)
    (awake : session.rings.eof = false) (call : ReadCall) :
    (session.read console call).delivered = session.delivered ++
        ((session.rings.feedAll (session.takes console call)).committed.contents bufferSize).take
          call.size ∧
      (session.read console call).rings.committed.contents bufferSize =
        ((session.rings.feedAll (session.takes console call)).committed.contents bufferSize).drop
          call.size ∧
      (session.read console call).rings.buffer.contents bufferSize =
        (session.rings.feedAll (session.takes console call)).buffer.contents bufferSize := by
  obtain ⟨-, lists, delivered⟩ := Session.read_lists console inside call
  obtain ⟨-, fed⟩ := LineRings.feedAll_spec inside (session.takes console call)
  have ended : ¬ session.rings.eof = true := by rw [awake]; decide
  simp only [Session.takes, if_neg ended] at fed ⊢
  have waiting : session.rings.lists.eof = false := awake
  obtain ⟨buffer, bytes, committed⟩ :=
    readLine_feeds console call.size (session.ready call) waiting
  rw [← fed] at buffer bytes committed
  rw [← lists] at buffer committed
  rw [delivered, bytes]
  exact ⟨rfl, committed, buffer⟩

theorem Session.read_pending (inside : session.rings.Inside) :
    (session.read console call).delivered ++ (session.read console call).rings.pending =
      session.delivered ++ (session.rings.feedAll (session.takes console call)).pending := by
  by_cases ended : session.rings.eof = true
  · obtain ⟨-, lists, delivered⟩ := Session.read_lists console inside call
    have eof : session.rings.lists.eof = true := ended
    simp only [readLine, if_pos eof, List.append_nil] at lists delivered
    have same : (session.read console call).rings.pending = session.rings.pending :=
      congrArg (fun lists : LineBuffer => lists.committed ++ lists.buffer) lists
    rw [delivered, same, Session.takes_ended ended]
    rfl
  · obtain ⟨delivered, committed, buffer⟩ :=
      Session.read_delivers console inside (Bool.eq_false_iff.mpr ended) call
    rw [LineRings.pending, LineRings.pending, delivered, committed, buffer, List.append_assoc,
      ← List.append_assoc (List.take _ _), List.take_append_drop]

theorem Session.Fresh.inside (fresh : session.Fresh) : session.rings.Inside := fresh.edits.inside

theorem Screen.Fresh.accounted {screen : Screen} (fresh : screen.Fresh) :
    screen.Accounted := by
  obtain ⟨fresh, shown⟩ := fresh
  have delivered : screen.delivered = [] := fresh.2.2.2.2.2.2
  have committed := (Circular.contents_eq_nil fresh.inside.committed).mpr
    (fresh.2.2.2.1.trans fresh.2.2.2.2.1.symm)
  have buffer := (Circular.contents_eq_nil fresh.inside.buffer).mpr
    (fresh.2.1.trans fresh.2.2.1.symm)
  rw [Screen.Accounted, shown, delivered, LineRings.pending, committed, buffer]
  rfl

theorem Screen.read_inside (console : Console) {screen : Screen}
    (inside : screen.rings.Inside) (call : ReadCall) : (screen.read console call).rings.Inside :=
  (Session.read_lists console inside call).1

theorem Screen.read_accounted_iff {screen : Screen} (inside : screen.rings.Inside)
    (accounted : screen.Accounted) :
    (screen.read console call).Accounted ↔
      screen.rings.FitsAll (screen.toSession.takes console call) := by
  rw [← LineRings.feedAll_accounts_iff inside _ accounted,
    ← Session.read_pending inside]
  exact Iff.rfl

theorem Screen.accounted_run {screen last : Screen} {calls : List ReadCall}
    (fresh : screen.Fresh) (run : Run (FittingRead console) screen calls last) :
    last.rings.Inside ∧ last.Accounted := by
  apply run.invariant (fun now => now.rings.Inside ∧ now.Accounted)
    ⟨fresh.1.inside, fresh.accounted⟩
  intro mid call next _ before taken
  obtain ⟨inside, accounted⟩ := before
  obtain ⟨fits, rfl⟩ := taken
  exact ⟨Screen.read_inside console inside call,
    (Screen.read_accounted_iff inside accounted).mpr fits⟩

def Session.output (session : Session) : List UInt8 :=
  session.delivered ++ session.rings.committed.contents bufferSize

theorem Session.output_length :
    session.output.length =
      session.delivered.length + (session.rings.committed.contents bufferSize).length :=
  List.length_append

theorem Session.read_output (console : Console) (inside : session.rings.Inside)
    (awake : session.rings.eof = false) (sized : 0 < call.size) :
    session.output <+: (session.read console call).output ∧
      (session.delivered.length < session.output.length →
        session.delivered.length < (session.read console call).delivered.length) ∧
      session.delivered.length ≤ (session.read console call).delivered.length := by
  obtain ⟨delivered, committed, -⟩ := Session.read_delivers console inside awake call
  obtain ⟨-, fed⟩ := LineRings.feedAll_spec inside (session.takes console call)
  have longer : session.rings.committed.contents bufferSize <+:
      (session.rings.feedAll (session.takes console call)).committed.contents bufferSize := by
    have grown := session.rings.lists.feedAll_prefix (session.takes console call)
    rw [← fed] at grown
    exact grown
  have lengths := longer.length_le
  refine ⟨?_, ?_, ?_⟩
  · rw [Session.output, Session.output, delivered, committed, List.append_assoc,
      List.take_append_drop]
    exact (List.prefix_append_right_inj _).mpr longer
  · rw [Session.output_length, delivered, List.length_append, List.length_take]
    omega
  · rw [delivered, List.length_append]
    omega

/-- Each read of some bytes delivers one more of those committed, apart from a first read
that reports the end of the input. -/
theorem Screen.delivered_run {start last : Screen} {calls : List ReadCall}
    (inside : start.rings.Inside) (run : Run (SizedRead console) start calls last) :
    last.rings.Inside ∧ (0 < calls.length → last.rings.eof = false) ∧
      start.output <+: last.output ∧
      min start.output.length (start.delivered.length + (calls.length - 1)) ≤
        last.delivered.length := by
  induction run with
  | nil => exact ⟨inside, fun none => absurd none (lt_irrefl 0), List.prefix_rfl, by simp⟩
  | snoc earlier taken ih =>
      next mid last calls call =>
      obtain ⟨kept, awake, output, enough⟩ := ih
      obtain ⟨sized, rfl⟩ := taken
      obtain ⟨final, lists, delivered⟩ := Session.read_lists console kept call
      have eof : (mid.read console call).rings.eof = false := by
        have ended : (readLine console call.size mid.rings.lists
            (mid.toSession.ready call)).2.2.1.eof = false := readLine_awake _ _ sized
        rw [← lists] at ended
        exact ended
      refine ⟨final, fun _ => eof, ?_⟩
      have outputs := output.length_le
      rw [List.length_append, List.length_singleton, Nat.add_sub_cancel]
      by_cases ended : mid.rings.eof = true
      · -- The end of the input can only wait before the first read.
        have first : calls.length = 0 := by
          by_contra some
          rw [awake (Nat.pos_of_ne_zero some)] at ended
          cases ended
        have waiting : mid.rings.lists.eof = true := ended
        simp only [readLine, if_pos waiting, List.append_nil] at lists delivered
        have committed := congrArg LineBuffer.committed lists
        have same : (mid.read console call).output = mid.output := by
          simp only [Session.output]
          exact congrArg₂ (fun front back => front ++ back) delivered committed
        have length : (mid.read console call).delivered.length = mid.delivered.length :=
          congrArg List.length delivered
        rw [same]
        refine ⟨output, ?_⟩
        omega
      · obtain ⟨longer, more, least⟩ :=
          Session.read_output console kept (Bool.eq_false_iff.mpr ended) sized
        have more : mid.delivered.length < mid.output.length →
          mid.delivered.length < (mid.read console call).delivered.length := more
        have least : mid.delivered.length ≤ (mid.read console call).delivered.length := least
        refine ⟨output.trans longer, ?_⟩
        omega

/-- When no byte is lost: a commit keeps what is pending exactly if there is room for the
line. While all commits find room, the bytes echoed and not erased are those delivered and
pending, and a read leaves it so exactly if its commits find room again. What is committed
is delivered by the reads that follow. -/
theorem commits_keep_iff (console : Console) :
    (∀ rings : LineRings, rings.Inside → (rings.commit.pending = rings.pending ↔ rings.Room)) ∧
    ∀ fresh calls reached, Screen.Fresh fresh →
      Run (FittingRead console) fresh calls reached →
      reached.rings.Inside ∧ reached.Accounted ∧
      (∀ call, (reached.read console call).Accounted ↔
        reached.rings.FitsAll (reached.toSession.takes console call)) ∧
      ∀ later last, Run (SizedRead console) reached later last →
        reached.output.take (reached.delivered.length + (later.length - 1)) <+:
          last.delivered := by
  refine ⟨fun rings inside => LineRings.commit_pending_iff inside, ?_⟩
  intro fresh calls reached start run
  obtain ⟨inside, accounted⟩ := Screen.accounted_run start run
  refine ⟨inside, accounted, fun call => Screen.read_accounted_iff inside accounted, ?_⟩
  intro later last reads
  obtain ⟨-, -, output, enough⟩ := Screen.delivered_run inside reads
  apply List.prefix_of_prefix_length_le ((List.take_prefix _ _).trans output)
    (List.prefix_append _ _)
  rw [List.length_take]
  omega

theorem Screen.read_room {screen : Screen} (inside : screen.rings.Inside)
    (room : (screen.read console call).rings.Room) :
    (readLine console call.size screen.rings.lists
        (screen.toSession.ready call)).2.2.1.committed.length +
      (readLine console call.size screen.rings.lists
        (screen.toSession.ready call)).2.2.1.buffer.length ≤ lineCapacity := by
  obtain ⟨-, lists, -⟩ := Session.read_lists console inside call
  rw [← lists, LineRings.lists, Circular.contents_length, Circular.contents_length]
  exact room

def crowdedScreen : Screen where
  toSession := Session.waiting (List.replicate 200 97 ++ [10] ++ List.replicate 100 98)
  echoed := []

/-- A reader that takes one byte leaves no room for the second line. -/
theorem commit_loses_pending :
    ¬ ∀ console screen call, Screen.Fresh screen →
      (screen.read console call).rings.commit.pending =
        (screen.read console call).rings.pending := by
  intro claim
  have fresh : crowdedScreen.Fresh := ⟨⟨rfl, rfl, rfl, rfl, rfl, rfl, rfl⟩, rfl⟩
  have kept := claim .serialIo crowdedScreen ⟨[], [], 1⟩ fresh
  have inside := Screen.read_inside .serialIo fresh.1.inside ⟨[], [], 1⟩
  have room := Screen.read_room fresh.1.inside ((LineRings.commit_pending_iff inside).mp kept)
  revert room
  decide +kernel

end SysImpl.Kernel
