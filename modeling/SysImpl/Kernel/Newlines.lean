import SysImpl.Kernel.Commits

/-! Which newlines complete a line.

The branch of `read` that stores a newline asks for room in the ring of the line first, as it
does for any other byte. After 255 bytes a newline is dropped and nothing is committed. -/

namespace SysImpl.Kernel

open Rings Runs

variable (console : Console)

def AnyRead (session : Session) (call : ReadCall) (after : Session) : Prop :=
  after = session.read console call

def Session.outcome (session : Session) (call : ReadCall) :
    Int × List UInt8 × LineRings × Hardware :=
  session.rings.read console call.size (session.ready call)

/-- The read makes a line readable with its newline: it stores the first bytes of it and
leaves the others in the second ring, and it does not return `-EAGAIN`. -/
structure Session.Completes (session : Session) (call : ReadCall) (line : List UInt8) : Prop where
  awake : (session.outcome console call).1 ≠ eagain
  readable : line ++ [10] <+: (session.outcome console call).2.1 ++
    (session.outcome console call).2.2.1.committed.contents bufferSize

variable {console} {session : Session} {call : ReadCall} {rings : LineRings}

theorem any_inside {fresh : Session} {calls : List ReadCall} (start : fresh.Fresh)
    (run : Run (AnyRead console) fresh calls session) : session.rings.Inside := by
  apply run.invariant (fun now => now.rings.Inside) start.inside
  intro mid call next _ inside taken
  rw [taken]
  exact (Session.read_lists console inside call).1

theorem readLine_readable {line : LineBuffer} (size : Nat) (hw : Hardware)
    (awake : line.eof = false)
    (some : ((takenBytes console (hw.roundsLeft console) hw).foldl LineBuffer.feed
      line).committed ≠ []) :
    (readLine console size line hw).1 ≠ eagain := by
  obtain ⟨-, committed⟩ := fillBuffer_feeds console line size (hw.roundsLeft console) hw
  rw [← committed] at some
  have ended : ¬ line.eof = true := by rw [awake]; decide
  rw [readLine, if_neg ended]
  cases left : fillBuffer console size (hw.roundsLeft console) line hw with
  | endOfFile after rest => exact zero_ne_eagain
  | filled after rest =>
      rw [left] at some
      have waiting : ¬ after.committed = [] := some
      simp only [if_neg waiting]
      exact natCast_ne_eagain _

theorem Session.outcome_readable (inside : session.rings.Inside)
    (awake : session.rings.eof = false) :
    (session.outcome console call).2.1 ++
        (session.outcome console call).2.2.1.committed.contents bufferSize =
      (session.rings.feedAll (session.takes console call)).committed.contents bufferSize := by
  obtain ⟨delivered, committed, -⟩ := Session.read_delivers console inside awake call
  have stored : (session.outcome console call).2.1 =
      ((session.rings.feedAll (session.takes console call)).committed.contents bufferSize).take
        call.size := List.append_cancel_left delivered
  have left : (session.outcome console call).2.2.1.committed.contents bufferSize =
      ((session.rings.feedAll (session.takes console call)).committed.contents bufferSize).drop
        call.size := committed
  rw [stored, left, List.take_append_drop]

theorem Session.outcome_awake (inside : session.rings.Inside)
    (awake : session.rings.eof = false)
    (some : (session.rings.feedAll (session.takes console call)).committed.contents bufferSize ≠
      []) :
    (session.outcome console call).1 ≠ eagain := by
  obtain ⟨-, same⟩ := LineRings.read_spec console call.size inside (session.ready call)
  obtain ⟨-, fed⟩ := LineRings.feedAll_spec inside (session.takes console call)
  have ended : ¬ session.rings.eof = true := by rw [awake]; decide
  rw [Session.takes, if_neg ended] at fed some
  have committed := congrArg LineBuffer.committed fed
  have result : (session.outcome console call).1 =
      (readLine console call.size session.rings.lists (session.ready call)).1 := by
    rw [same]
    rfl
  rw [result]
  apply readLine_readable call.size (session.ready call) awake
  rw [← committed]
  exact some

theorem LineRings.committed_idle (inside : rings.Inside) (none : rings.lists.committed = []) :
    rings.committed.start = rings.committed.stop :=
  (Circular.contents_eq_nil inside.committed).mp none

theorem LineRings.feed_newline (inside : rings.Inside)
    (empty : rings.committed.start = rings.committed.stop)
    (room : rings.buffer.count bufferSize < lineCapacity) :
    (rings.feed 10).committed.contents bufferSize = rings.buffer.contents bufferSize ++ [10] := by
  obtain ⟨-, fed⟩ := feed_spec inside 10
  have committed := congrArg LineBuffer.committed fed
  have none : rings.lists.committed = [] :=
    (Circular.contents_eq_nil inside.committed).mpr empty
  have short : rings.lists.buffer.length < lineCapacity := by
    rw [lists, Circular.contents_length]
    exact room
  have whole : (rings.lists.buffer ++ [10]).length ≤ lineCapacity := by
    rw [List.length_append, List.length_singleton]
    exact short
  have low : ¬ (128 : UInt8) ≤ 10 := by decide
  have control : ¬ (10 : UInt8) = 4 := by decide
  have back : ¬ (10 : UInt8) = 8 := by decide
  rw [LineBuffer.feed, if_neg control, LineBuffer.put, if_neg low, if_neg back, if_pos short,
    if_pos rfl, LineBuffer.commit, none, List.nil_append, List.length_nil, Nat.sub_zero,
    List.take_of_length_le whole] at committed
  exact committed

theorem LineRings.feedAll_append (rings : LineRings) (bytes rest : List UInt8) :
    rings.feedAll (bytes ++ rest) = (rings.feedAll bytes).feedAll rest :=
  List.foldl_append

theorem LineRings.committed_short (inside : rings.Inside) :
    (rings.committed.contents bufferSize).length ≤ lineCapacity := by
  rw [Circular.contents_length]
  exact Nat.le_of_lt_succ (Circular.count_lt inside.committed)

theorem Session.completes_iff {typed rest : List UInt8} (inside : session.rings.Inside)
    (takes : session.takes console call = typed ++ 10 :: rest)
    (empty : (session.rings.feedAll typed).committed.start =
      (session.rings.feedAll typed).committed.stop) :
    session.Completes console call ((session.rings.feedAll typed).buffer.contents bufferSize) ↔
      (session.rings.feedAll typed).buffer.count bufferSize < lineCapacity := by
  have awake : session.rings.eof = false := by
    by_contra ended
    rw [Session.takes_ended (Bool.not_eq_false _ ▸ ended)] at takes
    exact List.append_ne_nil_of_right_ne_nil typed (List.cons_ne_nil 10 rest) takes.symm
  obtain ⟨before, -⟩ := LineRings.feedAll_spec inside typed
  obtain ⟨after, -⟩ := LineRings.feedAll_spec inside (session.takes console call)
  constructor
  · intro completes
    have longer := completes.readable.length_le
    rw [Session.outcome_readable inside awake, List.length_append, List.length_singleton,
      Circular.contents_length] at longer
    have short := LineRings.committed_short after
    omega
  · intro room
    have line := LineRings.feed_newline before empty room
    obtain ⟨typedInside, -⟩ := LineRings.feed_spec before 10
    obtain ⟨-, fed⟩ := LineRings.feedAll_spec typedInside rest
    have kept := ((session.rings.feedAll typed).feed 10).lists.feedAll_prefix rest
    rw [← fed] at kept
    have readable : (session.rings.feedAll typed).buffer.contents bufferSize ++ [10] <+:
        (session.rings.feedAll (session.takes console call)).committed.contents bufferSize := by
      rw [takes, LineRings.feedAll_append, ← line]
      exact kept
    refine ⟨Session.outcome_awake inside awake ?_, ?_⟩
    · intro none
      rw [none] at readable
      exact List.append_ne_nil_of_right_ne_nil _ (List.cons_ne_nil 10 [])
        (List.prefix_nil.mp readable)
    · rw [Session.outcome_readable inside awake]
      exact readable

/-- When a newline completes a line: of the newlines that find the second ring empty, in any
read after any others, exactly those complete their line that fewer than 255 bytes are typed
before. -/
theorem newline_completes_iff (console : Console) {fresh session : Session}
    {calls : List ReadCall} (start : fresh.Fresh)
    (run : Run (AnyRead console) fresh calls session) {call : ReadCall}
    {typed rest : List UInt8} (takes : session.takes console call = typed ++ 10 :: rest)
    (empty : (session.rings.feedAll typed).committed.start =
      (session.rings.feedAll typed).committed.stop) :
    session.Completes console call ((session.rings.feedAll typed).buffer.contents bufferSize) ↔
      (session.rings.feedAll typed).buffer.count bufferSize < lineCapacity :=
  Session.completes_iff (any_inside start run) takes empty

theorem newline_completes_short :
    (Session.waiting [97, 98, 10]).Completes .serialIo ⟨[], [], 1⟩
      (((Session.waiting [97, 98, 10]).rings.feedAll [97, 98]).buffer.contents bufferSize) := by
  have takes : (Session.waiting [97, 98, 10]).takes .serialIo ⟨[], [], 1⟩ =
      [97, 98] ++ 10 :: [] := by decide +kernel
  exact (newline_completes_iff .serialIo ⟨rfl, rfl, rfl, rfl, rfl, rfl, rfl⟩ (Run.nil _) takes
    (by decide +kernel)).mpr (by decide +kernel)

def longLine : Session := Session.waiting (List.replicate 255 97 ++ [10])

/-- The newline of a line of 255 bytes is dropped, and the read returns `-EAGAIN`. -/
theorem newline_lost :
    ¬ ∀ console fresh calls session call typed rest, Session.Fresh fresh →
      Run (AnyRead console) fresh calls session →
      session.takes console call = typed ++ 10 :: rest →
      (session.rings.feedAll typed).committed.start =
        (session.rings.feedAll typed).committed.stop →
      session.Completes console call
        ((session.rings.feedAll typed).buffer.contents bufferSize) := by
  intro claim
  have fresh : longLine.Fresh := ⟨rfl, rfl, rfl, rfl, rfl, rfl, rfl⟩
  have takes : longLine.takes .serialIo ⟨[], [], 1⟩ = List.replicate 255 97 ++ 10 :: [] := by
    decide +kernel
  obtain ⟨reached, fed⟩ := LineRings.feedAll_spec fresh.inside (List.replicate 255 97)
  have none : (longLine.rings.feedAll (List.replicate 255 97)).lists.committed = [] := by
    rw [fed]
    decide +kernel
  have completes := claim .serialIo longLine [] longLine ⟨[], [], 1⟩ (List.replicate 255 97) []
    fresh (Run.nil _) takes (LineRings.committed_idle reached none)
  obtain ⟨-, same⟩ :=
    LineRings.read_spec .serialIo 1 fresh.inside (longLine.ready ⟨[], [], 1⟩)
  have result := congrArg Prod.fst same
  apply completes.awake
  rw [Session.outcome, ← result]
  decide +kernel

end SysImpl.Kernel
