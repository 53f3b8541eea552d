import Mathlib.Logic.Relation
import SysImpl.Kernel.LineRings
import SysImpl.Kernel.Polls

/-! Polls of a line-buffered device, and what a reader can see of them.

A poll is a read of no bytes. It edits and commits what waits in the device, as every
read does, and so a device that has been polled is some bytes ahead of one that has not. -/

namespace SysImpl.Kernel

open Relation

structure Port where
  line : LineBuffer
  queue : List UInt8

def LineBuffer.putAll (line : LineBuffer) (typed : List UInt8) : LineBuffer :=
  typed.foldl (fun line ch => line.put (newline ch)) line

/-- A `C-d` with something to commit has no newline, carriage return or `C-d` waiting behind
it. -/
def Port.LastControl (p : Port) : Prop :=
  ∀ typed behind : List UInt8, p.queue = typed ++ 4 :: behind → 4 ∉ typed →
    ¬ ((p.line.putAll typed).buffer = [] ∧ (p.line.putAll typed).committed = []) →
    ∀ ch ∈ behind, newline ch ≠ 10 ∧ ch ≠ 4

def Console.irq : Console → UInt8 → Irq
  | .serialIo, ch => .byte ch
  | .vgaText, ch => .key ch

/-- What a device with room stores of it. -/
def Console.stores : Console → UInt8 → List UInt8
  | .serialIo, ch => [ch]
  | .vgaText, ch => if 0 < ch then [ch] else []

structure Terminal where
  rings : LineRings
  hw : Hardware

/-- What happens to the device, in order. A byte that comes in while a read runs counts as
before the read if the read takes it, and as after it otherwise. -/
inductive DeviceEvent where
  | arrives (ch : UInt8)
  | read (size : Nat)
  deriving DecidableEq, Repr

def DeviceEvent.kept : DeviceEvent → Bool
  | .arrives _ => true
  | .read size => size != 0

namespace Terminal

variable (console : Console)

def arrives (t : Terminal) (ch : UInt8) : Terminal :=
  { t with hw := (console.irq ch).apply t.hw }

def HasRoom (t : Terminal) (ch : UInt8) : Prop :=
  console = .vgaText → 0 < ch → t.hw.kbd.length < kbdCapacity

def read (t : Terminal) (size : Nat) : Terminal :=
  ⟨(t.rings.read console size t.hw).2.2.1, (t.rings.read console size t.hw).2.2.2⟩

def results : List DeviceEvent → Terminal → List (Int × List UInt8)
  | [], _ => []
  | .arrives ch :: events, t => results events (t.arrives console ch)
  | .read size :: events, t =>
      if size = 0 then results events (t.read console size)
      else
        ((t.rings.read console size t.hw).1, (t.rings.read console size t.hw).2.1) ::
          results events (t.read console size)

/-- The bytes delivered, with a mark at every end of file. -/
def stream (results : List (Int × List UInt8)) : List (Option UInt8) :=
  results.flatMap fun result => if result.1 = 0 then [none] else result.2.map some

def port (t : Terminal) : Port := ⟨t.rings.lists, t.hw.queue console⟩

/-- No key is dropped in a run, and every read starts with `LastControl`. -/
def Calm : List DeviceEvent → Terminal → Prop
  | [], _ => True
  | .arrives ch :: events, t => t.HasRoom console ch ∧ Calm events (t.arrives console ch)
  | .read size :: events, t => (t.port console).LastControl ∧ Calm events (t.read console size)

end Terminal

inductive Scan where
  | ended (line : LineBuffer) (rest : List UInt8)
  | stopped (line : LineBuffer) (rest : List UInt8)
  | drained (line : LineBuffer)

def scan (line : LineBuffer) : List UInt8 → Scan
  | [] => .drained line
  | ch :: rest =>
      if newline ch = 4 then
        if line.buffer = [] ∧ line.committed = [] then .ended line rest
        else .stopped line.commit rest
      else scan (line.put (newline ch)) rest

def Port.deliver (p : Port) (size : Nat) : Int × List UInt8 × Port :=
  if p.line.committed = [] then (eagain, [], p)
  else
    ((p.line.committed.take size).length, p.line.committed.take size,
      { p with line := { p.line with committed := p.line.committed.drop size } })

def Port.read (p : Port) (size : Nat) : Int × List UInt8 × Port :=
  if p.line.eof then (0, [], { p with line := { p.line with eof := size == 0 } })
  else
    match scan p.line p.queue with
    | .ended line rest => (0, [], ⟨{ line with eof := size == 0 }, rest⟩)
    | .stopped line rest => Port.deliver ⟨line, rest⟩ size
    | .drained line => Port.deliver ⟨line, []⟩ size

section Refinement

variable {console : Console} {hw : Hardware}

theorem setQueue_own (queue : List UInt8) : (hw.setQueue queue console).queue console = queue := by
  rw [setQueue_queue, if_pos rfl]

theorem setQueue_setQueue (first second : List UInt8) :
    (hw.setQueue first console).setQueue second console = hw.setQueue second console := by
  cases console <;> rfl

theorem setQueue_same : hw.setQueue (hw.queue console) console = hw := by
  cases console <;> rfl

theorem fillBuffer_scan (size fuel : Nat) (line : LineBuffer) (settled : hw.incoming = [])
    (enough : (hw.queue console).length < fuel) :
    fillBuffer console size fuel line hw =
      match scan line (hw.queue console) with
      | .ended line rest => .endOfFile { line with eof := size == 0 } (hw.setQueue rest console)
      | .stopped line rest => .filled line (hw.setQueue rest console)
      | .drained line => .filled line (hw.setQueue [] console) := by
  induction fuel generalizing line hw with
  | zero => exact absurd enough (Nat.not_lt_zero _)
  | succ fuel ih =>
      have still : hw.arrive = hw := by simp only [Hardware.arrive, settled]
      cases waiting : hw.queue console with
      | nil =>
          have got : hw.getc console = (none, hw) := by
            simp only [Hardware.getc, still, waiting]
          simp only [fillBuffer, got, scan]
          rw [← waiting, setQueue_same]
      | cons ch rest =>
          have got : hw.getc console = (some (newline ch), hw.setQueue rest console) := by
            simp only [Hardware.getc, still, waiting]
          simp only [fillBuffer, got, scan]
          by_cases control : newline ch = 4
          · simp only [if_pos control]
            by_cases idle : line.buffer = [] ∧ line.committed = []
            · simp only [if_pos idle]
            · simp only [if_neg idle]
          · simp only [if_neg control]
            have later := ih (line.put (newline ch)) ((setQueue_incoming rest console).trans settled)
              (by rw [waiting, List.length_cons] at enough
                  rw [setQueue_own]
                  omega)
            rw [later, setQueue_own]
            simp only [setQueue_setQueue]

structure Terminal.Steady (t : Terminal) : Prop where
  inside : t.rings.Inside
  settled : t.hw.incoming = []

variable {t : Terminal}

theorem Terminal.Steady.arrives (steady : t.Steady) (ch : UInt8) :
    (t.arrives console ch).Steady :=
  ⟨steady.inside, (apply_incoming _).trans steady.settled⟩

theorem Terminal.arrives_port {ch : UInt8} (room : t.HasRoom console ch) :
    (t.arrives console ch).port console =
      { t.port console with queue := (t.port console).queue ++ console.stores ch } := by
  cases console with
  | serialIo => rfl
  | vgaText =>
      have room : 0 < ch → t.hw.kbd.length < kbdCapacity := room rfl
      by_cases typed : 0 < ch
      · simp only [Terminal.port, Terminal.arrives, Console.irq, Irq.apply, Console.stores,
          if_pos typed, if_pos (And.intro typed (room typed))]
        rfl
      · simp only [Terminal.port, Terminal.arrives, Console.irq, Irq.apply, Console.stores,
          if_neg typed, if_neg (fun both : 0 < ch ∧ _ => typed both.1), List.append_nil]

theorem readLine_port (console : Console) (size : Nat) (line : LineBuffer) (settled : hw.incoming = []) :
    ∃ after, readLine console size line hw =
      ((Port.read ⟨line, hw.queue console⟩ size).1, (Port.read ⟨line, hw.queue console⟩ size).2.1,
        (Port.read ⟨line, hw.queue console⟩ size).2.2.line, after) ∧
      after.queue console = (Port.read ⟨line, hw.queue console⟩ size).2.2.queue ∧
      after.incoming = [] := by
  have enough : (hw.queue console).length < hw.roundsLeft console := by
    simp only [Hardware.roundsLeft]
    omega
  simp only [readLine, Port.read]
  by_cases ended : line.eof
  · simp only [if_pos ended]
    exact ⟨hw, rfl, rfl, settled⟩
  simp only [if_neg ended, fillBuffer_scan size _ line settled enough]
  cases scan line (hw.queue console) with
  | ended after rest =>
      exact ⟨_, rfl, setQueue_own rest, (setQueue_incoming rest console).trans settled⟩
  | stopped after rest =>
      simp only [Port.deliver]
      by_cases none : after.committed = []
      · simp only [if_pos none]
        exact ⟨_, rfl, setQueue_own rest, (setQueue_incoming rest console).trans settled⟩
      · simp only [if_neg none]
        exact ⟨_, rfl, setQueue_own rest, (setQueue_incoming rest console).trans settled⟩
  | drained after =>
      simp only [Port.deliver]
      by_cases none : after.committed = []
      · simp only [if_pos none]
        exact ⟨_, rfl, setQueue_own [], (setQueue_incoming [] console).trans settled⟩
      · simp only [if_neg none]
        exact ⟨_, rfl, setQueue_own [], (setQueue_incoming [] console).trans settled⟩

theorem Terminal.Steady.read (steady : t.Steady) (console : Console) (size : Nat) :
    (t.read console size).Steady ∧
      (t.read console size).port console = ((t.port console).read size).2.2 ∧
      (t.rings.read console size t.hw).1 = ((t.port console).read size).1 ∧
      (t.rings.read console size t.hw).2.1 = ((t.port console).read size).2.1 := by
  obtain ⟨inside, onLists⟩ := LineRings.read_spec console size steady.inside t.hw
  obtain ⟨after, onPort, queue, settled⟩ :=
    readLine_port console size t.rings.lists steady.settled
  rw [onLists] at onPort
  simp only [Prod.mk.injEq] at onPort
  obtain ⟨ret, bytes, line, rfl⟩ := onPort
  refine ⟨⟨inside, settled⟩, ?_, ret, bytes⟩
  simp only [Terminal.port, Terminal.read, line, queue]

end Refinement

inductive Port.Step : Port → Port → Prop
  | put {line : LineBuffer} {ch : UInt8} (rest : List UInt8) (awake : line.eof = false)
      (plain : newline ch ≠ 4) : Port.Step ⟨line, ch :: rest⟩ ⟨line.put (newline ch), rest⟩
  | ended {line : LineBuffer} {ch : UInt8} (rest : List UInt8) (awake : line.eof = false)
      (control : newline ch = 4) (idle : line.buffer = [] ∧ line.committed = []) :
      Port.Step ⟨line, ch :: rest⟩ ⟨{ line with eof := true }, rest⟩
  | stopped {line : LineBuffer} {ch : UInt8} (rest : List UInt8) (awake : line.eof = false)
      (control : newline ch = 4) (some : ¬ (line.buffer = [] ∧ line.committed = [])) :
      Port.Step ⟨line, ch :: rest⟩ ⟨line.commit, rest⟩

/-- The second port is some bytes ahead of the first. -/
def Port.Ahead : Port → Port → Prop := ReflTransGen Port.Step

variable {p u : Port}

theorem Port.Step.arrives (step : Port.Step u p) (more : List UInt8) :
    Port.Step { u with queue := u.queue ++ more } { p with queue := p.queue ++ more } := by
  cases step with
  | put rest awake plain => exact Port.Step.put (rest ++ more) awake plain
  | ended rest awake control idle => exact Port.Step.ended (rest ++ more) awake control idle
  | stopped rest awake control some => exact Port.Step.stopped (rest ++ more) awake control some

theorem Port.Ahead.arrives (ahead : Port.Ahead u p) (more : List UInt8) :
    Port.Ahead { u with queue := u.queue ++ more } { p with queue := p.queue ++ more } := by
  induction ahead with
  | refl => exact ReflTransGen.refl
  | tail _ step ih => exact ReflTransGen.tail ih (step.arrives more)

theorem Port.Ahead.length_le (ahead : Port.Ahead u p) : p.queue.length ≤ u.queue.length := by
  induction ahead with
  | refl => exact Nat.le_refl _
  | tail _ step ih =>
      cases step with
      | _ => exact Nat.le_trans (Nat.le_succ _) ih

theorem Terminal.HasRoom.ahead {console : Console} {t fast : Terminal} {ch : UInt8}
    (room : t.HasRoom console ch) (ahead : Port.Ahead (t.port console) (fast.port console)) :
    fast.HasRoom console ch := by
  intro vga typed
  subst vga
  exact Nat.lt_of_le_of_lt ahead.length_le (room rfl typed)

theorem Port.deliver_none (p : Port) : (p.deliver 0).2.2 = p := by
  simp only [Port.deliver]
  by_cases none : p.line.committed = []
  · rw [if_pos none]
  · rw [if_neg none]
    rfl

/-- A poll only takes in bytes. -/
theorem Port.ahead_poll (p : Port) : Port.Ahead p (p.read 0).2.2 := by
  obtain ⟨line, queue⟩ := p
  simp only [Port.read]
  by_cases ended : line.eof
  · simp only [if_pos ended]
    have same : ({ line with eof := (0 : Nat) == 0 } : LineBuffer) = line := by
      cases line
      simp only at ended
      rw [ended]
      rfl
    rw [same]
    exact ReflTransGen.refl
  simp only [if_neg ended]
  have awake : line.eof = false := Bool.eq_false_iff.mpr ended
  clear ended
  induction queue generalizing line with
  | nil =>
      simp only [scan, Port.deliver_none]
      exact ReflTransGen.refl
  | cons ch rest ih =>
      simp only [scan]
      by_cases control : newline ch = 4
      · simp only [if_pos control]
        by_cases idle : line.buffer = [] ∧ line.committed = []
        · simp only [if_pos idle]
          exact ReflTransGen.single (Port.Step.ended rest awake control idle)
        · simp only [if_neg idle, Port.deliver_none]
          exact ReflTransGen.single (Port.Step.stopped rest awake control idle)
      · simp only [if_neg control]
        exact ReflTransGen.head (Port.Step.put rest awake control)
          (ih (line.put (newline ch)) ((put_eof line _).trans awake))

@[simp] theorem putAll_cons (line : LineBuffer) (ch : UInt8) (typed : List UInt8) :
    line.putAll (ch :: typed) = (line.put (newline ch)).putAll typed := rfl

@[simp] theorem putAll_eof (line : LineBuffer) (typed : List UInt8) :
    (line.putAll typed).eof = line.eof := by
  induction typed generalizing line with
  | nil => rfl
  | cons ch typed ih => rw [putAll_cons, ih, put_eof]

theorem newline_control {ch : UInt8} : newline ch = 4 ↔ ch = 4 := by
  simp only [newline]
  split_ifs with carriage
  · rw [carriage]
    decide
  · rfl

def Quiet (ch : UInt8) : Prop := newline ch ≠ 10 ∧ ch ≠ 4

/-- A byte that is no newline leaves what is committed alone, and does not look at it. -/
theorem put_apart {ch : UInt8} (plain : ch ≠ 10) (line : LineBuffer) (committed : List UInt8) :
    (line.put ch).committed = line.committed ∧
      ({ line with committed := committed } : LineBuffer).put ch =
        { line.put ch with committed := committed } := by
  simp only [LineBuffer.put, if_neg plain]
  split_ifs <;> exact ⟨rfl, rfl⟩

theorem putAll_apart {typed : List UInt8} (quiet : ∀ ch ∈ typed, Quiet ch) (line : LineBuffer)
    (committed : List UInt8) :
    (line.putAll typed).committed = line.committed ∧
      ({ line with committed := committed } : LineBuffer).putAll typed =
        { line.putAll typed with committed := committed } := by
  induction typed generalizing line with
  | nil => exact ⟨rfl, rfl⟩
  | cons ch typed ih =>
      have plain : newline ch ≠ 10 := (quiet ch List.mem_cons_self).1
      obtain ⟨kept, apart⟩ := put_apart plain line committed
      obtain ⟨keptAll, apartAll⟩ :=
        ih (fun other member => quiet other (List.mem_cons_of_mem _ member)) (line.put (newline ch))
      simp only [putAll_cons]
      exact ⟨keptAll.trans kept, by rw [apart, apartAll]⟩

theorem scan_quiet {queue : List UInt8} (quiet : ∀ ch ∈ queue, Quiet ch) (line : LineBuffer) :
    scan line queue = .drained (line.putAll queue) := by
  induction queue generalizing line with
  | nil => rfl
  | cons ch rest ih =>
      have plain : newline ch ≠ 4 := fun control =>
        (quiet ch List.mem_cons_self).2 (newline_control.mp control)
      simp only [scan, if_neg plain, putAll_cons]
      exact ih (fun other member => quiet other (List.mem_cons_of_mem _ member)) _

theorem ahead_quiet {queue : List UInt8} (quiet : ∀ ch ∈ queue, Quiet ch) {line : LineBuffer}
    (awake : line.eof = false) : Port.Ahead ⟨line, queue⟩ ⟨line.putAll queue, []⟩ := by
  induction queue generalizing line with
  | nil => exact ReflTransGen.refl
  | cons ch rest ih =>
      have plain : newline ch ≠ 4 := fun control =>
        (quiet ch List.mem_cons_self).2 (newline_control.mp control)
      exact ReflTransGen.head (Port.Step.put rest awake plain)
        (ih (fun other member => quiet other (List.mem_cons_of_mem _ member))
          ((put_eof line _).trans awake))

theorem Port.Ahead.quiet {line : LineBuffer} {queue : List UInt8}
    (ahead : Port.Ahead ⟨line, queue⟩ p) (quiet : ∀ ch ∈ queue, Quiet ch) :
    ∃ taken left, queue = taken ++ left ∧ p = ⟨line.putAll taken, left⟩ := by
  induction queue generalizing line with
  | nil =>
      rcases ReflTransGen.cases_head ahead with same | ⟨next, step, _⟩
      · exact ⟨[], [], rfl, same.symm⟩
      · cases step
  | cons ch rest ih =>
      rcases ReflTransGen.cases_head ahead with same | ⟨next, step, later⟩
      · exact ⟨[], ch :: rest, rfl, same.symm⟩
      · have plain : newline ch ≠ 4 := fun control =>
          (quiet ch List.mem_cons_self).2 (newline_control.mp control)
        cases step with
        | put _ awake _ =>
            obtain ⟨taken, left, split, rfl⟩ :=
              ih later fun other member => quiet other (List.mem_cons_of_mem _ member)
            exact ⟨ch :: taken, left, by rw [split]; rfl, rfl⟩
        | ended _ _ control _ => exact absurd control plain
        | stopped _ _ control _ => exact absurd control plain

theorem Port.Ahead.ended (ahead : Port.Ahead u p) (ended : u.line.eof = true) : p = u := by
  rcases ReflTransGen.cases_head ahead with same | ⟨next, step, _⟩
  · exact same.symm
  · cases step with
    | put _ awake _ => exact absurd (ended.symm.trans awake) (by decide)
    | ended _ awake _ _ => exact absurd (ended.symm.trans awake) (by decide)
    | stopped _ awake _ _ => exact absurd (ended.symm.trans awake) (by decide)

def Port.SameRead (size : Nat) (u p : Port) : Prop :=
  (p.read size).1 = (u.read size).1 ∧ (p.read size).2.1 = (u.read size).2.1 ∧
    Port.Ahead (u.read size).2.2 (p.read size).2.2

theorem Port.SameRead.of_eq {size : Nat} (same : p.read size = u.read size) :
    Port.SameRead size u p := by
  simp only [Port.SameRead, same]
  exact ⟨trivial, trivial, ReflTransGen.refl⟩

theorem Port.read_put {line : LineBuffer} {ch : UInt8} (rest : List UInt8)
    (awake : line.eof = false) (plain : newline ch ≠ 4) (size : Nat) :
    Port.read ⟨line, ch :: rest⟩ size = Port.read ⟨line.put (newline ch), rest⟩ size := by
  simp only [Port.read, put_eof, awake, scan, if_neg plain, Bool.false_eq_true, if_false]

theorem Port.read_ended {line : LineBuffer} {ch : UInt8} (rest : List UInt8)
    (awake : line.eof = false) (control : newline ch = 4)
    (idle : line.buffer = [] ∧ line.committed = []) (size : Nat) :
    Port.read ⟨{ line with eof := true }, rest⟩ size = Port.read ⟨line, ch :: rest⟩ size := by
  simp [Port.read, awake, scan, control, idle]

theorem Port.read_stopped {line : LineBuffer} {ch : UInt8} {rest : List UInt8}
    (awake : line.eof = false) (control : newline ch = 4)
    (some : ¬ (line.buffer = [] ∧ line.committed = [])) (quiet : ∀ ch ∈ rest, Quiet ch)
    (ahead : Port.Ahead ⟨line.commit, rest⟩ p) (size : Nat) :
    Port.SameRead size ⟨line, ch :: rest⟩ p := by
  obtain ⟨taken, left, rfl, rfl⟩ := ahead.quiet quiet
  have quietLeft : ∀ ch ∈ left, Quiet ch := fun ch member =>
    quiet ch (List.mem_append_right taken member)
  have whole : (line.commit.putAll taken).putAll left = line.commit.putAll (taken ++ left) := by
    simp only [LineBuffer.putAll, List.foldl_append]
  obtain ⟨kept, apart⟩ := putAll_apart quiet line.commit (line.commit.committed.drop size)
  have awakeThen : line.commit.eof = false := awake
  have commits := commit_some some
  have slow : Port.read ⟨line, ch :: (taken ++ left)⟩ size =
      Port.deliver ⟨line.commit, taken ++ left⟩ size := by
    simp [Port.read, awake, scan, control, some]
  have fast : Port.read ⟨line.commit.putAll taken, left⟩ size =
      Port.deliver ⟨line.commit.putAll (taken ++ left), []⟩ size := by
    simp only [Port.read, putAll_eof, awakeThen, scan_quiet quietLeft, whole]
    rfl
  simp only [Port.SameRead, slow, fast, Port.deliver, kept, if_neg commits]
  refine ⟨trivial, trivial, ?_⟩
  rw [← apart]
  exact ahead_quiet quiet awake

theorem Port.Ahead.read (ahead : Port.Ahead u p) (awake : u.line.eof = false)
    (last : u.LastControl) (size : Nat) : Port.SameRead size u p := by
  induction ahead using ReflTransGen.head_induction_on with
  | refl => exact Port.SameRead.of_eq rfl
  | head step later ih =>
      cases step with
      | @put line ch rest _ plain =>
          have lastThen : Port.LastControl ⟨line.put (newline ch), rest⟩ := by
            intro typed behind split absent
            refine last (ch :: typed) behind (congrArg (List.cons ch) split) ?_
            intro member
            rcases List.mem_cons.mp member with same | member
            · exact plain (newline_control.mpr same.symm)
            · exact absent member
          have same := ih ((put_eof line _).trans awake) lastThen
          simp only [Port.SameRead, Port.read_put rest awake plain]
          exact same
      | ended rest _ control idle =>
          rw [Port.Ahead.ended later rfl]
          exact Port.SameRead.of_eq (Port.read_ended rest awake control idle size)
      | @stopped line ch rest _ control some =>
          have quiet : ∀ ch ∈ rest, Quiet ch := by
            refine last [] rest ?_ List.not_mem_nil some
            rw [newline_control.mp control]
            rfl
          exact Port.read_stopped awake control some quiet later size

theorem Port.read_awake (p : Port) {size : Nat} (sized : size ≠ 0) :
    (p.read size).2.2.line.eof = false := by
  have reset : (size == 0) = false := beq_eq_false_iff_ne.mpr sized
  have delivers (q : Port) : (q.deliver size).2.2.line.eof = q.line.eof := by
    simp only [Port.deliver]
    split_ifs <;> rfl
  have scans (line : LineBuffer) (queue : List UInt8) : line.eof = false →
      match scan line queue with
      | .ended _ _ => True
      | .stopped line _ => line.eof = false
      | .drained line => line.eof = false := by
    intro awake
    induction queue generalizing line with
    | nil => exact awake
    | cons ch rest ih =>
        simp only [scan]
        split_ifs
        · trivial
        · exact awake
        · exact ih _ ((put_eof line _).trans awake)
  simp only [Port.read]
  by_cases ended : p.line.eof
  · simp only [if_pos ended, reset]
  · simp only [if_neg ended]
    have scanned := scans p.line p.queue (Bool.eq_false_iff.mpr ended)
    cases left : scan p.line p.queue with
    | ended line rest => exact reset
    | stopped line rest =>
        rw [left] at scanned
        exact (delivers ⟨line, rest⟩).trans scanned
    | drained line =>
        rw [left] at scanned
        exact (delivers ⟨line, []⟩).trans scanned

section Runs

variable {console : Console}

/-- A device that is ahead shows the same in a run with polls as one without them. -/
theorem results_ahead {t fast : Terminal} (steady : t.Steady) (steadyFast : fast.Steady)
    (awake : t.rings.eof = false) (ahead : Port.Ahead (t.port console) (fast.port console))
    (events : List DeviceEvent) (calm : Terminal.Calm console (events.filter DeviceEvent.kept) t) :
    Terminal.results console events fast =
      Terminal.results console (events.filter DeviceEvent.kept) t := by
  induction events generalizing t fast with
  | nil => rfl
  | cons event events ih =>
      cases event with
      | arrives ch =>
          obtain ⟨room, calmThen⟩ := calm
          refine ih (steady.arrives ch) (steadyFast.arrives ch) awake ?_ calmThen
          rw [Terminal.arrives_port room, Terminal.arrives_port (room.ahead ahead)]
          exact ahead.arrives _
      | read size =>
          obtain ⟨steadyThen, portFast, retFast, bytesFast⟩ := steadyFast.read console size
          by_cases poll : size = 0
          · subst poll
            refine ih steady steadyThen awake ?_ calm
            rw [portFast]
            exact ReflTransGen.trans ahead (Port.ahead_poll _)
          · have kept : (DeviceEvent.read size :: events).filter DeviceEvent.kept =
                DeviceEvent.read size :: events.filter DeviceEvent.kept :=
              List.filter_cons_of_pos (bne_iff_ne.mpr poll)
            rw [kept] at calm ⊢
            obtain ⟨last, calmThen⟩ := calm
            obtain ⟨steadySlow, port, ret, bytes⟩ := steady.read console size
            obtain ⟨sameRet, sameBytes, aheadThen⟩ := ahead.read awake last size
            have awakeThen : (t.read console size).rings.eof = false := by
              have reset := Port.read_awake (t.port console) poll
              rw [← port] at reset
              exact reset
            simp only [Terminal.results, if_neg poll]
            rw [retFast, bytesFast, ret, bytes, sameRet, sameBytes]
            refine congrArg _ (ih steadySlow steadyThen awakeThen ?_ calmThen)
            rw [port, portFast]
            exact aheadThen

/-- Polls put anywhere into a run change neither the bytes that the sized reads deliver nor
where an end of file stands among them, if the run without polls drops no key and no read of it
leaves a newline or a `C-d` behind a `C-d` that it commits at. -/
theorem polls_unseen {t : Terminal} (inside : t.rings.Inside) (awake : t.rings.eof = false)
    (settled : t.hw.incoming = []) {events polled : List DeviceEvent}
    (inserted : polled.filter DeviceEvent.kept = events) (calm : Terminal.Calm console events t) :
    Terminal.stream (Terminal.results console polled t) =
      Terminal.stream (Terminal.results console events t) := by
  subst inserted
  rw [results_ahead ⟨inside, settled⟩ ⟨inside, settled⟩ awake ReflTransGen.refl polled calm]

end Runs

def Terminal.made : Terminal :=
  ⟨⟨false, ⟨fun _ => 0, 0, 0⟩, ⟨fun _ => 0, 0, 0⟩⟩, ⟨0, 0, [], [], []⟩⟩

def endedLine : List DeviceEvent :=
  [.arrives 97, .arrives 4, .read 10, .arrives 4, .read 10]

theorem polls_unseen_ended :
    Terminal.stream (Terminal.results .serialIo
        [.arrives 97, .arrives 4, .read 0, .read 0, .read 10, .arrives 4, .read 0, .read 10]
        Terminal.made) =
      Terminal.stream (Terminal.results .serialIo endedLine Terminal.made) := by
  have calm : Terminal.Calm .serialIo endedLine Terminal.made := by
    have room (t : Terminal) (ch : UInt8) : t.HasRoom .serialIo ch := by
      intro vga
      cases vga
    refine ⟨room _ _, room _ _, ?_, room _ _, ?_, trivial⟩
    · intro typed behind split absent _
      have split : [97, 4] = typed ++ 4 :: behind := split
      rcases typed with _ | ⟨first, _ | ⟨second, typed⟩⟩
      · simp at split
      · simp at split
        simp [split.2]
      · simp at split
    · intro typed behind split absent _
      have split : [4] = typed ++ 4 :: behind := split
      rcases typed with _ | ⟨first, typed⟩
      · simp at split
        simp [split]
      · simp at split
  exact polls_unseen ⟨⟨by decide, by decide⟩, ⟨by decide, by decide⟩⟩ rfl rfl rfl calm

/-- Two polls commit the second `C-d` before the line is read, and the end of file is lost. -/
theorem polls_lose_eof :
    [DeviceEvent.arrives 97, .arrives 4, .arrives 4, .read 0, .read 0, .read 10,
        .read 10].filter DeviceEvent.kept =
      [.arrives 97, .arrives 4, .arrives 4, .read 10, .read 10] ∧
    Terminal.stream (Terminal.results .serialIo
      [.arrives 97, .arrives 4, .arrives 4, .read 10, .read 10] Terminal.made) =
        [some 97, none] ∧
    Terminal.stream (Terminal.results .serialIo
      [.arrives 97, .arrives 4, .arrives 4, .read 0, .read 0, .read 10, .read 10]
        Terminal.made) = [some 97] := by
  decide +kernel

end SysImpl.Kernel
