import SysImpl.Kernel.Devices

/-! What a poll of an input device tells about the reads after it.

A poll is a read of size 0. For a console and for a semaphore it speaks for every process;
for `ProcessWait` and `SleepDevice` only for the process that is current. -/

namespace SysImpl.Kernel

variable {hw : Hardware}

theorem apply_incoming (irq : Irq) : (irq.apply hw).incoming = hw.incoming := by
  cases irq with
  | tick => rfl
  | key ch =>
      simp only [Irq.apply]
      split
      · rfl
      · rfl
  | byte ch => rfl

theorem interrupts_incoming (irqs : List Irq) : (hw.interrupts irqs).incoming = hw.incoming := by
  induction irqs generalizing hw with
  | nil => rfl
  | cons irq rest ih =>
      calc
        (hw.interrupts (irq :: rest)).incoming = ((irq.apply hw).interrupts rest).incoming := rfl
        _ = (irq.apply hw).incoming := ih
        _ = hw.incoming := apply_incoming irq

theorem interrupts_ticks (irqs : List Irq) :
    (hw.interrupts irqs).pitTicks = hw.pitTicks + irqs.count .tick := by
  induction irqs generalizing hw with
  | nil => rfl
  | cons irq rest ih =>
      have step : (irq.apply hw).pitTicks = hw.pitTicks + [irq].count .tick := by
        cases irq with
        | tick => rfl
        | key ch =>
            simp only [Irq.apply]
            split
            · rfl
            · rfl
        | byte ch => rfl
      calc
        (hw.interrupts (irq :: rest)).pitTicks = ((irq.apply hw).interrupts rest).pitTicks := rfl
        _ = (irq.apply hw).pitTicks + rest.count .tick := ih
        _ = hw.pitTicks + (irq :: rest).count .tick := by
          rw [step, show irq :: rest = [irq] ++ rest from rfl, List.count_append]
          omega

def Irq.byteFor : Console → Irq → Option UInt8
  | .serialIo, .byte ch => some ch
  | .vgaText, .key ch => some ch
  | _, _ => none

theorem apply_queue (irq : Irq) (console : Console) :
    (irq.apply hw).queue console = hw.queue console ∨
      ∃ ch, irq.byteFor console = some ch ∧
        (irq.apply hw).queue console = hw.queue console ++ [ch] := by
  cases irq with
  | tick => exact Or.inl (by cases console with | serialIo => rfl | vgaText => rfl)
  | key ch =>
      simp only [Irq.apply]
      split
      · cases console with
        | serialIo => exact Or.inl rfl
        | vgaText => exact Or.inr ⟨ch, rfl, rfl⟩
      · exact Or.inl rfl
  | byte ch =>
      cases console with
      | serialIo => exact Or.inr ⟨ch, rfl, rfl⟩
      | vgaText => exact Or.inl rfl

theorem interrupts_queue_mem {irqs : List Irq} {console : Console} {ch : UInt8}
    (member : ch ∈ (hw.interrupts irqs).queue console) :
    ch ∈ hw.queue console ∨ ∃ irq ∈ irqs, irq.byteFor console = some ch := by
  induction irqs generalizing hw with
  | nil => exact Or.inl member
  | cons irq rest ih =>
      have later : ch ∈ ((irq.apply hw).interrupts rest).queue console := member
      rcases ih later with earlier | ⟨other, here, brings⟩
      · rcases apply_queue irq console with same | ⟨new, brings, appended⟩
        · rw [same] at earlier
          exact Or.inl earlier
        · rw [appended] at earlier
          rcases List.mem_append.mp earlier with old | fresh
          · exact Or.inl old
          · rw [List.mem_singleton.mp fresh]
            exact Or.inr ⟨irq, List.mem_cons_self, brings⟩
      · exact Or.inr ⟨other, List.mem_cons_of_mem _ here, brings⟩

theorem interrupts_queue_length (irqs : List Irq) (console : Console) :
    ((hw.interrupts irqs).queue console).length ≤ (hw.queue console).length + irqs.length := by
  induction irqs generalizing hw with
  | nil => exact Nat.le_refl _
  | cons irq rest ih =>
      have step : ((irq.apply hw).queue console).length ≤ (hw.queue console).length + 1 := by
        rcases apply_queue irq console with same | ⟨_, _, appended⟩
        · rw [same]
          exact Nat.le_succ _
        · rw [appended, List.length_append]
          exact Nat.le_refl _
      calc
        ((hw.interrupts (irq :: rest)).queue console).length
            = (((irq.apply hw).interrupts rest).queue console).length := rfl
        _ ≤ ((irq.apply hw).queue console).length + rest.length := ih
        _ ≤ (hw.queue console).length + (irq :: rest).length := by
          rw [List.length_cons]
          omega

theorem arrive_cases (hw : Hardware) :
    hw.incoming = [] ∧ hw.arrive = hw ∨ ∃ batch rest, hw.incoming = batch :: rest ∧
      hw.arrive = ({ hw with incoming := rest } : Hardware).interrupts batch := by
  cases batches : hw.incoming with
  | nil => exact Or.inl ⟨rfl, by simp [Hardware.arrive, batches]⟩
  | cons batch rest => exact Or.inr ⟨batch, rest, rfl, by simp [Hardware.arrive, batches]⟩

/-- A property of the hardware that taking in interrupts and bytes keeps. -/
structure Kept (holds : Hardware → Prop) : Prop where
  arrive : ∀ hw, holds hw → holds hw.arrive
  taken : ∀ hw console ch rest, hw.queue console = ch :: rest → holds hw →
    holds (hw.setQueue rest console)

section Kept

variable {holds : Hardware → Prop}

theorem Kept.getc (kept : Kept holds) (before : holds hw) (console : Console) :
    holds (hw.getc console).2 := by
  have arrived := kept.arrive hw before
  simp only [Hardware.getc]
  split
  · exact arrived
  · next ch rest queue => exact kept.taken _ _ _ _ queue arrived

def Fill.hardware : Fill → Hardware
  | .endOfFile _ hw => hw
  | .filled _ hw => hw

theorem Kept.fillBuffer (kept : Kept holds) (before : holds hw) (console : Console)
    (size fuel : Nat) (line : LineBuffer) :
    holds (fillBuffer console size fuel line hw).hardware := by
  induction fuel generalizing line hw with
  | zero => exact before
  | succ fuel ih =>
      have next := kept.getc before console
      simp only [Kernel.fillBuffer]
      split
      · next equal =>
          rw [equal] at next
          exact next
      · next equal =>
          rw [equal] at next
          split
          · split
            · exact next
            · exact next
          · exact ih next _

theorem Kept.readLine (kept : Kept holds) (before : holds hw) (console : Console) (size : Nat)
    (line : LineBuffer) : holds (readLine console size line hw).2.2.2 := by
  have filled := kept.fillBuffer before console size (hw.roundsLeft console) line
  simp only [Kernel.readLine]
  split
  · exact before
  · split
    · next equal =>
        rw [equal] at filled
        exact filled
    · next equal =>
        rw [equal] at filled
        split
        · exact filled
        · exact filled

theorem setLine_hw (s : State) (line : LineBuffer) (console : Console) :
    (console.setLine s line).hw = s.hw := by
  cases console with
  | serialIo => rfl
  | vgaText => rfl

theorem Kept.inputRead {s : State} (kept : Kept holds) (before : holds s.hw) (slot : Slot)
    (input : Input) (buffer size : Nat) :
    holds (inputRead s slot input buffer size).1.hw := by
  cases input with
  | serialIo =>
      simp only [Kernel.inputRead, readConsole, setLine_hw]
      exact kept.readLine before _ _ _
  | vgaText =>
      simp only [Kernel.inputRead, readConsole, setLine_hw]
      exact kept.readLine before _ _ _
  | processWait =>
      simp only [Kernel.inputRead, readProcessWait]
      split
      · exact before
      · split
        · exact before
        · exact before
  | sleepDevice =>
      simp only [Kernel.inputRead, readSleepDevice]
      split
      · exact kept.arrive _ before
      · exact kept.arrive _ before
  | semaphore cnt =>
      simp only [Kernel.inputRead, readSemaphore]
      split
      · exact before
      · split
        · exact before
        · exact before

end Kept

theorem setQueue_incoming (queue : List UInt8) (console : Console) :
    (hw.setQueue queue console).incoming = hw.incoming := by
  cases console with
  | serialIo => rfl
  | vgaText => rfl

theorem setQueue_ticks (queue : List UInt8) (console : Console) :
    (hw.setQueue queue console).pitTicks = hw.pitTicks := by
  cases console with
  | serialIo => rfl
  | vgaText => rfl

def Hardware.ticksComing (hw : Hardware) : Nat := hw.pitTicks + hw.incoming.flatten.count .tick

theorem arrive_ticksComing (hw : Hardware) : hw.arrive.ticksComing = hw.ticksComing := by
  rcases arrive_cases hw with ⟨_, same⟩ | ⟨batch, rest, batches, taken⟩
  · rw [same]
  · rw [taken]
    simp only [Hardware.ticksComing, interrupts_incoming, interrupts_ticks, batches,
      List.flatten_cons, List.count_append]
    omega

theorem ticksComing_kept (ticks : Nat) : Kept fun hw => hw.ticksComing = ticks where
  arrive := by
    intro hw same
    rw [arrive_ticksComing]
    exact same
  taken := by
    intro hw console ch rest _ same
    simp only [Hardware.ticksComing, setQueue_incoming, setQueue_ticks]
    exact same

def Hardware.Quiet (hw : Hardware) : Prop := ∀ batch ∈ hw.incoming, Irq.tick ∉ batch

theorem Hardware.Quiet.ticksComing (quiet : hw.Quiet) : hw.ticksComing = hw.pitTicks := by
  have none : hw.incoming.flatten.count .tick = 0 := by
    apply List.count_eq_zero.mpr
    intro member
    obtain ⟨batch, here, tick⟩ := List.mem_flatten.mp member
    exact quiet batch here tick
  rw [Hardware.ticksComing, none, Nat.add_zero]

theorem quiet_kept : Kept Hardware.Quiet where
  arrive := by
    intro hw quiet
    rcases arrive_cases hw with ⟨_, same⟩ | ⟨batch, rest, batches, taken⟩
    · rw [same]
      exact quiet
    · rw [taken]
      intro other member
      rw [interrupts_incoming] at member
      exact quiet other (by rw [batches]; exact List.mem_cons_of_mem _ member)
  taken := by
    intro hw console ch rest _ quiet batch member
    rw [setQueue_incoming] at member
    exact quiet batch member

theorem Hardware.Quiet.arrive_ticks (quiet : hw.Quiet) : hw.arrive.pitTicks = hw.pitTicks := by
  rw [← quiet.ticksComing, ← arrive_ticksComing, (quiet_kept.arrive hw quiet).ticksComing]

theorem commit_committed {line : LineBuffer} (ready : line.committed ≠ []) :
    line.commit.committed ≠ [] := by
  simp [LineBuffer.commit, ready]

theorem commit_some {line : LineBuffer} (some : ¬ (line.buffer = [] ∧ line.committed = [])) :
    line.commit.committed ≠ [] := by
  intro empty
  simp only [LineBuffer.commit, List.append_eq_nil_iff, List.take_eq_nil_iff] at empty
  rcases empty with ⟨none, full | blank⟩
  · rw [none] at full
    simp [lineCapacity] at full
  · exact some ⟨blank, none⟩

theorem put_committed {line : LineBuffer} (ready : line.committed ≠ []) (ch : UInt8) :
    (line.put ch).committed ≠ [] := by
  simp only [LineBuffer.put]
  split
  · exact ready
  · split
    · exact ready
    · split
      · split
        · exact commit_committed ready
        · exact ready
      · exact ready

theorem fillBuffer_committed {console : Console} {size fuel : Nat} {line line' : LineBuffer}
    {hw' : Hardware} (ready : line.committed ≠ [])
    (filled : fillBuffer console size fuel line hw = .filled line' hw') : line'.committed ≠ [] := by
  induction fuel generalizing line hw with
  | zero =>
      simp only [fillBuffer, Fill.filled.injEq] at filled
      rw [← filled.1]
      exact ready
  | succ fuel ih =>
      simp only [fillBuffer] at filled
      split at filled
      · simp only [Fill.filled.injEq] at filled
        rw [← filled.1]
        exact ready
      · split at filled
        · split at filled
          · cases filled
          · simp only [Fill.filled.injEq] at filled
            rw [← filled.1]
            exact commit_committed ready
        · exact ih (put_committed ready _) filled

theorem readLine_committed {console : Console} {line : LineBuffer} (size : Nat)
    (ready : line.committed ≠ []) : (readLine console size line hw).1 ≠ eagain := by
  simp only [readLine]
  split
  · exact zero_ne_eagain
  · split
    · exact zero_ne_eagain
    · next filled =>
        rw [if_neg (fillBuffer_committed ready filled)]
        exact natCast_ne_eagain _

theorem readLine_eof {console : Console} {line : LineBuffer} (size : Nat)
    (ended : line.eof = true) : (readLine console size line hw).1 = 0 := by
  simp [readLine, ended]

theorem fillBuffer_eof {console : Console} {fuel : Nat} {line line' : LineBuffer}
    {hw' : Hardware} (ended : fillBuffer console 0 fuel line hw = .endOfFile line' hw') :
    line'.eof = true := by
  induction fuel generalizing line hw with
  | zero => cases ended
  | succ fuel ih =>
      simp only [fillBuffer] at ended
      split at ended
      · cases ended
      · split at ended
        · split at ended
          · simp only [Fill.endOfFile.injEq] at ended
            rw [← ended.1]
            rfl
          · cases ended
        · exact ih ended

/-- When a poll of a console passes, so does the read after it. -/
theorem readLine_after_poll {console : Console} {line : LineBuffer} (hw' : Hardware) (size : Nat)
    (passed : (readLine console 0 line hw).1 ≠ eagain) :
    (readLine console size (readLine console 0 line hw).2.2.1 hw').1 ≠ eagain := by
  by_cases ended : line.eof
  · rw [readLine_eof]
    · exact zero_ne_eagain
    · simp [readLine, ended]
  · simp only [readLine, ended, Bool.false_eq_true, if_false] at passed ⊢
    cases filled : fillBuffer console 0 (hw.roundsLeft console) line hw with
    | endOfFile line' hw'' =>
        simp only [fillBuffer_eof filled, if_true]
        exact zero_ne_eagain
    | filled line' hw'' =>
        simp only [filled] at passed ⊢
        by_cases empty : line'.committed = []
        · simp [empty] at passed
        · simp only [if_neg empty, List.drop_zero]
          exact readLine_committed size empty

def endsLine (ch : UInt8) : Bool := newline ch == 10 || newline ch == 4

def Irq.endsLine (console : Console) (irq : Irq) : Bool :=
  (irq.byteFor console).any Kernel.endsLine

def Hardware.Dull (console : Console) (hw : Hardware) : Prop :=
  (∀ ch ∈ hw.queue console, endsLine ch = false) ∧
    ∀ batch ∈ hw.incoming, ∀ irq ∈ batch, irq.endsLine console = false

theorem interrupts_dull {console : Console} {irqs : List Irq}
    (queued : ∀ ch ∈ hw.queue console, endsLine ch = false)
    (arriving : ∀ irq ∈ irqs, irq.endsLine console = false) :
    ∀ ch ∈ (hw.interrupts irqs).queue console, endsLine ch = false := by
  intro ch member
  rcases interrupts_queue_mem member with old | ⟨irq, here, brings⟩
  · exact queued ch old
  · have dull := arriving irq here
    simpa [Irq.endsLine, brings] using dull

theorem setQueue_queue (queue : List UInt8) (console other : Console) :
    (hw.setQueue queue console).queue other =
      if other = console then queue else hw.queue other := by
  cases console with
  | serialIo =>
      cases other with
      | serialIo => rfl
      | vgaText => rfl
  | vgaText =>
      cases other with
      | serialIo => rfl
      | vgaText => rfl

theorem dull_kept (console : Console) : Kept (Hardware.Dull console) where
  arrive := by
    intro hw dull
    rcases arrive_cases hw with ⟨_, same⟩ | ⟨batch, rest, batches, taken⟩
    · rw [same]
      exact dull
    · rw [taken]
      rw [Hardware.Dull, batches] at dull
      refine ⟨interrupts_dull dull.1 (dull.2 batch List.mem_cons_self), ?_⟩
      rw [interrupts_incoming]
      intro other member
      exact dull.2 other (List.mem_cons_of_mem _ member)
  taken := by
    intro hw other ch rest queue dull
    refine ⟨?_, by rw [setQueue_incoming]; exact dull.2⟩
    intro byte member
    rw [setQueue_queue] at member
    split at member
    · next same =>
        apply dull.1 byte
        rw [same, queue]
        exact List.mem_cons_of_mem _ member
    · exact dull.1 byte member

theorem put_dull (line : LineBuffer) {ch : UInt8} (notLine : ch ≠ 10) :
    (line.put ch).committed = line.committed := by
  simp only [LineBuffer.put, if_neg notLine]
  split
  · rfl
  · split
    · rfl
    · split
      · rfl
      · rfl

theorem getc_some {console : Console} {ch : UInt8} {hw' : Hardware}
    (got : hw.getc console = (some ch, hw')) :
    ∃ byte rest, hw.arrive.queue console = byte :: rest ∧ ch = newline byte ∧
      hw' = hw.arrive.setQueue rest console := by
  simp only [Hardware.getc] at got
  split at got
  · cases got
  · next byte rest queue =>
      simp only [Prod.mk.injEq, Option.some.injEq] at got
      exact ⟨byte, rest, queue, got.1.symm, got.2.symm⟩

theorem getc_none {console : Console} {hw' : Hardware} (got : hw.getc console = (none, hw')) :
    hw'.queue console = [] := by
  simp only [Hardware.getc] at got
  split at got
  · next empty =>
      simp only [Prod.mk.injEq, true_and] at got
      rw [← got]
      exact empty
  · cases got

theorem fillBuffer_dull {console : Console} (size fuel : Nat) {line : LineBuffer}
    (dull : hw.Dull console) (empty : line.committed = []) :
    ∃ line' hw', fillBuffer console size fuel line hw = .filled line' hw' ∧
      line'.committed = [] ∧ line'.eof = line.eof := by
  induction fuel generalizing line hw with
  | zero => exact ⟨line, hw, rfl, empty, rfl⟩
  | succ fuel ih =>
      have arrived := (dull_kept console).arrive hw dull
      simp only [fillBuffer]
      split
      · next hw' _ => exact ⟨line, hw', rfl, empty, rfl⟩
      · next ch hw' got =>
          obtain ⟨byte, rest, queue, same, taken⟩ := getc_some got
          have plain : endsLine byte = false := arrived.1 byte (by rw [queue]; exact List.mem_cons_self)
          simp only [endsLine, Bool.or_eq_false_iff, beq_eq_false_iff_ne, ← same] at plain
          rw [if_neg plain.2]
          have next : hw'.Dull console := by
            rw [taken]
            exact (dull_kept console).taken _ _ _ _ queue arrived
          obtain ⟨line', hw'', filled, none, eof⟩ := ih next
            ((put_dull line plain.1).trans empty)
          exact ⟨line', hw'', filled, none, eof.trans (put_eof line ch)⟩

theorem readLine_dull {console : Console} {line : LineBuffer} (size : Nat)
    (dull : hw.Dull console) (going : line.eof = false) (empty : line.committed = []) :
    (readLine console size line hw).1 = eagain ∧
      (readLine console size line hw).2.2.1.eof = false ∧
      (readLine console size line hw).2.2.1.committed = [] := by
  obtain ⟨line', hw', filled, none, eof⟩ :=
    fillBuffer_dull size (hw.roundsLeft console) dull empty
  simp only [readLine, going, Bool.false_eq_true, if_false, filled, none, if_true]
  exact ⟨trivial, eof.trans going, trivial⟩

theorem arrive_rounds (hw : Hardware) (console : Console) :
    hw.arrive.roundsLeft console ≤ hw.roundsLeft console := by
  rcases arrive_cases hw with ⟨_, same⟩ | ⟨batch, rest, batches, taken⟩
  · rw [same]
  · have bound : ((({ hw with incoming := rest } : Hardware).interrupts batch).queue
        console).length ≤ _ := interrupts_queue_length batch console
    have queue : ({ hw with incoming := rest } : Hardware).queue console = hw.queue console := by
      cases console with
      | serialIo => rfl
      | vgaText => rfl
    rw [taken]
    simp only [Hardware.roundsLeft, interrupts_incoming, batches, List.flatten_cons,
      List.length_append]
    rw [queue] at bound
    omega

/-- The loop ends with an empty queue, unless it ends with something to read. -/
theorem fillBuffer_drained {console : Console} {size fuel : Nat} {line line' : LineBuffer}
    {hw' : Hardware} (enough : hw.roundsLeft console ≤ fuel)
    (filled : fillBuffer console size fuel line hw = .filled line' hw')
    (empty : line'.committed = []) : hw'.queue console = [] ∧ line'.eof = line.eof := by
  induction fuel generalizing line hw with
  | zero => simp [Hardware.roundsLeft] at enough
  | succ fuel ih =>
      simp only [fillBuffer] at filled
      split at filled
      · next got =>
          simp only [Fill.filled.injEq] at filled
          rw [← filled.1, ← filled.2]
          exact ⟨getc_none got, rfl⟩
      · next ch next got =>
          split at filled
          · split at filled
            · cases filled
            · next something =>
                simp only [Fill.filled.injEq] at filled
                rw [← filled.1] at empty
                exact absurd empty (commit_some something)
          · obtain ⟨byte, rest, queue, _, taken⟩ := getc_some got
            have rounds := arrive_rounds hw console
            have fewer : next.roundsLeft console ≤ fuel := by
              rw [taken]
              simp only [Hardware.roundsLeft, setQueue_queue, if_true, setQueue_incoming]
              simp only [Hardware.roundsLeft, queue, List.length_cons] at rounds enough
              omega
            obtain ⟨none, eof⟩ := ih fewer filled
            exact ⟨none, eof.trans (put_eof line ch)⟩

theorem readLine_blocked {console : Console} {size : Nat} {line : LineBuffer}
    (blocked : (readLine console size line hw).1 = eagain) :
    (readLine console size line hw).2.2.1.eof = false ∧
      (readLine console size line hw).2.2.1.committed = [] ∧
      (readLine console size line hw).2.2.2.queue console = [] := by
  by_cases ended : line.eof
  · rw [readLine_eof size ended] at blocked
    exact absurd blocked zero_ne_eagain
  · simp only [readLine, ended, Bool.false_eq_true, if_false] at blocked ⊢
    cases filled : fillBuffer console size (hw.roundsLeft console) line hw with
    | endOfFile line' hw' =>
        rw [filled] at blocked
        exact absurd blocked zero_ne_eagain
    | filled line' hw' =>
        simp only [filled] at blocked ⊢
        by_cases empty : line'.committed = []
        · obtain ⟨none, eof⟩ := fillBuffer_drained (Nat.le_refl _) filled empty
          simp only [if_pos empty]
          exact ⟨eof.trans (by simpa using ended), empty, none⟩
        · simp only [if_neg empty] at blocked
          exact absurd blocked (natCast_ne_eagain _)

end SysImpl.Kernel
