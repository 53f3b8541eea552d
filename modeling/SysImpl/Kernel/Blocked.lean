import SysImpl.Kernel.Overrun

/-! Reads that stay blocked through a pass over the devices.

A read that blocks is not completed by the pass of its own system call, unless something
arrives meanwhile that makes its device ready: a byte that ends a line for a console, or
the tick a sleeper waits for. What `ProcessWait` and a semaphore wait for does not arrive
during a pass. -/

namespace SysImpl.Kernel

open Bytes Runs

/-- A read by the process in a slot blocks, and still does when more has arrived. -/
def Blocked (s : State) (pid : Pid) (later : List Irq) : Input → Prop
  | .serialIo => s.com1.eof = false ∧ s.com1.committed = [] ∧ s.hw.Dull .serialIo ∧
      ∀ irq ∈ later, irq.endsLine .serialIo = false
  | .vgaText => s.con.eof = false ∧ s.con.committed = [] ∧ s.hw.Dull .vgaText ∧
      ∀ irq ∈ later, irq.endsLine .vgaText = false
  | .processWait => (s.reqs pid).pid ≠ 0
  | .sleepDevice => s.hw.ticksComing + later.count .tick < s.processSleepUntil pid
  | .semaphore cnt => cnt ≤ 0

def SameInputs (s s' : State) : Prop :=
  s'.com1 = s.com1 ∧ s'.con = s.con ∧ s'.hw = s.hw ∧ s'.reqs = s.reqs ∧
    s'.processSleepUntil = s.processSleepUntil

theorem Blocked.congr {s s' : State} {pid : Pid} {later : List Irq} {input : Input}
    (blocked : Blocked s pid later input) (same : SameInputs s s') :
    Blocked s' pid later input := by
  obtain ⟨com1, con, hw, reqs, wake⟩ := same
  cases input with
  | serialIo => simpa only [Blocked, com1, hw] using blocked
  | vgaText => simpa only [Blocked, con, hw] using blocked
  | processWait => simpa only [Blocked, reqs] using blocked
  | sleepDevice => simpa only [Blocked, hw, wake] using blocked
  | semaphore cnt => exact blocked

theorem inputRead_reqs (s : State) (slot : Slot) (input : Input) (buffer size : Nat) :
    (inputRead s slot input buffer size).1.reqs = s.reqs := by
  cases input with
  | serialIo => rfl
  | vgaText => rfl
  | processWait =>
      simp only [inputRead, readProcessWait]
      split
      · rfl
      · split
        · rfl
        · rfl
  | sleepDevice =>
      simp only [inputRead, readSleepDevice]
      split
      · rfl
      · rfl
  | semaphore cnt =>
      simp only [inputRead, readSemaphore]
      split
      · rfl
      · split
        · rfl
        · rfl

theorem inputRead_lines (s : State) (slot : Slot) (other : Input) (buffer size : Nat) :
    (other ≠ .serialIo → (inputRead s slot other buffer size).1.com1 = s.com1) ∧
      (other ≠ .vgaText → (inputRead s slot other buffer size).1.con = s.con) := by
  cases other with
  | serialIo => exact ⟨fun differs => absurd rfl differs, fun _ => rfl⟩
  | vgaText => exact ⟨fun _ => rfl, fun differs => absurd rfl differs⟩
  | processWait =>
      simp only [inputRead, readProcessWait]
      split
      · exact ⟨fun _ => rfl, fun _ => rfl⟩
      · split
        · exact ⟨fun _ => rfl, fun _ => rfl⟩
        · exact ⟨fun _ => rfl, fun _ => rfl⟩
  | sleepDevice =>
      simp only [inputRead, readSleepDevice]
      split
      · exact ⟨fun _ => rfl, fun _ => rfl⟩
      · exact ⟨fun _ => rfl, fun _ => rfl⟩
  | semaphore cnt =>
      simp only [inputRead, readSemaphore]
      split
      · exact ⟨fun _ => rfl, fun _ => rfl⟩
      · split
        · exact ⟨fun _ => rfl, fun _ => rfl⟩
        · exact ⟨fun _ => rfl, fun _ => rfl⟩

theorem Blocked.read {s : State} {pid : Pid} {later : List Irq} {input : Input}
    (blocked : Blocked s pid later input) (slot : Slot) (other : Input) (buffer size : Nat) :
    Blocked (inputRead s slot other buffer size).1 pid later input := by
  have lines := inputRead_lines s slot other buffer size
  cases input with
  | serialIo =>
      obtain ⟨going, empty, dull, quiet⟩ := blocked
      have still := (dull_kept .serialIo).inputRead dull slot other buffer size
      by_cases same : other = .serialIo
      · subst same
        have stuck := readLine_dull size dull going empty
        exact ⟨stuck.2.1, stuck.2.2, still, quiet⟩
      · refine ⟨?_, ?_, still, quiet⟩
        · rw [lines.1 same]
          exact going
        · rw [lines.1 same]
          exact empty
  | vgaText =>
      obtain ⟨going, empty, dull, quiet⟩ := blocked
      have still := (dull_kept .vgaText).inputRead dull slot other buffer size
      by_cases same : other = .vgaText
      · subst same
        have stuck := readLine_dull size dull going empty
        exact ⟨stuck.2.1, stuck.2.2, still, quiet⟩
      · refine ⟨?_, ?_, still, quiet⟩
        · rw [lines.2 same]
          exact going
        · rw [lines.2 same]
          exact empty
  | processWait =>
      simp only [Blocked, inputRead_reqs]
      exact blocked
  | sleepDevice =>
      have ticks := (ticksComing_kept s.hw.ticksComing).inputRead rfl slot other buffer size
      simp only [Blocked, inputRead_wake, ticks]
      exact blocked
  | semaphore cnt => exact blocked

def Input.shared : Input → Bool
  | .processWait => false
  | .sleepDevice => false
  | _ => true

theorem Blocked.ret {s : State} {pid : Pid} {later : List Irq} {input : Input}
    (blocked : Blocked s pid later input) (who : input.shared ∨ s.currentProcess = pid)
    (slot : Slot) (buffer size : Nat) : (inputRead s slot input buffer size).2 = eagain := by
  cases input with
  | serialIo =>
      obtain ⟨going, empty, dull, _⟩ := blocked
      exact (readLine_dull size dull going empty).1
  | vgaText =>
      obtain ⟨going, empty, dull, _⟩ := blocked
      exact (readLine_dull size dull going empty).1
  | processWait =>
      have current : s.currentProcess = pid := by simpa [Input.shared] using who
      have busy : (s.reqs s.currentProcess).pid ≠ 0 := by rw [current]; exact blocked
      simp only [inputRead, readProcessWait, if_pos busy]
  | sleepDevice =>
      have current : s.currentProcess = pid := by simpa [Input.shared] using who
      have early : s.hw.arrive.pitTicks < s.processSleepUntil s.currentProcess := by
        rw [current]
        have bound : s.hw.ticksComing + later.count .tick < s.processSleepUntil pid := blocked
        rw [← arrive_ticksComing, Hardware.ticksComing] at bound
        omega
      simp only [inputRead, readSleepDevice, if_pos early]
  | semaphore cnt =>
      have none : cnt ≤ 0 := blocked
      simp only [inputRead, readSemaphore, if_pos none]

variable {slot : Slot} {device : Device}

def wokenFor (s : State) (now : PendingRead) : State :=
  { s with
    toTables := s.toTables.modify now.proc.pid (Process.setProcessState .runnable)
    currentProcess := now.proc.pid }

theorem serve_cases {s s' : State} {now : PendingRead} (found : s.devices slot = some device)
    (ran : serve s slot now = .ok s') :
    SameInputs (inputRead (wokenFor s now) slot device.input now.buffer now.size).1 s' ∧
      s'.currentProcess = now.proc.pid ∧
      ((inputRead (wokenFor s now) slot device.input now.buffer now.size).2 = eagain ∧
          s'.devices slot = some (device.setPending (device.pendingRequest ++ [now])) ∨
        (inputRead (wokenFor s now) slot device.input now.buffer now.size).2 ≠ eagain ∧
          ∃ input data, s'.devices slot = some (device.setInput input) ∧
            ReadSpec (wokenFor s now).toTables now.proc.pid now.size
              (inputRead (wokenFor s now) slot device.input now.buffer now.size).2 data
              device.input input) := by
  have here : (wokenFor s now).devices slot = some device := found
  obtain ⟨current, spec⟩ := inputRead_spec here now.buffer now.size
  simp only [serve] at ran
  split at ran
  · cases ran
  · split at ran
    · cases ran
    · next last ret read =>
        change doRead (wokenFor s now) slot now.proc now.buffer now.size = .ok (last, ret) at read
        have final := Except.ok.inj ran
        simp only [doRead, here] at read
        rcases spec with ⟨blocked, tables, _⟩ | ⟨passed, input, tables, spec⟩
        · rw [if_pos blocked] at read
          split at read
          · simp only [Except.ok.injEq, Prod.mk.injEq] at read
            rw [← final, ← read.1]
            refine ⟨⟨rfl, rfl, rfl, rfl, rfl⟩, current, Or.inl ⟨blocked, ?_⟩⟩
            simp only [modify_devices, modifyDevice_devices, if_true, tables, here,
              Option.map_some]
            rfl
          · cases read
        · rw [if_neg passed] at read
          simp only [Except.ok.injEq, Prod.mk.injEq] at read
          rw [← final, ← read.1]
          refine ⟨⟨rfl, rfl, rfl, rfl, rfl⟩, current, Or.inr ⟨passed, input, _, ?_, spec⟩⟩
          simp only [modify_devices, State.note_tables, note_devices, tables,
            modifyDevice_devices, if_true, here, Option.map_some]

/-- What reads keep, and what only depends on what reads depend on, a check keeps. -/
theorem checkLoop_keeps (holds : State → Prop)
    (read : ∀ s input buffer size, holds s → holds (inputRead s slot input buffer size).1)
    (congr : ∀ s s', SameInputs s s' → holds s → holds s') {fuel ind last : Nat} {s s' : State}
    (before : holds s) (ran : checkLoop slot fuel ind s = .ok (s', last)) : holds s' := by
  induction fuel generalizing ind s with
  | zero =>
      simp only [checkLoop, Except.ok.injEq, Prod.mk.injEq] at ran
      rw [← ran.1]
      exact before
  | succ fuel ih =>
      simp only [checkLoop] at ran
      split at ran
      · cases ran
      · next device found =>
          have polled := read s device.input 0 0 before
          split at ran
          · simp only [Except.ok.injEq, Prod.mk.injEq] at ran
            rw [← ran.1]
            exact before
          · next now _ =>
              split at ran
              · simp only [Except.ok.injEq, Prod.mk.injEq] at ran
                rw [← ran.1]
                exact polled
              · split at ran
                · cases ran
                · next mid served =>
                    have found0 : (inputRead s slot device.input 0 0).1.devices slot =
                        some device := by
                      rw [poll_tables found]
                      exact found
                    have woken := congr (inputRead s slot device.input 0 0).1
                      (wokenFor (inputRead s slot device.input 0 0).1 now)
                      ⟨rfl, rfl, rfl, rfl, rfl⟩ polled
                    refine ih ?_ ran
                    exact congr _ mid (serve_cases found0 served).1
                      (read _ device.input now.buffer now.size woken)

theorem Blocked.serve {s s' : State} {now : PendingRead} {pid : Pid} {later : List Irq}
    {input : Input} (found : s.devices slot = some device) (blocked : Blocked s pid later input)
    (ran : serve s slot now = .ok s') : Blocked s' pid later input := by
  have woken : Blocked (wokenFor s now) pid later input :=
    blocked.congr ⟨rfl, rfl, rfl, rfl, rfl⟩
  exact (woken.read slot device.input now.buffer now.size).congr (serve_cases found ran).1

theorem Blocked.checkLoop {fuel ind last : Nat} {s s' : State} {pid : Pid} {later : List Irq}
    {input : Input} (blocked : Blocked s pid later input)
    (ran : checkLoop slot fuel ind s = .ok (s', last)) : Blocked s' pid later input :=
  checkLoop_keeps (fun s => Blocked s pid later input)
    (fun _ other buffer size blocked => blocked.read slot other buffer size)
    (fun _ _ same blocked => blocked.congr same) blocked ran

theorem Blocked.checkLoop_waits {fuel ind last : Nat} {s s' : State} {p : ProcPtr}
    {later : List Irq} (found : s.devices slot = some device)
    (blocked : Blocked s p.pid later device.input)
    (waits : ∃ req ∈ device.pendingRequest.drop ind, req.proc = p)
    (ran : Kernel.checkLoop slot fuel ind s = .ok (s', last)) :
    ∃ device', s'.devices slot = some device' ∧
      ∃ req ∈ device'.pendingRequest.drop last, req.proc = p := by
  induction fuel generalizing ind s device with
  | zero =>
      simp only [Kernel.checkLoop, Except.ok.injEq, Prod.mk.injEq] at ran
      rw [← ran.1, ← ran.2]
      exact ⟨device, found, waits⟩
  | succ fuel ih =>
      have tables := poll_tables found
      have polled := blocked.read slot device.input 0 0
      simp only [Kernel.checkLoop, found] at ran
      cases next : device.pendingRequest[ind]? with
      | none =>
          simp only [next, Except.ok.injEq, Prod.mk.injEq] at ran
          rw [← ran.1, ← ran.2]
          exact ⟨device, found, waits⟩
      | some now =>
          simp only [next] at ran
          by_cases closed : (inputRead s slot device.input 0 0).2 = eagain
          · rw [if_pos closed] at ran
            simp only [Except.ok.injEq, Prod.mk.injEq] at ran
            rw [← ran.1, ← ran.2, tables]
            exact ⟨device, found, waits⟩
          · rw [if_neg closed] at ran
            have own : device.input.shared = false := by
              cases shared : device.input.shared with
              | false => rfl
              | true => exact absurd (blocked.ret (Or.inl shared) slot 0 0) closed
            have kind : device.isSemaphore = false := by
              cases input : device.input with
              | semaphore cnt => rw [input] at own; cases own
              | _ => simp [Device.isSemaphore, input]
            have found0 : (inputRead s slot device.input 0 0).1.devices slot = some device := by
              rw [tables]
              exact found
            obtain ⟨inside, here⟩ := List.getElem?_eq_some_iff.mp next
            have queue : device.pendingRequest.drop ind =
                now :: device.pendingRequest.drop (ind + 1) := by
              rw [List.drop_eq_getElem_cons inside, here]
            rw [queue] at waits
            split at ran
            · cases ran
            · next s1 served =>
                have later1 := polled.serve found0 served
                obtain ⟨_, _, outcome⟩ := serve_cases found0 served
                rcases outcome with ⟨_, found1⟩ | ⟨passed, input, data, found1, spec⟩
                · refine ih found1 later1 ?_ ran
                  rw [Device.setPending, List.drop_append_of_le_length (by omega)]
                  obtain ⟨req, member, owner⟩ := waits
                  refine ⟨req, ?_, owner⟩
                  rcases List.mem_cons.mp member with head | tail
                  · rw [head]
                    exact List.mem_append_right _ List.mem_cons_self
                  · exact List.mem_append_left _ tail
                · rw [spec.same_input kind] at found1
                  refine ih found1 later1 ?_ ran
                  obtain ⟨req, member, owner⟩ := waits
                  rcases List.mem_cons.mp member with head | tail
                  · -- The request is the one just read for, and its read is blocked.
                    have woken : Blocked (wokenFor (inputRead s slot device.input 0 0).1 now)
                        p.pid later device.input := polled.congr ⟨rfl, rfl, rfl, rfl, rfl⟩
                    apply absurd _ passed
                    apply woken.ret (Or.inr _)
                    rw [← owner, head]
                    rfl
                  · exact ⟨req, tail, owner⟩

def State.lull (s : State) : State := { s with hw := s.hw.expect [] }

theorem Blocked.lull {s : State} {pid : Pid} {later : List Irq} {input : Input}
    (blocked : Blocked s pid later input) : Blocked s.lull pid later input := by
  have dull : ∀ {console : Console}, s.hw.Dull console → s.lull.hw.Dull console := by
    intro console dull
    refine ⟨?_, by intro batch member; cases member⟩
    cases console with
    | serialIo => exact dull.1
    | vgaText => exact dull.1
  cases input with
  | serialIo => exact ⟨blocked.1, blocked.2.1, dull blocked.2.2.1, blocked.2.2.2⟩
  | vgaText => exact ⟨blocked.1, blocked.2.1, dull blocked.2.2.1, blocked.2.2.2⟩
  | processWait => exact blocked
  | sleepDevice =>
      have bound : s.hw.ticksComing + later.count .tick < s.processSleepUntil pid := blocked
      have ticks : s.lull.hw.ticksComing = s.hw.pitTicks := rfl
      simp only [Hardware.ticksComing] at bound
      simp only [Blocked, ticks]
      exact Nat.lt_of_le_of_lt (by omega) bound
  | semaphore cnt => exact blocked

theorem Blocked.expect {s : State} {pid : Pid} {irqs : List Irq} {batches : List (List Irq)}
    {rest : List Irq} {input : Input}
    (blocked : Blocked s.lull pid (irqs ++ batches.flatten ++ rest) input) :
    Blocked { s with hw := (s.hw.interrupts irqs).expect batches } pid rest input := by
  have dull : ∀ {console : Console}, s.lull.hw.Dull console →
      (∀ irq ∈ irqs ++ batches.flatten ++ rest, irq.endsLine console = false) →
        ((s.hw.interrupts irqs).expect batches).Dull console ∧
          ∀ irq ∈ rest, irq.endsLine console = false := by
    intro console dull quiet
    refine ⟨⟨?_, ?_⟩, ?_⟩
    · have queue : ((s.hw.interrupts irqs).expect batches).queue console =
          (s.hw.interrupts irqs).queue console := by
        cases console with
        | serialIo => rfl
        | vgaText => rfl
      have before : ∀ ch ∈ s.hw.queue console, endsLine ch = false := by
        cases console with
        | serialIo => exact dull.1
        | vgaText => exact dull.1
      rw [queue]
      apply interrupts_dull before
      intro irq member
      exact quiet irq (by simp [member])
    · intro batch member irq here
      exact quiet irq (by simp; exact Or.inr (Or.inl ⟨batch, member, here⟩))
    · intro irq member
      exact quiet irq (by simp [member])
  cases input with
  | serialIo => exact ⟨blocked.1, blocked.2.1, dull blocked.2.2.1 blocked.2.2.2⟩
  | vgaText => exact ⟨blocked.1, blocked.2.1, dull blocked.2.2.1 blocked.2.2.2⟩
  | processWait => exact blocked
  | sleepDevice =>
      have ticks : ((s.hw.interrupts irqs).expect batches).ticksComing =
          s.hw.pitTicks + irqs.count .tick + batches.flatten.count .tick := by
        simp only [Hardware.ticksComing, Hardware.expect, interrupts_ticks]
      have bound : s.hw.pitTicks + (irqs ++ batches.flatten ++ rest).count .tick <
          s.processSleepUntil pid := blocked
      simp only [List.count_append] at bound
      simp only [Blocked, ticks]
      omega
  | semaphore cnt => exact blocked

/-- The interrupts that arrive in a pass over some slots, up to the check of one of them. -/
def Arrivals.upTo (arrivals : Arrivals) (last : Slot) : List Slot → List Irq
  | [] => []
  | slot :: rest => arrivals.before slot ++ (arrivals.during slot).flatten ++
      if slot = last then [] else arrivals.upTo last rest

theorem Blocked.checkSlot {arrivals : Arrivals} {s s' : State} {pid : Pid} {rest : List Irq}
    {input : Input}
    (blocked : Blocked s.lull pid
      (arrivals.before slot ++ (arrivals.during slot).flatten ++ rest) input)
    (ran : checkSlot arrivals s slot = .ok s') : Blocked s' pid rest input := by
  have arrived := blocked.expect
  simp only [Kernel.checkSlot] at ran
  split at ran
  · rw [← Except.ok.inj ran]
    exact arrived
  · simp only [check] at ran
    split at ran
    · cases ran
    · next looped =>
        rw [← Except.ok.inj ran]
        exact (arrived.checkLoop looped).congr ⟨rfl, rfl, rfl, rfl, rfl⟩

theorem checkSlot_waits {arrivals : Arrivals} {s s' : State} {p : ProcPtr} {rest : List Irq}
    (found : s.devices slot = some device)
    (blocked : Blocked s.lull p.pid
      (arrivals.before slot ++ (arrivals.during slot).flatten ++ rest) device.input)
    (waits : ∃ req ∈ s.toTables.pendingAt slot, req.proc = p)
    (ran : checkSlot arrivals s slot = .ok s') :
    ∃ req ∈ s'.toTables.pendingAt slot, req.proc = p := by
  have arrived := blocked.expect
  have found0 : ({ s with
      hw := (s.hw.interrupts (arrivals.before slot)).expect (arrivals.during slot) } :
        State).devices slot = some device := found
  rw [pendingAt_of_some found, ← List.drop_zero (l := device.pendingRequest)] at waits
  simp only [Kernel.checkSlot, found, check] at ran
  split at ran
  · cases ran
  · next last ind looped =>
      obtain ⟨device', found', req, member, owner⟩ :=
        arrived.checkLoop_waits found0 waits looped
      rw [← Except.ok.inj ran]
      refine ⟨req, ?_, owner⟩
      rw [pendingAt_modifyDevice, if_pos rfl, found']
      exact member

theorem checkSlot_other {arrivals : Arrivals} {s s' : State} {other : Slot}
    (differs : other ≠ slot) (ran : checkSlot arrivals s slot = .ok s') :
    s'.devices other = s.devices other := by
  apply (checkSlot_acts ran).1.invariant (fun t => t.devices other = s.devices other) rfl
  intro mid label next kind same act
  cases act with
  | @serve here device now rest ret data input found queue spec =>
      have apart : other ≠ here := by rw [show here = slot from kind]; exact differs
      simpa only [modify_devices, note_devices, modifyDevice_devices, if_neg apart] using same
  | @requeue here device now rest found queue semaphore =>
      have apart : other ≠ here := by rw [show here = slot from kind]; exact differs
      simpa only [modify_devices, modifyDevice_devices, if_neg apart] using same
  | _ => exact kind.elim

theorem checkSlots_other {arrivals : Arrivals} {slots : List Slot} {s s' : State} {other : Slot}
    (outside : other ∉ slots) (ran : slots.foldlM (checkSlot arrivals) s = .ok s') :
    s'.devices other = s.devices other := by
  induction slots generalizing s with
  | nil =>
      rw [List.foldlM_nil] at ran
      rw [← Except.ok.inj ran]
  | cons slot rest ih =>
      rw [List.foldlM_cons] at ran
      obtain ⟨mid, first, ran⟩ := bind_ok ran
      have apart : other ≠ slot := by
        intro same
        exact outside (by rw [same]; exact List.mem_cons_self)
      rw [ih (fun member => outside (List.mem_cons_of_mem _ member)) ran,
        checkSlot_other apart first]

theorem checkSlots_waits {arrivals : Arrivals} {slots : List Slot} {s s' : State} {p : ProcPtr}
    (distinct : slots.Nodup) (found : s.devices slot = some device)
    (blocked : Blocked s.lull p.pid (arrivals.upTo slot slots) device.input)
    (waits : ∃ req ∈ s.toTables.pendingAt slot, req.proc = p)
    (ran : slots.foldlM (checkSlot arrivals) s = .ok s') :
    ∃ req ∈ s'.toTables.pendingAt slot, req.proc = p := by
  induction slots generalizing s with
  | nil =>
      rw [List.foldlM_nil] at ran
      rw [← Except.ok.inj ran]
      exact waits
  | cons first rest ih =>
      rw [List.foldlM_cons] at ran
      obtain ⟨mid, checked, ran⟩ := bind_ok ran
      obtain ⟨outside, distinct⟩ := List.nodup_cons.mp distinct
      simp only [Arrivals.upTo] at blocked
      by_cases same : first = slot
      · subst same
        have still := checkSlot_waits found blocked waits checked
        have kept := checkSlots_other outside ran
        simpa only [Tables.pendingAt, kept] using still
      · rw [if_neg same] at blocked
        have kept := checkSlot_other (Ne.symm same) checked
        refine ih distinct (kept.trans found) (blocked.checkSlot checked).lull ?_ ran
        simpa only [Tables.pendingAt, kept] using waits

end SysImpl.Kernel
