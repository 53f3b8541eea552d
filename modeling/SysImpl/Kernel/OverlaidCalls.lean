import SysImpl.Kernel.Blocked
import SysImpl.Kernel.Overlays

/-! A system call under an overlay.

Reading `:WAITPID` or `:SLEEP` looks at an entry of the process that reads, and `check` polls
with that of whichever process is current. Where these entries tell the same, and no process
that ends has another parent with a stack to restore, the call does the same under the overlay. -/

namespace SysImpl.Kernel

open Bytes Runs

/-- A read of an input device by a process finds the same in two states. A wake-up time that
has passed in both is as good as any other. -/
def State.Tells (s s' : State) (pid : Pid) : Input → Prop
  | .processWait => s'.reqs pid = s.reqs pid
  | .sleepDevice => s'.processSleepUntil pid = s.processSleepUntil pid ∨
      s'.processSleepUntil pid ≤ s.hw.pitTicks ∧ s.processSleepUntil pid ≤ s.hw.pitTicks
  | _ => True

/-- A poll of an input device by a process finds the same in two states: of a request it only
sees whether it is answered. That of a process that awaits itself is answered by its exit. -/
def State.Polls (s s' : State) (pid : Pid) : Input → Prop
  | .processWait => ((s'.reqs pid).pid = 0 ↔ (s.reqs pid).pid = 0) ∧
      ((s'.reqs pid).pid = pid.val ↔ (s.reqs pid).pid = pid.val)
  | input => s.Tells s' pid input

variable {o : Overlay} {t : Tables} {s : State}

theorem State.Tells.polls {s' : State} {pid : Pid} {input : Input} (tells : s.Tells s' pid input) :
    s.Polls s' pid input := by
  cases input with
  | processWait =>
      have same : s'.reqs pid = s.reqs pid := tells
      rw [State.Polls, same]
      exact ⟨Iff.rfl, Iff.rfl⟩
  | sleepDevice => exact tells
  | serialIo => exact tells
  | vgaText => exact tells
  | semaphore cnt => exact tells

section Devices

theorem tells_kind {s' : State} {pid : Pid} {input : Input} :
    s.Tells s' pid input.kind ↔ s.Tells s' pid input := by
  cases input <;> exact Iff.rfl

theorem polls_kind {s' : State} {pid : Pid} {input : Input} :
    s.Polls s' pid input.kind ↔ s.Polls s' pid input := by
  cases input <;> exact Iff.rfl

structure SameEntries (s after : State) : Prop where
  reqs : after.reqs = s.reqs
  wakes : after.processSleepUntil = s.processSleepUntil
  ticks : s.hw.pitTicks ≤ after.hw.pitTicks

theorem SameEntries.refl (s : State) : SameEntries s s := ⟨rfl, rfl, Nat.le_refl _⟩

theorem SameEntries.trans {s mid after : State} (first : SameEntries s mid)
    (second : SameEntries mid after) : SameEntries s after :=
  ⟨second.reqs.trans first.reqs, second.wakes.trans first.wakes,
    Nat.le_trans first.ticks second.ticks⟩

theorem SameEntries.tells {after : State} (same : SameEntries s after) {pid : Pid} {input : Input}
    (tells : s.Tells (s.overlay o) pid input) : after.Tells (after.overlay o) pid input := by
  cases input with
  | processWait => exact (show o.reqs pid = s.reqs pid from tells).trans (congrFun same.reqs pid).symm
  | sleepDevice =>
      simp only [State.Tells, same.wakes]
      rcases tells with equal | ⟨passed, passed'⟩
      · exact Or.inl equal
      · exact Or.inr ⟨Nat.le_trans passed same.ticks, Nat.le_trans passed' same.ticks⟩
  | serialIo => trivial
  | vgaText => trivial
  | semaphore cnt => trivial

theorem SameEntries.polls {after : State} (same : SameEntries s after) {pid : Pid} {input : Input}
    (polls : s.Polls (s.overlay o) pid input) : after.Polls (after.overlay o) pid input := by
  cases input with
  | processWait =>
      simp only [State.Polls, same.reqs]
      exact polls
  | sleepDevice =>
      have tells : s.Tells (s.overlay o) pid .sleepDevice := polls
      exact same.tells tells
  | serialIo => trivial
  | vgaText => trivial
  | semaphore cnt => trivial

theorem interrupts_later (hw : Hardware) (irqs : List Irq) :
    hw.pitTicks ≤ (hw.interrupts irqs).pitTicks := by
  rw [interrupts_ticks]
  exact Nat.le_add_right _ _

theorem arrive_later (hw : Hardware) : hw.pitTicks ≤ hw.arrive.pitTicks := by
  rcases arrive_cases hw with ⟨_, same⟩ | ⟨batch, rest, _, taken⟩
  · rw [same]
  · rw [taken]
    exact interrupts_later { hw with incoming := rest } batch

theorem later_kept (ticks : Nat) : Kept fun hw => ticks ≤ hw.pitTicks where
  arrive := by
    intro hw later
    exact Nat.le_trans later (arrive_later hw)
  taken := by
    intro hw console ch rest _ later
    rw [setQueue_ticks]
    exact later

theorem inputRead_same (slot : Slot) (input : Input) (buffer size : Nat) :
    SameEntries s (inputRead s slot input buffer size).1 :=
  ⟨inputRead_reqs s slot input buffer size, inputRead_wake s slot input buffer size,
    (later_kept s.hw.pitTicks).inputRead (Nat.le_refl _) slot input buffer size⟩

theorem overlay_inputRead {input : Input}
    (tells : s.Tells (s.overlay o) s.currentProcess input) (slot : Slot) (buffer size : Nat) :
    inputRead (s.overlay o) slot input buffer size =
      ((inputRead s slot input buffer size).1.overlay o,
        (inputRead s slot input buffer size).2) := by
  cases input with
  | serialIo => rfl
  | vgaText => rfl
  | processWait =>
      have same : (s.overlay o).reqs (s.overlay o).currentProcess = s.reqs s.currentProcess := tells
      simp only [inputRead, readProcessWait, same]
      split_ifs
      · rfl
      · rfl
      · rfl
  | sleepDevice =>
      have later := arrive_later s.hw
      have early : s.hw.arrive.pitTicks < (s.overlay o).processSleepUntil s.currentProcess ↔
          s.hw.arrive.pitTicks < s.processSleepUntil s.currentProcess := by
        rcases tells with same | ⟨passed, passed'⟩
        · rw [same]
        · omega
      have hw : (s.overlay o).hw = s.hw := rfl
      have current : (s.overlay o).currentProcess = s.currentProcess := rfl
      simp only [inputRead, readSleepDevice, hw, current, early]
      split_ifs
      · rfl
      · rfl
  | semaphore cnt =>
      simp only [inputRead, readSemaphore]
      split_ifs
      · rfl
      · rfl
      · rfl

theorem overlay_poll {input : Input} (polls : s.Polls (s.overlay o) s.currentProcess input)
    (slot : Slot) :
    inputRead (s.overlay o) slot input 0 0 =
      ((inputRead s slot input 0 0).1.overlay o, (inputRead s slot input 0 0).2) := by
  cases input with
  | processWait =>
      have answered : ((s.overlay o).reqs (s.overlay o).currentProcess).pid = 0 ↔
          (s.reqs s.currentProcess).pid = 0 := polls.1
      have size : ¬ 0 = 4 := by decide
      simp only [inputRead, readProcessWait, if_neg size, ne_eq, answered]
      split_ifs
      · rfl
      · rfl
  | sleepDevice =>
      have tells : s.Tells (s.overlay o) s.currentProcess .sleepDevice := polls
      exact overlay_inputRead tells slot 0 0
  | serialIo => rfl
  | vgaText => rfl
  | semaphore cnt =>
      have tells : s.Tells (s.overlay o) s.currentProcess (.semaphore cnt) := trivial
      exact overlay_inputRead tells slot 0 0

def Overlay.over (o : Overlay) {α : Type} (result : State × α) : State × α :=
  (result.1.overlay o, result.2)

theorem overlay_doRead {slot : Slot} (tells : ∀ device, s.devices slot = some device →
      s.Tells (s.overlay o) s.currentProcess device.input) (p : ProcPtr) (buffer size : Nat) :
    doRead (s.overlay o) slot p buffer size = (doRead s slot p buffer size).map o.over := by
  have devices : (s.overlay o).devices slot = s.devices slot := rfl
  simp only [doRead, devices]
  cases found : s.devices slot with
  | none => rfl
  | some device =>
      simp only [overlay_inputRead (tells device found)]
      generalize inputRead s slot device.input buffer size = read
      split_ifs
      · have asleep := overlay_modify (o := o) (orphaned_state .sleeping) p.pid
          (t := read.1.toTables.modifyDevice slot fun device =>
            { device with pendingRequest := device.pendingRequest ++ [⟨p, buffer, size⟩] })
        rw [← overlay_modifyDevice] at asleep
        simp only [Except.map, Overlay.over, State.overlay, ← asleep]
      · rfl
      · rfl

theorem doRead_entries {slot : Slot} {device : Device} {p : ProcPtr} {buffer size : Nat}
    {after : State} {ret : Int} (found : s.devices slot = some device)
    (read : doRead s slot p buffer size = .ok (after, ret)) :
    SameEntries s after ∧ after.currentProcess = s.currentProcess ∧
      (∀ other, other ≠ slot → after.devices other = s.devices other) ∧
      ∀ kind req, after.Queued slot kind req →
        kind = device.input.kind ∧ (req ∈ device.pendingRequest ∨ req = ⟨p, buffer, size⟩) := by
  obtain ⟨current, spec⟩ := inputRead_spec found buffer size
  have same := inputRead_same (s := s) slot device.input buffer size
  simp only [doRead, found] at read
  rcases spec with ⟨blocked, tables, _⟩ | ⟨passed, input, tables, spec⟩
  · simp only [if_pos blocked] at read
    split_ifs at read
    simp only [Except.ok.injEq, Prod.mk.injEq] at read
    rw [← read.1]
    refine ⟨⟨same.reqs, same.wakes, same.ticks⟩, current, ?_, ?_⟩
    · intro other apart
      simp only [modify_devices, modifyDevice_devices, tables, if_neg apart]
    rintro kind req ⟨last, known, rfl, member⟩
    simp only [modify_devices, modifyDevice_devices, tables, if_true, found, Option.map_some,
      Option.some.injEq] at known
    rw [← known] at member ⊢
    refine ⟨rfl, ?_⟩
    rcases List.mem_append.mp member with old | new
    · exact Or.inl old
    · exact Or.inr (List.mem_singleton.mp new)
  · simp only [if_neg passed, Except.ok.injEq, Prod.mk.injEq] at read
    rw [← read.1]
    refine ⟨⟨same.reqs, same.wakes, same.ticks⟩, current, ?_, ?_⟩
    · intro other apart
      simp only [State.note_tables, note_devices, tables, modifyDevice_devices, if_neg apart]
    rintro kind req ⟨last, known, rfl, member⟩
    simp only [State.note_tables, note_devices, tables, modifyDevice_devices, if_true, found,
      Option.map_some, Option.some.injEq] at known
    rw [← known] at member ⊢
    exact ⟨spec.same_kind, Or.inl member⟩

theorem overlay_serve (slot : Slot) (now : PendingRead) (tells : ∀ device,
      s.devices slot = some device → s.Tells (s.overlay o) now.proc.pid device.input) :
    serve (s.overlay o) slot now = (serve s slot now).map (State.overlay o) := by
  have find : (s.overlay o).toTables.find now.proc =
      (s.toTables.find now.proc).map (Process.reparent (o.parents now.proc.pid)) :=
    overlay_find now.proc
  simp only [serve, find]
  cases s.toTables.find now.proc with
  | none => rfl
  | some proc =>
      have awake := overlay_modify (o := o) (t := s.toTables) (orphaned_state .runnable) now.proc.pid
      have state : ({ s.overlay o with
          toTables := (s.overlay o).toTables.modify now.proc.pid
            (Process.setProcessState .runnable), currentProcess := now.proc.pid } : State) =
          ({ s with
            toTables := s.toTables.modify now.proc.pid (Process.setProcessState .runnable)
            currentProcess := now.proc.pid } : State).overlay o := by
        simp only [State.overlay, ← awake]
      have reads := overlay_doRead (o := o) (s := { s with
          toTables := s.toTables.modify now.proc.pid (Process.setProcessState .runnable)
          currentProcess := now.proc.pid }) tells now.proc now.buffer now.size
      simp only [Option.map_some, state, reads]
      cases doRead { s with
          toTables := s.toTables.modify now.proc.pid (Process.setProcessState .runnable)
          currentProcess := now.proc.pid } slot now.proc now.buffer now.size with
      | error stop => rfl
      | ok result =>
          have stored := overlay_modify (o := o) (t := result.1.toTables)
            (orphaned_retval result.2) now.proc.pid
          simp only [Except.map, Overlay.over, State.overlay, ← stored]

theorem serve_entries {slot : Slot} {device : Device} {now : PendingRead} {after : State}
    (found : s.devices slot = some device) (served : serve s slot now = .ok after) :
    SameEntries s after ∧ after.currentProcess = now.proc.pid ∧
      ∀ kind req, after.Queued slot kind req →
        kind = device.input.kind ∧ (req ∈ device.pendingRequest ∨ req = now) := by
  simp only [serve] at served
  split at served
  · cases served
  · split at served
    · cases served
    · next read ret done =>
        rw [← Except.ok.inj served]
        have here : ({ s with
            toTables := s.toTables.modify now.proc.pid (Process.setProcessState .runnable)
            currentProcess := now.proc.pid } : State).devices slot = some device := found
        obtain ⟨⟨reqs, wakes, ticks⟩, current, _, queue⟩ := doRead_entries here done
        exact ⟨⟨reqs, wakes, ticks⟩, current, queue⟩

/-- The check of a device does the same under the overlay: each request finds what it finds
without it and, if there is one, so does the poll by the current process. -/
def Overlay.Fits (o : Overlay) (s : State) (slot : Slot) : Prop :=
  ∀ kind req, s.Queued slot kind req →
    s.Polls (s.overlay o) s.currentProcess kind ∧ s.Tells (s.overlay o) req.proc.pid kind

theorem Overlay.Fits.serve {slot : Slot} {device : Device} {now : PendingRead} {after : State}
    (fits : o.Fits s slot) (found : s.devices slot = some device)
    (member : now ∈ device.pendingRequest) (served : serve s slot now = .ok after) :
    o.Fits after slot := by
  obtain ⟨same, current, queue⟩ := serve_entries found served
  intro kind req queued
  obtain ⟨rfl, old⟩ := queue kind req queued
  have earlier : req ∈ device.pendingRequest := by
    rcases old with old | new
    · exact old
    · rw [new]
      exact member
  rw [current]
  have mine := fits _ now ⟨device, found, rfl, member⟩
  have theirs := fits _ req ⟨device, found, rfl, earlier⟩
  exact ⟨(same.tells mine.2).polls, same.tells theirs.2⟩

theorem overlay_checkLoop {slot : Slot} (fuel ind : Nat) (fits : o.Fits s slot) :
    checkLoop slot fuel ind (s.overlay o) = (checkLoop slot fuel ind s).map o.over := by
  induction fuel generalizing s ind with
  | zero => rfl
  | succ fuel ih =>
      have devices : (s.overlay o).devices slot = s.devices slot := rfl
      simp only [checkLoop, devices]
      cases found : s.devices slot with
      | none => rfl
      | some device =>
          dsimp only
          cases request : device.pendingRequest[ind]? with
          | none => rfl
          | some now =>
              have member : now ∈ device.pendingRequest := List.mem_of_getElem? request
              obtain ⟨polls, tells⟩ := fits _ now ⟨device, found, rfl, member⟩
              simp only [overlay_poll (polls_kind.mp polls)]
              have same := inputRead_same (s := s) slot device.input 0 0
              have current := (inputRead_spec found 0 0).1
              have tables := poll_tables found
              generalize inputRead s slot device.input 0 0 = poll at same current tables
              have known : poll.1.devices slot = some device := by
                rw [tables]
                exact found
              have fitsPoll : o.Fits poll.1 slot := by
                intro kind req queued
                rw [tables] at queued
                obtain ⟨polls, tells⟩ := fits kind req queued
                rw [current]
                exact ⟨same.polls polls, same.tells tells⟩
              split_ifs
              · rfl
              · have serves := overlay_serve (o := o) (s := poll.1) slot now (by
                  intro other read
                  rw [known] at read
                  rw [← Option.some.inj read]
                  exact same.tells (tells_kind.mp tells))
                rw [serves]
                cases served : serve poll.1 slot now with
                | error stop => rfl
                | ok after => exact ih (ind + 1) (fitsPoll.serve known member served)

theorem overlay_check {slot : Slot} (fits : o.Fits s slot) :
    check (s.overlay o) slot = (check s slot).map (State.overlay o) := by
  simp only [check, overlay_checkLoop maxPending 0 fits]
  cases checkLoop slot maxPending 0 s with
  | error stop => rfl
  | ok result => rfl

theorem checkLoop_entries {slot : Slot} {fuel ind last : Nat} {after : State}
    (looped : checkLoop slot fuel ind s = .ok (after, last)) : SameEntries s after := by
  induction fuel generalizing s ind with
  | zero =>
      simp only [checkLoop, Except.ok.injEq, Prod.mk.injEq] at looped
      rw [← looped.1]
      exact SameEntries.refl s
  | succ fuel ih =>
      simp only [checkLoop] at looped
      split at looped
      · cases looped
      · next device found =>
          split at looped
          · simp only [Except.ok.injEq, Prod.mk.injEq] at looped
            rw [← looped.1]
            exact SameEntries.refl s
          · next now request =>
              have same := inputRead_same (s := s) slot device.input 0 0
              split_ifs at looped
              · simp only [Except.ok.injEq, Prod.mk.injEq] at looped
                rw [← looped.1]
                exact same
              · split at looped
                · cases looped
                · next mid served =>
                    have known : (inputRead s slot device.input 0 0).1.devices slot =
                        some device := by
                      rw [poll_tables found]
                      exact found
                    exact (same.trans (serve_entries known served).1).trans (ih looped)

theorem check_entries {slot : Slot} {after : State} (checked : check s slot = .ok after) :
    SameEntries s after ∧ after.currentProcess = s.currentProcess := by
  simp only [check] at checked
  split at checked
  · cases checked
  · next mid ind looped =>
      have same := checkLoop_entries looped
      rw [← Except.ok.inj checked]
      exact ⟨⟨same.reqs, same.wakes, same.ticks⟩, rfl⟩

theorem checkSlot_entries {arrivals : Arrivals} {slot : Slot} {after : State}
    (checked : checkSlot arrivals s slot = .ok after) :
    SameEntries s after ∧ after.currentProcess = s.currentProcess := by
  have later : s.hw.pitTicks ≤ ((s.hw.interrupts (arrivals.before slot)).expect
      (arrivals.during slot)).pitTicks := interrupts_later s.hw (arrivals.before slot)
  simp only [checkSlot] at checked
  split at checked
  · rw [← Except.ok.inj checked]
    exact ⟨⟨rfl, rfl, later⟩, rfl⟩
  · obtain ⟨same, current⟩ := check_entries checked
    exact ⟨⟨same.reqs, same.wakes, Nat.le_trans later same.ticks⟩, current⟩

def Tables.NoNewer (t after : Tables) : Prop :=
  ∀ slot kind req, after.Queued slot kind req → t.Queued slot kind req

theorem noNewer_run {t' : Tables} {labels : Label → Prop} (run : RunOf Act labels t t')
    (aside : ∀ slot p, ¬ labels (.block slot p)) : t.NoNewer t' := by
  apply run.invariant (fun mid => t.NoNewer mid) (fun _ _ _ queued => queued)
  intro mid label next allowed earlier act slot kind req queued
  rcases act.queued_before queued with before | ⟨blocks, _⟩
  · exact earlier slot kind req before
  · rw [blocks] at allowed
    exact absurd allowed (aside slot req.proc)

theorem noNewer_checkSlot {arrivals : Arrivals} {slot : Slot} {after : State}
    (checked : checkSlot arrivals s slot = .ok after) : s.toTables.NoNewer after.toTables :=
  noNewer_run (checkSlot_acts checked).1 fun _ _ blocks => blocks

theorem Overlay.Fits.later {slot : Slot} {after : State} (fits : o.Fits s slot)
    (same : SameEntries s after) (current : after.currentProcess = s.currentProcess)
    (older : s.toTables.NoNewer after.toTables) : o.Fits after slot := by
  intro kind req queued
  obtain ⟨polls, tells⟩ := fits kind req (older slot kind req queued)
  rw [current]
  exact ⟨same.polls polls, same.tells tells⟩

theorem overlay_checkSlot (arrivals : Arrivals) {slot : Slot} (fits : o.Fits s slot) :
    checkSlot arrivals (s.overlay o) slot =
      (checkSlot arrivals s slot).map (State.overlay o) := by
  have devices : (s.overlay o).devices slot = s.devices slot := rfl
  simp only [checkSlot, devices]
  cases s.devices slot with
  | none => rfl
  | some device =>
      have ready : o.Fits ({ s with
          hw := (s.hw.interrupts (arrivals.before slot)).expect (arrivals.during slot) } : State)
          slot := by
        refine fits.later ⟨rfl, rfl, ?_⟩ rfl fun _ _ _ queued => queued
        exact interrupts_later s.hw (arrivals.before slot)
      exact overlay_check ready

theorem checkAll_entries {arrivals : Arrivals} {after : State}
    (checked : checkAll arrivals s = .ok after) : SameEntries s after := by
  simp only [checkAll] at checked
  exact checkSlots_keeps (SameEntries s) (fun _ _ _ same taken =>
    same.trans (checkSlot_entries taken).1) (SameEntries.refl s) checked

theorem overlay_checkAll (arrivals : Arrivals) (fits : ∀ slot, o.Fits s slot) :
    checkAll arrivals (s.overlay o) = (checkAll arrivals s).map (State.overlay o) := by
  simp only [checkAll]
  induction List.finRange 64 generalizing s with
  | nil => rfl
  | cons slot rest ih =>
      rw [List.foldlM_cons, List.foldlM_cons, overlay_checkSlot arrivals (fits slot)]
      cases first : checkSlot arrivals s slot with
      | error stop => rfl
      | ok mid =>
          obtain ⟨same, current⟩ := checkSlot_entries first
          exact ih fun other => (fits other).later same current (noNewer_checkSlot first)

end Devices

section Calls

/-- The entries of a state and of an overlay, before and after a call. -/
structure Moved (o : Overlay) (s : State) (o' : Overlay) (after : State) : Prop where
  ticks : s.hw.pitTicks ≤ after.hw.pitTicks
  reqs : ∀ pid, o.reqs pid = s.reqs pid → o'.reqs pid = after.reqs pid
  wakes : ∀ pid, o'.wakes pid = o.wakes pid ∧
      after.processSleepUntil pid = s.processSleepUntil pid ∨
    o'.wakes pid = after.processSleepUntil pid
  polls : s.Polls (s.overlay o) after.currentProcess .processWait →
    after.Polls (after.overlay o') after.currentProcess .processWait

theorem Moved.tells {o' : Overlay} {after : State} (moved : Moved o s o' after) {pid : Pid}
    {input : Input} (tells : s.Tells (s.overlay o) pid input) :
    after.Tells (after.overlay o') pid input := by
  cases input with
  | processWait => exact moved.reqs pid tells
  | sleepDevice =>
      rcases moved.wakes pid with ⟨above, under⟩ | same
      · have later := moved.ticks
        have wake : (after.overlay o').processSleepUntil pid = o.wakes pid := above
        simp only [State.Tells, wake, under]
        rcases tells with equal | ⟨passed, passed'⟩
        · exact Or.inl equal
        · exact Or.inr ⟨Nat.le_trans passed later, Nat.le_trans passed' later⟩
      · exact Or.inl same
  | serialIo => trivial
  | vgaText => trivial
  | semaphore cnt => trivial

theorem Moved.polls_all {o' : Overlay} {after : State} (moved : Moved o s o' after) {kind : Input}
    (polls : s.Polls (s.overlay o) after.currentProcess kind) :
    after.Polls (after.overlay o') after.currentProcess kind := by
  cases kind with
  | processWait => exact moved.polls polls
  | sleepDevice =>
      have tells : s.Tells (s.overlay o) after.currentProcess .sleepDevice := polls
      exact (moved.tells tells).polls
  | serialIo => trivial
  | vgaText => trivial
  | semaphore cnt => trivial

theorem Moved.of_same {o' : Overlay} {after : State} (same : SameEntries s after)
    (reqs : o'.reqs = o.reqs) (wakes : o'.wakes = o.wakes) : Moved o s o' after where
  ticks := same.ticks
  reqs := by
    intro pid equal
    rw [reqs, same.reqs, equal]
  wakes := by
    intro pid
    exact Or.inl ⟨congrFun wakes pid, congrFun same.wakes pid⟩
  polls := by
    intro polls
    have above : (after.overlay o').reqs = (s.overlay o).reqs := reqs
    simp only [State.Polls, above, same.reqs]
    exact polls

/-- A call under an overlay stops as it does without, or returns the same. -/
def Overlay.Follows (o : Overlay) (s : State) (result result' : Except Stop (State × Int)) : Prop :=
  (∃ stop, result = .error stop ∧ result' = .error stop) ∨
    ∃ after ret o', result = .ok (after, ret) ∧ result' = .ok (after.overlay o', ret) ∧
      Moved o s o' after

theorem Overlay.Follows.of_over {result : Except Stop (State × Int)}
    {result' : Except Stop (State × Int)} (equal : result' = result.map o.over)
    (same : ∀ after ret, result = .ok (after, ret) → SameEntries s after) :
    o.Follows s result result' := by
  cases result with
  | error stop => exact Or.inl ⟨stop, rfl, equal⟩
  | ok pair => exact Or.inr ⟨pair.1, pair.2, o, rfl, equal, Moved.of_same (same _ _ rfl) rfl rfl⟩

theorem Overlay.Follows.ok {after : State} {ret : Int} (same : SameEntries s after) :
    o.Follows s (.ok (after, ret)) (.ok (after.overlay o, ret)) :=
  Or.inr ⟨after, ret, o, rfl, rfl, Moved.of_same same rfl rfl⟩

theorem Overlay.Follows.error (stop : Stop) : o.Follows s (.error stop) (.error stop) :=
  Or.inl ⟨stop, rfl, rfl⟩

variable {proc : Process}

def State.ReadsAlike (s s' : State) (proc : Process) (fd : Nat) : Prop :=
  ∀ slot device, getObject proc fd = .ok (some (.device slot)) → s.devices slot = some device →
    s.Tells s' s.currentProcess device.input

theorem overlay_readDevice {slot : Slot} (tells : ∀ device, s.devices slot = some device →
      s.Tells (s.overlay o) s.currentProcess device.input) (buffer size : Nat) :
    readDevice (s.overlay o) slot buffer size = (readDevice s slot buffer size).map o.over := by
  have process : (s.overlay o).processList (s.overlay o).currentProcess =
      (s.processList s.currentProcess).map
        (Process.reparent (o.parents s.currentProcess)) := rfl
  have devices : (s.overlay o).devices slot = s.devices slot := rfl
  simp only [readDevice, process, devices]
  cases s.processList s.currentProcess with
  | none => rfl
  | some proc =>
      cases found : s.devices slot with
      | none => rfl
      | some device =>
          exact overlay_doRead (s := s.note (.issued device.serial
            ⟨s.currentProcess, proc.serial⟩ size)) tells ⟨s.currentProcess, proc.serial⟩ buffer size

theorem readDevice_entries {slot : Slot} {buffer size : Nat} {after : State} {ret : Int}
    (read : readDevice s slot buffer size = .ok (after, ret)) : SameEntries s after := by
  simp only [readDevice] at read
  split at read
  · next proc device _ found =>
      have here : (s.note (.issued device.serial ⟨s.currentProcess, proc.serial⟩ size)).devices
          slot = some device := found
      obtain ⟨reqs, wakes, ticks⟩ := (doRead_entries here read).1
      exact ⟨reqs, wakes, ticks⟩
  · cases read

theorem readHandler_queued {fd buffer size : Nat} {after : State} {ret : Int}
    (found : s.processList s.currentProcess = some proc)
    (read : readHandler s proc fd buffer size = .ok (after, ret)) {slot : Slot} {kind : Input}
    {req : PendingRead} (queued : after.Queued slot kind req) :
    s.Queued slot kind req ∨ req.proc.pid = s.currentProcess ∧ ∃ device,
      getObject proc fd = .ok (some (.device slot)) ∧ s.devices slot = some device ∧
        kind = device.input.kind := by
  simp only [readHandler] at read
  split at read
  · cases read
  · simp only [Except.ok.injEq, Prod.mk.injEq] at read
    rw [← read.1] at queued
    exact Or.inl queued
  · next there got =>
      simp only [readDevice, found] at read
      split at read
      · next issuer device _ known =>
          obtain ⟨_, _, others, queue⟩ := doRead_entries (s := s.note _) known read
          by_cases here : slot = there
          · subst here
            obtain ⟨same, old | new⟩ := queue kind req queued
            · exact Or.inl ⟨device, known, same.symm, old⟩
            · refine Or.inr ⟨?_, device, got, known, same⟩
              rw [new]
          · obtain ⟨holder, held, rest⟩ := queued
            rw [others slot here] at held
            exact Or.inl ⟨holder, held, rest⟩
      · cases read
  · simp only [Except.ok.injEq, readFile] at read
    split at read
    · simp only [Prod.mk.injEq] at read
      rw [← read.1] at queued
      exact Or.inl queued
    · simp only [Prod.mk.injEq] at read
      rw [← read.1] at queued
      exact Or.inl queued
  · simp only [Except.ok.injEq, Prod.mk.injEq] at read
    rw [← read.1] at queued
    exact Or.inl queued

theorem overlay_readHandler (ppid : Option Pid) (fd buffer size : Nat)
    (reads : s.ReadsAlike (s.overlay o) proc fd) :
    o.Follows s (readHandler s proc fd buffer size)
      (readHandler (s.overlay o) (proc.reparent ppid) fd buffer size) := by
  have object : getObject (proc.reparent ppid) fd = getObject proc fd := rfl
  simp only [readHandler, object]
  cases got : getObject proc fd with
  | error stop => exact Overlay.Follows.error stop
  | ok held =>
      cases held with
      | none => exact Overlay.Follows.ok (SameEntries.refl s)
      | some obj =>
          cases obj with
          | device slot =>
              have tells : ∀ device, s.devices slot = some device →
                  s.Tells (s.overlay o) s.currentProcess device.input :=
                fun device => reads slot device got
              exact Overlay.Follows.of_over (overlay_readDevice tells buffer size)
                fun _ _ read => readDevice_entries read
          | file id =>
              have files : (s.overlay o).files = s.files := rfl
              simp only [readFile, files]
              cases s.files[id]? with
              | none => exact Overlay.Follows.ok (SameEntries.refl s)
              | some file => exact Overlay.Follows.ok ⟨rfl, rfl, Nat.le_refl _⟩
          | segment base size => exact Overlay.Follows.ok (SameEntries.refl s)

theorem overlay_writeProcessWait (trap : Trap) (p : ProcPtr) (data size : Nat) :
    o.Follows s (.ok (writeProcessWait s trap p data size))
      (.ok (writeProcessWait (s.overlay o) trap p data size)) := by
  have mem : (s.overlay o).mem = s.mem := rfl
  have alive : ∀ pid, ((s.overlay o).processList pid).isSome = (s.processList pid).isSome :=
    fun pid => overlay_isSome (t := s.toTables) pid
  have codes : (s.overlay o).lastExitCode = s.lastExitCode := rfl
  simp only [writeProcessWait, mem, alive, codes]
  by_cases four : size ≠ 4
  · rw [if_pos four, if_pos four]
    exact Overlay.Follows.ok (SameEntries.refl s)
  · rw [if_neg four, if_neg four]
    generalize (if inside : loadWord s.mem data < 32 then
        if (s.processList ⟨loadWord s.mem data, inside⟩).isSome then
          (⟨loadWord s.mem data, 0⟩ : WaitReq)
        else ⟨0, s.lastExitCode ⟨loadWord s.mem data, inside⟩⟩
      else if trap.occupied then ⟨loadWord s.mem data, 0⟩ else ⟨0, trap.exitCode⟩) = req
    refine Or.inr ⟨_, _, { o with reqs := Function.update o.reqs s.currentProcess req }, rfl, rfl,
      Nat.le_refl _, ?_, fun pid => Or.inl ⟨rfl, rfl⟩, ?_⟩
    · intro pid equal
      by_cases mine : pid = s.currentProcess
      · subst mine
        simp
      · simp [mine, equal]
    · intro _
      apply State.Tells.polls
      simp [State.Tells, State.overlay, Tables.overlay]

theorem overlay_writeSleepDevice (data size : Nat) :
    o.Follows s (.ok (writeSleepDevice s data size))
      (.ok (writeSleepDevice (s.overlay o) data size)) := by
  have mem : (s.overlay o).mem = s.mem := rfl
  have hw : (s.overlay o).hw = s.hw := rfl
  simp only [writeSleepDevice, mem, hw]
  by_cases four : size ≠ 4
  · rw [if_pos four, if_pos four]
    exact Overlay.Follows.ok (SameEntries.refl s)
  · rw [if_neg four, if_neg four]
    generalize s.hw.arrive.pitTicks + loadWord s.mem data = wake
    refine Or.inr ⟨_, _, { o with wakes := Function.update o.wakes s.currentProcess wake }, rfl,
      rfl, arrive_later s.hw, fun pid equal => equal, ?_, fun polls => polls⟩
    intro pid
    by_cases mine : pid = s.currentProcess
    · subst mine
      simp
    · simp [mine]

theorem overlay_writeHandler (ppid : Option Pid) (trap : Trap) (fd buffer size : Nat) :
    o.Follows s (writeHandler s trap proc fd buffer size)
      (writeHandler (s.overlay o) trap (proc.reparent ppid) fd buffer size) := by
  have object : getObject (proc.reparent ppid) fd = getObject proc fd := rfl
  simp only [writeHandler, object]
  cases getObject proc fd with
  | error stop => exact Overlay.Follows.error stop
  | ok held =>
      cases held with
      | none => exact Overlay.Follows.ok (SameEntries.refl s)
      | some obj =>
          cases obj with
          | file id => exact Overlay.Follows.ok (SameEntries.refl s)
          | segment base size => exact Overlay.Follows.ok (SameEntries.refl s)
          | device slot =>
              have devices : (s.overlay o).devices slot = s.devices slot := rfl
              simp only [writeDevice, devices]
              cases s.devices slot with
              | none => exact Overlay.Follows.error _
              | some device =>
                  cases input : device.input with
                  | serialIo => simp only [input]; exact Overlay.Follows.ok (SameEntries.refl s)
                  | vgaText => simp only [input]; exact Overlay.Follows.ok (SameEntries.refl s)
                  | processWait => simp only [input]; exact overlay_writeProcessWait _ _ _ _
                  | sleepDevice => simp only [input]; exact overlay_writeSleepDevice _ _
                  | semaphore cnt =>
                      simp only [input]
                      exact Overlay.Follows.ok ⟨rfl, rfl, Nat.le_refl _⟩

theorem addObject_reqs {t' : Tables} {pid : Pid} {obj : Object} {pos : Fd}
    (added : t.addObject pid obj = some (pos, t')) : t'.reqs = t.reqs := by
  simp only [Tables.addObject, Option.map_eq_some_iff, Prod.mk.injEq] at added
  obtain ⟨_, _, rfl, rfl⟩ := added
  rfl

theorem overlay_openHandler (fs : FileSystem) (filename : Nat) :
    o.Follows s (openHandler fs s filename) (openHandler fs (s.overlay o) filename) := by
  have mem : (s.overlay o).mem = s.mem := rfl
  have files : (s.overlay o).files = s.files := rfl
  have adds : ∀ obj, (s.overlay o).toTables.addObject (s.overlay o).currentProcess obj =
      (s.toTables.addObject s.currentProcess obj).map fun found => (found.1, found.2.overlay o) :=
    fun obj => overlay_addObject s.currentProcess obj
  simp only [openHandler, mem, files, adds]
  cases specialPath (loadString s.mem filename) with
  | some obj =>
      dsimp only
      cases added : s.toTables.addObject s.currentProcess obj with
      | none => exact Overlay.Follows.ok (SameEntries.refl s)
      | some found => exact Overlay.Follows.ok ⟨addObject_reqs added, rfl, Nat.le_refl _⟩
  | none =>
      cases fs.openFile (loadString s.mem filename) with
      | none => exact Overlay.Follows.ok (SameEntries.refl s)
      | some image =>
          dsimp only
          cases added : s.toTables.addObject s.currentProcess (.file s.files.length) with
          | none => exact Overlay.Follows.ok (SameEntries.refl s)
          | some found => exact Overlay.Follows.ok ⟨addObject_reqs added, rfl, Nat.le_refl _⟩

theorem removeObject_reqs (pid : Pid) (pos : Fd) : (t.removeObject pid pos).reqs = t.reqs := by
  obtain ⟨_, _, same⟩ := removeObject_rest t pid pos
  rw [same]

theorem overlay_closeHandler (fd : Nat) :
    o.Follows s (.ok (closeHandler s fd, 0)) (.ok (closeHandler (s.overlay o) fd, 0)) := by
  simp only [closeHandler]
  by_cases inside : fd < 128
  · rw [dif_pos inside, dif_pos inside]
    have removed := overlay_removeObject (o := o) (t := s.toTables) s.currentProcess ⟨fd, inside⟩
    refine Or.inr ⟨_, 0, o, rfl, ?_, Moved.of_same
      ⟨removeObject_reqs s.currentProcess ⟨fd, inside⟩, rfl, Nat.le_refl _⟩ rfl rfl⟩
    simp only [State.overlay, ← removed]
  · rw [dif_neg inside, dif_neg inside]
    exact Overlay.Follows.ok (SameEntries.refl s)

theorem overlay_dup2Handler (ppid : Option Pid) (oldfd newfd : Nat) :
    o.Follows s (dup2Handler s proc oldfd newfd)
      (dup2Handler (s.overlay o) (proc.reparent ppid) oldfd newfd) := by
  have object : getObject (proc.reparent ppid) oldfd = getObject proc oldfd := rfl
  simp only [dup2Handler, object]
  by_cases equal : oldfd = newfd
  · rw [if_pos equal, if_pos equal]
    exact Overlay.Follows.ok (SameEntries.refl s)
  · rw [if_neg equal, if_neg equal]
    cases getObject proc oldfd with
    | error stop => exact Overlay.Follows.error stop
    | ok held =>
        cases held with
        | none => exact Overlay.Follows.ok (SameEntries.refl s)
        | some obj =>
            by_cases inside : newfd < 128
            · simp only [dif_pos inside]
              have placed := overlay_setObject (o := o) (t := s.toTables) s.currentProcess
                ⟨newfd, inside⟩ obj
              refine Or.inr ⟨_, 0, o, rfl, ?_, Moved.of_same
                ⟨removeObject_reqs s.currentProcess ⟨newfd, inside⟩, rfl, Nat.le_refl _⟩ rfl rfl⟩
              simp only [State.overlay, ← placed]
            · simp only [dif_neg inside]
              exact Overlay.Follows.ok (SameEntries.refl s)

theorem overlay_semCreateHandler (cnt : Nat) :
    o.Follows s (semCreateHandler s cnt) (semCreateHandler (s.overlay o) cnt) := by
  have slots : (s.overlay o).toTables.freeDevice = s.toTables.freeDevice := rfl
  simp only [semCreateHandler, slots]
  cases s.toTables.freeDevice with
  | none => exact Overlay.Follows.error _
  | some slot =>
      have adds : ((s.overlay o).toTables.newSemaphore slot (toInt32 cnt)).addObject
          (s.overlay o).currentProcess (.device slot) =
            ((s.toTables.newSemaphore slot (toInt32 cnt)).addObject s.currentProcess
              (.device slot)).map fun found => (found.1, found.2.overlay o) :=
        overlay_addObject (t := s.toTables.newSemaphore slot (toInt32 cnt)) s.currentProcess _
      simp only [adds]
      cases added : (s.toTables.newSemaphore slot (toInt32 cnt)).addObject s.currentProcess
          (.device slot) with
      | none => exact Overlay.Follows.error _
      | some found =>
          have reqs : found.2.reqs = (s.toTables.newSemaphore slot (toInt32 cnt)).reqs :=
            addObject_reqs added
          exact Overlay.Follows.ok ⟨reqs, rfl, Nat.le_refl _⟩

theorem overlay_readdirHandler (ppid : Option Pid) (fd array n : Nat) :
    o.Follows s (readdirHandler s proc fd array n)
      (readdirHandler (s.overlay o) (proc.reparent ppid) fd array n) := by
  have object : getObject (proc.reparent ppid) fd = getObject proc fd := rfl
  have files : (s.overlay o).files = s.files := rfl
  simp only [readdirHandler, object, files]
  cases getObject proc fd with
  | error stop => exact Overlay.Follows.error stop
  | ok held =>
      cases held with
      | none => exact Overlay.Follows.ok (SameEntries.refl s)
      | some obj =>
          cases obj with
          | device slot => exact Overlay.Follows.ok (SameEntries.refl s)
          | segment base size => exact Overlay.Follows.ok (SameEntries.refl s)
          | file id =>
              dsimp only
              cases s.files[id]? with
              | none => exact Overlay.Follows.ok (SameEntries.refl s)
              | some file =>
                  dsimp only
                  cases file.image.listing with
                  | none => exact Overlay.Follows.ok (SameEntries.refl s)
                  | some listing => exact Overlay.Follows.ok ⟨rfl, rfl, Nat.le_refl _⟩

theorem resche_entries {after : State} (ran : resche s = .ok after) :
    SameEntries s after ∧ after.devices = s.devices := by
  simp only [resche] at ran
  split at ran
  · cases ran
  · rw [← Except.ok.inj ran]
    exact ⟨⟨rfl, rfl, Nat.le_refl _⟩, rfl⟩

theorem overlay_yield :
    o.Follows s ((resche s).map fun s => (s, 0)) ((resche (s.overlay o)).map fun s => (s, 0)) := by
  rw [overlay_resche]
  cases ran : resche s with
  | error stop => exact Overlay.Follows.error stop
  | ok after => exact Overlay.Follows.ok (resche_entries ran).1

theorem clone_entries {place : Placement} {pid child : Pid} {mode : CloneMode} {after : State}
    (cloned : clone place s pid mode = .ok (after, child)) :
    SameEntries s after ∧ s.toTables.freeSlot = some child ∧ after.currentProcess = child := by
  obtain ⟨_, _, chosen, ⟨_, rfl⟩ | ⟨_, _, _, rfl⟩⟩ := clone_ok cloned
  · exact ⟨⟨rfl, rfl, Nat.le_refl _⟩, chosen, rfl⟩
  · exact ⟨⟨rfl, rfl, Nat.le_refl _⟩, chosen, rfl⟩

theorem overlay_spawns (place : Placement) (pid : Pid) (mode : CloneMode) :
    o.Follows s ((clone place s pid mode).map fun (s, child) => (s, (child.val : Int)))
      ((clone place (s.overlay o) pid mode).map fun (s, child) => (s, (child.val : Int))) := by
  rcases overlay_clone (o := o) (s := s) pid place mode with
    ⟨stop, stopped, stopped'⟩ | ⟨child, after, cloned, cloned'⟩
  · rw [stopped, stopped']
    exact Overlay.Follows.error stop
  · rw [cloned, cloned']
    exact Or.inr ⟨after, child.val, o.born pid child, rfl, rfl,
      Moved.of_same (clone_entries cloned).1 rfl rfl⟩

theorem restoreParent_entries (ppid : Option Pid) : SameEntries s (restoreParent s ppid) := by
  cases ppid with
  | none => exact SameEntries.refl s
  | some parent =>
      simp only [restoreParent, restoreStack]
      split
      · exact SameEntries.refl s
      · split
        · exact SameEntries.refl s
        · exact ⟨rfl, rfl, Nat.le_refl _⟩

theorem removeObjects_reqs (pid : Pid) (drop : Fd → Bool) :
    (t.removeObjects pid drop).reqs = t.reqs := by
  simp only [Tables.removeObjects]
  induction List.finRange 128 generalizing t with
  | nil => rfl
  | cons pos rest ih =>
      simp only [List.foldl_cons]
      split_ifs
      · rw [ih, removeObject_reqs]
      · exact ih

theorem deleteProcess_entries (pid : Pid) (code : Nat) :
    SameEntries { s with toTables := s.toTables.processExit pid code } (deleteProcess s pid code) ∧
      (deleteProcess s pid code).currentProcess = s.currentProcess := by
  simp only [deleteProcess]
  split
  · exact ⟨SameEntries.refl _, rfl⟩
  · next proc found =>
      generalize gone : ((s.toTables.removeObjects pid fun _ => true).setProcess pid none).note
        (.exited ⟨pid, proc.serial⟩ code) = t
      have reqs : t.reqs = s.reqs := by
        rw [← gone, note_reqs, setProcess_reqs, removeObjects_reqs]
      have same := restoreParent_entries (s := { s with toTables := t }) proc.ppid
      have kept : (restoreParent { s with toTables := t } proc.ppid).reqs = s.reqs :=
        same.reqs.trans reqs
      refine ⟨⟨?_, same.wakes, same.ticks⟩, restoreParent_current _ _⟩
      simp only [Tables.processExit, kept]

theorem overlay_exit (pid : Pid) (code : Nat) (current : s.currentProcess = pid)
    (harmless : s.toTables.Harmless o pid) :
    o.Follows s (.ok (deleteProcess s pid code, 0))
      (.ok (deleteProcess (s.overlay o) pid code, 0)) := by
  obtain ⟨same, here⟩ := deleteProcess_entries (s := s) pid code
  rw [overlay_deleteProcess harmless code]
  refine Or.inr ⟨_, 0, o.exited pid code, rfl, rfl, same.ticks, ?_, ?_, ?_⟩
  · intro waiter equal
    simp only [same.reqs, Overlay.exited, Tables.processExit, equal]
  · intro waiter
    exact Or.inl ⟨rfl, congrFun same.wakes waiter⟩
  · intro polls
    rw [here, current] at polls ⊢
    have above : ((deleteProcess s pid code).overlay (o.exited pid code)).reqs =
        (o.exited pid code).reqs := rfl
    have under : (s.overlay o).reqs = o.reqs := rfl
    simp only [State.Polls, above, under] at polls ⊢
    simp only [same.reqs, Overlay.exited, Tables.processExit]
    obtain ⟨answered, itself⟩ := polls
    by_cases mine : (s.reqs pid).pid = pid.val
    · rw [if_pos mine, if_pos (itself.mpr mine)]
      exact ⟨Iff.rfl, Iff.rfl⟩
    · have others : ¬ (o.reqs pid).pid = pid.val := fun same => mine (itself.mp same)
      rw [if_neg mine, if_neg others]
      exact ⟨answered, itself⟩

theorem linksAt_loadSections (content : List UInt8) (around : Surroundings) (pid : Pid)
    (index : Nat) (sections : List Section) (m : Mem) :
    (loadSections content around pid index sections t m).1.linksAt = t.linksAt ∧
      (loadSections content around pid index sections t m).1.reqs = t.reqs := by
  induction sections generalizing index t m with
  | nil => exact ⟨rfl, rfl⟩
  | cons sec rest ih =>
      simp only [loadSections]
      split
      · exact ⟨rfl, rfl⟩
      · next pos t' added =>
          obtain ⟨links, reqs⟩ := ih (t := t') (index + 1)
            (copyTo m (sec.relocate pid) (sectionBytes content around index sec))
          exact ⟨links.trans (linksAt_addObject added), reqs.trans (addObject_reqs added)⟩

theorem overlay_loadSections (content : List UInt8) (around : Surroundings) (pid : Pid)
    (index : Nat) (sections : List Section) (m : Mem) :
    loadSections content around pid index sections (t.overlay o) m =
      ((loadSections content around pid index sections t m).1.overlay o,
        (loadSections content around pid index sections t m).2) := by
  induction sections generalizing index t m with
  | nil => rfl
  | cons sec rest ih =>
      simp only [loadSections, overlay_addObject]
      cases t.addObject pid (.segment (sec.relocate pid) sec.limit) with
      | none => rfl
      | some found => exact ih _ _

theorem orphaned_start (tss : Tss) :
    Orphaned fun proc : Process => { proc with usermodeState := tss } := fun _ _ => rfl

theorem overlay_install (place : Placement) (pid : Pid) (call : ExecCall) (content : List UInt8)
    (around : Surroundings) (sections : List Section) (entry : Nat) :
    install place (s.overlay o) pid call content around sections entry =
      ((install place s pid call content around sections entry).1.overlay o,
        (install place s pid call content around sections entry).2) := by
  have tables : (s.overlay o).toTables = s.toTables.overlay o := rfl
  have mem : (s.overlay o).mem = s.mem := rfl
  simp only [install, tables, mem, overlay_removeObjects, overlay_modify (orphaned_start _),
    overlay_loadSections]
  rfl

theorem install_entries (place : Placement) (pid : Pid) (call : ExecCall) (content : List UInt8)
    (around : Surroundings) (sections : List Section) (entry : Nat) :
    SameEntries s (install place s pid call content around sections entry).1 ∧
      (install place s pid call content around sections entry).1.linksAt = s.linksAt := by
  simp only [install]
  obtain ⟨links, reqs⟩ := linksAt_loadSections content around pid 0 sections
    (storeStack place pid call.args s.mem)
    (t := (s.toTables.removeObjects pid fun pos =>
      !keepsObject call.keepLow call.keepHigh pos).modify pid fun proc =>
        { proc with usermodeState := startTss place pid entry })
  refine ⟨⟨?_, rfl, Nat.le_refl _⟩, ?_⟩
  · rw [reqs, modify_reqs, removeObjects_reqs]
  · rw [links, linksAt_modify, linksAt_removeObjects]
    intro proc
    rfl

theorem overlay_finishExec {pid : Pid} (harmless : s.toTables.Harmless o pid) :
    finishExec (s.overlay o) pid = (finishExec s pid).overlay o := by
  have same : (s.overlay o).processList pid =
      (s.processList pid).map (Process.reparent (o.parents pid)) := rfl
  simp only [finishExec, same]
  cases found : s.processList pid with
  | none => rfl
  | some proc =>
      have kin : s.toTables.linksAt pid = some (proc.ppid, proc.stackBackup) := by
        simp only [Tables.linksAt, found, Option.map_some]
      exact restoreParent_either (s := s.note (.execed ⟨pid, proc.serial⟩))
        (harmless proc.ppid proc.stackBackup kin)

theorem finishExec_entries (pid : Pid) : SameEntries s (finishExec s pid) := by
  simp only [finishExec]
  split
  · exact SameEntries.refl s
  · next proc found =>
      obtain ⟨reqs, wakes, ticks⟩ :=
        restoreParent_entries (s := s.note (.execed ⟨pid, proc.serial⟩)) proc.ppid
      exact ⟨reqs, wakes, ticks⟩

theorem overlay_exec {place : Placement} {pid : Pid} {call : ExecCall} {content : List UInt8}
    {around : Surroundings} {sections : List Section} {entry : Nat}
    (harmless : sections.all Section.fits → s.toTables.Harmless o pid) :
    exec place (s.overlay o) pid call content around sections entry =
      (exec place s pid call content around sections entry).map
        fun result => result.map (State.overlay o) := by
  simp only [exec]
  by_cases fits : sections.all Section.fits
  · rw [if_pos fits, if_pos fits]
    split_ifs
    · rw [overlay_install]
      obtain ⟨_, links⟩ := install_entries (s := s) place pid call content around sections entry
      generalize install place s pid call content around sections entry = built at links
      obtain ⟨installed, done⟩ := built
      cases done with
      | false => rfl
      | true =>
          have still : installed.toTables.Harmless o pid := (harmless fits).congr links
          simp only [overlay_finishExec still]
          rfl
    · rfl
  · rw [if_neg fits, if_neg fits]
    rfl

theorem overlay_execv {fs : FileSystem} {place : Placement} {pid : Pid} {path : List UInt8}
    {call : ExecCall} {around : Surroundings}
    (harmless : Loads fs path around → s.toTables.Harmless o pid) :
    execv fs place (s.overlay o) pid path call around =
      (execv fs place s pid path call around).map o.over := by
  simp only [execv]
  cases found : fs.openFile path with
  | none => rfl
  | some image =>
      dsimp only
      by_cases ident : elfIdent (fileBytes image.content around 0)
      · rw [if_pos ident, if_pos ident]
        split_ifs
        · cases stored : storeSections (fileBytes image.content around 1)
              (countSections (fileBytes image.content around 0)) (staleTable around) with
          | none => rfl
          | some table =>
              dsimp only
              rw [overlay_exec fun fits => harmless ⟨image, table, found, ident, stored, fits⟩]
              cases exec place s pid call image.content around
                  ((List.range (countSections (fileBytes image.content around 0))).map table)
                  (elfEntry (fileBytes image.content around 1)) with
              | error stop => rfl
              | ok result =>
                  cases result with
                  | none => rfl
                  | some after => rfl
        · rfl
        · rfl
        · rfl
      · rw [if_neg ident, if_neg ident]
        split_ifs
        · rfl
        · rfl

theorem execv_entries {fs : FileSystem} {place : Placement} {pid : Pid} {path : List UInt8}
    {call : ExecCall} {around : Surroundings} {after : State} {ret : Int}
    (run : execv fs place s pid path call around = .ok (after, ret)) : SameEntries s after := by
  rcases execv_cases run with ⟨rfl, _⟩ | ⟨_, _, content, sections, entry, installed, built, rfl⟩
  · exact SameEntries.refl after
  · have same := (install_entries (s := s) place pid call content around sections entry).1
    rw [built] at same
    exact same.trans (finishExec_entries pid)

theorem overlay_applyHandler {fs : FileSystem} {place : Placement} {trap : Trap} (ppid : Option Pid)
    {callsys : Callsys}
    (reads : callsys = .read → s.ReadsAlike (s.overlay o) proc proc.usermodeState.ebx)
    (harmless : callsys = .exit ∨ callsys = .exec ∧
      Loads fs (loadString s.mem proc.usermodeState.ebx) trap.around →
        s.toTables.Harmless o s.currentProcess) :
    o.Follows s (applyHandler fs place s trap proc callsys)
      (applyHandler fs place (s.overlay o) trap (proc.reparent ppid) callsys) := by
  cases callsys with
  | exit => exact overlay_exit s.currentProcess _ rfl (harmless (Or.inl rfl))
  | fork => exact overlay_spawns place s.currentProcess .keepStack
  | thread =>
      exact overlay_spawns place s.currentProcess
        (.newThread proc.usermodeState.ebx proc.usermodeState.ecx)
  | read => exact overlay_readHandler ppid _ _ _ (reads rfl)
  | write => exact overlay_writeHandler ppid trap _ _ _
  | openFile => exact overlay_openHandler fs _
  | close => exact overlay_closeHandler _
  | exec =>
      exact Overlay.Follows.of_over (overlay_execv fun loads => harmless (Or.inr ⟨rfl, loads⟩))
        fun _ _ ran => execv_entries ran
  | dup2 => exact overlay_dup2Handler ppid _ _
  | schedYield => exact overlay_yield
  | semCreate => exact overlay_semCreateHandler _
  | readdir => exact overlay_readdirHandler ppid _ _ _
  | hlt => exact Overlay.Follows.ok (SameEntries.refl s)

end Calls

section Returning

theorem overlay_finishCall (pid : Pid) (ret : Int) :
    finishCall (s.overlay o) pid ret = (finishCall s pid ret).map (State.overlay o) := by
  have same : (s.overlay o).processList pid =
      (s.processList pid).map (Process.reparent (o.parents pid)) := rfl
  simp only [finishCall, same]
  cases s.processList pid with
  | none => exact overlay_resche
  | some proc =>
      have stored := overlay_modify (o := o) (t := s.toTables) (orphaned_retval ret) pid
      have state : ({ s.overlay o with
          toTables := (s.overlay o).toTables.modify pid (Process.setRetval ret) } : State) =
          ({ s with toTables := s.toTables.modify pid (Process.setRetval ret) } : State).overlay
            o := by
        simp only [State.overlay, ← stored]
      simp only [Option.map_some, Process.reparent, state]
      split_ifs
      · exact overlay_resche
      · rfl

theorem overlay_leaveHook (trap : Trap) :
    leaveHook (s.overlay o) trap = (leaveHook s trap).map (State.overlay o) := by
  have hw : (s.overlay o).hw = s.hw := rfl
  simp only [leaveHook, hw]
  split_ifs
  · exact overlay_resche (s := { s with hw := s.hw.interrupts trap.arrivals.leaving })
  · rfl

theorem overlay_leaveKernelMode :
    leaveKernelMode (s.overlay o) = (leaveKernelMode s).overlay o := by
  have same : (s.overlay o).processList (s.overlay o).currentProcess =
      (s.processList s.currentProcess).map
        (Process.reparent (o.parents s.currentProcess)) := rfl
  simp only [leaveKernelMode, same]
  cases s.processList s.currentProcess with
  | none => rfl
  | some proc => rfl

theorem overlay_leave (trap : Trap) :
    (leaveHook (s.overlay o) trap).map leaveKernelMode =
      ((leaveHook s trap).map leaveKernelMode).map (State.overlay o) := by
  rw [overlay_leaveHook]
  cases leaveHook s trap with
  | error stop => rfl
  | ok after => exact congrArg Except.ok overlay_leaveKernelMode

theorem finishCall_entries {pid : Pid} {ret : Int} {after : State}
    (finished : finishCall s pid ret = .ok after) :
    SameEntries s after ∧ after.devices = s.devices := by
  simp only [finishCall] at finished
  split at finished
  · exact resche_entries finished
  · split_ifs at finished
    · obtain ⟨⟨reqs, wakes, ticks⟩, devices⟩ := resche_entries finished
      exact ⟨⟨reqs, wakes, ticks⟩, devices⟩
    · rw [← Except.ok.inj finished]
      exact ⟨⟨rfl, rfl, Nat.le_refl _⟩, rfl⟩

theorem leaveKernelMode_entries :
    SameEntries s (leaveKernelMode s) ∧ (leaveKernelMode s).devices = s.devices := by
  simp only [leaveKernelMode]
  split
  · exact ⟨SameEntries.refl s, rfl⟩
  · exact ⟨⟨rfl, rfl, Nat.le_refl _⟩, rfl⟩

theorem leave_entries {trap : Trap} {after : State}
    (left : (leaveHook s trap).map leaveKernelMode = .ok after) :
    SameEntries s after ∧ after.devices = s.devices := by
  have later := interrupts_later s.hw trap.arrivals.leaving
  cases hook : leaveHook s trap with
  | error stop =>
      rw [hook] at left
      cases left
  | ok mid =>
      rw [hook] at left
      rw [← Except.ok.inj left]
      obtain ⟨last, devices⟩ := leaveKernelMode_entries (s := mid)
      simp only [leaveHook] at hook
      split_ifs at hook
      · obtain ⟨⟨reqs, wakes, ticks⟩, kept⟩ := resche_entries hook
        have first : SameEntries s mid := ⟨reqs, wakes, Nat.le_trans later ticks⟩
        exact ⟨first.trans last, devices.trans kept⟩
      · rw [← Except.ok.inj hook] at last devices ⊢
        exact ⟨⟨last.reqs, last.wakes, Nat.le_trans later last.ticks⟩, devices⟩

end Returning

end SysImpl.Kernel
