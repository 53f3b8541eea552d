import SysImpl.Kernel.Contexts
import SysImpl.Kernel.Polls

/-! How time passes in a system call.

Whatever a call does but for `resche`, a tick is counted once by the clock and once off
`resche_counter`. -/

namespace SysImpl.Kernel

def Hardware.Passes (hw hw' : Hardware) : Prop :=
  ∃ ticks, hw'.pitTicks = hw.pitTicks + ticks ∧ hw'.rescheCounter = hw.rescheCounter - ticks

variable {hw mid hw' : Hardware} {holds : Hardware → Prop} {s s' : State} {ret : Int}

theorem Hardware.Passes.refl (hw : Hardware) : hw.Passes hw := ⟨0, rfl, rfl⟩

theorem Hardware.Passes.trans (first : hw.Passes mid) (second : mid.Passes hw') :
    hw.Passes hw' := by
  obtain ⟨some, ticks, counter⟩ := first
  obtain ⟨more, ticks', counter'⟩ := second
  exact ⟨some + more, by omega, by omega⟩

theorem Hardware.Passes.fresh {ticks : Nat} (passes : hw.Passes hw')
    (fresh : hw.rescheCounter ≤ ticks) : hw'.rescheCounter ≤ ticks := by
  obtain ⟨_, -, counter⟩ := passes
  omega

theorem interrupts_counter (hw : Hardware) (irqs : List Irq) :
    (hw.interrupts irqs).rescheCounter = hw.rescheCounter - irqs.count .tick := by
  induction irqs generalizing hw with
  | nil => rfl
  | cons irq rest ih =>
      have step : (irq.apply hw).rescheCounter = hw.rescheCounter - [irq].count .tick := by
        cases irq with
        | tick => rfl
        | key ch =>
            simp only [Irq.apply]
            split
            · rfl
            · rfl
        | byte ch => rfl
      calc
        (hw.interrupts (irq :: rest)).rescheCounter =
            (irq.apply hw).rescheCounter - rest.count .tick := ih (irq.apply hw)
        _ = hw.rescheCounter - (irq :: rest).count .tick := by
          rw [step, show irq :: rest = [irq] ++ rest from rfl, List.count_append]
          omega

theorem interrupts_passes (hw : Hardware) (irqs : List Irq) : hw.Passes (hw.interrupts irqs) :=
  ⟨_, interrupts_ticks irqs, interrupts_counter hw irqs⟩

theorem arrive_passes (hw : Hardware) : hw.Passes hw.arrive := by
  rcases arrive_cases hw with ⟨-, same⟩ | ⟨batch, rest, -, taken⟩
  · rw [same]
    exact .refl hw
  · rw [taken]
    exact interrupts_passes ({ hw with incoming := rest } : Hardware) batch

theorem passes_kept (hw : Hardware) : Kept hw.Passes where
  arrive := fun mid passes => passes.trans (arrive_passes mid)
  taken := by
    intro mid console ch rest _ passes
    cases console with
    | serialIo => exact passes
    | vgaText => exact passes

theorem Kept.doRead (kept : Kept holds) (before : holds s.hw) {slot : Slot} {p : ProcPtr}
    {buffer size : Nat} (read : doRead s slot p buffer size = .ok (s', ret)) : holds s'.hw := by
  cases found : s.devices slot with
  | none => simp [Kernel.doRead, found] at read
  | some device =>
      have taken := kept.inputRead before slot device.input buffer size
      simp only [Kernel.doRead, found] at read
      split at read
      · split at read
        · rw [Except.ok.injEq, Prod.mk.injEq] at read
          rw [← read.1]
          exact taken
        · cases read
      · rw [Except.ok.injEq, Prod.mk.injEq] at read
        rw [← read.1]
        exact taken

theorem Kept.readDevice (kept : Kept holds) (before : holds s.hw) {slot : Slot}
    {buffer size : Nat} (read : readDevice s slot buffer size = .ok (s', ret)) : holds s'.hw := by
  simp only [Kernel.readDevice] at read
  split at read
  · exact kept.doRead (s := s.note _) before read
  · cases read

theorem Kept.serve (kept : Kept holds) (before : holds s.hw) {slot : Slot} {now : PendingRead}
    (served : serve s slot now = .ok s') : holds s'.hw := by
  simp only [Kernel.serve] at served
  split at served
  · cases served
  · split at served
    · cases served
    · next mid ret read =>
        have taken : holds mid.hw := kept.doRead (s := { s with
          toTables := s.toTables.modify now.proc.pid (Process.setProcessState .runnable)
          currentProcess := now.proc.pid }) before read
        rw [← Except.ok.inj served]
        exact taken

theorem Kept.checkLoop (kept : Kept holds) {slot : Slot} {fuel ind last : Nat}
    (before : holds s.hw) (ran : checkLoop slot fuel ind s = .ok (s', last)) : holds s'.hw := by
  induction fuel generalizing ind s with
  | zero =>
      rw [Kernel.checkLoop, Except.ok.injEq, Prod.mk.injEq] at ran
      rw [← ran.1]
      exact before
  | succ fuel ih =>
      rw [Kernel.checkLoop] at ran
      split at ran
      · cases ran
      · next device found =>
          split at ran
          · rw [Except.ok.injEq, Prod.mk.injEq] at ran
            rw [← ran.1]
            exact before
          · next now queued =>
              have polled := kept.inputRead before slot device.input 0 0
              simp only at ran
              split at ran
              · rw [Except.ok.injEq, Prod.mk.injEq] at ran
                rw [← ran.1]
                exact polled
              · split at ran
                · cases ran
                · next mid served => exact ih (kept.serve polled served) ran

theorem Kept.check (kept : Kept holds) (before : holds s.hw) {slot : Slot}
    (checked : check s slot = .ok s') : holds s'.hw := by
  simp only [Kernel.check] at checked
  split at checked
  · cases checked
  · next mid ind ran =>
      have taken : holds mid.hw := kept.checkLoop before ran
      rw [← Except.ok.inj checked]
      exact taken

theorem checkAll_passes {arrivals : Arrivals} (checked : checkAll arrivals s = .ok s') :
    s.hw.Passes s'.hw := by
  refine checkSlots_keeps (fun mid => s.hw.Passes mid.hw) ?_ (.refl s.hw) checked
  intro mid next slot passes ran
  have arrived : s.hw.Passes ((mid.hw.interrupts (arrivals.before slot)).expect
      (arrivals.during slot)) := passes.trans (interrupts_passes mid.hw _)
  simp only [checkSlot] at ran
  split at ran
  · rw [← Except.ok.inj ran]
    exact arrived
  · exact (passes_kept s.hw).check (s := { mid with
      hw := (mid.hw.interrupts (arrivals.before slot)).expect (arrivals.during slot) }) arrived ran

section Handlers

variable {proc : Process} {trap : Trap} {fs : FileSystem} {place : Placement}

theorem restoreParent_hw (s : State) (ppid : Option Pid) :
    (restoreParent s ppid).hw = s.hw := by
  cases ppid with
  | none => rfl
  | some parent =>
      simp only [restoreParent, restoreStack]
      split
      · rfl
      · split
        · rfl
        · rfl

theorem deleteProcess_hw (s : State) (pid : Pid) (code : Nat) :
    (deleteProcess s pid code).hw = s.hw := by
  simp only [deleteProcess]
  split
  · rfl
  · exact restoreParent_hw _ _

theorem clone_hw {pid child : Pid} {mode : CloneMode}
    (cloned : clone place s pid mode = .ok (s', child)) : s'.hw = s.hw := by
  obtain ⟨_, _, _, ⟨_, rfl⟩ | ⟨_, _, _, rfl⟩⟩ := clone_ok cloned
  · rfl
  · rfl

theorem execv_hw {pid : Pid} {path : List UInt8} {call : ExecCall} {around : Surroundings}
    (run : execv fs place s pid path call around = .ok (s', ret)) : s'.hw = s.hw := by
  rcases execv_cases run with ⟨rfl, _⟩ | ⟨_, _, content, sections, entry, installed, built, rfl⟩
  · rfl
  · simp only [install, Prod.mk.injEq] at built
    have same : installed.hw = s.hw := by rw [← built.1]
    simp only [finishExec]
    split
    · exact same
    · rw [restoreParent_hw]
      exact same

theorem Kept.readHandler (kept : Kept holds) (before : holds s.hw) {fd buffer size : Nat}
    (read : readHandler s proc fd buffer size = .ok (s', ret)) : holds s'.hw := by
  simp only [Kernel.readHandler] at read
  split at read
  · cases read
  · rw [Except.ok.injEq, Prod.mk.injEq] at read
    rw [← read.1]
    exact before
  · exact kept.readDevice before read
  · simp only [Except.ok.injEq, readFile] at read
    split at read
    · rw [Prod.mk.injEq] at read
      rw [← read.1]
      exact before
    · rw [Prod.mk.injEq] at read
      rw [← read.1]
      exact before
  · rw [Except.ok.injEq, Prod.mk.injEq] at read
    rw [← read.1]
    exact before

/-- Only a write to `:SLEEP` looks at the clock. -/
theorem Kept.writeDevice (kept : Kept holds) (before : holds s.hw) {p : ProcPtr} {slot : Slot}
    {buffer size : Nat} (written : writeDevice s trap p slot buffer size = .ok (s', ret)) :
    holds s'.hw := by
  simp only [Kernel.writeDevice] at written
  split at written
  · cases written
  · split at written
    · rw [Except.ok.injEq, Prod.mk.injEq] at written
      rw [← written.1]
      exact before
    · rw [Except.ok.injEq, Prod.mk.injEq] at written
      rw [← written.1]
      exact before
    · simp only [Except.ok.injEq, writeProcessWait] at written
      split at written
      · rw [Prod.mk.injEq] at written
        rw [← written.1]
        exact before
      · rw [Prod.mk.injEq] at written
        rw [← written.1]
        exact before
    · simp only [Except.ok.injEq, writeSleepDevice] at written
      split at written
      · rw [Prod.mk.injEq] at written
        rw [← written.1]
        exact before
      · rw [Prod.mk.injEq] at written
        rw [← written.1]
        exact kept.arrive _ before
    · simp only [Except.ok.injEq, writeSemaphore, Prod.mk.injEq] at written
      rw [← written.1]
      exact before

theorem Kept.writeHandler (kept : Kept holds) (before : holds s.hw) {fd buffer size : Nat}
    (written : writeHandler s trap proc fd buffer size = .ok (s', ret)) : holds s'.hw := by
  simp only [Kernel.writeHandler] at written
  split at written
  · cases written
  · exact kept.writeDevice before written
  · rw [Except.ok.injEq, Prod.mk.injEq] at written
    rw [← written.1]
    exact before

theorem openHandler_hw {filename : Nat} (opened : openHandler fs s filename = .ok (s', ret)) :
    s'.hw = s.hw := by
  simp only [openHandler] at opened
  split at opened
  · split at opened
    · simp only [Except.ok.injEq, Prod.mk.injEq] at opened
      rw [← opened.1]
    · simp only [Except.ok.injEq, Prod.mk.injEq] at opened
      rw [← opened.1]
  · split at opened
    · simp only [Except.ok.injEq, Prod.mk.injEq] at opened
      rw [← opened.1]
    · split at opened
      · simp only [Except.ok.injEq, Prod.mk.injEq] at opened
        rw [← opened.1]
      · simp only [Except.ok.injEq, Prod.mk.injEq] at opened
        rw [← opened.1]

theorem closeHandler_hw (s : State) (fd : Nat) : (closeHandler s fd).hw = s.hw := by
  simp only [closeHandler]
  split
  · rfl
  · rfl

theorem dup2Handler_hw {oldfd newfd : Nat}
    (copied : dup2Handler s proc oldfd newfd = .ok (s', ret)) : s'.hw = s.hw := by
  simp only [dup2Handler] at copied
  split at copied
  · simp only [Except.ok.injEq, Prod.mk.injEq] at copied
    rw [← copied.1]
  · split at copied
    · cases copied
    · simp only [Except.ok.injEq, Prod.mk.injEq] at copied
      rw [← copied.1]
    · split at copied
      · simp only [Except.ok.injEq, Prod.mk.injEq] at copied
        rw [← copied.1]
      · simp only [Except.ok.injEq, Prod.mk.injEq] at copied
        rw [← copied.1]

theorem semCreateHandler_hw {cnt : Nat} (created : semCreateHandler s cnt = .ok (s', ret)) :
    s'.hw = s.hw := by
  simp only [semCreateHandler] at created
  split at created
  · cases created
  · split at created
    · cases created
    · simp only [Except.ok.injEq, Prod.mk.injEq] at created
      rw [← created.1]

theorem readdirHandler_hw {fd array n : Nat}
    (listed : readdirHandler s proc fd array n = .ok (s', ret)) : s'.hw = s.hw := by
  simp only [readdirHandler] at listed
  split at listed
  · cases listed
  · split at listed
    · simp only [Except.ok.injEq, Prod.mk.injEq] at listed
      rw [← listed.1]
    · split at listed
      · simp only [Except.ok.injEq, Prod.mk.injEq] at listed
        rw [← listed.1]
      · simp only [Except.ok.injEq, Prod.mk.injEq] at listed
        rw [← listed.1]
  · simp only [Except.ok.injEq, Prod.mk.injEq] at listed
    rw [← listed.1]

theorem Kept.applyHandler (kept : Kept holds) (before : holds s.hw) {callsys : Callsys}
    (stays : callsys ≠ .schedYield)
    (applied : applyHandler fs place s trap proc callsys = .ok (s', ret)) : holds s'.hw := by
  cases callsys with
  | exit =>
      simp only [Kernel.applyHandler, Except.ok.injEq, Prod.mk.injEq] at applied
      rw [← applied.1, deleteProcess_hw]
      exact before
  | fork =>
      obtain ⟨child, cloned, -⟩ := applyHandler_fork applied
      rw [clone_hw cloned]
      exact before
  | thread =>
      obtain ⟨child, cloned, -⟩ := applyHandler_thread applied
      rw [clone_hw cloned]
      exact before
  | read => exact kept.readHandler before applied
  | write => exact kept.writeHandler before applied
  | openFile =>
      rw [openHandler_hw applied]
      exact before
  | close =>
      simp only [Kernel.applyHandler, Except.ok.injEq, Prod.mk.injEq] at applied
      rw [← applied.1, closeHandler_hw]
      exact before
  | exec =>
      rw [execv_hw applied]
      exact before
  | dup2 =>
      rw [dup2Handler_hw applied]
      exact before
  | schedYield => exact absurd rfl stays
  | semCreate =>
      rw [semCreateHandler_hw applied]
      exact before
  | readdir =>
      rw [readdirHandler_hw applied]
      exact before
  | hlt =>
      simp only [Kernel.applyHandler, Except.ok.injEq, Prod.mk.injEq] at applied
      rw [← applied.1]
      exact before

end Handlers

end SysImpl.Kernel
