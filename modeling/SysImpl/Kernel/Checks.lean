import SysImpl.Kernel.Handlers

/-! `check` and `checkAll` as sequences of acts.

While `check` runs, the array still holds the requests it has served; what counts as
pending is the rest. On that view every round of the loop is one act: the head of the
queue is served, or goes to its end. -/

namespace SysImpl.Kernel

open Bytes Runs

def Tables.served (t : Tables) (slot : Slot) (ind : Nat) : Tables :=
  t.modifyDevice slot fun device =>
    { device with pendingRequest := device.pendingRequest.drop ind }

def CheckLabel (slot : Slot) : Label → Prop
  | .serve other _ _ => other = slot
  | .requeue other _ => other = slot
  | _ => False

variable {t : Tables} {pid : Pid} {slot : Slot} {device : Device}

theorem modify_modify (f g : Process → Process) :
    (t.modify pid f).modify pid g = t.modify pid (g ∘ f) := by
  simp [Tables.modify, Tables.setProcess, Function.comp_def]

theorem modifyDevice_modifyDevice (f g : Device → Device) :
    (t.modifyDevice slot f).modifyDevice slot g = t.modifyDevice slot (g ∘ f) := by
  simp [Tables.modifyDevice, Tables.setDevice, Function.comp_def]

theorem modifyDevice_congr {f g : Device → Device} (found : t.devices slot = some device)
    (same : f device = g device) : t.modifyDevice slot f = t.modifyDevice slot g := by
  simp [Tables.modifyDevice, found, same]

theorem served_zero : t.served slot 0 = t := by
  apply modifyDevice_self
  intro device _
  rfl

theorem served_devices (found : t.devices slot = some device) (ind : Nat) :
    (t.served slot ind).devices slot =
      some { device with pendingRequest := device.pendingRequest.drop ind } := by
  simp [Tables.served, modifyDevice_devices, found]

theorem poll_tables {s : State} (found : s.devices slot = some device) :
    (inputRead s slot device.input 0 0).1.toTables = s.toTables := by
  rcases (inputRead_spec found 0 0).2 with ⟨_, same, _⟩ | ⟨_, input, tables, spec⟩
  · exact same
  · have kept : input = device.input := by
      cases kind : device.input with
      | semaphore cnt => rw [kind] at spec; simpa using spec.2.2
      | serialIo => rw [kind] at spec; exact spec.1
      | vgaText => rw [kind] at spec; exact spec.1
      | processWait => rw [kind] at spec; exact spec.1
      | sleepDevice => rw [kind] at spec; exact spec.1
    rw [tables, kept]
    exact modifyDevice_setInput_self found

theorem poll_semaphore {s : State} (s' : State) (buffer size : Nat)
    (kind : device.isSemaphore = true) (ready : (inputRead s slot device.input 0 0).2 ≠ eagain) :
    (inputRead s' slot device.input buffer size).2 ≠ eagain := by
  cases input : device.input with
  | semaphore cnt =>
      rw [input] at ready
      simp only [inputRead, readSemaphore] at ready ⊢
      by_cases empty : cnt ≤ 0
      · simp [empty] at ready
      · rw [if_neg empty]
        split
        · exact zero_ne_eagain
        · exact zero_ne_eagain
  | serialIo => simp [Device.isSemaphore, input] at kind
  | vgaText => simp [Device.isSemaphore, input] at kind
  | processWait => simp [Device.isSemaphore, input] at kind
  | sleepDevice => simp [Device.isSemaphore, input] at kind

theorem sleeping_after_runnable (t : Tables) (pid : Pid) : (t.modify pid (Process.setProcessState .runnable)).modify pid
    (Process.setProcessState .sleeping) = t.modify pid (Process.setProcessState .sleeping) := by
  rw [modify_modify]
  rfl

theorem serve_act {s s' : State} {now : PendingRead} {ind : Nat}
    (found : s.devices slot = some device) (next : device.pendingRequest[ind]? = some now)
    (passes : device.isSemaphore = true → ∀ s' : State,
      (inputRead s' slot device.input now.buffer now.size).2 ≠ eagain)
    (ran : serve s slot now = .ok s') :
    s'.currentProcess = now.proc.pid ∧ ∃ label, CheckLabel slot label ∧
      Act (s.toTables.served slot ind) label (s'.toTables.served slot (ind + 1)) := by
  obtain ⟨inside, here⟩ := List.getElem?_eq_some_iff.mp next
  have queue : device.pendingRequest.drop ind = now :: device.pendingRequest.drop (ind + 1) := by
    rw [List.drop_eq_getElem_cons inside, here]
  simp only [serve] at ran
  cases alive : s.toTables.find now.proc with
  | none => simp [alive] at ran
  | some proc =>
      simp only [alive] at ran
      generalize woken : ({ s with
        toTables := s.toTables.modify now.proc.pid (Process.setProcessState .runnable)
        currentProcess := now.proc.pid } : State) = s1 at ran
      have tables1 : s1.toTables =
          s.toTables.modify now.proc.pid (Process.setProcessState .runnable) := by rw [← woken]
      have found1 : s1.devices slot = some device := by
        rw [tables1]
        exact found
      have current1 : s1.currentProcess = now.proc.pid := by rw [← woken]
      simp only [doRead, found1] at ran
      obtain ⟨current, spec⟩ := inputRead_spec found1 now.buffer now.size
      rcases spec with ⟨blocked, tables, _⟩ | ⟨passed, input, tables, spec⟩
      · have kind : device.isSemaphore = false := by
          cases semaphore : device.isSemaphore with
          | false => rfl
          | true => exact absurd blocked (passes semaphore s1)
        rw [if_pos blocked] at ran
        by_cases room : device.pendingRequest.length < maxPending
        · rw [if_pos room] at ran
          simp only [Except.ok.injEq] at ran
          refine ⟨by rw [← ran]; exact current.trans current1, .requeue slot now.proc, rfl, ?_⟩
          have act := Act.requeue (served_devices found ind) queue kind
          have result : s'.toTables.served slot (ind + 1) =
              (((s.toTables.served slot ind).modifyDevice slot (Device.setPending
                (device.pendingRequest.drop (ind + 1) ++ [now]))).modify now.proc.pid
                  (Process.setProcessState .sleeping)).modify now.proc.pid
                    (Process.setRetval eagain) := by
            rw [← ran]
            simp only [tables, tables1, blocked]
            have devices : ((s.toTables.modifyDevice slot fun device =>
                  { device with pendingRequest := device.pendingRequest ++ [now] }).served slot
                    (ind + 1)) =
                (s.toTables.served slot ind).modifyDevice slot (Device.setPending
                  (device.pendingRequest.drop (ind + 1) ++ [now])) := by
              simp only [Tables.served, modifyDevice_modifyDevice]
              apply modifyDevice_congr found
              simp only [Function.comp_apply, Device.setPending]
              rw [List.drop_append_of_le_length (by omega)]
            rw [← devices]
            rw [← sleeping_after_runnable ((s.toTables.modifyDevice slot fun device =>
                { device with pendingRequest := device.pendingRequest ++ [now] }).served slot
                  (ind + 1)) now.proc.pid]
            rfl
          rw [result]
          exact act
        · rw [if_neg room] at ran
          cases ran
      · rw [if_neg passed] at ran
        simp only [Except.ok.injEq] at ran
        refine ⟨by rw [← ran]; exact current.trans current1,
          .serve slot now.proc (inputRead s1 slot device.input now.buffer now.size).2, rfl, ?_⟩
        rw [current1] at spec
        have spec' : ReadSpec (s.toTables.served slot ind) now.proc.pid now.size
            (inputRead s1 slot device.input now.buffer now.size).2
            (loadWrap (inputRead s1 slot device.input now.buffer now.size).1.mem now.buffer
              (inputRead s1 slot device.input now.buffer now.size).2.toNat) device.input input := by
          rw [tables1] at spec
          exact spec
        have act := Act.serve (served_devices found ind) queue spec'
        have devices : ((s.toTables.modifyDevice slot (Device.setInput input)).served slot
              (ind + 1)) =
            (s.toTables.served slot ind).modifyDevice slot fun other =>
              (other.setInput input).setPending (device.pendingRequest.drop (ind + 1)) := by
          simp only [Tables.served, modifyDevice_modifyDevice]
          apply modifyDevice_congr found
          rfl
        have result : s'.toTables.served slot (ind + 1) =
            (((((s.toTables.modifyDevice slot (Device.setInput input)).served slot
              (ind + 1)).modify now.proc.pid (Process.setProcessState .runnable)).note
                (.completed device.serial now.proc now.size
                  (inputRead s1 slot device.input now.buffer now.size).2
                  (loadWrap (inputRead s1 slot device.input now.buffer now.size).1.mem now.buffer
                    (inputRead s1 slot device.input now.buffer now.size).2.toNat))).modify
                now.proc.pid (Process.setRetval
                  (inputRead s1 slot device.input now.buffer now.size).2)) := by
          rw [← ran]
          simp only [State.note_tables, tables, tables1]
          rfl
        rw [result, devices]
        exact act

theorem checkLoop_acts {fuel ind last : Nat} {s s' : State}
    (ran : checkLoop slot fuel ind s = .ok (s', last)) :
    RunOf Act (CheckLabel slot) (s.toTables.served slot ind) (s'.toTables.served slot last) := by
  induction fuel generalizing ind s with
  | zero =>
      simp only [checkLoop, Except.ok.injEq, Prod.mk.injEq] at ran
      rw [← ran.1, ← ran.2]
      exact RunOf.refl _
  | succ fuel ih =>
      simp only [checkLoop] at ran
      split at ran
      · cases ran
      · next device found =>
          split at ran
          · simp only [Except.ok.injEq, Prod.mk.injEq] at ran
            rw [← ran.1, ← ran.2]
            exact RunOf.refl _
          · next now next =>
              have tables := poll_tables found
              by_cases closed : (inputRead s slot device.input 0 0).2 = eagain
              · rw [if_pos closed] at ran
                simp only [Except.ok.injEq, Prod.mk.injEq] at ran
                rw [← ran.1, ← ran.2, tables]
                exact RunOf.refl _
              · rw [if_neg closed] at ran
                split at ran
                · cases ran
                · next s1 served =>
                    have found1 : (inputRead s slot device.input 0 0).1.devices slot =
                        some device := by rw [tables]; exact found
                    obtain ⟨_, label, kind, act⟩ := serve_act found1 next
                      (fun semaphore s' => poll_semaphore s' _ _ semaphore closed) served
                    rw [tables] at act
                    exact RunOf.cons act kind (ih ran)

theorem check_acts {s s' : State} (ran : check s slot = .ok s') :
    RunOf Act (CheckLabel slot) s.toTables s'.toTables ∧
      s'.currentProcess = s.currentProcess := by
  simp only [check] at ran
  split at ran
  · cases ran
  · next last ind looped =>
      simp only [Except.ok.injEq] at ran
      have acts := checkLoop_acts looped
      rw [served_zero] at acts
      rw [← ran]
      exact ⟨acts, rfl⟩

theorem checkSlot_acts {arrivals : Arrivals} {s s' : State}
    (ran : checkSlot arrivals s slot = .ok s') :
    RunOf Act (CheckLabel slot) s.toTables s'.toTables ∧
      s'.currentProcess = s.currentProcess := by
  simp only [checkSlot] at ran
  split at ran
  · rw [← Except.ok.inj ran]
    exact ⟨RunOf.refl _, rfl⟩
  · have acts := check_acts ran
    exact acts

def PassLabel (label : Label) : Prop := ∃ slot, CheckLabel slot label

theorem checkSlots_acts {arrivals : Arrivals} {slots : List Slot} {s s' : State}
    (ran : slots.foldlM (checkSlot arrivals) s = .ok s') :
    RunOf Act PassLabel s.toTables s'.toTables ∧ s'.currentProcess = s.currentProcess := by
  induction slots generalizing s with
  | nil =>
      rw [List.foldlM_nil] at ran
      rw [← Except.ok.inj ran]
      exact ⟨RunOf.refl _, rfl⟩
  | cons slot rest ih =>
      rw [List.foldlM_cons] at ran
      cases first : checkSlot arrivals s slot with
      | error stop =>
          rw [first] at ran
          cases ran
      | ok mid =>
          rw [first] at ran
          obtain ⟨here, same⟩ := checkSlot_acts first
          obtain ⟨later, current⟩ := ih ran
          exact ⟨(here.mono fun label kind => ⟨slot, kind⟩).trans later, current.trans same⟩

theorem checkAll_acts {arrivals : Arrivals} {s s' : State} (ran : checkAll arrivals s = .ok s') :
    RunOf Act PassLabel s.toTables s'.toTables ∧ s'.currentProcess = s.currentProcess :=
  checkSlots_acts ran

theorem bind_ok {α β : Type} {first : Except Stop α} {next : α → Except Stop β} {result : β}
    (ran : (first >>= next) = .ok result) :
    ∃ value, first = .ok value ∧ next value = .ok result := by
  cases first with
  | error stop => cases ran
  | ok value => exact ⟨value, rfl, ran⟩

theorem checkSlots_keeps {arrivals : Arrivals} (holds : State → Prop)
    (each : ∀ s s' slot, holds s → checkSlot arrivals s slot = .ok s' → holds s')
    {slots : List Slot} {s s' : State} (before : holds s)
    (ran : slots.foldlM (checkSlot arrivals) s = .ok s') : holds s' := by
  induction slots generalizing s with
  | nil =>
      rw [List.foldlM_nil] at ran
      rw [← Except.ok.inj ran]
      exact before
  | cons slot rest ih =>
      rw [List.foldlM_cons] at ran
      obtain ⟨mid, checked, ran⟩ := bind_ok ran
      exact ih (each s mid slot before checked) ran

end SysImpl.Kernel
