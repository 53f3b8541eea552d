import SysImpl.Kernel.Semaphores

/-! What a pass over the devices leaves pending.

The poll of `check` is made by whichever process is current. For a console or a semaphore
that does not matter: the pass serves requests until the device is not ready. The devices
that are ready for one process and not for another are served up to the first request
that is not ready, and not at all when the process that polls is not ready itself. -/

namespace SysImpl.Kernel

open Bytes Runs

def Arrivals.Silent (arrivals : Arrivals) : Prop :=
  ∀ slot, arrivals.before slot = [] ∧ arrivals.during slot = []

/-- A read by the process in a slot does not block. -/
def Ready (s : State) (pid : Pid) : Input → Prop
  | .processWait => (s.reqs pid).pid = 0
  | .sleepDevice => s.processSleepUntil pid ≤ s.hw.pitTicks
  | _ => True

instance (s : State) (pid : Pid) (input : Input) : Decidable (Ready s pid input) := by
  cases input with
  | processWait => exact inferInstanceAs (Decidable (_ = _))
  | sleepDevice => exact inferInstanceAs (Decidable (_ ≤ _))
  | _ => exact inferInstanceAs (Decidable True)

def SameWaits (s s' : State) : Prop :=
  s'.reqs = s.reqs ∧ s'.processSleepUntil = s.processSleepUntil ∧
    s'.hw.pitTicks = s.hw.pitTicks

theorem SameWaits.ready {s s' : State} (same : SameWaits s s') (pid : Pid) (input : Input) :
    Ready s' pid input ↔ Ready s pid input := by
  obtain ⟨reqs, wake, ticks⟩ := same
  cases input with
  | processWait => simp only [Ready, reqs]
  | sleepDevice => simp only [Ready, wake, ticks]
  | serialIo => exact Iff.rfl
  | vgaText => exact Iff.rfl
  | semaphore cnt => exact Iff.rfl

variable {slot : Slot} {device : Device}

theorem arrive_silent {hw : Hardware} (silent : hw.incoming = []) : hw.arrive = hw := by
  simp [Hardware.arrive, silent]

/-- The tick count, with nothing to arrive. -/
theorem stands_kept (ticks : Nat) : Kept fun hw => hw.incoming = [] ∧ hw.pitTicks = ticks where
  arrive := by
    intro hw ⟨silent, same⟩
    rw [arrive_silent silent]
    exact ⟨silent, same⟩
  taken := by
    intro hw console ch rest _ same
    rw [setQueue_incoming, setQueue_ticks]
    exact same

theorem read_blocks_iff {s : State} {input : Input} (slot : Slot) (own : input.shared = false)
    (silent : s.hw.incoming = []) (buffer size : Nat) :
    (inputRead s slot input buffer size).2 = eagain ↔ ¬ Ready s s.currentProcess input := by
  cases input with
  | processWait =>
      simp only [inputRead, readProcessWait, Ready]
      by_cases busy : (s.reqs s.currentProcess).pid ≠ 0
      · simp [busy]
      · rw [if_neg busy]
        split
        · simp [four_ne_eagain, busy]
        · simp [einval_ne_eagain, busy]
  | sleepDevice =>
      simp only [inputRead, readSleepDevice, Ready, arrive_silent silent]
      split
      · next early => simp [early]
      · next late => simp [zero_ne_eagain, late]
  | serialIo => cases own
  | vgaText => cases own
  | semaphore cnt => cases own

def Standing (s0 s : State) : Prop := SameWaits s0 s ∧ s.hw.incoming = []

theorem Standing.read {s0 s : State} (standing : Standing s0 s) (slot : Slot) (input : Input)
    (buffer size : Nat) : Standing s0 (inputRead s slot input buffer size).1 := by
  obtain ⟨⟨reqs, wake, ticks⟩, silent⟩ := standing
  obtain ⟨silent', ticks'⟩ := (stands_kept s0.hw.pitTicks).inputRead ⟨silent, ticks⟩ slot input
    buffer size
  refine ⟨⟨?_, ?_, ticks'⟩, silent'⟩
  · rw [inputRead_reqs, reqs]
  · rw [inputRead_wake, wake]

theorem Standing.congr {s0 s s' : State} (standing : Standing s0 s) (same : SameInputs s s') :
    Standing s0 s' := by
  obtain ⟨_, _, hw, reqs, wake⟩ := same
  obtain ⟨⟨reqs0, wake0, ticks0⟩, silent⟩ := standing
  refine ⟨⟨reqs.trans reqs0, wake.trans wake0, ?_⟩, ?_⟩
  · rw [hw, ticks0]
  · rw [hw, silent]

theorem Standing.expect {arrivals : Arrivals} {s0 s : State} (slot : Slot) (silent : arrivals.Silent)
    (same : SameWaits s0 s) : Standing s0 { s with
      hw := (s.hw.interrupts (arrivals.before slot)).expect (arrivals.during slot) } := by
  refine ⟨⟨same.1, same.2.1, ?_⟩, ?_⟩
  · rw [(silent slot).1]
    exact same.2.2
  · exact (silent slot).2

theorem Standing.checkSlot {arrivals : Arrivals} {s0 s s' : State} (silent : arrivals.Silent)
    (same : SameWaits s0 s) (ran : checkSlot arrivals s slot = .ok s') : Standing s0 s' := by
  have start := Standing.expect slot silent same
  simp only [Kernel.checkSlot] at ran
  split at ran
  · rw [← Except.ok.inj ran]
    exact start
  · simp only [check] at ran
    split at ran
    · cases ran
    · next looped =>
        have final := checkLoop_keeps (Standing s0)
          (fun _ input buffer size standing => standing.read slot input buffer size)
          (fun _ _ same standing => standing.congr same) start looped
        rw [← Except.ok.inj ran]
        exact final.congr ⟨rfl, rfl, rfl, rfl, rfl⟩

/-- The queue that `check` leaves of the requests it has not yet looked at, when the process
that polls first is ready. -/
def leftPending (ready : PendingRead → Bool) (queue : List PendingRead) : List PendingRead :=
  match queue.dropWhile ready with
  | [] => []
  | now :: rest => rest ++ [now]

theorem leftPending_ready {ready : PendingRead → Bool} {now : PendingRead}
    (passes : ready now = true) (rest : List PendingRead) :
    leftPending ready (now :: rest) = leftPending ready rest := by
  simp only [leftPending, List.dropWhile_cons_of_pos passes]

theorem leftPending_blocked {ready : PendingRead → Bool} {now : PendingRead}
    (blocks : ready now = false) (rest : List PendingRead) :
    leftPending ready (now :: rest) = rest ++ [now] := by
  simp [leftPending, blocks]

/-- No request is left ready exactly when none was queued behind one that is not. -/
theorem leftPending_none (ready : PendingRead → Bool) (queue : List PendingRead) :
    (∀ req ∈ leftPending ready queue, ready req = false) ↔
      queue.Pairwise fun earlier later => ready later = true → ready earlier = true := by
  induction queue with
  | nil => simp [leftPending]
  | cons now rest ih =>
      rw [List.pairwise_cons]
      cases passes : ready now with
      | true =>
          rw [leftPending_ready passes, ih]
          simp
      | false =>
          rw [leftPending_blocked passes]
          constructor
          · intro none
            refine ⟨?_, ?_⟩
            · intro later member ready'
              rw [none later (List.mem_append_left _ member)] at ready'
              cases ready'
            · apply List.pairwise_of_forall_mem_list
              intro earlier _ later member ready'
              rw [none later (List.mem_append_left _ member)] at ready'
              cases ready'
          · intro ⟨behind, _⟩ req member
            rcases List.mem_append.mp member with old | new
            · cases late : ready req with
              | false => rfl
              | true => cases behind req old late
            · rw [List.mem_singleton.mp new]
              exact passes

theorem served_order_iff (ready : PendingRead → Prop) [DecidablePred ready] (polls : Prop)
    [Decidable polls] (queue : List PendingRead) :
    (∀ req ∈ (if polls then leftPending (fun req => ready req) queue else queue), ¬ ready req) ↔
      (∀ req ∈ queue, ready req → polls) ∧
        queue.Pairwise fun earlier later => ready later → ready earlier := by
  by_cases passes : polls
  · have left := leftPending_none (fun req => ready req) queue
    simp only [decide_eq_true_eq, decide_eq_false_iff_not] at left
    rw [if_pos passes, left]
    exact ⟨fun order => ⟨fun _ _ _ => passes, order⟩, fun both => both.2⟩
  · rw [if_neg passes]
    constructor
    · intro unready
      refine ⟨fun req member ready' => absurd ready' (unready req member), ?_⟩
      apply List.pairwise_of_forall_mem_list
      intro earlier _ later member ready'
      exact absurd ready' (unready later member)
    · intro both req member ready'
      exact passes (both.1 req member ready')

theorem checkLoop_unready {fuel ind last : Nat} {s0 s s' : State} (standing : Standing s0 s)
    (found : s.devices slot = some device) (own : device.input.shared = false)
    (unready : ¬ Ready s0 s.currentProcess device.input)
    (ran : checkLoop slot fuel ind s = .ok (s', last)) :
    last = ind ∧ s'.devices slot = some device := by
  have closed : (inputRead s slot device.input 0 0).2 = eagain := by
    rw [read_blocks_iff slot own standing.2, standing.1.ready]
    exact unready
  cases fuel with
  | zero =>
      simp only [checkLoop, Except.ok.injEq, Prod.mk.injEq] at ran
      rw [← ran.1, ← ran.2]
      exact ⟨rfl, found⟩
  | succ fuel =>
      simp only [checkLoop, found, closed, if_true] at ran
      split at ran
      · simp only [Except.ok.injEq, Prod.mk.injEq] at ran
        rw [← ran.1, ← ran.2]
        exact ⟨rfl, found⟩
      · simp only [Except.ok.injEq, Prod.mk.injEq] at ran
        rw [← ran.1, ← ran.2, poll_tables found]
        exact ⟨rfl, found⟩

/-- What a check by a ready process leaves pending on a device that is ready for some
processes only. -/
theorem checkLoop_ready {fuel ind last : Nat} {s0 s s' : State} (standing : Standing s0 s)
    (found : s.devices slot = some device) (own : device.input.shared = false)
    (ready : Ready s0 s.currentProcess device.input)
    (enough : device.pendingRequest.length ≤ fuel + ind)
    (ran : checkLoop slot fuel ind s = .ok (s', last)) :
    ∃ device', s'.devices slot = some device' ∧ device'.input = device.input ∧
      device'.pendingRequest.drop last =
        leftPending (fun req => Ready s0 req.proc.pid device.input)
          (device.pendingRequest.drop ind) := by
  induction fuel generalizing ind s device with
  | zero =>
      simp only [checkLoop, Except.ok.injEq, Prod.mk.injEq] at ran
      rw [← ran.1, ← ran.2]
      refine ⟨device, found, rfl, ?_⟩
      rw [List.drop_eq_nil_of_le (by omega)]
      rfl
  | succ fuel ih =>
      have tables := poll_tables found
      have polled := standing.read slot device.input 0 0
      simp only [checkLoop, found] at ran
      cases next : device.pendingRequest[ind]? with
      | none =>
          simp only [next, Except.ok.injEq, Prod.mk.injEq] at ran
          rw [← ran.1, ← ran.2]
          refine ⟨device, found, rfl, ?_⟩
          rw [List.drop_eq_nil_of_le (List.getElem?_eq_none_iff.mp next)]
          rfl
      | some now =>
          obtain ⟨inside, here⟩ := List.getElem?_eq_some_iff.mp next
          have queue : device.pendingRequest.drop ind =
              now :: device.pendingRequest.drop (ind + 1) := by
            rw [List.drop_eq_getElem_cons inside, here]
          have opened : (inputRead s slot device.input 0 0).2 ≠ eagain := by
            rw [ne_eq, read_blocks_iff slot own standing.2, standing.1.ready]
            exact not_not.mpr ready
          simp only [next, if_neg opened] at ran
          have found0 : (inputRead s slot device.input 0 0).1.devices slot = some device := by
            rw [tables]
            exact found
          have woken : Standing s0 (wokenFor (inputRead s slot device.input 0 0).1 now) :=
            polled.congr ⟨rfl, rfl, rfl, rfl, rfl⟩
          have read := read_blocks_iff slot own woken.2 now.buffer now.size
          rw [woken.1.ready] at read
          rw [queue]
          split at ran
          · cases ran
          · next s1 served =>
              obtain ⟨same, current, outcome⟩ := serve_cases found0 served
              have standing1 := (woken.read slot device.input now.buffer now.size).congr
                same
              rcases outcome with ⟨blocked, found1⟩ | ⟨passed, input, data, found1, spec⟩
              · have unready : ¬ Ready s0 now.proc.pid device.input := read.mp blocked
                obtain ⟨stopped, found'⟩ := checkLoop_unready standing1 found1 own
                  (by rw [current]; exact unready) ran
                refine ⟨_, found', rfl, ?_⟩
                rw [stopped, leftPending_blocked (by simpa using unready)]
                exact List.drop_append_of_le_length inside
              · have ready1 : Ready s0 now.proc.pid device.input := not_not.mp (mt read.mpr passed)
                have plain : device.isSemaphore = false := by
                  cases input : device.input with
                  | semaphore cnt => rw [input] at own; cases own
                  | _ => simp [Device.isSemaphore, input]
                rw [spec.same_input plain] at found1
                have left : (device.setInput device.input).pendingRequest.length ≤
                    fuel + (ind + 1) := by
                  simp only [Device.setInput]
                  omega
                rw [leftPending_ready (by simpa using ready1)]
                exact ih standing1 found1 own (by rw [current]; exact ready1) left ran

/-- What the read of a pending request returns when its process makes it. -/
def requestRead (s : State) (slot : Slot) (device : Device) (req : PendingRead) : Int :=
  (inputRead { s with currentProcess := req.proc.pid } slot device.input req.buffer req.size).2

/-- No read that is pending on a device would return anything. -/
def Idle (s : State) (slot : Slot) : Prop :=
  ∀ device, s.devices slot = some device → ∀ req ∈ device.pendingRequest,
    requestRead s slot device req = eagain

/-- The queue of a device is in an order that a pass by the current process can serve: it is
ready itself if any request is, and no request that is ready stands behind one that is not. -/
def Prompt (s : State) (slot : Slot) : Prop :=
  ∀ device, s.devices slot = some device → device.input.shared = false →
    (∀ req ∈ device.pendingRequest, Ready s req.proc.pid device.input →
      Ready s s.currentProcess device.input) ∧
    device.pendingRequest.Pairwise fun earlier later =>
      Ready s later.proc.pid device.input → Ready s earlier.proc.pid device.input

variable {arrivals : Arrivals}

theorem checkSlot_own {s0 s s' : State} (silent : arrivals.Silent) (same : SameWaits s0 s)
    (found : s.devices slot = some device) (own : device.input.shared = false)
    (enough : device.pendingRequest.length ≤ maxPending)
    (ran : checkSlot arrivals s slot = .ok s') :
    s'.devices slot = some (device.setPending
      (if Ready s0 s.currentProcess device.input then
        leftPending (fun req => Ready s0 req.proc.pid device.input) device.pendingRequest
      else device.pendingRequest)) := by
  have start : Standing s0 { s with
      hw := (s.hw.interrupts (arrivals.before slot)).expect (arrivals.during slot) } :=
    Standing.expect slot silent same
  have found0 : ({ s with
      hw := (s.hw.interrupts (arrivals.before slot)).expect (arrivals.during slot) } :
        State).devices slot = some device := found
  have acts := (checkSlot_acts ran).1
  have plain : device.isSemaphore = false := by
    cases input : device.input with
    | semaphore cnt => rw [input] at own; cases own
    | _ => simp [Device.isSemaphore, input]
  obtain ⟨pending, kept⟩ := keeps_device_run acts found plain
  simp only [checkSlot, found, check] at ran
  split at ran
  · cases ran
  · next last ind looped =>
      rw [← Except.ok.inj ran] at kept ⊢
      by_cases ready : Ready s0 s.currentProcess device.input
      · obtain ⟨device', found', input, left⟩ := checkLoop_ready start found0 own ready enough looped
        rw [if_pos ready]
        simp only [modifyDevice_devices, if_true, found', Option.map_some, Option.some.injEq]
          at kept ⊢
        rw [left, List.drop_zero]  at kept ⊢
        rw [kept]
        exact congrArg (device.setPending) (congrArg Device.pendingRequest kept).symm
      · obtain ⟨stopped, found'⟩ := checkLoop_unready start found0 own ready looped
        rw [if_neg ready]
        simp only [modifyDevice_devices, if_true, found', Option.map_some, stopped, List.drop_zero]
        rfl

theorem blocked_of_ret {s : State} {input : Input} (shared : input.shared = true)
    (silent : (inputRead s slot input 0 0).1.hw.incoming = []) (pid : Pid)
    (closed : (inputRead s slot input 0 0).2 = eagain) :
    Blocked (inputRead s slot input 0 0).1 pid [] input := by
  have none : ∀ {console : Console}, ∀ irq ∈ ([] : List Irq), irq.endsLine console = false := by
    intro console irq member
    cases member
  have dull : ∀ {console : Console}, (inputRead s slot input 0 0).1.hw.queue console = [] →
      (inputRead s slot input 0 0).1.hw.Dull console := by
    intro console empty
    refine ⟨?_, ?_⟩
    · rw [empty]
      intro ch member
      cases member
    · rw [silent]
      intro batch member
      cases member
  cases input with
  | serialIo =>
      obtain ⟨going, empty, queue⟩ := readLine_blocked closed
      exact ⟨going, empty, dull queue, none⟩
  | vgaText =>
      obtain ⟨going, empty, queue⟩ := readLine_blocked closed
      exact ⟨going, empty, dull queue, none⟩
  | processWait => cases shared
  | sleepDevice => cases shared
  | semaphore cnt =>
      by_contra ready
      simp only [Blocked] at ready
      simp [inputRead, readSemaphore, ready, zero_ne_eagain] at closed

theorem checkSlot_shared {s s' : State} (silent : arrivals.Silent)
    (found : s.devices slot = some device) (shared : device.input.shared = true)
    (enough : device.pendingRequest.length ≤ maxPending)
    (ran : checkSlot arrivals s slot = .ok s') :
    ∃ device', s'.devices slot = some device' ∧ device'.input.shared = true ∧
      (device'.pendingRequest = [] ∨ ∀ pid, Blocked s' pid [] device'.input) := by
  have found0 : ({ s with
      hw := (s.hw.interrupts (arrivals.before slot)).expect (arrivals.during slot) } :
        State).devices slot = some device := found
  have same : SameWaits s s := ⟨rfl, rfl, rfl⟩
  have still := (Standing.checkSlot silent same ran).2
  simp only [checkSlot, found, check] at ran
  split at ran
  · cases ran
  · next last ind looped =>
      obtain ⟨device', found', shared', ended⟩ := checkLoop_shared found0 shared enough looped
      refine ⟨device'.setPending (device'.pendingRequest.drop ind), ?_, shared', ?_⟩
      · rw [← Except.ok.inj ran]
        simp only [modifyDevice_devices, if_true, found', Option.map_some]
        rfl
      · rcases ended with empty | ⟨polled, state, closed⟩
        · exact Or.inl empty
        · apply Or.inr
          intro pid
          rw [← Except.ok.inj ran] at still ⊢
          have quiet : last.hw.incoming = [] := still
          rw [state] at quiet
          have blocked := blocked_of_ret shared' quiet pid closed
          rw [← state] at blocked
          exact blocked.congr ⟨rfl, rfl, rfl, rfl, rfl⟩

theorem SameWaits.checkSlots {slots : List Slot} {s0 s s' : State} (silent : arrivals.Silent)
    (same : SameWaits s0 s) (ran : slots.foldlM (checkSlot arrivals) s = .ok s') :
    SameWaits s0 s' :=
  checkSlots_keeps (SameWaits s0) (fun _ _ _ same ran => (Standing.checkSlot silent same ran).1)
    same ran

theorem Blocked.checkSlots {slots : List Slot} {s s' : State} {pid : Pid} {input : Input}
    (silent : arrivals.Silent) (blocked : Blocked s pid [] input)
    (ran : slots.foldlM (Kernel.checkSlot arrivals) s = .ok s') : Blocked s' pid [] input := by
  apply checkSlots_keeps (fun s => Blocked s pid [] input) _ blocked ran
  intro mid next slot blocked ran
  have quiet : Blocked mid.lull pid
      (arrivals.before slot ++ (arrivals.during slot).flatten ++ []) input := by
    rw [(silent slot).1, (silent slot).2]
    exact blocked.lull
  exact quiet.checkSlot ran

theorem checkAll_split {s s' : State} (slot : Slot) (ran : checkAll arrivals s = .ok s') :
    ∃ (before after : List Slot) (mid next : State),
      before.foldlM (checkSlot arrivals) s = .ok mid ∧ checkSlot arrivals mid slot = .ok next ∧
      after.foldlM (checkSlot arrivals) next = .ok s' ∧ slot ∉ before ∧ slot ∉ after := by
  obtain ⟨before, after, slots⟩ := List.append_of_mem (List.mem_finRange slot)
  have distinct := List.nodup_finRange 64
  rw [slots] at distinct
  simp only [checkAll, slots, List.foldlM_append, List.foldlM_cons] at ran
  obtain ⟨mid, first, ran⟩ := bind_ok ran
  obtain ⟨next, checked, ran⟩ := bind_ok ran
  have apart := List.nodup_middle.mp distinct
  obtain ⟨outside, _⟩ := List.nodup_cons.mp apart
  rw [List.mem_append, not_or] at outside
  exact ⟨before, after, mid, next, first, checked, ran, outside⟩

theorem idle_own_iff {s0 s : State} {left : List PendingRead} (standing : Standing s0 s)
    (own : device.input.shared = false)
    (found : s.devices slot = some (device.setPending left)) :
    Idle s slot ↔ ∀ req ∈ left, ¬ Ready s0 req.proc.pid device.input := by
  have read : ∀ req, requestRead s slot device req = eagain ↔
      ¬ Ready s0 req.proc.pid device.input := by
    intro req
    have blocks := read_blocks_iff (s := { s with currentProcess := req.proc.pid }) slot own
      standing.2 req.buffer req.size
    rw [← standing.1.ready]
    exact blocks
  constructor
  · intro idle req member
    exact (read req).mp (idle _ found req member)
  · intro unready other here req member
    rw [found, Option.some.injEq] at here
    rw [← here] at member ⊢
    exact (read req).mpr (unready req member)

theorem prompt_iff {s : State} (found : s.devices slot = some device)
    (own : device.input.shared = false) : Prompt s slot ↔
      (∀ req ∈ device.pendingRequest, Ready s req.proc.pid device.input →
        Ready s s.currentProcess device.input) ∧
      device.pendingRequest.Pairwise fun earlier later =>
        Ready s later.proc.pid device.input → Ready s earlier.proc.pid device.input := by
  constructor
  · intro prompt
    exact prompt device found own
  · intro both other here _
    rw [found, Option.some.injEq] at here
    rw [← here]
    exact both

/-- When a pass in which nothing arrives leaves no pending read that would return. -/
theorem checkAll_idle_iff {s s' : State} (silent : arrivals.Silent) (queues : Queues s.toTables)
    (ran : checkAll arrivals s = .ok s') (slot : Slot) : Idle s' slot ↔ Prompt s slot := by
  obtain ⟨before, after, mid, next, first, checked, later, outside, outside'⟩ :=
    checkAll_split slot ran
  have same : SameWaits s mid := SameWaits.checkSlots silent ⟨rfl, rfl, rfl⟩ first
  have known : mid.devices slot = s.devices slot := checkSlots_other outside first
  have kept : s'.devices slot = next.devices slot := checkSlots_other outside' later
  have current : mid.currentProcess = s.currentProcess := (checkSlots_acts first).2
  have standing := Standing.checkSlot silent same checked
  have final : Standing s s' := checkSlots_keeps (Standing s)
    (fun _ _ _ standing ran => Standing.checkSlot silent standing.1 ran) standing later
  cases found : s.devices slot with
  | none =>
      have gone : next.devices slot = none := by
        simp only [checkSlot, known, found] at checked
        rw [← Except.ok.inj checked]
        exact known.trans found
      constructor
      · intro _ device here
        rw [found] at here
        cases here
      · intro _ device here
        rw [kept, gone] at here
        cases here
  | some device =>
      have enough := queues.length_le slot
      rw [pendingAt_of_some found] at enough
      have there : mid.devices slot = some device := known.trans found
      cases kind : device.input.shared with
      | true =>
          obtain ⟨device', found', shared, ended⟩ := checkSlot_shared silent there kind enough checked
          constructor
          · intro _ other here own
            rw [found, Option.some.injEq] at here
            rw [← here, kind] at own
            cases own
          · intro _ other here req member
            rw [kept, found', Option.some.injEq] at here
            rw [← here] at member ⊢
            rcases ended with empty | blocked
            · rw [empty] at member
              cases member
            · have stuck := (blocked req.proc.pid).checkSlots silent later
              have still : Blocked { s' with currentProcess := req.proc.pid } req.proc.pid []
                  device'.input := stuck.congr ⟨rfl, rfl, rfl, rfl, rfl⟩
              exact still.ret (Or.inr rfl) slot req.buffer req.size
      | false =>
          have left := checkSlot_own silent same there kind enough checked
          rw [current] at left
          rw [idle_own_iff final kind (kept.trans left), prompt_iff found kind]
          exact served_order_iff _ _ device.pendingRequest

/-- A pass at the end of a system call made in a reachable state, with nothing arriving. -/
def Passes (fs : FileSystem) (place : Placement) (called passed : State) : Prop :=
  ∃ s trap proc callsys ret, Reachable fs place (fun _ _ => True) s ∧
    s.processList s.currentProcess = some proc ∧ callsysOf trap.regs.eax = some callsys ∧
    applyHandler fs place (entered s trap proc) trap (proc.trapped trap) callsys =
      .ok (called, ret) ∧
    trap.arrivals.Silent ∧ checkAll trap.arrivals called = .ok passed

theorem Passes.queues {fs : FileSystem} {place : Placement} {called passed : State}
    (passes : Passes fs place called passed) : Queues called.toTables := by
  obtain ⟨s, trap, proc, callsys, ret, reachable, current, known, applied, _, _⟩ := passes
  have inv := reachable.inv
  obtain ⟨other, awake⟩ := inv.running
  have same : other = proc := Option.some.inj (awake.1.symm.trans current)
  rw [same] at awake
  exact (inv.queues.run (entered_acts trap awake)).run (handler_acts inv awake known applied)

/-- A pass leaves no pending read that would return exactly when it finds each queue in an
order that the process that makes the call can serve. -/
theorem pass_serves_ready {fs : FileSystem} {place : Placement} {called passed : State}
    (passes : Passes fs place called passed) :
    (∀ slot, Idle passed slot) ↔ ∀ slot, Prompt called slot := by
  have queues := passes.queues
  obtain ⟨s, trap, proc, callsys, ret, _, _, _, _, silent, checked⟩ := passes
  constructor
  · intro idle slot
    exact (checkAll_idle_iff silent queues checked slot).mp (idle slot)
  · intro prompt slot
    exact (checkAll_idle_iff silent queues checked slot).mpr (prompt slot)

section Sample

instance (s : State) (slot : Slot) : Decidable (Prompt s slot) :=
  inferInstanceAs (Decidable (∀ device ∈ s.devices slot, device.input.shared = false →
    (∀ req ∈ device.pendingRequest, Ready s req.proc.pid device.input →
      Ready s s.currentProcess device.input) ∧
    device.pendingRequest.Pairwise fun earlier later =>
      Ready s later.proc.pid device.input → Ready s earlier.proc.pid device.input))

def tickHalt : Trap := { plainCall 254 0 0 0 with user := [.tick] }

def smallPass (traps : List Trap) : Option (State × State) :=
  (smallRun (fun _ _ => True) traps).bind fun s =>
    (s.processList s.currentProcess).bind fun proc =>
      (checkAll tickHalt.arrivals (entered s tickHalt proc)).toOption.map fun passed =>
        (entered s tickHalt proc, passed)

theorem smallPass_exists (traps : List Trap) (goal : State → State → Prop)
    [∀ called passed, Decidable (goal called passed)]
    (ran : (smallPass traps).any (fun both => goal both.1 both.2)) :
    ∃ called passed, Passes smallVolume smallPlacement called passed ∧ goal called passed := by
  obtain ⟨⟨called, passed⟩, reached, holds⟩ := (Option.any_eq_true _ _).mp ran
  obtain ⟨s, ran, rest⟩ := Option.bind_eq_some_iff.mp reached
  obtain ⟨proc, current, rest⟩ := Option.bind_eq_some_iff.mp rest
  obtain ⟨last, checked, same⟩ := Option.map_eq_some_iff.mp rest
  cases same
  refine ⟨_, passed, ?_, of_decide_eq_true holds⟩
  exact ⟨s, tickHalt, proc, .hlt, 0, smallRun_reachable _ ran, current, rfl, rfl,
    fun _ => ⟨rfl, rfl⟩, toOption_eq_some checked⟩

def sleeper : List Trap :=
  [plainCall 2 0 0 0, plainCall 202 0 0 0, callWith ":SLEEP".toUTF8.toList 5 100 0 0,
    callWith [1, 0, 0, 0] 4 3 100 4, plainCall 3 3 100 4]

/-- The tick has come, and the thread is woken by a process that does not sleep. -/
theorem pass_serves_ready_sleeper :
    ∃ called passed, Passes smallVolume smallPlacement called passed ∧
      called.toTables.pendingAt 3 ≠ [] ∧ ∀ slot, Idle passed slot := by
  obtain ⟨called, passed, passes, waiting, prompt⟩ := smallPass_exists sleeper
    (fun called _ => called.toTables.pendingAt 3 ≠ [] ∧ ∀ slot, Prompt called slot)
    (by decide +kernel)
  exact ⟨called, passed, passes, waiting, (pass_serves_ready passes).mpr prompt⟩

/-- The tick has come, and the pass of a process with a later deadline of its own leaves the
thread asleep. -/
theorem ready_sleeper_left_pending :
    ¬ ∀ fs place called passed, Passes fs place called passed → ∀ slot, Idle passed slot := by
  intro claim
  obtain ⟨called, passed, passes, device, found, req, member, returns⟩ := smallPass_exists
    (sleeper ++ [callWith ":SLEEP".toUTF8.toList 5 100 0 0, callWith [100, 0, 0, 0] 4 3 100 4])
    (fun _ passed => ∃ device ∈ passed.devices 3, ∃ req ∈ device.pendingRequest,
      requestRead passed 3 device req ≠ eagain) (by decide +kernel)
  exact returns (claim _ _ called passed passes 3 device found req member)

end Sample

end SysImpl.Kernel
