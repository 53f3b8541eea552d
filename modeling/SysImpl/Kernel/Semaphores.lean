import SysImpl.Kernel.Returns
import Mathlib.Tactic.Ring

/-! Semaphores: the count, the queue and the order of waits.

A semaphore keeps a count, its wrapper keeps a queue. Whatever the interleaving, the count
is what it started with, plus the signals, minus the completed waits, and waits complete
in the order they were issued. At every return to user mode no process waits on a
semaphore that is open. -/

namespace SysImpl.Kernel

open Runs

def Event.about (d : Nat) : Event → Bool
  | .created e _ => e == d
  | .signalled e => e == d
  | .issued e _ _ => e == d
  | .completed e _ _ _ _ => e == d
  | _ => false

def issueOf (d : Nat) : Event → Option (ProcPtr × Nat)
  | .issued e p size => if e = d then some (p, size) else none
  | _ => none

def completionOf (d : Nat) : Event → Option (ProcPtr × Nat)
  | .completed e p size _ _ => if e = d then some (p, size) else none
  | _ => none

def issuedOn (d : Nat) (log : List Event) : List (ProcPtr × Nat) :=
  log.reverse.filterMap (issueOf d)

def completedOn (d : Nat) (log : List Event) : List (ProcPtr × Nat) :=
  log.reverse.filterMap (completionOf d)

def signalsOn (d : Nat) (log : List Event) : Nat := log.count (.signalled d)

/-- The count a semaphore should have. -/
def balance (d : Nat) (k : Int) (log : List Event) : Int :=
  k + signalsOn d log - (completedOn d log).length

theorem issuedOn_cons (d : Nat) (event : Event) (log : List Event) :
    issuedOn d (event :: log) = issuedOn d log ++ (issueOf d event).toList := by
  cases issue : issueOf d event with
  | none => simp [issuedOn, issue]
  | some wait => simp [issuedOn, issue]

theorem completedOn_cons (d : Nat) (event : Event) (log : List Event) :
    completedOn d (event :: log) = completedOn d log ++ (completionOf d event).toList := by
  cases completion : completionOf d event with
  | none => simp [completedOn, completion]
  | some wait => simp [completedOn, completion]

theorem issuedOn_filter (d : Nat) (log : List Event) :
    issuedOn d (log.filter (Event.about d)) = issuedOn d log := by
  induction log with
  | nil => rfl
  | cons event rest ih =>
      by_cases about : event.about d
      · rw [List.filter_cons_of_pos about, issuedOn_cons, issuedOn_cons, ih]
      · have none : issueOf d event = none := by
          cases event with
          | issued e p size =>
              have differs : e ≠ d := by simpa [Event.about] using about
              simp [issueOf, differs]
          | _ => rfl
        rw [List.filter_cons_of_neg about, ih, issuedOn_cons, none]
        exact (List.append_nil _).symm

theorem completedOn_filter (d : Nat) (log : List Event) :
    completedOn d (log.filter (Event.about d)) = completedOn d log := by
  induction log with
  | nil => rfl
  | cons event rest ih =>
      by_cases about : event.about d
      · rw [List.filter_cons_of_pos about, completedOn_cons, completedOn_cons, ih]
      · have none : completionOf d event = none := by
          cases event with
          | completed e p size ret data =>
              have differs : e ≠ d := by simpa [Event.about] using about
              simp [completionOf, differs]
          | _ => rfl
        rw [List.filter_cons_of_neg about, ih, completedOn_cons, none]
        exact (List.append_nil _).symm

theorem signalsOn_filter (d : Nat) (log : List Event) :
    signalsOn d (log.filter (Event.about d)) = signalsOn d log := by
  rw [signalsOn, signalsOn, List.count_filter]
  simp [Event.about]

/-- The account of a semaphore: its count, and its queue as the waits not yet completed. -/
structure Account (d : Nat) (k cnt : Int) (pending : List PendingRead) (log : List Event) :
    Prop where
  count : cnt = balance d k log
  nonneg : 0 ≤ cnt
  order : issuedOn d log = completedOn d log ++ pending.map fun req => (req.proc, req.size)

theorem Account.of_same {d : Nat} {k cnt : Int} {pending : List PendingRead}
    {log log' : List Event} (account : Account d k cnt pending log)
    (same : log'.filter (Event.about d) = log.filter (Event.about d)) :
    Account d k cnt pending log' := by
  have issued : issuedOn d log' = issuedOn d log := by
    rw [← issuedOn_filter, same, issuedOn_filter]
  have completed : completedOn d log' = completedOn d log := by
    rw [← completedOn_filter, same, completedOn_filter]
  have signals : signalsOn d log' = signalsOn d log := by
    rw [← signalsOn_filter, same, signalsOn_filter]
  refine ⟨?_, account.nonneg, ?_⟩
  · rw [account.count, balance, balance, signals, completed]
  · rw [issued, completed, account.order]

variable {t t' : Tables} {label : Label}

def Label.slot : Label → Option Slot
  | .signal slot => some slot
  | .newSem slot => some slot
  | .done slot _ _ => some slot
  | .block slot _ => some slot
  | .serve slot _ _ => some slot
  | .requeue slot _ => some slot
  | _ => none

structure Serials (t : Tables) : Prop where
  bound : ∀ slot device, t.devices slot = some device → device.serial < t.nextSerial
  distinct : ∀ slot other device device', t.devices slot = some device →
    t.devices other = some device' → device.serial = device'.serial → slot = other
  fresh : ∀ d, t.nextSerial ≤ d → t.log.filter (Event.about d) = []

theorem Act.device_apart {slot : Slot} {device : Device} (queues : Queues t)
    (act : Act t label t') (apart : label.slot ≠ some slot) (found : t'.devices slot = some device) :
    t.devices slot = some device := by
  have other : ∀ {t : Tables} {here : Slot} {f : Device → Device}, here ≠ slot →
      (t.modifyDevice here f).devices slot = t.devices slot := by
    intro t here f differs
    rw [modifyDevice_devices, if_neg (Ne.symm differs)]
  have differs : ∀ {here : Slot}, label.slot = some here → here ≠ slot := by
    intro here known same
    rw [same] at known
    exact apart known
  cases act with
  | @detach pid proc pos awake =>
      cases held : proc.objects pos with
      | none => simpa only [Tables.removeObject, awake.1, held] using found
      | some obj =>
          simp only [Tables.removeObject, awake.1, held,
            queues.onRemovedByOwner awake obj] at found
          cases obj with
          | file id => exact found
          | segment base size => exact found
          | device here =>
              simp only [Tables.dropReference] at found
              split at found
              · rw [setDevice_devices, Function.update_apply] at found
                split at found
                · cases found
                · exact found
              · exact found
  | signal => exact (other (differs rfl)).symm.trans found
  | newSem cnt free =>
      simpa only [Tables.newSemaphore, note_devices, setDevice_devices,
        Function.update_of_ne (Ne.symm (differs rfl))] using found
  | kill =>
      rw [processExit_devices, wakeParent_devices] at found
      exact found
  | image =>
      rw [wakeParent_devices] at found
      exact found
  | done => exact (other (t := t.note _) (differs rfl)).symm.trans found
  | block => exact (other (t := t.note _) (differs rfl)).symm.trans found
  | serve => exact (other (t := t.modify _ _) (differs rfl)).symm.trans found
  | requeue => exact (other (differs rfl)).symm.trans found
  | _ => exact found

theorem Act.events_apart {d : Nat} (act : Act t label t')
    (apart : ∀ slot device, label.slot = some slot → t.devices slot = some device →
      device.serial ≠ d) (old : ∀ slot, label = .newSem slot → d ≠ t.nextSerial) :
    t'.log.filter (Event.about d) = t.log.filter (Event.about d) := by
  cases act with
  | detach => rw [removeObject_log]
  | signal found kind =>
      have differs := apart _ _ rfl found
      simp [Event.about, differs]
  | newSem cnt free =>
      have differs : t.nextSerial ≠ d := Ne.symm (old _ rfl)
      simp [Tables.newSemaphore, Event.about, differs]
  | kill => simp [wakeParent_log, Event.about]
  | image => simp [wakeParent_log, Event.about]
  | done awake found spec =>
      have differs := apart _ _ rfl found
      simp [Event.about, differs]
  | block buffer awake found held spec =>
      have differs := apart _ _ rfl found
      simp [Event.about, differs]
  | serve found queue spec =>
      have differs := apart _ _ rfl found
      simp [Event.about, differs]
  | requeue => rfl
  | regs => rfl
  | attach => rfl
  | enter => rfl
  | await => rfl
  | fork => rfl
  | thread => rfl

theorem Act.serial_before {slot : Slot} {device : Device} (queues : Queues t)
    (act : Act t label t') (found : t'.devices slot = some device) :
    (∃ before, t.devices slot = some before ∧ before.serial = device.serial) ∨
      label = .newSem slot ∧ device.serial = t.nextSerial ∧
        t'.nextSerial = t.nextSerial + 1 := by
  by_cases apart : label.slot = some slot
  · have same : ∀ {t : Tables} {f : Device → Device},
        (t.modifyDevice slot f).devices slot = some device →
          (∀ device, (f device).serial = device.serial) →
            ∃ before, t.devices slot = some before ∧ before.serial = device.serial := by
      intro t f there kept
      rw [modifyDevice_devices, if_pos rfl] at there
      obtain ⟨before, here, rfl⟩ := Option.map_eq_some_iff.mp there
      exact ⟨before, here, (kept before).symm⟩
    cases act with
    | @signal here other cnt known kind =>
        rw [Option.some.inj apart] at found
        exact Or.inl (same found fun _ => rfl)
    | @newSem here cnt free =>
        rw [Option.some.inj apart]
        rw [← Option.some.inj apart] at found
        simp only [Tables.newSemaphore, note_devices, setDevice_devices, Function.update_self,
          Option.some.injEq] at found
        exact Or.inr ⟨rfl, by rw [← found], rfl⟩
    | @done pid proc here other size ret data input awake known spec =>
        rw [Option.some.inj apart] at found
        exact Or.inl (same (t := t.note _) found fun _ => rfl)
    | @block pid proc here other pos buffer size awake known held spec =>
        rw [Option.some.inj apart] at found
        exact Or.inl (same (t := t.note _) found fun _ => rfl)
    | @serve here other now rest ret data input known queue spec =>
        rw [Option.some.inj apart] at found
        exact Or.inl (same (t := t.modify _ _) found fun _ => rfl)
    | @requeue here other now rest known queue kind =>
        rw [Option.some.inj apart] at found
        exact Or.inl (same found fun _ => rfl)
    | _ => cases apart
  · exact Or.inl ⟨device, act.device_apart queues apart found, rfl⟩

theorem Serials.act (serials : Serials t) (queues : Queues t) (act : Act t label t') :
    Serials t' := by
  have grows := act.nextSerial_le
  constructor
  · intro slot device found
    rcases act.serial_before queues found with ⟨before, here, same⟩ | ⟨_, same, next⟩
    · have bound := serials.bound slot before here
      omega
    · omega
  · intro slot other device device' found found' same
    rcases act.serial_before queues found with ⟨before, here, kept⟩ | ⟨new, number, _⟩
    · rcases act.serial_before queues found' with ⟨before', here', kept'⟩ | ⟨_, number', _⟩
      · exact serials.distinct slot other before before' here here' (by omega)
      · have bound := serials.bound slot before here
        omega
    · rcases act.serial_before queues found' with ⟨before', here', kept'⟩ | ⟨new', _⟩
      · have bound := serials.bound other before' here'
        omega
      · rw [new] at new'
        simpa using new'
  · intro d late
    by_cases new : ∃ slot, label = .newSem slot
    · obtain ⟨slot, rfl⟩ := new
      cases act with
      | newSem cnt free =>
          have differs : t.nextSerial ≠ d := by
            have next : t.nextSerial + 1 ≤ d := late
            omega
          have before := serials.fresh d (by omega)
          simpa [Tables.newSemaphore, Event.about, differs] using before
    · rw [act.events_apart]
      · exact serials.fresh d (by omega)
      · intro slot device _ found
        have bound := serials.bound slot device found
        omega
      · intro slot same
        exact absurd ⟨slot, same⟩ new

/-- What is asked of the use of a semaphore: it starts with a count that is not negative,
every wait takes a unit, and the count stays in the range of an `int`. -/
structure InRange (d : Nat) (k : Int) (log : List Event) : Prop where
  start : 0 ≤ k
  takes : ∀ wait ∈ issuedOn d log, 0 < wait.2
  fits : ∀ earlier ∈ log.tails, balance d k earlier < 2 ^ 31

instance (d : Nat) (k : Int) (log : List Event) : Decidable (InRange d k log) :=
  decidable_of_iff (0 ≤ k ∧ (∀ wait ∈ issuedOn d log, 0 < wait.2) ∧
      ∀ earlier ∈ log.tails, balance d k earlier < 2 ^ 31)
    ⟨fun ⟨start, takes, fits⟩ => ⟨start, takes, fits⟩,
      fun range => ⟨range.start, range.takes, range.fits⟩⟩

theorem mem_issuedOn {d : Nat} {log : List Event} {p : ProcPtr} {size : Nat}
    (member : .issued d p size ∈ log) : (p, size) ∈ issuedOn d log := by
  apply List.mem_filterMap.mpr
  exact ⟨_, List.mem_reverse.mpr member, by simp [issueOf]⟩

theorem issuedOn_suffix {d : Nat} {log log' : List Event} (suffix : log <:+ log')
    {wait : ProcPtr × Nat} (member : wait ∈ issuedOn d log) : wait ∈ issuedOn d log' := by
  obtain ⟨event, here, issue⟩ := List.mem_filterMap.mp member
  apply List.mem_filterMap.mpr
  exact ⟨event, List.mem_reverse.mpr (suffix.mem (List.mem_reverse.mp here)), issue⟩

theorem InRange.earlier {d : Nat} {k : Int} {log log' : List Event} (range : InRange d k log')
    (suffix : log <:+ log') : InRange d k log := by
  refine ⟨range.start, ?_, ?_⟩
  · intro wait member
    exact range.takes wait (issuedOn_suffix suffix member)
  · intro earlier member
    have before := (List.mem_tails _ _).mp member
    exact range.fits earlier ((List.mem_tails _ _).mpr (before.trans suffix))

def Accounts (t : Tables) : Prop :=
  ∀ slot device cnt k, t.devices slot = some device → device.input = .semaphore cnt →
    .created device.serial k ∈ t.log → InRange device.serial k t.log →
      Account device.serial k cnt device.pendingRequest t.log

/-- No process waits on a semaphore that is open. -/
def Settled (t : Tables) : Prop :=
  ∀ slot device cnt, t.devices slot = some device → device.input = .semaphore cnt →
    device.pendingRequest ≠ [] → cnt ≤ 0

theorem wrapInt_of_lt {x : Int} (low : 0 ≤ x) (high : x < 2 ^ 31) : wrapInt x = x := by
  rw [wrapInt]
  omega

section Changes

variable {d : Nat} {k cnt : Int} {pending : List PendingRead} {log : List Event}

theorem Account.signal (account : Account d k cnt pending log)
    (range : InRange d k (.signalled d :: log)) :
    Account d k (wrapInt (cnt + 1)) pending (.signalled d :: log) := by
  have completed : completedOn d (.signalled d :: log) = completedOn d log := by
    rw [completedOn_cons]
    exact List.append_nil _
  have issued : issuedOn d (.signalled d :: log) = issuedOn d log := by
    rw [issuedOn_cons]
    exact List.append_nil _
  have more : balance d k (.signalled d :: log) = cnt + 1 := by
    rw [account.count, balance, balance, completed, signalsOn, List.count_cons_self, signalsOn]
    push_cast
    ring
  have fits := range.fits _ ((List.mem_tails _ _).mpr (List.suffix_refl _))
  have nonneg := account.nonneg
  rw [more] at fits
  rw [wrapInt_of_lt (by omega) fits]
  refine ⟨more.symm, by omega, ?_⟩
  rw [issued, completed]
  exact account.order

theorem issue_counts (d : Nat) (k : Int) (log : List Event) (p : ProcPtr) (size : Nat) :
    balance d k (.issued d p size :: log) = balance d k log ∧
      issuedOn d (.issued d p size :: log) = issuedOn d log ++ [(p, size)] ∧
      completedOn d (.issued d p size :: log) = completedOn d log := by
  have completed : completedOn d (.issued d p size :: log) = completedOn d log := by
    rw [completedOn_cons]
    exact List.append_nil _
  refine ⟨?_, ?_, completed⟩
  · rw [balance, balance, completed, signalsOn, signalsOn, List.count_cons_of_ne (by simp)]
  · rw [issuedOn_cons]
    simp [issueOf]

theorem completion_counts (d : Nat) (k : Int) (log : List Event) (p : ProcPtr) (size : Nat)
    (ret : Int) (data : List UInt8) :
    balance d k (.completed d p size ret data :: log) = balance d k log - 1 ∧
      issuedOn d (.completed d p size ret data :: log) = issuedOn d log ∧
      completedOn d (.completed d p size ret data :: log) = completedOn d log ++ [(p, size)] := by
  have completed : completedOn d (.completed d p size ret data :: log) =
      completedOn d log ++ [(p, size)] := by
    rw [completedOn_cons]
    simp [completionOf]
  refine ⟨?_, ?_, completed⟩
  · rw [balance, balance, completed, signalsOn, signalsOn, List.count_cons_of_ne (by simp),
      List.length_append, List.length_singleton]
    push_cast
    ring
  · rw [issuedOn_cons]
    exact List.append_nil _

theorem Account.block (account : Account d k cnt pending log) (req : PendingRead) :
    Account d k cnt (pending ++ [req]) (.issued d req.proc req.size :: log) := by
  obtain ⟨same, issued, completed⟩ := issue_counts d k log req.proc req.size
  refine ⟨by rw [same]; exact account.count, account.nonneg, ?_⟩
  rw [issued, completed, account.order]
  simp

theorem Account.serve {now : PendingRead} {rest : List PendingRead}
    (account : Account d k cnt (now :: rest) log) (ready : 0 < cnt) (ret : Int)
    (data : List UInt8) :
    Account d k (cnt - 1) rest (.completed d now.proc now.size ret data :: log) := by
  obtain ⟨fewer, issued, completed⟩ := completion_counts d k log now.proc now.size ret data
  refine ⟨by rw [fewer, account.count], by omega, ?_⟩
  rw [issued, completed, account.order]
  simp

end Changes

theorem ReadSpec.of_semaphore {pid : Pid} {size : Nat} {ret cnt : Int} {data : List UInt8}
    {device : Device} {after : Input} (spec : ReadSpec t pid size ret data device.input after)
    (kind : after = .semaphore cnt) : ∃ before, device.input = .semaphore before ∧ 0 < before ∧
      cnt = if size = 0 then before else before - 1 := by
  cases input : device.input with
  | semaphore before =>
      rw [input, kind] at spec
      simp only [ReadSpec, Input.semaphore.injEq] at spec
      exact ⟨before, rfl, spec.1, spec.2.2⟩
  | serialIo => rw [input, kind] at spec; cases spec.1
  | vgaText => rw [input, kind] at spec; cases spec.1
  | processWait => rw [input, kind] at spec; cases spec.1
  | sleepDevice => rw [input, kind] at spec; cases spec.1

theorem Accounts.newSem {slot : Slot} {k : Int} (serials : Serials t) (cnt : Int) (start : 0 ≤ k)
    (created : .created t.nextSerial k ∈ (t.newSemaphore slot cnt).log) :
    Account t.nextSerial k cnt [] (t.newSemaphore slot cnt).log := by
  have none := serials.fresh t.nextSerial (Nat.le_refl _)
  have log : (t.newSemaphore slot cnt).log = .created t.nextSerial cnt :: t.log := rfl
  have value : k = cnt := by
    rw [log] at created
    rcases List.mem_cons.mp created with new | old
    · exact (Event.created.inj new).2
    · have member : .created t.nextSerial k ∈ t.log.filter (Event.about t.nextSerial) :=
        List.mem_filter.mpr ⟨old, by simp [Event.about]⟩
      rw [none] at member
      cases member
  have same : (t.newSemaphore slot cnt).log.filter (Event.about t.nextSerial) =
      [Event.created t.nextSerial cnt].filter (Event.about t.nextSerial) := by
    rw [log, List.filter_cons, none]
    simp [Event.about]
  have single : Account t.nextSerial k cnt [] [Event.created t.nextSerial cnt] := by
    refine ⟨?_, by omega, rfl⟩
    rw [← value]
    exact (Int.sub_zero k).symm.trans (congrArg (· - 0) (Int.add_zero k).symm)
  exact single.of_same same

/-- Every act keeps the accounts, where a wait that completes at once finds nobody waiting. -/
theorem Accounts.act (accounts : Accounts t) (serials : Serials t) (queues : Queues t)
    (act : Act t label t') (settled : ∀ slot p ret, label = .done slot p ret → Settled t) :
    Accounts t' := by
  intro slot device cnt k found kind created range
  have before := range.earlier act.log_suffix
  by_cases here : label.slot = some slot
  · cases act with
    | @signal other old count known semaphore =>
        rw [← Option.some.inj here] at found
        simp only [note_devices, modifyDevice_devices, if_true, known, Option.map_some,
          Option.some.injEq] at found
        rw [← found] at kind created range before ⊢
        cases kind
        have earlier : .created old.serial k ∈ t.log := by
          rcases List.mem_cons.mp created with new | member
          · cases new
          · exact member
        exact (accounts other old count k known semaphore earlier before).signal range
    | @newSem other count free =>
        rw [← Option.some.inj here] at found
        simp only [Tables.newSemaphore, note_devices, setDevice_devices, Function.update_self,
          Option.some.injEq] at found
        rw [← found] at kind created range ⊢
        cases kind
        exact Accounts.newSem serials cnt range.start created
    | @done pid proc other old size ret data input awake known spec =>
        rw [← Option.some.inj here] at found
        simp only [note_devices, modifyDevice_devices, if_true, known, Option.map_some,
          Option.some.injEq] at found
        rw [← found] at kind created range before ⊢
        obtain ⟨count, semaphore, ready, value⟩ := spec.of_semaphore kind
        have earlier : .created old.serial k ∈ t.log := by simpa [Device.setInput] using created
        have account := accounts other old count k known semaphore earlier before
        have empty : old.pendingRequest = [] := by
          by_contra waiting
          have closed := settled _ _ _ rfl other old count known semaphore waiting
          omega
        have positive := range.takes (⟨pid, proc.serial⟩, size)
          (mem_issuedOn (by simp [Device.setInput]))
        rw [if_neg (by omega)] at value
        rw [empty] at account
        have both := (account.block ⟨⟨pid, proc.serial⟩, 0, size⟩).serve ready ret data
        rw [value, show (old.setInput input).pendingRequest = [] from empty]
        exact both
    | @block pid proc other old pos buffer size awake known held spec =>
        rw [← Option.some.inj here] at found
        simp only [modify_devices, note_devices, modifyDevice_devices, if_true, known,
          Option.map_some, Option.some.injEq] at found
        rw [← found] at kind created range before ⊢
        have earlier : .created old.serial k ∈ t.log := by simpa [Device.setPending] using created
        have account := accounts other old cnt k known kind earlier before
        exact account.block ⟨⟨pid, proc.serial⟩, buffer, size⟩
    | @serve other old now rest ret data input known queue spec =>
        rw [← Option.some.inj here] at found
        simp only [modify_devices, note_devices, modifyDevice_devices, if_true, known,
          Option.map_some, Option.some.injEq] at found
        rw [← found] at kind created range before ⊢
        obtain ⟨count, semaphore, ready, value⟩ := spec.of_semaphore kind
        have earlier : .created old.serial k ∈ t.log := by
          simpa [Device.setInput, Device.setPending] using created
        have account := accounts other old count k known semaphore earlier before
        rw [queue] at account
        have issued : (now.proc, now.size) ∈ issuedOn old.serial t.log := by
          rw [account.order]
          simp
        have positive := before.takes _ issued
        rw [if_neg (by omega)] at value
        rw [value]
        exact account.serve ready ret data
    | @requeue other old now rest known queue plain =>
        rw [← Option.some.inj here] at found
        simp only [modify_devices, modifyDevice_devices, if_true, known, Option.map_some,
          Option.some.injEq] at found
        rw [← found] at kind
        have semaphore : old.input = .semaphore cnt := kind
        simp [Device.isSemaphore, semaphore] at plain
    | _ => cases here
  · have known := act.device_apart queues here found
    have events := act.events_apart (d := device.serial) (by
      intro other device' which there same
      have slots := serials.distinct other slot device' device there known same
      rw [slots] at which
      exact here which) (by
      intro other _ same
      have bound := serials.bound slot device known
      omega)
    have earlier : .created device.serial k ∈ t.log := by
      have member : .created device.serial k ∈ t'.log.filter (Event.about device.serial) :=
        List.mem_filter.mpr ⟨created, by simp [Event.about]⟩
      rw [events] at member
      exact (List.mem_filter.mp member).1
    exact (accounts slot device cnt k known kind earlier before).of_same events

/-- Only a signal can open a semaphore that processes wait on. -/
theorem Settled.act (settled : Settled t) (queues : Queues t) (act : Act t label t')
    (quiet : ∀ slot, label ≠ .signal slot) : Settled t' := by
  intro slot device cnt found kind waiting
  by_cases here : label.slot = some slot
  · cases act with
    | signal => exact absurd rfl (quiet _)
    | @newSem other count free =>
        rw [← Option.some.inj here] at found
        simp only [Tables.newSemaphore, note_devices, setDevice_devices, Function.update_self,
          Option.some.injEq] at found
        rw [← found] at waiting
        exact absurd rfl waiting
    | @done pid proc other old size ret data input awake known spec =>
        rw [← Option.some.inj here] at found
        simp only [note_devices, modifyDevice_devices, if_true, known, Option.map_some,
          Option.some.injEq] at found
        rw [← found] at kind waiting
        obtain ⟨count, semaphore, ready, _⟩ := spec.of_semaphore kind
        have closed := settled other old count known semaphore waiting
        omega
    | @block pid proc other old pos buffer size awake known held spec =>
        rw [← Option.some.inj here] at found
        simp only [modify_devices, note_devices, modifyDevice_devices, if_true, known,
          Option.map_some, Option.some.injEq] at found
        rw [← found] at kind
        have semaphore : old.input = .semaphore cnt := kind
        rw [semaphore] at spec
        exact spec
    | @serve other old now rest ret data input known queue spec =>
        rw [← Option.some.inj here] at found
        simp only [modify_devices, note_devices, modifyDevice_devices, if_true, known,
          Option.map_some, Option.some.injEq] at found
        rw [← found] at kind
        obtain ⟨count, semaphore, ready, _⟩ := spec.of_semaphore kind
        have closed := settled other old count known semaphore (by rw [queue]; exact List.cons_ne_nil _ _)
        omega
    | @requeue other old now rest known queue plain =>
        rw [← Option.some.inj here] at found
        simp only [modify_devices, modifyDevice_devices, if_true, known, Option.map_some,
          Option.some.injEq] at found
        rw [← found] at kind
        have semaphore : old.input = .semaphore cnt := kind
        simp [Device.isSemaphore, semaphore] at plain
    | _ => cases here
  · exact settled slot device cnt (act.device_apart queues here found) kind waiting

theorem ReadSpec.shared {pid : Pid} {size : Nat} {ret : Int} {data : List UInt8}
    {input after : Input} (spec : ReadSpec t pid size ret data input after) :
    after.shared = input.shared := by
  cases input with
  | serialIo => rw [spec.1]
  | vgaText => rw [spec.1]
  | processWait => rw [spec.1]
  | sleepDevice => rw [spec.1]
  | semaphore cnt => rw [spec.2.2]; rfl

theorem shared_after_poll {s : State} {slot : Slot} {input : Input} (now : PendingRead)
    (shared : input.shared = true) (passed : (inputRead s slot input 0 0).2 ≠ eagain) :
    (inputRead (wokenFor (inputRead s slot input 0 0).1 now) slot input now.buffer now.size).2 ≠
      eagain := by
  cases input with
  | serialIo => exact readLine_after_poll _ _ passed
  | vgaText => exact readLine_after_poll _ _ passed
  | processWait => cases shared
  | sleepDevice => cases shared
  | semaphore cnt =>
      have semaphore : (⟨0, [], .semaphore cnt⟩ : Device).isSemaphore = true := rfl
      exact poll_semaphore _ _ _ semaphore passed

theorem checkLoop_shared {slot : Slot} {fuel ind last : Nat} {s s' : State} {device : Device}
    (found : s.devices slot = some device) (shared : device.input.shared = true)
    (enough : device.pendingRequest.length ≤ fuel + ind)
    (ran : checkLoop slot fuel ind s = .ok (s', last)) :
    ∃ device', s'.devices slot = some device' ∧ device'.input.shared = true ∧
      (device'.pendingRequest.drop last = [] ∨
        ∃ polled : State, s' = (inputRead polled slot device'.input 0 0).1 ∧
          (inputRead polled slot device'.input 0 0).2 = eagain) := by
  induction fuel generalizing ind s device with
  | zero =>
      simp only [checkLoop, Except.ok.injEq, Prod.mk.injEq] at ran
      rw [← ran.1, ← ran.2]
      exact ⟨device, found, shared, Or.inl (List.drop_eq_nil_of_le (by omega))⟩
  | succ fuel ih =>
      have tables := poll_tables found
      simp only [checkLoop, found] at ran
      cases next : device.pendingRequest[ind]? with
      | none =>
          simp only [next, Except.ok.injEq, Prod.mk.injEq] at ran
          rw [← ran.1, ← ran.2]
          exact ⟨device, found, shared,
            Or.inl (List.drop_eq_nil_of_le (List.getElem?_eq_none_iff.mp next))⟩
      | some now =>
          simp only [next] at ran
          have found0 : (inputRead s slot device.input 0 0).1.devices slot = some device := by
            rw [tables]
            exact found
          by_cases closed : (inputRead s slot device.input 0 0).2 = eagain
          · rw [if_pos closed] at ran
            simp only [Except.ok.injEq, Prod.mk.injEq] at ran
            rw [← ran.1, ← ran.2]
            exact ⟨device, found0, shared, Or.inr ⟨s, rfl, closed⟩⟩
          · rw [if_neg closed] at ran
            split at ran
            · cases ran
            · next s1 served =>
                obtain ⟨_, _, outcome⟩ := serve_cases found0 served
                rcases outcome with ⟨blocked, _⟩ | ⟨_, input, data, found1, spec⟩
                · exact absurd blocked (shared_after_poll now shared closed)
                · have shared1 : (device.setInput input).input.shared = true :=
                    spec.shared.trans shared
                  have left : (device.setInput input).pendingRequest.length ≤ fuel + (ind + 1) := by
                    simp only [Device.setInput]
                    omega
                  exact ih found1 shared1 left ran

theorem Queues.length_le (queues : Queues t) (slot : Slot) :
    (t.pendingAt slot).length ≤ maxPending := by
  have bound := (queues.pids_nodup slot).length_le_card
  simp only [List.length_map, Fintype.card_fin] at bound
  exact bound

theorem keeps_device_run {kind : Label → Prop} {slot : Slot} {device : Device}
    (run : RunOf Act kind t t') (found : t.devices slot = some device)
    (plain : device.isSemaphore = false) :
    ∃ pending, t'.devices slot = some (device.setPending pending) := by
  apply run.invariant (fun t => ∃ pending, t.devices slot = some (device.setPending pending))
    ⟨device.pendingRequest, found⟩
  intro mid label next _ ⟨pending, here⟩ act
  have still : (device.setPending pending).isSemaphore = false := plain
  have kept := act.keeps_device here still
  exact kept

theorem checkSlot_settled {slot : Slot} {arrivals : Arrivals} {s s' : State} {device : Device}
    {cnt : Int} (queues : Queues s.toTables) (ran : checkSlot arrivals s slot = .ok s')
    (found : s'.devices slot = some device) (kind : device.input = .semaphore cnt)
    (waiting : device.pendingRequest ≠ []) : cnt ≤ 0 := by
  have acts := (checkSlot_acts ran).1
  simp only [checkSlot] at ran
  split at ran
  · next empty =>
      rw [← Except.ok.inj ran] at found
      cases empty.symm.trans found
  · next before known =>
      have there : s.devices slot = some before := known
      cases semaphore : before.isSemaphore with
      | false =>
          obtain ⟨pending, same⟩ := keeps_device_run acts there semaphore
          rw [same, Option.some.injEq] at found
          rw [← found] at kind
          have semaphore' : before.input = .semaphore cnt := kind
          simp [Device.isSemaphore, semaphore'] at semaphore
      | true =>
          have shared : before.input.shared = true := by
            cases input : before.input with
            | semaphore count => rfl
            | _ => simp [Device.isSemaphore, input] at semaphore
          have found0 : ({ s with
              hw := (s.hw.interrupts (arrivals.before slot)).expect (arrivals.during slot) } :
                State).devices slot = some before := known
          have length := queues.length_le slot
          rw [pendingAt_of_some there] at length
          simp only [check] at ran
          split at ran
          · cases ran
          · next last ind looped =>
              obtain ⟨after, found', _, ended⟩ := checkLoop_shared found0 shared length looped
              rw [← Except.ok.inj ran] at found
              simp only [modifyDevice_devices, if_true, found', Option.map_some,
                Option.some.injEq] at found
              rw [← found] at kind waiting
              have input : after.input = .semaphore cnt := kind
              rcases ended with none | ⟨polled, _, closed⟩
              · exact absurd none waiting
              · by_contra ready
                rw [input] at closed
                simp [inputRead, readSemaphore, ready, zero_ne_eagain] at closed

theorem checkSlots_settled {arrivals : Arrivals} {slots : List Slot} {s s' : State}
    (queues : Queues s.toTables) (distinct : slots.Nodup)
    (ran : slots.foldlM (checkSlot arrivals) s = .ok s') :
    ∀ slot ∈ slots, ∀ device cnt, s'.devices slot = some device →
      device.input = .semaphore cnt → device.pendingRequest ≠ [] → cnt ≤ 0 := by
  induction slots generalizing s with
  | nil =>
      intro slot member
      cases member
  | cons first rest ih =>
      rw [List.foldlM_cons] at ran
      obtain ⟨mid, checked, ran⟩ := bind_ok ran
      obtain ⟨outside, distinct⟩ := List.nodup_cons.mp distinct
      intro slot member device cnt found kind waiting
      rcases List.mem_cons.mp member with here | later
      · rw [here, checkSlots_other outside ran] at found
        exact checkSlot_settled queues checked found kind waiting
      · exact ih (queues.run (checkSlot_acts checked).1) distinct ran slot later device cnt found
          kind waiting

theorem checkAll_settled {arrivals : Arrivals} {s s' : State} (queues : Queues s.toTables)
    (ran : checkAll arrivals s = .ok s') : Settled s'.toTables := by
  intro slot device cnt found kind waiting
  exact checkSlots_settled queues (List.nodup_finRange 64) ran slot (List.mem_finRange slot) device
    cnt found kind waiting

structure Balanced (t : Tables) : Prop where
  serials : Serials t
  accounts : Accounts t
  settled : Settled t

theorem accounts_run {kind : Label → Prop} (calm : Prop) (queues : Queues t) (serials : Serials t)
    (accounts : Accounts t) (settled : calm → Settled t) (run : RunOf Act kind t t')
    (signals : ∀ slot, kind (.signal slot) → ¬ calm)
    (waits : ∀ slot p ret, kind (.done slot p ret) → calm) :
    Serials t' ∧ Accounts t' ∧ (calm → Settled t') := by
  have all := run.invariant
    (fun t => Queues t ∧ Serials t ∧ Accounts t ∧ (calm → Settled t))
    ⟨queues, serials, accounts, settled⟩ (by
      intro mid label next allowed ⟨queues, serials, accounts, settled⟩ act
      refine ⟨queues.act act, serials.act queues act, accounts.act serials queues act ?_, ?_⟩
      · intro slot p ret same
        rw [same] at allowed
        exact settled (waits slot p ret allowed)
      · intro quiet
        apply (settled quiet).act queues act
        intro slot same
        rw [same] at allowed
        exact signals slot allowed quiet)
  exact all.2

theorem Balanced.run {kind : Label → Prop} (balanced : Balanced t) (queues : Queues t)
    (run : RunOf Act kind t t') (quiet : ∀ slot, ¬ kind (.signal slot)) : Balanced t' := by
  obtain ⟨serials, accounts, settled⟩ := accounts_run True queues balanced.serials
    balanced.accounts (fun _ => balanced.settled) run (fun slot signal _ => quiet slot signal)
    (fun _ _ _ _ => trivial)
  exact ⟨serials, accounts, settled trivial⟩

theorem Balanced.step {fs : FileSystem} {place : Placement} {s s' : State} {trap : Trap}
    (balanced : Balanced s.toTables) (inv : Inv s)
    (ran : realSyscallHandler fs place s trap = .ok s') : Balanced s'.toTables := by
  obtain ⟨proc, awake, _, outcome⟩ := step_cases inv ran
  have enter := entered_acts trap awake
  have before := balanced.run inv.queues enter (fun slot signal => signal)
  rcases outcome with ⟨_, same⟩ | ⟨callsys, called, ret, passed, known, applied, checked, stored⟩
  · rw [same]
    exact before
  · have queues := inv.queues.run enter
    have handler := handler_acts inv awake known applied
    have pass := (checkAll_acts checked).1
    -- Only a write signals, and only a read waits.
    obtain ⟨serials, accounts, _⟩ := accounts_run (¬ (trapRights fs trap).signals) queues
      before.serials before.accounts (fun _ => before.settled) handler
      (fun slot signal quiet => quiet signal) (by
        intro slot p out wait signal
        have read : callsysOf trap.regs.eax = some .read := wait.2.1
        have write : callsysOf trap.regs.eax = some .write := signal
        rw [read] at write
        cases write)
    obtain ⟨serials, accounts, _⟩ := accounts_run False (queues.run handler) serials
      accounts False.elim pass (fun slot signal => signal.elim fun _ none => none.elim)
      (fun slot p out wait => wait.elim fun _ none => none)
    have after : Balanced passed.toTables :=
      ⟨serials, accounts, checkAll_settled (queues.run handler) checked⟩
    have store := Act.regs passed.toTables s.currentProcess (Tss.setRetval ret)
    rw [stored]
    have stores : RunOf Act (fun label => label = .regs s.currentProcess) passed.toTables
        (passed.toTables.modify s.currentProcess (Process.setTss (Tss.setRetval ret))) :=
      RunOf.single store rfl
    exact after.run ((queues.run handler).run pass) stores (fun slot signal => by cases signal)

theorem bootTables_balanced (codes : Pid → Nat) : Balanced (bootTables codes) := by
  have plain : ∀ slot device, (bootTables codes).devices slot = some device →
      device.serial = slot.val ∧ slot.val < 4 ∧ device.isSemaphore = false := by
    intro slot device found
    simp only [bootTables, setProcess_devices, initialTables] at found
    split at found
    · next same =>
        cases found
        exact ⟨same.symm, by omega, rfl⟩
    · next same =>
        cases found
        exact ⟨same.symm, by omega, rfl⟩
    · next same =>
        cases found
        exact ⟨same.symm, by omega, rfl⟩
    · next same =>
        cases found
        exact ⟨same.symm, by omega, rfl⟩
    · cases found
  have none : ∀ slot device cnt, (bootTables codes).devices slot = some device →
      device.input ≠ .semaphore cnt := by
    intro slot device cnt found kind
    have other := (plain slot device found).2.2
    simp [Device.isSemaphore, kind] at other
  refine ⟨⟨?_, ?_, ?_⟩, ?_, ?_⟩
  · intro slot device found
    obtain ⟨serial, bound, _⟩ := plain slot device found
    have next : (bootTables codes).nextSerial = 5 := rfl
    omega
  · intro slot other device device' found found' same
    have first := (plain slot device found).1
    have second := (plain other device' found').1
    exact Fin.ext (by omega)
  · intro d _
    rfl
  · intro slot device cnt k found kind
    exact absurd kind (none slot device cnt found)
  · intro slot device cnt found kind
    exact absurd kind (none slot device cnt found)

theorem Balanced.boot {fs : FileSystem} {place : Placement} {boot : BootInfo} {s : State}
    (started : enterInit fs place boot = .ok s) : Balanced s.toTables := by
  obtain ⟨t, acts, tables, _⟩ := enterInit_acts started
  obtain ⟨⟨bound, distinct, fresh⟩, accounts, settled⟩ := (bootTables_balanced boot.lastExitCode).run
    (bootTables_queues boot.lastExitCode) acts (fun slot signal => signal)
  rw [tables]
  exact ⟨⟨bound, distinct, fresh⟩, accounts, settled⟩

/-- In every run, at every return to user mode, a semaphore counts its signals and completed
waits, nobody waits on it while it is open, and its waits complete in the order they were
issued, as long as its count has stayed in the range of an `int`. -/
theorem semaphore_correct {fs : FileSystem} {place : Placement} {s : State} {slot : Slot}
    {device : Device} {cnt k : Int} (reachable : Reachable fs place (fun _ _ => True) s)
    (found : s.devices slot = some device) (kind : device.input = .semaphore cnt)
    (created : .created device.serial k ∈ s.log) (range : InRange device.serial k s.log) :
    cnt = k + signalsOn device.serial s.log - (completedOn device.serial s.log).length ∧
      0 ≤ cnt ∧ (device.pendingRequest ≠ [] → cnt = 0) ∧
      issuedOn device.serial s.log = completedOn device.serial s.log ++
        device.pendingRequest.map fun req => (req.proc, req.size) := by
  obtain ⟨_, balanced⟩ := reachable.induct (fun s => Balanced s.toTables)
    (fun boot first started => Balanced.boot started)
    (fun mid trap next inv balanced _ ran => balanced.step inv ran)
  have account := balanced.accounts slot device cnt k found kind created range
  refine ⟨account.count, account.nonneg, ?_, account.order⟩
  intro waiting
  have closed := balanced.settled slot device cnt found kind waiting
  have nonneg := account.nonneg
  omega

/-- A process takes the one unit of a semaphore and waits for the next. -/
theorem semaphore_correct_taken :
    ∃ s, Reachable smallVolume smallPlacement (fun _ _ => True) s ∧
      ∃ device, s.devices 4 = some device ∧ device.pendingRequest ≠ [] ∧
        ∃ cnt, device.input = .semaphore cnt ∧ cnt = 0 := by
  obtain ⟨s, reachable, ⟨device, found, waiting, kind, created, range⟩⟩ :=
    smallRun_exists (fun _ _ => True)
    [plainCall 2 0 0 0, plainCall 202 0 0 0, plainCall 200 1 0 0, plainCall 3 3 0 1,
      plainCall 3 3 0 1]
    (fun s => ∃ device ∈ s.devices 4, device.pendingRequest ≠ [] ∧
      device.input = .semaphore 0 ∧ .created device.serial 1 ∈ s.log ∧
        InRange device.serial 1 s.log) (by decide +kernel)
  refine ⟨s, reachable, device, found, waiting, 0, kind, ?_⟩
  exact (semaphore_correct reachable found kind created range).2.2.1 waiting

/-- One signal takes a semaphore that was created full below zero. -/
theorem full_semaphore_wraps :
    ¬ ∀ fs place s slot device cnt k, Reachable fs place (fun _ _ => True) s →
      s.devices slot = some device → device.input = .semaphore cnt →
        .created device.serial k ∈ s.log → 0 ≤ k →
          (∀ wait ∈ issuedOn device.serial s.log, 0 < wait.2) →
            signalsOn device.serial s.log < 2 ^ 31 →
              cnt = k + signalsOn device.serial s.log - (completedOn device.serial s.log).length ∧
                0 ≤ cnt := by
  intro claim
  obtain ⟨s, reachable, ⟨device, found, kind, created, waits, signals⟩⟩ :=
    smallRun_exists (fun _ _ => True)
    [plainCall 2 0 0 0, plainCall 200 0x7fffffff 0 0, plainCall 4 3 0 0]
    (fun s => ∃ device ∈ s.devices 4, device.input = .semaphore (-2147483648) ∧
      .created device.serial 0x7fffffff ∈ s.log ∧
      (∀ wait ∈ issuedOn device.serial s.log, 0 < wait.2) ∧
        signalsOn device.serial s.log < 2 ^ 31) (by decide +kernel)
  have nonneg := (claim _ _ s 4 device _ _ reachable found kind created (by decide) waits
    signals).2
  revert nonneg
  decide

end SysImpl.Kernel
