import SysImpl.Kernel.Semaphores

/-! Waiting for the exit of a process.

The status of a process reaches a waiter on one of three ways: it is in `last_exit_code`
when the waiter writes the slot, it is put in `reqs` by the exit after that, or the exit
comes while the read is pending. What each act of the kernel means for the protocol is
said first; the protocol is then proved from that alone. -/

namespace SysImpl.Kernel

open Bytes Runs

def Tables.owner (t : Tables) (pid : Pid) : Option Nat := (t.processList pid).map Process.serial

def Event.quiet : Event → Bool
  | .spawned _ _ _ => false
  | .exited _ _ => false
  | .awaited _ _ => false
  | .completed device _ _ _ _ => device != 2
  | _ => true

def latestIn (target : Nat) : List Event → Option ProcPtr
  | [] => none
  | .spawned _ child _ :: rest => if child.pid.val = target then some child else latestIn target rest
  | _ :: rest => latestIn target rest

/-- The process that a process waits for: the latest one in the slot that it wrote last, as of
that write. -/
def awaiting (p : ProcPtr) : List Event → Option ProcPtr
  | [] => none
  | .awaited q target :: rest => if q = p then latestIn target rest else awaiting p rest
  | _ :: rest => awaiting p rest

theorem latestIn_quiet (target : Nat) {events : List Event} (log : List Event)
    (quiet : ∀ event ∈ events, event.quiet) :
    latestIn target (events ++ log) = latestIn target log := by
  induction events with
  | nil => rfl
  | cons event rest ih =>
      have here := quiet event List.mem_cons_self
      have later := ih fun other member => quiet other (List.mem_cons_of_mem _ member)
      cases event with
      | spawned p child keep => cases here
      | _ => exact later

theorem awaiting_quiet (p : ProcPtr) {events : List Event} (log : List Event)
    (quiet : ∀ event ∈ events, event.quiet) :
    awaiting p (events ++ log) = awaiting p log := by
  induction events with
  | nil => rfl
  | cons event rest ih =>
      have here := quiet event List.mem_cons_self
      have later := ih fun other member => quiet other (List.mem_cons_of_mem _ member)
      cases event with
      | awaited q target => cases here
      | _ => exact later

theorem latestIn_pid {target : Nat} {log : List Event} {child : ProcPtr}
    (latest : latestIn target log = some child) : child.pid.val = target := by
  induction log with
  | nil => cases latest
  | cons event rest ih =>
      cases event with
      | spawned p other keep =>
          simp only [latestIn] at latest
          split at latest
          · next here =>
              rw [← Option.some.inj latest]
              exact here
          · exact ih latest
      | _ => exact ih latest

variable {t t' : Tables} {label : Label}

/-- What an act means for the processes that wait. -/
inductive WaitStep (t t' : Tables) : Prop
  | still (owner : t'.owner = t.owner) (reqs : t'.reqs = t.reqs)
      (codes : t'.lastExitCode = t.lastExitCode) (serial : t.nextSerial ≤ t'.nextSerial)
      (log : ∃ events, t'.log = events ++ t.log ∧ ∀ event ∈ events, event.quiet)
  | spawns (parent child : ProcPtr) (keep : Bool) (free : t.owner child.pid = none)
      (fresh : child.serial = t.nextSerial)
      (owner : t'.owner = Function.update t.owner child.pid (some child.serial))
      (reqs : t'.reqs = t.reqs) (codes : t'.lastExitCode = t.lastExitCode)
      (serial : t'.nextSerial = t.nextSerial + 1)
      (log : t'.log = .spawned parent child keep :: t.log)
  | exits (p : ProcPtr) (code : Nat) (other : p.pid ≠ 0)
      (alive : t.owner p.pid = some p.serial)
      (owner : t'.owner = Function.update t.owner p.pid none)
      (reqs : t'.reqs = fun waiter =>
        if (t.reqs waiter).pid = p.pid.val then ⟨0, code⟩ else t.reqs waiter)
      (codes : t'.lastExitCode = Function.update t.lastExitCode p.pid code)
      (serial : t'.nextSerial = t.nextSerial) (log : t'.log = .exited p code :: t.log)
  | awaits (p : ProcPtr) (target : Nat) (req : WaitReq) (alive : t.owner p.pid = some p.serial)
      (spec : AwaitSpec t target req) (owner : t'.owner = t.owner)
      (reqs : t'.reqs = Function.update t.reqs p.pid req)
      (codes : t'.lastExitCode = t.lastExitCode) (serial : t'.nextSerial = t.nextSerial)
      (log : t'.log = .awaited p target :: t.log)
  | delivers (p : ProcPtr) (size : Nat) (ret : Int) (data : List UInt8)
      (alive : t.owner p.pid = some p.serial)
      (spec : ReadSpec t p.pid size ret data .processWait .processWait)
      (owner : t'.owner = t.owner) (reqs : t'.reqs = t.reqs)
      (codes : t'.lastExitCode = t.lastExitCode) (serial : t'.nextSerial = t.nextSerial)
      (log : ∃ events, t'.log = .completed 2 p size ret data :: (events ++ t.log) ∧
        ∀ event ∈ events, event.quiet)

theorem owner_congr (same : t'.processList = t.processList) : t'.owner = t.owner := by
  funext pid
  rw [Tables.owner, Tables.owner, same]

theorem owner_modify (pid : Pid) (f : Process → Process)
    (serial : ∀ proc, (f proc).serial = proc.serial) : (t.modify pid f).owner = t.owner := by
  funext other
  simp only [Tables.owner, modify_processList]
  split
  · rw [Option.map_map]
    congr 1
    funext proc
    exact serial proc
  · rfl

theorem owner_wakeParent (ppid : Option Pid) : (t.wakeParent ppid).owner = t.owner := by
  cases ppid with
  | none => rfl
  | some parent => exact owner_modify parent Process.wake fun proc => (wake_kin proc).1

theorem owner_setProcess (pid : Pid) (proc : Option Process) :
    (t.setProcess pid proc).owner = Function.update t.owner pid (proc.map Process.serial) := by
  funext other
  simp only [Tables.owner, setProcess_processList, Function.update_apply]
  split
  · rfl
  · rfl

theorem wait_device {slot : Slot} {device : Device} (fixtures : Fixtures t) (serials : Serials t)
    (found : t.devices slot = some device) (number : device.serial = 2) :
    device.input = .processWait := by
  obtain ⟨pending, wait⟩ := fixtures.wait
  have same := serials.distinct slot 2 device _ found wait number
  rw [same, wait, Option.some.injEq] at found
  rw [← found]

theorem Queues.owner_queued (queues : Queues t) {slot : Slot} {req : PendingRead}
    (member : req ∈ t.pendingAt slot) : t.owner req.proc.pid = some req.proc.serial := by
  obtain ⟨proc, found, life⟩ := queues.queued slot req member
  simp only [Process.life, Prod.mk.injEq] at life
  rw [Tables.owner, found, Option.map_some, life.1]

theorem Act.waits (queues : Queues t) (fixtures : Fixtures t) (serials : Serials t)
    (act : Act t label t') (stays : ∀ p, label = .kill p → p.pid ≠ 0) : WaitStep t t' := by
  have unlogged : ∃ events, t.log = events ++ t.log ∧ ∀ event ∈ events, event.quiet :=
    ⟨[], rfl, by intro event member; cases member⟩
  have logged : ∀ event : Event, event.quiet → ∃ events, event :: t.log = events ++ t.log ∧
      ∀ event ∈ events, event.quiet := by
    intro event quiet
    exact ⟨[event], rfl, by simpa using quiet⟩
  cases act with
  | regs pid f => exact .still (owner_modify pid _ fun _ => rfl) rfl rfl (Nat.le_refl _) unlogged
  | enter => exact .still rfl rfl rfl (Nat.le_refl _) (logged _ rfl)
  | @attach pid proc pos obj =>
      have owner := owner_modify (t := t) pid (Process.bind pos (some obj)) fun _ => rfl
      exact .still owner rfl rfl (Nat.le_refl _) unlogged
  | @detach pid proc pos awake =>
      have owner : (t.removeObject pid pos).owner = t.owner := by
        rcases removeObject_processes t pid pos with same | bound
        · exact owner_congr same
        · exact (owner_congr bound).trans (owner_modify pid (Process.bind pos none) fun _ => rfl)
      obtain ⟨processes, devices, same⟩ := removeObject_rest t pid pos
      refine .still owner ?_ ?_ (Nat.le_of_eq ?_) ?_
      · rw [same]
      · rw [same]
      · rw [same]
      · rw [same]
        exact unlogged
  | @await pid proc target req awake spec =>
      have alive : t.owner pid = some proc.serial := by rw [Tables.owner, awake.1, Option.map_some]
      exact .awaits ⟨pid, proc.serial⟩ target req alive spec rfl rfl rfl rfl rfl
  | signal => exact .still rfl rfl rfl (Nat.le_refl _) (logged _ rfl)
  | newSem => exact .still rfl rfl rfl (Nat.le_succ _) (logged _ rfl)
  | @fork pid proc child m awake free =>
      have none : t.owner child = none := by rw [Tables.owner, free, Option.map_none]
      refine .spawns ⟨pid, proc.serial⟩ ⟨child, t.nextSerial⟩ true none rfl ?_ rfl rfl rfl rfl
      have placed := owner_setProcess (t := ({ t with nextSerial := t.nextSerial + 1 } :
        Tables).modify pid (Process.keepStack m)) child
          (some (childProcess proc pid t.nextSerial (proc.usermodeState.setRetval 0)))
      rw [owner_modify pid (Process.keepStack m) fun _ => rfl] at placed
      exact placed
  | @thread pid proc child tss awake free =>
      have none : t.owner child = none := by rw [Tables.owner, free, Option.map_none]
      refine .spawns ⟨pid, proc.serial⟩ ⟨child, t.nextSerial⟩ false none rfl ?_ rfl rfl rfl rfl
      exact owner_setProcess (t := { t with nextSerial := t.nextSerial + 1 }) child
        (some (childProcess proc pid t.nextSerial tss))
  | @kill pid proc code awake =>
      have alive : t.owner pid = some proc.serial := by rw [Tables.owner, awake.1, Option.map_some]
      refine .exits ⟨pid, proc.serial⟩ code (stays _ rfl) alive ?_ ?_ ?_ ?_ ?_
      · have gone := owner_wakeParent (t := (t.setProcess pid none).note
          (.exited ⟨pid, proc.serial⟩ code)) proc.ppid
        exact gone.trans (owner_setProcess pid none)
      · simp only [Tables.processExit, wakeParent_reqs]
        rfl
      · simp only [Tables.processExit, wakeParent_lastExitCode]
        rfl
      · simp
      · simp
  | @image pid proc awake =>
      refine .still (owner_wakeParent (t := t.note _) proc.ppid) ?_ ?_ (Nat.le_of_eq ?_) ?_
      · rw [wakeParent_reqs]
        rfl
      · rw [wakeParent_lastExitCode]
        rfl
      · simp
      · rw [wakeParent_log]
        exact logged _ rfl
  | @done pid proc slot device size ret data input awake found spec =>
      have alive : t.owner pid = some proc.serial := by rw [Tables.owner, awake.1, Option.map_some]
      by_cases number : device.serial = 2
      · have kind := wait_device fixtures serials found number
        rw [kind] at spec
        have same := spec.1
        rw [same] at spec
        refine .delivers ⟨pid, proc.serial⟩ size ret data alive spec rfl rfl rfl rfl
          ⟨[.issued 2 ⟨pid, proc.serial⟩ size], ?_, by simp [Event.quiet]⟩
        rw [number]
        rfl
      · refine .still rfl rfl rfl (Nat.le_refl _) ⟨[.completed device.serial ⟨pid, proc.serial⟩
          size ret data, .issued device.serial ⟨pid, proc.serial⟩ size], rfl, ?_⟩
        simp [Event.quiet, number]
  | @block pid proc slot device pos buffer size awake found held spec =>
      refine .still ?_ rfl rfl (Nat.le_refl _) (logged (.issued _ _ _) rfl)
      exact owner_modify (t := (t.note _).modifyDevice slot _) pid
        (Process.setProcessState .sleeping) fun _ => rfl
  | @serve slot device now rest ret data input found queue spec =>
      have member : now ∈ t.pendingAt slot := by simp [pendingAt_of_some found, queue]
      have alive := queues.owner_queued member
      have owner : ((((t.modify now.proc.pid (Process.setProcessState .runnable)).modifyDevice slot
          fun device => (device.setInput input).setPending rest).note
            (.completed device.serial now.proc now.size ret data)).modify now.proc.pid
              (Process.setRetval ret)).owner = t.owner :=
        (owner_modify now.proc.pid (Process.setRetval ret) fun _ => rfl).trans
          (owner_modify (t := t) now.proc.pid (Process.setProcessState .runnable) fun _ => rfl)
      by_cases number : device.serial = 2
      · have kind := wait_device fixtures serials found number
        rw [kind] at spec
        have same := spec.1
        rw [same] at spec
        refine .delivers now.proc now.size ret data alive spec owner rfl rfl rfl
          ⟨[], ?_, by intro event member; cases member⟩
        rw [number]
        rfl
      · refine .still owner rfl rfl (Nat.le_refl _) (logged (.completed _ _ _ _ _) ?_)
        simp [Event.quiet, number]
  | @requeue slot device now rest found queue kind =>
      refine .still ?_ rfl rfl (Nat.le_refl _) unlogged
      exact (owner_modify now.proc.pid (Process.setRetval eagain) fun _ => rfl).trans
        (owner_modify (t := t.modifyDevice slot _) now.proc.pid
          (Process.setProcessState .sleeping) fun _ => rfl)

theorem mem_quiet {event : Event} {events log : List Event} (loud : event.quiet = false)
    (quiet : ∀ event ∈ events, event.quiet) : event ∈ events ++ log ↔ event ∈ log := by
  rw [List.mem_append]
  refine ⟨?_, Or.inr⟩
  intro member
  rcases member with new | old
  · rw [quiet event new] at loud
    cases loud
  · exact old

theorem suffix_quiet {event : Event} {events before log : List Event}
    (loud : event.quiet = false) (quiet : ∀ event ∈ events, event.quiet)
    (suffix : event :: before <:+ events ++ log) : event :: before <:+ log := by
  induction events with
  | nil => exact suffix
  | cons first rest ih =>
      rcases List.suffix_cons_iff.mp suffix with whole | later
      · rw [(List.cons.inj whole).1, quiet first List.mem_cons_self] at loud
        cases loud
      · exact ih (fun other member => quiet other (List.mem_cons_of_mem _ member)) later

/-- The protocol: what is known of a slot and of a wait, and what has been reported. -/
structure Waits (t : Tables) : Prop where
  bornEarlier : ∀ p child, awaiting p t.log = some child → p.serial < t.nextSerial
  ended : ∀ p code, .exited p code ∈ t.log →
    p.serial < t.nextSerial ∧ t.owner p.pid ≠ some p.serial
  once : ∀ p code other, .exited p code ∈ t.log → .exited p other ∈ t.log → other = code
  slots : ∀ target child, latestIn target t.log = some child →
    t.owner child.pid = some child.serial ∨
      t.owner child.pid = none ∧ .exited child (t.lastExitCode child.pid) ∈ t.log
  pending : ∀ p child, t.owner p.pid = some p.serial → awaiting p t.log = some child →
    (t.reqs p.pid).pid = child.pid.val ∧ t.owner child.pid = some child.serial ∨
      (t.reqs p.pid).pid = 0 ∧ .exited child (t.reqs p.pid).status ∈ t.log
  delivered : ∀ p child ret data before, .completed 2 p 4 ret data :: before <:+ t.log →
    awaiting p before = some child → child.pid ≠ 0 →
      ret = 4 ∧ ∃ code, .exited child code ∈ before ∧ data = bytes32 code

theorem Waits.still (waits : Waits t) (owner : t'.owner = t.owner) (reqs : t'.reqs = t.reqs)
    (codes : t'.lastExitCode = t.lastExitCode) (serial : t.nextSerial ≤ t'.nextSerial)
    {events : List Event} (log : t'.log = events ++ t.log)
    (quiet : ∀ event ∈ events, event.quiet) : Waits t' := by
  constructor
  · intro p child wait
    rw [log, awaiting_quiet p _ quiet] at wait
    exact Nat.lt_of_lt_of_le (waits.bornEarlier p child wait) serial
  · intro p code member
    rw [log, mem_quiet rfl quiet] at member
    rw [owner]
    obtain ⟨earlier, gone⟩ := waits.ended p code member
    exact ⟨Nat.lt_of_lt_of_le earlier serial, gone⟩
  · intro p code other first second
    rw [log, mem_quiet rfl quiet] at first second
    exact waits.once p code other first second
  · intro target child latest
    rw [log, latestIn_quiet target _ quiet] at latest
    rw [owner, codes, log, mem_quiet rfl quiet]
    exact waits.slots target child latest
  · intro p child alive wait
    rw [owner] at alive
    rw [log, awaiting_quiet p _ quiet] at wait
    rw [owner, reqs, log, mem_quiet rfl quiet]
    exact waits.pending p child alive wait
  · intro p child ret data before suffix wait
    rw [log] at suffix
    exact waits.delivered p child ret data before (suffix_quiet rfl quiet suffix) wait

theorem suffix_other {event other : Event} {before log : List Event} (differs : event ≠ other)
    (suffix : event :: before <:+ other :: log) : event :: before <:+ log := by
  rcases List.suffix_cons_iff.mp suffix with whole | later
  · exact absurd (List.cons.inj whole).1 differs
  · exact later

theorem mem_other {event other : Event} {log : List Event} (differs : event ≠ other) :
    event ∈ other :: log ↔ event ∈ log := by
  rw [List.mem_cons]
  exact ⟨fun member => member.resolve_left differs, Or.inr⟩

theorem Waits.spawns (waits : Waits t) {parent child : ProcPtr} {keep : Bool}
    (free : t.owner child.pid = none) (fresh : child.serial = t.nextSerial)
    (owner : t'.owner = Function.update t.owner child.pid (some child.serial))
    (reqs : t'.reqs = t.reqs) (codes : t'.lastExitCode = t.lastExitCode)
    (serial : t'.nextSerial = t.nextSerial + 1)
    (log : t'.log = .spawned parent child keep :: t.log) : Waits t' := by
  have same : ∀ pid serial, t.owner pid = some serial → t'.owner pid = some serial := by
    intro pid serial known
    have differs : pid ≠ child.pid := by
      intro same
      rw [same, free] at known
      cases known
    rw [owner, Function.update_of_ne differs]
    exact known
  constructor
  · intro p other wait
    rw [log] at wait
    have earlier := waits.bornEarlier p other wait
    omega
  · intro p code member
    rw [log, mem_other (by simp)] at member
    obtain ⟨earlier, gone⟩ := waits.ended p code member
    refine ⟨by omega, ?_⟩
    rw [owner, Function.update_apply]
    split
    · intro reborn
      have number := Option.some.inj reborn
      omega
    · exact gone
  · intro p code other first second
    rw [log, mem_other (by simp)] at first second
    exact waits.once p code other first second
  · intro target other latest
    rw [log] at latest
    simp only [latestIn] at latest
    split at latest
    · rw [← Option.some.inj latest, owner, Function.update_self]
      exact Or.inl rfl
    · next apart =>
        have differs : other.pid ≠ child.pid := by
          intro same
          rw [← latestIn_pid latest, same] at apart
          exact apart rfl
        rw [owner, Function.update_of_ne differs, codes, log, mem_other (by simp)]
        exact waits.slots target other latest
  · intro p other alive wait
    rw [log] at wait
    have earlier := waits.bornEarlier p other wait
    have differs : p.pid ≠ child.pid := by
      intro same
      rw [owner, same, Function.update_self, Option.some.injEq] at alive
      omega
    rw [owner, Function.update_of_ne differs] at alive
    rw [reqs, log, mem_other (by simp)]
    rcases waits.pending p other alive wait with ⟨target, living⟩ | ended
    · exact Or.inl ⟨target, same _ _ living⟩
    · exact Or.inr ended
  · intro p other ret data before suffix wait
    rw [log] at suffix
    exact waits.delivered p other ret data before (suffix_other (by simp) suffix) wait

theorem Waits.exits (waits : Waits t) (queues : Queues t) {p : ProcPtr} {code : Nat}
    (other : p.pid ≠ 0) (alive : t.owner p.pid = some p.serial)
    (owner : t'.owner = Function.update t.owner p.pid none)
    (reqs : t'.reqs = fun waiter =>
      if (t.reqs waiter).pid = p.pid.val then ⟨0, code⟩ else t.reqs waiter)
    (codes : t'.lastExitCode = Function.update t.lastExitCode p.pid code)
    (serial : t'.nextSerial = t.nextSerial) (log : t'.log = .exited p code :: t.log) :
    Waits t' := by
  have earlier : p.serial < t.nextSerial := by
    obtain ⟨proc, found, number⟩ := Option.map_eq_some_iff.mp alive
    rw [← number]
    exact queues.serials p.pid proc found
  have first : ∀ number, .exited p number ∉ t.log := by
    intro number member
    exact (waits.ended p number member).2 alive
  have positive : p.pid.val ≠ 0 := fun zero => other (Fin.ext zero)
  constructor
  · intro q child wait
    rw [log] at wait
    rw [serial]
    exact waits.bornEarlier q child wait
  · intro q number member
    rw [log] at member
    rw [serial, owner]
    rcases List.mem_cons.mp member with new | old
    · cases new
      exact ⟨earlier, by simp⟩
    · obtain ⟨before, gone⟩ := waits.ended q number old
      refine ⟨before, ?_⟩
      rw [Function.update_apply]
      split
      · simp
      · exact gone
  · intro q number number' one two
    rw [log] at one two
    rcases List.mem_cons.mp one with new | old
    · cases new
      rcases List.mem_cons.mp two with new' | old'
      · cases new'
        rfl
      · exact absurd old' (first number')
    · rcases List.mem_cons.mp two with new' | old'
      · cases new'
        exact absurd old (first number)
      · exact waits.once q number number' old old'
  · intro target child latest
    rw [log] at latest
    have before := waits.slots target child latest
    rw [owner, codes, log]
    by_cases here : child.pid = p.pid
    · rw [here] at before ⊢
      rw [Function.update_self, Function.update_self]
      rcases before with living | ⟨gone, _⟩
      · have same : child = p := by
          rw [alive, Option.some.injEq] at living
          cases child
          cases p
          simp_all
        rw [same]
        exact Or.inr ⟨rfl, List.mem_cons_self⟩
      · rw [alive] at gone
        cases gone
    · rw [Function.update_of_ne here, Function.update_of_ne here]
      rcases before with living | ⟨gone, ended⟩
      · exact Or.inl living
      · exact Or.inr ⟨gone, List.mem_cons_of_mem _ ended⟩
  · intro q child living wait
    rw [log] at wait
    have apart : q.pid ≠ p.pid := by
      intro same
      rw [owner, same, Function.update_self] at living
      cases living
    rw [owner, Function.update_of_ne apart] at living
    rw [owner, reqs, log]
    rcases waits.pending q child living wait with ⟨target, still⟩ | ⟨none, ended⟩
    · by_cases here : child.pid = p.pid
      · have same : child = p := by
          rw [here, alive, Option.some.injEq] at still
          cases child
          cases p
          simp_all
        apply Or.inr
        rw [same] at target ⊢
        simp only [target, if_true]
        exact ⟨trivial, List.mem_cons_self⟩
      · have differs : child.pid.val ≠ p.pid.val := fun equal => here (Fin.ext equal)
        apply Or.inl
        simp only [target, if_neg differs, Function.update_of_ne here]
        exact ⟨trivial, still⟩
    · apply Or.inr
      have differs : (t.reqs q.pid).pid ≠ p.pid.val := by
        rw [none]
        exact Ne.symm positive
      simp only [if_neg differs]
      exact ⟨none, List.mem_cons_of_mem _ ended⟩
  · intro q child ret data before suffix wait
    rw [log] at suffix
    exact waits.delivered q child ret data before (suffix_other (by simp) suffix) wait

theorem AwaitSpec.reported {target : Nat} {req : WaitReq} {child : ProcPtr} (waits : Waits t)
    (spec : AwaitSpec t target req) (latest : latestIn target t.log = some child) :
    req.pid = child.pid.val ∧ t.owner child.pid = some child.serial ∨
      req.pid = 0 ∧ .exited child req.status ∈ t.log := by
  have slot := latestIn_pid latest
  have inside : target < 32 := by
    rw [← slot]
    exact child.pid.isLt
  have which : (⟨target, inside⟩ : Pid) = child.pid := Fin.ext slot.symm
  simp only [AwaitSpec, dif_pos inside, which] at spec
  have present : (t.processList child.pid).isSome = (t.owner child.pid).isSome := by
    rw [Tables.owner, Option.isSome_map]
  rw [present] at spec
  rcases waits.slots target child latest with living | ⟨gone, ended⟩
  · rw [living, Option.isSome_some, if_pos rfl] at spec
    rw [spec]
    exact Or.inl ⟨slot.symm, living⟩
  · rw [gone, Option.isSome_none, if_neg (by simp)] at spec
    rw [spec]
    exact Or.inr ⟨rfl, ended⟩

theorem Waits.awaits (waits : Waits t) (queues : Queues t) {p : ProcPtr} {target : Nat}
    {req : WaitReq} (alive : t.owner p.pid = some p.serial) (spec : AwaitSpec t target req)
    (owner : t'.owner = t.owner) (reqs : t'.reqs = Function.update t.reqs p.pid req)
    (codes : t'.lastExitCode = t.lastExitCode) (serial : t'.nextSerial = t.nextSerial)
    (log : t'.log = .awaited p target :: t.log) : Waits t' := by
  constructor
  · intro q child wait
    rw [log] at wait
    simp only [awaiting] at wait
    rw [serial]
    split at wait
    · next same =>
        obtain ⟨proc, found, number⟩ := Option.map_eq_some_iff.mp alive
        rw [← same, ← number]
        exact queues.serials p.pid proc found
    · exact waits.bornEarlier q child wait
  · intro q code member
    rw [log, mem_other (by simp)] at member
    rw [serial, owner]
    exact waits.ended q code member
  · intro q code other first second
    rw [log, mem_other (by simp)] at first second
    exact waits.once q code other first second
  · intro slot child latest
    rw [log] at latest
    rw [owner, codes, log, mem_other (by simp)]
    exact waits.slots slot child latest
  · intro q child living wait
    rw [owner] at living
    rw [log] at wait
    simp only [awaiting] at wait
    rw [owner, reqs, log, mem_other (by simp)]
    split at wait
    · next same =>
        rw [← same, Function.update_self]
        exact spec.reported waits wait
    · next differs =>
        have apart : q.pid ≠ p.pid := by
          intro same
          rw [same, alive, Option.some.injEq] at living
          cases p
          cases q
          simp_all
        rw [Function.update_of_ne apart]
        exact waits.pending q child living wait
  · intro q child ret data before suffix wait
    rw [log] at suffix
    exact waits.delivered q child ret data before (suffix_other (by simp) suffix) wait

theorem Waits.delivers (waits : Waits t) {p : ProcPtr} {size : Nat} {ret : Int}
    {data : List UInt8} (alive : t.owner p.pid = some p.serial)
    (spec : ReadSpec t p.pid size ret data .processWait .processWait)
    (owner : t'.owner = t.owner) (reqs : t'.reqs = t.reqs)
    (codes : t'.lastExitCode = t.lastExitCode) (serial : t'.nextSerial = t.nextSerial)
    {events : List Event} (log : t'.log = .completed 2 p size ret data :: (events ++ t.log))
    (quiet : ∀ event ∈ events, event.quiet) : Waits t' := by
  have issued : Waits { t with log := events ++ t.log } :=
    waits.still rfl rfl rfl (Nat.le_refl _) rfl quiet
  obtain ⟨bornEarlier, ended, once, slots, pending, delivered⟩ := issued
  constructor
  · rw [log, serial]
    exact bornEarlier
  · intro q code member
    rw [log, mem_other (by simp)] at member
    rw [serial, owner]
    exact ended q code member
  · intro q code other first second
    rw [log, mem_other (by simp)] at first second
    exact once q code other first second
  · intro target child latest
    rw [log] at latest
    rw [owner, codes, log, mem_other (by simp)]
    exact slots target child latest
  · intro q child living wait
    rw [owner] at living
    rw [log] at wait
    rw [owner, reqs, log, mem_other (by simp)]
    exact pending q child living wait
  · intro q child out bytes before suffix wait positive
    rw [log] at suffix
    rcases List.suffix_cons_iff.mp suffix with whole | later
    · obtain ⟨same, rfl⟩ := List.cons.inj whole
      cases same
      rcases pending p child alive wait with ⟨target, _⟩ | ⟨_, done⟩
      · have zero : (t.reqs p.pid).pid = 0 := spec.2.1
        rw [show (t.reqs p.pid).pid = child.pid.val from target] at zero
        exact absurd (Fin.ext zero) positive
      · rcases spec.2.2 with ⟨_, four, status⟩ | ⟨other, _⟩
        · exact ⟨four, _, done, status⟩
        · exact absurd rfl other
    · exact delivered q child out bytes before later wait positive

theorem Waits.step (waits : Waits t) (queues : Queues t) (step : WaitStep t t') : Waits t' := by
  cases step with
  | still owner reqs codes serial log =>
      obtain ⟨events, log, quiet⟩ := log
      exact waits.still owner reqs codes serial log quiet
  | spawns parent child keep free fresh owner reqs codes serial log =>
      exact waits.spawns free fresh owner reqs codes serial log
  | exits p code other alive owner reqs codes serial log =>
      exact waits.exits queues other alive owner reqs codes serial log
  | awaits p target req alive spec owner reqs codes serial log =>
      exact waits.awaits queues alive spec owner reqs codes serial log
  | delivers p size ret data alive spec owner reqs codes serial log =>
      obtain ⟨events, log, quiet⟩ := log
      exact waits.delivers alive spec owner reqs codes serial log quiet

def IdleStays (s : State) (trap : Trap) : Prop :=
  s.currentProcess = 0 → callsysOf trap.regs.eax ≠ some .exit

instance (s : State) (trap : Trap) : Decidable (IdleStays s trap) :=
  inferInstanceAs (Decidable (_ → _))

structure Waiting (t : Tables) : Prop where
  queues : Queues t
  fixtures : Fixtures t
  serials : Serials t
  waits : Waits t

theorem Waiting.run {kind : Label → Prop} (waiting : Waiting t) (run : RunOf Act kind t t')
    (stays : ∀ p, kind (.kill p) → p.pid ≠ 0) : Waiting t' := by
  apply run.invariant Waiting waiting
  intro mid label next allowed waiting act
  obtain ⟨queues, fixtures, serials, waits⟩ := waiting
  have step := act.waits queues fixtures serials (by
    intro p same
    rw [same] at allowed
    exact stays p allowed)
  exact ⟨queues.act act, fixtures.act act, serials.act queues act, waits.step queues step⟩

theorem bootTables_waits (codes : Pid → Nat) : Waits (bootTables codes) := by
  have none : (bootTables codes).log = [] := rfl
  constructor
  · intro p child wait
    cases wait
  · intro p code member
    cases member
  · intro p code other member
    cases member
  · intro target child latest
    cases latest
  · intro p child _ wait
    cases wait
  · intro p child ret data before suffix
    rw [none] at suffix
    cases List.suffix_nil.mp suffix

theorem Waiting.boot {fs : FileSystem} {place : Placement} {boot : BootInfo} {s : State}
    (started : enterInit fs place boot = .ok s) : Waiting s.toTables := by
  have inv := Inv.boot started
  have balanced := Balanced.boot started
  obtain ⟨t, acts, tables, _⟩ := enterInit_acts started
  have initial : Waiting (bootTables boot.lastExitCode) :=
    ⟨bootTables_queues _, bootTables_fixtures _, (bootTables_balanced _).serials, bootTables_waits _⟩
  have before := initial.run acts (fun p kill => kill.2.elim)
  refine ⟨inv.queues, inv.fixtures, balanced.serials, ?_⟩
  rw [tables]
  have owner := owner_modify (t := t) 0 (fun proc => { proc with processScheType := .idle })
    fun _ => rfl
  have quiet : ∀ event ∈ ([] : List Event), event.quiet := by
    intro event member
    cases member
  exact before.waits.still owner rfl rfl (Nat.le_refl _) rfl quiet

theorem Waiting.step {fs : FileSystem} {place : Placement} {s s' : State} {trap : Trap}
    (waiting : Waiting s.toTables) (inv : Inv s) (stays : IdleStays s trap)
    (ran : realSyscallHandler fs place s trap = .ok s') : Waiting s'.toTables := by
  obtain ⟨proc, ret, _, acts⟩ := step_acts inv ran
  apply waiting.run acts
  intro p kill zero
  obtain ⟨same, exits⟩ := kill.of_kill
  rw [same] at zero
  exact stays zero exits

end SysImpl.Kernel
