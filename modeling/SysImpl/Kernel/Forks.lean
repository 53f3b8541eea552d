import SysImpl.Kernel.Overrun

/-! A parent sleeps until the child it forked is off the shared stack.

The kernel wakes the process in the slot `ppid` whenever a process exits or execs, as
long as that process keeps a copy of its stack. The copy need not have been made for the
process that exits. Where every exit and exec that finds a copy is by the child of the
latest fork, parents sleep as long as they should. -/

namespace SysImpl.Kernel

open Runs

/-- The child of the latest fork of a process. -/
def latestFork (parent : ProcPtr) : List Event → Option ProcPtr
  | [] => none
  | .spawned p child true :: rest => if p = parent then some child else latestFork parent rest
  | _ :: rest => latestFork parent rest

def Process.kin (proc : Process) : Option Pid × Bool := (proc.ppid, proc.stackBackup.isSome)

def Tables.kinAt (t : Tables) (p : ProcPtr) : Option (Option Pid × Bool) :=
  t.viewAt Process.kin p

def Event.ofFork : Event → Bool
  | .spawned _ _ _ => true
  | .execed _ => true
  | _ => false

def Label.plain : Label → Bool
  | .spawn _ _ _ => false
  | .kill _ => false
  | .image _ => false
  | _ => true

variable {t t' : Tables} {label : Label}

theorem Act.kin_same (act : Act t label t') (plain : label.plain) (p : ProcPtr) :
    t'.kinAt p = t.kinAt p := by
  cases act with
  | regs => exact viewAt_modify _ _ fun _ => ⟨rfl, rfl⟩
  | enter => rfl
  | attach => exact viewAt_modify _ _ fun _ => ⟨rfl, rfl⟩
  | @detach other proc pos awake =>
      rcases removeObject_processes t other pos with same | bound
      · exact viewAt_congr (congrFun same p.pid)
      · apply (viewAt_congr (congrFun bound p.pid)).trans
        exact viewAt_modify other _ fun _ => ⟨rfl, rfl⟩
  | await => rfl
  | signal => rfl
  | newSem => rfl
  | fork => cases plain
  | thread => cases plain
  | kill => cases plain
  | image => cases plain
  | done => rfl
  | block => exact viewAt_modify _ _ fun _ => ⟨rfl, rfl⟩
  | @serve slot device now rest ret =>
      refine (viewAt_modify now.proc.pid (Process.setRetval ret) fun _ => ⟨rfl, rfl⟩).trans ?_
      exact viewAt_modify now.proc.pid _ fun _ => ⟨rfl, rfl⟩
  | @requeue slot device now =>
      refine (viewAt_modify now.proc.pid (Process.setRetval eagain) fun _ => ⟨rfl, rfl⟩).trans ?_
      exact viewAt_modify now.proc.pid _ fun _ => ⟨rfl, rfl⟩

theorem Act.fork_events (act : Act t label t') (plain : label.plain) :
    t'.log.filter Event.ofFork = t.log.filter Event.ofFork := by
  cases act with
  | regs => rfl
  | enter => rfl
  | attach => rfl
  | detach => rw [removeObject_log]
  | await => rfl
  | signal => rfl
  | newSem => rfl
  | fork => cases plain
  | thread => cases plain
  | kill => cases plain
  | image => cases plain
  | done => rfl
  | block => rfl
  | serve => rfl
  | requeue => rfl

theorem latestFork_filter (parent : ProcPtr) (log : List Event) :
    latestFork parent (log.filter Event.ofFork) = latestFork parent log := by
  induction log with
  | nil => rfl
  | cons event rest ih =>
      cases event with
      | spawned p child keep =>
          cases keep with
          | true => simp only [List.filter_cons, Event.ofFork, if_true, latestFork, ih]
          | false => simp only [List.filter_cons, Event.ofFork, if_true, latestFork, ih]
      | execed p => simp only [List.filter_cons, Event.ofFork, if_true, latestFork, ih]
      | _ => simpa [List.filter_cons, Event.ofFork, latestFork] using ih

def wakeKin (ppid : Option Pid) (p : ProcPtr) (kin : Option Pid × Bool) : Option Pid × Bool :=
  if ppid = some p.pid then (kin.1, false) else kin

theorem wake_kin (proc : Process) :
    proc.wake.serial = proc.serial ∧ proc.wake.kin = (proc.ppid, false) := by
  simp only [Process.wake]
  split
  · exact ⟨rfl, rfl⟩
  · next none =>
      refine ⟨rfl, ?_⟩
      simp only [Process.kin]
      simpa using none

theorem wakeParent_kinAt (ppid : Option Pid) (p : ProcPtr) :
    (t.wakeParent ppid).kinAt p = (t.kinAt p).map (wakeKin ppid p) := by
  cases ppid with
  | none =>
      have same : wakeKin none p = id := by
        funext kin
        simp [wakeKin]
      rw [same, Option.map_id]
      rfl
  | some parent =>
      by_cases here : p.pid = parent
      · apply Option.ext
        intro kin
        rw [Option.map_eq_some_iff]
        simp only [Tables.kinAt, Tables.wakeParent, viewAt_eq_some, modify_processList, if_pos here,
          wakeKin, Option.some.injEq, if_pos here.symm]
        cases t.processList p.pid with
        | none => simp
        | some proc =>
            have kin := wake_kin proc
            simp only [Option.map_some, Option.some.injEq, exists_eq_left', kin.1, kin.2]
            simp [Process.kin]
      · have same : wakeKin (some parent) p = id := by
          funext kin
          simp only [wakeKin, Option.some.injEq, if_neg (Ne.symm here), id]
        rw [same, Option.map_id]
        exact viewAt_modify_other here

theorem kill_kinAt {pid : Pid} {proc : Process} (code : Nat) (p : ProcPtr) :
    ((((t.setProcess pid none).note (.exited ⟨pid, proc.serial⟩ code)).wakeParent
      proc.ppid).processExit pid code).kinAt p =
        if p.pid = pid then none else (t.kinAt p).map (wakeKin proc.ppid p) := by
  apply (wakeParent_kinAt (t := (t.setProcess pid none).note _) proc.ppid p).trans
  by_cases here : p.pid = pid
  · rw [if_pos here]
    have gone : ((t.setProcess pid none).note
        (.exited ⟨pid, proc.serial⟩ code)).processList p.pid = none := by
      simp [here]
    rw [Tables.kinAt, viewAt_empty gone]
    rfl
  · rw [if_neg here]
    congr 1
    apply viewAt_congr
    simp [Function.update_of_ne here]

/-- A copy of a stack is kept for the child of the latest fork, from the fork until that
child execs or exits. -/
structure Forks (t : Tables) : Prop where
  kept : ∀ parent child, .spawned parent child true ∈ t.log → (t.kinAt child).isSome →
    .execed child ∉ t.log →
      (∃ ppid, t.kinAt parent = some (ppid, true)) ∧ latestFork parent t.log = some child
  owed : ∀ parent ppid, t.kinAt parent = some (ppid, true) →
    ∃ child, latestFork parent t.log = some child ∧ (t.kinAt child).isSome ∧
      .execed child ∉ t.log
  children : ∀ parent child, .spawned parent child true ∈ t.log → ∀ ppid backup,
    t.kinAt child = some (ppid, backup) → ppid = some parent.pid
  bornEarlier : ∀ parent child keep, .spawned parent child keep ∈ t.log →
    child.serial < t.nextSerial
  loadedEarlier : ∀ p, .execed p ∈ t.log → p.serial < t.nextSerial

/-- If the parent of a process keeps a copy of its stack, it is for that process. -/
def OwnFork (t : Tables) (p : ProcPtr) : Prop :=
  ∀ parent ppid backup, t.kinAt p = some (some parent.pid, backup) →
    t.kinAt parent = some (ppid, true) → latestFork parent t.log = some p

theorem latestFork_mem {parent child : ProcPtr} {log : List Event}
    (found : latestFork parent log = some child) : .spawned parent child true ∈ log := by
  induction log with
  | nil => cases found
  | cons event rest ih =>
      cases event with
      | spawned p other keep =>
          cases keep with
          | false => exact List.mem_cons_of_mem _ (ih found)
          | true =>
              simp only [latestFork] at found
              split at found
              · next same =>
                  rw [same, Option.some.inj found]
                  exact List.mem_cons_self
              · exact List.mem_cons_of_mem _ (ih found)
      | _ => exact List.mem_cons_of_mem _ (ih found)

theorem Forks.of_same (forks : Forks t) (kin : ∀ p, t'.kinAt p = t.kinAt p)
    (events : t'.log.filter Event.ofFork = t.log.filter Event.ofFork)
    (serial : t.nextSerial ≤ t'.nextSerial) : Forks t' := by
  have latest : ∀ parent, latestFork parent t'.log = latestFork parent t.log := by
    intro parent
    rw [← latestFork_filter, events, latestFork_filter]
  have member : ∀ event, event.ofFork = true → (event ∈ t'.log ↔ event ∈ t.log) := by
    intro event kind
    have through : ∀ log : List Event, event ∈ log ↔ event ∈ log.filter Event.ofFork := by
      intro log
      simp [List.mem_filter, kind]
    rw [through, events, ← through]
  constructor
  · intro parent child forked alive staying
    rw [member _ rfl] at forked staying
    rw [kin] at alive
    simp only [kin, latest]
    exact forks.kept parent child forked alive staying
  · intro parent ppid keeps
    rw [kin] at keeps
    obtain ⟨child, last, alive, staying⟩ := forks.owed parent ppid keeps
    exact ⟨child, (latest parent).trans last, by rw [kin]; exact alive,
      by rw [member _ rfl]; exact staying⟩
  · intro parent child forked ppid backup known
    rw [member _ rfl] at forked
    rw [kin] at known
    exact forks.children parent child forked ppid backup known
  · intro parent child keep forked
    rw [member _ rfl] at forked
    exact Nat.lt_of_lt_of_le (forks.bornEarlier parent child keep forked) serial
  · intro p loaded
    rw [member _ rfl] at loaded
    exact Nat.lt_of_lt_of_le (forks.loadedEarlier p loaded) serial

theorem Forks.spawn {parent child : ProcPtr} {ppid : Option Pid} {keep : Bool} (forks : Forks t)
    (caller : t.kinAt parent = some (ppid, false)) (fresh : t.kinAt child = none)
    (serial : child.serial = t.nextSerial)
    (kin : ∀ p, t'.kinAt p = if p = child then some (some parent.pid, false)
      else if p = parent then some (ppid, keep) else t.kinAt p)
    (log : t'.log = .spawned parent child keep :: t.log)
    (next : t'.nextSerial = t.nextSerial + 1) : Forks t' := by
  have apart : parent ≠ child := by
    intro same
    rw [same, fresh] at caller
    cases caller
  have newborn : t'.kinAt child = some (some parent.pid, false) := by rw [kin, if_pos rfl]
  have cloned : t'.kinAt parent = some (ppid, keep) := by rw [kin, if_neg apart, if_pos rfl]
  have other : ∀ p, p ≠ child → p ≠ parent → t'.kinAt p = t.kinAt p := by
    intro p notChild notParent
    rw [kin, if_neg notChild, if_neg notParent]
  have loaded : ∀ p, .execed p ∈ t'.log ↔ .execed p ∈ t.log := by
    intro p
    simp [log]
  have forked : ∀ p q, .spawned p q true ∈ t'.log →
      (p = parent ∧ q = child ∧ keep = true) ∨ .spawned p q true ∈ t.log ∧ q ≠ child := by
    intro p q member
    rw [log] at member
    rcases List.mem_cons.mp member with new | old
    · simp only [Event.spawned.injEq] at new
      exact Or.inl ⟨new.1, new.2.1, new.2.2.symm⟩
    · refine Or.inr ⟨old, ?_⟩
      intro same
      have born := forks.bornEarlier p q true old
      rw [same, serial] at born
      exact Nat.lt_irrefl _ born
  have latest : ∀ p, p ≠ parent → latestFork p t'.log = latestFork p t.log := by
    intro p differs
    rw [log]
    cases keep with
    | false => rfl
    | true => simp [latestFork, Ne.symm differs]
  constructor
  · intro p q member alive staying
    rw [loaded] at staying
    rcases forked p q member with ⟨rfl, rfl, rfl⟩ | ⟨old, notChild⟩
    · exact ⟨⟨ppid, cloned⟩, by simp [log, latestFork]⟩
    · have before : (t.kinAt q).isSome := by
        by_cases self : q = parent
        · rw [self, caller]
          rfl
        · rwa [other q notChild self] at alive
      obtain ⟨⟨grand, keeps⟩, last⟩ := forks.kept p q old before staying
      have notParent : p ≠ parent := by
        intro same
        rw [same, caller] at keeps
        cases keeps
      have notNew : p ≠ child := by
        intro same
        rw [same, fresh] at keeps
        cases keeps
      exact ⟨⟨grand, (other p notNew notParent).trans keeps⟩, (latest p notParent).trans last⟩
  · intro p grand keeps
    have notChild : p ≠ child := by
      intro same
      rw [same, newborn] at keeps
      cases keeps
    by_cases self : p = parent
    · rw [self, cloned] at keeps
      cases keeps
      refine ⟨child, by simp [log, latestFork, self], by rw [newborn]; rfl, ?_⟩
      rw [loaded]
      intro early
      have born := forks.loadedEarlier child early
      rw [serial] at born
      exact Nat.lt_irrefl _ born
    · rw [other p notChild self] at keeps
      obtain ⟨q, last, alive, staying⟩ := forks.owed p grand keeps
      refine ⟨q, (latest p self).trans last, ?_, by rw [loaded]; exact staying⟩
      rw [kin]
      split
      · rfl
      · split
        · rfl
        · exact alive
  · intro p q member grand backup known
    rcases forked p q member with ⟨rfl, rfl, _⟩ | ⟨old, notChild⟩
    · rw [newborn, Option.some.injEq, Prod.mk.injEq] at known
      exact known.1.symm
    · by_cases self : q = parent
      · rw [self, cloned, Option.some.injEq, Prod.mk.injEq] at known
        rw [self] at old
        rw [← known.1]
        exact forks.children p parent old ppid false caller
      · rw [other q notChild self] at known
        exact forks.children p q old grand backup known
  · intro p q flag member
    rw [log] at member
    rw [next]
    rcases List.mem_cons.mp member with new | old
    · simp only [Event.spawned.injEq] at new
      rw [new.2.1, serial]
      exact Nat.lt_succ_self _
    · exact Nat.lt_succ_of_lt (forks.bornEarlier p q flag old)
  · intro p early
    rw [loaded] at early
    rw [next]
    exact Nat.lt_succ_of_lt (forks.loadedEarlier p early)

theorem Forks.leave {p : ProcPtr} {ppid : Option Pid} (forks : Forks t)
    (caller : t.kinAt p = some (ppid, false)) (own : OwnFork t p)
    (kin : ∀ q, q ≠ p → t'.kinAt q = (t.kinAt q).map (wakeKin ppid q))
    (self : ∀ known, t'.kinAt p = some known → known = (ppid, false) ∧ .execed p ∈ t'.log)
    (latest : ∀ q, latestFork q t'.log = latestFork q t.log)
    (spawned : ∀ q child keep, .spawned q child keep ∈ t'.log ↔ .spawned q child keep ∈ t.log)
    (loaded : ∀ q, q ≠ p → (.execed q ∈ t'.log ↔ .execed q ∈ t.log))
    (bound : p.serial < t.nextSerial) (serial : t'.nextSerial = t.nextSerial) : Forks t' := by
  constructor
  · intro parent child member alive staying
    rw [spawned] at member
    have notSelf : child ≠ p := by
      intro same
      obtain ⟨known, alive⟩ := Option.isSome_iff_exists.mp alive
      rw [same] at alive staying
      exact staying (self known alive).2
    rw [kin child notSelf, Option.isSome_map] at alive
    rw [loaded child notSelf] at staying
    obtain ⟨⟨grand, keeps⟩, last⟩ := forks.kept parent child member alive staying
    have notParent : parent ≠ p := by
      intro same
      rw [same, caller] at keeps
      cases keeps
    have notWoken : ppid ≠ some parent.pid := by
      intro same
      rw [same] at caller
      have mine := own parent grand false caller keeps
      rw [last, Option.some.injEq] at mine
      exact notSelf mine
    refine ⟨⟨grand, ?_⟩, (latest parent).trans last⟩
    rw [kin parent notParent, keeps, Option.map_some, wakeKin, if_neg notWoken]
  · intro parent grand keeps
    have notSelf : parent ≠ p := by
      intro same
      rw [same] at keeps
      cases (self _ keeps).1
    rw [kin parent notSelf] at keeps
    obtain ⟨⟨old, backup⟩, known, woken⟩ := Option.map_eq_some_iff.mp keeps
    have notWoken : ppid ≠ some parent.pid := by
      intro same
      rw [wakeKin, if_pos same] at woken
      cases woken
    rw [wakeKin, if_neg notWoken] at woken
    rw [woken] at known
    obtain ⟨child, last, alive, staying⟩ := forks.owed parent grand known
    have notChild : child ≠ p := by
      intro same
      have mine := forks.children parent child (latestFork_mem last) ppid false
        (by rw [same]; exact caller)
      exact notWoken mine
    refine ⟨child, (latest parent).trans last, ?_, ?_⟩
    · rw [kin child notChild, Option.isSome_map]
      exact alive
    · rw [loaded child notChild]
      exact staying
  · intro parent child member grand backup known
    rw [spawned] at member
    by_cases same : child = p
    · rw [same] at known member
      have equal := congrArg Prod.fst (self _ known).1
      rw [show grand = ppid from equal]
      exact forks.children parent p member ppid false caller
    · rw [kin child same] at known
      obtain ⟨⟨old, flag⟩, before, woken⟩ := Option.map_eq_some_iff.mp known
      have equal : old = grand := by
        simp only [wakeKin] at woken
        split at woken
        · exact congrArg Prod.fst woken
        · exact congrArg Prod.fst woken
      rw [← equal]
      exact forks.children parent child member old flag before
  · intro parent child keep member
    rw [spawned] at member
    rw [serial]
    exact forks.bornEarlier parent child keep member
  · intro q early
    rw [serial]
    by_cases same : q = p
    · rw [same]
      exact bound
    · rw [loaded q same] at early
      exact forks.loadedEarlier q early

theorem Queues.awake_kinAt {pid : Pid} {proc : Process} (queues : Queues t)
    (awake : t.Awake pid proc) : t.kinAt ⟨pid, proc.serial⟩ = some (proc.ppid, false) := by
  refine viewAt_eq_some.mpr ⟨proc, awake.1, rfl, ?_⟩
  simp only [Process.kin, queues.awake_no_backup awake]

theorem fork_kinAt {pid child : Pid} {proc : Process} (m : Bytes.Mem)
    (found : t.processList pid = some proc) (free : t.processList child = none) (p : ProcPtr) :
    (((({ t with nextSerial := t.nextSerial + 1 } : Tables).modify pid
      (Process.keepStack m)).setProcess child
        (some (childProcess proc pid t.nextSerial (proc.usermodeState.setRetval 0)))).note
          (.spawned ⟨pid, proc.serial⟩ ⟨child, t.nextSerial⟩ true)).kinAt p =
      if p = ⟨child, t.nextSerial⟩ then some (some pid, false)
      else if p = ⟨pid, proc.serial⟩ then some (proc.ppid, true) else t.kinAt p := by
  have still : (({ t with nextSerial := t.nextSerial + 1 } : Tables).modify pid
      (Process.keepStack m)).processList child = none := by
    rw [modify_processList]
    simp only [free, Option.map_none]
    split
    · rfl
    · rfl
  apply (viewAt_setProcess Process.kin _ p still).trans
  congr 1
  exact viewAt_modify_self (t := { t with nextSerial := t.nextSerial + 1 }) found rfl

theorem thread_kinAt {pid child : Pid} {proc : Process} (tss : Tss)
    (free : t.processList child = none) (p : ProcPtr) :
    ((({ t with nextSerial := t.nextSerial + 1 } : Tables).setProcess child
      (some (childProcess proc pid t.nextSerial tss))).note
        (.spawned ⟨pid, proc.serial⟩ ⟨child, t.nextSerial⟩ false)).kinAt p =
      if p = ⟨child, t.nextSerial⟩ then some (some pid, false) else t.kinAt p :=
  viewAt_setProcess (t := { t with nextSerial := t.nextSerial + 1 }) Process.kin
    (childProcess proc pid t.nextSerial tss) p free

/-- A parent keeps its copy until a process with its slot as `ppid` exits or execs. -/
theorem Act.backup_kept {parent : ProcPtr} {ppid : Option Pid} (queues : Queues t)
    (act : Act t label t') (keeps : t.kinAt parent = some (ppid, true)) :
    t'.kinAt parent = some (ppid, true) ∨
      ∃ p, t.kinAt p = some (some parent.pid, false) ∧
        (label = .kill p ∧ (∃ code, .exited p code ∈ t'.log) ∨
          label = .image p ∧ .execed p ∈ t'.log) := by
  cases plain : label.plain with
  | true =>
      apply Or.inl
      rw [act.kin_same plain]
      exact keeps
  | false =>
      cases act with
      | @fork pid proc child m awake free =>
          apply Or.inl
          have notChild : parent ≠ ⟨child, t.nextSerial⟩ := by
            intro same
            obtain ⟨other, found, _⟩ := viewAt_eq_some.mp keeps
            rw [same, free] at found
            cases found
          have notSelf : parent ≠ ⟨pid, proc.serial⟩ := by
            intro same
            rw [same, queues.awake_kinAt awake] at keeps
            cases keeps
          rw [fork_kinAt m awake.1 free, if_neg notChild, if_neg notSelf]
          exact keeps
      | @thread pid proc child tss awake free =>
          apply Or.inl
          have notChild : parent ≠ ⟨child, t.nextSerial⟩ := by
            intro same
            obtain ⟨other, found, _⟩ := viewAt_eq_some.mp keeps
            rw [same, free] at found
            cases found
          exact (thread_kinAt tss free parent).trans ((if_neg notChild).trans keeps)
      | @kill pid proc code awake =>
          by_cases woken : proc.ppid = some parent.pid
          · refine Or.inr ⟨⟨pid, proc.serial⟩, ?_, Or.inl ⟨rfl, code, ?_⟩⟩
            · rw [← woken]
              exact queues.awake_kinAt awake
            · simp [wakeParent_log]
          · apply Or.inl
            have notSelf : parent.pid ≠ pid := by
              intro same
              obtain ⟨other, found, kin⟩ := viewAt_eq_some.mp keeps
              rw [same, awake.1, Option.some.injEq] at found
              have backup : proc.stackBackup.isSome = true := by
                rw [found]
                exact congrArg Prod.snd kin.2
              rw [queues.awake_no_backup awake] at backup
              cases backup
            rw [kill_kinAt, if_neg notSelf, keeps, Option.map_some, wakeKin, if_neg woken]
      | @image pid proc awake =>
          by_cases woken : proc.ppid = some parent.pid
          · refine Or.inr ⟨⟨pid, proc.serial⟩, ?_, Or.inr ⟨rfl, ?_⟩⟩
            · rw [← woken]
              exact queues.awake_kinAt awake
            · simp [wakeParent_log]
          · apply Or.inl
            apply (wakeParent_kinAt (t := t.note _) proc.ppid parent).trans
            have same : (t.note (.execed ⟨pid, proc.serial⟩)).kinAt parent = t.kinAt parent := rfl
            rw [same, keeps, Option.map_some, wakeKin, if_neg woken]
      | _ => cases plain

/-- Every act keeps the fork invariant, where an exit or exec wakes only its own parent. -/
theorem Forks.act (forks : Forks t) (queues : Queues t) (act : Act t label t')
    (own : ∀ p, label = .kill p ∨ label = .image p → OwnFork t p) : Forks t' := by
  cases plain : label.plain with
  | true =>
      apply forks.of_same _ (act.fork_events plain) act.nextSerial_le
      intro p
      exact act.kin_same plain p
  | false =>
      cases act with
      | @fork pid proc child m awake free =>
          exact forks.spawn (queues.awake_kinAt awake) (viewAt_empty free) rfl
            (fork_kinAt m awake.1 free) rfl rfl
      | @thread pid proc child tss awake free =>
          have caller := queues.awake_kinAt awake
          apply forks.spawn caller (viewAt_empty free) rfl _ rfl rfl
          intro p
          apply (thread_kinAt tss free p).trans
          congr 1
          split
          · next same =>
              rw [same]
              exact caller
          · rfl
      | @kill pid proc code awake =>
          apply forks.leave (queues.awake_kinAt awake) (own _ (Or.inl rfl))
          · intro q differs
            rw [kill_kinAt]
            split
            · next here =>
                have gone : t.kinAt q = none := by
                  apply Option.eq_none_iff_forall_ne_some.mpr
                  intro kin known
                  obtain ⟨other, found, same⟩ := viewAt_eq_some.mp known
                  rw [here, awake.1, Option.some.injEq] at found
                  apply differs
                  have serial : proc.serial = q.serial := by
                    rw [found]
                    exact same.1
                  cases q
                  simp_all
                rw [gone]
                rfl
            · rfl
          · intro known alive
            rw [kill_kinAt, if_pos rfl] at alive
            cases alive
          · intro q
            simp [wakeParent_log, latestFork]
          · intro q child keep
            simp [wakeParent_log]
          · intro q _
            simp [wakeParent_log]
          · exact queues.serials pid proc awake.1
          · exact wakeParent_nextSerial _ _
      | @image pid proc awake =>
          have kin : ∀ q, ((t.note (.execed ⟨pid, proc.serial⟩)).wakeParent proc.ppid).kinAt q =
              (t.kinAt q).map (wakeKin proc.ppid q) := by
            intro q
            exact wakeParent_kinAt (t := t.note _) proc.ppid q
          have caller := queues.awake_kinAt awake
          apply forks.leave caller (own _ (Or.inr rfl))
          · intro q _
            exact kin q
          · intro known alive
            rw [kin, caller, Option.map_some, Option.some.injEq] at alive
            refine ⟨?_, by simp [wakeParent_log]⟩
            rw [← alive]
            simp only [wakeKin]
            split
            · rfl
            · rfl
          · intro q
            simp [wakeParent_log, latestFork]
          · intro q child keep
            simp [wakeParent_log]
          · intro q differs
            simp [wakeParent_log, differs]
          · exact queues.serials pid proc awake.1
          · exact wakeParent_nextSerial _ _
      | _ => cases plain

theorem Act.kin_before {p : ProcPtr} {ppid : Option Pid} {backup : Bool} (act : Act t label t')
    (alone : ∀ parent child keep, label ≠ .spawn parent child keep)
    (known : t'.kinAt p = some (ppid, backup)) :
    ∃ before, t.kinAt p = some (ppid, before) ∧ (backup = true → before = true) := by
  have woken : ∀ {other : Option Pid},
      (t.kinAt p).map (wakeKin other p) = some (ppid, backup) →
        ∃ before, t.kinAt p = some (ppid, before) ∧ (backup = true → before = true) := by
    intro other mapped
    obtain ⟨⟨old, before⟩, found, same⟩ := Option.map_eq_some_iff.mp mapped
    simp only [wakeKin] at same
    split at same
    · simp only [Prod.mk.injEq] at same
      exact ⟨before, by rw [found, same.1], by intro kept; rw [← same.2] at kept; cases kept⟩
    · simp only [Prod.mk.injEq] at same
      exact ⟨before, by rw [found, same.1], by rw [same.2]; exact id⟩
  cases plain : label.plain with
  | true =>
      rw [act.kin_same plain] at known
      exact ⟨backup, known, id⟩
  | false =>
      cases act with
      | fork => exact absurd rfl (alone _ _ _)
      | thread => exact absurd rfl (alone _ _ _)
      | kill code awake =>
          rw [kill_kinAt] at known
          split at known
          · cases known
          · exact woken known
      | @image pid proc awake =>
          apply woken
          exact (wakeParent_kinAt (t := t.note (.execed ⟨pid, proc.serial⟩)) proc.ppid p).symm.trans
            known
      | _ => cases plain

theorem Act.alive_before {p : ProcPtr} (queues : Queues t) (act : Act t label t')
    (alive : (t'.find p).isSome) :
    (t.find p).isSome ∨ ∃ parent keep, label = .spawn parent p keep := by
  have seen : (t'.kinAt p).isSome := by
    rw [Tables.kinAt, viewAt_isSome]
    exact alive
  rw [← viewAt_isSome t Process.kin]
  by_cases alone : ∀ parent child keep, label ≠ .spawn parent child keep
  · obtain ⟨⟨ppid, backup⟩, known⟩ := Option.isSome_iff_exists.mp seen
    obtain ⟨before, known, _⟩ := act.kin_before alone known
    exact Or.inl (Option.isSome_iff_exists.mpr ⟨_, known⟩)
  · simp only [not_forall, not_not] at alone
    obtain ⟨parent, child, keep, rfl⟩ := alone
    by_cases newborn : p = child
    · exact Or.inr ⟨parent, keep, by rw [newborn]⟩
    · apply Or.inl
      cases act with
      | @fork pid proc child m awake free =>
          rw [fork_kinAt m awake.1 free, if_neg newborn] at seen
          split at seen
          · next same =>
              rw [same]
              exact congrArg Option.isSome (queues.awake_kinAt awake)
          · exact seen
      | @thread pid proc child tss awake free =>
          rw [thread_kinAt tss free, if_neg newborn] at seen
          exact seen

theorem Act.latest_same (act : Act t label t')
    (alone : ∀ parent child keep, label ≠ .spawn parent child keep) (p : ProcPtr) :
    latestFork p t'.log = latestFork p t.log := by
  cases plain : label.plain with
  | true => rw [← latestFork_filter, act.fork_events plain, latestFork_filter]
  | false =>
      cases act with
      | fork => exact absurd rfl (alone _ _ _)
      | thread => exact absurd rfl (alone _ _ _)
      | kill => simp [wakeParent_log, latestFork]
      | image => simp [wakeParent_log, latestFork]
      | _ => cases plain

theorem OwnFork.act {p : ProcPtr} (own : OwnFork t p) (act : Act t label t')
    (alone : ∀ parent child keep, label ≠ .spawn parent child keep) : OwnFork t' p := by
  intro parent ppid backup known keeps
  obtain ⟨before, known, _⟩ := act.kin_before alone known
  obtain ⟨kept, keeps, still⟩ := act.kin_before alone keeps
  rw [still rfl] at keeps
  rw [act.latest_same alone]
  exact own parent ppid before known keeps

/-- A process that exits or execs while its parent keeps a copy of its stack is the child of
the latest fork of that parent. -/
def OwnWakeUp (fs : FileSystem) (s : State) (trap : Trap) : Prop :=
  (trapRights fs trap).exits ∨ (trapRights fs trap).loads →
    ∀ proc, s.processList s.currentProcess = some proc →
      ∀ pid parent, proc.ppid = some pid → s.processList pid = some parent →
        parent.stackBackup.isSome →
          latestFork ⟨pid, parent.serial⟩ s.log = some ⟨s.currentProcess, proc.serial⟩

theorem OwnWakeUp.ownFork {fs : FileSystem} {s : State} {trap : Trap} {proc : Process}
    (allowed : OwnWakeUp fs s trap)
    (wakes : (trapRights fs trap).exits ∨ (trapRights fs trap).loads)
    (found : s.processList s.currentProcess = some proc) :
    OwnFork s.toTables ⟨s.currentProcess, proc.serial⟩ := by
  intro parent ppid backup known keeps
  obtain ⟨other, here, kin⟩ := viewAt_eq_some.mp known
  obtain ⟨holder, there, kin'⟩ := viewAt_eq_some.mp keeps
  rw [found, Option.some.injEq] at here
  simp only [Process.kin, Prod.mk.injEq] at kin kin'
  have own := allowed wakes proc found parent.pid holder (by rw [here]; exact kin.2.1) there
    kin'.2.2
  rw [kin'.1] at own
  exact own

/-- What a step does to a parent that keeps a copy: it still does, or the step is the exit
or exec of the child of its latest fork. -/
theorem step_forks {fs : FileSystem} {place : Placement} {s s' : State} {trap : Trap} (inv : Inv s)
    (forks : Forks s.toTables) (allowed : OwnWakeUp fs s trap)
    (ran : realSyscallHandler fs place s trap = .ok s') :
    Forks s'.toTables ∧ ∀ parent ppid, s.toTables.kinAt parent = some (ppid, true) →
      s'.toTables.kinAt parent = some (ppid, true) ∨
        ∃ child, latestFork parent s.log = some child ∧ s.currentProcess = child.pid ∧
          (.execed child ∈ s'.log ∨ ∃ code, .exited child code ∈ s'.log) := by
  obtain ⟨proc, ret, awake, acts⟩ := step_acts inv ran
  by_cases wakes : (trapRights fs trap).exits ∨ (trapRights fs trap).loads
  · -- The call makes no process, so that the guard stays true up to the wake-up.
    have alone : ∀ label, StepLabel ⟨s.currentProcess, proc.serial⟩ (trapRights fs trap) ret label →
        ∀ parent child keep, label ≠ .spawn parent child keep := by
      intro label kind parent child keep same
      rw [same] at kind
      have spawns := kind.of_spawn.2
      simp only [trapRights] at spawns wakes
      rcases wakes with other | ⟨other, _⟩
      · rw [other] at spawns
        simp at spawns
      · rw [other] at spawns
        simp at spawns
    have mine : ∀ label p, StepLabel ⟨s.currentProcess, proc.serial⟩ (trapRights fs trap) ret
        label → label = .kill p ∨ label = .image p → p = ⟨s.currentProcess, proc.serial⟩ := by
      intro label p kind which
      rcases which with rfl | rfl
      · exact kind.of_kill.1
      · exact kind.of_image.1
    have along := acts.invariant (fun t => Queues t ∧ Forks t ∧
      OwnFork t ⟨s.currentProcess, proc.serial⟩ ∧
      (∀ p, latestFork p t.log = latestFork p s.log) ∧
      ∀ parent ppid, s.toTables.kinAt parent = some (ppid, true) →
        t.kinAt parent = some (ppid, true) ∨
          latestFork parent s.log = some ⟨s.currentProcess, proc.serial⟩ ∧
            (.execed ⟨s.currentProcess, proc.serial⟩ ∈ t.log ∨
              ∃ code, .exited ⟨s.currentProcess, proc.serial⟩ code ∈ t.log))
      ⟨inv.queues, forks, allowed.ownFork wakes awake.1, fun _ => rfl,
        fun _ _ keeps => Or.inl keeps⟩ (by
      intro mid label next kind ⟨queues, forks, own, latest, kept⟩ act
      refine ⟨queues.act act, ?_, own.act act (alone label kind), ?_, ?_⟩
      · apply forks.act queues act
        intro p which
        rw [mine label p kind which]
        exact own
      · intro p
        exact (act.latest_same (alone label kind) p).trans (latest p)
      · intro parent ppid before
        rcases kept parent ppid before with keeps | ⟨last, left⟩
        · rcases act.backup_kept queues keeps with still | ⟨p, known, which⟩
          · exact Or.inl still
          · have self : p = ⟨s.currentProcess, proc.serial⟩ := by
              apply mine label p kind
              rcases which with ⟨killed, _⟩ | ⟨loaded, _⟩
              · exact Or.inl killed
              · exact Or.inr loaded
            rw [self] at known which
            refine Or.inr ⟨(latest parent).symm.trans (own parent ppid false known keeps), ?_⟩
            rcases which with ⟨_, exited⟩ | ⟨_, execed⟩
            · exact Or.inr exited
            · exact Or.inl execed
        · refine Or.inr ⟨last, ?_⟩
          rcases left with execed | ⟨code, exited⟩
          · exact Or.inl (act.log_suffix.mem execed)
          · exact Or.inr ⟨code, act.log_suffix.mem exited⟩)
    obtain ⟨_, after, _, _, kept⟩ := along
    refine ⟨after, ?_⟩
    intro parent ppid keeps
    rcases kept parent ppid keeps with still | ⟨last, left⟩
    · exact Or.inl still
    · exact Or.inr ⟨_, last, rfl, left⟩
  · have quiet : ∀ label p, StepLabel ⟨s.currentProcess, proc.serial⟩ (trapRights fs trap) ret
        label → ¬ (label = .kill p ∨ label = .image p) := by
      intro label p kind which
      rcases which with rfl | rfl
      · exact wakes (Or.inl kind.of_kill.2)
      · exact wakes (Or.inr kind.of_image.2)
    have along := acts.invariant (fun t => Queues t ∧ Forks t ∧
      ∀ parent ppid, s.toTables.kinAt parent = some (ppid, true) →
        t.kinAt parent = some (ppid, true)) ⟨inv.queues, forks, fun _ _ keeps => keeps⟩ (by
      intro mid label next kind ⟨queues, forks, kept⟩ act
      refine ⟨queues.act act, ?_, ?_⟩
      · exact forks.act queues act fun p which => absurd which (quiet label p kind)
      · intro parent ppid before
        rcases act.backup_kept queues (kept parent ppid before) with still | ⟨p, _, which⟩
        · exact still
        · apply absurd _ (quiet label p kind)
          rcases which with ⟨killed, _⟩ | ⟨loaded, _⟩
          · exact Or.inl killed
          · exact Or.inr loaded)
    exact ⟨along.2.1, fun parent ppid keeps => Or.inl (along.2.2 parent ppid keeps)⟩

theorem bootTables_kinAt (codes : Pid → Nat) (p : ProcPtr) (kin : Option Pid × Bool)
    (known : (bootTables codes).kinAt p = some kin) : kin = (none, false) := by
  obtain ⟨proc, found, same⟩ := viewAt_eq_some.mp known
  rw [bootTables_process] at found
  split at found
  · rw [← Option.some.inj found] at same
    rw [← same.2]
    rfl
  · cases found

theorem Forks.boot {fs : FileSystem} {place : Placement} {boot : BootInfo} {s : State}
    (started : enterInit fs place boot = .ok s) : Forks s.toTables := by
  obtain ⟨t, acts, tables, _⟩ := enterInit_acts started
  have empty : (bootTables boot.lastExitCode).log = [] := rfl
  have initial : Forks (bootTables boot.lastExitCode) := by
    constructor
    · intro parent child member
      simp [empty] at member
    · intro parent ppid keeps
      cases bootTables_kinAt _ _ _ keeps
    · intro parent child member
      simp [empty] at member
    · intro parent child keep member
      simp [empty] at member
    · intro p member
      simp [empty] at member
  have own : OwnFork (bootTables boot.lastExitCode) ⟨0, 4⟩ := by
    intro parent ppid backup known
    cases bootTables_kinAt _ _ _ known
  have along := acts.invariant (fun t => Queues t ∧ Forks t ∧ OwnFork t ⟨0, 4⟩)
    ⟨bootTables_queues _, initial, own⟩ (by
    intro mid label next kind ⟨queues, forks, own⟩ act
    refine ⟨queues.act act, ?_, ?_⟩
    · apply forks.act queues act
      intro p which
      have self : p = ⟨0, 4⟩ := by
        rcases which with rfl | rfl
        · exact kind.1
        · exact kind.1
      rw [self]
      exact own
    · apply own.act act
      intro parent child keep same
      rw [same] at kind
      exact kind.2)
  rw [tables]
  refine along.2.1.of_same ?_ rfl (Nat.le_refl _)
  intro p
  exact viewAt_modify 0 _ fun _ => ⟨rfl, rfl⟩

/-- In every run in which exits and execs wake only their own parents, a process sleeps and
keeps its stack as long as the child it forked is alive and has not called exec, and it
wakes only in the step in which that child execs or exits. -/
theorem forked_parent_sleeps {fs : FileSystem} {place : Placement} {s : State}
    (reachable : Reachable fs place (OwnWakeUp fs) s) :
    (∀ parent child, .spawned parent child true ∈ s.log → (s.toTables.find child).isSome →
      .execed child ∉ s.log → ∃ proc, s.toTables.find parent = some proc ∧
        proc.processState = .sleeping ∧ proc.stackBackup.isSome) ∧
    ∀ trap s', OwnWakeUp fs s trap → realSyscallHandler fs place s trap = .ok s' →
      ∀ parent proc proc', s.toTables.find parent = some proc → proc.stackBackup.isSome →
        s'.toTables.find parent = some proc' → proc'.processState = .runnable →
          ∃ child, latestFork parent s.log = some child ∧ s.currentProcess = child.pid ∧
            (s.toTables.find child).isSome ∧ .execed child ∉ s.log ∧
              (.execed child ∈ s'.log ∨ ∃ code, .exited child code ∈ s'.log) := by
  obtain ⟨inv, forks⟩ := reachable.induct (fun s => Forks s.toTables)
    (fun boot first started => Forks.boot started)
    (fun mid trap next inv forks allowed ran => (step_forks inv forks allowed ran).1)
  constructor
  · intro parent child forked alive staying
    have present : (s.toTables.kinAt child).isSome := by
      rw [Tables.kinAt, viewAt_isSome]
      exact alive
    obtain ⟨⟨ppid, keeps⟩, _⟩ := forks.kept parent child forked present staying
    obtain ⟨proc, found, kin⟩ := Option.map_eq_some_iff.mp keeps
    simp only [Process.kin, Prod.mk.injEq] at kin
    refine ⟨proc, found, ?_, kin.2⟩
    exact inv.queues.asleep _ _ (find_eq_some.mp found).1 kin.2
  · intro trap s' allowed ran parent proc proc' found backup found' awake
    have keeps : s.toTables.kinAt parent = some (proc.ppid, true) := by
      rw [Tables.kinAt, Tables.viewAt, found, Option.map_some, Process.kin, backup]
    rcases (step_forks inv forks allowed ran).2 parent proc.ppid keeps with
      still | ⟨child, last, current, left⟩
    · rw [Tables.kinAt, Tables.viewAt, found', Option.map_some, Process.kin, Option.some.injEq,
        Prod.mk.injEq] at still
      have asleep := (inv.step ran).queues.asleep _ _ (find_eq_some.mp found').1 still.2
      rw [asleep] at awake
      cases awake
    · obtain ⟨other, last', alive, staying⟩ := forks.owed parent proc.ppid keeps
      rw [last, Option.some.injEq] at last'
      rw [Tables.kinAt, viewAt_isSome, ← last'] at alive
      rw [← last'] at staying
      exact ⟨child, last, current, alive, staying, left⟩

/-- The idle process sleeps while the process it forked runs on its stack. -/
theorem forked_parent_sleeps_idle :
    ∃ s, Reachable smallVolume smallPlacement (OwnWakeUp smallVolume) s ∧
      (s.toTables.find ⟨1, 5⟩).isSome ∧ ∃ proc, s.toTables.find ⟨0, 4⟩ = some proc ∧
        proc.processState = .sleeping ∧ proc.stackBackup.isSome := by
  obtain ⟨s, reached, forked, alive, staying⟩ := smallRun_exists
    (fun _ trap => callsysOf trap.regs.eax = some .fork) [plainCall 2 0 0 0]
    (fun s => .spawned ⟨0, 4⟩ ⟨1, 5⟩ true ∈ s.log ∧ (s.toTables.find ⟨1, 5⟩).isSome ∧
      .execed ⟨1, 5⟩ ∉ s.log) (by decide +kernel)
  have reachable : Reachable smallVolume smallPlacement (OwnWakeUp smallVolume) s := by
    apply reached.mono
    intro s trap fork wakes
    simp [trapRights, fork] at wakes
  exact ⟨s, reachable, alive, (forked_parent_sleeps reachable).1 _ _ forked alive staying⟩

/-- A thread that exits wakes its creator, which has forked another child meanwhile and now
runs on the same stack as that child. -/
theorem forked_parent_wakes_early :
    ¬ ∀ fs place s, Reachable fs place HltProgram s →
      ∀ parent child, .spawned parent child true ∈ s.log → (s.toTables.find child).isSome →
        .execed child ∉ s.log → ∃ proc, s.toTables.find parent = some proc ∧
          proc.processState = .sleeping ∧ proc.stackBackup.isSome := by
  intro claim
  obtain ⟨s, reachable, forked, alive, staying, awake⟩ := smallRun_exists HltProgram
    [plainCall 2 0 0 0, plainCall 202 0 0 0, plainCall 158 0 0 0, plainCall 2 0 0 0,
      plainCall 1 0 0 0]
    (fun s => .spawned ⟨1, 5⟩ ⟨3, 7⟩ true ∈ s.log ∧ (s.toTables.find ⟨3, 7⟩).isSome ∧
      .execed ⟨3, 7⟩ ∉ s.log ∧
        (s.toTables.find ⟨1, 5⟩).map Process.processState = some .runnable) (by decide +kernel)
  obtain ⟨proc, found, sleeping, _⟩ := claim _ _ s reachable _ _ forked alive staying
  rw [found, Option.map_some, sleeping] at awake
  cases awake

end SysImpl.Kernel
