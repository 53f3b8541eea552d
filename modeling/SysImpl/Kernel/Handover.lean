import SysImpl.Kernel.Limits
import SysImpl.Kernel.Outcome

/-! What a program is started with: the descriptors that `exec` keeps and the arguments.

The user library and the kernel are two programs that meet in the registers of the call
and in the runtime info block on the new stack. -/

namespace SysImpl.Kernel

open Bytes Runs

variable {fs : FileSystem} {place : Placement}

section Descriptors

def keepBit (mask : Nat × Nat) (fd : Fin 64) : Nat × Nat :=
  if fd.val < 32 then (mask.1 ||| 2 ^ fd.val, mask.2) else (mask.1, mask.2 ||| 2 ^ (fd.val - 32))

/-- The two words `exec_exv` passes on for the descriptors before the -1. -/
def keepMask (fds : List (Fin 64)) : Nat × Nat := fds.foldl keepBit (0, 0)

structure ExvCall (fds : List (Fin 64)) (trap : Trap) : Prop where
  call : callsysOf trap.regs.eax = some .exec
  low : trap.regs.edx = (keepMask fds).1
  high : trap.regs.esi = (keepMask fds).2

/-- What is said of a position by the bit that `exec` tests for it. -/
def BitNames (fds : List (Fin 64)) (pos : Fd) : Prop :=
  if pos.val % 32 = 31 then ∃ fd ∈ fds, 31 ≤ fd.val else ∃ fd ∈ fds, fd.val = pos.val % 32

def joined (mask : Nat × Nat) : Nat := mask.2 * 2 ^ 32 + mask.1

instance (fds : List (Fin 64)) (pos : Fd) : Decidable (BitNames fds pos) :=
  inferInstanceAs (Decidable (ite _ _ _))

theorem keepBit_low {mask : Nat × Nat} (low : mask.1 < 2 ^ 32) (fd : Fin 64) :
    (keepBit mask fd).1 < 2 ^ 32 := by
  simp only [keepBit]
  split
  · next small => exact Nat.or_lt_two_pow low (Nat.pow_lt_pow_right (by decide) small)
  · exact low

theorem joined_testBit {mask : Nat × Nat} (low : mask.1 < 2 ^ 32) (i : Nat) :
    (joined mask).testBit i = if i < 32 then mask.1.testBit i else mask.2.testBit (i - 32) := by
  rw [joined, Nat.mul_comm, Nat.testBit_two_pow_mul_add _ low]

theorem joined_keepBit {mask : Nat × Nat} (low : mask.1 < 2 ^ 32) (fd : Fin 64) (i : Nat) :
    (joined (keepBit mask fd)).testBit i = ((joined mask).testBit i || decide (fd.val = i)) := by
  rw [joined_testBit (keepBit_low low fd), joined_testBit low]
  by_cases small : fd.val < 32
  · simp only [keepBit, if_pos small]
    by_cases here : i < 32
    · simp [if_pos here, Nat.testBit_two_pow]
    · have differs : fd.val ≠ i := by omega
      simp [if_neg here, differs]
  · simp only [keepBit, if_neg small]
    by_cases here : i < 32
    · have differs : fd.val ≠ i := by omega
      simp [if_pos here, differs]
    · have same : (fd.val - 32 = i - 32) ↔ fd.val = i := by omega
      simp [if_neg here, Nat.testBit_two_pow, same]

theorem keepMask_testBit (fds : List (Fin 64)) (i : Nat) :
    (joined (keepMask fds)).testBit i = true ↔ ∃ fd ∈ fds, fd.val = i := by
  have general : ∀ mask : Nat × Nat, mask.1 < 2 ^ 32 →
      ((joined (fds.foldl keepBit mask)).testBit i = true ↔
        (joined mask).testBit i = true ∨ ∃ fd ∈ fds, fd.val = i) := by
    induction fds with
    | nil => simp
    | cons fd rest ih =>
        intro mask low
        rw [List.foldl_cons, ih _ (keepBit_low low fd), joined_keepBit low]
        simp [or_assoc]
  rw [keepMask, general (0, 0) (by decide)]
  simp [joined]

theorem keepsObject_iff (fds : List (Fin 64)) (pos : Fd) :
    keepsObject (keepMask fds).1 (keepMask fds).2 pos = true ↔ BitNames fds pos := by
  have bits := keepMask_testBit fds
  have word : (keepMask fds).2 * 2 ^ 32 + (keepMask fds).1 = joined (keepMask fds) := rfl
  simp only [keepsObject, BitNames, word]
  split
  · rw [decide_eq_true_iff]
    constructor
    · intro nonzero
      have large : 2 ^ 31 ≤ joined (keepMask fds) := by
        by_contra small
        exact nonzero (Nat.div_eq_of_lt (Nat.not_le.mp small))
      obtain ⟨i, high, bit⟩ := Nat.exists_ge_and_testBit_of_ge_two_pow large
      obtain ⟨fd, member, same⟩ := (bits i).mp bit
      exact ⟨fd, member, by omega⟩
    · intro ⟨fd, member, high⟩ zero
      have bit := Nat.ge_two_pow_of_testBit ((bits fd.val).mpr ⟨fd, member, rfl⟩)
      have large : 2 ^ 31 ≤ 2 ^ fd.val := Nat.pow_le_pow_right (by decide) high
      have small := (Nat.div_eq_zero_iff_lt (by decide)).mp zero
      omega
  · exact bits _

theorem attached_elsewhere {objects : Fd → Option Object} {segments : List (Fd × Object)} {pos : Fd}
    (elsewhere : ∀ entry ∈ segments, entry.1 ≠ pos) : attached objects segments pos = objects pos := by
  induction segments generalizing objects with
  | nil => rfl
  | cons entry rest ih =>
      obtain ⟨place, obj⟩ := entry
      rw [attached, ih fun entry member => elsewhere entry (List.mem_cons_of_mem _ member)]
      exact Function.update_of_ne (elsewhere _ List.mem_cons_self).symm _ _

theorem attached_low {objects : Fd → Option Object} {segments : List Object} {pos : Fd}
    (low : pos.val < 112) :
    attached objects ((freeSegments objects).zip segments) pos = objects pos := by
  apply attached_elsewhere
  intro entry member same
  have free := (List.of_mem_zip member).1
  simp only [freeSegments, List.mem_filter, decide_eq_true_eq] at free
  rw [same] at free
  omega

theorem exec_objects {s called : State} {trap : Trap} {proc : Process}
    (found : s.processList s.currentProcess = some proc)
    (applied : applyHandler fs place s trap proc .exec = .ok (called, 0)) :
    ∃ after, called.processList s.currentProcess = some after ∧ ∀ pos : Fd, pos.val < 112 →
      after.objects pos =
        if keepsObject proc.usermodeState.edx proc.usermodeState.esi pos then proc.objects pos
        else none := by
  rcases execv_cases applied with
    ⟨_, failed⟩ | ⟨_, _, content, sections, entry, installed, built, finished⟩
  · rcases failed with missing | invalid
    · exact absurd missing (by decide)
    · exact absurd invalid (by decide)
  · have spec := install_spec place s
      ⟨loadArguments s.mem proc.usermodeState.ecx maxArguments, proc.usermodeState.edx,
        proc.usermodeState.esi⟩ content trap.around sections entry found
    rw [built] at spec
    have room := of_decide_eq_true spec.1.symm
    obtain ⟨after, here, _, objects⟩ := (install_complete place s _ content trap.around sections
      entry found room).process
    rw [built] at here
    refine ⟨after, by rw [finished]; exact here, ?_⟩
    intro pos low
    rw [objects, attached_low low]
    rfl

/-- A successful `exec` keeps exactly the named descriptors when, for every descriptor that is
in use, the bit that is tested for it stands for it. -/
theorem exec_keeps_named_iff {s s' called : State} {trap : Trap} {proc : Process}
    {fds : List (Fin 64)} (reachable : Reachable fs place (fun _ _ => True) s)
    (found : s.processList s.currentProcess = some proc) (exv : ExvCall fds trap)
    (applied : applyHandler fs place (entered s trap proc) trap (proc.trapped trap) .exec =
      .ok (called, 0)) (ran : realSyscallHandler fs place s trap = .ok s') :
    ∃ after, s'.toTables.find ⟨s.currentProcess, proc.serial⟩ = some after ∧
      ((∀ pos : Fd, pos.val < 112 → after.objects pos =
          if ∃ fd ∈ fds, fd.val = pos.val then proc.objects pos else none) ↔
        ∀ pos : Fd, pos.val < 112 → (proc.objects pos).isSome →
          (BitNames fds pos ↔ ∃ fd ∈ fds, fd.val = pos.val)) := by
  have inv := reachable.inv
  obtain ⟨caller, awake, _, outcome⟩ := step_cases inv ran
  have owner : caller = proc := Option.some.inj (awake.1.symm.trans found)
  subst owner
  obtain ⟨after, there, kept⟩ := exec_objects (entered_awake trap awake).1 applied
  have tables : SameTables called.toTables s'.toTables := by
    rcases outcome with ⟨unknown, _⟩ | ⟨callsys, other, ret, passed, known, result, checked, stored⟩
    · rw [exv.call] at unknown
      cases unknown
    · have exec : callsys = .exec := Option.some.inj (known.symm.trans exv.call)
      subst exec
      rw [applied, Except.ok.injEq, Prod.mk.injEq] at result
      rw [← result.1] at checked
      rw [stored]
      exact ((SameTables.refl _).pass_run (checkAll_acts checked).1).modify _ fun _ => rfl
  have same := tables.processes s.currentProcess
  rw [show called.processList s.currentProcess = some after from there, Option.map_some,
    Option.map_eq_some_iff] at same
  obtain ⟨last, here, holding⟩ := same
  have objects : last.objects = after.objects := congrArg Prod.snd holding
  have serial : last.serial = caller.serial := by
    obtain ⟨runner, ret, running, acts⟩ := step_acts inv ran
    rw [Option.some.inj (running.1.symm.trans found)] at acts
    exact (Awake.mine awake).run inv.queues acts last here
  refine ⟨last, find_eq_some.mpr ⟨here, serial⟩, ?_⟩
  have left : ∀ pos : Fd, pos.val < 112 →
      (last.objects pos = if ∃ fd ∈ fds, fd.val = pos.val then caller.objects pos else none) =
        ((if BitNames fds pos then caller.objects pos else none) =
          if ∃ fd ∈ fds, fd.val = pos.val then caller.objects pos else none) := by
    intro pos low
    have bit := keepsObject_iff fds pos
    rw [← exv.low, ← exv.high] at bit
    have value := kept pos low
    rw [show (caller.trapped trap).usermodeState = trap.regs from rfl, if_congr bit rfl rfl] at value
    rw [objects, value]
    rfl
  constructor
  · intro precise pos low used
    have here := precise pos low
    rw [left pos low] at here
    obtain ⟨obj, held⟩ := Option.isSome_iff_exists.mp used
    rw [held] at here
    by_cases bit : BitNames fds pos
    · simp only [if_pos bit] at here
      split at here
      · next named => exact iff_of_true bit named
      · cases here
    · simp only [if_neg bit] at here
      split at here
      · cases here
      · next unnamed => exact iff_of_false bit unnamed
  · intro names pos low
    rw [left pos low]
    cases held : caller.objects pos with
    | none => simp
    | some obj =>
        have bit := names pos low (by rw [held]; rfl)
        simp only [bit]

def exvCall (fds : List (Fin 64)) : Trap :=
  callWith (hltPath ++ [0]) 11 100 0 (keepMask fds).1

def leavesAt (s : State) (fds : List (Fin 64)) (pos : Fd) (held : Bool) : Bool :=
  (s.processList s.currentProcess).any fun proc =>
    ((applyHandler smallVolume smallPlacement (entered s (exvCall fds) proc) (exvCall fds)
      (proc.trapped (exvCall fds)) .exec).toOption.any fun result => result.2 = 0) &&
    (realSyscallHandler smallVolume smallPlacement s (exvCall fds)).toOption.any fun s' =>
      (s'.toTables.find ⟨s.currentProcess, proc.serial⟩).any fun after =>
        (after.objects pos).isSome == held

theorem leavesAt_spec {s : State} {fds : List (Fin 64)} {pos : Fd} {held : Bool}
    (leaves : leavesAt s fds pos held) :
    ∃ proc called s' after, s.processList s.currentProcess = some proc ∧
      applyHandler smallVolume smallPlacement (entered s (exvCall fds) proc) (exvCall fds)
        (proc.trapped (exvCall fds)) .exec = .ok (called, 0) ∧
      realSyscallHandler smallVolume smallPlacement s (exvCall fds) = .ok s' ∧
      s'.toTables.find ⟨s.currentProcess, proc.serial⟩ = some after ∧
      (after.objects pos).isSome = held := by
  obtain ⟨proc, found, both⟩ := (Option.any_eq_true _ _).mp leaves
  obtain ⟨first, second⟩ := Bool.and_eq_true_iff.mp both
  obtain ⟨⟨called, ret⟩, applied, zero⟩ := (Option.any_eq_true _ _).mp first
  obtain ⟨s', ran, later⟩ := (Option.any_eq_true _ _).mp second
  obtain ⟨after, alive, value⟩ := (Option.any_eq_true _ _).mp later
  rw [decide_eq_true_eq] at zero
  have success := toOption_eq_some applied
  rw [show ret = 0 from zero] at success
  exact ⟨proc, called, s', after, found, success, toOption_eq_some ran, alive, beq_iff_eq.mp value⟩

/-- A child keeps its console descriptors and nothing else. -/
theorem exec_keeps_named_iff_console : ∃ s s' proc after,
    Reachable smallVolume smallPlacement (fun _ _ => True) s ∧
    s.processList s.currentProcess = some proc ∧
    realSyscallHandler smallVolume smallPlacement s (exvCall [0, 1]) = .ok s' ∧
    s'.toTables.find ⟨s.currentProcess, proc.serial⟩ = some after ∧
    ∀ pos : Fd, pos.val < 112 → after.objects pos =
      if ∃ fd ∈ ([0, 1] : List (Fin 64)), fd.val = pos.val then proc.objects pos else none := by
  obtain ⟨s, reachable, leaves, used⟩ := smallRun_exists (fun _ _ => True) [plainCall 2 0 0 0]
    (fun s => leavesAt s [0, 1] 1 true ∧ ∀ pos : Fd, 3 ≤ pos.val → pos.val < 112 →
      s.toTables.objectAt s.currentProcess pos = none) (by decide +kernel)
  obtain ⟨proc, called, s', _, found, applied, ran, _, _⟩ := leavesAt_spec leaves
  have exv : ExvCall [0, 1] (exvCall [0, 1]) := ⟨rfl, rfl, by decide⟩
  obtain ⟨after, alive, precise⟩ := exec_keeps_named_iff reachable found exv applied ran
  refine ⟨s, s', proc, after, reachable, found, ran, alive, precise.mpr ?_⟩
  intro pos low occupied
  have small : pos.val < 3 := by
    by_contra large
    have empty := used pos (Nat.not_lt.mp large) low
    rw [Tables.objectAt, found, Option.bind_some] at empty
    rw [empty] at occupied
    cases occupied
  have all : ∀ pos : Fd, pos.val < 3 →
      (BitNames [0, 1] pos ↔ ∃ fd ∈ ([0, 1] : List (Fin 64)), fd.val = pos.val) := by
    decide +kernel
  exact all pos small

/-- Descriptor 32 is not named and is kept with descriptor 0. -/
theorem unnamed_descriptor_kept :
    ¬ ∀ fs place s s' called trap proc, ∀ fds : List (Fin 64), Reachable fs place HltProgram s →
      s.processList s.currentProcess = some proc → ExvCall fds trap →
      applyHandler fs place (entered s trap proc) trap (proc.trapped trap) .exec =
        .ok (called, 0) → realSyscallHandler fs place s trap = .ok s' →
      ∃ after, s'.toTables.find ⟨s.currentProcess, proc.serial⟩ = some after ∧
        ∀ pos : Fd, pos.val < 112 → after.objects pos =
          if ∃ fd ∈ fds, fd.val = pos.val then proc.objects pos else none := by
  intro claim
  obtain ⟨s, reachable, leaves⟩ := smallRun_exists HltProgram
    [plainCall 2 0 0 0, plainCall 63 0 32 0] (fun s => leavesAt s [0] 32 true) (by decide +kernel)
  obtain ⟨proc, called, s', after, found, applied, ran, alive, held⟩ := leavesAt_spec leaves
  have exv : ExvCall [0] (exvCall [0]) := ⟨rfl, rfl, by decide⟩
  obtain ⟨other, same, precise⟩ := claim _ _ s s' called _ proc [0] reachable found exv applied ran
  rw [alive, Option.some.injEq] at same
  have dropped := precise 32 (by decide)
  rw [← same, if_neg (by decide)] at dropped
  rw [dropped] at held
  cases held

end Descriptors

end SysImpl.Kernel
