import SysImpl.Lib.Cyclic
import SysImpl.Kernel.Contexts

/-! The order in which `resche` goes round the processes. -/

namespace SysImpl.Kernel

open Cyclic

def CanRun (t : Tables) (pid : Pid) : Prop :=
  ∃ proc, t.processList pid = some proc ∧ proc.processState = .runnable

def Eligible (t : Tables) (pid : Pid) : Prop :=
  ∃ proc, t.processList pid = some proc ∧ proc.processState = .runnable ∧
    proc.processScheType ≠ .idle

def eligibleSlots (t : Tables) : List Pid := (List.finRange 32).filter (runnableAt t false)

/-- Some calls of `resche` in a row: the processes they select, and the state after them. -/
def rescheTimes : Nat → State → Except Stop (List Pid × State)
  | 0, s => .ok ([], s)
  | count + 1, s =>
      match resche s with
      | .error stop => .error stop
      | .ok after =>
          (rescheTimes count after).map fun later => (after.currentProcess :: later.1, later.2)

variable {s : State} {t : Tables} {pid : Pid}

theorem runnableAt_eligible : runnableAt t false pid = true ↔ Eligible t pid := by
  simp [runnableAt, Eligible, Option.any_eq_true]

theorem runnableAt_canRun : runnableAt t true pid = true ↔ CanRun t pid := by
  simp [runnableAt, CanRun, Option.any_eq_true]

/-- `resche` selects the next process that is not idle, or else the next one. -/
theorem resche_eq (s : State) :
    resche s =
      match (next (runnableAt s.toTables false) s.currentProcess).or
        (next (runnableAt s.toTables true) s.currentProcess) with
      | none => .error .initTask
      | some pid =>
          .ok { s with currentProcess := pid, hw := { s.hw with rescheCounter := processTicks } } :=
  rfl

theorem eligible_length (t : Tables) (current : Pid) :
    ((order current).filter (runnableAt t false)).length = (eligibleSlots t).length := by
  have perm : (order current).Perm (List.finRange 32) := by
    apply (List.perm_ext_iff_of_nodup (order_nodup current) (List.nodup_finRange 32)).mpr
    intro pid
    simp [mem_order current pid]
  exact (perm.filter _).length_eq

theorem rescheTimes_spec (count : Nat) (s : State)
    (few : count ≤ (eligibleSlots s.toTables).length) :
    ∃ last, rescheTimes count s =
        .ok (turns (runnableAt s.toTables false) count s.currentProcess, last) ∧
      last.toTables = s.toTables := by
  induction count generalizing s with
  | zero => exact ⟨s, rfl, rfl⟩
  | succ count ih =>
      cases found : next (runnableAt s.toTables false) s.currentProcess with
      | none =>
          have fails := next_eq_none.mp found
          have empty : eligibleSlots s.toTables = [] := by
            apply List.filter_eq_nil_iff.mpr
            intro pid _
            simp [fails pid]
          rw [empty] at few
          cases few
      | some pid =>
          have ran : resche s = .ok { s with
              currentProcess := pid, hw := { s.hw with rescheCounter := processTicks } } := by
            rw [resche_eq, found]
            rfl
          obtain ⟨last, done, same⟩ := ih { s with
            currentProcess := pid, hw := { s.hw with rescheCounter := processTicks } }
              (by simp only; omega)
          refine ⟨last, ?_, same⟩
          simp only [rescheTimes, ran, done, turns, found]
          rfl

/-- As many calls of `resche` as there are runnable processes that are not idle select each of
them once, in the order of the slots. -/
theorem round_robin (s : State) :
    (∃ picks last, rescheTimes (eligibleSlots s.toTables).length s = .ok (picks, last) ∧
      picks.Nodup ∧ (∀ pid, pid ∈ picks ↔ Eligible s.toTables pid) ∧
      picks.Pairwise fun a b => turnOf s.currentProcess a < turnOf s.currentProcess b) ∧
    ((∀ pid, ¬ Eligible s.toTables pid) → (∃ pid, CanRun s.toTables pid) →
      ∃ after, resche s = .ok after ∧ CanRun s.toTables after.currentProcess ∧
        ∀ pid, CanRun s.toTables pid →
          turnOf s.currentProcess after.currentProcess ≤ turnOf s.currentProcess pid) ∧
    ∀ stop, resche s = .error stop → stop = .initTask ∧ ∀ pid, ¬ CanRun s.toTables pid := by
  refine ⟨?_, ?_, ?_⟩
  · obtain ⟨last, done, _⟩ := rescheTimes_spec _ s (Nat.le_refl _)
    have length := eligible_length s.toTables s.currentProcess
    rw [turns_eq _ _ (Nat.le_of_eq length.symm), ← length, List.take_length] at done
    have rising := (order_rising s.currentProcess).filter (runnableAt s.toTables false)
    refine ⟨_, last, by rw [← length]; exact done, ?_, ?_, rising⟩
    · exact (order_nodup s.currentProcess).filter _
    · intro pid
      rw [List.mem_filter, runnableAt_eligible]
      exact and_iff_right (mem_order s.currentProcess pid)
  · intro noneEligible some
    have first : next (runnableAt s.toTables false) s.currentProcess = none := by
      apply next_eq_none.mpr
      intro pid
      rw [← Bool.not_eq_true, runnableAt_eligible]
      exact noneEligible pid
    cases found : next (runnableAt s.toTables true) s.currentProcess with
    | none =>
        obtain ⟨pid, runs⟩ := some
        have fails := next_eq_none.mp found pid
        rw [runnableAt_canRun.mpr runs] at fails
        cases fails
    | some pid =>
        obtain ⟨passes, nearest⟩ := next_first found
        refine ⟨_, by rw [resche_eq, first, found]; rfl, runnableAt_canRun.mp passes, ?_⟩
        intro other runs
        exact nearest other (runnableAt_canRun.mpr runs)
  · intro stop stopped
    rw [resche_eq] at stopped
    split at stopped
    · next failed =>
        have second := (Option.or_eq_none_iff.mp failed).2
        refine ⟨(Except.error.inj stopped).symm, ?_⟩
        intro pid runs
        have fails := next_eq_none.mp second pid
        rw [runnableAt_canRun.mpr runs] at fails
        cases fails
    · cases stopped

end SysImpl.Kernel
