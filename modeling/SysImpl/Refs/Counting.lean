import SysImpl.Lib.Runs
import SysImpl.Refs.SharedPtr

/-! The counts of `shared_ptr` over whole runs.

Between any two events the count of a buffer is the number of handles to it, also while
destructors are running. An assignment destroys its target before it copies its source, and
only copies what the source referred to if neither is changed in between. -/

namespace SysImpl.Refs

open Holders Runs

variable {H : Type} [DecidableEq H]

namespace State

structure Balanced (s : State H) : Prop where
  idle : ∀ h ∉ s.live, s.target h = none
  alive : ∀ b < s.next, s.runs b = 0 → s.ref b = some (s.count b : Int) ∧ 0 < s.count b
  ended : ∀ b < s.next, s.runs b ≠ 0 → s.runs b = 1 ∧ s.count b = 0
  spent : ∀ b < s.next, s.runs b ≠ 0 → s.ref b = none ∨ s.ref b = some marker
  fresh : ∀ b, s.next ≤ b → s.runs b = 0 ∧ s.count b = 0
  few : ∀ b, s.count b < 2 ^ 31

variable {s s' : State H} {p q h : H} {b : Nat}

theorem count_setTarget_some (member : p ∈ s.live) (idle : s.target p = none) (b c : Nat) :
    (s.setTarget p (some b)).count c = s.count c + if c = b then 1 else 0 :=
  count_grant member idle b c

theorem count_setTarget_none (member : p ∈ s.live) (holds : s.target p = some b) (c : Nat) :
    (s.setTarget p none).count c + (if c = b then 1 else 0) = s.count c :=
  count_revoke member holds c

theorem setTarget_none (idle : s.target p = none) : s.setTarget p none = s := by
  rw [setTarget, ← idle, Function.update_eq_self]

theorem wrap_small {x : Int} (low : -2 ^ 31 ≤ x) (high : x < 2 ^ 31) : wrap x = x := by
  rw [wrap]
  omega

theorem Balanced.counted (balanced : s.Balanced) : s.Counted := by
  refine ⟨?_, ?_, fun b unmade => (balanced.fresh b unmade).1, ?_⟩
  · intro b made ref held positive
    by_cases called : s.runs b = 0
    · rw [(balanced.alive b made called).1] at held
      exact (Option.some.inj held).symm
    · rcases balanced.spent b made called with none | left
      · rw [held] at none
        cases none
      · rw [held] at left
        rw [Option.some.inj left] at positive
        exact absurd positive (by decide)
  · intro b made
    by_cases called : s.runs b = 0
    · rw [called, if_neg (Nat.ne_of_gt (balanced.alive b made called).2)]
    · obtain ⟨once, none⟩ := balanced.ended b made called
      rw [once, if_pos none]
  · intro h b refers
    have member : h ∈ s.live := by
      by_contra gone
      rw [balanced.idle h gone] at refers
      cases refers
    have positive : 0 < s.count b := count_pos member refers
    have made : b < s.next := by
      by_contra unmade
      rw [(balanced.fresh b (Nat.le_of_not_lt unmade)).2] at positive
      exact Nat.lt_irrefl 0 positive
    have uncalled : s.runs b = 0 := by
      by_contra called
      rw [(balanced.ended b made called).2] at positive
      exact Nat.lt_irrefl 0 positive
    refine ⟨made, uncalled, ?_⟩
    rw [(balanced.alive b made uncalled).1]
    exact Option.some_ne_none _

omit [DecidableEq H] in
/-- What the invariant says depends on the counts only. -/
theorem Balanced.congr (balanced : s.Balanced) (idle : ∀ h ∉ s'.live, s'.target h = none)
    (next : s'.next = s.next) (ref : s'.ref = s.ref) (runs : s'.runs = s.runs)
    (count : ∀ b, s'.count b = s.count b) : s'.Balanced where
  idle := idle
  alive := by rw [next, ref, runs]; simpa only [count] using balanced.alive
  ended := by rw [next, runs]; simpa only [count] using balanced.ended
  spent := by rw [next, ref, runs]; exact balanced.spent
  fresh := by rw [next, runs]; simpa only [count] using balanced.fresh
  few := by simpa only [count] using balanced.few

theorem Balanced.make (balanced : s.Balanced) (new : p ∉ s.live) : (s.make p).Balanced := by
  refine balanced.congr ?_ rfl rfl rfl ?_
  · intro h gone
    exact balanced.idle h fun member => gone (Finset.mem_insert_of_mem member)
  · intro b
    exact count_insert (balanced.idle p new) b

theorem Balanced.erase (balanced : s.Balanced) (idle : s.target p = none) :
    ({ s with live := s.live.erase p } : State H).Balanced := by
  refine balanced.congr ?_ rfl rfl rfl ?_
  · intro h gone
    by_cases here : h = p
    · rw [here]
      exact idle
    · exact balanced.idle h fun member => gone (Finset.mem_erase.mpr ⟨here, member⟩)
  · intro b
    exact count_erase idle b

omit [DecidableEq H] in
theorem Balanced.restack (balanced : s.Balanced) (stack : List (Frame H)) :
    ({ s with stack := stack } : State H).Balanced :=
  balanced.congr balanced.idle rfl rfl rfl fun _ => rfl

theorem Balanced.idle_set (balanced : s.Balanced) (member : p ∈ s.live) (buffer : Option Nat) :
    ∀ h ∉ s.live, (s.setTarget p buffer).target h = none := by
  intro h gone
  have away : h ≠ p := fun here => gone (by rw [here]; exact member)
  exact (Function.update_of_ne away _ _).trans (balanced.idle h gone)

theorem Balanced.move (balanced : s.Balanced) (member : p ∈ s.live) (idle : s.target p = none)
    (source : q ∈ s.live) (apart : p ≠ q) :
    ((s.setTarget p (s.target q)).setTarget q none).Balanced := by
  cases refers : s.target q with
  | none =>
      rw [setTarget_none idle, setTarget_none refers]
      exact balanced
  | some b =>
      have held : (s.setTarget p (some b)).target q = some b :=
        (Function.update_of_ne apart.symm _ _).trans refers
      have source' : q ∈ (s.setTarget p (some b)).live := source
      refine balanced.congr ?_ rfl rfl rfl ?_
      · intro h gone
        have other : h ≠ q := fun here => gone (by rw [here]; exact source)
        exact (Function.update_of_ne other _ _).trans
          (balanced.idle_set member (some b) h gone)
      · intro c
        have given := count_setTarget_some member idle b c
        have left := count_setTarget_none source' held c
        omega

inductive Tracked (s : State H) (b : Nat) : Prop where
  | alive (made : b < s.next) (uncalled : s.runs b = 0) (ref : s.ref b = some (s.count b : Int))
      (positive : 0 < s.count b) (few : s.count b < 2 ^ 31)
  | ended (made : b < s.next) (called : s.runs b = 1) (none : s.count b = 0)
      (spent : s.ref b = Option.none ∨ s.ref b = some marker)
  | fresh (unmade : s.next ≤ b) (uncalled : s.runs b = 0) (none : s.count b = 0)

omit [DecidableEq H] in
theorem Balanced.tracked (balanced : s.Balanced) (b : Nat) : s.Tracked b := by
  by_cases made : b < s.next
  · by_cases called : s.runs b = 0
    · obtain ⟨ref, positive⟩ := balanced.alive b made called
      exact Tracked.alive made called ref positive (balanced.few b)
    · obtain ⟨once, none⟩ := balanced.ended b made called
      exact Tracked.ended made once none (balanced.spent b made called)
  · have unmade := Nat.le_of_not_lt made
    obtain ⟨uncalled, none⟩ := balanced.fresh b unmade
    exact Tracked.fresh unmade uncalled none

omit [DecidableEq H] in
theorem Balanced.of_tracked (idle : ∀ h ∉ s.live, s.target h = none)
    (tracked : ∀ b, s.Tracked b) : s.Balanced := by
  refine ⟨idle, ?_, ?_, ?_, ?_, ?_⟩
  · intro b made uncalled
    cases tracked b with
    | alive _ _ ref positive _ => exact ⟨ref, positive⟩
    | ended _ called _ _ => omega
    | fresh unmade _ _ => omega
  · intro b made called
    cases tracked b with
    | alive _ uncalled _ _ _ => exact absurd uncalled called
    | ended _ once none _ => exact ⟨once, none⟩
    | fresh _ uncalled _ => exact absurd uncalled called
  · intro b made called
    cases tracked b with
    | alive _ uncalled _ _ _ => exact absurd uncalled called
    | ended _ _ _ spent => exact spent
    | fresh _ uncalled _ => exact absurd uncalled called
  · intro b unmade
    cases tracked b with
    | alive made _ _ _ _ => omega
    | ended made _ _ _ => omega
    | fresh _ uncalled none => exact ⟨uncalled, none⟩
  · intro b
    cases tracked b with
    | alive _ _ _ _ few => exact few
    | ended _ _ none _ => omega
    | fresh _ _ none => omega

omit [DecidableEq H] in
theorem Balanced.change (balanced : s.Balanced) (idle : ∀ h ∉ s'.live, s'.target h = none)
    (b : Nat) (here : s'.Tracked b) (made : ∀ c ≠ b, c < s'.next ↔ c < s.next)
    (ref : ∀ c ≠ b, s'.ref c = s.ref c) (runs : ∀ c ≠ b, s'.runs c = s.runs c)
    (count : ∀ c ≠ b, s'.count c = s.count c) : s'.Balanced := by
  apply Balanced.of_tracked idle
  intro c
  by_cases same : c = b
  · rw [same]
    exact here
  · have next := made c same
    have counts := count c same
    cases balanced.tracked c with
    | alive made uncalled held positive few =>
        refine Tracked.alive (next.mpr made) ((runs c same).trans uncalled) ?_ ?_ ?_
        · rw [ref c same, held, counts]
        · omega
        · omega
    | ended made called none spent =>
        refine Tracked.ended (next.mpr made) ((runs c same).trans called) (counts.trans none) ?_
        rw [ref c same]
        exact spent
    | fresh unmade uncalled none =>
        exact Tracked.fresh (by omega) ((runs c same).trans uncalled) (counts.trans none)

theorem Balanced.grant (balanced : s.Balanced) (member : p ∈ s.live) (idle : s.target p = none)
    (made : b < s.next) (uncalled : s.runs b = 0) (few : s.count b + 1 < 2 ^ 31) :
    ((s.setRef b (some (s.count b + 1))).setTarget p (some b)).Balanced := by
  have counts : ∀ c, ((s.setRef b (some (s.count b + 1))).setTarget p (some b)).count c =
      s.count c + if c = b then 1 else 0 := fun c => count_setTarget_some member idle b c
  have one := counts b
  rw [if_pos rfl] at one
  refine balanced.change (balanced.idle_set member (some b)) b
    (Tracked.alive made uncalled ?_ ?_ ?_) (fun _ _ => Iff.rfl)
    (fun c other => Function.update_of_ne other _ _) (fun _ _ => rfl) ?_
  · rw [one]
    exact Function.update_self _ _ _
  · omega
  · omega
  · intro c other
    rw [counts c, if_neg other, Nat.add_zero]

theorem Balanced.revoke (balanced : s.Balanced) (member : p ∈ s.live)
    (holds : s.target p = some b) (more : s.count b ≠ 1) :
    ((s.setTarget p none).setRef b (some (s.count b - 1))).Balanced := by
  obtain ⟨made, uncalled, -⟩ := balanced.counted.valid p b holds
  have positive := (balanced.alive b made uncalled).2
  have few := balanced.few b
  have counts : ∀ c, ((s.setTarget p none).setRef b (some (s.count b - 1))).count c +
      (if c = b then 1 else 0) = s.count c := fun c => count_setTarget_none member holds c
  have one := counts b
  rw [if_pos rfl] at one
  refine balanced.change (balanced.idle_set member none) b
    (Tracked.alive made uncalled ?_ ?_ ?_) (fun _ _ => Iff.rfl)
    (fun c other => Function.update_of_ne other _ _) (fun _ _ => rfl) ?_
  · refine (Function.update_self _ _ _).trans (congrArg some ?_)
    omega
  · omega
  · omega
  · intro c other
    have after := counts c
    rwa [if_neg other, Nat.add_zero] at after

def lastRevoked (s : State H) (p : H) (b : Nat) : State H :=
  { (s.setTarget p none).setRef b (some marker) with
    runs := Function.update s.runs b (s.runs b + 1) }

theorem Balanced.revokeLast (balanced : s.Balanced) (member : p ∈ s.live)
    (holds : s.target p = some b) (last : s.count b = 1) : (s.lastRevoked p b).Balanced := by
  obtain ⟨made, uncalled, -⟩ := balanced.counted.valid p b holds
  have counts : ∀ c, (s.lastRevoked p b).count c + (if c = b then 1 else 0) = s.count c :=
    fun c => count_setTarget_none member holds c
  have one := counts b
  rw [if_pos rfl] at one
  refine balanced.change (balanced.idle_set member none) b
    (Tracked.ended made ?_ ?_ (Or.inr (Function.update_self _ _ _))) (fun _ _ => Iff.rfl)
    (fun c other => Function.update_of_ne other _ _)
    (fun c other => Function.update_of_ne other _ _) ?_
  · refine (Function.update_self _ _ _).trans ?_
    rw [uncalled]
  · omega
  · intro c other
    have after := counts c
    rwa [if_neg other, Nat.add_zero] at after

theorem Balanced.create (balanced : s.Balanced) (member : p ∈ s.live) (idle : s.target p = none) :
    ({ (s.setTarget p (some s.next)).setRef s.next (some 1) with
      next := s.next + 1 } : State H).Balanced := by
  obtain ⟨uncalled, none⟩ := balanced.fresh s.next (Nat.le_refl _)
  have counts : ∀ c, ({ (s.setTarget p (some s.next)).setRef s.next (some 1) with
      next := s.next + 1 } : State H).count c = s.count c + if c = s.next then 1 else 0 :=
    fun c => count_setTarget_some member idle s.next c
  have one := counts s.next
  rw [if_pos rfl, none, Nat.zero_add] at one
  refine balanced.change (balanced.idle_set member (some s.next)) s.next
    (Tracked.alive (Nat.lt_succ_self _) uncalled ?_ ?_ ?_) ?_
    (fun c other => Function.update_of_ne other _ _) (fun _ _ => rfl) ?_
  · rw [one]
    exact Function.update_self _ _ _
  · omega
  · omega
  · intro c other
    simp only
    omega
  · intro c other
    rw [counts c, if_neg other, Nat.add_zero]

omit [DecidableEq H] in
theorem Balanced.delete (balanced : s.Balanced) (called : s.runs b ≠ 0) :
    (s.setRef b none).Balanced := by
  have here : (s.setRef b none).Tracked b := by
    cases balanced.tracked b with
    | alive _ uncalled _ _ _ => exact absurd uncalled called
    | ended made once none _ =>
        exact Tracked.ended made once none (Or.inl (Function.update_self _ _ _))
    | fresh _ uncalled _ => exact absurd uncalled called
  exact balanced.change balanced.idle b here (fun _ _ => Iff.rfl)
    (fun c other => Function.update_of_ne other _ _) (fun _ _ => rfl) (fun _ _ => rfl)

/-- What a handle that is released leaves behind: the handle is null, and a destructor is
called if it was the last one. -/
structure Released (s : State H) (p : H) (called : Option Nat) (after : State H) : Prop where
  balanced : after.Balanced
  target : after.target = Function.update s.target p none
  live : after.live = s.live
  next : after.next = s.next
  stack : after.stack = s.stack
  runs : ∀ b, s.runs b ≠ 0 → after.runs b ≠ 0
  called : ∀ b ∈ called, s.target p = some b ∧ after.runs b ≠ 0

theorem release_spec (balanced : s.Balanced) (member : p ∈ s.live) :
    ∃ called after, s.release p = some (called, after) ∧ s.Released p called after := by
  rw [release]
  cases holds : s.target p with
  | none =>
      refine ⟨none, s, rfl, balanced, ?_, rfl, rfl, rfl, fun _ called => called, ?_⟩
      · rw [← holds, Function.update_eq_self]
      · intro b called
        cases called
  | some b =>
      obtain ⟨made, uncalled, -⟩ := balanced.counted.valid p b holds
      obtain ⟨ref, positive⟩ := balanced.alive b made uncalled
      have few := balanced.few b
      have there : (s.setTarget p none).ref b = some (s.count b : Int) := ref
      have exact : wrap ((s.count b : Int) - 1) = (s.count b : Int) - 1 :=
        wrap_small (by omega) (by omega)
      by_cases last : s.count b = 1
      · have zero : wrap ((s.count b : Int) - 1) = 0 := by rw [exact]; omega
        simp only [decRef, there, Option.map_some, if_pos zero]
        refine ⟨some b, s.lastRevoked p b, rfl, balanced.revokeLast member holds last, rfl, rfl,
          rfl, rfl, ?_, ?_⟩
        · intro c called
          have other : c ≠ b := fun same => called (by rw [same]; exact uncalled)
          have kept : (s.lastRevoked p b).runs c = s.runs c := Function.update_of_ne other _ _
          rw [kept]
          exact called
        · intro c called
          rw [← Option.some.inj called]
          have once : (s.lastRevoked p b).runs b = s.runs b + 1 := Function.update_self _ _ _
          rw [once]
          exact ⟨holds, Nat.succ_ne_zero _⟩
      · have some : wrap ((s.count b : Int) - 1) ≠ 0 := by rw [exact]; omega
        simp only [decRef, there, Option.map_some, if_neg some]
        rw [exact]
        refine ⟨none, _, rfl, balanced.revoke member holds last, rfl, rfl, rfl, rfl,
          fun _ called => called, ?_⟩
        intro c called
        cases called

/-- The assignments that wait for destructors still find their handles as they were. -/
structure Waiting (s : State H) : Prop where
  called : ∀ frame ∈ s.stack, s.runs frame.buffer ≠ 0
  ready : ∀ frame ∈ s.stack, ∀ assignment ∈ frame.resume,
    assignment.source ∈ s.live ∧ s.target assignment.source = assignment.before ∧
      assignment.target ∈ s.live ∧ s.target assignment.target = none
  apart : s.stack.Pairwise fun above below => ∀ first ∈ above.resume, ∀ second ∈ below.resume,
    first.target ≠ second.target ∧ first.target ≠ second.source

structure Sound (s : State H) : Prop where
  balanced : s.Balanced
  waiting : s.Waiting

omit [DecidableEq H] in
theorem Waiting.congr (waiting : s.Waiting) (stack : s'.stack = s.stack)
    (runs : ∀ b, s.runs b ≠ 0 → s'.runs b ≠ 0)
    (kept : ∀ h, s.Busy h → s'.target h = s.target h ∧ (h ∈ s.live → h ∈ s'.live)) :
    s'.Waiting := by
  refine ⟨?_, ?_, by rw [stack]; exact waiting.apart⟩
  · intro frame member
    rw [stack] at member
    exact runs _ (waiting.called frame member)
  · intro frame member assignment resumes
    rw [stack] at member
    obtain ⟨source, before, target, null⟩ := waiting.ready frame member assignment resumes
    obtain ⟨same, stays⟩ := kept assignment.source
      ⟨frame, member, assignment, resumes, Or.inr rfl⟩
    obtain ⟨same', stays'⟩ := kept assignment.target
      ⟨frame, member, assignment, resumes, Or.inl rfl⟩
    exact ⟨stays source, same.trans before, stays' target, same'.trans null⟩

/-- A copy that can be made now: its source is what it was, and its target is null. -/
structure Ready (s : State H) (assignment : Assignment H) : Prop where
  source : assignment.source ∈ s.live
  before : s.target assignment.source = assignment.before
  target : assignment.target ∈ s.live
  null : s.target assignment.target = none
  apart : ¬ s.Busy assignment.target

omit [DecidableEq H] in
theorem ne_of_busy (idle : ¬ s.Busy p) (busy : s.Busy h) : h ≠ p :=
  fun here => idle (by rw [← here]; exact busy)

omit [DecidableEq H] in
theorem Waiting.push (waiting : s.Waiting) {frame : Frame H} (called : s.runs frame.buffer ≠ 0)
    (ready : ∀ assignment ∈ frame.resume, s.Ready assignment) :
    ({ s with stack := frame :: s.stack } : State H).Waiting := by
  refine ⟨?_, ?_, ?_⟩
  · intro other inside
    rcases List.mem_cons.mp inside with rfl | below
    · exact called
    · exact waiting.called other below
  · intro other inside assignment resumes
    rcases List.mem_cons.mp inside with rfl | below
    · obtain ⟨source, before, target, null, -⟩ := ready assignment resumes
      exact ⟨source, before, target, null⟩
    · exact waiting.ready other below assignment resumes
  · refine List.Pairwise.cons ?_ waiting.apart
    intro other below first follows second resumes
    have apart := (ready first follows).apart
    refine ⟨?_, ?_⟩
    · exact fun same => apart ⟨other, below, second, resumes, Or.inl same⟩
    · exact fun same => apart ⟨other, below, second, resumes, Or.inr same⟩

theorem copy_spec (sound : s.Sound) {assignment : Assignment H} (ready : s.Ready assignment)
    (few : ∀ b, s.target assignment.source = some b → s.count b + 1 < 2 ^ 31) :
    ∃ after, s.copy (some assignment) = some after ∧ after.Sound ∧
      after.target assignment.target = assignment.before := by
  obtain ⟨source, before, target, null, apart⟩ := ready
  rw [copy]
  simp only [if_pos source]
  cases refers : s.target assignment.source with
  | none =>
      rw [construct, setTarget_none null]
      refine ⟨s, rfl, sound, ?_⟩
      rw [null, ← before, refers]
  | some b =>
      obtain ⟨made, uncalled, -⟩ := sound.balanced.counted.valid _ b refers
      obtain ⟨ref, positive⟩ := sound.balanced.alive b made uncalled
      have room := few b refers
      have exact : wrap ((s.count b : Int) + 1) = (s.count b : Int) + 1 :=
        wrap_small (by omega) (by omega)
      have nonneg : ¬ (s.count b : Int) + 1 < 0 := by omega
      have nonzero : ¬ (s.count b : Int) + 1 = 0 := by omega
      simp only [construct, addRef, ref, Option.map_some, exact, if_neg nonneg, if_neg nonzero]
      refine ⟨_, rfl, ⟨sound.balanced.grant target null made uncalled room, ?_⟩, ?_⟩
      · refine sound.waiting.congr rfl (fun _ called => called) ?_
        intro h busy
        exact ⟨Function.update_of_ne (ne_of_busy apart busy) _ _, fun member => member⟩
      · rw [← before, refers]
        exact Function.update_self _ _ _

theorem releaseThen_spec (sound : s.Sound) (member : p ∈ s.live) (idle : ¬ s.Busy p)
    (copy : Option (Assignment H))
    (ready : ∀ assignment ∈ copy, assignment.target = p ∧ assignment.source ∈ s.live ∧
      s.target assignment.source = assignment.before ∧
      (assignment.source = p → s.target p = none)) :
    ∃ after rest, s.releaseThen p copy = some (after, rest) ∧ after.Sound ∧
      after.target = Function.update s.target p none ∧ after.live = s.live ∧
      (∀ h, after.Busy h → s.Busy h ∨
        ∃ assignment ∈ copy, h = assignment.target ∨ h = assignment.source) ∧
      ∀ assignment ∈ rest, assignment ∈ copy ∧ after.Ready assignment := by
  obtain ⟨called, mid, released, balanced, target, live, next, stack, runs, calls⟩ :=
    release_spec sound.balanced member
  have kept : ∀ h, s.Busy h → mid.target h = s.target h ∧ (h ∈ s.live → h ∈ mid.live) := by
    intro h busy
    rw [target, live]
    exact ⟨Function.update_of_ne (ne_of_busy idle busy) _ _, fun member => member⟩
  have waiting : mid.Waiting := sound.waiting.congr stack runs kept
  have before : ∀ h, mid.Busy h → s.Busy h := by
    rintro h ⟨frame, inside, found⟩
    rw [stack] at inside
    exact ⟨frame, inside, found⟩
  have set : ∀ assignment ∈ copy, mid.Ready assignment := by
    intro assignment follows
    obtain ⟨same, source, value, null⟩ := ready assignment follows
    refine ⟨by rw [live]; exact source, ?_, by rw [same, live]; exact member, ?_, ?_⟩
    · rw [target]
      by_cases here : assignment.source = p
      · rw [here, Function.update_self, ← value, here, null here]
      · rw [Function.update_of_ne here]
        exact value
    · rw [target, same, Function.update_self]
    · rw [same]
      exact fun busy => idle (before p busy)
  rw [releaseThen, released]
  cases called with
  | none =>
      exact ⟨mid, copy, rfl, ⟨balanced, waiting⟩, target, live,
        fun h busy => Or.inl (before h busy), fun assignment follows => ⟨follows, set _ follows⟩⟩
  | some b =>
      obtain ⟨-, called⟩ := calls b rfl
      refine ⟨{ mid with stack := ⟨b, copy⟩ :: mid.stack }, none, rfl,
        ⟨balanced.restack _, waiting.push called set⟩, target, live, ?_, ?_⟩
      · rintro h ⟨frame, inside, assignment, resumes, same⟩
        rcases List.mem_cons.mp inside with rfl | below
        · exact Or.inr ⟨assignment, resumes, same⟩
        · exact Or.inl (before h ⟨frame, below, assignment, resumes, same⟩)
      · intro assignment follows
        cases follows

omit [DecidableEq H] in
theorem finish_spec (sound : s.Sound) {frame : Frame H} {rest : List (Frame H)}
    (stack : s.stack = frame :: rest) :
    ({ s.setRef frame.buffer none with stack := rest } : State H).Sound ∧
      ∀ assignment ∈ frame.resume,
        ({ s.setRef frame.buffer none with stack := rest } : State H).Ready assignment := by
  obtain ⟨balanced, called, ready, apart⟩ := sound
  rw [stack] at called ready apart
  obtain ⟨above, below⟩ := List.pairwise_cons.mp apart
  refine ⟨⟨(balanced.delete (called frame List.mem_cons_self)).restack rest, ?_, ?_, below⟩, ?_⟩
  · intro other inside
    exact called other (List.mem_cons_of_mem _ inside)
  · intro other inside
    exact ready other (List.mem_cons_of_mem _ inside)
  · intro assignment resumes
    obtain ⟨source, before, target, null⟩ := ready frame List.mem_cons_self assignment resumes
    refine ⟨source, before, target, null, ?_⟩
    rintro ⟨other, inside, second, follows, same⟩
    obtain ⟨notTarget, notSource⟩ := above other inside assignment resumes second follows
    rcases same with same | same
    · exact notTarget same
    · exact notSource same

theorem Sound.make (sound : s.Sound) (new : p ∉ s.live) : (s.make p).Sound :=
  ⟨sound.balanced.make new, sound.waiting.congr rfl (fun _ called => called)
    fun _ _ => ⟨rfl, fun member => Finset.mem_insert_of_mem member⟩⟩

theorem Sound.create (sound : s.Sound) (new : p ∉ s.live) (idle : ¬ s.Busy p) :
    ({ ((s.make p).setTarget p (some s.next)).setRef s.next (some 1) with
      next := s.next + 1 } : State H).Sound := by
  have made := sound.make new
  have null : (s.make p).target p = none := sound.balanced.idle p new
  refine ⟨made.balanced.create (Finset.mem_insert_self p _) null, ?_⟩
  refine made.waiting.congr rfl (fun _ called => called) ?_
  intro h busy
  have busy : s.Busy h := busy
  exact ⟨Function.update_of_ne (ne_of_busy idle busy) _ _, fun member => member⟩

theorem Sound.move (sound : s.Sound) (new : p ∉ s.live) (source : q ∈ s.live)
    (idle : ¬ s.Busy p) (kept : ¬ s.Busy q) :
    (((s.make p).setTarget p (s.target q)).setTarget q none).Sound := by
  have made := sound.make new
  have null : (s.make p).target p = none := sound.balanced.idle p new
  have apart : p ≠ q := fun same => new (by rw [same]; exact source)
  refine ⟨made.balanced.move (Finset.mem_insert_self p _) null
    (Finset.mem_insert_of_mem source) apart, ?_⟩
  refine made.waiting.congr rfl (fun _ called => called) ?_
  intro h busy
  have busy : s.Busy h := busy
  have other : h ≠ p := ne_of_busy idle busy
  have away : h ≠ q := ne_of_busy kept busy
  exact ⟨(Function.update_of_ne away _ _).trans (Function.update_of_ne other _ _),
    fun member => member⟩

theorem Sound.erase (sound : s.Sound) (null : s.target p = none) (idle : ¬ s.Busy p) :
    ({ s with live := s.live.erase p } : State H).Sound := by
  refine ⟨sound.balanced.erase null, sound.waiting.congr rfl (fun _ called => called) ?_⟩
  intro h busy
  exact ⟨rfl, fun member => Finset.mem_erase.mpr ⟨ne_of_busy idle busy, member⟩⟩

theorem start_spec (sound : s.Sound) {event : Event H} (allowed : s.Allowed event)
    (clean : s.Clean event) :
    ∃ mid copy, s.start event = some (mid, copy) ∧ mid.Sound ∧
      ∀ assignment ∈ copy, mid.Ready assignment := by
  have noCopy : ∀ mid : State H, ∀ assignment ∈ (none : Option (Assignment H)),
      mid.Ready assignment := by
    intro mid assignment follows
    cases follows
  have noneSet : ∀ {p : H}, ∀ assignment ∈ (none : Option (Assignment H)),
      assignment.target = p ∧ assignment.source ∈ s.live ∧
        s.target assignment.source = assignment.before ∧
          (assignment.source = p → s.target p = none) := by
    intro p assignment follows
    cases follows
  cases event with
  | create p =>
      exact ⟨_, none, rfl, sound.create allowed (clean.apart p List.mem_cons_self), noCopy _⟩
  | constructNull p =>
      have idle : (s.make p).target p = none := sound.balanced.idle p allowed
      refine ⟨_, none, rfl, ?_, noCopy _⟩
      rw [setTarget_none idle]
      exact sound.make allowed
  | copyConstruct p q =>
      obtain ⟨new, source⟩ := allowed
      refine ⟨_, _, rfl, sound.make new, ?_⟩
      intro assignment follows
      rw [← Option.some.inj follows]
      exact ⟨Finset.mem_insert_of_mem source, rfl, Finset.mem_insert_self p _,
        sound.balanced.idle p new, clean.apart p List.mem_cons_self⟩
  | moveConstruct p q =>
      obtain ⟨new, source⟩ := allowed
      have idle : ¬ s.Busy p := clean.apart p List.mem_cons_self
      have kept : ¬ s.Busy q := clean.apart q (List.mem_cons_of_mem _ List.mem_cons_self)
      exact ⟨_, none, rfl, sound.move new source idle kept, noCopy _⟩
  | copyAssign p q =>
      obtain ⟨target, source⟩ := allowed
      have set : ∀ assignment ∈ some (⟨p, q, s.target q⟩ : Assignment H),
          assignment.target = p ∧ assignment.source ∈ s.live ∧
            s.target assignment.source = assignment.before ∧
              (assignment.source = p → s.target p = none) := by
        intro assignment follows
        rw [← Option.some.inj follows]
        refine ⟨rfl, source, rfl, ?_⟩
        intro same
        have same : q = p := same
        exact clean.distinct p (by rw [same])
      obtain ⟨mid, rest, released, kept, -, -, -, ready⟩ :=
        releaseThen_spec sound target (clean.apart p List.mem_cons_self) _ set
      exact ⟨mid, rest, released, kept, fun assignment follows => (ready assignment follows).2⟩
  | assignNull p =>
      obtain ⟨mid, rest, released, kept, -, -, -, ready⟩ :=
        releaseThen_spec sound allowed (clean.apart p List.mem_cons_self) none noneSet
      exact ⟨mid, rest, released, kept, fun assignment follows => (ready assignment follows).2⟩
  | destroy p =>
      have idle : ¬ s.Busy p := clean.apart p List.mem_cons_self
      obtain ⟨mid, rest, released, kept, target, -, busy, ready⟩ :=
        releaseThen_spec sound allowed idle none noneSet
      have null : mid.target p = none := by rw [target, Function.update_self]
      have later : ¬ mid.Busy p := by
        intro waits
        rcases busy p waits with before | ⟨assignment, follows, -⟩
        · exact idle before
        · cases follows
      refine ⟨{ mid with live := mid.live.erase p }, rest, ?_, kept.erase null later, ?_⟩
      · rw [start, released]
        rfl
      · intro assignment follows
        cases (ready assignment follows).1
  | finish =>
      cases stack : s.stack with
      | nil => exact absurd stack allowed
      | cons frame rest =>
          obtain ⟨kept, ready⟩ := finish_spec sound stack
          refine ⟨_, _, ?_, kept, ready⟩
          rw [start, stack]

/-- A clean operation that is allowed is carried out and keeps the counts right. -/
theorem step_spec (sound : s.Sound) {event : Event H} (allowed : s.Allowed event)
    (clean : s.Clean event) (few : s.Few event) :
    ∃ after, s.step event = some after ∧ after.Sound ∧ s.Assigns event after := by
  obtain ⟨mid, pending, started, kept, ready⟩ := start_spec sound allowed clean
  rw [step, if_pos allowed, started, Option.bind_some]
  cases pending with
  | none =>
      refine ⟨mid, rfl, kept, ?_⟩
      intro other assignment copies
      rw [started] at copies
      cases copies
  | some assignment =>
      obtain ⟨after, copied, final, assigned⟩ := copy_spec kept (ready assignment rfl)
        fun b refers => few mid assignment b started refers
      refine ⟨after, copied, final, ?_⟩
      intro other second copies
      rw [started] at copies
      cases copies
      exact assigned

theorem step_allowed {event : Event H} (taken : s.step event = some s') : s.Allowed event := by
  by_contra refused
  rw [step, if_neg refused] at taken
  cases taken

/-- A handle that is assigned to itself is released before it is copied. -/
theorem selfAssign_null (sound : s.Sound) (stepped : s.step (.copyAssign p p) = some s') :
    s'.target p = none := by
  have allowed := step_allowed stepped
  obtain ⟨called, mid, released, -, target, live, -⟩ := release_spec sound.balanced allowed.1
  have null : mid.target p = none := by rw [target, Function.update_self]
  rw [step, if_pos allowed, start, releaseThen, released] at stepped
  cases called with
  | none =>
      have copied : mid.copy (some ⟨p, p, s.target p⟩) = some (mid.setTarget p none) := by
        rw [copy]
        simp only [live, if_pos allowed.2, null, construct]
      have same := copied.symm.trans stepped
      rw [← Option.some.inj same]
      exact Function.update_self _ _ _
  | some b =>
      rw [← Option.some.inj stepped]
      exact null

omit [DecidableEq H] in
theorem initial_sound : (initial : State H).Sound where
  balanced := by
    have none : ∀ b, (initial : State H).count b = 0 := fun b =>
      count_eq_zero fun h member => absurd member (Finset.notMem_empty h)
    refine ⟨fun _ _ => rfl, ?_, ?_, ?_, fun b _ => ⟨rfl, none b⟩, ?_⟩
    · intro b below
      exact absurd below (Nat.not_lt_zero b)
    · intro b below
      exact absurd below (Nat.not_lt_zero b)
    · intro b below
      exact absurd below (Nat.not_lt_zero b)
    · intro b
      rw [none b]
      decide
  waiting := by
    refine ⟨?_, ?_, List.Pairwise.nil⟩
    · intro frame member
      cases member
    · intro frame member
      cases member

end State

open State

/-- The counts of `shared_ptr` over every run in which no handle is assigned to itself, unless
it is null, and no destructor sets the handles of an assignment that has called it. In every
state reached the counts and the destructors are right, every further operation is carried
out, and each assignment leaves its target at what its source referred to. A handle that is
assigned to itself is null in any case. -/
theorem references_counted {events : List (Event H)} {last : State H}
    (run : Run CleanStep State.initial events last) :
    last.Counted ∧
      (∀ event, last.Allowed event → last.Clean event → last.Few event →
        ∃ after, last.step event = some after ∧ after.Counted ∧ last.Assigns event after) ∧
      ∀ p after, last.step (.copyAssign p p) = some after → after.target p = none := by
  have sound : last.Sound := by
    apply run.invariant State.Sound initial_sound
    intro mid event next _ sound taken
    obtain ⟨clean, few, stepped⟩ := taken
    obtain ⟨after, carried, kept, -⟩ := step_spec sound (step_allowed stepped) clean few
    rw [stepped] at carried
    rw [Option.some.inj carried]
    exact kept
  refine ⟨sound.balanced.counted, ?_, ?_⟩
  · intro event allowed clean few
    obtain ⟨after, carried, kept, assigned⟩ := step_spec sound allowed clean few
    exact ⟨after, carried, kept.balanced.counted, assigned⟩
  · intro p after stepped
    exact selfAssign_null sound stepped

def single : State Nat :=
  { ((initial.make 0).setTarget 0 (some 0)).setRef 0 (some 1) with next := 1 }

def pair : State Nat :=
  { ((single.make 1).setTarget 1 (some 1)).setRef 1 (some 1) with next := 2 }

def parting : State Nat := { pair.lastRevoked 1 1 with stack := [⟨1, some ⟨1, 0, some 0⟩⟩] }

def shared : State Nat :=
  (({ parting.setRef 1 none with stack := [] } : State Nat).setRef 0 (some 2)).setTarget 1 (some 0)

theorem references_counted_shared :
    shared.count 0 = 2 ∧ shared.runs 1 = 1 ∧ shared.Counted ∧ parting.Assigns .finish shared := by
  have clean_idle {s : State Nat} {event : Event Nat} (idle : s.stack = [])
      (distinct : ∀ p, event ≠ .copyAssign p p) : s.Clean event := by
    refine ⟨fun p same => absurd same (distinct p), ?_⟩
    rintro h _ ⟨frame, member, _⟩
    rw [idle] at member
    cases member
  have first : CleanStep (initial : State Nat) (.create 0) single := by
    refine ⟨clean_idle rfl (fun p same => by cases same), ?_, rfl⟩
    intro mid assignment b started
    cases started
  have second : CleanStep single (.create 1) pair := by
    refine ⟨clean_idle rfl (fun p same => by cases same), ?_, rfl⟩
    intro mid assignment b started
    cases started
  have assign : CleanStep pair (.copyAssign 1 0) parting := by
    refine ⟨clean_idle rfl (fun p same => by cases same), ?_, rfl⟩
    intro mid assignment b started
    cases started
  have few : parting.Few .finish := by
    intro mid assignment b started refers
    cases started
    have here : some 0 = some b := refers
    rw [← Option.some.inj here]
    decide
  have clean : parting.Clean .finish := by
    refine ⟨fun p same => (by cases same), ?_⟩
    intro h member
    cases member
  obtain ⟨-, next, -⟩ :=
    references_counted (Run.cons first (Run.cons second (Run.cons assign (Run.nil _))))
  obtain ⟨after, stepped, counted, assigned⟩ := next .finish (by decide) clean few
  have reached : parting.step .finish = some shared := rfl
  rw [reached] at stepped
  rw [← Option.some.inj stepped] at counted assigned
  exact ⟨by decide, by decide, counted, assigned⟩

def dying : State Nat := { single.lastRevoked 0 0 with stack := [⟨0, some ⟨0, 0, some 0⟩⟩] }

def dead : State Nat := ({ dying.setRef 0 none with stack := [] } : State Nat).setTarget 0 none

/-- The only handle to an object is assigned to itself: the object is destroyed, and the handle
is null when its destructor has returned. -/
theorem self_assignment_loses :
    ¬ ∀ (events : List (Event Nat)) (last : State Nat) (event : Event Nat) (after : State Nat),
      Run AnyStep State.initial events last → AnyStep last event after →
        last.Counted ∧ last.Assigns event after := by
  intro claim
  have create : AnyStep (initial : State Nat) (.create 0) single := by
    refine ⟨?_, rfl⟩
    intro mid assignment b started
    cases started
  have assign : AnyStep single (.copyAssign 0 0) dying := by
    refine ⟨?_, rfl⟩
    intro mid assignment b started
    cases started
  have finish : AnyStep dying .finish dead := by
    refine ⟨?_, rfl⟩
    intro mid assignment b started refers
    cases started
    cases refers
  have assigned := (claim _ dying .finish dead
    (Run.cons create (Run.cons assign (Run.nil _))) finish).2 _ ⟨0, 0, some 0⟩ rfl
  cases assigned

end SysImpl.Refs
