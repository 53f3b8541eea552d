import SysImpl.Lib.Runs
import Mathlib.Logic.Function.Iterate

/-! The two threads of `thread.c`.

They count in turns: each waits for its own semaphore, adds one to the counter, prints it and
signals the other's semaphore. Here the threads act on two counts of waits and signals;
what the kernel makes of these is in `ThreadRuns`. -/

namespace SysImpl.User

inductive Side where
  | first
  | second
  deriving DecidableEq, Repr

def Side.other : Side → Side
  | .first => .second
  | .second => .first

def Side.id : Side → Nat
  | .first => 1
  | .second => 2

def Side.units : Side → Nat
  | .first => 1
  | .second => 0

/-- Where a thread is in `A`. `counter++` is a load and a store, and a value is in a register
between the two. -/
inductive Place where
  /-- `running` in the head of the loop. -/
  | check
  /-- `read(info->sem1, NULL, 1)`. -/
  | wait
  /-- `counter++`. -/
  | load
  | store (register : Nat)
  /-- `if (counter >= 100) running = 0;` -/
  | test
  | stop
  /-- `printf("%d: %d\n", info->id, counter)`: the load of the counter and the write. -/
  | look
  | print (value : Nat)
  /-- `write(info->sem2, NULL, 1)`. -/
  | signal
  /-- `exit(0)`. -/
  | leave
  | gone
  deriving DecidableEq, Repr

/-- The variables of the program, the places of the threads and the lines that have been
printed, each with the number of the thread. -/
structure Vars where
  counter : Nat
  running : Bool
  place : Side → Place
  printed : List (Nat × Nat)

def Vars.goTo (v : Vars) (side : Side) (place : Place) : Vars :=
  { v with place := Function.update v.place side place }

def Vars.printLine (v : Vars) (side : Side) (value : Nat) : Vars :=
  { v with printed := v.printed ++ [(side.id, value)] }.goTo side .signal

def Vars.work (side : Side) (v : Vars) : Vars :=
  match v.place side with
  | .check => v.goTo side (if v.running then .wait else .leave)
  | .load => v.goTo side (.store v.counter)
  | .store register => { v with counter := register + 1 }.goTo side .test
  | .test => v.goTo side (if 100 ≤ v.counter then .stop else .look)
  | .stop => { v with running := false }.goTo side .look
  | .look => v.goTo side (.print v.counter)
  | _ => v

/-- The variables with the waits that have been issued on the semaphore of each thread and the
signals it has got. -/
structure Turns extends Vars where
  issued : Side → Nat
  signals : Side → Nat

def Turns.Waits (v : Turns) (side : Side) : Prop := side.units + v.signals side < v.issued side

def Turns.issue (v : Turns) (side : Side) : Turns :=
  ⟨v.goTo side .load, Function.update v.issued side (v.issued side + 1), v.signals⟩

def Turns.handOver (v : Turns) (side : Side) : Turns :=
  ⟨v.goTo side .check, v.issued,
    Function.update v.signals side.other (v.signals side.other + 1)⟩

inductive Turns.Act : Turns → Side → Turns → Prop
  | work (v : Turns) (side : Side) : Act v side ⟨v.toVars.work side, v.issued, v.signals⟩
  | wait {v : Turns} {side : Side} (here : v.place side = .wait) :
      Act v side (v.issue side)
  | print {v : Turns} {side : Side} {value : Nat} (here : v.place side = .print value) :
      Act v side ⟨v.toVars.printLine side value, v.issued, v.signals⟩
  | signal {v : Turns} {side : Side} (here : v.place side = .signal) :
      Act v side (v.handOver side)
  | leave {v : Turns} {side : Side} (here : v.place side = .leave) :
      Act v side ⟨v.goTo side .gone, v.issued, v.signals⟩

/-- Only a thread that does not wait acts. -/
def Turns.Step (v : Turns) (side : Side) (v' : Turns) : Prop := ¬ v.Waits side ∧ v.Act side v'

def Turns.start : Turns where
  counter := 0
  running := true
  place := fun _ => .check
  printed := []
  issued := fun _ => 0
  signals := fun _ => 0

def Place.held : Place → Nat
  | .load | .store _ | .test | .stop | .look | .print _ | .signal => 1
  | _ => 0

def Place.stored : Place → Nat
  | .test | .stop | .look | .print _ | .signal => 1
  | _ => 0

def Place.ended : Place → Bool
  | .leave | .gone => true
  | _ => false

def Place.tested : Place → Bool
  | .look | .print _ | .signal => true
  | _ => false

/-- The threads that take turns: the first has had as many as the second, or one more. -/
def line (n : Nat) : Nat × Nat := (n % 2 + 1, n + 1)

def lines (n : Nat) : List (Nat × Nat) := (List.range n).map line

def Turns.rounds (v : Turns) : Nat := v.signals .first + v.signals .second

/-- What holds whatever the order of the steps. -/
structure Turns.Good (v : Turns) : Prop where
  issues : ∀ side, v.issued side = v.signals side.other + (v.place side).held
  waits : ∀ side, v.Waits side →
    v.place side = .load ∧ v.issued side = side.units + v.signals side + 1
  counts : v.counter = v.rounds + (v.place .first).stored + (v.place .second).stored
  loaded : ∀ side register, v.place side = .store register → register = v.counter
  shown : ∀ side value, v.place side = .print value → value = v.counter
  prints : v.printed = lines (v.rounds + (if v.place .first = .signal then 1 else 0) +
    (if v.place .second = .signal then 1 else 0))
  going : v.running = true → v.rounds ≤ 99 ∧ ∀ side, (v.place side).ended = false ∧
    ((v.place side).tested = true → v.rounds ≤ 98) ∧ (v.place side = .stop → v.rounds = 99)
  ending : v.running = false →
    v.rounds = 99 ∧ (v.place .second).tested = true ∨
    v.rounds = 100 ∧ (v.place .second = .check ∨ (v.place .second).ended = true) ∨
    v.rounds = 101 ∧ ∀ side, v.place side = .check ∨ (v.place side).ended = true

variable {v v' : Turns} {side : Side} {target : Place}

theorem Side.other_ne (side : Side) : side.other ≠ side := by
  cases side <;> decide

theorem Side.cases_of (side other : Side) : other = side ∨ other = side.other := by
  cases side <;> cases other <;> decide

theorem Side.sum (f : Side → Nat) (side : Side) :
    f .first + f .second = f side + f side.other := by
  cases side with
  | first => rfl
  | second => exact Nat.add_comm _ _

@[simp] theorem goTo_self (v : Vars) (side : Side) (target : Place) :
    (v.goTo side target).place side = target :=
  Function.update_self _ _ _

@[simp] theorem goTo_other (v : Vars) (side : Side) (target : Place) :
    (v.goTo side target).place side.other = v.place side.other :=
  Function.update_of_ne side.other_ne _ _

theorem Place.held_le (place : Place) : place.stored ≤ place.held ∧ place.held ≤ 1 := by
  cases place <;> simp [Place.stored, Place.held]

theorem Place.tested_stored {place : Place} (tested : place.tested = true) : place.stored = 1 := by
  cases place <;> first | rfl | cases tested

theorem Turns.Good.order (good : v.Good) :
    v.signals .first ≤ v.signals .second ∧ v.signals .second ≤ v.signals .first + 1 := by
  have bound : ∀ side, v.signals side.other ≤ side.units + v.signals side := by
    intro side
    have issues := good.issues side
    by_cases waits : v.Waits side
    · obtain ⟨place, issued⟩ := good.waits side waits
      rw [place] at issues
      simp only [Place.held] at issues
      omega
    · rw [Turns.Waits] at waits
      omega
  have first := bound .first
  have second := bound .second
  simp only [Side.other, Side.units] at first second
  omega

theorem Turns.Good.alone (good : v.Good) (ready : ¬ v.Waits side)
    (held : (v.place side).held = 1) :
    v.rounds = 2 * v.signals .first + side.id - 1 ∧
      ((v.place side.other).held = 0 ∨ v.place side.other = .load) := by
  have issues := good.issues side
  have others := good.issues side.other
  have order := good.order
  have waits := good.waits side.other
  have few := (v.place side.other).held_le
  rw [Turns.Waits] at ready waits
  rw [held] at issues
  have turn : v.rounds = 2 * v.signals .first + side.id - 1 := by
    cases side with
    | first =>
        simp only [Turns.rounds, Side.other, Side.units, Side.id] at *
        omega
    | second =>
        simp only [Turns.rounds, Side.other, Side.units, Side.id] at *
        omega
  refine ⟨turn, ?_⟩
  by_cases waiting : side.other.units + v.signals side.other < v.issued side.other
  · exact Or.inr (waits waiting).1
  · refine Or.inl ?_
    cases side with
    | first =>
        simp only [Side.other, Side.units] at *
        omega
    | second =>
        simp only [Side.other, Side.units] at *
        omega

theorem Place.aside {place : Place} (aside : place.held = 0 ∨ place = .load) :
    place.stored = 0 ∧ place ≠ .signal ∧ ∀ register, place ≠ .store register := by
  rcases aside with out | rfl
  · refine ⟨Nat.le_zero.mp (out ▸ place.held_le.1), ?_, fun register => ?_⟩
    · rintro rfl
      cases out
    · rintro rfl
      cases out
  · exact ⟨rfl, by decide, by simp⟩

theorem sum_goTo (v : Vars) (side : Side) (target : Place) (f : Place → Nat) :
    f ((v.goTo side target).place .first) + f ((v.goTo side target).place .second) =
      f target + f (v.place side.other) := by
  rw [Side.sum (fun side' => f ((v.goTo side target).place side')) side, goTo_self, goTo_other]

theorem Place.ended_held {place : Place} (ended : place.ended = true) :
    place.held = 0 ∧ place.stored = 0 ∧ place.tested = false := by
  cases place <;> simp_all [Place.ended, Place.held, Place.stored, Place.tested]

theorem Turns.Good.others (good : v.Good) (ready : ¬ v.Waits side)
    (held : (v.place side).held = 1) :
    (v.place side.other).stored = 0 ∧ v.place side.other ≠ .signal ∧
      ∀ register, v.place side.other ≠ .store register :=
  Place.aside (good.alone ready held).2

theorem Turns.Good.counter_eq (good : v.Good) (ready : ¬ v.Waits side)
    (held : (v.place side).held = 1) : v.counter = v.rounds + (v.place side).stored := by
  have counts := good.counts
  rwa [Nat.add_assoc, Side.sum (fun side => (v.place side).stored) side,
    (good.others ready held).1] at counts

theorem Turns.Good.printed_eq (good : v.Good) (ready : ¬ v.Waits side)
    (held : (v.place side).held = 1) :
    v.printed = lines (v.rounds + if v.place side = .signal then 1 else 0) := by
  have prints := good.prints
  rwa [Nat.add_assoc, Side.sum (fun side => if v.place side = .signal then 1 else 0) side,
    if_neg (good.others ready held).2.1] at prints

theorem Turns.Good.turn (good : v.Good) (ready : ¬ v.Waits side)
    (held : (v.place side).held = 1) (stays : target.held = 1) {counter : Nat} {running : Bool}
    {printed : List (Nat × Nat)} (counts : counter = v.rounds + target.stored)
    (loaded : ∀ register, target = .store register → register = counter)
    (shown : ∀ value, target = .print value → value = counter)
    (prints : printed = lines (v.rounds + if target = .signal then 1 else 0))
    (going : running = true → v.running = true ∧ (target.tested = true → v.rounds ≤ 98) ∧
      (target = .stop → v.rounds = 99))
    (ending : running = false → v.running = false ∧
      ((v.place side).tested = true → target.tested = true) ∨
        v.rounds = 99 ∧ target.tested = true) :
    Turns.Good ⟨Vars.goTo ⟨counter, running, v.place, printed⟩ side target, v.issued,
      v.signals⟩ := by
  obtain ⟨stored, notSignal, notStore⟩ := good.others ready held
  have early : ∀ side', v.place side' = .check ∨ (v.place side').ended = true → side' ≠ side := by
    rintro side' (check | ended) rfl
    · rw [check] at held
      cases held
    · rw [(Place.ended_held ended).1] at held
      cases held
  have alive : target.ended = false := by
    by_contra ended
    rw [(Place.ended_held (Bool.not_eq_false _ ▸ ended)).1] at stays
    cases stays
  refine ⟨fun other => ?_, fun other waits => ?_, ?_, fun other register here => ?_,
    fun other value here => ?_, ?_, fun runs => ?_, fun stopped => ?_⟩
  · rcases Side.cases_of side other with rfl | rfl
    · rw [goTo_self, stays, ← held]
      exact good.issues _
    · rw [goTo_other]
      exact good.issues _
  · rcases Side.cases_of side other with rfl | rfl
    · exact absurd waits ready
    · rw [goTo_other]
      exact good.waits _ waits
  · rw [Nat.add_assoc, sum_goTo _ side target Place.stored, stored]
    exact counts
  · rcases Side.cases_of side other with rfl | rfl
    · rw [goTo_self] at here
      exact loaded register here
    · rw [goTo_other] at here
      exact absurd here (notStore register)
  · rcases Side.cases_of side other with rfl | rfl
    · rw [goTo_self] at here
      exact shown value here
    · rw [goTo_other] at here
      rw [here] at stored
      cases stored
  · rw [Nat.add_assoc, sum_goTo _ side target fun place => if place = .signal then 1 else 0,
      if_neg notSignal]
    exact prints
  · obtain ⟨before, tested, stops⟩ := going runs
    refine ⟨(good.going before).1, fun other => ?_⟩
    rcases Side.cases_of side other with rfl | rfl
    · rw [goTo_self]
      exact ⟨alive, tested, stops⟩
    · rw [goTo_other]
      exact (good.going before).2 _
  · rcases ending stopped with ⟨before, tested⟩ | ⟨rounds, tested⟩
    · rcases good.ending before with ⟨rounds, last⟩ | ⟨rounds, last⟩ | ⟨rounds, last⟩
      · refine Or.inl ⟨rounds, ?_⟩
        rcases Side.cases_of side .second with same | same
        · rw [same] at last ⊢
          rw [goTo_self]
          exact tested last
        · rw [same] at last
          rw [Place.tested_stored last] at stored
          cases stored
      · refine Or.inr (Or.inl ⟨rounds, ?_⟩)
        have other := (Side.cases_of side .second).resolve_left (early _ last)
        rw [other] at last ⊢
        rwa [goTo_other]
      · exact absurd rfl (early side (last side))
    · refine Or.inl ⟨rounds, ?_⟩
      have turn := (good.alone ready held).1
      have same : side = .second := by
        cases side with
        | first =>
            simp only [Turns.rounds, Side.id] at rounds turn
            omega
        | second => rfl
      subst same
      rwa [goTo_self]

theorem Turns.Good.idle (good : v.Good) (ready : ¬ v.Waits side)
    (here : v.place side = .check ∨ v.place side = .leave)
    (decided : if v.running then target = .wait else target.ended = true) :
    Turns.Good ⟨v.goTo side target, v.issued, v.signals⟩ := by
  have before : (v.place side).held = 0 ∧ (v.place side).stored = 0 ∧ v.place side ≠ .signal ∧
      (v.place side).tested = false := by
    rcases here with here | here <;> rw [here] <;> decide
  have untested := before.2.2.2
  have after : target.held = 0 ∧ target.stored = 0 ∧ target.tested = false := by
    by_cases runs : v.running = true
    · rw [if_pos runs] at decided
      rw [decided]
      decide
    · rw [if_neg runs] at decided
      exact Place.ended_held decided
  have counts := good.counts
  have prints := good.prints
  rw [Nat.add_assoc, Side.sum (fun side => (v.place side).stored) side, before.2.1] at counts
  rw [Nat.add_assoc, Side.sum (fun side => if v.place side = .signal then 1 else 0) side,
    if_neg before.2.2.1] at prints
  have unstored : ∀ place : Place, place.stored = 1 ∨ place.held = 1 → target ≠ place := by
    rintro place has rfl
    rw [after.1, after.2.1] at has
    simp at has
  refine ⟨fun other => ?_, fun other waits => ?_, ?_, fun other register found => ?_,
    fun other value found => ?_, ?_, fun runs => ⟨(good.going runs).1, fun other => ?_⟩,
    fun stopped => ?_⟩
  · rcases Side.cases_of side other with rfl | rfl
    · rw [goTo_self, after.1, ← before.1]
      exact good.issues _
    · rw [goTo_other]
      exact good.issues _
  · rcases Side.cases_of side other with rfl | rfl
    · exact absurd waits ready
    · rw [goTo_other]
      exact good.waits _ waits
  · rw [Nat.add_assoc, sum_goTo _ side target Place.stored, after.2.1]
    exact counts
  · rcases Side.cases_of side other with rfl | rfl
    · rw [goTo_self] at found
      exact absurd found (unstored _ (Or.inr rfl))
    · rw [goTo_other] at found
      exact good.loaded _ register found
  · rcases Side.cases_of side other with rfl | rfl
    · rw [goTo_self] at found
      exact absurd found (unstored _ (Or.inr rfl))
    · rw [goTo_other] at found
      exact good.shown _ value found
  · rw [Nat.add_assoc, sum_goTo _ side target fun place => if place = .signal then 1 else 0,
      if_neg (unstored _ (Or.inr rfl))]
    exact prints
  · rcases Side.cases_of side other with rfl | rfl
    · have still : v.running = true := runs
      rw [if_pos still] at decided
      rw [goTo_self, decided]
      exact ⟨rfl, (nomatch ·), (nomatch ·)⟩
    · rw [goTo_other]
      exact (good.going runs).2 _
  · have before : v.running = false := stopped
    rw [if_neg (by rw [before]; decide)] at decided
    have still : ∀ other, v.place other = .check ∨ (v.place other).ended = true →
        (v.goTo side target).place other = .check ∨
          ((v.goTo side target).place other).ended = true := by
      intro other early
      rcases Side.cases_of side other with rfl | rfl
      · rw [goTo_self]
        exact Or.inr decided
      · rwa [goTo_other]
    rcases good.ending before with ⟨rounds, last⟩ | ⟨rounds, last⟩ | ⟨rounds, last⟩
    · refine Or.inl ⟨rounds, ?_⟩
      rcases Side.cases_of side .second with same | same
      · rw [same, untested] at last
        cases last
      · rw [same] at last ⊢
        rwa [goTo_other]
    · exact Or.inr (Or.inl ⟨rounds, still _ last⟩)
    · exact Or.inr (Or.inr ⟨rounds, fun other => still _ (last other)⟩)

@[simp] theorem issue_issued (v : Turns) (side : Side) :
    (v.issue side).issued side = v.issued side + 1 := Function.update_self _ _ _

@[simp] theorem issue_issued_other (v : Turns) (side : Side) :
    (v.issue side).issued side.other = v.issued side.other :=
  Function.update_of_ne side.other_ne _ _

@[simp] theorem handOver_signals (v : Turns) (side : Side) :
    (v.handOver side).signals side.other = v.signals side.other + 1 := Function.update_self _ _ _

@[simp] theorem handOver_signals_self (v : Turns) (side : Side) :
    (v.handOver side).signals side = v.signals side :=
  Function.update_of_ne side.other_ne.symm _ _

theorem handOver_rounds (v : Turns) (side : Side) : (v.handOver side).rounds = v.rounds + 1 := by
  rw [Turns.rounds, Turns.rounds, Side.sum _ side, Side.sum v.signals side, handOver_signals,
    handOver_signals_self, Nat.add_assoc]

theorem Turns.Good.issue (good : v.Good) (ready : ¬ v.Waits side)
    (here : v.place side = .wait) : (v.issue side).Good := by
  have counts := good.counts
  have prints := good.prints
  have issues := good.issues side
  rw [Nat.add_assoc, Side.sum (fun side => (v.place side).stored) side, here] at counts
  rw [Nat.add_assoc, Side.sum (fun side => if v.place side = .signal then 1 else 0) side, here]
    at prints
  rw [here] at issues
  have self : (v.issue side).place side = .load := goTo_self _ _ _
  have others : (v.issue side).place side.other = v.place side.other := goTo_other _ _ _
  refine ⟨fun other => ?_, fun other waits => ?_, ?_, fun other register found => ?_,
    fun other value found => ?_, ?_, fun runs => ⟨(good.going runs).1, fun other => ?_⟩,
    fun stopped => ?_⟩
  · rcases Side.cases_of side other with rfl | rfl
    · rw [self, issue_issued, issues]
      rfl
    · rw [others, issue_issued_other]
      exact good.issues _
  · rcases Side.cases_of side other with rfl | rfl
    · rw [Turns.Waits, issue_issued] at waits
      have none : v.issued other ≤ other.units + v.signals other := Nat.le_of_not_lt ready
      have more : other.units + v.signals other < v.issued other + 1 := waits
      refine ⟨self, ?_⟩
      rw [issue_issued, Nat.le_antisymm none (Nat.le_of_lt_succ more)]
      rfl
    · rw [others, issue_issued_other]
      rw [Turns.Waits, issue_issued_other] at waits
      exact good.waits _ waits
  · rw [Nat.add_assoc]
    exact counts.trans (congrArg _ (sum_goTo _ side .load Place.stored).symm)
  · rcases Side.cases_of side other with rfl | rfl
    · rw [self] at found
      cases found
    · rw [others] at found
      exact good.loaded _ register found
  · rcases Side.cases_of side other with rfl | rfl
    · rw [self] at found
      cases found
    · rw [others] at found
      exact good.shown _ value found
  · rw [Nat.add_assoc]
    exact prints.trans (congrArg (fun n => lines (v.rounds + n))
      (sum_goTo _ side .load fun place => if place = .signal then 1 else 0).symm)
  · rcases Side.cases_of side other with rfl | rfl
    · rw [self]
      exact ⟨rfl, (nomatch ·), (nomatch ·)⟩
    · rw [others]
      exact (good.going runs).2 _
  · have kept : ∀ late, (v.place late).tested = true ∨ v.place late = .check ∨
        (v.place late).ended = true → (v.issue side).place late = v.place late := by
      intro late state
      rcases Side.cases_of side late with rfl | rfl
      · rw [here] at state
        simp [Place.tested, Place.ended] at state
      · exact others
    rcases good.ending stopped with ⟨rounds, last⟩ | ⟨rounds, last⟩ | ⟨rounds, last⟩
    · exact Or.inl ⟨rounds, by rwa [kept _ (Or.inl last)]⟩
    · exact Or.inr (Or.inl ⟨rounds, by rwa [kept _ (Or.inr last)]⟩)
    · refine Or.inr (Or.inr ⟨rounds, fun other => ?_⟩)
      rw [kept _ (Or.inr (last other))]
      exact last other

theorem Turns.Good.handOver (good : v.Good) (ready : ¬ v.Waits side)
    (here : v.place side = .signal) : (v.handOver side).Good := by
  have held : (v.place side).held = 1 := by rw [here]; rfl
  obtain ⟨stored, notSignal, notStore⟩ := good.others ready held
  have counts := good.counter_eq ready held
  have prints := good.printed_eq ready held
  have issues := good.issues side
  have twice : side.other.other = side := by cases side <;> rfl
  rw [here] at counts prints issues
  have self : (v.handOver side).place side = .check := goTo_self _ _ _
  have others : (v.handOver side).place side.other = v.place side.other := goTo_other _ _ _
  have rounds := handOver_rounds v side
  refine ⟨fun other => ?_, fun other waits => ?_, ?_, fun other register found => ?_,
    fun other value found => ?_, ?_, fun runs => ?_, fun stopped => ?_⟩
  · rcases Side.cases_of side other with rfl | rfl
    · rw [self, handOver_signals]
      exact issues
    · have before := good.issues side.other
      rw [twice] at before
      rw [others, twice, handOver_signals_self]
      exact before
  · rcases Side.cases_of side other with rfl | rfl
    · rw [Turns.Waits, handOver_signals_self] at waits
      exact absurd waits ready
    · rw [Turns.Waits, handOver_signals] at waits
      have more : side.other.units + (v.signals side.other + 1) < v.issued side.other := waits
      have before := (good.waits side.other (by rw [Turns.Waits]; omega)).2
      omega
  · rw [Nat.add_assoc, rounds]
    refine counts.trans ?_
    have sum := sum_goTo v.toVars side .check Place.stored
    rw [stored] at sum
    exact congrArg (v.rounds + 1 + ·) sum.symm
  · rcases Side.cases_of side other with rfl | rfl
    · rw [self] at found
      cases found
    · rw [others] at found
      exact absurd found (notStore register)
  · rcases Side.cases_of side other with rfl | rfl
    · rw [self] at found
      cases found
    · rw [others] at found
      rw [found] at stored
      cases stored
  · rw [Nat.add_assoc, rounds]
    have sum := sum_goTo v.toVars side .check fun place => if place = .signal then 1 else 0
    rw [if_neg notSignal] at sum
    exact prints.trans (congrArg (fun n => lines (v.rounds + 1 + n)) sum.symm)
  · obtain ⟨bound, places⟩ := good.going runs
    have few := (places side).2.1 (by rw [here]; rfl)
    refine ⟨by omega, fun other => ?_⟩
    rcases Side.cases_of side other with rfl | rfl
    · rw [self]
      exact ⟨rfl, (nomatch ·), (nomatch ·)⟩
    · rw [others]
      refine ⟨(places _).1, fun tested => ?_, fun stop => ?_⟩
      · rw [Place.tested_stored tested] at stored
        cases stored
      · rw [stop] at stored
        cases stored
  · rcases good.ending stopped with ⟨now, last⟩ | ⟨now, last⟩ | ⟨now, last⟩
    · refine Or.inr (Or.inl ⟨by omega, Or.inl ?_⟩)
      rcases Side.cases_of side .second with same | same
      · rw [same]
        exact self
      · rw [same] at last
        rw [Place.tested_stored last] at stored
        cases stored
    · refine Or.inr (Or.inr ⟨by omega, fun other => ?_⟩)
      rcases Side.cases_of side other with rfl | rfl
      · exact Or.inl self
      · rw [others]
        rcases Side.cases_of side .second with same | same
        · rw [same, here] at last
          simp [Place.ended] at last
        · rwa [← same]
    · have early := last side
      rw [here] at early
      simp [Place.ended] at early

theorem Turns.Good.work (good : v.Good) (ready : ¬ v.Waits side) :
    Turns.Good ⟨v.toVars.work side, v.issued, v.signals⟩ := by
  cases here : v.place side with
  | check =>
      simp only [Vars.work, here]
      refine good.idle ready (Or.inl here) ?_
      by_cases runs : v.running = true
      · rw [if_pos runs, if_pos runs]
      · rw [if_neg runs, if_neg runs]
        rfl
  | load =>
      have held : (v.place side).held = 1 := by rw [here]; rfl
      have counts := good.counter_eq ready held
      have prints := good.printed_eq ready held
      rw [here] at counts prints
      simp only [Vars.work, here]
      refine good.turn ready held rfl counts (fun register same => (Place.store.inj same).symm)
        (by simp) prints (fun runs => ⟨runs, by simp [Place.tested], by simp⟩)
        (fun stopped => Or.inl ⟨stopped, fun tested => ?_⟩)
      rw [here] at tested
      cases tested
  | store register =>
      have held : (v.place side).held = 1 := by rw [here]; rfl
      have counts := good.counter_eq ready held
      have prints := good.printed_eq ready held
      have loaded := good.loaded side register here
      rw [here] at counts prints
      simp only [Vars.work, here]
      refine good.turn ready held rfl ?_ (by simp) (by simp) prints
        (fun runs => ⟨runs, by simp [Place.tested], by simp⟩)
        (fun stopped => Or.inl ⟨stopped, fun tested => ?_⟩)
      · rw [loaded, counts]
        rfl
      · rw [here] at tested
        cases tested
  | test =>
      have held : (v.place side).held = 1 := by rw [here]; rfl
      have counts := good.counter_eq ready held
      have prints := good.printed_eq ready held
      rw [here] at counts prints
      have many : v.counter = v.rounds + 1 := counts
      simp only [Vars.work, here]
      by_cases full : 100 ≤ v.counter
      · rw [if_pos full]
        refine good.turn ready held rfl counts (by simp) (by simp) prints
          (fun runs => ⟨runs, by simp [Place.tested], fun _ => ?_⟩)
          (fun stopped => Or.inl ⟨stopped, fun tested => ?_⟩)
        · have bound := (good.going runs).1
          omega
        · rw [here] at tested
          cases tested
      · rw [if_neg full]
        refine good.turn ready held rfl counts (by simp) (by simp) prints
          (fun runs => ⟨runs, fun _ => by omega, by simp⟩)
          (fun stopped => Or.inl ⟨stopped, fun _ => rfl⟩)
  | stop =>
      have held : (v.place side).held = 1 := by rw [here]; rfl
      have counts := good.counter_eq ready held
      have prints := good.printed_eq ready held
      rw [here] at counts prints
      simp only [Vars.work, here]
      refine good.turn ready held rfl counts (by simp) (by simp) prints (fun runs => by cases runs)
        fun _ => ?_
      by_cases runs : v.running = true
      · exact Or.inr ⟨((good.going runs).2 side).2.2 here, rfl⟩
      · exact Or.inl ⟨Bool.not_eq_true _ ▸ runs, fun _ => rfl⟩
  | look =>
      have held : (v.place side).held = 1 := by rw [here]; rfl
      have counts := good.counter_eq ready held
      have prints := good.printed_eq ready held
      rw [here] at counts prints
      simp only [Vars.work, here]
      refine good.turn ready held rfl counts (by simp)
        (fun value same => (Place.print.inj same).symm) prints
        (fun runs => ⟨runs, fun _ => ?_, by simp⟩)
        (fun stopped => Or.inl ⟨stopped, fun _ => rfl⟩)
      exact ((good.going runs).2 side).2.1 (by rw [here]; rfl)
  | _ =>
      simp only [Vars.work, here]
      exact good

theorem line_of_turn (good : v.Good) (ready : ¬ v.Waits side)
    (held : (v.place side).held = 1) : line v.rounds = (side.id, v.rounds + 1) := by
  have turn := (good.alone ready held).1
  refine Prod.ext ?_ rfl
  cases side with
  | first =>
      simp only [Side.id, line] at turn ⊢
      omega
  | second =>
      simp only [Side.id, line] at turn ⊢
      omega

theorem Turns.Good.printLine (good : v.Good) (ready : ¬ v.Waits side) {value : Nat}
    (here : v.place side = .print value) :
    Turns.Good ⟨v.toVars.printLine side value, v.issued, v.signals⟩ := by
  have held : (v.place side).held = 1 := by rw [here]; rfl
  have counts := good.counter_eq ready held
  have prints := good.printed_eq ready held
  have shown := good.shown side value here
  have next := line_of_turn good ready held
  rw [here] at counts prints
  have many : v.counter = v.rounds + 1 := counts
  refine good.turn ready held rfl counts (by simp) (by simp) ?_
    (fun runs => ⟨runs, fun _ => ?_, by simp⟩)
    (fun stopped => Or.inl ⟨stopped, fun _ => rfl⟩)
  · have more : lines (v.rounds + 1) = lines v.rounds ++ [line v.rounds] := by
      rw [lines, List.range_succ, List.map_append]
      rfl
    rw [shown, many, prints, if_pos rfl, more, next]
    rfl
  · exact ((good.going runs).2 side).2.1 (by rw [here]; rfl)

/-- Every step keeps what holds. -/
theorem Turns.Good.step (good : v.Good) (taken : v.Step side v') : v'.Good := by
  obtain ⟨ready, act⟩ := taken
  cases act with
  | work => exact good.work ready
  | wait here => exact good.issue ready here
  | print here => exact good.printLine ready here
  | signal here => exact good.handOver ready here
  | leave here =>
      refine good.idle ready (Or.inr here) ?_
      have stopped : ¬ v.running = true := by
        intro runs
        have alive := ((good.going runs).2 side).1
        rw [here] at alive
        cases alive
      rw [if_neg stopped]
      rfl

theorem Turns.start_good : Turns.start.Good := by
  refine ⟨fun side => by cases side <;> rfl, fun side waits => ?_, rfl, fun side register here => ?_,
    fun side value here => ?_, rfl, fun _ => ⟨Nat.zero_le _, fun side => ⟨rfl, ?_, ?_⟩⟩, ?_⟩
  · exact absurd waits (Nat.not_lt_zero _)
  · cases here
  · cases here
  · exact (nomatch ·)
  · exact (nomatch ·)
  · exact (nomatch ·)

theorem Turns.Good.rounds_le (good : v.Good) : v.rounds ≤ 101 := by
  by_cases runs : v.running = true
  · have bound := (good.going runs).1
    omega
  · have ended := good.ending (Bool.not_eq_true _ ▸ runs)
    omega

theorem Turns.Good.works (good : v.Good) (ready : ¬ v.Waits side) (instructions : Nat) :
    Turns.Good ⟨(Vars.work side)^[instructions] v.toVars, v.issued, v.signals⟩ := by
  induction instructions with
  | zero => exact good
  | succ count ih =>
      rw [Function.iterate_succ_apply']
      exact @Turns.Good.work ⟨(Vars.work side)^[count] v.toVars, v.issued, v.signals⟩ side ih ready

theorem Turns.Good.excludes (good : v.Good) (ready : ¬ v.Waits side)
    (held : (v.place side).held = 1) (other : ¬ v.Waits side.other) :
    (v.place side.other).held = 0 := by
  rcases (good.alone ready held).2 with out | load
  · exact out
  · by_contra inside
    have both := (v.place side.other).held_le
    have turn := (good.alone ready held).1
    have turn' := (@Turns.Good.alone v side.other good other (by rw [load]; rfl)).1
    cases side with
    | first =>
        simp only [Side.other, Side.id] at turn turn'
        omega
    | second =>
        simp only [Side.other, Side.id] at turn turn'
        omega

theorem Place.ended_signal {place : Place} (early : place = .check ∨ place.ended = true) :
    place ≠ .signal := by
  rintro rfl
  simp [Place.ended] at early

theorem Turns.Good.printed_lines (good : v.Good) :
    v.printed = lines v.printed.length ∧ v.printed.length ≤ 101 := by
  have length : ∀ n, (lines n).length = n := fun n => by
    rw [lines, List.length_map, List.length_range]
  have prints := good.prints
  refine ⟨by rw [prints, length], ?_⟩
  rw [prints, length]
  have few : ∀ side, (if v.place side = .signal then 1 else 0) ≤ 1 := by
    intro side
    split
    · exact Nat.le_refl 1
    · exact Nat.zero_le 1
  have first := few .first
  have second := few .second
  by_cases runs : v.running = true
  · have bound := (good.going runs).1
    omega
  · rcases good.ending (Bool.not_eq_true _ ▸ runs) with ⟨rounds, -⟩ | ⟨rounds, last⟩ | ⟨rounds, last⟩
    · omega
    · rw [if_neg (Place.ended_signal last)]
      omega
    · rw [if_neg (Place.ended_signal (last .first)), if_neg (Place.ended_signal (last .second))]
      omega

theorem Turns.Good.awaited (good : v.Good) (waits : v.Waits side) :
    ¬ v.Waits side.other ∧ (v.place side.other).ended = false := by
  obtain ⟨place, issued⟩ := good.waits side waits
  have issues := good.issues side
  rw [place] at issues
  have behind : v.signals side.other = side.units + v.signals side := by
    have one : Place.load.held = 1 := rfl
    omega
  refine ⟨fun both => ?_, ?_⟩
  · obtain ⟨place', issued'⟩ := good.waits side.other both
    have issues' := good.issues side.other
    rw [place'] at issues'
    have one : Place.load.held = 1 := rfl
    cases side with
    | first =>
        simp only [Side.other, Side.units] at *
        omega
    | second =>
        simp only [Side.other, Side.units] at *
        omega
  · by_cases runs : v.running = true
    · exact ((good.going runs).2 side.other).1
    · rcases good.ending (Bool.not_eq_true _ ▸ runs) with
        ⟨rounds, last⟩ | ⟨rounds, last⟩ | ⟨rounds, last⟩
      · cases side with
        | first =>
            by_contra ended
            have early := (Place.ended_held (Bool.not_eq_false _ ▸ ended)).2.2
            rw [Side.other, last] at early
            cases early
        | second =>
            simp only [Turns.rounds, Side.other, Side.units] at *
            omega
      · cases side with
        | first =>
            simp only [Turns.rounds, Side.other, Side.units] at *
            omega
        | second =>
            rw [place] at last
            simp [Place.ended] at last
      · have early := last side
        rw [place] at early
        simp [Place.ended] at early

theorem Turns.Good.finished (good : v.Good) (ended : ∀ side, (v.place side).ended = true) :
    v.printed.length = 100 ∨ v.printed.length = 101 := by
  have stopped : ¬ v.running = true := by
    intro runs
    have alive := ((good.going runs).2 .first).1
    rw [ended] at alive
    cases alive
  have prints := congrArg List.length good.prints
  rw [if_neg (Place.ended_signal (Or.inr (ended .first))),
    if_neg (Place.ended_signal (Or.inr (ended .second))), lines, List.length_map,
    List.length_range] at prints
  rcases good.ending (Bool.not_eq_true _ ▸ stopped) with ⟨-, last⟩ | ⟨rounds, -⟩ | ⟨rounds, -⟩
  · rw [(Place.ended_held (ended .second)).2.2] at last
    cases last
  · exact Or.inl (by omega)
  · exact Or.inr (by omega)

end SysImpl.User
