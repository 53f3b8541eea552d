import SysImpl.Kernel.SemaphoreCalls
import SysImpl.User.Turns

/-! The program `thread.c` on the kernel.

The main process starts the two threads, the timer may make a process yield between any two
instructions, and the other processes do what they want with everything but the two
semaphores. Whatever the interleaving, the threads take turns. -/

namespace SysImpl.User

open Kernel Runs

/-- The program when its two semaphores have been made: the main process, what it holds, and
where the semaphores are. -/
structure Program where
  main : ProcPtr
  objects : Fd → Option Object
  fd : Side → Fd
  slot : Side → Slot
  serial : Side → Nat
  bound : ∀ side, objects (fd side) = some (.device (slot side))
  stdout : ∀ side, objects 1 ≠ some (.device (slot side))
  apart : slot .first ≠ slot .second

structure Program.Ready (prog : Program) (s : State) : Prop where
  main : s.toTables.Has prog.main prog.objects
  semaphore : ∀ side, s.toTables.SemaphoreIn (prog.slot side) (prog.serial side)
  created : ∀ side, .created (prog.serial side) side.units ∈ s.log
  unused : ∀ side, issuedOn (prog.serial side) s.log = [] ∧
    signalsOn (prog.serial side) s.log = 0

/-- The kernel, the threads as far as they have been started, and the variables they share. -/
structure Scene where
  kernel : State
  who : Side → Option ProcPtr
  vars : Vars

def Scene.start (s : State) : Scene := ⟨s, fun _ => none, Turns.start.toVars⟩

def Current (s : State) (p : ProcPtr) : Prop :=
  s.currentProcess = p.pid ∧ ∃ proc, s.processList p.pid = some proc ∧ proc.serial = p.serial

def Calls (trap : Trap) (callsys : Callsys) (ebx edx : Nat) : Prop :=
  callsysOf trap.regs.eax = some callsys ∧ trap.regs.ebx = ebx ∧ trap.regs.edx = edx

/-- The trap of a thread: the timer makes it yield, or it is at a system call. -/
inductive Asks (prog : Program) (trap : Trap) (side : Side) : Vars → Vars → Prop
  | yield {v : Vars} (call : callsysOf trap.regs.eax = some .schedYield) :
      Asks prog trap side v v
  | wait {v : Vars} (here : v.place side = .wait) (call : Calls trap .read (prog.fd side) 1) :
      Asks prog trap side v (v.goTo side .load)
  | print {v : Vars} {value size : Nat} (here : v.place side = .print value)
      (call : Calls trap .write 1 size) : Asks prog trap side v (v.printLine side value)
  | signal {v : Vars} (here : v.place side = .signal)
      (call : Calls trap .write (prog.fd side.other) 1) : Asks prog trap side v (v.goTo side .check)
  | leave {v : Vars} (here : v.place side = .leave)
      (call : callsysOf trap.regs.eax = some .exit) : Asks prog trap side v (v.goTo side .gone)

def Leaves (prog : Program) (s : State) (trap : Trap) : Prop :=
  ∀ proc, s.processList s.currentProcess = some proc → ∀ side,
    waitsOn s.toTables proc trap ≠ some (prog.serial side) ∧
      signalsTo s.toTables proc trap ≠ some (prog.serial side)

/-- What happens up to a trap and in it, apart from what the kernel does. -/
inductive Moves (prog : Program) (sc : Scene) (trap : Trap) : (Side → Option ProcPtr) → Vars → Prop
  | thread {side : Side} {p : ProcPtr} {v : Vars} (started : sc.who side = some p)
      (runs : Current sc.kernel p) (instructions : Nat)
      (asks : Asks prog trap side ((Vars.work side)^[instructions] sc.vars) v) :
      Moves prog sc trap sc.who v
  | start {side : Side} {child : Pid} (runs : Current sc.kernel prog.main)
      (next : sc.who side = none) (order : side = .second → sc.who .first ≠ none)
      (call : callsysOf trap.regs.eax = some .thread)
      (free : sc.kernel.toTables.freeSlot = some child) :
      Moves prog sc trap (Function.update sc.who side (some ⟨child, sc.kernel.nextSerial⟩)) sc.vars
  | pause (runs : Current sc.kernel prog.main) (call : callsysOf trap.regs.eax = some .schedYield) :
      Moves prog sc trap sc.who sc.vars
  | others (started : Current sc.kernel prog.main → sc.who .second ≠ none)
      (apart : ∀ side p, sc.who side = some p → ¬ Current sc.kernel p)
      (leaves : Leaves prog sc.kernel trap) : Moves prog sc trap sc.who sc.vars

def Scene.Step (fs : FileSystem) (place : Placement) (prog : Program) (sc : Scene) (trap : Trap)
    (sc' : Scene) : Prop :=
  realSyscallHandler fs place sc.kernel trap = .ok sc'.kernel ∧
    Moves prog sc trap sc'.who sc'.vars

def Scene.Waiting (prog : Program) (sc : Scene) (side : Side) : Prop :=
  sc.vars.place side = .load ∧
    ∃ req ∈ sc.kernel.toTables.pendingAt (prog.slot side), sc.who side = some req.proc

def Scene.Inside (prog : Program) (sc : Scene) (side : Side) : Prop :=
  (sc.vars.place side).held = 1 ∧ ¬ sc.Waiting prog side

/-- The scene as the threads see it: waits and signals are counted in the log. -/
def Scene.turns (prog : Program) (sc : Scene) : Turns where
  toVars := sc.vars
  issued side := (issuedOn (prog.serial side) sc.kernel.log).length
  signals side := signalsOn (prog.serial side) sc.kernel.log

def Scene.Holder (prog : Program) (sc : Scene) (p : ProcPtr) : Prop :=
  p = prog.main ∧ sc.who .second = none ∨
    ∃ side, sc.who side = some p ∧ sc.vars.place side ≠ .gone

structure Scene.Linked (prog : Program) (sc : Scene) : Prop where
  inv : Inv sc.kernel
  balanced : Balanced sc.kernel.toTables
  good : (sc.turns prog).Good
  names : ∀ side, ∀ wait ∈ issuedOn (prog.serial side) sc.kernel.log,
    ∃ p, sc.who side = some p ∧ wait = (p, 1)
  created : ∀ side, .created (prog.serial side) side.units ∈ sc.kernel.log
  holds : ∀ p, sc.Holder prog p → sc.kernel.toTables.Has p prog.objects ∧
    ∀ side, sc.kernel.toTables.SemaphoreIn (prog.slot side) (prog.serial side)
  apart : ∀ side : Side, prog.serial side.other ≠ prog.serial side
  born : prog.main.serial < sc.kernel.nextSerial ∧
    ∀ side p, sc.who side = some p → p.serial < sc.kernel.nextSerial ∧ p ≠ prog.main
  distinct : ∀ side p, sc.who side = some p → sc.who side.other ≠ some p
  order : sc.who .first = none → sc.who .second = none
  unborn : ∀ side, sc.who side = none → sc.vars.place side = .check

variable {fs : FileSystem} {place : Placement} {prog : Program} {sc sc' : Scene} {trap : Trap}
  {side : Side} {p : ProcPtr}

theorem Scene.Linked.inRange (linked : sc.Linked prog) (side : Side) :
    InRange (prog.serial side) side.units sc.kernel.log := by
  have rounds := linked.good.rounds_le
  refine ⟨Int.natCast_nonneg _, fun wait member => ?_, fun earlier member => ?_⟩
  · obtain ⟨p, -, rfl⟩ := linked.names side wait member
    exact Nat.one_pos
  · have fewer : signalsOn (prog.serial side) earlier ≤
        signalsOn (prog.serial side) sc.kernel.log :=
      ((List.mem_tails _ _).mp member).sublist.count_le _
    have units : side.units ≤ 1 := by cases side <;> decide
    have sum : (sc.turns prog).signals side ≤ (sc.turns prog).rounds := by
      rw [Turns.rounds, Side.sum _ side]
      exact Nat.le_add_right _ _
    have same : (sc.turns prog).signals side = signalsOn (prog.serial side) sc.kernel.log := rfl
    rw [balance]
    omega

theorem Scene.Linked.started (linked : sc.Linked prog) (here : sc.vars.place side = .load) :
    ∃ p, sc.who side = some p ∧ sc.Holder prog p := by
  cases who : sc.who side with
  | none =>
      have idle := linked.unborn side who
      rw [here] at idle
      cases idle
  | some p => exact ⟨p, rfl, Or.inr ⟨side, who, by rw [here]; simp⟩⟩

/-- The queue of a semaphore is empty as long as nobody has issued more waits than it had
units. -/
theorem Scene.Linked.queue (linked : sc.Linked prog) {p : ProcPtr} (holder : sc.Holder prog p)
    (side : Side) :
    (sc.kernel.toTables.pendingAt (prog.slot side) ≠ [] ↔ (sc.turns prog).Waits side) ∧
      ∀ req ∈ sc.kernel.toTables.pendingAt (prog.slot side), sc.who side = some req.proc := by
  obtain ⟨device, found, serial, semaphore⟩ := (linked.holds p holder).2 side
  have created := linked.created side
  have range := linked.inRange side
  rw [← serial] at created range
  rw [pendingAt_of_some found]
  refine ⟨?_, fun req member => ?_⟩
  · rw [linked.balanced.pending_iff found semaphore created range, serial]
    rfl
  · have issued := linked.balanced.pending_issued found semaphore created range member
    rw [serial] at issued
    obtain ⟨q, who, same⟩ := linked.names side _ issued
    rw [who, (Prod.mk.inj same).1]

/-- A thread waits for its turn if and only if its process is in the queue. -/
theorem Scene.Linked.waits_iff (linked : sc.Linked prog) (side : Side) :
    (sc.turns prog).Waits side ↔ sc.Waiting prog side := by
  constructor
  · intro waits
    have here : sc.vars.place side = .load := (linked.good.waits side waits).1
    obtain ⟨p, who, holder⟩ := linked.started here
    obtain ⟨queue, names⟩ := linked.queue holder side
    obtain ⟨req, member⟩ := List.exists_mem_of_ne_nil _ (queue.mpr waits)
    exact ⟨here, req, member, names req member⟩
  · intro ⟨here, req, member, who⟩
    obtain ⟨p, -, holder⟩ := linked.started here
    exact (linked.queue holder side).1.mp (List.ne_nil_of_mem member)

theorem Scene.Linked.ready (linked : sc.Linked prog) (who : sc.who side = some p)
    (current : Current sc.kernel p) : ¬ (sc.turns prog).Waits side := by
  intro waits
  obtain ⟨-, req, member, same⟩ := (linked.waits_iff side).mp waits
  rw [who, Option.some.injEq] at same
  obtain ⟨proc, awake⟩ := linked.inv.running
  refine linked.inv.queues.awake_not_queued awake _ req member ?_
  rw [← same, current.1]

theorem Current.eq {q : ProcPtr} {s : State} (left : Current s p) (right : Current s q) : p = q := by
  obtain ⟨own, proc, found, serial⟩ := left
  obtain ⟨own', proc', found', serial'⟩ := right
  have same : p.pid = q.pid := own.symm.trans own'
  rw [same, found', Option.some.injEq] at found
  subst found
  exact ProcPtr.ext_of same (serial.symm.trans serial')

theorem current_of_has {objects : Fd → Option Object} {s : State} (has : s.toTables.Has p objects)
    (own : s.currentProcess = p.pid) : Current s p := by
  obtain ⟨proc, found, serial, -⟩ := viewAt_eq_some.mp has
  exact ⟨own, proc, found, serial⟩

theorem Scene.Linked.holder (linked : sc.Linked prog) (who : sc.who side = some p)
    (alive : sc.vars.place side ≠ .gone) :
    sc.kernel.toTables.Has p prog.objects ∧
      ∀ side, sc.kernel.toTables.SemaphoreIn (prog.slot side) (prog.serial side) :=
  linked.holds p (Or.inr ⟨side, who, alive⟩)

section Calls

variable {t : Tables} {proc : Process}

theorem deviceOf_bound {slot : Slot} {device : Device} (fd : Fd)
    (bound : proc.objects fd = some (.device slot)) (found : t.devices slot = some device) :
    deviceOf t proc fd = some device := by
  rw [deviceOf, getObject, dif_pos fd.isLt, bound]
  exact found

theorem deviceOf_named {device : Device} (fd : Fd) (found : deviceOf t proc fd = some device) :
    ∃ slot, proc.objects fd = some (.device slot) ∧ t.devices slot = some device := by
  rw [deviceOf] at found
  split at found
  · next slot got =>
      obtain ⟨inside, bound⟩ := getObject_ok got
      exact ⟨slot, bound, found⟩
  · cases found

theorem silent (t : Tables) (proc : Process) {callsys : Callsys}
    (call : callsysOf trap.regs.eax = some callsys)
    (other : callsys ≠ .read ∧ callsys ≠ .write) :
    waitsOn t proc trap = none ∧ signalsTo t proc trap = none := by
  rw [waitsOn, signalsTo, call]
  exact ⟨if_neg fun same => other.1 (Option.some.inj same),
    if_neg fun same => other.2 (Option.some.inj same)⟩

theorem named_semaphore (objects : proc.objects = prog.objects) (side : Side)
    (holds : t.SemaphoreIn (prog.slot side) (prog.serial side)) :
    (deviceOf t proc (prog.fd side)).map Device.serial = some (prog.serial side) ∧
      ((deviceOf t proc (prog.fd side)).filter Device.isSemaphore).map Device.serial =
        some (prog.serial side) := by
  obtain ⟨device, found, serial, semaphore⟩ := holds
  rw [deviceOf_bound (prog.fd side) (objects ▸ prog.bound side) found, Option.filter_some,
    if_pos semaphore, Option.map_some, serial]
  exact ⟨rfl, rfl⟩

theorem printed_elsewhere (serials : Serials t) (objects : proc.objects = prog.objects) (side : Side)
    (holds : t.SemaphoreIn (prog.slot side) (prog.serial side)) :
    ((deviceOf t proc 1).filter Device.isSemaphore).map Device.serial ≠
      some (prog.serial side) := by
  intro same
  obtain ⟨device, kept, serial⟩ := Option.map_eq_some_iff.mp same
  obtain ⟨slot, bound, found⟩ := deviceOf_named 1 (Option.filter_eq_some_iff.mp kept).1
  obtain ⟨device', found', serial', -⟩ := holds
  have here := serials.distinct _ _ _ _ found found' (serial.trans serial'.symm)
  rw [objects, here] at bound
  exact prog.stdout side bound

end Calls

variable {kernel : State} {who : Side → Option ProcPtr} {vars : Vars} {proc : Process}

theorem turns_quiet (who : Side → Option ProcPtr) (vars : Vars)
    (counts : Counts ⟨sc.kernel.currentProcess, proc.serial⟩ trap.regs.edx
      (waitsOn sc.kernel.toTables proc trap) (signalsTo sc.kernel.toTables proc trap)
      sc.kernel.toTables kernel.toTables)
    (quiet : ∀ side, waitsOn sc.kernel.toTables proc trap ≠ some (prog.serial side) ∧
      signalsTo sc.kernel.toTables proc trap ≠ some (prog.serial side)) :
    Scene.turns prog ⟨kernel, who, vars⟩ =
        ⟨vars, (sc.turns prog).issued, (sc.turns prog).signals⟩ ∧
      ∀ side, issuedOn (prog.serial side) kernel.log =
        issuedOn (prog.serial side) sc.kernel.log := by
  have issued : ∀ side, issuedOn (prog.serial side) kernel.log =
      issuedOn (prog.serial side) sc.kernel.log := by
    intro side
    rw [counts.issued, if_neg (quiet side).1, List.append_nil]
  refine ⟨congrArg₂ (Turns.mk vars) ?_ ?_, issued⟩
  · funext side
    exact congrArg List.length (issued side)
  · funext side
    refine (counts.signals (prog.serial side)).trans ?_
    rw [if_neg (quiet side).2]
    rfl

theorem Scene.Linked.asks (linked : sc.Linked prog) (who : Side → Option ProcPtr) {v : Vars}
    (started : sc.who side = some p)
    (current : Current sc.kernel p) (here : v.place side ≠ .gone → sc.vars.place side ≠ .gone)
    (awake : sc.kernel.toTables.Awake sc.kernel.currentProcess proc)
    (counts : Counts ⟨sc.kernel.currentProcess, proc.serial⟩ trap.regs.edx
      (waitsOn sc.kernel.toTables proc trap) (signalsTo sc.kernel.toTables proc trap)
      sc.kernel.toTables kernel.toTables)
    (asks : Asks prog trap side v vars) :
    (Scene.turns prog ⟨kernel, who, vars⟩ =
        ⟨v, (sc.turns prog).issued, (sc.turns prog).signals⟩ ∨
      Turns.Act ⟨v, (sc.turns prog).issued, (sc.turns prog).signals⟩ side
        (Scene.turns prog ⟨kernel, who, vars⟩)) ∧
    ∀ other, ∀ wait ∈ issuedOn (prog.serial other) kernel.log,
      wait ∈ issuedOn (prog.serial other) sc.kernel.log ∨ other = side ∧ wait = (p, 1) := by
  have table : v.place side ≠ .gone → proc.objects = prog.objects ∧
      ∀ side, sc.kernel.toTables.SemaphoreIn (prog.slot side) (prog.serial side) := by
    intro alive
    obtain ⟨has, semaphores⟩ := linked.holder started (here alive)
    obtain ⟨other, found, -, objects⟩ := viewAt_eq_some.mp has
    rw [← current.1, awake.1, Option.some.injEq] at found
    exact ⟨found ▸ objects, semaphores⟩
  have quietly : ∀ vars : Vars, (∀ side,
      waitsOn sc.kernel.toTables proc trap ≠ some (prog.serial side) ∧
        signalsTo sc.kernel.toTables proc trap ≠ some (prog.serial side)) →
      Scene.turns prog ⟨kernel, who, vars⟩ =
          ⟨vars, (sc.turns prog).issued, (sc.turns prog).signals⟩ ∧
        ∀ other, ∀ wait ∈ issuedOn (prog.serial other) kernel.log,
          wait ∈ issuedOn (prog.serial other) sc.kernel.log ∨ other = side ∧ wait = (p, 1) := by
    intro vars quiet
    obtain ⟨turns, issued⟩ := turns_quiet who vars counts quiet
    exact ⟨turns, fun other wait member => Or.inl (issued other ▸ member)⟩
  cases asks with
  | yield call =>
      have none := silent sc.kernel.toTables proc call (by decide)
      obtain ⟨turns, issued⟩ := quietly vars fun other => by simp [none.1, none.2]
      exact ⟨Or.inl turns, issued⟩
  | leave here call =>
      have none := silent sc.kernel.toTables proc call (by decide)
      obtain ⟨turns, issued⟩ := quietly (v.goTo side .gone) fun other => by
        simp [none.1, none.2]
      rw [turns]
      exact ⟨Or.inr (.leave here), issued⟩
  | @print value size here call =>
      obtain ⟨objects, semaphores⟩ := table (by rw [here]; simp)
      obtain ⟨write, fd, -⟩ := call
      have quiet : ∀ other, waitsOn sc.kernel.toTables proc trap ≠ some (prog.serial other) ∧
          signalsTo sc.kernel.toTables proc trap ≠ some (prog.serial other) := by
        intro other
        rw [waitsOn, signalsTo, write, if_neg (by decide), if_pos rfl, fd]
        refine ⟨by simp, ?_⟩
        exact printed_elsewhere linked.balanced.serials objects other (semaphores other)
      obtain ⟨turns, issued⟩ := quietly (v.printLine side value) quiet
      rw [turns]
      exact ⟨Or.inr (.print here), issued⟩
  | wait here call =>
      obtain ⟨objects, semaphores⟩ := table (by rw [here]; simp)
      obtain ⟨read, fd, size⟩ := call
      have waits : waitsOn sc.kernel.toTables proc trap = some (prog.serial side) := by
        rw [waitsOn, read, if_pos rfl, fd]
        exact (named_semaphore objects side (semaphores side)).1
      have signals : signalsTo sc.kernel.toTables proc trap = none := by
        rw [signalsTo, read, if_neg (by decide)]
      have named : (⟨sc.kernel.currentProcess, proc.serial⟩ : ProcPtr) = p :=
        Current.eq ⟨rfl, proc, awake.1, rfl⟩ current
      have issued : ∀ other, issuedOn (prog.serial other) kernel.log =
          issuedOn (prog.serial other) sc.kernel.log ++
            if other = side then [(p, 1)] else [] := by
        intro other
        rw [counts.issued, waits, size, named]
        rcases Side.cases_of side other with rfl | rfl
        · rw [if_pos rfl, if_pos rfl]
        · rw [if_neg fun same => linked.apart _ (Option.some.inj same).symm,
            if_neg side.other_ne]
      have turns : Scene.turns prog ⟨kernel, who, v.goTo side .load⟩ =
          Turns.issue ⟨v, (sc.turns prog).issued, (sc.turns prog).signals⟩ side := by
        refine congrArg₂ (Turns.mk (v.goTo side .load)) ?_ ?_
        · funext other
          rcases Side.cases_of side other with rfl | rfl
          · rw [Function.update_self, issued, if_pos rfl, List.length_append]
            rfl
          · rw [Function.update_of_ne side.other_ne, issued, if_neg side.other_ne,
              List.append_nil]
            rfl
        · funext other
          refine (counts.signals (prog.serial other)).trans ?_
          rw [signals, if_neg (by simp)]
          rfl
      rw [turns]
      refine ⟨Or.inr (.wait here), fun other wait member => ?_⟩
      rw [issued, List.mem_append] at member
      refine member.imp_right fun new => ?_
      split at new
      · next same => exact ⟨same, List.mem_singleton.mp new⟩
      · cases new
  | signal here call =>
      obtain ⟨objects, semaphores⟩ := table (by rw [here]; simp)
      obtain ⟨write, fd, -⟩ := call
      have waits : waitsOn sc.kernel.toTables proc trap = none := by
        rw [waitsOn, write, if_neg (by decide)]
      have signals : signalsTo sc.kernel.toTables proc trap = some (prog.serial side.other) := by
        rw [signalsTo, write, if_pos rfl, fd]
        exact (named_semaphore objects side.other (semaphores side.other)).2
      have issued : ∀ other, issuedOn (prog.serial other) kernel.log =
          issuedOn (prog.serial other) sc.kernel.log := by
        intro other
        rw [counts.issued, waits, if_neg (by simp), List.append_nil]
      have turns : Scene.turns prog ⟨kernel, who, v.goTo side .check⟩ =
          Turns.handOver ⟨v, (sc.turns prog).issued, (sc.turns prog).signals⟩ side := by
        refine congrArg₂ (Turns.mk (v.goTo side .check)) ?_ ?_
        · funext other
          exact congrArg List.length (issued other)
        · funext other
          refine (counts.signals (prog.serial other)).trans ?_
          rw [signals]
          rcases Side.cases_of side other with rfl | rfl
          · rw [Function.update_of_ne other.other_ne.symm,
              if_neg fun same => linked.apart _ (Option.some.inj same)]
            rfl
          · rw [Function.update_self, if_pos rfl]
            rfl
      rw [turns]
      exact ⟨Or.inr (.signal here), fun other wait member => Or.inl (issued other ▸ member)⟩

theorem works_other (v : Vars) (instructions : Nat) :
    ((Vars.work side)^[instructions] v).place side.other = v.place side.other := by
  induction instructions with
  | zero => rfl
  | succ count ih =>
      rw [Function.iterate_succ_apply', ← ih]
      rw [Vars.work]
      split
      all_goals first | exact goTo_other _ _ _ | rfl

theorem works_gone {v : Vars} (gone : v.place side = .gone) (instructions : Nat) :
    (Vars.work side)^[instructions] v = v := by
  induction instructions with
  | zero => rfl
  | succ count ih => rw [Function.iterate_succ_apply', ih, Vars.work, gone]

theorem Asks.place_other {v : Vars} (asks : Asks prog trap side v vars) :
    vars.place side.other = v.place side.other := by
  cases asks with
  | yield => rfl
  | _ => exact goTo_other _ _ _

theorem Asks.alive {v : Vars} (asks : Asks prog trap side v vars)
    (alive : vars.place side ≠ .gone) : v.place side ≠ .gone := by
  cases asks with
  | yield => exact alive
  | wait here | print here | signal here | leave here =>
      rw [here]
      simp

section Moves

variable {prog : Program} {sc : Scene} {trap : Trap} {side : Side} {p : ProcPtr} {kernel : State}
  {who : Side → Option ProcPtr} {vars : Vars}

theorem Moves.grows (moves : Moves prog sc trap who vars) (started : sc.who side = some p) :
    who side = some p := by
  cases moves with
  | @start new child runs next =>
      have other : side ≠ new := by
        rintro rfl
        rw [next] at started
        cases started
      rwa [Function.update_of_ne other]
  | _ => exact started

theorem Moves.unborn (moves : Moves prog sc trap who vars) (next : who side = none) :
    sc.who side = none ∧ vars.place side = sc.vars.place side := by
  have before : sc.who side = none := by
    cases started : sc.who side with
    | none => rfl
    | some p =>
        rw [moves.grows started] at next
        cases next
  refine ⟨before, ?_⟩
  cases moves with
  | @thread other p _ started runs instructions asks =>
      rcases Side.cases_of other side with rfl | rfl
      · rw [before] at started
        cases started
      · rw [asks.place_other, works_other]
  | _ => rfl

theorem Moves.alive (moves : Moves prog sc trap who vars) (alive : vars.place side ≠ .gone) :
    sc.vars.place side ≠ .gone := by
  cases moves with
  | @thread other p _ started runs instructions asks =>
      rcases Side.cases_of other side with rfl | rfl
      · intro gone
        have late := asks.alive alive
        rw [works_gone gone] at late
        exact late gone
      · rwa [asks.place_other, works_other] at alive
  | _ => exact alive

theorem Scene.Linked.held_before (linked : sc.Linked prog) (moves : Moves prog sc trap who vars)
    (after : Scene.Holder prog ⟨kernel, who, vars⟩ p) :
    sc.Holder prog p ∨ ∃ child, Current sc.kernel prog.main ∧ sc.who .second = none ∧
      callsysOf trap.regs.eax = some .thread ∧ sc.kernel.toTables.freeSlot = some child ∧
      p = ⟨child, sc.kernel.nextSerial⟩ := by
  rcases after with ⟨rfl, next⟩ | ⟨side, started, alive⟩
  · exact Or.inl (Or.inl ⟨rfl, (moves.unborn next).1⟩)
  · cases before : sc.who side with
    | some q =>
        have same : who side = some q := moves.grows before
        refine Or.inl (Or.inr ⟨side, ?_, moves.alive alive⟩)
        rw [before, ← same]
        exact started
    | none =>
        cases moves with
        | @start new child runs next order call free =>
            refine Or.inr ⟨child, runs, ?_, call, free, ?_⟩
            · cases new with
              | first => exact linked.order next
              | second => exact next
            · have here : Function.update sc.who new (some ⟨child, sc.kernel.nextSerial⟩) side =
                some p := started
              by_cases same : side = new
              · rw [same, Function.update_self, Option.some.injEq] at here
                exact here.symm
              · rw [Function.update_of_ne same, before] at here
                cases here
        | _ =>
            have here : sc.who side = some p := started
            rw [before] at here
            cases here

theorem Scene.Linked.calm (linked : sc.Linked prog) (moves : Moves prog sc trap who vars)
    (before : sc.Holder prog p) (after : Scene.Holder prog ⟨kernel, who, vars⟩ p)
    (own : sc.kernel.currentProcess = p.pid) :
    ∃ callsys, callsysOf trap.regs.eax = some callsys ∧ callsys.calm = true := by
  have current := current_of_has (linked.holds p before).1 own
  cases moves with
  | @thread side q _ started runs instructions asks =>
      have same : q = p := runs.eq current
      subst same
      cases asks with
      | yield call => exact ⟨_, call, rfl⟩
      | wait here call => exact ⟨_, call.1, rfl⟩
      | print here call => exact ⟨_, call.1, rfl⟩
      | signal here call => exact ⟨_, call.1, rfl⟩
      | leave here call =>
          rcases after with ⟨main, -⟩ | ⟨other, named, alive⟩
          · exact absurd main (linked.born.2 side q started).2
          · rcases Side.cases_of side other with rfl | rfl
            · exact absurd (goTo_self _ _ _) alive
            · exact absurd named (linked.distinct side q started)
  | start runs next order call => exact ⟨_, call, rfl⟩
  | pause runs call => exact ⟨_, call, rfl⟩
  | others started apart leaves =>
      rcases before with ⟨rfl, next⟩ | ⟨side, named, -⟩
      · exact absurd next (started current)
      · exact absurd current (apart side p named)

theorem Scene.Linked.holds_step {fs : FileSystem} {place : Placement} (linked : sc.Linked prog)
    (ran : realSyscallHandler fs place sc.kernel trap = .ok kernel)
    (moves : Moves prog sc trap who vars) (after : Scene.Holder prog ⟨kernel, who, vars⟩ p) :
    kernel.toTables.Has p prog.objects ∧
      ∀ side, kernel.toTables.SemaphoreIn (prog.slot side) (prog.serial side) := by
  rcases linked.held_before moves after with before | ⟨child, runs, next, call, free, rfl⟩
  · obtain ⟨has, semaphores⟩ := linked.holds p before
    obtain ⟨kept, stays⟩ := step_keeps linked.inv ran has (linked.calm moves before after)
    exact ⟨kept, fun side => stays _ _ ⟨_, prog.bound side⟩ (semaphores side)⟩
  · obtain ⟨has, semaphores⟩ := linked.holds prog.main (Or.inl ⟨rfl, next⟩)
    have stays := (step_keeps linked.inv ran has fun _ => ⟨_, call, rfl⟩).2
    exact ⟨(thread_step linked.inv ran has runs.1 call free).1,
      fun side => stays _ _ ⟨_, prog.bound side⟩ (semaphores side)⟩

theorem Scene.Linked.turns_step {fs : FileSystem} {place : Placement} (linked : sc.Linked prog)
    (ran : realSyscallHandler fs place sc.kernel trap = .ok kernel)
    (moves : Moves prog sc trap who vars) :
    (Scene.turns prog ⟨kernel, who, vars⟩).Good ∧
      ∀ side, ∀ wait ∈ issuedOn (prog.serial side) kernel.log,
        ∃ p, who side = some p ∧ wait = (p, 1) := by
  obtain ⟨proc, awake, counts⟩ := step_counts linked.inv ran
  have quietly : vars = sc.vars → (∀ side,
      waitsOn sc.kernel.toTables proc trap ≠ some (prog.serial side) ∧
        signalsTo sc.kernel.toTables proc trap ≠ some (prog.serial side)) →
      (Scene.turns prog ⟨kernel, who, vars⟩).Good ∧
        ∀ side, ∀ wait ∈ issuedOn (prog.serial side) kernel.log,
          ∃ p, who side = some p ∧ wait = (p, 1) := by
    rintro rfl quiet
    obtain ⟨turns, issued⟩ := turns_quiet who sc.vars counts quiet
    rw [turns]
    refine ⟨linked.good, fun side wait member => ?_⟩
    rw [issued] at member
    obtain ⟨p, started, named⟩ := linked.names side wait member
    exact ⟨p, moves.grows started, named⟩
  have silently : vars = sc.vars → ∀ callsys, callsysOf trap.regs.eax = some callsys →
      callsys ≠ .read ∧ callsys ≠ .write →
      (Scene.turns prog ⟨kernel, who, vars⟩).Good ∧
        ∀ side, ∀ wait ∈ issuedOn (prog.serial side) kernel.log,
          ∃ p, who side = some p ∧ wait = (p, 1) := by
    intro same callsys call other
    have none := silent sc.kernel.toTables proc call other
    exact quietly same fun side => by simp [none.1, none.2]
  cases moves with
  | @thread side p _ started runs instructions asks =>
      have ready := linked.ready started runs
      have good := linked.good.works ready instructions
      obtain ⟨outcome, issued⟩ := linked.asks sc.who started runs
        (fun alive gone => alive (by rw [works_gone gone]; exact gone)) awake counts asks
      refine ⟨?_, fun other wait member => ?_⟩
      · rcases outcome with same | act
        · rw [same]
          exact good
        · exact good.step ⟨ready, act⟩
      · rcases issued other wait member with old | ⟨rfl, named⟩
        · exact linked.names other wait old
        · exact ⟨p, started, named⟩
  | start runs next order call => exact silently rfl _ call (by decide)
  | pause runs call => exact silently rfl _ call (by decide)
  | others started apart leaves => exact quietly rfl (leaves proc awake.1)

/-- A step of the scene keeps what holds in it. -/
theorem Scene.Linked.step {fs : FileSystem} {place : Placement} (linked : sc.Linked prog)
    (ran : realSyscallHandler fs place sc.kernel trap = .ok kernel)
    (moves : Moves prog sc trap who vars) : Scene.Linked prog ⟨kernel, who, vars⟩ := by
  obtain ⟨good, names⟩ := linked.turns_step ran moves
  obtain ⟨proc, ret, awake, acts⟩ := step_acts linked.inv ran
  have later : ∀ {serial : Nat}, serial < sc.kernel.nextSerial → serial < kernel.nextSerial :=
    fun born => serial_lt_run born acts
  have threads : ∀ side p, who side = some p → p.serial < kernel.nextSerial ∧ p ≠ prog.main ∧
      who side.other ≠ some p := by
    intro side p started
    cases moves with
    | @start new child runs next order call free =>
        have known : ∀ other q, sc.who other = some q → q.serial < sc.kernel.nextSerial :=
          fun other q started => (linked.born.2 other q started).1
        have has := (linked.holds prog.main (Or.inl ⟨rfl, by
          cases new with
          | first => exact linked.order next
          | second => exact next⟩)).1
        rcases Side.cases_of new side with rfl | rfl
        · rw [Function.update_self, Option.some.injEq] at started
          subst started
          refine ⟨(thread_step linked.inv ran has runs.1 call free).2, ?_, ?_⟩
          · intro same
            exact Nat.lt_irrefl _ ((congrArg ProcPtr.serial same).trans_lt linked.born.1)
          · rw [Function.update_of_ne side.other_ne]
            intro older
            exact Nat.lt_irrefl _ (known _ _ older)
        · rw [Function.update_of_ne new.other_ne] at started
          refine ⟨later (known _ _ started), (linked.born.2 _ _ started).2, ?_⟩
          have twice : new.other.other = new := by cases new <;> rfl
          rw [twice, Function.update_self]
          intro same
          have serial := congrArg ProcPtr.serial (Option.some.inj same)
          exact Nat.lt_irrefl _ (serial.trans_lt (known _ _ started))
    | _ =>
        exact ⟨later (linked.born.2 _ _ started).1, (linked.born.2 _ _ started).2,
          linked.distinct _ _ started⟩
  refine ⟨linked.inv.step ran, linked.balanced.step linked.inv ran, good, names,
    fun side => (log_suffix_run acts).mem (linked.created side),
    fun p after => linked.holds_step ran moves after, linked.apart,
    ⟨later linked.born.1, fun side p started => ⟨(threads side p started).1,
      (threads side p started).2.1⟩⟩,
    fun side p started => (threads side p started).2.2, fun next => ?_, fun side next => ?_⟩
  · have before : sc.who .first = none := (moves.unborn next).1
    cases moves with
    | @start new child runs free order call =>
        cases new with
        | first =>
            have same : some (⟨child, sc.kernel.nextSerial⟩ : ProcPtr) = none :=
              (Function.update_self Side.first _ sc.who).symm.trans next
            cases same
        | second => exact absurd before (order rfl)
    | _ => exact linked.order before
  · obtain ⟨before, same⟩ := moves.unborn next
    exact same.trans (linked.unborn side before)

end Moves

theorem Program.Ready.linked {s : State} (ready : prog.Ready s)
    (reachable : Reachable fs place (fun _ _ => True) s) : (Scene.start s).Linked prog := by
  obtain ⟨inv, balanced⟩ := reachable.induct (fun s => Balanced s.toTables)
    (fun boot first started => Balanced.boot started)
    (fun mid trap next inv balanced _ ran => balanced.step inv ran)
  have turns : (Scene.start s).turns prog = Turns.start := by
    refine congrArg₂ (Turns.mk Turns.start.toVars) ?_ ?_
    · funext side
      exact congrArg List.length (ready.unused side).1
    · funext side
      exact (ready.unused side).2
  have serials : prog.serial .first ≠ prog.serial .second := by
    intro same
    obtain ⟨device, found, serial, -⟩ := ready.semaphore .first
    obtain ⟨device', found', serial', -⟩ := ready.semaphore .second
    exact prog.apart (balanced.serials.distinct _ _ _ _ found found'
      (serial.trans (same.trans serial'.symm)))
  refine ⟨inv, balanced, turns ▸ Turns.start_good, fun side wait member => ?_, ready.created,
    fun p holder => ?_, fun side => ?_, ⟨?_, nofun⟩, nofun, fun _ => rfl, fun _ _ => rfl⟩
  · have none : issuedOn (prog.serial side) (Scene.start s).kernel.log = [] :=
      (ready.unused side).1
    rw [none] at member
    cases member
  · rcases holder with ⟨rfl, -⟩ | ⟨side, started, -⟩
    · exact ⟨ready.main, ready.semaphore⟩
    · cases started
  · cases side with
    | first => exact serials.symm
    | second => exact serials
  · obtain ⟨proc, found, serial, -⟩ := viewAt_eq_some.mp ready.main
    exact serial ▸ inv.queues.serials _ _ found

theorem Scene.Linked.run {traps : List Trap} {first last : Scene} (linked : first.Linked prog)
    (run : Run (Scene.Step fs place prog) first traps last) : last.Linked prog := by
  apply run.invariant (Scene.Linked prog) linked
  intro mid trap next _ before taken
  exact before.step taken.1 taken.2

/-- Whatever the order of the steps, the threads print the numbers in order and in turns, are
never in their turns at once, never wait for each other, and stop after a hundred lines or one
more. -/
theorem threads_take_turns {s : State} {traps : List Trap} {last : Scene}
    (reachable : Reachable fs place (fun _ _ => True) s) (ready : prog.Ready s)
    (run : Run (Scene.Step fs place prog) (Scene.start s) traps last) :
    last.vars.printed = lines last.vars.printed.length ∧ last.vars.printed.length ≤ 101 ∧
      (∀ side, last.Inside prog side → ¬ last.Inside prog side.other) ∧
      (∀ side, last.Waiting prog side →
        ¬ last.Waiting prog side.other ∧ (last.vars.place side.other).ended = false) ∧
      ((∀ side, (last.vars.place side).ended = true) →
        last.vars.printed.length = 100 ∨ last.vars.printed.length = 101) := by
  have linked := (ready.linked reachable).run run
  obtain ⟨printed, most⟩ := linked.good.printed_lines
  refine ⟨printed, most, fun side inside other => ?_, fun side waiting => ?_,
    linked.good.finished⟩
  · obtain ⟨held, awake⟩ := inside
    obtain ⟨held', awake'⟩ := other
    rw [← linked.waits_iff] at awake awake'
    have out := linked.good.excludes awake held awake'
    exact absurd (held'.symm.trans out) (by decide)
  · rw [← linked.waits_iff] at waiting ⊢
    exact linked.good.awaited waiting

def isCurrent (s : State) (p : ProcPtr) : Bool :=
  s.currentProcess = p.pid && (s.processList p.pid).any fun proc => proc.serial = p.serial

theorem isCurrent_sound {s : State} (current : isCurrent s p) : Current s p := by
  rw [isCurrent, Bool.and_eq_true, Option.any_eq_true] at current
  obtain ⟨own, proc, found, serial⟩ := current
  exact ⟨of_decide_eq_true own, proc, found, of_decide_eq_true serial⟩

def advances (s : State) (trap : Trap) (later : State → Bool) : Bool :=
  (realSyscallHandler smallVolume smallPlacement s trap).toOption.any later

theorem advances_sound {s : State} {later : State → Bool} (holds : advances s trap later) :
    ∃ s', realSyscallHandler smallVolume smallPlacement s trap = .ok s' ∧ later s' := by
  obtain ⟨s', ran, after⟩ := (Option.any_eq_true _ _).mp holds
  exact ⟨s', toOption_eq_some ran, after⟩

def firstTurn (s : State) : Bool :=
  isCurrent s ⟨0, 4⟩ && s.toTables.freeSlot = some 1 && s.nextSerial = 7 &&
  (s.processList 0).any (fun proc => proc.objects 3 = some (.device 4) &&
    proc.objects 4 = some (.device 5) && proc.objects 1 = some (.device 1)) &&
  ((s.devices 4).any fun device => device.serial = 5 && device.isSemaphore) &&
  ((s.devices 5).any fun device => device.serial = 6 && device.isSemaphore) &&
  (decide (.created 5 1 ∈ s.log) && decide (.created 6 0 ∈ s.log) &&
    decide (issuedOn 5 s.log = []) && decide (issuedOn 6 s.log = []) &&
    decide (signalsOn 5 s.log = 0) && decide (signalsOn 6 s.log = 0)) &&
  advances s (plainCall 202 0 0 0) fun s1 => isCurrent s1 ⟨1, 7⟩ &&
    advances s1 (plainCall 3 3 0 1) fun s2 => isCurrent s2 ⟨1, 7⟩ &&
      advances s2 (plainCall 4 1 0 5) fun s3 => isCurrent s3 ⟨1, 7⟩ &&
        advances s3 (plainCall 4 4 0 1) fun _ => true

def bySide {α : Type} (one two : α) : Side → α
  | .first => one
  | .second => two

/-- The run of `firstTurn`: the first line is printed. -/
theorem threads_take_turns_first : ∃ (prog : Program) (s : State) (traps : List Trap) (last : Scene),
    Run (Scene.Step smallVolume smallPlacement prog) (Scene.start s) traps last ∧
      last.vars.printed = [(1, 1)] ∧ last.vars.printed = lines last.vars.printed.length := by
  obtain ⟨s, reachable, turn⟩ := smallRun_exists (fun _ _ => True)
    [plainCall 200 1 0 0, plainCall 200 0 0 0] (fun s => firstTurn s) (by decide +kernel)
  simp only [firstTurn, Bool.and_eq_true, decide_eq_true_eq, Option.any_eq_true] at turn
  obtain ⟨⟨⟨⟨⟨⟨⟨main, free⟩, serial⟩, proc, found, ⟨bound, bound'⟩, stdout⟩, one, here, named, sem⟩,
    two, here', named', sem'⟩, ⟨⟨⟨⟨created, created'⟩, issued⟩, issued'⟩, signals⟩, signals'⟩,
    started⟩ := turn
  obtain ⟨s1, ran1, started⟩ := advances_sound started
  obtain ⟨current1, started⟩ := (Bool.and_eq_true _ _).mp started
  obtain ⟨s2, ran2, started⟩ := advances_sound started
  obtain ⟨current2, started⟩ := (Bool.and_eq_true _ _).mp started
  obtain ⟨s3, ran3, started⟩ := advances_sound started
  obtain ⟨current3, started⟩ := (Bool.and_eq_true _ _).mp started
  obtain ⟨s4, ran4, -⟩ := advances_sound started
  have current := isCurrent_sound main
  have own : proc.serial = 4 := by
    obtain ⟨-, other, there, same⟩ := current
    rw [found, Option.some.injEq] at there
    exact there ▸ same
  let prog : Program :=
    { main := ⟨0, 4⟩, objects := proc.objects, fd := bySide 3 4, slot := bySide 4 5,
      serial := bySide 5 6
      bound := fun side => by cases side with
        | first => exact bound
        | second => exact bound'
      stdout := fun side => by
        rw [stdout]
        cases side <;> simp [bySide]
      apart := by simp [bySide] }
  have ready : prog.Ready s := by
    refine ⟨viewAt_eq_some.mpr ⟨proc, found, own, rfl⟩, fun side => ?_, fun side => ?_, fun side => ?_⟩
    · cases side with
      | first => exact ⟨one, here, named, sem⟩
      | second => exact ⟨two, here', named', sem'⟩
    · cases side with
      | first => exact created
      | second => exact created'
    · cases side with
      | first => exact ⟨issued, signals⟩
      | second => exact ⟨issued', signals'⟩
  let who : Side → Option ProcPtr := Function.update (fun _ => none) .first (some ⟨1, 7⟩)
  let asked := ((Vars.work .first)^[1] Turns.start.toVars).goTo .first .load
  let shown := ((Vars.work .first)^[4] asked).printLine .first 1
  have starts : Scene.Step smallVolume smallPlacement prog (Scene.start s) (plainCall 202 0 0 0)
      ⟨s1, Function.update (fun _ => none) .first (some ⟨1, s.nextSerial⟩), Turns.start.toVars⟩ :=
    ⟨ran1, .start current rfl nofun rfl free⟩
  rw [serial] at starts
  have waits : Scene.Step smallVolume smallPlacement prog ⟨s1, who, Turns.start.toVars⟩
      (plainCall 3 3 0 1) ⟨s2, who, asked⟩ :=
    ⟨ran2, .thread rfl (isCurrent_sound current1) 1 (.wait rfl ⟨rfl, rfl, rfl⟩)⟩
  have prints : Scene.Step smallVolume smallPlacement prog ⟨s2, who, asked⟩
      (plainCall 4 1 0 5) ⟨s3, who, shown⟩ :=
    ⟨ran3, .thread rfl (isCurrent_sound current2) 4 (.print rfl ⟨rfl, rfl, rfl⟩)⟩
  have signals : Scene.Step smallVolume smallPlacement prog ⟨s3, who, shown⟩
      (plainCall 4 4 0 1) ⟨s4, who, shown.goTo .first .check⟩ :=
    ⟨ran4, .thread rfl (isCurrent_sound current3) 0 (.signal rfl ⟨rfl, rfl, rfl⟩)⟩
  have run := Run.cons starts (Run.cons waits (Run.cons prints (Run.cons signals (Run.nil _))))
  exact ⟨prog, s, _, _, run, rfl, (threads_take_turns reachable ready run).1⟩

end SysImpl.User
