import SysImpl.Kernel.FileFrames
import SysImpl.Lib.Services

/-! The calls the kernel makes of its file system.

A trap is a program over these calls. Over the service that presents the files of a volume as
byte strings, it is the trap of the kernel with that volume. -/

namespace SysImpl.Kernel

open Bytes Runs Services

inductive FileCall where
  | openFile (path : List UInt8)
  /-- The file opened last is given up again. -/
  | discard
  | read (id size : Nat)
  | readdir (id : Nat)
  /-- The reads of `execv`. -/
  | load (path : List UInt8)

inductive FileReply where
  | nothing
  | opened (id : Nat)
  | bytes (bytes : List UInt8)
  | infos (infos : List FileInfo)

def volumeService (ε : Type) (fs : FileSystem) : Service FileCall FileReply ε (List OpenFile)
  | .openFile path, files =>
      match fs.openFile path with
      | none => .ok (.nothing, files)
      | some image => .ok (.opened files.length, files ++ [⟨image, 0⟩])
  | .discard, files => .ok (.nothing, files.dropLast)
  | .read id size, files =>
      match files[id]? with
      | none => .ok (.nothing, files)
      | some file =>
          let bytes := file.read size
          .ok (.bytes bytes, files.set id { file with cursor := file.cursor + bytes.length })
  | .readdir id, files =>
      match files[id]? with
      | none => .ok (.nothing, files)
      | some file =>
          match file.image.listing with
          | none => .ok (.nothing, files)
          | some (infos, cursor) => .ok (.infos infos, files.set id { file with cursor := cursor })
  | .load path, files =>
      match fs.openFile path with
      | none => .ok (.nothing, files)
      | some image => .ok (.bytes image.content, files)

def FileReply.volume : FileReply → FileSystem
  | .bytes content => ⟨fun _ => some ⟨content, none⟩⟩
  | _ => ⟨fun _ => none⟩

abbrev FileClient (α : Type) := Client FileCall FileReply α

def readClient (s : State) (proc : Process) (fd buffer size : Nat) :
    FileClient (Except Stop (State × Int)) :=
  match getObject proc fd with
  | .ok (some (.file id)) =>
      .call (.read id size) fun
        | .bytes bytes => .done (.ok ({ s with mem := copyTo s.mem buffer bytes }, bytes.length))
        | _ => .done (.ok (s, -1))
  | _ => .done (readHandler s proc fd buffer size)

def openClient (s : State) (filename : Nat) : FileClient (Except Stop (State × Int)) :=
  let path := loadString s.mem filename
  match specialPath path with
  | some _ => .done (openHandler ⟨fun _ => none⟩ s filename)
  | none =>
      .call (.openFile path) fun
        | .opened id =>
            match s.toTables.addObject s.currentProcess (.file id) with
            -- Nothing refers to the file when the exception is caught.
            | none => .call .discard fun _ => .done (.ok (s, enospc))
            | some (pos, t) => .done (.ok ({ s with toTables := t }, pos.val))
        | _ => .done (.ok (s, enoent))

def readdirClient (s : State) (proc : Process) (fd array n : Nat) :
    FileClient (Except Stop (State × Int)) :=
  match getObject proc fd with
  | .ok (some (.file id)) =>
      .call (.readdir id) fun
        | .infos infos =>
            let (m, count) := storeListing array n 0 infos s.mem
            .done (.ok ({ s with mem := copyTo m n (bytes32 infos.length) }, count))
        | _ => .done (.ok (s, enoent))
  | _ => .done (readdirHandler s proc fd array n)

def execClient (place : Placement) (s : State) (path : List UInt8) (call : ExecCall)
    (around : Surroundings) : FileClient (Except Stop (State × Int)) :=
  .call (.load path) fun reply =>
    .done (execv reply.volume place s s.currentProcess path call around)

def applyClient (place : Placement) (s : State) (trap : Trap) (proc : Process) :
    Callsys → FileClient (Except Stop (State × Int))
  | .read => readClient s proc proc.usermodeState.ebx proc.usermodeState.ecx proc.usermodeState.edx
  | .openFile => openClient s proc.usermodeState.ebx
  | .exec =>
      execClient place s (loadString s.mem proc.usermodeState.ebx)
        ⟨loadArguments s.mem proc.usermodeState.ecx maxArguments, proc.usermodeState.edx,
          proc.usermodeState.esi⟩ trap.around
  | .readdir =>
      readdirClient s proc proc.usermodeState.ebx proc.usermodeState.ecx proc.usermodeState.edx
  | callsys => .done (applyHandler ⟨fun _ => none⟩ place s trap proc callsys)

def syscallClient (place : Placement) (s : State) (trap : Trap) : FileClient (Except Stop State) :=
  let s := enterKernelMode s trap
  let pid := s.currentProcess
  match s.processList pid with
  | none => .done (.error .danglingPointer)
  | some proc =>
      let s := s.note (.entered ⟨pid, proc.serial⟩)
      let call := proc.usermodeState.eax
      if call < syscallEnd then
        match callsysOf call with
        | none => .done ((leaveHook s trap).map leaveKernelMode)
        | some callsys =>
            (applyClient place s trap proc callsys).map fun handled =>
              handled.bind fun (s, ret) => afterHandler s trap pid ret
      else .done (.error .indexOutOfRange)

def initClient (place : Placement) (boot : BootInfo) : FileClient (Except Stop State) :=
  .call (.load hltPath) fun reply => .done (enterInit reply.volume place boot)

def stepsClient (place : Placement) : Except Stop State → List Trap → FileClient (Except Stop State)
  | .error stop, _ => .done (.error stop)
  | .ok s, [] => .done (.ok s)
  | .ok s, trap :: rest => (syscallClient place s trap).bind fun s => stepsClient place s rest

def systemClient (place : Placement) (boot : BootInfo) (traps : List Trap) :
    FileClient (Except Stop State) :=
  (initClient place boot).bind fun s => stepsClient place s traps

def system (fs : FileSystem) (place : Placement) (boot : BootInfo) (traps : List Trap) :
    Except Stop State := do
  let s ← enterInit fs place boot
  traps.foldlM (realSyscallHandler fs place) s

def FileCall.Within (opens loads : List UInt8 → Prop) : FileCall → Prop
  | .openFile path => opens path
  | .load path => loads path
  | _ => True

def Trap.Within (opens loads : List UInt8 → Prop) (trap : Trap) : Prop :=
  let path := loadString trap.mem trap.regs.ebx
  match callsysOf trap.regs.eax with
  | some .openFile => specialPath path = none → opens path
  | some .exec => loads path
  | _ => True

section Asks

variable {opens loads : List UInt8 → Prop} {place : Placement}

theorem readClient_asks (s : State) (proc : Process) (fd buffer size : Nat) :
    (readClient s proc fd buffer size).Asks (FileCall.Within opens loads) := by
  unfold readClient
  split
  · refine ⟨trivial, ?_⟩
    intro reply
    cases reply <;> trivial
  · trivial

theorem readdirClient_asks (s : State) (proc : Process) (fd array n : Nat) :
    (readdirClient s proc fd array n).Asks (FileCall.Within opens loads) := by
  unfold readdirClient
  split
  · refine ⟨trivial, ?_⟩
    intro reply
    cases reply <;> trivial
  · trivial

theorem openClient_asks (s : State) (filename : Nat)
    (within : specialPath (loadString s.mem filename) = none → opens (loadString s.mem filename)) :
    (openClient s filename).Asks (FileCall.Within opens loads) := by
  simp only [openClient]
  cases ordinary : specialPath (loadString s.mem filename) with
  | some obj => trivial
  | none =>
      refine ⟨within ordinary, ?_⟩
      intro reply
      cases reply with
      | opened id =>
          simp only
          rcases s.toTables.addObject s.currentProcess (.file id) with _ | ⟨pos, t⟩
          · exact ⟨trivial, fun _ => trivial⟩
          · trivial
      | _ => trivial

theorem applyClient_asks (s : State) (trap : Trap) (proc : Process) (callsys : Callsys)
    (memory : s.mem = trap.mem) (regs : proc.usermodeState = trap.regs)
    (called : callsysOf trap.regs.eax = some callsys) (within : trap.Within opens loads) :
    (applyClient place s trap proc callsys).Asks (FileCall.Within opens loads) := by
  simp only [Trap.Within, called] at within
  cases callsys with
  | read => exact readClient_asks s proc _ _ _
  | readdir => exact readdirClient_asks s proc _ _ _
  | openFile =>
      apply openClient_asks
      rw [memory, regs]
      exact within
  | exec =>
      refine ⟨?_, fun _ => trivial⟩
      rw [memory, regs]
      exact within
  | _ => trivial

theorem syscallClient_asks (s : State) {trap : Trap} (within : trap.Within opens loads) :
    (syscallClient place s trap).Asks (FileCall.Within opens loads) := by
  have entered (proc : Process) (found : (enterKernelMode s trap).processList
      (enterKernelMode s trap).currentProcess = some proc) : proc.usermodeState = trap.regs := by
    simp only [enterKernelMode, modify_processList, if_true] at found
    obtain ⟨before, _, rfl⟩ := Option.map_eq_some_iff.mp found
    rfl
  simp only [syscallClient]
  cases found : (enterKernelMode s trap).processList (enterKernelMode s trap).currentProcess with
  | none => trivial
  | some proc =>
      have regs := entered proc found
      simp only [regs]
      split_ifs
      · cases called : callsysOf trap.regs.eax with
        | none => trivial
        | some callsys =>
            exact (applyClient_asks _ trap proc callsys rfl regs called within).map _
      · trivial

theorem stepsClient_asks (start : Except Stop State) (traps : List Trap)
    (within : ∀ trap ∈ traps, trap.Within opens loads) :
    (stepsClient place start traps).Asks (FileCall.Within opens loads) := by
  induction traps generalizing start with
  | nil => cases start <;> trivial
  | cons trap rest ih =>
      cases start with
      | error stop => trivial
      | ok s =>
          exact (syscallClient_asks s (within trap List.mem_cons_self)).bind fun mid =>
            ih mid fun later member => within later (List.mem_cons_of_mem _ member)

theorem systemClient_asks (boot : BootInfo) {traps : List Trap} (init : loads hltPath)
    (within : ∀ trap ∈ traps, trap.Within opens loads) :
    (systemClient place boot traps).Asks (FileCall.Within opens loads) :=
  Client.Asks.bind ⟨init, fun _ => trivial⟩ fun start => stepsClient_asks start traps within

end Asks

variable (files : List OpenFile) (ε : Type) (fs : FileSystem) (place : Placement)

/-- Over the service of a volume, a program ends as the kernel does with that volume. -/
def Presents {α : Type} (client : FileClient (Except Stop α)) (files : List OpenFile)
    (set : List OpenFile → α → α) (result : Except Stop α) : Prop :=
  ∃ done files', client.run (volumeService ε fs) files = .ok (done, files') ∧
    result = done.map (set files')

theorem readClient_presents (s : State) (proc : Process) (fd buffer size : Nat) :
    Presents ε fs (readClient s proc fd buffer size) files keepFiles
      (readHandler (s.withFiles files) proc fd buffer size) := by
  simp only [readClient, readHandler]
  rcases getObject proc fd with stop | _ | obj
  · exact ⟨_, files, rfl, rfl⟩
  · exact ⟨_, files, rfl, rfl⟩
  · cases obj with
    | device slot => exact ⟨_, files, rfl, readDevice_withFiles files s slot buffer size⟩
    | segment base size => exact ⟨_, files, rfl, rfl⟩
    | file id =>
        have found : (s.withFiles files).files[id]? = files[id]? := rfl
        simp only [readFile, found, Presents, Client.run, volumeService]
        cases files[id]? with
        | none => exact ⟨_, files, rfl, rfl⟩
        | some file => exact ⟨_, _, rfl, rfl⟩

theorem readdirClient_presents (s : State) (proc : Process) (fd array n : Nat) :
    Presents ε fs (readdirClient s proc fd array n) files keepFiles
      (readdirHandler (s.withFiles files) proc fd array n) := by
  simp only [readdirClient, readdirHandler]
  rcases getObject proc fd with stop | _ | obj
  · exact ⟨_, files, rfl, rfl⟩
  · exact ⟨_, files, rfl, rfl⟩
  · cases obj with
    | device slot => exact ⟨_, files, rfl, rfl⟩
    | segment base size => exact ⟨_, files, rfl, rfl⟩
    | file id =>
        have found : (s.withFiles files).files[id]? = files[id]? := rfl
        simp only [found, Presents, Client.run, volumeService]
        cases files[id]? with
        | none => exact ⟨_, files, rfl, rfl⟩
        | some file =>
            simp only
            rcases file.image.listing with _ | ⟨infos, cursor⟩
            · exact ⟨_, files, rfl, rfl⟩
            · exact ⟨_, _, rfl, rfl⟩

theorem openClient_presents (s : State) (filename : Nat) :
    Presents ε fs (openClient s filename) files keepFiles
      (openHandler fs (s.withFiles files) filename) := by
  have spelled : loadString (s.withFiles files).mem filename = loadString s.mem filename := rfl
  have tables : (s.withFiles files).toTables = s.toTables := rfl
  have current : (s.withFiles files).currentProcess = s.currentProcess := rfl
  have opened : (s.withFiles files).files = files := rfl
  simp only [openClient, openHandler, spelled, tables, current, opened]
  cases specialPath (loadString s.mem filename) with
  | some obj =>
      simp only
      rcases s.toTables.addObject s.currentProcess obj with _ | ⟨pos, t⟩
      · exact ⟨_, files, rfl, rfl⟩
      · exact ⟨_, files, rfl, rfl⟩
  | none =>
      simp only [Presents, Client.run, volumeService]
      cases fs.openFile (loadString s.mem filename) with
      | none => exact ⟨_, files, rfl, rfl⟩
      | some image =>
          simp only
          rcases s.toTables.addObject s.currentProcess (.file files.length) with _ | ⟨pos, t⟩
          · refine ⟨.ok (s, enospc), files, ?_, rfl⟩
            simp only [Client.run, volumeService, List.dropLast_concat]
          · exact ⟨_, _, rfl, rfl⟩

theorem loaded_execv (s : State) (pid : Pid) (path : List UInt8) (call : ExecCall)
    (around : Surroundings) {image : FileImage} (found : fs.openFile path = some image) :
    execv (FileReply.bytes image.content).volume place s pid path call around =
      execv fs place s pid path call around := by
  simp only [execv, FileReply.volume, found]

theorem missing_execv (s : State) (pid : Pid) (path : List UInt8) (call : ExecCall)
    (around : Surroundings) (missing : fs.openFile path = none) :
    execv FileReply.nothing.volume place s pid path call around =
      execv fs place s pid path call around := by
  simp only [execv, FileReply.volume, missing]

theorem execClient_presents (s : State) (path : List UInt8) (call : ExecCall)
    (around : Surroundings) :
    Presents ε fs (execClient place s path call around) files keepFiles
      (execv fs place (s.withFiles files) s.currentProcess path call around) := by
  rw [execv_withFiles]
  simp only [execClient, Presents, Client.run, volumeService]
  cases found : fs.openFile path with
  | none => exact ⟨_, files, rfl, by rw [missing_execv fs place s _ _ _ _ found]⟩
  | some image => exact ⟨_, files, rfl, by rw [loaded_execv fs place s _ _ _ _ found]⟩

theorem applyClient_presents (s : State) (trap : Trap) (proc : Process) (callsys : Callsys) :
    Presents ε fs (applyClient place s trap proc callsys) files keepFiles
      (applyHandler fs place (s.withFiles files) trap proc callsys) := by
  have current : (s.withFiles files).currentProcess = s.currentProcess := rfl
  cases callsys with
  | read => exact readClient_presents files ε fs s proc _ _ _
  | readdir => exact readdirClient_presents files ε fs s proc _ _ _
  | openFile => exact openClient_presents files ε fs s _
  | exec => exact execClient_presents files ε fs place s _ _ _
  | exit =>
      exact ⟨_, files, rfl, congrArg (fun s => Except.ok (s, 0)) (deleteProcess_withFiles files s _ _)⟩
  | fork =>
      refine ⟨_, files, rfl, ?_⟩
      simp only [applyHandler, clone_withFiles, current]
      cases clone place s s.currentProcess .keepStack <;> rfl
  | thread =>
      refine ⟨_, files, rfl, ?_⟩
      simp only [applyHandler, clone_withFiles, current]
      cases clone place s s.currentProcess _ <;> rfl
  | write =>
      refine ⟨_, files, rfl, ?_⟩
      simp only [applyHandler, writeHandler]
      rcases getObject proc proc.usermodeState.ebx with stop | _ | obj
      · rfl
      · rfl
      · cases obj with
        | device slot => exact writeDevice_withFiles files s trap _ slot _ _
        | file id => rfl
        | segment base size => rfl
  | close =>
      exact ⟨_, files, rfl, congrArg (fun s => Except.ok (s, 0)) (closeHandler_withFiles files s _)⟩
  | dup2 => exact ⟨_, files, rfl, dup2_withFiles files s proc _ _⟩
  | schedYield =>
      refine ⟨_, files, rfl, ?_⟩
      simp only [applyHandler, resche_withFiles]
      cases resche s <;> rfl
  | semCreate => exact ⟨_, files, rfl, semCreate_withFiles files s _⟩
  | hlt => exact ⟨_, files, rfl, rfl⟩

theorem syscallClient_presents (s : State) (trap : Trap) :
    Presents ε fs (syscallClient place s trap) files State.withFiles
      (realSyscallHandler fs place (s.withFiles files) trap) := by
  have entered : enterKernelMode (s.withFiles files) trap =
      (enterKernelMode s trap).withFiles files := rfl
  simp only [syscallClient, realSyscallHandler, entered]
  generalize enterKernelMode s trap = s
  have found : (s.withFiles files).processList (s.withFiles files).currentProcess =
      s.processList s.currentProcess := rfl
  simp only [found]
  cases s.processList s.currentProcess with
  | none => exact ⟨_, files, rfl, rfl⟩
  | some proc =>
      simp only
      by_cases known : proc.usermodeState.eax < syscallEnd
      · rw [if_pos known, if_pos known]
        cases callsysOf proc.usermodeState.eax with
        | none => exact ⟨_, files, rfl, left_withFiles files (s.note _) trap⟩
        | some callsys =>
            obtain ⟨done, files', ran, same⟩ := applyClient_presents files ε fs place
              (s.note (.entered ⟨s.currentProcess, proc.serial⟩)) trap proc callsys
            refine ⟨_, files', Client.run_map ran _, ?_⟩
            simp only
            rw [show (s.withFiles files).note (.entered ⟨(s.withFiles files).currentProcess,
              proc.serial⟩) = (s.note (.entered ⟨s.currentProcess, proc.serial⟩)).withFiles files
              from rfl, same]
            cases done with
            | error stop => rfl
            | ok done => exact afterHandler_withFiles files' done.1 trap s.currentProcess done.2
      · rw [if_neg known, if_neg known]
        exact ⟨_, files, rfl, rfl⟩

theorem execv_closed {s : State} (closed : s.files = []) (pid : Pid) (path : List UInt8)
    (call : ExecCall) (around : Surroundings) :
    execv fs place s pid path call around =
      (execv fs place s pid path call around).map (keepFiles []) := by
  have same : s = s.withFiles [] := by
    rw [State.withFiles, ← closed]
  rw [← execv_withFiles, ← same]

theorem enterInit_withFiles (boot : BootInfo) :
    enterInit fs place boot = (enterInit fs place boot).map (State.withFiles []) := by
  simp only [enterInit]
  generalize known : execv fs place _ 0 hltPath ⟨boot.args, 7, 0⟩ boot.around = loaded
  have kept : loaded = loaded.map (keepFiles []) := by
    rw [← known]
    exact execv_closed fs place rfl 0 hltPath _ _
  rcases loaded with stop | ⟨last, ret⟩
  · rfl
  · have same : last = last.withFiles [] := congrArg Prod.fst (Except.ok.inj kept)
    simp only [apply_ite (Except.map (State.withFiles []))]
    rw [same]
    simp only [Except.map, ← leaveKernelMode_withFiles]
    rfl

theorem initClient_presents (boot : BootInfo) :
    ∃ done, (initClient place boot).run (volumeService ε fs) [] = .ok (done, []) ∧
      enterInit fs place boot = done.map (State.withFiles []) := by
  rw [enterInit_withFiles]
  simp only [initClient, Client.run, volumeService]
  cases found : fs.openFile hltPath with
  | none =>
      refine ⟨_, rfl, ?_⟩
      simp only [enterInit, missing_execv fs place _ _ _ _ _ found]
  | some image =>
      refine ⟨_, rfl, ?_⟩
      simp only [enterInit, loaded_execv fs place _ _ _ _ _ found]

theorem stepsClient_presents (start : Except Stop State) (traps : List Trap) :
    Presents ε fs (stepsClient place start traps) files State.withFiles
      (start.map (State.withFiles files) >>= fun s =>
        traps.foldlM (realSyscallHandler fs place) s) := by
  induction traps generalizing start files with
  | nil =>
      cases start with
      | error stop => exact ⟨_, files, rfl, rfl⟩
      | ok s => exact ⟨_, files, rfl, rfl⟩
  | cons trap rest ih =>
      cases start with
      | error stop => exact ⟨_, files, rfl, rfl⟩
      | ok s =>
          obtain ⟨mid, files', ran, same⟩ := syscallClient_presents files ε fs place s trap
          obtain ⟨last, files'', later, ends⟩ := ih files' mid
          refine ⟨last, files'', (Client.run_bind ran _).trans later, ?_⟩
          rw [← ends, ← same]
          simp only [List.foldlM_cons]
          rfl

theorem systemClient_presents (boot : BootInfo) (traps : List Trap) :
    Presents ε fs (systemClient place boot traps) [] State.withFiles
      (system fs place boot traps) := by
  obtain ⟨first, ran, same⟩ := initClient_presents ε fs place boot
  obtain ⟨last, files, later, ends⟩ := stepsClient_presents [] ε fs place first traps
  refine ⟨last, files, (Client.run_bind ran _).trans later, ?_⟩
  rw [← ends, ← same]
  rfl

end SysImpl.Kernel
