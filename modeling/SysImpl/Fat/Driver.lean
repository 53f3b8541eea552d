import SysImpl.Fat.OpenFiles
import SysImpl.Kernel.Steps

/-! The kernel over the driver.

Whatever the programs do, the kernel runs over chains of clusters as it does over a volume of
files that are strings of bytes. -/

namespace SysImpl.Fat

open Bytes Services Walks

variable {disk : Disk}

theorem loadString_nonzero (m : Mem) (address : Nat) : ∀ c ∈ Kernel.loadString m address, c ≠ 0 := by
  have from_ (fuel address : Nat) : ∀ c ∈ Kernel.stringFrom fuel m address, c ≠ 0 := by
    induction fuel generalizing address with
    | zero => simp [Kernel.stringFrom]
    | succ fuel ih =>
        intro c member
        simp only [Kernel.stringFrom] at member
        split_ifs at member with zero
        · cases member
        · rcases List.mem_cons.mp member with rfl | later
          · exact zero
          · exact ih _ c later
  exact from_ _ address

/-- The names of the path that a trap opens or executes are not too long, and a program is not
executed through a slash behind its name. -/
def ShortPaths (trap : Kernel.Trap) : Prop :=
  trap.Within ShortNames fun path => ShortNames path ∧ throughSlash path = false

theorem ShortPaths.within {trap : Kernel.Trap} (short : ShortPaths trap) :
    trap.Within Openable Loadable := by
  have nonzero := loadString_nonzero trap.mem trap.regs.ebx
  simp only [ShortPaths, Kernel.Trap.Within] at short ⊢
  split
  · next called =>
      rw [called] at short
      exact fun ordinary => ⟨nonzero, short ordinary⟩
  · next called =>
      rw [called] at short
      exact ⟨⟨nonzero, short.1⟩, short.2⟩
  · trivial

theorem hltPath_loadable : Loadable Kernel.hltPath := by
  refine ⟨⟨by decide +kernel, ?_⟩, by decide +kernel⟩
  have names : components Kernel.hltPath =
      [[0x62, 0x69, 0x6E], [0x68, 0x6C, 0x74, 0x2E, 0x65, 0x6C, 0x66]] := by decide +kernel
  intro name member
  rw [names] at member
  simp only [List.mem_cons, List.not_mem_nil, or_false] at member
  rcases member with rfl | rfl <;> decide

theorem Tracks.start {m : Mounted disk} (unused : m.files = []) : Tracks disk m.fs.info m [] := by
  refine ⟨rfl, by rw [unused]; rfl, ?_⟩
  intro id file opened _ there
  simp at there

theorem systemClient_legal (place : Kernel.Placement) (boot : Kernel.BootInfo)
    {traps : List Kernel.Trap} (short : ∀ trap ∈ traps, ShortPaths trap) :
    (Kernel.systemClient place boot traps).Asks (Kernel.FileCall.Within Openable Loadable) :=
  Kernel.systemClient_asks boot hltPath_loadable fun trap member => (short trap member).within

/-- From its start on, the kernel comes to the same state over the driver as over the volume,
up to the form of the open files, and the driver never fails. -/
theorem system_over_driver {fuel : Nat} (enough : enoughFuel ≤ fuel) {m : Mounted disk}
    (unused : m.files = []) (finite : FiniteChains disk m.fs.info (contentsOf disk m.fs.info))
    (covered : Covered disk m.fs.info) (place : Kernel.Placement) (boot : Kernel.BootInfo)
    {traps : List Kernel.Trap} (short : ∀ trap ∈ traps, ShortPaths trap) :
    ∃ result last files,
      (Kernel.systemClient place boot traps).run (Mounted.service fuel) m = .ok (result, last) ∧
        Kernel.system (volume disk m.fs.info) place boot traps =
          result.map (Kernel.State.withFiles files) ∧
        Tracks disk m.fs.info last files := by
  obtain ⟨result, files, ran, same⟩ :=
    Kernel.systemClient_presents PathFault (volume disk m.fs.info) place boot traps
  obtain ⟨last, done, tracks⟩ := (service_follows enough finite covered).run
    (systemClient_legal place boot short) (Tracks.start unused) ran
  exact ⟨result, last, files, done, same, tracks⟩

abbrev Answered := Kernel.FileCall × Kernel.FileReply

/-- What the reads of an open file have delivered, since it was opened. -/
def delivered (id : Nat) : List UInt8 → Answered → List UInt8
  | bytes, (.openFile _, .opened other) => if other = id then [] else bytes
  | bytes, (.read other _, .bytes more) => if other = id then bytes ++ more else bytes
  | bytes, _ => bytes

/-- The files that are no directories have delivered their bytes up to their cursors. -/
def InOrder (s : List Kernel.OpenFile × List Answered) : Prop :=
  ∀ (id : Nat) opened, s.1[id]? = some opened → opened.image.listing = none →
    s.2.foldl (delivered id) [] = opened.image.content.take opened.cursor

theorem volumeService_inOrder {ε : Type} (fs : Kernel.FileSystem) (request : Kernel.FileCall)
    {s s' : List Kernel.OpenFile × List Answered} {reply : Kernel.FileReply} (before : InOrder s)
    (answered : traced (Kernel.volumeService ε fs) request s = .ok (reply, s')) : InOrder s' := by
  obtain ⟨files, trace⟩ := s
  have quiet (next : Answered) (same : ∀ id bytes, delivered id bytes next = bytes) :
      InOrder (files, trace ++ [next]) := by
    intro id opened found plain
    rw [List.foldl_concat, same]
    exact before id opened found plain
  cases request with
  | discard =>
      simp only [traced, Kernel.volumeService, Except.ok.injEq, Prod.mk.injEq] at answered
      obtain ⟨rfl, rfl⟩ := answered
      intro id opened found plain
      simp only [List.getElem?_dropLast] at found
      split_ifs at found
      exact quiet (.discard, .nothing) (fun _ _ => rfl) id opened found plain
  | load path =>
      simp only [traced, Kernel.volumeService] at answered
      cases known : fs.openFile path with
      | none =>
          simp only [known, Except.ok.injEq, Prod.mk.injEq] at answered
          obtain ⟨rfl, rfl⟩ := answered
          exact quiet _ fun _ _ => rfl
      | some image =>
          simp only [known, Except.ok.injEq, Prod.mk.injEq] at answered
          obtain ⟨rfl, rfl⟩ := answered
          exact quiet _ fun _ _ => rfl
  | openFile path =>
      simp only [traced, Kernel.volumeService] at answered
      cases known : fs.openFile path with
      | none =>
          simp only [known, Except.ok.injEq, Prod.mk.injEq] at answered
          obtain ⟨rfl, rfl⟩ := answered
          exact quiet _ fun _ _ => rfl
      | some image =>
          simp only [known, Except.ok.injEq, Prod.mk.injEq] at answered
          obtain ⟨rfl, rfl⟩ := answered
          intro id opened found plain
          rw [List.foldl_concat]
          by_cases new : files.length = id
          · subst new
            rw [List.getElem?_concat_length, Option.some.injEq] at found
            subst found
            simp [delivered]
          · have inside : id < files.length := by
              have bound := (List.getElem?_eq_some_iff.mp found).1
              rw [List.length_append, List.length_singleton] at bound
              omega
            rw [List.getElem?_append_left inside] at found
            simp only [delivered, if_neg new]
            exact before id opened found plain
  | read id size =>
      simp only [traced, Kernel.volumeService] at answered
      cases known : files[id]? with
      | none =>
          simp only [known, Except.ok.injEq, Prod.mk.injEq] at answered
          obtain ⟨rfl, rfl⟩ := answered
          exact quiet _ fun _ _ => rfl
      | some file =>
          simp only [known, Except.ok.injEq, Prod.mk.injEq] at answered
          obtain ⟨rfl, rfl⟩ := answered
          intro other opened found plain
          rw [List.foldl_concat]
          by_cases here : id = other
          · subst here
            have inside := (List.getElem?_eq_some_iff.mp known).1
            rw [List.getElem?_set_self inside, Option.some.injEq] at found
            subst found
            have earlier := before id file known plain
            simp only [delivered, if_true, earlier, Kernel.OpenFile.read]
            rw [List.take_add]
            congr 1
            rw [List.length_take, ← List.take_eq_take_min]
          · rw [List.getElem?_set_ne here] at found
            simp only [delivered, if_neg here]
            exact before other opened found plain
  | readdir id =>
      simp only [traced, Kernel.volumeService] at answered
      cases known : files[id]? with
      | none =>
          simp only [known, Except.ok.injEq, Prod.mk.injEq] at answered
          obtain ⟨rfl, rfl⟩ := answered
          exact quiet _ fun _ _ => rfl
      | some file =>
          rcases listed : file.image.listing with _ | ⟨infos, cursor⟩
          · simp only [known, listed, Except.ok.injEq, Prod.mk.injEq] at answered
            obtain ⟨rfl, rfl⟩ := answered
            exact quiet _ fun _ _ => rfl
          · simp only [known, listed, Except.ok.injEq, Prod.mk.injEq] at answered
            obtain ⟨rfl, rfl⟩ := answered
            intro other opened found plain
            by_cases here : id = other
            · subst here
              have inside := (List.getElem?_eq_some_iff.mp known).1
              rw [List.getElem?_set_self inside, Option.some.injEq] at found
              subst found
              rw [listed] at plain
              cases plain
            · rw [List.getElem?_set_ne here] at found
              exact quiet (.readdir id, .infos infos) (fun _ _ => rfl) other opened found plain

/-- In whatever order the programs open files, share them and read, the reads of a file that is
no directory together have delivered its bytes from the first one on: none is lost, and none is
delivered twice. -/
theorem reads_in_order {fuel : Nat} (enough : enoughFuel ≤ fuel) {m : Mounted disk}
    (unused : m.files = []) (finite : FiniteChains disk m.fs.info (contentsOf disk m.fs.info))
    (covered : Covered disk m.fs.info) (place : Kernel.Placement) (boot : Kernel.BootInfo)
    {traps : List Kernel.Trap} (short : ∀ trap ∈ traps, ShortPaths trap) :
    ∃ result last trace,
      (Kernel.systemClient place boot traps).run (traced (Mounted.service fuel)) (m, []) =
          .ok (result, (last, trace)) ∧
        ∀ (id : Nat) file, last.files[id]? = some file → file.directory = false →
          ∃ target, file.Holds (fileContents disk m.fs.info target) ∧
            trace.foldl (delivered id) [] =
              (fileContents disk m.fs.info target).take file.cursor := by
  obtain ⟨result, files, ran, _⟩ :=
    Kernel.systemClient_presents PathFault (volume disk m.fs.info) place boot traps
  obtain ⟨trace, noted⟩ := run_traced ran []
  have ordered : InOrder (files, trace) := by
    refine Client.run_invariant InOrder ?_ (fun request s reply s' before answered =>
      volumeService_inOrder _ request before answered) noted
    intro id opened found
    simp at found
  have start : SameTrace (Tracks disk m.fs.info) (m, ([] : List Answered)) ([], []) :=
    ⟨Tracks.start unused, rfl⟩
  obtain ⟨⟨last, trace'⟩, done, tracks, same⟩ :=
    (service_follows enough finite covered).traced.run (systemClient_legal place boot short)
      start noted
  simp only at same
  subst same
  refine ⟨result, last, trace', done, ?_⟩
  intro id file found plain
  rcases tracks.find id with ⟨none, _⟩ | ⟨file', opened, here, there, shows_⟩
  · rw [found] at none
    cases none
  · rw [found, Option.some.injEq] at here
    subst here
    obtain ⟨target, skip, holds, kind, inside, image, cursor⟩ := shows_
    rw [plain] at kind
    have first : skip = 0 := by
      rcases inside with zero | ⟨directory, _⟩
      · exact zero
      · rw [directory] at kind
        cases kind
    subst first
    have together := ordered id opened there (by rw [image, imageOf, ← kind]; rfl)
    refine ⟨target, holds, ?_⟩
    rw [together, image, imageOf, cursor, Nat.zero_add]
    rfl

section Sample

def binRecord : List UInt8 :=
  "BIN        ".toUTF8.toList ++ [0x10] ++ List.replicate 14 0 ++ [2, 0] ++ List.replicate 4 0

def hltRecord : List UInt8 :=
  "HLT     ELF".toUTF8.toList ++ List.replicate 15 0 ++ [3, 0] ++ [52, 0, 0, 0]

/-- A volume with the file `BIN/HLT.ELF`, a program without sections. The FAT ends every chain
after one cluster. -/
def hltDisk : Disk := fun sector offset =>
  if sector = 0 then if offset = 17 then 16 else smallDisk 0 offset
  else if sector ≤ 16 then 255
  else if sector = 17 then binRecord.getD offset 0
  else if sector = 18 then hltRecord.getD offset 0
  else if sector = 19 then [0x7f, 0x45, 0x4c, 0x46, 1, 1].getD offset 0
  else 0

theorem hltDisk_mounted :
    mount hltDisk = .ok (FSInfo.derive (PartitionBootRecord.load (hltDisk 0))) := by
  rfl

def hltVolume : Fat16FileSystem hltDisk := Fat16FileSystem.create hltDisk_mounted fun _ => 0

def hltMounted : Mounted hltDisk := ⟨hltVolume, [], fun _ _ => 0⟩

def binEntry : FileInfoEx := entryInfo binRecord
def hltEntry : FileInfoEx := entryInfo hltRecord

theorem hltVolume_chain {cluster : Nat} (there : cluster = 2 ∨ cluster = 3) :
    FatChain hltDisk hltVolume.info cluster [cluster] := by
  have goes : ¬ clusterEnd ≤ cluster := by
    simp only [clusterEnd]
    omega
  have link : fatEntry hltDisk hltVolume.info cluster = some 0xFFFF := by
    rcases there with rfl | rfl <;> decide +kernel
  exact Walk.passed goes link (Walk.stopped (by decide))

theorem hltVolume_chainOf {cluster : Nat} (there : cluster = 2 ∨ cluster = 3) :
    chainOf hltDisk hltVolume.info cluster = [cluster] :=
  Walk.unique (chainOf_spec ⟨_, hltVolume_chain there⟩) (hltVolume_chain there)

theorem listing_single {record bytes : List UInt8} (length : record.length = 32)
    (starts : entryByte record 0 ≠ 0) (shown : listed record = true) :
    listing (record ++ 0 :: bytes) = [entryInfo record] := by
  rw [listing, records_cons length starts, records_stop rfl, List.filter_cons_of_pos shown]
  rfl

theorem hltVolume_entries :
    entriesOf (contentsOf hltDisk hltVolume.info) .root = [binEntry] ∧
      entriesOf (contentsOf hltDisk hltVolume.info) (.entry binEntry) = [hltEntry] := by
  have cluster : binEntry.cluster % 2 ^ 16 = 2 := by decide +kernel
  have root : contentsOf hltDisk hltVolume.info .root =
      binRecord ++ 0 :: List.replicate 479 0 := by
    simp only [contentsOf, wholeContents]
    decide +kernel
  have bin : contentsOf hltDisk hltVolume.info (.entry binEntry) =
      hltRecord ++ 0 :: List.replicate 479 0 := by
    rw [contentsOf_entry, cluster, hltVolume_chainOf (Or.inl rfl)]
    decide +kernel
  constructor
  · rw [entriesOf, root]
    exact listing_single (by decide +kernel) (by decide +kernel) (by decide +kernel)
  · rw [entriesOf, bin]
    exact listing_single (by decide +kernel) (by decide +kernel) (by decide +kernel)

theorem hltVolume_tree {target : Target}
    (inside : InTree (contentsOf hltDisk hltVolume.info) target) :
    target = .root ∨ target = .entry binEntry ∨ target = .entry hltEntry := by
  obtain ⟨root, bin⟩ := hltVolume_entries
  have plain : hltEntry.directory = false := by decide +kernel
  induction inside with
  | root => exact Or.inl rfl
  | @entry target entry there directory member ih =>
      rcases ih with rfl | rfl | rfl
      · rw [root, List.mem_singleton] at member
        exact Or.inr (Or.inl (by rw [member]))
      · rw [bin, List.mem_singleton] at member
        exact Or.inr (Or.inr (by rw [member]))
      · rw [Target.directory, plain] at directory
        cases directory

theorem hltVolume_finite :
    FiniteChains hltDisk hltVolume.info (contentsOf hltDisk hltVolume.info) := by
  have first : binEntry.cluster % 2 ^ 16 = 2 := by decide +kernel
  have second : hltEntry.cluster % 2 ^ 16 = 3 := by decide +kernel
  intro entry inside
  rcases hltVolume_tree inside with same | same | same
  · cases same
  · rw [Target.entry.inj same, first]
    exact ⟨[2], hltVolume_chain (Or.inl rfl)⟩
  · rw [Target.entry.inj same, second]
    exact ⟨[3], hltVolume_chain (Or.inr rfl)⟩

theorem hltVolume_covered : Covered hltDisk hltVolume.info := by
  have bytes : 52 ≤ hltVolume.info.clusterBytes := by decide +kernel
  have size : hltEntry.size = 52 := by decide +kernel
  have cluster : hltEntry.cluster % 2 ^ 16 = 3 := by decide +kernel
  intro entry inside regular
  rcases hltVolume_tree inside with same | same | same
  · cases same
  · rw [Target.entry.inj same] at regular
    exact absurd regular (by decide +kernel)
  · rw [Target.entry.inj same, size, cluster, hltVolume_chainOf (Or.inr rfl)]
    simpa using bytes

theorem hltVolume_starts :
    ∃ s, Kernel.enterInit (volume hltDisk hltVolume.info) Kernel.smallPlacement Kernel.smallBoot =
      .ok s := by
  obtain ⟨root, bin⟩ := hltVolume_entries
  have names : components Kernel.hltPath =
      [[0x62, 0x69, 0x6E], [0x68, 0x6C, 0x74, 0x2E, 0x65, 0x6C, 0x66]] := by decide +kernel
  have bare : closed Kernel.hltPath = false := by decide +kernel
  have walked : walk (contentsOf hltDisk hltVolume.info) .root (components Kernel.hltPath)
      (closed Kernel.hltPath) = some (.entry hltEntry) := by
    have first : [binEntry].find? (fun entry => sameName entry.filename [0x62, 0x69, 0x6E]) =
        some binEntry := by decide +kernel
    have second : [hltEntry].find? (fun entry => sameName entry.filename
        [0x68, 0x6C, 0x74, 0x2E, 0x65, 0x6C, 0x66]) = some hltEntry := by decide +kernel
    have directory : binEntry.directory = true := by decide +kernel
    rw [names, bare, walk, root, first]
    simp only [List.cons_ne_nil, false_and, if_false, directory, if_true]
    rw [walk, bin, second]
    simp
  have content : (imageOf hltDisk hltVolume.info (.entry hltEntry)
      (startOf hltDisk hltVolume.info Kernel.hltPath (.entry hltEntry))).content =
        [0x7f, 0x45, 0x4c, 0x46, 1, 1] ++ List.replicate 506 0 := by
    have cluster : hltEntry.cluster % 2 ^ 16 = 3 := by decide +kernel
    rw [imageOf, startOf, hltPath_loadable.2, fileContents, cluster,
      hltVolume_chainOf (Or.inr rfl)]
    decide +kernel
  have opened : (volume hltDisk hltVolume.info).openFile Kernel.hltPath =
      some (imageOf hltDisk hltVolume.info (.entry hltEntry)
        (startOf hltDisk hltVolume.info Kernel.hltPath (.entry hltEntry))) := by
    rw [volume]
    simp only [walked, Option.map_some]
  have same : Kernel.enterInit (volume hltDisk hltVolume.info) Kernel.smallPlacement
      Kernel.smallBoot = Kernel.enterInit (Kernel.FileReply.bytes
        ([0x7f, 0x45, 0x4c, 0x46, 1, 1] ++ List.replicate 506 0)).volume Kernel.smallPlacement
          Kernel.smallBoot := by
    rw [← content]
    simp only [Kernel.enterInit, Kernel.loaded_execv _ _ _ _ _ _ _ opened]
  rw [same]
  have starts : (Kernel.enterInit (Kernel.FileReply.bytes
      ([0x7f, 0x45, 0x4c, 0x46, 1, 1] ++ List.replicate 506 0)).volume Kernel.smallPlacement
        Kernel.smallBoot).toOption.isSome = true := by decide +kernel
  cases entered : Kernel.enterInit (Kernel.FileReply.bytes
      ([0x7f, 0x45, 0x4c, 0x46, 1, 1] ++ List.replicate 506 0)).volume Kernel.smallPlacement
        Kernel.smallBoot with
  | error stop =>
      rw [entered] at starts
      cases starts
  | ok s => exact ⟨s, rfl⟩

def hltTraps : List Kernel.Trap :=
  [{ Kernel.plainCall 5 64 0 0 with mem := fun x => Kernel.hltPath.getD (x - 64) 0 },
    Kernel.plainCall 3 3 512 32, Kernel.plainCall 3 3 544 32]

theorem hltTraps_short : ∀ trap ∈ hltTraps, ShortPaths trap := by
  have spelled : Kernel.loadString (fun x => Kernel.hltPath.getD (x - 64) 0) 64 =
      Kernel.hltPath := by decide +kernel
  intro trap member
  simp only [hltTraps, List.mem_cons, List.not_mem_nil, or_false] at member
  rcases member with rfl | rfl | rfl
  · have path : ShortNames (Kernel.loadString (fun x => Kernel.hltPath.getD (x - 64) 0) 64) := by
      rw [spelled]
      exact hltPath_loadable.1.2
    exact fun _ => path
  · trivial
  · trivial

theorem system_over_driver_hlt :
    (∃ s, Kernel.enterInit (volume hltDisk hltVolume.info) Kernel.smallPlacement
      Kernel.smallBoot = .ok s) ∧
    ∃ result last files,
      (Kernel.systemClient Kernel.smallPlacement Kernel.smallBoot hltTraps).run
          (Mounted.service enoughFuel) hltMounted = .ok (result, last) ∧
        Kernel.system (volume hltDisk hltVolume.info) Kernel.smallPlacement Kernel.smallBoot
          hltTraps = result.map (Kernel.State.withFiles files) ∧
        Tracks hltDisk hltVolume.info last files :=
  ⟨hltVolume_starts, @system_over_driver hltDisk enoughFuel (Nat.le_refl _) hltMounted rfl
    hltVolume_finite hltVolume_covered Kernel.smallPlacement Kernel.smallBoot _ hltTraps_short⟩

theorem reads_in_order_hlt :
    ∃ result last trace,
      (Kernel.systemClient Kernel.smallPlacement Kernel.smallBoot hltTraps).run
          (traced (Mounted.service enoughFuel)) (hltMounted, []) = .ok (result, (last, trace)) ∧
        ∀ (id : Nat) file, last.files[id]? = some file → file.directory = false →
          ∃ target, file.Holds (fileContents hltDisk hltVolume.info target) ∧
            trace.foldl (delivered id) [] =
              (fileContents hltDisk hltVolume.info target).take file.cursor :=
  @reads_in_order hltDisk enoughFuel (Nat.le_refl _) hltMounted rfl hltVolume_finite
    hltVolume_covered Kernel.smallPlacement Kernel.smallBoot _ hltTraps_short

end Sample

end SysImpl.Fat
