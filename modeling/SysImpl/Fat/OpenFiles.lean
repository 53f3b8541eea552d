import SysImpl.Fat.Names
import SysImpl.Fat.Positions
import SysImpl.Kernel.FileCalls

/-! The driver as the file system of the kernel.

The driver answers the calls of the kernel from chains of clusters, cursors and buffers. Its
replies are those of a volume that presents every file as a string of bytes. -/

namespace SysImpl.Fat

open Bytes Services

variable {disk : Disk} {info : FSInfo}

/-- The driver with the files it has opened. The buffers of the files still to be opened will
hold what is in `fresh`. -/
structure Mounted (disk : Disk) where
  fs : Fat16FileSystem disk
  files : List (File disk)
  fresh : Nat → Mem

/-- The reads of `execv`, which takes for the size where the cursor stands at the end. -/
def File.load (file : File disk) : Except FileFault (List UInt8) :=
  let file := file.seek 0 2
  let size := file.cursor
  ((file.seek 0 0).read size).map Prod.fst

namespace Mounted

def openFile (fuel : Nat) (path : List UInt8) (m : Mounted disk) :
    Except PathFault (Option (File disk) × Mounted disk) :=
  (m.fs.openFile fuel path (m.fresh 0)).map fun opened =>
    (opened.1, { m with fs := opened.2, fresh := fun i => m.fresh (i + 1) })

def service (fuel : Nat) : Service Kernel.FileCall Kernel.FileReply PathFault (Mounted disk)
  | .openFile path, m =>
      match m.openFile fuel path with
      | .error fault => .error fault
      | .ok (none, m) => .ok (.nothing, m)
      | .ok (some file, m) => .ok (.opened m.files.length, { m with files := m.files ++ [file] })
  | .discard, m => .ok (.nothing, { m with files := m.files.dropLast })
  | .read id size, m =>
      match m.files[id]? with
      | none => .ok (.nothing, m)
      | some file =>
          match file.read size with
          | .error fault => .error (.file fault)
          | .ok (bytes, file) => .ok (.bytes bytes, { m with files := m.files.set id file })
  | .readdir id, m =>
      match m.files[id]? with
      | none => .ok (.nothing, m)
      | some file =>
          match OpenDirectory.fromFile fuel file with
          | .error fault => .error (.file fault)
          | .ok none => .ok (.nothing, m)
          | .ok (some dir) =>
              .ok (.infos (dir.infos.map FileInfoEx.reported),
                { m with files := m.files.set id dir.file })
  | .load path, m =>
      match m.openFile fuel path with
      | .error fault => .error fault
      | .ok (none, m) => .ok (.nothing, m)
      | .ok (some file, m) =>
          match file.load with
          | .error fault => .error (.file fault)
          | .ok bytes => .ok (.bytes bytes, m)

end Mounted

section Volume

variable (disk : Disk) (info : FSInfo)

noncomputable def fileContents : Target → List UInt8
  | .root => contentsOf disk info .root
  | .entry entry =>
      (chainContents disk info (chainOf disk info (entry.cluster % 2 ^ 16))).take
        (ClusterFile.raisedSize info (chainOf disk info (entry.cluster % 2 ^ 16)).length
          (if entry.directory then 0 else entry.size))

noncomputable def imageOf (target : Target) (skip : Nat) : Kernel.FileImage where
  content := (fileContents disk info target).drop skip
  listing :=
    if target.directory then
      some ((listing (fileContents disk info target)).map FileInfoEx.reported,
        listingEnd (fileContents disk info target) - skip)
    else none

noncomputable def startOf (path : List UInt8) (target : Target) : Nat :=
  if throughSlash path then listingEnd (fileContents disk info target) else 0

/-- The volume that the kernel sees. -/
noncomputable def volume : Kernel.FileSystem where
  openFile path :=
    (walk (contentsOf disk info) .root (components path) (closed path)).map fun target =>
      imageOf disk info target (startOf disk info path target)

def Covered : Prop :=
  ∀ entry, InTree (contentsOf disk info) (.entry entry) → entry.directory = false →
    entry.size ≤ (chainOf disk info (entry.cluster % 2 ^ 16)).length * info.clusterBytes

/-- The file of the driver has what the kernel sees, and stands at the same byte. -/
def Shows (file : File disk) (opened : Kernel.OpenFile) : Prop :=
  ∃ target skip, file.Holds (fileContents disk info target) ∧
    file.directory = target.directory ∧
    (skip = 0 ∨ target.directory = true ∧ skip = listingEnd (fileContents disk info target)) ∧
    opened.image = imageOf disk info target skip ∧ file.cursor = skip + opened.cursor

structure Tracks (m : Mounted disk) (files : List Kernel.OpenFile) : Prop where
  same : m.fs.info = info
  count : m.files.length = files.length
  each : ∀ (id : Nat) file opened, m.files[id]? = some file → files[id]? = some opened →
    Shows disk info file opened

def ShortNames (path : List UInt8) : Prop :=
  ∀ name ∈ components path, name.length ≤ maxFilenameLength

def Openable (path : List UInt8) : Prop := (∀ c ∈ path, c ≠ 0) ∧ ShortNames path

def Loadable (path : List UInt8) : Prop := Openable path ∧ throughSlash path = false

end Volume

namespace File

variable {file : File disk} {bytes : List UInt8}

theorem Holds.length_lt (holds : file.Holds bytes) : bytes.length < 2 ^ 32 := by
  cases holds with
  | sequential small size place => rwa [sectorBytes_length, ← size]
  | cluster positive small covers =>
      exact (List.length_take_le _ _).trans_lt small

theorem Holds.load (holds : file.Holds bytes) : file.load = .ok bytes := by
  have size : (file.seek 0 2).cursor = bytes.length := by
    have small := holds.length_lt
    cases holds with
    | @sequential file sectors bound size place =>
        rw [sectorBytes_length] at small ⊢
        simp only [File.seek, SequentialFile.seek, seekCursor, File.cursor, keep32, size]
        simp only [show ¬ ((2 : Int) = 1) by decide, show ¬ ((2 : Int) = 0) by decide, if_false,
          if_true]
        omega
    | @cluster file positive bound covers =>
        rw [← @chainContents_length disk] at covers
        rw [List.length_take, Nat.min_eq_left covers] at small ⊢
        simp only [File.seek, ClusterFile.seek, seekCursor, File.cursor, keep32]
        simp only [show ¬ ((2 : Int) = 1) by decide, show ¬ ((2 : Int) = 0) by decide, if_false,
          if_true]
        omega
  have sought : (file.seek 0 2).Same file := by
    cases file with
    | sequential file => exact Same.sequential ⟨rfl, rfl⟩
    | cluster file => exact Same.cluster ⟨rfl, rfl, rfl, rfl⟩
  obtain ⟨back, start⟩ := (file.seek 0 2).seek_start
  obtain ⟨after, done, _⟩ := ((back.trans sought).holds holds).read bytes.length
  rw [start, List.drop_zero, List.take_length] at done
  simp only [File.load, size, done]
  rfl

end File

theorem walk_inTree {contents : Target → List UInt8} {target reached : Target}
    {names : List (List UInt8)} {closed : Bool} (inside : InTree contents target)
    (directory : target.directory = true)
    (walked : walk contents target names closed = some reached) : InTree contents reached := by
  induction names generalizing target with
  | nil =>
      rw [walk, Option.some.injEq] at walked
      rwa [← walked]
  | cons name rest ih =>
      simp only [walk] at walked
      split at walked
      · cases walked
      · next entry found =>
          have there := InTree.entry inside directory (List.mem_of_find?_eq_some found)
          split_ifs at walked with last kind
          · rw [Option.some.injEq] at walked
            rwa [← walked]
          · exact ih there kind walked

theorem walk_closed {contents : Target → List UInt8} {target reached : Target}
    {names : List (List UInt8)} (directory : target.directory = true)
    (walked : walk contents target names true = some reached) : reached.directory = true := by
  induction names generalizing target with
  | nil =>
      rw [walk, Option.some.injEq] at walked
      rwa [← walked]
  | cons name rest ih =>
      simp only [walk] at walked
      split at walked
      · cases walked
      · next entry found =>
          rw [if_neg (by simp)] at walked
          split_ifs at walked with kind
          exact @ih (.entry entry) kind walked

theorem startOf_cases {path : List UInt8} {target : Target}
    (walked : walk (contentsOf disk info) .root (components path) (closed path) = some target) :
    startOf disk info path target = 0 ∨ target.directory = true ∧
      startOf disk info path target = listingEnd (fileContents disk info target) := by
  rw [startOf]
  split_ifs with through
  · refine Or.inr ⟨?_, rfl⟩
    rw [throughSlash, Bool.or_eq_true, List.isEmpty_iff] at through
    rcases through with none | slashed
    · rw [none, walk, Option.some.injEq] at walked
      rw [← walked]
      rfl
    · rw [slashed] at walked
      exact walk_closed rfl walked
  · exact Or.inl rfl

theorem Made_holds {file : ClusterFile disk} {clusters : List Nat} {stat : FileStat}
    (made : ClusterFile.Made file info clusters stat) (positive : 0 < info.pbr.sectorsPerCluster)
    (small : stat.size < 2 ^ 32)
    (fits : stat.directory = false → stat.size ≤ clusters.length * info.clusterBytes) :
    (File.cluster file).Holds ((chainContents disk info clusters).take
      (ClusterFile.raisedSize info clusters.length (if stat.directory then 0 else stat.size))) := by
  have raised := made.raised
  have given : (if stat.directory then 0 else stat.size) ≤ clusters.length * info.clusterBytes ∧
      (if stat.directory then 0 else stat.size) < 2 ^ 32 := by
    cases kind : stat.directory with
    | true => simp
    | false => simpa using ⟨fits kind, small⟩
  have covers : file.stat.size ≤ clusters.length * info.clusterBytes := by
    rw [raised]
    exact ClusterFile.raisedSize_le given.1
  obtain ⟨table, contents⟩ := made.contents covers
  rw [chainContents_length] at table
  rw [← raised, ← contents, ← made.volume]
  refine File.Holds.cluster (by rw [made.volume]; exact positive) ?_
    (by rw [made.volume]; exact table)
  rw [raised]
  exact ClusterFile.raisedSize_lt given.2

theorem File.Denotes.holds {fs : Fat16FileSystem disk} {file : File disk} {target : Target}
    (denotes : file.Denotes fs.info target) (covered : Covered disk fs.info)
    (inside : InTree (contentsOf disk fs.info) target) :
    file.Holds (fileContents disk fs.info target) ∧ file.directory = target.directory := by
  cases denotes with
  | root start size => exact ⟨root_holds fs start size, rfl⟩
  | @entry file made entry same shape =>
      cases inside with
      | entry there directory member =>
          have inside := InTree.entry there directory member
          have holds := Made_holds shape (mount_ok fs.mounted).1 (listing_info member).2
            (covered entry inside)
          exact ⟨(File.Same.cluster same).holds holds,
            (congrArg FileStat.directory same.stat).trans shape.kind⟩

theorem mount_unique {first second : Fat16FileSystem disk} : first.info = second.info := by
  have one := first.mounted
  rw [second.mounted] at one
  exact (Except.ok.inj one).symm

/-- What a path opens in the driver is what the kernel sees under it. -/
theorem openFile_shows {fuel : Nat} (enough : enoughFuel ≤ fuel)
    (finite : FiniteChains disk info (contentsOf disk info)) (covered : Covered disk info)
    {path : List UInt8} (openable : Openable path) {m : Mounted disk}
    {files : List Kernel.OpenFile} (tracks : Tracks disk info m files) :
    ∃ result last, m.openFile fuel path = .ok (result, last) ∧ Tracks disk info last files ∧
      match walk (contentsOf disk info) .root (components path) (closed path) with
      | none => result = none
      | some target => ∃ file, result = some file ∧
          file.Holds (fileContents disk info target) ∧ file.directory = target.directory ∧
            file.cursor = startOf disk info path target := by
  obtain ⟨rfl, count, each⟩ := tracks
  obtain ⟨result, last, done, found⟩ := openFile_resolves enough (m.fresh 0)
    (finite.along InTree.root rfl _) openable.1 (fun root _ => ReachedShort.of_short openable.2)
  refine ⟨result, _, congrArg (Except.map _) done, ⟨mount_unique, count, each⟩, ?_⟩
  cases walked : walk (contentsOf disk m.fs.info) .root (components path) (closed path) with
  | none =>
      rw [walked] at found
      cases found
      rfl
  | some target =>
      rw [walked] at found
      cases found with
      | @file file _ denotes =>
          have inside := walk_inTree InTree.root rfl walked
          obtain ⟨holds, kind⟩ := denotes.holds covered inside
          have place := Fat16FileSystem.openFile_place done
          refine ⟨file, rfl, holds, kind, ?_⟩
          rw [startOf]
          split_ifs at place ⊢ with through
          · exact place.cursor holds
          · exact place

namespace Tracks

variable {m : Mounted disk} {files : List Kernel.OpenFile}

theorem append (tracks : Tracks disk info m files) {file : File disk} {opened : Kernel.OpenFile}
    (shows_ : Shows disk info file opened) :
    Tracks disk info { m with files := m.files ++ [file] } (files ++ [opened]) := by
  refine ⟨tracks.same, by simp [tracks.count], ?_⟩
  intro id file' opened' here there
  simp only [List.getElem?_append, tracks.count] at here there
  split_ifs at here there with inside
  · exact tracks.each id file' opened' here there
  · obtain ⟨zero, rfl⟩ := List.getElem?_eq_some_iff.mp here
    obtain ⟨_, rfl⟩ := List.getElem?_eq_some_iff.mp there
    simpa using shows_

theorem discard (tracks : Tracks disk info m files) :
    Tracks disk info { m with files := m.files.dropLast } files.dropLast := by
  refine ⟨tracks.same, by simp [tracks.count], ?_⟩
  intro id file opened here there
  simp only [List.getElem?_dropLast] at here there
  split_ifs at here there
  exact tracks.each id file opened here there

theorem set (tracks : Tracks disk info m files) (id : Nat) {file : File disk}
    {opened : Kernel.OpenFile} (shows_ : Shows disk info file opened) :
    Tracks disk info { m with files := m.files.set id file } (files.set id opened) := by
  refine ⟨tracks.same, by simp [tracks.count], ?_⟩
  intro other file' opened' here there
  simp only [List.getElem?_set, tracks.count] at here there
  split_ifs at here there with same
  · rw [← Option.some.inj here, ← Option.some.inj there]
    exact shows_
  · exact tracks.each other file' opened' here there

theorem find (tracks : Tracks disk info m files) (id : Nat) :
    (m.files[id]? = none ∧ files[id]? = none) ∨ ∃ file opened, m.files[id]? = some file ∧
      files[id]? = some opened ∧ Shows disk info file opened := by
  have count := tracks.count
  by_cases inside : id < files.length
  · have here : m.files[id]? = some m.files[id] := List.getElem?_eq_getElem (by omega)
    have there : files[id]? = some files[id] := List.getElem?_eq_getElem inside
    exact Or.inr ⟨_, _, here, there, tracks.each id _ _ here there⟩
  · exact Or.inl ⟨List.getElem?_eq_none (by omega), List.getElem?_eq_none (by omega)⟩

end Tracks

theorem Shows.read {file : File disk} {opened : Kernel.OpenFile}
    (shows_ : Shows disk info file opened) (size : Nat) :
    ∃ after, file.read size = .ok (opened.read size, after) ∧ Shows disk info after
      { opened with cursor := opened.cursor + (opened.read size).length } := by
  obtain ⟨target, skip, holds, kind, inside, image, cursor⟩ := shows_
  obtain ⟨after, done, same, advances⟩ := holds.read size
  have seen : opened.read size =
      ((fileContents disk info target).drop file.cursor).take size := by
    rw [Kernel.OpenFile.read, image, imageOf, List.drop_drop, cursor]
  refine ⟨after, by rw [seen]; exact done, target, skip, same.holds holds,
    same.directory.trans kind, inside, image, ?_⟩
  rw [advances, seen, cursor, Nat.add_assoc]

theorem Shows.readdir {fuel : Nat} (enough : enoughFuel ≤ fuel) {file : File disk}
    {opened : Kernel.OpenFile} (shows_ : Shows disk info file opened) :
    match opened.image.listing with
    | none => OpenDirectory.fromFile fuel file = .ok none
    | some (infos, cursor) => ∃ dir, OpenDirectory.fromFile fuel file = .ok (some dir) ∧
        dir.infos.map FileInfoEx.reported = infos ∧
          Shows disk info dir.file { opened with cursor := cursor } := by
  obtain ⟨target, skip, holds, kind, inside, image, cursor⟩ := shows_
  have listed : opened.image.listing = (imageOf disk info target skip).listing := by rw [image]
  rw [listed, imageOf]
  cases directory : target.directory with
  | false =>
      rw [directory] at kind
      simp only [Bool.false_eq_true, if_false, OpenDirectory.fromFile, kind]
  | true =>
      rw [directory] at kind
      have small := holds.length_lt
      obtain ⟨dir, done, infos, same⟩ := @OpenDirectory.init_spec disk file _ fuel holds
        (by simp only [enoughFuel] at enough; omega)
      obtain ⟨_, place⟩ := OpenDirectory.init_leaves done
      simp only [if_true]
      refine ⟨dir, ?_, by rw [infos], target, skip, same.holds holds,
        same.directory.trans (kind.trans directory.symm), inside, image, ?_⟩
      · rw [OpenDirectory.fromFile, if_pos kind, done]
        rfl
      · rw [place _ holds]
        have most : skip ≤ listingEnd (fileContents disk info target) := by
          rcases inside with rfl | ⟨_, rfl⟩
          · exact Nat.zero_le _
          · exact Nat.le_refl _
        exact (Nat.add_sub_cancel' most).symm

/-- The driver answers every sequence of calls as the volume does. -/
theorem service_follows {fuel : Nat} (enough : enoughFuel ≤ fuel)
    (finite : FiniteChains disk info (contentsOf disk info)) (covered : Covered disk info) :
    Follows (Kernel.FileCall.Within Openable Loadable) (Tracks disk info)
      (@Mounted.service disk fuel) (Kernel.volumeService PathFault (volume disk info)) := by
  intro request m files reply files' legal tracks answered
  cases request with
  | discard =>
      simp only [Kernel.volumeService, Except.ok.injEq, Prod.mk.injEq] at answered
      obtain ⟨rfl, rfl⟩ := answered
      exact ⟨_, rfl, tracks.discard⟩
  | read id size =>
      simp only [Kernel.volumeService] at answered
      rcases tracks.find id with ⟨here, there⟩ | ⟨file, opened, here, there, shows_⟩
      · rw [there] at answered
        simp only [Except.ok.injEq, Prod.mk.injEq] at answered
        obtain ⟨rfl, rfl⟩ := answered
        exact ⟨m, by simp only [Mounted.service, here], tracks⟩
      · rw [there] at answered
        simp only [Except.ok.injEq, Prod.mk.injEq] at answered
        obtain ⟨rfl, rfl⟩ := answered
        obtain ⟨after, done, still⟩ := shows_.read size
        exact ⟨_, by simp only [Mounted.service, here, done], tracks.set id still⟩
  | readdir id =>
      simp only [Kernel.volumeService] at answered
      rcases tracks.find id with ⟨here, there⟩ | ⟨file, opened, here, there, shows_⟩
      · rw [there] at answered
        simp only [Except.ok.injEq, Prod.mk.injEq] at answered
        obtain ⟨rfl, rfl⟩ := answered
        exact ⟨m, by simp only [Mounted.service, here], tracks⟩
      · rw [there] at answered
        have listed := shows_.readdir enough
        rcases known : opened.image.listing with _ | ⟨infos, cursor⟩
        · rw [known] at listed
          simp only [known, Except.ok.injEq, Prod.mk.injEq] at answered
          obtain ⟨rfl, rfl⟩ := answered
          exact ⟨m, by simp only [Mounted.service, here, listed], tracks⟩
        · rw [known] at listed
          simp only [known, Except.ok.injEq, Prod.mk.injEq] at answered
          obtain ⟨rfl, rfl⟩ := answered
          obtain ⟨dir, done, rfl, still⟩ := listed
          exact ⟨_, by simp only [Mounted.service, here, done], tracks.set id still⟩
  | openFile path =>
      obtain ⟨result, last, done, kept, found⟩ :=
        openFile_shows enough finite covered legal tracks
      simp only [Kernel.volumeService, volume] at answered
      cases walked : walk (contentsOf disk info) .root (components path) (closed path) with
      | none =>
          rw [walked] at answered found
          simp only [Option.map_none, Except.ok.injEq, Prod.mk.injEq] at answered
          obtain ⟨rfl, rfl⟩ := answered
          subst found
          exact ⟨last, by simp only [Mounted.service, done], kept⟩
      | some target =>
          rw [walked] at answered found
          simp only [Option.map_some, Except.ok.injEq, Prod.mk.injEq] at answered
          obtain ⟨rfl, rfl⟩ := answered
          obtain ⟨file, rfl, holds, kind, place⟩ := found
          refine ⟨{ last with files := last.files ++ [file] },
            by simp only [Mounted.service, done, kept.count], kept.append ?_⟩
          exact ⟨target, _, holds, kind, startOf_cases walked, rfl, place⟩
  | load path =>
      obtain ⟨result, last, done, kept, found⟩ :=
        openFile_shows enough finite covered legal.1 tracks
      simp only [Kernel.volumeService, volume] at answered
      cases walked : walk (contentsOf disk info) .root (components path) (closed path) with
      | none =>
          rw [walked] at answered found
          simp only [Option.map_none, Except.ok.injEq, Prod.mk.injEq] at answered
          obtain ⟨rfl, rfl⟩ := answered
          subst found
          exact ⟨last, by simp only [Mounted.service, done], kept⟩
      | some target =>
          rw [walked] at answered found
          simp only [Option.map_some, Except.ok.injEq, Prod.mk.injEq] at answered
          obtain ⟨rfl, rfl⟩ := answered
          obtain ⟨file, rfl, holds, kind, place⟩ := found
          have whole : (imageOf disk info target (startOf disk info path target)).content =
              fileContents disk info target := by
            rw [imageOf, startOf, legal.2]
            exact List.drop_zero
          exact ⟨last, by simp only [Mounted.service, done, holds.load, whole], kept⟩

end SysImpl.Fat
