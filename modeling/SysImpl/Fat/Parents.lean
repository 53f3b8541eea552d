import SysImpl.Fat.Listing
import SysImpl.Fat.Stores

/-! The way back from a directory to the one it is in.

The entry `..` of a directory under the root directory has the cluster 0. A file of that
cluster is opened like any other, along the chain from the entry 0 of the FAT. -/

namespace SysImpl.Fat

open Bytes Walks

variable {disk : Disk}

def dotdot : List UInt8 := [0x2E, 0x2E]

def Proper (name : List UInt8) : Prop := name ≠ [0x2E] ∧ name ≠ dotdot

def Target.linkCluster : Target → Nat
  | .root => 0
  | .entry info => info.cluster % 2 ^ 16

/-- The chain of each directory ends, and its entry `..` leads back to the one it is in. -/
structure WellFormedTree (disk : Disk) (info : FSInfo) : Prop where
  finite : ∀ names entry, (∀ name ∈ names, Proper name) →
    walk (contentsOf disk info) .root names true = some (.entry entry) →
      ∃ clusters, FatChain disk info (entry.cluster % 2 ^ 16) clusters
  linked : ∀ names parent entry, (∀ name ∈ names, Proper name) → names ≠ [] →
    walk (contentsOf disk info) .root names.dropLast true = some parent →
      walk (contentsOf disk info) .root names true = some (.entry entry) →
        ∃ link, ((entriesOf (contentsOf disk info) (.entry entry)).find?
            fun entry => sameName entry.filename dotdot) = some link ∧
          link.directory = true ∧ link.cluster % 2 ^ 16 = parent.linkCluster

def Lists (fs : Fat16FileSystem disk) (fuel : Nat) (path : List UInt8) (garbage : Mem)
    (infos : List FileInfoEx) : Prop :=
  ∃ file last dir, fs.openFile fuel path garbage = .ok (some file, last) ∧
    OpenDirectory.fromFile fuel file = .ok (some dir) ∧ dir.infos = infos

/-- The chain from the cluster 0 on ends, and the sectors that are taken for its clusters hold
the entries of the root directory. -/
def RootOnChain (disk : Disk) (info : FSInfo) : Prop :=
  (∃ clusters, FatChain disk info 0 clusters) ∧
    entriesOf (contentsOf disk info) (.entry ⟨dotdot, true, 0, 0⟩) =
      entriesOf (contentsOf disk info) .root

section Walk

variable {info : FSInfo} {contents : Target → List UInt8} {target last : Target}
  {front back names : List (List UInt8)} {ending : Bool}

theorem walk_append (more : back ≠ []) :
    walk contents target (front ++ back) ending =
      (walk contents target front true).bind fun last => walk contents last back ending := by
  induction front generalizing target with
  | nil => rfl
  | cons name rest ih =>
      rw [List.cons_append, walk, walk]
      cases (entriesOf contents target).find? fun entry => sameName entry.filename name with
      | none => rfl
      | some entry =>
          have goes : rest ++ back ≠ [] := by
            intro nothing
            exact more (List.append_eq_nil_iff.mp nothing).2
          simp only [goes, false_and, if_false, Bool.true_eq_false, and_false]
          cases entry.directory with
          | false => rfl
          | true => exact ih

theorem walk_cons_closed {name : List UInt8} :
    walk contents target (name :: names) true = some last ↔
      ∃ entry, ((entriesOf contents target).find? fun entry => sameName entry.filename name) =
          some entry ∧ entry.directory = true ∧ walk contents (.entry entry) names true = some last := by
  rw [walk]
  cases (entriesOf contents target).find? fun entry => sameName entry.filename name with
  | none => simp
  | some entry =>
      cases kind : entry.directory with
      | false => simp [kind]
      | true => simp [kind]

theorem walk_open (closed : walk contents target names true = some last) :
    walk contents target names ending = some last := by
  induction names generalizing target with
  | nil => exact closed
  | cons name rest ih =>
      obtain ⟨entry, found, kind, later⟩ := walk_cons_closed.mp closed
      rw [walk, found]
      simp only [kind, if_true]
      split
      · next ends =>
          rw [ends.1] at later
          exact later
      · exact ih later

theorem walk_directory (start : target.directory = true)
    (closed : walk contents target names true = some last) : last.directory = true := by
  induction names generalizing target with
  | nil =>
      cases closed
      exact start
  | cons name rest ih =>
      obtain ⟨entry, _, kind, later⟩ := walk_cons_closed.mp closed
      exact @ih (.entry entry) kind later

theorem finiteAlong_append :
    FiniteAlong disk info contents target (front ++ back) ↔
      FiniteAlong disk info contents target front ∧
        ∀ last, walk contents target front true = some last →
          FiniteAlong disk info contents last back := by
  induction front generalizing target with
  | nil =>
      constructor
      · intro along
        refine ⟨trivial, ?_⟩
        intro last reached
        cases reached
        exact along
      · intro both
        exact both.2 target rfl
  | cons name rest ih =>
      simp only [List.cons_append, FiniteAlong, walk]
      cases (entriesOf contents target).find? fun entry => sameName entry.filename name with
      | none => simp
      | some entry =>
          simp only [Option.some.injEq, forall_eq', Bool.true_eq_false, and_false, if_false]
          cases entry.directory with
          | false => simp
          | true =>
              simp only [true_implies, if_true, ih]
              tauto

theorem finiteAlong_directories (closed : walk contents target names true = some last)
    (finite : ∀ front back entry, names = front ++ back →
      walk contents target front true = some (.entry entry) →
        ∃ clusters, FatChain disk info (entry.cluster % 2 ^ 16) clusters) :
    FiniteAlong disk info contents target names := by
  induction names generalizing target with
  | nil => trivial
  | cons name rest ih =>
      obtain ⟨first, found, kind, later⟩ := walk_cons_closed.mp closed
      intro entry again
      rw [found] at again
      cases again
      refine ⟨finite [name] rest first rfl (walk_cons_closed.mpr ⟨first, found, kind, rfl⟩), ?_⟩
      intro _
      apply ih later
      intro front back entry split reached
      exact finite (name :: front) back entry (by rw [split]; rfl)
        (walk_cons_closed.mpr ⟨first, found, kind, reached⟩)

end Walk

theorem File.Denotes.lists {fuel : Nat} (enough : enoughFuel ≤ fuel) (fs : Fat16FileSystem disk)
    {file : File disk} {target : Target} (denotes : file.Denotes fs.info target)
    (directory : target.directory = true) :
    ∃ dir, OpenDirectory.fromFile fuel file = .ok (some dir) ∧
      dir.infos = entriesOf (contentsOf disk fs.info) target := by
  cases denotes with
  | root start size =>
      obtain ⟨dir, done, infos, -⟩ :=
        OpenDirectory.fromFile_spec enough rfl (root_holds fs start size)
      exact ⟨dir, done, infos⟩
  | @entry file made info same shape =>
      have kind : (File.cluster file).directory = true := by
        rw [File.directory, same.stat, shape.kind]
        exact directory
      rw [show info.directory = true from directory] at shape
      have holds := (File.Same.cluster same).holds (shape.holds (mount_ok fs.mounted).1)
      rw [← contentsOf_entry] at holds
      obtain ⟨dir, done, infos, -⟩ := OpenDirectory.fromFile_spec enough kind holds
      exact ⟨dir, done, infos⟩

theorem openFile_returned {fuel : Nat} {fs : Fat16FileSystem disk} {dir : Directory}
    {name : List UInt8} {garbage : Mem} {entry : FileInfoEx}
    {result : Option (ClusterFile disk) × Fat16FileSystem disk}
    (found : dir.lookup name = some entry) (small : entry.size < 2 ^ 32)
    (done : dir.openFile fuel fs name garbage = .ok result) :
    ∃ file last, result = (some file, last) ∧ last.info = fs.info ∧
      (∃ clusters, FatChain disk fs.info (entry.cluster % 2 ^ 16) clusters) ∧
      ClusterFile.Made file fs.info (chainOf disk fs.info (entry.cluster % 2 ^ 16))
        ⟨entry.size, entry.directory⟩ := by
  simp only [Directory.openFile, found] at done
  split at done
  · cases done
  · next file last created =>
      obtain ⟨clusters, chain, made, kept⟩ := ClusterFile.create_ok
        (show (FileStat.mk entry.size entry.directory).size < 2 ^ 32 from small) created
      rw [Walk.unique chain (chainOf_spec ⟨_, chain⟩)] at made
      exact ⟨file, last, (Except.ok.inj done).symm, kept, ⟨clusters, chain⟩, made⟩

theorem openNames_along {info : FSInfo} {fuel : Nat} (enough : enoughFuel ≤ fuel) (garbage : Mem)
    {rounds : Nat} (positive : 0 < info.pbr.sectorsPerCluster) {fs : Fat16FileSystem disk}
    (same : fs.info = info) {scwd : OpenDirectory disk} {file : File disk} {target : Target}
    {cursor : List UInt8} (infos : scwd.infos = entriesOf (contentsOf disk info) target)
    (start : cursor.head? ≠ some slash) (nonzero : ∀ c ∈ cursor, c ≠ 0)
    {result : Option (File disk) × Fat16FileSystem disk}
    (done : openNames fuel garbage rounds fs scwd file cursor = .ok result) :
    FiniteAlong disk info (contentsOf disk info) target (components cursor) := by
  induction rounds generalizing fs scwd file target cursor with
  | zero => cases done
  | succ rounds ih =>
      by_cases empty : cursor = []
      · subst empty
        trivial
      have spelled : ∀ c ∈ (scanName cursor).1, c ≠ 0 := fun c here =>
        nonzero c ((scanName_subset cursor).1 here)
      simp only [openNames, if_neg empty] at done
      split at done
      · next fits =>
          have shape : ∃ rest, components cursor = (scanName cursor).1 :: rest ∧
              (rest = [] ∨ (scanName cursor).2.head? = some slash ∧
                rest = components (skipSlashes (scanName cursor).2)) := by
            rcases round_names start empty with ⟨_, names⟩ | ⟨goes, names, _⟩
            · exact ⟨[], names, Or.inl rfl⟩
            · exact ⟨_, names, Or.inr ⟨goes, rfl⟩⟩
          obtain ⟨rest, names, shape⟩ := shape
          rw [names]
          intro entry first
          have known : scwd.toDirectory.lookup (scanName cursor).1 = some entry :=
            (lookup_listing infos spelled).trans first
          have small := (listing_info (List.mem_of_find?_eq_some first)).2
          cases opened : scwd.toDirectory.openFile fuel fs (scanName cursor).1 garbage with
          | error fault =>
              rw [opened] at done
              cases done
          | ok pair =>
              obtain ⟨file, last, rfl, kept, chain, made⟩ := openFile_returned known small opened
              rw [same] at chain made kept
              refine ⟨chain, fun kind => ?_⟩
              rcases shape with rfl | ⟨goes, rfl⟩
              · trivial
              obtain ⟨dir, entered, listing, -⟩ := fromFile_directory enough positive made kind
              simp only [opened, if_pos goes, entered] at done
              exact ih kept listing (skipSlashes_head _)
                (fun c here => nonzero c ((scanName_subset cursor).2 here)) done
      · cases done

theorem lists_iff {fuel : Nat} (enough : enoughFuel ≤ fuel) (garbage : Mem)
    {fs : Fat16FileSystem disk} {path : List UInt8} (nonzero : ∀ c ∈ path, c ≠ 0)
    {target : Target}
    (reached : walk (contentsOf disk fs.info) .root (components path) (closed path) = some target)
    (directory : target.directory = true) (infos : List FileInfoEx) :
    Lists fs fuel path garbage infos ↔
      FiniteAlong disk fs.info (contentsOf disk fs.info) .root (components path) ∧
        infos = entriesOf (contentsOf disk fs.info) target := by
  have fits : PathFits fs fuel path garbage := by
    intro root _
    apply ReachedShort.of_short
    intro name member
    by_contra long
    rw [walk_overlong ⟨name, member, Nat.lt_of_not_le long⟩] at reached
    cases reached
  have answer : FiniteAlong disk fs.info (contentsOf disk fs.info) .root (components path) →
      ∃ file last, fs.openFile fuel path garbage = .ok (some file, last) ∧
        file.Denotes fs.info target := by
    intro along
    obtain ⟨result, last, done, found⟩ := openFile_resolves enough garbage along nonzero fits
    rw [reached] at found
    cases found with
    | @file file _ denotes => exact ⟨file, last, done, denotes⟩
  constructor
  · rintro ⟨file, last, dir, opened, entered, rfl⟩
    have along : FiniteAlong disk fs.info (contentsOf disk fs.info) .root (components path) := by
      obtain ⟨root, started, listing, -⟩ := getRootDirectory_spec enough garbage fs
      have done := opened
      rw [Fat16FileSystem.openFile, started] at done
      have met := openNames_along enough garbage (mount_ok fs.mounted).1 rfl listing
        (skipSlashes_head path) (fun c member => nonzero c (skipSlashes_subset path member)) done
      rw [components_skip] at met
      exact met
    refine ⟨along, ?_⟩
    obtain ⟨file', last', opened', denotes⟩ := answer along
    rw [opened] at opened'
    cases opened'
    obtain ⟨dir', entered', listing⟩ := denotes.lists enough fs directory
    rw [entered] at entered'
    cases entered'
    exact listing
  · rintro ⟨along, rfl⟩
    obtain ⟨file, last, opened, denotes⟩ := answer along
    obtain ⟨dir, entered, listing⟩ := denotes.lists enough fs directory
    exact ⟨file, last, dir, opened, entered, listing⟩

theorem WellFormedTree.along {info : FSInfo} (tree : WellFormedTree disk info)
    {names : List (List UInt8)} {last : Target} (proper : ∀ name ∈ names, Proper name)
    (closed : walk (contentsOf disk info) .root names true = some last) :
    FiniteAlong disk info (contentsOf disk info) .root names := by
  apply finiteAlong_directories closed
  rintro front back entry rfl reached
  exact tree.finite front entry (fun name member => proper name (List.mem_append_left _ member))
    reached

theorem components_dotdot (path : List UInt8) :
    components (path ++ slash :: dotdot) = components path ++ [dotdot] := by
  rw [components_append_slash]
  congr 1

theorem closed_dotdot (path : List UInt8) : closed (path ++ slash :: dotdot) = false := by
  rw [closed_append _ (List.cons_ne_nil _ _)]
  decide

theorem entriesOf_link {info : FSInfo} {link entry : FileInfoEx}
    (same : link.cluster % 2 ^ 16 = entry.cluster % 2 ^ 16) :
    entriesOf (contentsOf disk info) (.entry link) =
      entriesOf (contentsOf disk info) (.entry entry) := by
  simp only [entriesOf, contentsOf_entry, same]

theorem walk_entry {contents : Target → List UInt8} {entry : FileInfoEx}
    {names : List (List UInt8)} {last : Target}
    (closed : walk contents (.entry entry) names true = some last) : ∃ info, last = .entry info := by
  induction names generalizing entry with
  | nil => exact ⟨entry, (Option.some.inj closed).symm⟩
  | cons name rest ih =>
      obtain ⟨next, _, _, later⟩ := walk_cons_closed.mp closed
      exact ih later

/-- The directory that one is in is the root directory exactly at depth 1. -/
theorem walk_above {contents : Target → List UInt8} {entry : FileInfoEx}
    {names : List (List UInt8)} (closed : walk contents .root names true = some (.entry entry)) :
    names ≠ [] ∧ ∃ above, walk contents .root names.dropLast true = some above ∧
      (above = .root ∧ ¬ 2 ≤ names.length ∨ (∃ info, above = .entry info) ∧ 2 ≤ names.length) := by
  have more : names ≠ [] := by
    rintro rfl
    cases closed
  refine ⟨more, ?_⟩
  rw [← List.dropLast_append_getLast more, walk_append (List.cons_ne_nil _ _)] at closed
  obtain ⟨above, before, _⟩ := Option.bind_eq_some_iff.mp closed
  have length : names.dropLast.length + 1 = names.length := by
    rw [List.length_dropLast]
    exact Nat.sub_add_cancel (List.length_pos_of_ne_nil more)
  refine ⟨above, before, ?_⟩
  cases up : names.dropLast with
  | nil =>
      rw [up] at before length
      cases before
      refine Or.inl ⟨rfl, ?_⟩
      rw [← length]
      decide
  | cons name rest =>
      rw [up] at before length
      obtain ⟨first, _, _, later⟩ := walk_cons_closed.mp before
      refine Or.inr ⟨walk_entry later, ?_⟩
      rw [← length, List.length_cons]
      omega

theorem dotdot_lists {fuel : Nat} (enough : enoughFuel ≤ fuel) (garbage : Mem)
    {fs : Fat16FileSystem disk} {path : List UInt8} {entry link : FileInfoEx}
    (nonzero : ∀ c ∈ path, c ≠ 0)
    (along : FiniteAlong disk fs.info (contentsOf disk fs.info) .root (components path))
    (reached : walk (contentsOf disk fs.info) .root (components path) true = some (.entry entry))
    (found : ((entriesOf (contentsOf disk fs.info) (.entry entry)).find?
      fun entry => sameName entry.filename dotdot) = some link)
    (kind : link.directory = true) (infos : List FileInfoEx) :
    Lists fs fuel (path ++ slash :: dotdot) garbage infos ↔
      (∃ clusters, FatChain disk fs.info (link.cluster % 2 ^ 16) clusters) ∧
        infos = entriesOf (contentsOf disk fs.info) (.entry link) := by
  have spelled : ∀ c ∈ path ++ slash :: dotdot, c ≠ 0 := by
    intro c member
    rcases List.mem_append.mp member with here | behind
    · exact nonzero c here
    · exact (by decide +kernel : ∀ c ∈ slash :: dotdot, c ≠ 0) c behind
  have there : walk (contentsOf disk fs.info) .root (components (path ++ slash :: dotdot))
      (closed (path ++ slash :: dotdot)) = some (.entry link) := by
    rw [components_dotdot, closed_dotdot, walk_append (List.cons_ne_nil _ _), reached,
      Option.bind_some, walk, found]
    simp
  have chain : FiniteAlong disk fs.info (contentsOf disk fs.info) .root
      (components (path ++ slash :: dotdot)) ↔
        ∃ clusters, FatChain disk fs.info (link.cluster % 2 ^ 16) clusters := by
    rw [components_dotdot, finiteAlong_append, reached]
    simp only [along, true_and, Option.some.injEq, forall_eq', FiniteAlong, found, implies_true,
      and_true]
  rw [lists_iff enough garbage spelled there kind, chain]

/-- When `..` behind the path of a directory lists what the path to the directory above it
lists: the directory is not in the root directory, or the clusters from 0 on hold the entries of
that. -/
theorem parent_links_iff {fuel : Nat} (enough : enoughFuel ≤ fuel) (garbage : Mem)
    {fs : Fat16FileSystem disk} (tree : WellFormedTree disk fs.info) {path above : List UInt8}
    {entry : FileInfoEx} (nonzero : ∀ c ∈ path ++ above, c ≠ 0)
    (proper : ∀ name ∈ components path, Proper name)
    (reached : walk (contentsOf disk fs.info) .root (components path) true = some (.entry entry))
    (parent : components above = (components path).dropLast) :
    (∃ infos, Lists fs fuel (path ++ slash :: dotdot) garbage infos ∧
        Lists fs fuel above garbage infos) ↔
      2 ≤ (components path).length ∨ RootOnChain disk fs.info := by
  obtain ⟨more, up, before, depth⟩ := walk_above reached
  obtain ⟨link, found, kind, cluster⟩ := tree.linked _ up entry proper more before reached
  have upper : ∀ name ∈ (components path).dropLast, Proper name := fun name member =>
    proper name (List.mem_of_mem_dropLast member)
  have along : FiniteAlong disk fs.info (contentsOf disk fs.info) .root (components above) := by
    rw [parent]
    exact tree.along upper before
  have there : walk (contentsOf disk fs.info) .root (components above) (closed above) =
      some up := by
    rw [parent]
    exact walk_open before
  have top := lists_iff enough garbage (fun c member => nonzero c (List.mem_append_right _ member))
    there (walk_directory rfl before)
  have back := dotdot_lists enough garbage
    (fun c member => nonzero c (List.mem_append_left _ member)) (tree.along proper reached) reached
    found kind
  have both : (∃ infos, Lists fs fuel (path ++ slash :: dotdot) garbage infos ∧
      Lists fs fuel above garbage infos) ↔
        (∃ clusters, FatChain disk fs.info (link.cluster % 2 ^ 16) clusters) ∧
          entriesOf (contentsOf disk fs.info) (.entry link) =
            entriesOf (contentsOf disk fs.info) up := by
    simp only [top, back, along, true_and]
    constructor
    · rintro ⟨infos, ⟨chain, rfl⟩, same⟩
      exact ⟨chain, same⟩
    · rintro ⟨chain, same⟩
      exact ⟨_, ⟨chain, rfl⟩, same⟩
  rw [both]
  rcases depth with ⟨rfl, shallow⟩ | ⟨⟨info, rfl⟩, deep⟩
  · have zero : link.cluster % 2 ^ 16 = 0 := cluster
    have same : link.cluster % 2 ^ 16 = (FileInfoEx.mk dotdot true 0 0).cluster % 2 ^ 16 := zero
    rw [zero, or_iff_right shallow, RootOnChain, entriesOf_link same]
  · have same : link.cluster % 2 ^ 16 = info.cluster % 2 ^ 16 := cluster
    refine iff_of_true ⟨?_, entriesOf_link same⟩ (Or.inl deep)
    rw [same]
    exact tree.finite _ info upper before

def linkRecord (name : List UInt8) (cluster : UInt8) (offset : Nat) : UInt8 :=
  if offset < 11 then name.getD offset 0x20
  else if offset = 11 then attrDirectory
  else if offset = 26 then cluster
  else 0

/-- A volume with a directory `D` in cluster 2, and in that a directory `E` in cluster 3. -/
def linkDisk : Disk := fun sector offset =>
  if sector = 0 then
    match offset with
    | 12 => 2
    | 13 => 1
    | 16 => 1
    | 17 => 16
    | 19 => 0x88
    | 20 => 0x13
    | 22 => 16
    | 28 => 1
    | 38 => 0x29
    | _ => 0
  else if sector = 1 then if offset = 0 then 0xF8 else if offset < 8 then 0xFF else 0
  else if sector = 17 then if offset < 32 then linkRecord [0x44] 2 offset else 0
  else if sector = 18 then
    if offset < 32 then linkRecord [0x2E] 2 offset
    else if offset < 64 then linkRecord dotdot 0 (offset - 32)
    else if offset < 96 then linkRecord [0x45] 3 (offset - 64)
    else 0
  else if sector = 19 then
    if offset < 32 then linkRecord [0x2E] 3 offset
    else if offset < 64 then linkRecord dotdot 2 (offset - 32)
    else 0
  else 0

theorem linkDisk_mounted :
    mount linkDisk = .ok (FSInfo.derive (PartitionBootRecord.load (linkDisk 0))) := by
  rfl

def linkVolume : Fat16FileSystem linkDisk := Fat16FileSystem.create linkDisk_mounted fun _ => 0

def linkD : FileInfoEx := ⟨[0x44], true, 0, 2⟩
def linkE : FileInfoEx := ⟨[0x45], true, 0, 3⟩
def linkSelf (cluster : Nat) : FileInfoEx := ⟨[0x2E], true, 0, cluster⟩
def linkUp (cluster : Nat) : FileInfoEx := ⟨dotdot, true, 0, cluster⟩

theorem linkVolume_chain {cluster : Nat} (few : cluster = 0 ∨ cluster = 2 ∨ cluster = 3) :
    FatChain linkDisk linkVolume.info cluster [cluster] := by
  rcases few with rfl | rfl | rfl
  · exact Walk.passed (by decide) (by decide +kernel : _ = some 0xFFF8) (Walk.stopped (by decide))
  · exact Walk.passed (by decide) (by decide +kernel : _ = some 0xFFFF) (Walk.stopped (by decide))
  · exact Walk.passed (by decide) (by decide +kernel : _ = some 0xFFFF) (Walk.stopped (by decide))

theorem linkVolume_root : entriesOf (contentsOf linkDisk linkVolume.info) .root = [linkD] := by
  rw [entriesOf, listing_eq, contentsOf, wholeContents]
  decide +kernel

theorem linkVolume_cluster {entry : FileInfoEx} {cluster : Nat}
    (few : cluster = 0 ∨ cluster = 2 ∨ cluster = 3) (first : entry.cluster = cluster) :
    entriesOf (contentsOf linkDisk linkVolume.info) (.entry entry) =
      (shownRecords (chainContents linkDisk linkVolume.info [cluster])).map entryInfo := by
  have small : entry.cluster % 2 ^ 16 = cluster := by omega
  have chain := linkVolume_chain few
  have bytes : linkVolume.info.clusterBytes = 512 := by decide +kernel
  rw [entriesOf, listing_eq, contentsOf_entry, small,
    Walk.unique (chainOf_spec ⟨_, chain⟩) chain, bytes, List.take_of_length_le]
  simp [chainContents_length, bytes]

/-- The sector that is taken for cluster 0 is the last one of the FAT. -/
theorem linkVolume_up :
    entriesOf (contentsOf linkDisk linkVolume.info) (.entry (linkUp 0)) = [] := by
  rw [linkVolume_cluster (Or.inl rfl) rfl]
  decide +kernel

theorem linkVolume_below : entriesOf (contentsOf linkDisk linkVolume.info) (.entry linkD) =
    [linkSelf 2, linkUp 0, linkE] := by
  rw [linkVolume_cluster (Or.inr (Or.inl rfl)) rfl]
  decide +kernel

theorem linkVolume_bottom : entriesOf (contentsOf linkDisk linkVolume.info) (.entry linkE) =
    [linkSelf 3, linkUp 2] := by
  rw [linkVolume_cluster (Or.inr (Or.inr rfl)) rfl]
  decide +kernel

theorem dots_of_sameName {n : Nat} {name : List UInt8}
    (same : sameName (List.replicate n 0x2E) name = true) : name = List.replicate n 0x2E := by
  have folded : (List.replicate n 0x2E).map tolower = name.map tolower := of_decide_eq_true same
  rw [List.map_replicate] at folded
  rw [List.eq_replicate_iff]
  have length := congrArg List.length folded
  rw [List.length_replicate, List.length_map] at length
  refine ⟨length.symm, ?_⟩
  intro c member
  have dot : tolower c ∈ List.replicate n (tolower 0x2E) := by
    rw [folded]
    exact List.mem_map_of_mem member
  have equal := List.eq_of_mem_replicate dot
  simp only [tolower] at equal
  grind

theorem Proper.misses {name : List UInt8} (proper : Proper name) (cluster : Nat) :
    sameName (linkSelf cluster).filename name ≠ true ∧
      sameName (linkUp cluster).filename name ≠ true :=
  ⟨fun same => proper.1 (@dots_of_sameName 1 name same),
    fun same => proper.2 (@dots_of_sameName 2 name same)⟩

theorem linkVolume_walk {names : List (List UInt8)} {last : Target}
    (proper : ∀ name ∈ names, Proper name) (more : names ≠ [])
    (closed : walk (contentsOf linkDisk linkVolume.info) .root names true = some last) :
    ∃ parent, walk (contentsOf linkDisk linkVolume.info) .root names.dropLast true = some parent ∧
      (parent = .root ∧ last = .entry linkD ∨ parent = .entry linkD ∧ last = .entry linkE) := by
  cases names with
  | nil => exact absurd rfl more
  | cons name rest =>
      obtain ⟨entry, found, kind, later⟩ := walk_cons_closed.mp closed
      have member := List.mem_of_find?_eq_some found
      rw [linkVolume_root, List.mem_singleton] at member
      subst member
      cases rest with
      | nil =>
          cases later
          exact ⟨.root, rfl, Or.inl ⟨rfl, rfl⟩⟩
      | cons below others =>
          obtain ⟨next, met, _, deeper⟩ := walk_cons_closed.mp later
          have member := List.mem_of_find?_eq_some met
          have same := List.find?_some met
          obtain ⟨notSelf, notUp⟩ := (proper below (by simp)).misses 0
          rw [linkVolume_below] at member
          simp only [List.mem_cons, List.not_mem_nil, or_false] at member
          rcases member with rfl | rfl | rfl
          · exact absurd same notSelf
          · exact absurd same notUp
          cases others with
          | nil =>
              cases deeper
              exact ⟨.entry linkD, walk_cons_closed.mpr ⟨linkD, found, kind, rfl⟩,
                Or.inr ⟨rfl, rfl⟩⟩
          | cons bottom _ =>
              obtain ⟨last, met, _, _⟩ := walk_cons_closed.mp deeper
              have member := List.mem_of_find?_eq_some met
              have same := List.find?_some met
              obtain ⟨notSelf, notUp⟩ := (proper bottom (by simp)).misses 0
              rw [linkVolume_bottom] at member
              simp only [List.mem_cons, List.not_mem_nil, or_false] at member
              rcases member with rfl | rfl
              · exact absurd same notSelf
              · exact absurd same notUp

theorem linkVolume_tree : WellFormedTree linkDisk linkVolume.info := by
  constructor
  · intro names entry proper closed
    have more : names ≠ [] := by
      rintro rfl
      cases closed
    obtain ⟨parent, _, ⟨_, same⟩ | ⟨_, same⟩⟩ := linkVolume_walk proper more closed
    · cases same
      exact ⟨[2], linkVolume_chain (Or.inr (Or.inl rfl))⟩
    · cases same
      exact ⟨[3], linkVolume_chain (Or.inr (Or.inr rfl))⟩
  · intro names parent entry proper more before closed
    obtain ⟨upper, reached, only⟩ := linkVolume_walk proper more closed
    rw [before, Option.some.injEq] at reached
    subst reached
    rcases only with ⟨rfl, same⟩ | ⟨rfl, same⟩
    · cases same
      refine ⟨linkUp 0, ?_, rfl, rfl⟩
      rw [linkVolume_below]
      decide
    · cases same
      refine ⟨linkUp 2, ?_, rfl, rfl⟩
      rw [linkVolume_bottom]
      decide

theorem linkVolume_reached : walk (contentsOf linkDisk linkVolume.info) .root (components [0x44])
    true = some (.entry linkD) := by
  have names : components [0x44] = [[0x44]] := by decide
  rw [names, walk_cons_closed, linkVolume_root]
  exact ⟨linkD, by decide, rfl, rfl⟩

theorem linkVolume_proper : ∀ name ∈ components [0x44], Proper name := by
  have names : components [0x44] = [[0x44]] := by decide
  rw [names]
  intro name member
  rw [List.mem_singleton.mp member]
  exact ⟨by decide, by decide⟩

/-- The paths `D/E/..` and `D`. -/
theorem parent_links_below :
    ∃ infos, Lists linkVolume enoughFuel [0x44, 0x2F, 0x45, 0x2F, 0x2E, 0x2E] (fun _ => 0) infos ∧
      Lists linkVolume enoughFuel [0x44] (fun _ => 0) infos := by
  have spelled : ∀ c ∈ ([0x44, 0x2F, 0x45] : List UInt8) ++ [0x44], c ≠ 0 := by decide +kernel
  have names : components [0x44, 0x2F, 0x45] = [[0x44], [0x45]] := by decide
  have proper : ∀ name ∈ components [0x44, 0x2F, 0x45], Proper name := by
    rw [names]
    intro name member
    simp only [List.mem_cons, List.not_mem_nil, or_false] at member
    rcases member with rfl | rfl <;> exact ⟨by decide, by decide⟩
  have reached : walk (contentsOf linkDisk linkVolume.info) .root
      (components [0x44, 0x2F, 0x45]) true = some (.entry linkE) := by
    rw [names, walk_cons_closed, linkVolume_root]
    refine ⟨linkD, by decide, rfl, ?_⟩
    rw [walk_cons_closed, linkVolume_below]
    exact ⟨linkE, by decide, rfl, rfl⟩
  have parent : components [0x44] = (components [0x44, 0x2F, 0x45]).dropLast := by decide
  exact (parent_links_iff (Nat.le_refl enoughFuel) (fun _ => 0) linkVolume_tree spelled proper
    reached parent).mpr (Or.inl (by decide))

/-- On this volume `D/..` is empty, and `/` lists `D`. -/
theorem root_link_misread :
    ¬ ∀ disk (fs : Fat16FileSystem disk) fuel garbage path above entry, enoughFuel ≤ fuel →
      WellFormedTree disk fs.info → (∀ c ∈ path ++ above, c ≠ 0) →
      (∀ name ∈ components path, Proper name) →
      walk (contentsOf disk fs.info) .root (components path) true = some (.entry entry) →
      components above = (components path).dropLast →
        ∃ infos, Lists fs fuel (path ++ slash :: dotdot) garbage infos ∧
          Lists fs fuel above garbage infos := by
  intro claim
  have spelled : ∀ c ∈ ([0x44] : List UInt8) ++ [0x2F], c ≠ 0 := by decide +kernel
  obtain ⟨infos, back, top⟩ := claim linkDisk linkVolume enoughFuel (fun _ => 0) [0x44] [0x2F] linkD
    (Nat.le_refl _) linkVolume_tree spelled linkVolume_proper linkVolume_reached (by decide)
  have found : ((entriesOf (contentsOf linkDisk linkVolume.info) (.entry linkD)).find?
      fun entry => sameName entry.filename dotdot) = some (linkUp 0) := by
    rw [linkVolume_below]
    decide
  have named : ∀ c ∈ ([0x44] : List UInt8), c ≠ 0 := by decide +kernel
  have nothing := ((dotdot_lists (Nat.le_refl _) (fun _ => 0) named
    (linkVolume_tree.along linkVolume_proper linkVolume_reached) linkVolume_reached found rfl
    infos).mp back).2
  have nowhere : walk (contentsOf linkDisk linkVolume.info) .root (components [0x2F])
      (closed [0x2F]) = some .root := by
    have names : components [0x2F] = [] := by decide
    rw [names]
    rfl
  have rooted : ∀ c ∈ ([0x2F] : List UInt8), c ≠ 0 := by decide +kernel
  have whole := ((lists_iff (Nat.le_refl _) (fun _ => 0) rooted nowhere rfl infos).mp top).2
  rw [nothing, linkVolume_up, linkVolume_root] at whole
  cases whole

end SysImpl.Fat
