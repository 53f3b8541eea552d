import SysImpl.Fat.Contents

/-! Files that are read through a cursor and a buffer of one sector.

Whatever was sought and read before, a read delivers the bytes of the sectors of the file
from the cursor on, as if there were no buffer. -/

namespace SysImpl.Fat

open Bytes

inductive Call where
  | seek (pos whence : Int)
  | read (size : Nat)
  deriving DecidableEq, Repr

def sectorBytes (disk : Disk) (sectors : List Nat) : List UInt8 :=
  sectors.flatMap fun sector => loadBytes (disk sector) 0 512

def sequentialSectors (first last : Nat) : List Nat :=
  (List.range (sub32 last first)).map fun i => u32 (first + i)

def clusterSectors (info : FSInfo) (cluster : Nat) : List Nat :=
  (List.range info.pbr.sectorsPerCluster).map fun (i : Nat) =>
    keep32 (info.firstDataSector + ((cluster : Int) - 2) * info.pbr.sectorsPerCluster + i)

/-- A read of `n` bytes with the cursor at `cursor` in a file of `size` bytes: what it
delivers, and where it leaves the cursor. -/
structure DirectRead (contents : List UInt8) (size cursor n : Nat) (bytes : List UInt8)
    (after : Nat) : Prop where
  length : bytes.length = min n (size - cursor)
  advances : after = cursor + bytes.length
  bytes : bytes = (contents.drop cursor).take bytes.length

variable {disk : Disk}

theorem sectorBytes_length (sectors : List Nat) :
    (sectorBytes disk sectors).length = 512 * sectors.length := by
  induction sectors with
  | nil => rfl
  | cons sector rest ih =>
      have step : sectorBytes disk (sector :: rest) =
          loadBytes (disk sector) 0 512 ++ sectorBytes disk rest := rfl
      rw [step, List.length_append, loadBytes_length, ih, List.length_cons]
      omega

theorem sectorBytes_getElem? (sectors : List Nat) (pos : Nat) :
    (sectorBytes disk sectors)[pos]? =
      sectors[pos / 512]?.map fun sector => disk sector (pos % 512) := by
  induction sectors generalizing pos with
  | nil => simp [sectorBytes]
  | cons sector rest ih =>
      have step : sectorBytes disk (sector :: rest) =
          loadBytes (disk sector) 0 512 ++ sectorBytes disk rest := rfl
      rw [step]
      by_cases here : pos < 512
      · rw [List.getElem?_append_left (by simpa using here), Nat.div_eq_of_lt here,
          Nat.mod_eq_of_lt here]
        simp [loadBytes, here]
      · obtain ⟨later, rfl⟩ : ∃ later, pos = later + 512 := ⟨pos - 512, by omega⟩
        rw [List.getElem?_append_right (by simp), loadBytes_length, Nat.add_sub_cancel, ih,
          Nat.add_div_right _ (by decide), Nat.add_mod_right, List.getElem?_cons_succ]

theorem sectorBytes_append (first second : List Nat) :
    sectorBytes disk (first ++ second) = sectorBytes disk first ++ sectorBytes disk second :=
  List.flatMap_append

/-- The 32-bit sum of the source is the sector number, whatever the cluster. -/
theorem clusterContents_sectors (info : FSInfo) (cluster : Nat) :
    clusterContents disk info cluster = sectorBytes disk (clusterSectors info cluster) := by
  have size : info.clusterBytes = 512 * info.pbr.sectorsPerCluster := Nat.mul_comm _ _
  apply List.ext_getElem?
  intro pos
  rw [sectorBytes_getElem?]
  by_cases inside : pos < info.clusterBytes
  · have index : pos / 512 < info.pbr.sectorsPerCluster := Nat.div_lt_of_lt_mul (by omega)
    simp only [clusterContents, clusterSectors, List.getElem?_map, List.getElem?_range inside,
      List.getElem?_range index, Option.map_some]
    congr 2
    have offset : ((sub32 cluster 2 : Nat) : Int) % 2 ^ 32 = ((cluster : Int) - 2) % 2 ^ 32 := by
      simp only [sub32, u32]
      omega
    have wraps : ((sub32 cluster 2 * info.pbr.sectorsPerCluster : Nat) : Int) % 2 ^ 32 =
        (((cluster : Int) - 2) * info.pbr.sectorsPerCluster) % 2 ^ 32 := by
      rw [Int.natCast_mul, Int.mul_emod, offset, ← Int.mul_emod]
    simp only [keep32, u32]
    omega
  · have index : info.pbr.sectorsPerCluster ≤ pos / 512 := by
      rw [Nat.le_div_iff_mul_le (by decide)]
      omega
    have none : (clusterSectors info cluster)[pos / 512]? = none := by
      simp [clusterSectors, index]
    rw [none, List.getElem?_eq_none (by rw [clusterContents_length]; omega)]
    rfl

theorem chainContents_sectors (info : FSInfo) (clusters : List Nat) :
    chainContents disk info clusters =
      sectorBytes disk (clusters.flatMap (clusterSectors info)) := by
  induction clusters with
  | nil => simp [chainContents, sectorBytes]
  | cons cluster rest ih =>
      have step : chainContents disk info (cluster :: rest) =
          clusterContents disk info cluster ++ chainContents disk info rest := rfl
      rw [step, ih, clusterContents_sectors, List.flatMap_cons, sectorBytes_append]

namespace SequentialFile

def run (calls : List Call) (file : SequentialFile disk) : SequentialFile disk :=
  calls.foldl (fun file call =>
    match call with
    | .seek pos whence => (file.seek pos whence).2
    | .read size => (read size file).2) file

variable {file : SequentialFile disk}

theorem run_place (calls : List Call) (file : SequentialFile disk) :
    (file.run calls).SamePlace file := by
  induction calls generalizing file with
  | nil => exact ⟨rfl, rfl⟩
  | cons call rest ih =>
      cases call with
      | seek pos whence => exact (ih (file.seek pos whence).2).trans ⟨rfl, rfl⟩
      | read size => exact (ih (read size file).2).trans (read_place size file)

theorem read_direct {sectors : List Nat} (small : file.filesize < 2 ^ 32)
    (holds : file.filesize ≤ 512 * sectors.length)
    (place : ∀ i, i < sectors.length → sectors[i]? = some (u32 (i + file.begin))) (n : Nat) :
    DirectRead (sectorBytes disk sectors) file.filesize file.cursor n (read n file).1
      (read n file).2.cursor := by
  induction n generalizing file with
  | zero => exact ⟨by simp [read], by simp [read], by simp [read]⟩
  | succ n ih =>
      by_cases inside : file.cursor < file.filesize
      · obtain ⟨byte, cursor, same⟩ := getc_inside file inside
        have next : file.getc.2.cursor = file.cursor + 1 := by
          rw [cursor]
          exact Nat.mod_eq_of_lt (by omega)
        have rest := ih (by rw [same.2]; exact small) (by rw [same.2]; exact holds)
          (by rw [same.1]; exact place)
        rw [same.2, next] at rest
        have here : (sectorBytes disk sectors)[file.cursor]? = some (file.byteAt file.cursor) := by
          rw [sectorBytes_getElem?, place _ (by omega)]
          rfl
        rw [read_inside inside]
        obtain ⟨length, advances, bytes⟩ := rest
        refine ⟨?_, ?_, ?_⟩
        · rw [List.length_cons, length]
          omega
        · rw [advances, List.length_cons]
          omega
        · have split := List.drop_eq_getElem?_toList_append
            (l := sectorBytes disk sectors) (i := file.cursor)
          rw [here] at split
          rw [List.length_cons, split]
          exact congrArg _ bytes
      · rw [read_outside (Nat.le_of_not_lt inside)]
        exact ⟨by simp; omega, by simp, by simp⟩

theorem read_add (a b : Nat) (file : SequentialFile disk) :
    read (a + b) file =
      ((read a file).1 ++ (read b (read a file).2).1, (read b (read a file).2).2) := by
  induction a generalizing file with
  | zero => simp [read]
  | succ a ih =>
      by_cases inside : file.cursor < file.filesize
      · rw [Nat.succ_add, read_inside inside, read_inside inside, ih]
        rfl
      · have ended := read_outside (Nat.le_of_not_lt inside)
        rw [ended, ended, ended]
        rfl

end SequentialFile

namespace ClusterFile

def run (calls : List Call) (file : ClusterFile disk) : Except FileFault (ClusterFile disk) :=
  calls.foldlM (fun file call =>
    match call with
    | .seek pos whence => .ok (file.seek pos whence).2
    | .read size => (read size file).map Prod.snd) file

variable {file mid after : ClusterFile disk}

theorem run_cons_seek (pos whence : Int) (rest : List Call) (file : ClusterFile disk) :
    run (.seek pos whence :: rest) file = run rest (file.seek pos whence).2 := rfl

theorem run_cons_read {size : Nat} {bytes : List UInt8} (rest : List Call)
    (done : read size file = .ok (bytes, mid)) :
    run (.read size :: rest) file = run rest mid := by
  simp only [run, List.foldlM_cons, done]
  rfl

theorem seek_same (pos whence : Int) (file : ClusterFile disk) :
    SameFile (file.seek pos whence).2 file := ⟨rfl, rfl, rfl, rfl⟩

theorem read_direct (positive : 0 < file.info.pbr.sectorsPerCluster)
    (small : file.stat.size < 2 ^ 32)
    (covers : file.stat.size ≤ file.clusters.length * file.info.clusterBytes) (n : Nat) :
    ∃ bytes after, read n file = .ok (bytes, after) ∧ SameFile after file ∧
      DirectRead (chainContents disk file.info file.clusters) file.stat.size file.cursor n bytes
        after.cursor := by
  rw [← @chainContents_length disk] at covers
  obtain ⟨after, done⟩ := read_spec n positive small covers
  obtain ⟨same, advances, length⟩ := read_ok positive small done
  refine ⟨_, after, done, same, length, advances, ?_⟩
  rw [length, List.drop_take, List.take_take]

theorem run_ok (positive : 0 < file.info.pbr.sectorsPerCluster) (small : file.stat.size < 2 ^ 32)
    (covers : file.stat.size ≤ file.clusters.length * file.info.clusterBytes)
    (calls : List Call) : ∃ last, file.run calls = .ok last ∧ SameFile last file := by
  induction calls generalizing file with
  | nil => exact ⟨file, rfl, SameFile.refl file⟩
  | cons call rest ih =>
      cases call with
      | seek pos whence =>
          obtain ⟨last, done, same⟩ := @ih (file.seek pos whence).2 positive small covers
          exact ⟨last, done, same.trans (seek_same pos whence file)⟩
      | read size =>
          obtain ⟨bytes, mid, done, sameMid, _⟩ := read_direct positive small covers size
          obtain ⟨last, later, same⟩ := @ih mid (by rw [sameMid.info]; exact positive)
            (by rw [sameMid.stat]; exact small)
            (by rw [sameMid.stat, sameMid.clusters, sameMid.info]; exact covers)
          exact ⟨last, (run_cons_read rest done).trans later, same.trans sameMid⟩

theorem getc_none (got : file.getc = .ok (none, after)) :
    file.stat.size ≤ file.cursor ∧ after = file := by
  simp only [getc] at got
  split_ifs at got with ends
  · simp only [Except.ok.injEq, Prod.mk.injEq, true_and] at got
    exact ⟨ends, got.symm⟩
  · split at got
    · cases got
    · simp only [Except.ok.injEq, Prod.mk.injEq, reduceCtorEq, false_and] at got

theorem read_ended (ends : file.stat.size ≤ file.cursor) (n : Nat) :
    read n file = .ok ([], file) := by
  cases n with
  | zero => rfl
  | succ n => simp only [read, getc, if_pos ends]

theorem read_add {a : Nat} {first : List UInt8} (b : Nat) (done : read a file = .ok (first, mid)) :
    read (a + b) file = (read b mid).map fun got => (first ++ got.1, got.2) := by
  induction a generalizing file first with
  | zero =>
      simp only [read, Except.ok.injEq, Prod.mk.injEq] at done
      obtain ⟨rfl, rfl⟩ := done
      rw [Nat.zero_add]
      cases read b file with
      | error fault => rfl
      | ok got => rfl
  | succ a ih =>
      rw [Nat.succ_add]
      simp only [read] at done ⊢
      cases got : file.getc with
      | error fault =>
          rw [got] at done
          cases done
      | ok pair =>
          obtain ⟨ch, next⟩ := pair
          rw [got] at done
          cases ch with
          | none =>
              -- At the end of the file the second read delivers nothing either.
              simp only [Except.ok.injEq, Prod.mk.injEq] at done
              obtain ⟨rfl, rfl⟩ := done
              obtain ⟨ends, rfl⟩ := getc_none got
              rw [read_ended ends]
              rfl
          | some ch =>
              simp only at done ⊢
              cases later : read a next with
              | error fault =>
                  rw [later] at done
                  cases done
              | ok more =>
                  obtain ⟨rest, last⟩ := more
                  rw [later] at done
                  simp only [Except.ok.injEq, Prod.mk.injEq] at done
                  obtain ⟨rfl, rfl⟩ := done
                  rw [ih later]
                  cases read b last with
                  | error fault => rfl
                  | ok got => rfl

end ClusterFile

theorem sequentialSectors_getElem? {first last i : Nat} (inside : i < sub32 last first) :
    (sequentialSectors first last)[i]? = some (u32 (i + u32 first)) := by
  simp only [sequentialSectors, List.getElem?_map, List.getElem?_range inside, Option.map_some,
    u32, Nat.add_mod_mod, Nat.add_comm]

/-- After any calls, a read of a file of either kind delivers the bytes of its sectors from
the cursor on, and so do two reads for one of both sizes. -/
theorem cached_reads_direct (disk : Disk) :
    (∀ first last garbage calls, let file := (SequentialFile.create disk first last garbage).run calls
      (∀ n, DirectRead (sectorBytes disk (sequentialSectors first last))
        (u32 (sub32 last first * 512)) file.cursor n (file.read n).1 (file.read n).2.cursor) ∧
      ∀ a b, (file.read (a + b)).1 = (file.read a).1 ++ ((file.read a).2.read b).1 ∧
        (file.read (a + b)).2.cursor = ((file.read a).2.read b).2.cursor) ∧
    ∀ start : ClusterFile disk, 0 < start.info.pbr.sectorsPerCluster → start.stat.size < 2 ^ 32 →
      start.stat.size ≤ start.clusters.length * start.info.clusterBytes → ∀ calls,
        ∃ file, start.run calls = .ok file ∧
          (∀ n, ∃ bytes after, file.read n = .ok (bytes, after) ∧
            DirectRead (sectorBytes disk (start.clusters.flatMap (clusterSectors start.info)))
              start.stat.size file.cursor n bytes after.cursor) ∧
          ∀ a b, ∃ whole last first mid second last', file.read (a + b) = .ok (whole, last) ∧
            file.read a = .ok (first, mid) ∧ mid.read b = .ok (second, last') ∧
            whole = first ++ second ∧ last.cursor = last'.cursor := by
  constructor
  · intro first last garbage calls file
    obtain ⟨start, size⟩ := (SequentialFile.create disk first last garbage).run_place calls
    change file.begin = u32 first at start
    change file.filesize = u32 (sub32 last first * 512) at size
    have length : (sequentialSectors first last).length = sub32 last first := by
      simp [sequentialSectors]
    constructor
    · intro n
      rw [← size]
      apply SequentialFile.read_direct
      · rw [size]
        exact Nat.mod_lt _ (by decide)
      · rw [size, length, Nat.mul_comm]
        exact Nat.mod_le _ _
      · intro i inside
        rw [start]
        exact sequentialSectors_getElem? (by rwa [length] at inside)
    · intro a b
      rw [SequentialFile.read_add a b file]
      exact ⟨rfl, rfl⟩
  · intro start positive small covers calls
    obtain ⟨file, done, same⟩ := ClusterFile.run_ok positive small covers calls
    rw [← same.info] at positive
    rw [← same.stat] at small
    rw [← same.stat, ← same.clusters, ← same.info] at covers
    refine ⟨file, done, ?_, ?_⟩
    · intro n
      obtain ⟨bytes, after, read, _, direct⟩ := ClusterFile.read_direct positive small covers n
      rw [chainContents_sectors, same.info, same.clusters, same.stat] at direct
      exact ⟨bytes, after, read, direct⟩
    · intro a b
      obtain ⟨first, mid, one, sameMid, _⟩ := ClusterFile.read_direct positive small covers a
      obtain ⟨second, last, two, _⟩ := ClusterFile.read_direct (by rw [sameMid.info]; exact positive)
        (by rw [sameMid.stat]; exact small)
        (by rw [sameMid.stat, sameMid.clusters, sameMid.info]; exact covers) b
      have both := ClusterFile.read_add b one
      rw [two] at both
      exact ⟨_, last, first, mid, second, last, both, one, two, rfl, rfl⟩

def twoClusters : ClusterFile smallDisk where
  info := smallVolume.info
  cursor := 0
  clusterNum := 2
  stat := ⟨1000, false⟩
  clusters := [2, 3]
  bufferPos := none
  buffer := fun _ => 0
  cached := nofun

/-- A file of 1000 bytes is read across the end of its first cluster, after a seek. -/
theorem cached_reads_direct_clusters :
    ∃ file, twoClusters.run [.read 10, .seek 500 0] = .ok file ∧
      ∀ n, ∃ bytes after, file.read n = .ok (bytes, after) ∧
        DirectRead (sectorBytes smallDisk ([2, 3].flatMap (clusterSectors smallVolume.info))) 1000
          file.cursor n bytes after.cursor := by
  have positive : 0 < smallVolume.info.pbr.sectorsPerCluster := by decide +kernel
  have covers : 1000 ≤ [2, 3].length * smallVolume.info.clusterBytes := by decide +kernel
  obtain ⟨file, done, direct, _⟩ := (cached_reads_direct smallDisk).2 twoClusters positive
    (by decide) covers [.read 10, .seek 500 0]
  exact ⟨file, done, direct⟩

end SysImpl.Fat
