import NextDb.Actor.SnapshotStore
import NextDb.Api.Replicate

/-!
# The snapshot file and the compaction

A snapshot is written to a temporary file that all snapshots share, the file is renamed, and the
snapshot's LSN is stored. A compaction takes the stored LSN and moves the records up to it from the
active files of the shards to their archives.

* `snapshot_covers_archives`: the snapshot file decodes, and is not behind what has been archived,
  in every run in which a snapshot is written when no other is being written, from an LSN that is
  not below the stored one, and fits its reader.
-/

namespace NextDb.Api.SnapshotFile

open Run List Option Function
open Actor.SnapshotStore (ActorSnapshot encodeSnapshot decodeSnapshot EnvelopeFits)
open Replicate (ShardFile)

/-- `write_snapshot`, from the LSN that it is given. The file handle is the file that the path of
the temporary file named when it was opened. -/
inductive SavePhase where
  | capturing
  | captured (snapshot : ActorSnapshot)
  | opened (bytes : Bytes) (handle written : Nat)
  | renamed
  | ended

/-- A snapshot that is saved. -/
structure SaveTask where
  lsn : Nat
  background : Bool
  phase : SavePhase

/-- A compaction up to an LSN that has come to a shard. -/
structure CompactTask where
  uptoLsn : Nat
  shard : Nat
  ended : Bool

/-- The log and the snapshot's files, with the saves and compactions that are on their way. -/
structure ServerState where
  wal : Nat → ShardFile
  currentLsn : Nat
  lastSnapshotLsn : Nat
  lastCompactionLsn : Nat
  /-- The files by number, and the ones that the temporary path and the snapshot's path name. -/
  contents : Nat → Bytes
  nextFile : Nat
  temp : Option Nat
  file : Option Nat
  saves : List SaveTask
  compactions : List CompactTask

/-- What a write of a chunk at an offset makes of a file. -/
def overwrite (content : Bytes) (offset : Nat) (chunk : Bytes) : Bytes :=
  content.take offset ++ List.replicate (offset - content.length) 0 ++ chunk ++ content.drop (offset + chunk.length)

def ServerState.setSave (s : ServerState) (save : Nat) (task : SaveTask) : ServerState :=
  { s with saves := s.saves.set save task }

def ServerState.setCompaction (s : ServerState) (compaction : Nat) (task : CompactTask) :
    ServerState :=
  { s with compactions := s.compactions.set compaction task }

/-- The temporary file is created, or truncated. -/
def openTemp (s : ServerState) (save : Nat) (task : SaveTask) (bytes : Bytes) : ServerState :=
  let handle := s.temp.getD s.nextFile
  { s.setSave save { task with phase := .opened bytes handle 0 } with
    contents := Function.update s.contents handle []
    nextFile := s.nextFile + 1
    temp := some handle }

/-- The next bytes are written. -/
def writeTemp (s : ServerState) (save : Nat) (task : SaveTask) (bytes : Bytes)
    (handle written count : Nat) :
    ServerState :=
  let chunk := (bytes.drop written).take count
  { s.setSave save { task with phase := .opened bytes handle (written + chunk.length) } with
    contents := Function.update s.contents handle (overwrite (s.contents handle) written chunk) }

def ShardFile.push (file : ShardFile) (record : WalRecord) : ShardFile :=
  { file with active := file.active ++ [record] }

/-- A shard's records up to an LSN are written to its archive. -/
def ShardFile.archive (file : ShardFile) (uptoLsn : Nat) : ShardFile :=
  { file with archived := file.archived ++ file.active.filter fun r => r.lsn ≤ uptoLsn }

/-- The active file is replaced by one with the records above the LSN. -/
def ShardFile.retain (file : ShardFile) (uptoLsn : Nat) : ShardFile :=
  { file with active := file.active.filter fun r => uptoLsn < r.lsn }

/-- Appends, the steps of saves and compactions, crashes and starts. -/
inductive ServerEvent where
  | append (shard : Nat) (record : WalRecord)
  | commit (lsn : Nat)
  /-- `create_snapshot`, or a restart that is prepared. -/
  | create
  | checkpoint (triggerLsn : Nat)
  | capture (save : Nat) (snapshot : ActorSnapshot)
  | openTemp (save : Nat)
  | write (save count : Nat)
  | rename (save : Nat)
  | store (save : Nat)
  /-- The snapshot fails, or its client is gone. -/
  | failSave (save : Nat)
  | compact
  /-- The next shard is compacted. -/
  | compactShard (compaction : Nat)
  /-- A shard's compaction fails, after its archive was written or before. -/
  | failCompaction (compaction : Nat) (archived : Bool)
  | finishCompaction (compaction : Nat)
  /-- The server crashes and starts again. -/
  | restart

variable (lib : Actor.SnapshotStore.Libraries) (walShards : Nat)

/-- What each event does to the files. -/
inductive ServerStep : ServerState → ServerEvent → ServerState → Prop where
  | append {s : ServerState} {shard record} : ServerStep s (.append shard record)
      { s with wal := Function.update s.wal shard (ShardFile.push (s.wal shard) record) }
  | commit {s lsn} : ServerStep s (.commit lsn) { s with currentLsn := max s.currentLsn lsn }
  | create {s} : ServerStep s .create { s with saves := s.saves ++ [⟨s.currentLsn, false, .capturing⟩] }
  | checkpoint {s triggerLsn} : triggerLsn ≤ s.currentLsn → s.lastSnapshotLsn < max s.currentLsn triggerLsn →
    (∀ task ∈ s.saves, task.background = true → task.phase = .ended) →
    ServerStep s (.checkpoint triggerLsn)
      { s with saves := s.saves ++ [⟨max s.currentLsn triggerLsn, true, .capturing⟩] }
  | capture {s : ServerState} {save task snapshot} : s.saves[save]? = some task → task.phase = .capturing →
    snapshot.lsn = task.lsn →
    ServerStep s (.capture save snapshot) (s.setSave save { task with phase := .captured snapshot })
  | openTemp {s : ServerState} {save task snapshot bytes} : s.saves[save]? = some task →
    task.phase = .captured snapshot → encodeSnapshot lib snapshot = .ok bytes →
    ServerStep s (.openTemp save) (openTemp s save task bytes)
  | write {s : ServerState} {save task bytes handle written count} : s.saves[save]? = some task →
    task.phase = .opened bytes handle written →
    ServerStep s (.write save count) (writeTemp s save task bytes handle written count)
  | rename {s : ServerState} {save task bytes handle temp} : s.saves[save]? = some task →
    task.phase = .opened bytes handle bytes.length → s.temp = some temp →
    ServerStep s (.rename save)
      { s.setSave save { task with phase := .renamed } with temp := none, file := some temp }
  | store {s : ServerState} {save task} : s.saves[save]? = some task → task.phase = .renamed →
    ServerStep s (.store save)
      { s.setSave save { task with phase := .ended } with lastSnapshotLsn := task.lsn }
  | failSave {s : ServerState} {save task} : s.saves[save]? = some task →
    ServerStep s (.failSave save) (s.setSave save { task with phase := .ended })
  | compact {s} : s.lastSnapshotLsn ≠ 0 → s.lastCompactionLsn < s.lastSnapshotLsn →
    ServerStep s .compact { s with compactions := s.compactions ++ [⟨s.lastSnapshotLsn, 0, false⟩] }
  | compactShard {s : ServerState} {compaction task} : s.compactions[compaction]? = some task →
    task.ended = false → task.shard < walShards →
    ServerStep s (.compactShard compaction)
      { s.setCompaction compaction { task with shard := task.shard + 1 } with
        wal := Function.update s.wal task.shard
          (ShardFile.retain (ShardFile.archive (s.wal task.shard) task.uptoLsn) task.uptoLsn) }
  | failCompaction {s : ServerState} {compaction task archived} : s.compactions[compaction]? = some task →
    task.ended = false → task.shard < walShards →
    ServerStep s (.failCompaction compaction archived)
      { s.setCompaction compaction { task with ended := true } with
        wal := if archived = true then
            Function.update s.wal task.shard (ShardFile.archive (s.wal task.shard) task.uptoLsn)
          else s.wal }
  | finishCompaction {s : ServerState} {compaction task} : s.compactions[compaction]? = some task →
    task.ended = false → task.shard = walShards →
    ServerStep s (.finishCompaction compaction)
      { s.setCompaction compaction { task with ended := true } with lastCompactionLsn := task.uptoLsn }
  | restartEmpty {s} : s.file = none →
    ServerStep s .restart
      { s with lastSnapshotLsn := 0, lastCompactionLsn := 0, saves := [], compactions := [] }
  | restart {s file snapshot} : s.file = some file → decodeSnapshot lib (s.contents file) = .ok snapshot →
    ServerStep s .restart
      { s with lastSnapshotLsn := snapshot.lsn, lastCompactionLsn := 0, saves := [], compactions := [] }

/-- The snapshot is being written, or its LSN is not yet stored. -/
def SavePhase.Saving : SavePhase → Prop
  | .opened .. | .renamed => True
  | _ => False

/-- A snapshot is written when no other is being written, and when the stored LSN is not above its
own; and it is not too large for its reader. -/
def OneAtATime (s : ServerState) : ServerEvent → Prop
  | .openTemp save => (∀ other ∈ s.saves, ¬ other.phase.Saving) ∧
    ∀ task snapshot, s.saves[save]? = some task → task.phase = .captured snapshot →
      s.lastSnapshotLsn ≤ task.lsn ∧ EnvelopeFits lib snapshot
  | _ => True

/-- A server without a snapshot. -/
structure Fresh (s : ServerState) : Prop where
  files : s.file = none ∧ s.temp = none
  archives : ∀ shard, (s.wal shard).archived = []
  lsn : s.lastSnapshotLsn = 0
  idle : s.saves = [] ∧ s.compactions = []

/-- What the snapshot file reads as, at startup. -/
def ServerState.Loads (s : ServerState) (snapshot : ActorSnapshot) : Prop :=
  ∃ file, s.file = some file ∧ decodeSnapshot lib (s.contents file) = .ok snapshot

/-- The snapshot file decodes, and is not behind the archives; what the active files lack it has. -/
structure Covers (s : ServerState) : Prop where
  decodes : s.file ≠ none → ∃ snapshot, s.Loads lib snapshot
  archived : ∀ shard, ∀ r ∈ (s.wal shard).archived, ∃ snapshot, s.Loads lib snapshot ∧ r.lsn ≤ snapshot.lsn
  replayed : ∀ shard, ∀ r ∈ (s.wal shard).records, r ∉ (s.wal shard).active →
    ∃ snapshot, s.Loads lib snapshot ∧ r.lsn ≤ snapshot.lsn

/-! ## The invariant -/

variable {lib walShards}

/-- What a snapshot that is on its way has done. -/
def SaveInv (lib : Actor.SnapshotStore.Libraries) (s : ServerState) (task : SaveTask) : Prop :=
  match task.phase with
  | .captured snapshot => snapshot.lsn = task.lsn
  | .opened bytes handle written => s.temp = some handle ∧ s.contents handle = bytes.take written ∧
    written ≤ bytes.length ∧ s.lastSnapshotLsn ≤ task.lsn ∧
    ∃ snapshot, decodeSnapshot lib bytes = .ok snapshot ∧ snapshot.lsn = task.lsn
  | .renamed => s.lastSnapshotLsn ≤ task.lsn ∧ ∃ snapshot, s.Loads lib snapshot ∧ snapshot.lsn = task.lsn
  | _ => True

/-- The snapshot's file loads, and nothing above it is archived. -/
structure Inv (lib : Actor.SnapshotStore.Libraries) (s : ServerState) : Prop where
  loads : s.file ≠ none → ∃ snapshot, s.Loads lib snapshot ∧ s.lastSnapshotLsn ≤ snapshot.lsn
  empty : s.file = none → s.lastSnapshotLsn = 0
  temp : ∀ temp, s.temp = some temp → temp < s.nextFile ∧ s.file ≠ some temp
  file : ∀ file, s.file = some file → file < s.nextFile
  archived : ∀ shard, ∀ r ∈ (s.wal shard).archived, 0 < s.lastSnapshotLsn ∧ r.lsn ≤ s.lastSnapshotLsn
  compactions : ∀ task ∈ s.compactions, 0 < task.uptoLsn ∧ task.uptoLsn ≤ s.lastSnapshotLsn
  saves : ∀ task ∈ s.saves, SaveInv lib s task
  single : ∀ (i j : Nat) (task other : SaveTask), s.saves[i]? = some task → s.saves[j]? = some other →
    task.phase.Saving → other.phase.Saving → i = j

variable {s t : ServerState} {task : SaveTask} {i : Nat} {bytes : Bytes}

theorem SaveInv.of_not_saving (h : SaveInv lib s task) (hnot : ¬ task.phase.Saving) :
    SaveInv lib t task := by
  unfold SaveInv at h ⊢
  cases hphase : task.phase with
  | opened | renamed => simp [hphase, SavePhase.Saving] at hnot
  | captured snapshot => simpa [hphase] using h
  | capturing | ended => trivial

theorem Inv.not_saving (h : Inv lib s) {j : Nat} {other : SaveTask} (hi : s.saves[i]? = some task)
    (hsaving : task.phase.Saving) (hj : s.saves[j]? = some other) (hne : j ≠ i) :
    ¬ other.phase.Saving := by
  intro hother
  exact hne (h.single j i other task hj hi hother hsaving)

theorem Inv.saves_getElem (h : Inv lib s) (hi : s.saves[i]? = some task) : SaveInv lib s task :=
  h.saves task (mem_of_getElem? hi)

/-- A step that changes the logs and the compactions only. -/
theorem Inv.setWal (h : Inv lib s)
    {wal : Nat → ShardFile} {currentLsn lastCompactionLsn : Nat} {compactions : List CompactTask}
    (harchived : ∀ shard, ∀ r ∈ (wal shard).archived, 0 < s.lastSnapshotLsn ∧
      r.lsn ≤ s.lastSnapshotLsn)
    (hcompactions : ∀ task ∈ compactions, 0 < task.uptoLsn ∧ task.uptoLsn ≤ s.lastSnapshotLsn) :
    Inv lib { s with wal, currentLsn, lastCompactionLsn, compactions } :=
  ⟨h.loads, h.empty, h.temp, h.file, harchived, hcompactions, h.saves, h.single⟩

theorem Inv.pushSave (h : Inv lib s) (lsn : Nat) (background : Bool) :
    Inv lib { s with saves := s.saves ++ [⟨lsn, background, .capturing⟩] } := by
  have hnew : ∀ (i : Nat) (task : SaveTask), (s.saves ++ [⟨lsn, background, .capturing⟩])[i]? = some task →
      task.phase.Saving → s.saves[i]? = some task := by
    intro i task hi hsaving
    rcases getElem?_push_cases hi with hi | ⟨-, rfl⟩
    · exact hi
    · exact absurd hsaving id
  refine ⟨h.loads, h.empty, h.temp, h.file, h.archived, h.compactions, ?_, ?_⟩
  · intro task htask
    rcases mem_append.mp htask with htask | htask
    · exact h.saves task htask
    · rw [mem_singleton.mp htask]
      trivial
  · intro i j task other hi hj htask hother
    exact h.single i j task other (hnew i task hi htask) (hnew j other hj hother) htask hother

variable {new : SaveTask} {snapshot : ActorSnapshot}

/-- A step of one snapshot, that may change the files, when no other is being written. -/
theorem Inv.stepSave (h : Inv lib s) (hsaves : t.saves = s.saves.set i new)
    (hothers : ∀ (j : Nat) (other : SaveTask), s.saves[j]? = some other → j ≠ i →
      ¬ other.phase.Saving)
    (hnew : SaveInv lib t new) :
    (∀ other ∈ t.saves, SaveInv lib t other) ∧ ∀ (j k : Nat) (other another : SaveTask),
    t.saves[j]? = some other → t.saves[k]? = some another → other.phase.Saving →
    another.phase.Saving → j = k := by
  rw [hsaves]
  constructor
  · intro other hother
    obtain ⟨j, hj⟩ := mem_iff_getElem?.mp hother
    rcases getElem?_set_cases hj with ⟨-, rfl⟩ | ⟨hne, hj⟩
    · exact hnew
    · exact (h.saves_getElem hj).of_not_saving (hothers j other hj hne)
  · intro j k other another hj hk hother hanother
    rcases getElem?_set_cases hj with ⟨rfl, -⟩ | ⟨hne, hj⟩
    · rcases getElem?_set_cases hk with ⟨rfl, -⟩ | ⟨hne', hk⟩
      · rfl
      · exact absurd hanother (hothers k another hk hne')
    · exact absurd hother (hothers j other hj hne)

theorem Inv.setSave (h : Inv lib s) (hnot : ¬ new.phase.Saving) (hnew : SaveInv lib s new) :
    Inv lib (s.setSave i new) := by
  refine ⟨h.loads, h.empty, h.temp, h.file, h.archived, h.compactions, ?_, ?_⟩
  · intro other hother
    rcases mem_or_eq_of_mem_set hother with hother | rfl
    · exact h.saves other hother
    · exact hnew
  · intro j k other another hj hk hother hanother
    rcases getElem?_set_cases hj with ⟨-, rfl⟩ | ⟨-, hj⟩
    · exact absurd hother hnot
    · rcases getElem?_set_cases hk with ⟨-, rfl⟩ | ⟨-, hk⟩
      · exact absurd hanother hnot
      · exact h.single j k other another hj hk hother hanother

/-- What the snapshot's path names is as it was. -/
theorem Inv.loads_of (h : Inv lib s) (hfile : t.file = s.file) (hcontents : ∀ file,
    s.file = some file → t.contents file = s.contents file)
    (hlsn : t.lastSnapshotLsn = s.lastSnapshotLsn) :
    t.file ≠ none → ∃ snapshot, t.Loads lib snapshot ∧ t.lastSnapshotLsn ≤ snapshot.lsn := by
  intro hsome
  rw [hfile] at hsome
  obtain ⟨snapshot, ⟨file, hs, hdecode⟩, hle⟩ := h.loads hsome
  refine ⟨snapshot, ⟨file, hfile.trans hs, ?_⟩, ?_⟩
  · rw [hcontents file hs]
    exact hdecode
  · omega

theorem Inv.openTemp (hlib : lib.Lawful) (h : Inv lib s) (hi : s.saves[i]? = some task)
    (hphase : task.phase = .captured snapshot) (hencode : encodeSnapshot lib snapshot = .ok bytes)
    (hmeets : OneAtATime lib s (.openTemp i)) : Inv lib (openTemp s i task bytes) := by
  obtain ⟨hidle, hfits⟩ := hmeets
  obtain ⟨hle, postcard, henvelope, hlen⟩ := hfits task snapshot hi hphase
  have hdecode := Actor.SnapshotStore.decodeSnapshot_of_fits hlib hencode henvelope hlen
  have hlsn : snapshot.lsn = task.lsn := by
    have := h.saves_getElem hi
    simpa [SaveInv, hphase] using this
  have hhandle : s.temp.getD s.nextFile < s.nextFile + 1 ∧ s.file ≠ some (s.temp.getD s.nextFile) := by
    cases htemp : s.temp with
    | some temp =>
      have := (h.temp temp htemp).1
      refine ⟨?_, (h.temp temp htemp).2⟩
      simp
      omega
    | none =>
      refine ⟨by simp, fun hfile => ?_⟩
      have := h.file _ hfile
      simp at this
  have hstep := h.stepSave (t := SnapshotFile.openTemp s i task bytes) (i := i) rfl (fun j other hj _ => hidle other
    (mem_of_getElem? hj)) ⟨rfl, by simp [SnapshotFile.openTemp], Nat.zero_le _, hle, snapshot, hdecode, hlsn⟩
  refine ⟨?_, h.empty, ?_, ?_, h.archived, h.compactions, hstep.1, hstep.2⟩
  · refine h.loads_of rfl (fun file hfile => ?_) rfl
    apply update_of_ne
    rintro rfl
    exact hhandle.2 hfile
  · intro temp htemp
    have : s.temp.getD s.nextFile = temp := some.inj htemp
    rw [← this]
    exact hhandle
  · intro file hfile
    have := h.file file hfile
    show file < s.nextFile + 1
    omega

/-- The next bytes of a file that holds the bytes before. -/
theorem overwrite_take (bytes : Bytes) {written : Nat} (hle : written ≤ bytes.length)
    (count : Nat) :
    overwrite (bytes.take written) written ((bytes.drop written).take count) =
    bytes.take (written + ((bytes.drop written).take count).length) := by
  have hlen : (bytes.take written).length = written := by
    rw [length_take]
    omega
  have hfront : (bytes.take written).take written = bytes.take written := take_of_length_le (by omega)
  have hback : ∀ n, (bytes.take written).drop (written + n) = [] := fun n => drop_eq_nil_of_le (by omega)
  have hchunk : (bytes.drop written).take ((bytes.drop written).take count).length = (bytes.drop written).take count :=
      by
    rw [length_take, ← take_eq_take_min]
  unfold overwrite
  rw [hfront, hback, hlen, Nat.sub_self, replicate_zero, append_nil, append_nil, take_add, hchunk]

theorem Inv.write {s : ServerState} {i : Nat} {task : SaveTask} {bytes : Bytes}
    {handle written : Nat}
    (h : Inv lib s) (hi : s.saves[i]? = some task)
    (hphase : task.phase = .opened bytes handle written) (count : Nat) :
    Inv lib (writeTemp s i task bytes handle written count) := by
  have hsave := h.saves_getElem hi
  simp only [SaveInv, hphase] at hsave
  obtain ⟨htemp, hcontent, hle, hlsn, hdecode⟩ := hsave
  have hsaving : task.phase.Saving := by simp [hphase, SavePhase.Saving]
  have hstep := h.stepSave (t := writeTemp s i task bytes handle written count)
    (i := i) rfl (fun j other hj hne => h.not_saving hi hsaving hj hne) ⟨htemp,
    by simp [writeTemp, hcontent, overwrite_take bytes hle count], by simp; omega, hlsn, hdecode⟩
  refine ⟨?_, h.empty, h.temp, h.file, h.archived, h.compactions, hstep.1, hstep.2⟩
  refine h.loads_of rfl (fun file hfile => ?_) rfl
  apply update_of_ne
  rintro rfl
  exact (h.temp _ htemp).2 hfile

theorem Inv.rename {s : ServerState}
    {i : Nat} {task : SaveTask} {bytes : Bytes} {handle temp : Nat} (h : Inv lib s)
    (hi : s.saves[i]? = some task)
    (hphase : task.phase = .opened bytes handle bytes.length) (htemp : s.temp = some temp) :
    Inv lib { s.setSave i { task with phase := .renamed } with temp := none, file := some temp } := by
  have hsave := h.saves_getElem hi
  simp only [SaveInv, hphase, take_length] at hsave
  obtain ⟨hhandle, hcontent, -, hlsn, snapshot, hdecode, hsame⟩ := hsave
  have hsaving : task.phase.Saving := by simp [hphase, SavePhase.Saving]
  have heq : handle = temp := some.inj (hhandle.symm.trans htemp)
  subst heq
  let t : ServerState := { s.setSave i { task with phase := .renamed } with temp := none, file := some handle }
  have hloads : t.Loads lib snapshot := ⟨handle, rfl, (congrArg (decodeSnapshot lib) hcontent).trans hdecode⟩
  have hstep := h.stepSave (t := t) (i := i) rfl (fun j other hj hne => h.not_saving hi hsaving hj hne) ⟨hlsn, snapshot,
    hloads, hsame⟩
  refine ⟨fun _ => ⟨snapshot, hloads, ?_⟩, fun hnone => absurd hnone (by simp), fun _ hnone => absurd hnone (by simp),
    fun file hfile => ?_, h.archived, h.compactions, hstep.1, hstep.2⟩
  · show s.lastSnapshotLsn ≤ snapshot.lsn
    omega
  · rw [← some.inj hfile]
    exact (h.temp handle htemp).1

theorem Inv.store {s : ServerState} {i : Nat}
    {task : SaveTask} (h : Inv lib s) (hi : s.saves[i]? = some task)
    (hphase : task.phase = .renamed) :
    Inv lib { s.setSave i { task with phase := .ended } with lastSnapshotLsn := task.lsn } := by
  have hsave := h.saves_getElem hi
  simp only [SaveInv, hphase] at hsave
  obtain ⟨hlsn, snapshot, hloads, hsame⟩ := hsave
  have hsaving : task.phase.Saving := by simp [hphase, SavePhase.Saving]
  have hstep := h.stepSave (t := { s.setSave i { task with phase := .ended } with lastSnapshotLsn := task.lsn })
    (i := i) rfl (fun j other hj hne => h.not_saving hi hsaving hj hne) trivial
  refine ⟨fun _ => ⟨snapshot, hloads, Nat.le_of_eq hsame.symm⟩, fun hnone => ?_, h.temp, h.file, ?_,
    ?_, hstep.1, hstep.2⟩
  · obtain ⟨file, hfile, -⟩ := hloads
    rw [show s.file = none from hnone] at hfile
    cases hfile
  · intro shard r hr
    have := h.archived shard r hr
    show 0 < task.lsn ∧ r.lsn ≤ task.lsn
    omega
  · intro other hother
    have := h.compactions other hother
    show 0 < other.uptoLsn ∧ other.uptoLsn ≤ task.lsn
    omega

/-- What a compaction archives is not above the stored LSN. -/
theorem Inv.archived_archive (h : Inv lib s) {task : CompactTask} (htask : task ∈ s.compactions)
    {file : ShardFile}
    {shard : Nat} {r : WalRecord} (hr : r ∈ (update s.wal task.shard file shard).archived)
    (hfile : file.archived = (ShardFile.archive (s.wal task.shard) task.uptoLsn).archived) :
    0 < s.lastSnapshotLsn ∧ r.lsn ≤ s.lastSnapshotLsn := by
  have hupto := h.compactions task htask
  by_cases hshard : shard = task.shard
  · rw [hshard, update_self, hfile] at hr
    rcases mem_append.mp hr with hr | hr
    · exact h.archived _ r hr
    · have : r.lsn ≤ task.uptoLsn := by simpa using (mem_filter.mp hr).2
      omega
  · rw [update_of_ne hshard] at hr
    exact h.archived shard r hr

/-- A compaction that goes on has the LSN that it had. -/
theorem Inv.compactions_set (h : Inv lib s) {compaction : Nat}
    {task new : CompactTask} (htask : s.compactions[compaction]? = some task)
    (hsame : new.uptoLsn = task.uptoLsn) :
    ∀ other ∈ s.compactions.set compaction new, 0 < other.uptoLsn ∧
    other.uptoLsn ≤ s.lastSnapshotLsn := by
  intro other hother
  rcases mem_or_eq_of_mem_set hother with hother | rfl
  · exact h.compactions other hother
  · rw [hsame]
    exact h.compactions task (mem_of_getElem? htask)

theorem Inv.step {e : ServerEvent} (hlib : lib.Lawful) (h : Inv lib s) (hmeets : OneAtATime lib s e)
    (hstep : ServerStep lib walShards s e t) : Inv lib t := by
  cases hstep with
  | @append shard record =>
    refine h.setWal (fun other r hr => ?_) h.compactions
    by_cases hshard : other = shard
    · rw [hshard, update_self] at hr
      exact h.archived shard r hr
    · rw [update_of_ne hshard] at hr
      exact h.archived other r hr
  | commit => exact h.setWal h.archived h.compactions
  | create | checkpoint => exact h.pushSave _ _
  | capture _ _ hlsn => exact h.setSave id hlsn
  | openTemp hi hphase hencode => exact h.openTemp hlib hi hphase hencode hmeets
  | write hi hphase => exact h.write hi hphase _
  | rename hi hphase htemp => exact h.rename hi hphase htemp
  | store hi hphase => exact h.store hi hphase
  | failSave _ => exact h.setSave id trivial
  | compact hne _ =>
    refine h.setWal h.archived fun task htask => ?_
    rcases mem_append.mp htask with htask | htask
    · exact h.compactions task htask
    · rw [mem_singleton.mp htask]
      exact ⟨Nat.pos_of_ne_zero hne, Nat.le_refl _⟩
  | compactShard htask _ _ =>
    exact h.setWal (fun shard r hr => h.archived_archive (mem_of_getElem? htask) hr rfl) (h.compactions_set htask rfl)
  | @failCompaction compaction task archived htask _ _ =>
    refine h.setWal (fun shard r hr => ?_) (h.compactions_set htask rfl)
    split at hr
    · exact h.archived_archive (mem_of_getElem? htask) hr rfl
    · exact h.archived shard r hr
  | finishCompaction htask _ _ => exact h.setWal h.archived (h.compactions_set htask rfl)
  | restartEmpty hnone =>
    have hzero := h.empty hnone
    refine ⟨fun hsome => absurd hnone hsome, fun _ => rfl, h.temp, h.file, fun shard r hr => ?_,
      by simp, by simp, by simp⟩
    have := (h.archived shard r hr).1
    omega
  | @restart file snapshot hfile hdecode =>
    have hle : s.lastSnapshotLsn ≤ snapshot.lsn := by
      obtain ⟨snapshot', ⟨file', hfile', hdecode'⟩, hle⟩ := h.loads (by simp [hfile])
      have : file' = file := some.inj (hfile'.symm.trans hfile)
      rw [this, hdecode] at hdecode'
      cases hdecode'
      exact hle
    refine ⟨fun _ => ⟨snapshot, ⟨file, hfile, hdecode⟩, Nat.le_refl _⟩, fun hnone => ?_, h.temp, h.file,
      fun shard r hr => ?_, by simp, by simp, by simp⟩
    · rw [show s.file = none from hnone] at hfile
      cases hfile
    · have := h.archived shard r hr
      show 0 < snapshot.lsn ∧ r.lsn ≤ snapshot.lsn
      omega

theorem Fresh.inv (h : Fresh s) : Inv lib s := by
  obtain ⟨hfile, htemp⟩ := h.files
  obtain ⟨hsaves, hcompactions⟩ := h.idle
  refine ⟨fun hsome => absurd hfile hsome, fun _ => h.lsn, ?_, ?_, ?_, ?_, ?_, ?_⟩
  · simp [htemp]
  · simp [hfile]
  · simp [h.archives]
  · simp [hcompactions]
  · simp [hsaves]
  · simp [hsaves]

/-- The snapshot file is not behind what has been archived, at every step of a run that writes one
snapshot at a time; wherever a crash stops it, a startup misses nothing. -/
theorem snapshot_covers_archives {s t : ServerState} (hlib : lib.Lawful) (hs : Fresh s)
    (hrun : Reaches (ServerStep lib walShards) (OneAtATime lib) s t) : Covers lib t := by
  have hinv : Inv lib t := hrun.invariant (fun _ _ _ h hmeets hstep => h.step hlib hmeets hstep) hs.inv
  have harchived : ∀ shard, ∀ r ∈ (t.wal shard).archived, ∃ snapshot, t.Loads lib snapshot ∧ r.lsn ≤ snapshot.lsn := by
    intro shard r hr
    obtain ⟨hpos, hle⟩ := hinv.archived shard r hr
    have hsome : t.file ≠ none := fun hnone => by
      have := hinv.empty hnone
      omega
    obtain ⟨snapshot, hloads, hlsn⟩ := hinv.loads hsome
    exact ⟨snapshot, hloads, by omega⟩
  refine ⟨fun hsome => ?_, harchived, fun shard r hr hnot => ?_⟩
  · obtain ⟨snapshot, hloads, -⟩ := hinv.loads hsome
    exact ⟨snapshot, hloads⟩
  · rcases mem_append.mp hr with hr | hr
    · exact harchived shard r hr
    · exact absurd hr hnot

/-! ## Two snapshots -/

section Sample

open Actor.SnapshotStore (encodeEnvelope encodeSnapshot_ok decodeSnapshot_of_fits)
open Actor.SnapshotStore (snapshotMaxPayloadBytes sampleLibraries sampleLibraries_lawful text toVarint)
open Actor.SnapshotStore (length_toVarint_le length_runLength_append runLength zstdMagic)

/-- A snapshot that is captured is written and renamed. -/
theorem reaches_renamed {meets : ServerState → ServerEvent → Prop} {save : Nat} (hsave :
    s.saves[save]? = some task) (hphase : task.phase = .captured snapshot)
    (hencode : encodeSnapshot lib snapshot = .ok
    bytes) (hopen : meets s (.openTemp save)) (hrest : ∀ t e, (∀ i, e ≠ .openTemp i) → meets t e) :
    Reaches (ServerStep
    lib walShards) meets s
      { s.setSave save { task with phase := .renamed } with
        contents := update s.contents (s.temp.getD s.nextFile) bytes
        nextFile := s.nextFile + 1
        temp := none
        file := some (s.temp.getD s.nextFile) } := by
  let handle := s.temp.getD s.nextFile
  let opened : SaveTask := { task with phase := .opened bytes handle 0 }
  let written : SaveTask :=
    { task with phase := .opened bytes handle (0 + ((bytes.drop 0).take bytes.length).length) }
  have hopened : (openTemp s save task bytes).saves[save]? = some opened := getElem?_set_self_of hsave
  have hwrite := @ServerStep.write lib walShards _ save opened bytes handle 0 bytes.length hopened rfl
  have hwritten : (writeTemp (openTemp s save task bytes) save opened bytes handle 0 bytes.length).saves[save]? =
      some written := getElem?_set_self_of hopened
  have hlength : 0 + ((bytes.drop 0).take bytes.length).length = bytes.length := by simp
  have hrename := @ServerStep.rename lib walShards _ save written bytes handle handle hwritten
    (congrArg (SavePhase.opened bytes handle) hlength) rfl
  have hrun := (((Reaches.refl s).take (.openTemp hsave hphase hencode) hopen).take hwrite
    (hrest _ _ fun _ h => nomatch h)).take hrename (hrest _ _ fun _ h => nomatch h)
  have hsame : overwrite [] 0 bytes = bytes := by simp [overwrite]
  simpa [writeTemp, openTemp, ServerState.setSave, handle, opened, written, hsame] using hrun

/-- A snapshot of a server without rooms. -/
def emptyAt (lsn : Nat) : ActorSnapshot := ⟨lsn, 3, none, ∅, []⟩

def emptyJson (lsn : Nat) : Bytes :=
  text s!"\x7b\"lsn\":{lsn},\"schemaVersion\":3,\"rooms\":\x7b\x7d\x7d"

open Classical in
/-- The libraries, with a JSON writer that knows these snapshots at two LSNs. -/
noncomputable def twoLibraries : Actor.SnapshotStore.Libraries :=
  { sampleLibraries (emptyAt 1) (emptyJson 1) with
    jsonToVec := fun snapshot =>
      if snapshot = emptyAt 1 then .ok (emptyJson 1)
      else if snapshot = emptyAt 2 then .ok (emptyJson 2) else bail "not sampled"
    jsonFromSlice := fun bytes =>
      if bytes = emptyJson 1 then .ok (emptyAt 1)
      else if bytes = emptyJson 2 then .ok (emptyAt 2) else bail "expected value" }

theorem emptyJson_ne : emptyJson 2 ≠ emptyJson 1 := by decide

theorem twoLibraries_lawful : twoLibraries.Lawful where
  json := by
    intro snapshot bytes h
    simp only [twoLibraries] at h ⊢
    split at h
    · next hs => cases h; rw [if_pos rfl, hs]
    · split at h
      · next hs => cases h; rw [if_neg emptyJson_ne, if_pos rfl, hs]
      · cases h
  postcard := @(sampleLibraries_lawful (emptyAt 1) (emptyJson 1)).postcard
  compress_ne_nil := @(sampleLibraries_lawful (emptyAt 1) (emptyJson 1)).compress_ne_nil
  decompress := @(sampleLibraries_lawful (emptyAt 1) (emptyJson 1)).decompress
  decompress_over := @(sampleLibraries_lawful (emptyAt 1) (emptyJson 1)).decompress_over

variable {lsn : Nat}

theorem jsonToVec_emptyAt (hlsn : lsn = 1 ∨ lsn = 2) :
    twoLibraries.jsonToVec (emptyAt lsn) = .ok (emptyJson lsn) := by
  rcases hlsn with rfl | rfl
  · exact if_pos rfl
  · exact (if_neg (by simp [emptyAt])).trans (if_pos rfl)

theorem exists_encode_emptyAt (hlsn : lsn = 1 ∨ lsn = 2) :
    ∃ bytes, encodeSnapshot twoLibraries (emptyAt lsn) = .ok bytes ∧
    EnvelopeFits twoLibraries (emptyAt lsn) := by
  let postcard := toVarint lsn ++ (toVarint 3 ++ (toVarint (emptyJson lsn).length ++ emptyJson lsn))
  have henvelope : encodeEnvelope twoLibraries (emptyAt lsn) = .ok postcard := by
    rw [encodeEnvelope, jsonToVec_emptyAt hlsn]
    rfl
  have hjson : (emptyJson lsn).length ≤ 100 := by
    rcases hlsn with rfl | rfl <;> decide
  have hlen : postcard.length ≤ 200 := by
    have v₁ := (length_toVarint_le lsn).2
    have v₂ := (length_toVarint_le 3).2
    have v₃ := (length_toVarint_le (emptyJson lsn).length).2
    simp only [postcard, length_append]
    omega
  have hruns := length_runLength_append postcard []
  have hnil : (runLength []).length = 0 := rfl
  rw [append_nil] at hruns
  refine ⟨_, encodeSnapshot_ok.mpr ⟨postcard, zstdMagic ++ runLength postcard, henvelope, rfl, ?_, rfl⟩, postcard,
    henvelope, ?_⟩
  · rw [length_append, show zstdMagic.length = 4 from rfl, snapshotMaxPayloadBytes]
    omega
  · rw [snapshotMaxPayloadBytes]
    omega

def fresh : ServerState := ⟨fun _ => ⟨[], []⟩, 0, 0, 0, fun _ => [], 0, none, none, [], []⟩

theorem fresh_ok : Fresh fresh := ⟨⟨rfl, rfl⟩, fun _ => rfl, rfl, rfl, rfl⟩

def recordAt (lsn : Nat) : WalRecord :=
  ⟨lsn, 0, 1, "a", 0, 1, .strict, .hostHttpCompleted "r" lsn, none⟩

/-- A snapshot is captured at the first LSN and one at the second, which has been appended to the
log. -/
def twoSaves (first second : SavePhase) : ServerState :=
  { fresh with
    wal := Function.update fresh.wal 0 ⟨[], [recordAt 2]⟩
    currentLsn := 2
    saves := [⟨1, false, first⟩, ⟨2, false, second⟩] }

theorem reaches_twoSaves : Reaches (ServerStep twoLibraries 1) (OneAtATime twoLibraries) fresh
    (twoSaves (.captured (emptyAt 1)) (.captured (emptyAt 2))) := by
  have h₁ := (@Reaches.refl _ _ (ServerStep twoLibraries 1) (OneAtATime twoLibraries) fresh).take
    (e := ServerEvent.commit 1) .commit trivial
  have h₂ := h₁.take (e := .create) .create (by trivial)
  have h₃ := h₂.take (e := .append 0 (recordAt 2)) .append (by trivial)
  have h₄ := h₃.take (e := .commit 2) .commit (by trivial)
  have h₅ := h₄.take (e := .create) .create (by trivial)
  have h₆ := h₅.take (e := .capture 0 (emptyAt 1)) (.capture rfl rfl rfl) (by trivial)
  have h₇ := h₆.take (e := .capture 1 (emptyAt 2)) (.capture rfl rfl rfl) (by trivial)
  exact h₇

/-- The second snapshot is written, and the record is archived. -/
def archivedTwo (bytes : Bytes) : ServerState :=
  let s := twoSaves (.captured (emptyAt 1)) .ended
  { s with
    wal := Function.update s.wal 0 ⟨[recordAt 2], []⟩
    lastSnapshotLsn := 2
    contents := Function.update fresh.contents 0 bytes
    nextFile := 1
    file := some 0
    compactions := [⟨2, 1, false⟩] }

theorem reaches_archivedTwo (hencode : encodeSnapshot twoLibraries (emptyAt 2) = .ok bytes)
    (hfits : EnvelopeFits twoLibraries (emptyAt 2)) :
    Reaches (ServerStep twoLibraries 1) (OneAtATime twoLibraries) fresh (archivedTwo bytes) := by
  have hopen : OneAtATime twoLibraries (twoSaves (.captured (emptyAt 1)) (.captured (emptyAt 2))) (.openTemp 1) := by
    constructor
    · intro other hother
      rcases mem_pair.mp hother with rfl | rfl
      · exact id
      · exact id
    · intro task snapshot htask hphase
      cases (some.inj htask : _ = task)
      cases hphase
      exact ⟨Nat.zero_le _, hfits⟩
  have hrest : ∀ t e, (∀ i, e ≠ .openTemp i) → OneAtATime twoLibraries t e := by
    intro t e he
    cases e with
    | openTemp i => exact absurd rfl (he i)
    | _ => trivial
  have hsave : (twoSaves (.captured (emptyAt 1)) (.captured (emptyAt 2))).saves[1]? =
      some ⟨2, false, .captured (emptyAt 2)⟩ := rfl
  have h₁ := reaches_twoSaves.trans (reaches_renamed hsave rfl hencode hopen hrest)
  have h₂ := Reaches.take h₁ (e := .store 1) (.store rfl rfl) (by trivial)
  have h₃ := h₂.take (e := .compact) (.compact (Nat.succ_ne_zero 1) Nat.two_pos) (by trivial)
  have h₄ := h₃.take (e := .compactShard 0) (.compactShard rfl rfl Nat.one_pos) (by trivial)
  exact h₄

theorem snapshot_covers_archives_sample : ∃ bytes, Covers twoLibraries (archivedTwo bytes) := by
  obtain ⟨bytes, hencode, hfits⟩ := exists_encode_emptyAt (.inr rfl)
  exact ⟨bytes, snapshot_covers_archives twoLibraries_lawful fresh_ok (reaches_archivedTwo hencode hfits)⟩

/-- The snapshot that was captured first is written last: the file is behind what was archived. -/
theorem snapshot_behind_archives :
    ¬ ∀ (lib : Actor.SnapshotStore.Libraries) (walShards : Nat) (s t : ServerState), lib.Lawful →
    Fresh s →
      Reaches (ServerStep lib walShards) (fun _ _ => True) s t → Covers lib t := by
  intro h
  obtain ⟨bytes, hencode, hfits⟩ := exists_encode_emptyAt (.inr rfl)
  obtain ⟨bytes₁, hencode₁, postcard, henvelope, hlen⟩ := exists_encode_emptyAt (.inl rfl)
  have hsave : (archivedTwo bytes).saves[0]? = some ⟨1, false, .captured (emptyAt 1)⟩ := rfl
  have hrenamed : Reaches (ServerStep twoLibraries 1) (fun _ _ => True) (archivedTwo bytes) _ :=
    reaches_renamed hsave rfl hencode₁ trivial fun _ _ _ => trivial
  have hrun := ((reaches_archivedTwo hencode hfits).weaken fun _ _ _ => trivial).trans hrenamed
  obtain ⟨snapshot, ⟨file, hfile, hdecode⟩, hle⟩ :=
    (h _ _ _ _ twoLibraries_lawful fresh_ok hrun).archived 0 (recordAt 2) mem_cons_self
  cases (some.inj hfile : _ = file)
  have hsnapshot := decodeSnapshot_of_fits twoLibraries_lawful hencode₁ henvelope hlen
  rw [show decodeSnapshot twoLibraries bytes₁ = .ok snapshot from hdecode] at hsnapshot
  cases hsnapshot
  exact absurd hle (by decide)

end Sample

end NextDb.Api.SnapshotFile
