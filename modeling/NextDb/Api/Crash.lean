import Mathlib.Data.List.Flatten
import NextDb.Api.Mutation
import NextDb.Api.Paging
import NextDb.Api.Snapshot
import NextDb.Records.FromWal

/-!
# Messages and crashes

`send_message` and `send_messages` append to the log, then to the chat log, bucket by
bucket, then to the hot window. The server may crash between any two of these steps. At
startup the hot windows are made from the snapshot and the log; the chat log is made from
the log only once, which a marker file remembers.

* `startUp_pages`: after a startup the pages of a room hold every message of it in the log,
  when the chat log, if it is kept, and the hot window, as it is replayed, lack none that
  they would skip.
-/

namespace NextDb.Api.Crash

open Run Wal Actor Chat Newest Messages Paging Records List Option Function Std.ExtHashMap
open Snapshot (ActorSnapshot RunningSnapshot Shards replayShards)

/-! ## The server -/

/-- What a crash leaves. -/
structure Disk where
  wal : Nat → List WalRecord
  chatLog : ChatLog
  /-- The marker `.rebuilt-from-wal`. -/
  rebuilt : Bool
  saved : Option ActorSnapshot

/-- A step of a call after the log. -/
inductive Work where
  | commitLsns (lsns : List Nat)
  | line (message : Message)
  | project (messages : List Message)
  | apply (messages : List Message)

/-- Where a call is: its drafts go to the log one after the other. -/
inductive Call where
  | logging (queued : List MessageDraft) (messages : List Message)
  | writing (works : List Work)

/-- What a crash loses. -/
structure Live where
  currentLsn : Nat
  rooms : HashMap String RoomLiveState
  calls : List Call
  snapshots : List RunningSnapshot

def Live.setCall (live : Live) (call : Nat) (state : Call) : Live :=
  { live with calls := live.calls.set call state }

/-- The disk and, while the server runs, its memory. -/
structure ServerState where
  disk : Disk
  live : Option Live

/-- A start, a crash, and the steps of sends and snapshots. -/
inductive ServerEvent where
  | startUp
  | crash
  /-- `send_message` or `send_messages`. -/
  | send (roomId : String) (drafts : List MessageDraft)
  | logNext (call : Nat) (record : WalRecord)
  | logged (call : Nat) (paths : List (String × Nat))
  | work (call : Nat)
  /-- The request fails, or its client is gone. -/
  | abandon (call : Nat)
  | evict (rooms : List String)
  | read (roomId : String) (query : MessagesQuery)
  | createSnapshot
  | capture (snapshot : Nat)
  | save (snapshot : Nat)

/-- What follows the log: the buckets in any order, then the hot window. -/
def works (paths : List (String × Nat)) (messages : List Message) : List Work :=
  .commitLsns (messages.map Message.lsn) :: (paths.flatMap fun path =>
      (messages.filter fun m => bucketPath m = path).map .line ++
        [.project (messages.filter fun m => bucketPath m = path)]) ++
    [.apply messages]

variable (sort : MessageSort) (cfg : Shards)

def Work.onDisk (work : Work) (disk : Disk) : Disk :=
  match work with
  | .line message => { disk with chatLog := disk.chatLog.appendLine message }
  | .project messages => { disk with chatLog := disk.chatLog.project messages }
  | .commitLsns _ | .apply _ => disk

def Work.onLive (work : Work) (live : Live) : Live :=
  match work with
  | .commitLsns lsns => { live with currentLsn := lsns.foldl max live.currentLsn }
  | .apply messages => { live with rooms := applyMessages sort cfg.hotWindow live.rooms messages }
  | .line _ | .project _ => live

/-- The records of the logs of all shards. -/
def Disk.records (disk : Disk) : List WalRecord := (List.range cfg.walShards).flatMap disk.wal

def Disk.messages (disk : Disk) : List Message := messagesFromWalRecords (disk.records cfg)

/-- The messages of a room in the log. -/
def Disk.history (disk : Disk) (roomId : String) : List Message :=
  (disk.messages cfg).filter (·.roomId = roomId)

/-- `all_messages` of `main`. -/
def Disk.allMessages (disk : Disk) : List Message :=
  messagesFromWalRecords (readRecordsFromWalPaths ((List.range cfg.walShards).map fun shard => ([], disk.wal shard)))

/-- `rebuild_from_messages`. -/
def Disk.startUp (disk : Disk) : Disk :=
  { disk with
    chatLog := if disk.rebuilt then disk.chatLog else ChatLog.new.appendMany (disk.allMessages cfg)
    rebuilt := true }

/-- The snapshot, or none of any message. -/
def Disk.snapshot (disk : Disk) : ActorSnapshot := disk.saved.getD ⟨0, ∅⟩

def Disk.highestLsn (disk : Disk) : Nat :=
  (disk.records cfg).foldl (fun highest record => max highest record.lsn) disk.snapshot.lsn

def Disk.startLive (disk : Disk) : Live where
  currentLsn := disk.highestLsn cfg
  rooms := replayShards sort cfg disk.snapshot.lsn disk.snapshot.intoRuntimeState disk.wal
  calls := []
  snapshots := []

/-- A record that a shard can append: its LSN is above those of the shard, and no other
record has it or the message's id. -/
structure Appends (disk : Disk) (draft : MessageDraft) (record : WalRecord) : Prop where
  payload : record.payload = .messageCreated draft
  positive : 0 < record.lsn
  bound : record.lsn ≤ u64Max
  above : ∀ r ∈ disk.wal (cfg.walShard draft.roomId), r.lsn < record.lsn
  fresh : ∀ r ∈ disk.records cfg, r.lsn ≠ record.lsn
  id : 0 ∉ strBytes draft.id ∧ ∀ m ∈ disk.messages cfg, m.id ≠ draft.id

def Disk.append (disk : Disk) (roomId : String) (record : WalRecord) : Disk :=
  { disk with
    wal := Function.update disk.wal (cfg.walShard roomId) (disk.wal (cfg.walShard roomId) ++ [record]) }

/-- What each event does to the disk and the memory. -/
inductive ServerStep : ServerState → ServerEvent → ServerState → Prop where
  | startUp {disk} : ServerStep ⟨disk, none⟩ .startUp ⟨disk.startUp cfg, some (disk.startLive sort cfg)⟩
  | crash {disk live} : ServerStep ⟨disk, live⟩ .crash ⟨disk, none⟩
  | send {disk live roomId drafts} : drafts ≠ [] → (∀ d ∈ drafts, d.roomId = roomId) →
    ServerStep ⟨disk, some live⟩ (.send roomId drafts)
      ⟨disk, some { live with calls := live.calls ++ [.logging drafts []] }⟩
  | logNext {disk live call draft queued messages record} :
    live.calls[call]? = some (.logging (draft :: queued) messages) → Appends cfg disk draft record →
    ServerStep ⟨disk, some live⟩ (.logNext call record) ⟨disk.append cfg draft.roomId record,
        some (live.setCall call (.logging queued (messages ++ [draft.intoMessage record.lsn])))⟩
  | logged {disk live call messages paths} :
    live.calls[call]? = some (.logging [] messages) → paths.Perm (messages.map bucketPath).dedup →
    ServerStep ⟨disk, some live⟩ (.logged call paths) ⟨disk, some (live.setCall call (.writing (works paths messages)))⟩
  | work {disk live call work rest} : live.calls[call]? = some (.writing (work :: rest)) →
    ServerStep ⟨disk, some live⟩ (.work call)
      ⟨work.onDisk disk, some (work.onLive sort cfg (live.setCall call (.writing rest)))⟩
  | abandon {disk live call} : ServerStep ⟨disk, some live⟩ (.abandon call)
      ⟨disk, some { live with calls := live.calls.eraseIdx call }⟩
  | evict {disk live rooms} : ServerStep ⟨disk, some live⟩ (.evict rooms)
      ⟨disk, some { live with rooms := evict live.rooms rooms }⟩
  | read {disk live roomId query} : ServerStep ⟨disk, some live⟩ (.read roomId query)
      ⟨disk, some { live with
        rooms := (latestMessages sort cfg.hotWindow disk.chatLog live.rooms roomId query).2 }⟩
  | createSnapshot {disk live} : ServerStep ⟨disk, some live⟩ .createSnapshot
      ⟨disk, some { live with snapshots := live.snapshots ++ [⟨0, live.currentLsn, ∅⟩] }⟩
  | capture {disk live snapshot r} : live.snapshots[snapshot]? = some r → r.captured < cfg.actorShards →
    ServerStep ⟨disk, some live⟩ (.capture snapshot)
      ⟨disk, some { live with snapshots := live.snapshots.set snapshot (r.capture cfg live.rooms) }⟩
  | save {disk live snapshot r} : live.snapshots[snapshot]? = some r → r.captured = cfg.actorShards →
    ServerStep ⟨disk, some live⟩ (.save snapshot) ⟨{ disk with saved := some r.snapshot },
        some { live with snapshots := live.snapshots.eraseIdx snapshot }⟩

/-- A server that has never run. -/
def ServerState.new : ServerState := ⟨⟨fun _ => [], .new, false, none⟩, none⟩

/-- The window of a room in the snapshot. -/
def Disk.snapshotWindow (disk : Disk) (roomId : String) : List Message :=
  (disk.snapshot.rooms[roomId]?).elim [] Snapshot.RoomSnapshot.messages

/-- The window that replay makes of the room: the newest of what the snapshot has and the
log has above its LSN. -/
def Disk.replayed (disk : Disk) (roomId : String) : List Message :=
  newest Message.lsn cfg.hotWindow
    (disk.snapshotWindow roomId ++ (disk.history cfg roomId).filter (disk.snapshot.lsn < ·.lsn))

/-- No key of another room begins with the room's prefix; a chat log that is kept can be
read to every message of the room; and the replayed window has no gap. -/
structure Recoverable (disk : Disk) (roomId : String) : Prop where
  alone : Alone (disk.messages cfg) roomId
  chatLog : disk.rebuilt → ∀ m ∈ disk.history cfg roomId, disk.chatLog.Readable (disk.history cfg roomId) m
  window : ∀ m ∈ disk.replayed cfg roomId, ∀ m' ∈ disk.history cfg roomId, m.lsn < m'.lsn →
    m' ∈ disk.replayed cfg roomId

variable {sort cfg}

/-! ## Windows of logged messages -/

/-- A window of messages of the room that are in the log. -/
structure WindowOk (hotWindow : Nat) (messages : List Message) (roomId : String)
    (window : List Message) :
    Prop where
  chain : window.IsChain fun a b => messageLe a b
  subset : ∀ m ∈ window, m ∈ messages ∧ m.roomId = roomId
  length : window.length ≤ hotWindow

theorem WindowOk.nil (hotWindow : Nat) (messages : List Message) (roomId : String) :
    WindowOk hotWindow messages roomId [] := ⟨.nil, nofun, Nat.zero_le _⟩

variable {hotWindow : Nat} {s : ServerState} {paths : List (String × Nat)} {disk : Disk}
    {messages : List Message}
  {roomId : String} {window : List Message}

theorem WindowOk.mono {messages' : List Message} (h : WindowOk hotWindow messages roomId window)
    (hs : ∀ m ∈ messages, m ∈ messages') : WindowOk hotWindow messages' roomId window :=
  ⟨h.chain, fun m hm => (h.subset m hm).imp_left (hs m), h.length⟩

/-- The batch of one room, among those of the others. -/
theorem windowOf_applyMessages (hotWindow : Nat) (rooms : HashMap String RoomLiveState)
    (messages : List Message) (roomId : String) :
    windowOf (applyMessages sort hotWindow rooms messages) roomId =
    ((rooms.getD roomId .new).applyMessages sort (messages.filter (·.roomId = roomId)) hotWindow).messages := by
  have hfold : ∀ (ids : List String), ids.Nodup → ∀ rooms : HashMap String RoomLiveState,
      windowOf (ids.foldl (fun rooms id => rooms.insert id ((rooms.getD id .new).applyMessages sort
        (messages.filter (·.roomId = id)) hotWindow)) rooms) roomId =
      if roomId ∈ ids then
        ((rooms.getD roomId .new).applyMessages sort (messages.filter (·.roomId = roomId)) hotWindow).messages
      else windowOf rooms roomId := by
    intro ids hn
    induction ids with
    | nil => exact fun _ => rfl
    | cons id ids ih =>
      intro rooms
      obtain ⟨hnot, hn⟩ := nodup_cons.mp hn
      rw [foldl_cons, ih hn]
      by_cases he : id = roomId
      · subst he
        rw [if_neg hnot, if_pos mem_cons_self, windowOf, getD_insert_self]
      · have hget : ∀ room : RoomLiveState, (rooms.insert id room).getD roomId .new = rooms.getD roomId .new :=
          fun room => by rw [getD_insert, if_neg (by simpa using he)]
        rw [windowOf, hget]
        by_cases hmem : roomId ∈ ids
        · rw [if_pos hmem, if_pos (mem_cons_of_mem _ hmem)]
        · rw [if_neg hmem, if_neg fun h => (mem_cons.mp h).elim (fun he' => he he'.symm) hmem]
          rfl
  rw [applyMessages, hfold _ (nodup_dedup _)]
  split
  · rfl
  · next hnot =>
    have hnone : messages.filter (·.roomId = roomId) = [] := by
      refine filter_eq_nil_iff.mpr fun m hm he => hnot (mem_dedup.mpr ?_)
      exact mem_map.mpr ⟨m, hm, by simpa using he⟩
    rw [hnone]
    rfl

theorem WindowOk.apply {hotWindow : Nat} {messages : List Message}
    {roomId : String} {room : RoomLiveState} (h : WindowOk hotWindow messages roomId room.messages)
    (hd : Durable messages) {batch : List Message}
    (hbatch : ∀ m ∈ batch, m ∈ messages ∧ m.roomId = roomId) :
    WindowOk hotWindow messages roomId (room.applyMessages sort batch hotWindow).messages := by
  by_cases hne : batch = []
  · subst hne
    exact h
  · have hdurable : Durable (room.messages ++ batch) :=
      Durable.append.mpr ⟨fun m hm => hd m (h.subset m hm).1, fun m hm => hd m (hbatch m hm).1⟩
    obtain ⟨window, hperm, hsorted, hmessages⟩ :=
      applyMessages_ordered sort hotWindow h.chain (Ordered.of_durable hdurable) hne
    rw [hmessages]
    refine ⟨hsorted.isChain.suffix (drop_suffix ..), fun m hm => ?_, ?_⟩
    · exact (mem_append.mp (hperm.mem_iff.mp (mem_of_mem_drop hm))).elim (h.subset m) (hbatch m)
    · rw [rtake, length_drop]
      omega

theorem WindowOk.applyMessages {hotWindow : Nat} {messages : List Message}
    {rooms : HashMap String RoomLiveState}
    (h : ∀ roomId, WindowOk hotWindow messages roomId (windowOf rooms roomId))
    (hd : Durable messages)
    {batch : List Message} (hbatch : ∀ m ∈ batch, m ∈ messages) (roomId : String) :
    WindowOk hotWindow messages roomId (windowOf (Messages.applyMessages sort hotWindow rooms batch) roomId) := by
  rw [windowOf_applyMessages]
  refine (h roomId).apply hd fun m hm => ?_
  obtain ⟨hm, hroom⟩ := mem_filter.mp hm
  exact ⟨hbatch m hm, by simpa using hroom⟩

/-! ## The invariant -/

/-- The lines that a step writes, and the messages it projects. -/
def Work.toLine : Work → List Message
  | .line message => [message]
  | _ => []

def Work.toProject : Work → List Message
  | .project messages => messages
  | _ => []

/-- The lines that a call has still to write. -/
def Call.toLine : Call → List Message
  | .logging _ messages => messages
  | .writing works => works.flatMap Work.toLine

/-- The messages that a call has still to project. -/
def Call.toProject : Call → List Message
  | .logging _ messages => messages
  | .writing works => works.flatMap Work.toProject

/-- What is applied is in the log. -/
def Call.Applies (messages : List Message) : Call → Prop
  | .logging _ _ => True
  | .writing works => ∀ batch, Work.apply batch ∈ works → ∀ m ∈ batch, m ∈ messages

/-- The windows of the snapshot are windows of the rooms' histories. -/
def SnapshotOk (hotWindow : Nat) (messages : List Message) (snapshot : ActorSnapshot) : Prop :=
  ∀ (roomId : String) (room : Snapshot.RoomSnapshot), snapshot.rooms[roomId]? = some room →
    WindowOk hotWindow messages roomId room.messages

/-- What a running server holds. -/
structure LiveInv (hotWindow : Nat) (messages : List Message) (live : Live) : Prop where
  applies : ∀ call ∈ live.calls, call.Applies messages
  windows : ∀ roomId, WindowOk hotWindow messages roomId (windowOf live.rooms roomId)
  snapshots : ∀ r ∈ live.snapshots, SnapshotOk hotWindow messages r.snapshot

/-- What the calls have still to do of something. -/
def pending (f : Call → List Message) (live : Option Live) : List Message :=
  live.elim [] fun live => live.calls.flatMap f

/-- The chat log has what the log says, but for what the calls have still to write. -/
structure Inv (cfg : Shards) (s : ServerState) : Prop where
  records : ((s.disk.records cfg).map WalRecord.lsn).Nodup
  written : ∃ projected lines, s.disk.chatLog.Wrote projected lines ∧
    Logs (s.disk.messages cfg) (projected ++ pending Call.toProject s.live) (lines ++ pending Call.toLine s.live)
  live : ∀ live, s.live = some live → LiveInv cfg.hotWindow (s.disk.messages cfg) live
  saved : ∀ snapshot, s.disk.saved = some snapshot → SnapshotOk cfg.hotWindow (s.disk.messages cfg) snapshot

theorem Inv.durable (h : Inv cfg s) : Durable (s.disk.messages cfg) := by
  obtain ⟨_, _, -, hlogs⟩ := h.written
  exact hlogs.durable

/-- Fewer messages are on their way. -/
theorem logs_mono {projected lines projected' lines' : List Message}
    (h : Logs messages projected lines)
    (hp : projected'.Subperm projected) (hl : lines'.Subperm lines) :
    Logs messages projected' lines' := by
  obtain ⟨p, hpp, hps⟩ := hp
  obtain ⟨l, hlp, hls⟩ := hl
  refine ⟨h.identified, h.lsns, h.durable, h.bound, ⟨hpp.nodup_iff.mp (h.projected.1.sublist hps), fun m hm => ?_⟩,
    ⟨hlp.nodup_iff.mp (h.lines.1.sublist hls), fun m hm => ?_⟩⟩
  · exact h.projected.2 m (hps.subset (hpp.mem_iff.mpr hm))
  · exact h.lines.2 m (hls.subset (hlp.mem_iff.mpr hm))

theorem flatMap_set_perm {l : List Call} {i : Nat} {a : Call} (hi : l[i]? = some a) (b : Call)
    (f : Call → List Message) : (f a ++ (l.set i b).flatMap f).Perm (f b ++ l.flatMap f) := by
  obtain ⟨hlt, rfl⟩ := List.getElem?_eq_some_iff.mp hi
  have hset : i < (l.set i b).length := by rwa [List.length_set]
  have hold : (l[i] :: l.eraseIdx i).Perm l := getElem_cons_eraseIdx_perm hlt
  have hnew := getElem_cons_eraseIdx_perm hset
  rw [getElem_set_self, eraseIdx_set_eq] at hnew
  have hold := (hold.flatMap_right f).symm.append_left (f b)
  have hnew := (hnew.flatMap_right f).symm.append_left (f l[i])
  rw [flatMap_cons] at hold hnew
  exact hnew.trans ((perm_append_comm_assoc ..).trans hold.symm)

/-- The works of a call do once to each message what they do to those of a bucket. -/
theorem flatMap_works {f : Work → List Message} (hcommit : ∀ lsns, f (.commitLsns lsns) = [])
    (happly : ∀ batch, f (.apply batch) = [])
    (hbatch : ∀ batch : List Message,
      (batch.map Work.line ++ [Work.project batch]).flatMap f = batch)
    (hp : paths.Perm (messages.map bucketPath).dedup) (hn : messages.Nodup) :
    ((works paths messages).flatMap f).Perm messages := by
  have hall : (works paths messages).flatMap f = paths.flatMap fun path => messages.filter fun m =>
      bucketPath m = path := by
    rw [works, cons_append, flatMap_cons, hcommit, nil_append, flatMap_append, flatMap_assoc, flatMap_cons, happly,
      flatMap_nil, append_nil, append_nil]
    exact flatMap_congr fun path _ => hbatch _
  rw [hall]
  exact (hp.flatMap_right _).trans (flatMap_buckets_perm hn)

theorem works_toLine (hp : paths.Perm (messages.map bucketPath).dedup) (hn : messages.Nodup) :
    (Call.writing (works paths messages)).toLine.Perm messages :=
  flatMap_works (fun _ => rfl) (fun _ => rfl) (fun batch => by rw [flatMap_append, flatMap_map]; simp [Work.toLine]) hp
    hn

theorem works_toProject (hp : paths.Perm (messages.map bucketPath).dedup) (hn : messages.Nodup) :
    (Call.writing (works paths messages)).toProject.Perm messages :=
  flatMap_works (fun _ => rfl) (fun _ => rfl) (fun batch => by rw [flatMap_append, flatMap_map]; simp [Work.toProject])
    hp hn

theorem applies_works {all : List Message} (h : ∀ m ∈ messages, m ∈ all) :
    (Call.writing (works paths messages)).Applies all := by
  intro batch hmem m hm
  simp only [works, List.cons_append, List.mem_cons, List.mem_append, List.mem_flatMap, List.mem_map, reduceCtorEq,
    false_or, and_false, exists_false, List.not_mem_nil, or_false, Work.apply.injEq] at hmem
  rw [hmem] at hm
  exact h m hm

/-! ## The log -/

theorem flatMap_update_perm {shards shard : Nat} (hlt : shard < shards) (wal : Nat → List WalRecord)
    (record : WalRecord) : ((range shards).flatMap (update wal shard (wal shard ++ [record]))).Perm
    ((range shards).flatMap wal ++ [record]) := by
  induction shards with
  | zero => exact absurd hlt (Nat.not_lt_zero _)
  | succ shards ih =>
    rw [range_succ, flatMap_append, flatMap_append, flatMap_singleton, flatMap_singleton]
    rcases Nat.lt_or_eq_of_le (Nat.le_of_lt_succ hlt) with hlt | rfl
    · rw [update_of_ne (by omega)]
      refine ((ih hlt).append_right _).trans ?_
      rw [append_assoc, append_assoc]
      exact (perm_append_comm).append_left _
    · rw [update_self, ← append_assoc]
      refine Perm.append_right [record] (Perm.append_right _ (.of_eq ?_))
      refine flatMap_congr fun other hother => ?_
      rw [update_of_ne (mem_range.mp hother).ne]

theorem records_append (cfg : Shards) (disk : Disk) (roomId : String) (record : WalRecord) :
    ((disk.append cfg roomId record).records cfg).Perm (disk.records cfg ++ [record]) :=
  flatMap_update_perm (cfg.walShard_lt roomId) disk.wal record

theorem messages_append {draft : MessageDraft} {record : WalRecord}
    (h : Appends cfg disk draft record) :
    ((disk.append cfg draft.roomId record).messages cfg).Perm
    (disk.messages cfg ++ [draft.intoMessage record.lsn]) := by
  have hone : messagesFromWalRecords [record] = [draft.intoMessage record.lsn] := by
    rw [messagesFromWalRecords, filterMap_cons, messageOf, h.payload]
    rfl
  rw [← hone, Disk.messages, Disk.messages, ← messagesFromWalRecords_append]
  exact (records_append cfg disk draft.roomId record).filterMap _

theorem mem_messages {m : Message} (hm : m ∈ disk.messages cfg) :
    ∃ record ∈ disk.records cfg, messageOf record = some m ∧ record.lsn = m.lsn := by
  obtain ⟨record, hrecord, hm⟩ := mem_filterMap.mp hm
  exact ⟨record, hrecord, hm, (messageOf_lsn hm).symm⟩

theorem Inv.logNext {disk : Disk} {live : Live}
    {call : Nat} {draft : MessageDraft} {queued : List MessageDraft} {messages : List Message}
    {record : WalRecord}
    (h : Inv cfg ⟨disk, some live⟩)
    (hcall : live.calls[call]? = some (.logging (draft :: queued) messages))
    (happends : Appends cfg disk draft record) : Inv cfg ⟨disk.append cfg draft.roomId record,
    some (live.setCall call (.logging queued (messages ++ [draft.intoMessage record.lsn])))⟩ := by
  let m := draft.intoMessage record.lsn
  have hperm := messages_append happends
  have hgrow : ∀ m ∈ disk.messages cfg, m ∈ (disk.append cfg draft.roomId record).messages cfg :=
    fun m hm => hperm.mem_iff.mpr (mem_append_left _ hm)
  obtain ⟨projected, lines, hwrote, hlogs⟩ := h.written
  have hfresh : ∀ m' ∈ disk.messages cfg, m'.lsn ≠ m.lsn := by
    intro m' hm'
    obtain ⟨r, hr, -, hlsn⟩ := mem_messages hm'
    exact hlsn ▸ happends.fresh r hr
  have hnew : m ∉ disk.messages cfg := fun hm => hfresh m hm rfl
  have hjoin : ∀ {f : Call → List Message} {before : List Message}, f (.logging (draft :: queued) messages) = messages →
      f (.logging queued (messages ++ [m])) = messages ++ [m] →
      (before ++ (live.calls.set call (.logging queued (messages ++ [m]))).flatMap f).Perm
        ((before ++ live.calls.flatMap f) ++ [m]) := by
    intro f before ha hb
    have hset := flatMap_set_perm hcall (.logging queued (messages ++ [m])) f
    rw [ha, hb, append_assoc, perm_append_left_iff] at hset
    rw [append_assoc]
    exact (hset.trans perm_append_comm).append_left before
  have hadd : ∀ {some : List Message}, some.Nodup → (∀ m ∈ some, m ∈ disk.messages cfg) → (some ++ [m]).Nodup ∧
      ∀ m' ∈ some ++ [m], m' ∈ (disk.append cfg draft.roomId record).messages cfg := by
    intro some hn hs
    refine ⟨nodup_append.mpr ⟨hn, nodup_singleton m, fun a ha b hb he => ?_⟩, fun m' hm' => ?_⟩
    · exact hnew (mem_singleton.mp hb ▸ he ▸ hs a ha)
    · exact hperm.mem_iff.mpr ((mem_append.mp hm').elim (fun hm => mem_append_left _ (hs m' hm)) (mem_append_right _))
  have hall : ∀ m' ∈ (disk.append cfg draft.roomId record).messages cfg, m' ∈ disk.messages cfg ∨ m' = m :=
    fun m' hm' => (mem_append.mp (hperm.mem_iff.mp hm')).imp_right mem_singleton.mp
  refine ⟨?_, ⟨projected, lines, hwrote, ?_⟩, fun live' hlive => ?_, fun snapshot hs room r hr => ?_⟩
  · refine ((records_append cfg disk draft.roomId record).map _).nodup_iff.mpr ?_
    rw [map_append, nodup_append]
    refine ⟨h.records, nodup_singleton _, fun n hn n' hn' => ?_⟩
    obtain ⟨r, hr, rfl⟩ := mem_map.mp hn
    rw [mem_singleton.mp hn']
    exact happends.fresh r hr
  · have hids : ((disk.messages cfg ++ [m]).map Message.id).Nodup := by
      rw [map_append, nodup_append]
      refine ⟨hlogs.identified.distinct, nodup_singleton _, fun n hn n' hn' => ?_⟩
      obtain ⟨m', hm', rfl⟩ := mem_map.mp hn
      rw [mem_singleton.mp hn']
      exact happends.id.2 m' hm'
    have hlsns : ((disk.messages cfg ++ [m]).map Message.lsn).Nodup := by
      rw [map_append, nodup_append]
      refine ⟨hlogs.lsns, nodup_singleton _, fun n hn n' hn' => ?_⟩
      obtain ⟨m', hm', rfl⟩ := mem_map.mp hn
      rw [mem_singleton.mp hn']
      exact hfresh m' hm'
    obtain ⟨hpn, hps⟩ := hadd hlogs.projected.1 hlogs.projected.2
    obtain ⟨hln, hls⟩ := hadd hlogs.lines.1 hlogs.lines.2
    have hp := @hjoin Call.toProject projected rfl rfl
    have hl := @hjoin Call.toLine lines rfl rfl
    refine ⟨⟨(hperm.map _).nodup_iff.mpr hids, fun m' hm' => ?_⟩, (hperm.map _).nodup_iff.mpr hlsns,
      fun m' hm' => ?_, fun m' hm' => ?_, ⟨hp.nodup_iff.mpr hpn, fun m' hm' => hps m' (hp.mem_iff.mp hm')⟩,
      ⟨hl.nodup_iff.mpr hln, fun m' hm' => hls m' (hl.mem_iff.mp hm')⟩⟩
    · rcases hall m' hm' with hm | rfl
      · exact hlogs.identified.noZero m' hm
      · exact happends.id.1
    · rcases hall m' hm' with hm | rfl
      · exact hlogs.durable m' hm
      · exact happends.positive
    · rcases hall m' hm' with hm | rfl
      · exact hlogs.bound m' hm
      · exact happends.bound
  · cases hlive
    obtain ⟨ha, hw, hs⟩ := h.live live rfl
    refine ⟨fun c hc => ?_, fun roomId => (hw roomId).mono hgrow, fun r hr room rs hrs =>
      (hs r hr room rs hrs).mono hgrow⟩
    rcases mem_or_eq_of_mem_set hc with hc | rfl
    · have := ha c hc
      cases c with
      | logging _ _ => trivial
      | writing works => exact fun batch hb m hm => hgrow m (this batch hb m hm)
    · trivial
  · exact (h.saved snapshot hs room r hr).mono hgrow

/-! ## The other steps -/

/-- A step that leaves the disk as it is. -/
theorem Inv.live_step {live live' : Option Live}
    (h : Inv cfg ⟨disk, live⟩)
    (hproject : (pending Call.toProject live').Subperm (pending Call.toProject live))
    (hline : (pending Call.toLine live').Subperm (pending Call.toLine live))
    (hlive : ∀ l, live' = some l → LiveInv cfg.hotWindow (disk.messages cfg) l) :
    Inv cfg ⟨disk, live'⟩ := by
  obtain ⟨projected, lines, hwrote, hlogs⟩ := h.written
  exact ⟨h.records, ⟨projected, lines, hwrote, logs_mono hlogs ((subperm_append_left projected).mpr hproject)
    ((subperm_append_left lines).mpr hline)⟩, hlive, h.saved⟩

theorem Inv.logged {disk : Disk}
    {live : Live} {call : Nat} {messages : List Message} {paths : List (String × Nat)}
    (h : Inv cfg ⟨disk, some live⟩)
    (hcall : live.calls[call]? = some (.logging [] messages))
    (hpaths : paths.Perm (messages.map bucketPath).dedup) :
    Inv cfg ⟨disk, some (live.setCall call (.writing (works paths messages)))⟩ := by
  obtain ⟨projected, lines, -, hlogs⟩ := h.written
  have hin : messages.Sublist (pending Call.toLine (some live)) :=
    sublist_flatten_of_mem (mem_map.mpr ⟨_, mem_of_getElem? hcall, rfl⟩)
  have hn : messages.Nodup := hlogs.lines.1.sublist (hin.trans (sublist_append_right ..))
  have hmessages : ∀ m ∈ messages, m ∈ disk.messages cfg := fun m hm =>
    hlogs.lines.2 m (mem_append_right _ (hin.subset hm))
  have hsame : ∀ {f : Call → List Message}, f (.logging [] messages) = messages →
      (f (.writing (works paths messages))).Perm messages →
      (pending f (some (live.setCall call (.writing (works paths messages))))).Perm (pending f (some live)) := by
    intro f ha hb
    have hset := flatMap_set_perm hcall (.writing (works paths messages)) f
    rw [ha] at hset
    exact (perm_append_left_iff messages).mp (hset.trans (hb.append_right _))
  have hlive := h.live live rfl
  refine h.live_step (hsame rfl (works_toProject hpaths hn)).subperm (hsame rfl (works_toLine hpaths hn)).subperm
    fun l hl => ?_
  cases hl
  refine ⟨fun c hc => ?_, hlive.windows, hlive.snapshots⟩
  rcases mem_or_eq_of_mem_set hc with hc | rfl
  · exact hlive.applies c hc
  · exact applies_works hmessages

theorem Inv.work {disk : Disk} {live : Live} {call : Nat} {work : Work} {rest : List Work}
    (h : Inv cfg ⟨disk, some live⟩) (hcall : live.calls[call]? = some (.writing (work :: rest))) :
    Inv cfg ⟨work.onDisk disk,
    some (work.onLive sort cfg (live.setCall call (.writing rest)))⟩ := by
  have hlive := h.live live rfl
  have happlies : ∀ c ∈ live.calls.set call (.writing rest), c.Applies (disk.messages cfg) := by
    intro c hc
    rcases mem_or_eq_of_mem_set hc with hc | rfl
    · exact hlive.applies c hc
    · have := hlive.applies _ (mem_of_getElem? hcall)
      exact fun batch hb => this batch (mem_cons_of_mem _ hb)
  -- what the call has still to do is less by the step
  have hset : ∀ {f : Call → List Message} (g : Work → List Message), (∀ works, f (.writing works) = works.flatMap g) →
      (pending f (some live)).Perm (g work ++ pending f (some (live.setCall call (.writing rest)))) := by
    intro f g hf
    have hset := flatMap_set_perm hcall (.writing rest) f
    rw [hf, hf, flatMap_cons] at hset
    refine ((perm_append_left_iff (rest.flatMap g)).mp ?_)
    refine hset.symm.trans ?_
    rw [append_assoc]
    exact perm_append_comm_assoc ..
  have hproject := @hset Call.toProject Work.toProject fun _ => rfl
  have hline := @hset Call.toLine Work.toLine fun _ => rfl
  obtain ⟨projected, lines, hwrote, hlogs⟩ := h.written
  cases work with
  | commitLsns lsns =>
    refine h.live_step hproject.symm.subperm hline.symm.subperm fun l hl => ?_
    cases hl
    exact ⟨happlies, hlive.windows, hlive.snapshots⟩
  | apply batch =>
    refine h.live_step hproject.symm.subperm hline.symm.subperm fun l hl => ?_
    cases hl
    refine ⟨happlies, fun roomId => ?_, hlive.snapshots⟩
    refine WindowOk.applyMessages hlive.windows h.durable (fun m hm => ?_) roomId
    exact hlive.applies _ (mem_of_getElem? hcall) batch mem_cons_self m hm
  | line m =>
    refine ⟨h.records, ⟨projected, lines ++ [m], hwrote.appendLine m, ?_⟩, fun l hl => ?_, h.saved⟩
    · refine logs_mono hlogs ?_ ?_
      · exact (subperm_append_left projected).mpr hproject.symm.subperm
      · show (lines ++ [m] ++ pending Call.toLine (some (live.setCall call (.writing rest)))).Subperm _
        rw [append_assoc]
        exact (subperm_append_left lines).mpr hline.symm.subperm
    · cases hl
      exact ⟨happlies, hlive.windows, hlive.snapshots⟩
  | project batch =>
    have hbatch : (projected ++ batch).Subperm (projected ++ pending Call.toProject (some live)) :=
      (subperm_append_left projected).mpr ((sublist_append_left batch _).subperm.trans hproject.symm.subperm)
    have hbatchLogs := logs_mono hlogs hbatch (Subperm.refl _)
    refine ⟨h.records, ⟨projected ++ batch, lines, hwrote.project ?_, ?_⟩, fun l hl => ?_, h.saved⟩
    · exact hbatchLogs.identified_of hbatchLogs.projected.1 hbatchLogs.projected.2
    · refine logs_mono hlogs ?_ ?_
      · show (projected ++ batch ++ pending Call.toProject (some (live.setCall call (.writing rest)))).Subperm _
        rw [append_assoc]
        exact (subperm_append_left projected).mpr hproject.symm.subperm
      · exact (subperm_append_left lines).mpr hline.symm.subperm
    · cases hl
      exact ⟨happlies, hlive.windows, hlive.snapshots⟩

/-- A read writes back what it found. -/
theorem latestMessages_rooms (chatLog : ChatLog) (rooms : HashMap String RoomLiveState)
    (roomId : String)
    (query : MessagesQuery) :
    (latestMessages sort cfg.hotWindow chatLog rooms roomId query).2 = rooms ∨ ∃ answer :
    List Message, (latestMessages sort cfg.hotWindow chatLog rooms roomId query).2 =
    applyMessages sort cfg.hotWindow rooms answer ∧ ∀ m ∈ answer, m ∈ windowOf rooms roomId ∨
    m ∈ chatLog.latest roomId query.beforeLsn (normalizeLimit query.limit) := by
  let limit := normalizeLimit query.limit
  let hot := hotMessages rooms roomId query.beforeLsn limit
  have hhot : ∀ m ∈ hot, m ∈ windowOf rooms roomId := by
    intro m hm
    simp only [hot, hotMessages_eq, mem_reverse] at hm
    exact (windowPart_sublist _ _).subset (mem_of_mem_drop hm)
  by_cases hge : limit ≤ hot.length
  · exact .inl (congrArg Prod.snd (if_pos hge : latestMessages sort cfg.hotWindow chatLog rooms roomId query = _))
  · refine .inr ?_
    by_cases hempty : hot.isEmpty
    · refine ⟨chatLog.latest roomId query.beforeLsn limit, ?_, fun m hm => .inr hm⟩
      simp only [latestMessages]
      rw [if_neg hge, if_neg (not_not.mpr hempty)]
    · refine ⟨mergeMessages limit (hot ++ chatLog.latest roomId query.beforeLsn limit) [], ?_, fun m hm => ?_⟩
      · simp only [latestMessages]
        rw [if_neg hge, if_pos hempty]
      · obtain ⟨added, heq, hs⟩ := mergeMessages_sublist limit (hot ++ chatLog.latest roomId query.beforeLsn limit) []
        rw [heq, nil_append] at hm
        exact (mem_append.mp (hs.subset hm)).imp_left (hhot m)

theorem Inv.read {disk : Disk} {live : Live} (h : Inv cfg ⟨disk, some live⟩) (roomId : String)
    (query : MessagesQuery) :
    Inv cfg ⟨disk,
    some { live with rooms := (latestMessages sort cfg.hotWindow disk.chatLog live.rooms roomId query).2 }⟩ := by
  have hlive := h.live live rfl
  obtain ⟨projected, lines, hwrote, hlogs⟩ := h.written
  refine h.live_step (Subperm.refl _) (Subperm.refl _) fun l hl => ?_
  cases hl
  refine ⟨hlive.applies, fun other => ?_, hlive.snapshots⟩
  rcases @latestMessages_rooms sort cfg disk.chatLog live.rooms roomId query with he | ⟨answer, he, hanswer⟩
  · show WindowOk _ _ _ (windowOf (latestMessages sort cfg.hotWindow disk.chatLog live.rooms roomId query).2 other)
    rw [he]
    exact hlive.windows other
  · show WindowOk _ _ _ (windowOf (latestMessages sort cfg.hotWindow disk.chatLog live.rooms roomId query).2 other)
    rw [he]
    refine WindowOk.applyMessages hlive.windows h.durable (fun m hm => ?_) other
    rcases hanswer m hm with hm | hm
    · exact ((hlive.windows roomId).subset m hm).1
    · rcases hwrote.mem_latest hm with hm | hm
      · exact hlogs.projected.2 m (mem_append_left _ hm)
      · exact hlogs.lines.2 m (mem_append_left _ hm)

theorem SnapshotOk.capture {hotWindow : Nat} {messages : List Message}
    {r : RunningSnapshot} (h : SnapshotOk hotWindow messages r.snapshot)
    {rooms : HashMap String RoomLiveState}
    (hrooms : ∀ roomId, WindowOk hotWindow messages roomId (windowOf rooms roomId)) :
    SnapshotOk hotWindow messages (r.capture cfg rooms).snapshot := by
  intro roomId room hroom
  rw [Snapshot.getElem?_capture] at hroom
  rcases or_eq_some_iff.mp hroom with hnew | ⟨-, hold⟩
  · split at hnew
    · obtain ⟨live, hlive, rfl⟩ := map_eq_some_iff.mp hnew
      have := hrooms roomId
      rwa [windowOf, getD_eq_getD_getElem?, hlive] at this
    · cases hnew
  · exact h roomId room hold

/-! ## Startup -/

theorem mem_records_of_read (h : ((disk.records cfg).map WalRecord.lsn).Nodup) (r : WalRecord) : r ∈
    readRecordsFromWalPaths ((range cfg.walShards).map fun shard => ([], disk.wal shard)) ↔
    r ∈ disk.records cfg := by
  have hinj : ∀ r ∈ disk.records cfg, ∀ r' ∈ disk.records cfg, r.lsn = r'.lsn → r = r' :=
    fun r hr r' hr' he => inj_on_of_nodup_map h hr hr' he
  have hshard : ∀ shard ∈ range cfg.walShards, ∀ r, r ∈ readRecordsIncludingArchives [] (disk.wal shard) ↔
      r ∈ disk.wal shard := by
    intro shard hs r
    refine mem_readRecords_of_distinct fun a ha b hb => hinj a ?_ b ?_
    · exact mem_flatMap.mpr ⟨shard, hs, ha⟩
    · exact mem_flatMap.mpr ⟨shard, hs, hb⟩
  let files := (range cfg.walShards).map fun shard => (([] : List WalRecord), disk.wal shard)
  have hfiles : ∀ r, r ∈ (files.flatMap fun file => readRecordsIncludingArchives file.1 file.2) ↔
      r ∈ disk.records cfg := by
    intro r
    simp only [files, Disk.records, List.mem_flatMap, List.mem_map, exists_exists_and_eq_and]
    exact ⟨fun ⟨shard, hs, hr⟩ => ⟨shard, hs, (hshard shard hs r).mp hr⟩,
      fun ⟨shard, hs, hr⟩ => ⟨shard, hs, (hshard shard hs r).mpr hr⟩⟩
  refine Iff.trans ?_ (hfiles r)
  have hread := @mem_readRecords_of_distinct [] (files.flatMap fun file => readRecordsIncludingArchives file.1 file.2)
  rw [nil_append] at hread
  exact hread fun a ha b hb => hinj a ((hfiles a).mp ha) b ((hfiles b).mp hb)

theorem mem_allMessages (h : ((disk.records cfg).map WalRecord.lsn).Nodup) (m : Message) :
    m ∈ disk.allMessages cfg ↔ m ∈ disk.messages cfg := by
  simp only [Disk.allMessages, Disk.messages, messagesFromWalRecords, mem_filterMap, mem_records_of_read h]

theorem allMessages_nodup (disk : Disk) : (disk.allMessages cfg).Nodup := by
  have hasc := Snapshot.ascending_filterMap_messageOf
    (readRecords_ascending [] (((range cfg.walShards).map fun shard => (([] : List WalRecord), disk.wal shard)).flatMap
      fun file => readRecordsIncludingArchives file.1 file.2))
  exact Nodup.of_map _ hasc.nodup

theorem windowOf_intoRuntimeState (disk : Disk) (roomId : String) :
    windowOf disk.snapshot.intoRuntimeState roomId = disk.snapshotWindow roomId := by
  rw [windowOf, ActorSnapshot.intoRuntimeState, Std.ExtHashMap.getD_eq_getD_getElem?, Std.ExtHashMap.getElem?_map,
    Disk.snapshotWindow]
  cases disk.snapshot.rooms[roomId]? <;> rfl

theorem Inv.snapshotWindow (h : Inv cfg s) (roomId : String) :
    WindowOk cfg.hotWindow (s.disk.messages cfg) roomId (s.disk.snapshotWindow roomId) := by
  rw [Disk.snapshotWindow, Disk.snapshot]
  cases hsaved : s.disk.saved with
  | none =>
    rw [getD_none, getElem?_empty]
    exact .nil _ _ _
  | some snapshot =>
    rw [getD_some]
    cases hroom : snapshot.rooms[roomId]? with
    | none => exact .nil _ _ _
    | some room => exact h.saved snapshot hsaved roomId room hroom

theorem Inv.tells (h : Inv cfg s) : KeyTells Message.lsn (s.disk.messages cfg) := by
  obtain ⟨_, _, -, hlogs⟩ := h.written
  exact fun a ha b hb he => inj_on_of_nodup_map hlogs.lsns ha hb he

theorem windowOk_sorted (h : WindowOk hotWindow messages roomId window) (hd : Durable messages) :
    window.Pairwise fun a b => a.lsn ≤ b.lsn := by
  have hw : Durable window := fun m hm => hd m (h.subset m hm).1
  refine ((Ordered.of_durable hw).pairwise h.chain).imp_of_mem fun {a b} ha hb hab => ?_
  rwa [messageLe_of_durable (hw a ha) (hw b hb), decide_eq_true_eq] at hab

theorem Inv.windowOf_startLive (h : Inv cfg s) (roomId : String) :
    windowOf (s.disk.startLive sort cfg).rooms roomId = s.disk.replayed cfg roomId := by
  have hsnapshot := h.snapshotWindow roomId
  have hmem : ∀ m ∈ s.disk.snapshotWindow roomId ++ (s.disk.history cfg roomId).filter (s.disk.snapshot.lsn < ·.lsn),
      m ∈ s.disk.messages cfg := by
    intro m hm
    rcases mem_append.mp hm with hm | hm
    · exact (hsnapshot.subset m hm).1
    · exact (mem_filter.mp (mem_filter.mp hm).1).1
  have htells := h.tells.mono hmem
  have hstart : windowOf s.disk.snapshot.intoRuntimeState roomId =
      newest Message.lsn cfg.hotWindow (s.disk.snapshotWindow roomId) := by
    rw [windowOf_intoRuntimeState]
    exact ((htells.mono fun m hm => mem_append_left _ hm).newest_of_sorted (windowOk_sorted hsnapshot h.durable)
      hsnapshot.length).symm
  have hreplay := @foldl_replayedRooms_of_tells sort cfg.hotWindow s.disk.snapshot.lsn roomId (s.disk.records cfg) _ _
    hstart (fun m hm => h.durable m (hmem m hm)) htells
  rw [Disk.records, foldl_flatMap] at hreplay
  exact hreplay

theorem Inv.replayed_ok (h : Inv cfg s) (roomId : String) :
    WindowOk cfg.hotWindow (s.disk.messages cfg) roomId (s.disk.replayed cfg roomId) := by
  have hmem : ∀ m ∈ s.disk.replayed cfg roomId, m ∈ s.disk.messages cfg ∧ m.roomId = roomId := by
    intro m hm
    rcases mem_append.mp (mem_mergeSort.mp (mem_of_mem_drop hm)) with hm | hm
    · exact (h.snapshotWindow roomId).subset m hm
    · obtain ⟨hm, hroom⟩ := mem_filter.mp (mem_filter.mp hm).1
      exact ⟨hm, by simpa using hroom⟩
  refine ⟨?_, hmem, ?_⟩
  · have hsorted : (s.disk.replayed cfg roomId).Pairwise fun a b => a.lsn ≤ b.lsn :=
      (pairwise_mergeSort_key _).sublist (drop_sublist ..)
    refine Pairwise.isChain (hsorted.imp_of_mem fun {a b} ha hb hab => ?_)
    rw [messageLe_of_durable (h.durable a (hmem a ha).1) (h.durable b (hmem b hb).1)]
    exact decide_eq_true hab
  · rw [Disk.replayed, length_newest]
    exact Nat.min_le_left ..

theorem Inv.startUp {disk : Disk} (h : Inv cfg ⟨disk, none⟩) :
    Inv cfg ⟨disk.startUp cfg, some (disk.startLive sort cfg)⟩ := by
  obtain ⟨projected, lines, hwrote, hlogs⟩ := h.written
  have hlive : LiveInv cfg.hotWindow (disk.messages cfg) (disk.startLive sort cfg) := by
    refine ⟨nofun, fun roomId => ?_, nofun⟩
    rw [h.windowOf_startLive roomId]
    exact h.replayed_ok roomId
  refine ⟨h.records, ?_, fun l hl => ?_, h.saved⟩
  · cases hrebuilt : disk.rebuilt with
    | true =>
      refine ⟨projected, lines, ?_, hlogs⟩
      rw [Disk.startUp, hrebuilt]
      exact hwrote
    | false =>
      have hall : ∀ m ∈ disk.allMessages cfg, m ∈ disk.messages cfg := fun m hm =>
        (mem_allMessages h.records m).mp hm
      obtain ⟨written, hperm, hwrote⟩ :=
        ChatLog.wrote_appendMany (hlogs.identified_of (allMessages_nodup disk) hall)
      have hwritten : written.Nodup ∧ ∀ m ∈ written, m ∈ disk.messages cfg :=
        ⟨hperm.nodup_iff.mpr (allMessages_nodup disk), fun m hm => hall m (hperm.mem_iff.mp hm)⟩
      refine ⟨written, written, ?_, ?_⟩
      · rw [Disk.startUp, hrebuilt]
        exact hwrote
      · show Logs (disk.messages cfg) (written ++ []) (written ++ [])
        rw [append_nil]
        exact ⟨hlogs.identified, hlogs.lsns, hlogs.durable, hlogs.bound, hwritten, hwritten⟩
  · cases hl
    exact hlive

/-! ## Runs -/

theorem Inv.new (cfg : Shards) : Inv cfg .new := by
  have hrecords : ServerState.new.disk.records cfg = [] := flatMap_eq_nil_iff.mpr fun _ _ => rfl
  have hmessages : ServerState.new.disk.messages cfg = [] := by rw [Disk.messages, hrecords]; rfl
  refine ⟨by rw [hrecords]; exact .nil, ⟨[], [], ChatLog.new_wrote, ?_⟩, nofun, nofun⟩
  rw [hmessages]
  exact ⟨⟨.nil, nofun⟩, .nil, nofun, nofun, ⟨.nil, nofun⟩, ⟨.nil, nofun⟩⟩

theorem Inv.step {t : ServerState} {e : ServerEvent} (h : Inv cfg s)
    (hstep : ServerStep sort cfg s e t) :
    Inv cfg t := by
  cases hstep with
  | startUp => exact h.startUp
  | crash => exact h.live_step (nil_subperm) (nil_subperm) nofun
  | @send disk live roomId drafts _ _ =>
    have hlive := h.live live rfl
    refine h.live_step (Perm.of_eq ?_).subperm (Perm.of_eq ?_).subperm fun l hl => ?_
    · simp [pending, Call.toProject]
    · simp [pending, Call.toLine]
    · cases hl
      refine ⟨fun c hc => ?_, hlive.windows, hlive.snapshots⟩
      rcases mem_append.mp hc with hc | hc
      · exact hlive.applies c hc
      · rw [mem_singleton.mp hc]
        trivial
  | logNext hcall happends => exact h.logNext hcall happends
  | logged hcall hpaths => exact h.logged hcall hpaths
  | work hcall => exact h.work hcall
  | @abandon disk live call =>
    have hlive := h.live live rfl
    have hfewer : ∀ f : Call → List Message, ((live.calls.eraseIdx call).flatMap f).Sublist (live.calls.flatMap f) :=
        fun f =>
      (eraseIdx_sublist ..).flatMap f
    refine h.live_step (hfewer _).subperm (hfewer _).subperm fun l hl => ?_
    · cases hl
      exact ⟨fun c hc => hlive.applies c (mem_of_mem_eraseIdx hc), hlive.windows, hlive.snapshots⟩
  | @evict disk live rooms =>
    have hlive := h.live live rfl
    refine h.live_step (Subperm.refl _) (Subperm.refl _) fun l hl => ?_
    cases hl
    refine ⟨hlive.applies, fun roomId => ?_, hlive.snapshots⟩
    show WindowOk _ _ _ (windowOf (Paging.evict live.rooms rooms) roomId)
    rw [windowOf_evict]
    split
    · exact .nil _ _ _
    · exact hlive.windows roomId
  | read => exact h.read _ _
  | @createSnapshot disk live =>
    have hlive := h.live live rfl
    refine h.live_step (Subperm.refl _) (Subperm.refl _) fun l hl => ?_
    cases hl
    refine ⟨hlive.applies, hlive.windows, fun r hr room rs hrs => ?_⟩
    rcases mem_append.mp hr with hr | hr
    · exact hlive.snapshots r hr room rs hrs
    · rw [mem_singleton.mp hr] at hrs
      rw [getElem?_empty] at hrs
      cases hrs
  | @capture disk live snapshot r hr _ =>
    have hlive := h.live live rfl
    refine h.live_step (Subperm.refl _) (Subperm.refl _) fun l hl => ?_
    cases hl
    refine ⟨hlive.applies, hlive.windows, fun r' hr' => ?_⟩
    rcases mem_or_eq_of_mem_set hr' with hr' | rfl
    · exact hlive.snapshots r' hr'
    · exact (hlive.snapshots r (mem_of_getElem? hr)).capture hlive.windows
  | @save disk live snapshot r hr _ =>
    have hlive := h.live live rfl
    refine ⟨h.records, h.written, fun l hl => ?_, fun saved hsaved => ?_⟩
    · cases hl
      exact ⟨hlive.applies, hlive.windows, fun r' hr' => hlive.snapshots r' (mem_of_mem_eraseIdx hr')⟩
    · cases hsaved
      exact hlive.snapshots r (mem_of_getElem? hr)

/-- After a startup, enough pages hold every message of the room in the log, whatever rooms
are evicted before and between them. -/
theorem startUp_pages {s t : ServerState} {live : Live} {roomId : String}
    (hrun : Reaches (ServerStep sort cfg) (fun _ _ => True) .new s)
    (hstart : ServerStep sort cfg s .startUp t)
    (hlive : t.live = some live) (h : Recoverable cfg s.disk roomId) (limit : Option Nat)
    {evictions : List (List String)}
    (henough : (t.disk.history cfg roomId).length ≤ evictions.length) :
    ∀ m ∈ t.disk.history cfg roomId,
    m ∈ pages sort cfg.hotWindow t.disk.chatLog roomId limit evictions none live.rooms := by
  have hinv : Inv cfg s := hrun.invariant (fun _ _ _ h _ hstep => h.step hstep) (Inv.new cfg)
  cases hstart with
  | @startUp disk =>
    cases hlive
    obtain ⟨projected, lines, hwrote, hlogs⟩ := (@Inv.startUp sort cfg disk hinv).written
    have hlogs : Logs (disk.messages cfg) projected lines :=
      logs_mono hlogs (sublist_append_left ..).subperm (sublist_append_left ..).subperm
    have hhistory : ∀ m ∈ disk.history cfg roomId, m ∈ disk.messages cfg ∧ m.roomId = roomId := by
      intro m hm
      obtain ⟨hm, hroom⟩ := mem_filter.mp hm
      exact ⟨hm, by simpa using hroom⟩
    -- a chat log that was made anew projects every message
    have hreadable : ∀ m ∈ disk.messages cfg, m.roomId = roomId →
        (disk.startUp cfg).chatLog.Readable ((disk.messages cfg).filter (·.roomId = roomId)) m := by
      intro m hm hroom
      cases hrebuilt : disk.rebuilt with
      | true =>
        have := h.chatLog hrebuilt m (mem_filter.mpr ⟨hm, decide_eq_true hroom⟩)
        rwa [Disk.startUp, hrebuilt]
      | false =>
        obtain ⟨written, hperm, hnew⟩ := ChatLog.wrote_appendMany
          (hlogs.identified_of (allMessages_nodup disk) fun m hm => (mem_allMessages hinv.records m).mp hm)
        rw [Disk.startUp, hrebuilt]
        refine .inl ((hnew.projected_iff m).mpr (hperm.mem_iff.mpr ?_))
        exact (mem_allMessages hinv.records m).mpr hm
    have hwindow : WindowFrom (disk.history cfg roomId) none (windowOf (disk.startLive sort cfg).rooms roomId) := by
      rw [hinv.windowOf_startLive roomId]
      have hok := hinv.replayed_ok roomId
      refine ⟨hok.chain, fun m hm => ?_, fun m hm _ m' hm' _ hlt => h.window m hm m' hm' hlt⟩
      exact mem_filter.mpr ⟨(hok.subset m hm).1, decide_eq_true (hok.subset m hm).2⟩
    have hall : (disk.history cfg roomId).filter (below none) = disk.history cfg roomId :=
      filter_eq_self.mpr fun _ _ => rfl
    intro m hm
    refine pages_complete (fun m hm => hlogs.durable m (hhistory m hm).1)
      (fun m hm => (hhistory m hm).2) (fun m hm m' hm' => hlogs.identified.ext (hhistory m hm).1 (hhistory m' hm').1)
      (hlogs.lsns.sublist (filter_sublist.map _)) (fun beforeLsn => ?_) hwindow ?_ m ?_
    · exact hwrote.latest hlogs h.alone hreadable beforeLsn (normalizeLimit_pos limit)
    · rw [hall]
      exact henough
    · rw [hall]
      exact hm

/-! ## A crash behind the log -/

def sampleDraft : MessageDraft := ⟨"1", some "c", "r", "u", "b", [], 0, "rooms/r/messages/1"⟩

def sampleRecord : WalRecord :=
  { Snapshot.sampleRecord 1 with payload := .messageCreated sampleDraft }

def sampleMessage : Message := sampleDraft.intoMessage 1

/-- The log has no record, or the message's. -/
def sampleDisk (wal : List WalRecord) (chatLog : ChatLog) : Disk :=
  ⟨Function.update (fun _ => []) 0 wal, chatLog, true, none⟩

/-- A server that has just started, with calls. -/
def sampleLive (calls : List Call) : Live :=
  { ServerState.new.disk.startLive .merge Snapshot.sampleShards with calls }

theorem records_sample (wal : List WalRecord) (chatLog : ChatLog) :
    (sampleDisk wal chatLog).records Snapshot.sampleShards = wal := by
  show (range 1).flatMap _ = _
  simp [sampleDisk]

theorem startUp_sample :
    Reaches (ServerStep .merge Snapshot.sampleShards) (fun _ _ => True) .new ⟨sampleDisk [] .new,
    some (sampleLive [])⟩ := by
  have h0 : Reaches (ServerStep .merge Snapshot.sampleShards) (fun _ _ => True) .new .new := .refl _
  have h := h0.tail trivial (@ServerStep.startUp .merge Snapshot.sampleShards ServerState.new.disk)
  have hall : ServerState.new.disk.allMessages Snapshot.sampleShards = [] := by
    refine eq_nil_iff_forall_not_mem.mpr fun m hm => ?_
    have := (mem_allMessages (Inv.new Snapshot.sampleShards).records m).mp hm
    cases this
  have hdisk : ServerState.new.disk.startUp Snapshot.sampleShards = sampleDisk [] .new := by
    rw [Disk.startUp, hall]
    simp [sampleDisk, ServerState.new, ChatLog.appendMany]
  rw [hdisk] at h
  exact h

theorem logNext_sample : Reaches (ServerStep .merge Snapshot.sampleShards) (fun _ _ => True) .new
    ⟨sampleDisk [sampleRecord] .new, some (sampleLive [.logging [] [sampleMessage]])⟩ := by
  have hsend := startUp_sample.tail trivial (@ServerStep.send .merge Snapshot.sampleShards _ _ "r"
    [sampleDraft] (cons_ne_nil _ _) fun d hd => by rw [mem_singleton.mp hd]; rfl)
  have hmessages : (sampleDisk [] .new).messages Snapshot.sampleShards = [] := by
    rw [Disk.messages, records_sample]
    rfl
  have happends : Appends Snapshot.sampleShards (sampleDisk [] .new) sampleDraft sampleRecord := by
    refine ⟨rfl, by decide, by decide, fun r hr => ?_, ?_, by decide, ?_⟩
    · rw [show (sampleDisk [] .new).wal (Snapshot.sampleShards.walShard sampleDraft.roomId) = [] by
        simp [sampleDisk, Snapshot.sampleShards]] at hr
      cases hr
    · rw [records_sample]
      exact fun _ h => nomatch h
    · rw [hmessages]
      exact fun _ h => nomatch h
  have hlog :=
    hsend.tail trivial (@ServerStep.logNext .merge Snapshot.sampleShards _ _ 0 sampleDraft [] [] _ rfl happends)
  have hdisk : (sampleDisk [] .new).append Snapshot.sampleShards sampleDraft.roomId sampleRecord =
      sampleDisk [sampleRecord] .new := by
    simp [Disk.append, sampleDisk, Snapshot.sampleShards]
  rw [hdisk] at hlog
  exact hlog

theorem messages_sample (chatLog : ChatLog) :
    (sampleDisk [sampleRecord] chatLog).messages Snapshot.sampleShards = [sampleMessage] := by
  rw [Disk.messages, records_sample]
  rfl

theorem works_sample :
    works [bucketPath sampleMessage] [sampleMessage] = [.commitLsns [1], .line sampleMessage,
    .project [sampleMessage], .apply [sampleMessage]] := by
  simp [works]
  rfl

/-- The chat log with the message. -/
def sampleChatLog : ChatLog := (ChatLog.new.appendLine sampleMessage).project [sampleMessage]

theorem project_sample :
    ∃ live, Reaches (ServerStep .merge Snapshot.sampleShards) (fun _ _ => True) .new
    ⟨sampleDisk [sampleRecord] sampleChatLog, some live⟩ := by
  have h := logNext_sample.tail trivial
    (@ServerStep.logged .merge Snapshot.sampleShards _ _ 0 [sampleMessage] [bucketPath sampleMessage] rfl (by simp))
  rw [works_sample] at h
  have hcommit := h.tail trivial (@ServerStep.work .merge Snapshot.sampleShards _ _ 0 (.commitLsns [1])
    [.line sampleMessage, .project [sampleMessage], .apply [sampleMessage]] rfl)
  have hline := hcommit.tail trivial (@ServerStep.work .merge Snapshot.sampleShards _ _ 0 (.line sampleMessage)
    [.project [sampleMessage], .apply [sampleMessage]] rfl)
  have hproject := hline.tail trivial
    (@ServerStep.work .merge Snapshot.sampleShards _ _ 0 (.project [sampleMessage]) [.apply [sampleMessage]] rfl)
  exact ⟨_, hproject⟩

/-- After a crash behind the projection the message is paged. -/
theorem startUp_pages_sample : sampleMessage ∈ pages .merge 10 sampleChatLog "r" none [["r"]] none
    ((sampleDisk [sampleRecord] sampleChatLog).startLive .merge Snapshot.sampleShards).rooms := by
  obtain ⟨live, hproject⟩ := project_sample
  have hcrash := hproject.tail trivial (@ServerStep.crash .merge Snapshot.sampleShards _ _)
  have hid : Identified ([] ++ [sampleMessage]) :=
    ⟨nodup_singleton _, fun m hm => by rw [mem_singleton.mp hm]; decide⟩
  have hwrote : sampleChatLog.Wrote ([] ++ [sampleMessage]) ([] ++ [sampleMessage]) :=
    (ChatLog.new_wrote.appendLine sampleMessage).project hid
  have hhistory : (sampleDisk [sampleRecord] sampleChatLog).history Snapshot.sampleShards "r" = [sampleMessage] := by
    rw [Disk.history, messages_sample]
    rfl
  have hone : ∀ m ∈ (sampleDisk [sampleRecord] sampleChatLog).history Snapshot.sampleShards "r",
      m = sampleMessage := fun m hm => mem_singleton.mp (hhistory ▸ hm)
  have hinv : Inv Snapshot.sampleShards _ := hcrash.invariant (fun _ _ _ h _ hstep => h.step hstep) (Inv.new _)
  have hrecoverable : Recoverable Snapshot.sampleShards (sampleDisk [sampleRecord] sampleChatLog) "r" := by
    refine ⟨fun m hm _ => ?_, fun _ m hm => ?_, fun m hm m' hm' hlt => ?_⟩
    · rw [messages_sample] at hm
      rw [mem_singleton.mp hm]
      rfl
    · rw [hone m hm]
      exact .inl ((hwrote.projected_iff sampleMessage).mpr (mem_singleton_self _))
    · obtain ⟨hin, hroom⟩ := (hinv.replayed_ok "r").subset m hm
      have hm := hone m (mem_filter.mpr ⟨hin, decide_eq_true hroom⟩)
      rw [hm, hone m' hm'] at hlt
      exact absurd hlt (lt_irrefl _)
  refine startUp_pages hcrash (@ServerStep.startUp .merge Snapshot.sampleShards _) rfl hrecoverable none ?_ _ ?_
  · show ((sampleDisk [sampleRecord] sampleChatLog).history Snapshot.sampleShards "r").length ≤ 1
    rw [hhistory]
    exact le_rfl
  · show sampleMessage ∈ (sampleDisk [sampleRecord] sampleChatLog).history Snapshot.sampleShards "r"
    rw [hhistory]
    exact mem_singleton_self _

theorem pages_of_new (limit : Option Nat) (evictions : List (List String))
    (rooms : HashMap String RoomLiveState) :
    pages .merge 10 .new "r" limit (["r"] :: evictions) none rooms = [] := by
  have hlatest : ∀ n, ChatLog.new.latest "r" none n = [] := fun n => by
    refine eq_nil_iff_forall_not_mem.mpr fun m hm => ?_
    exact (ChatLog.new_wrote.mem_latest hm).elim not_mem_nil not_mem_nil
  have hwindow : windowOf (evict rooms ["r"]) "r" = [] := by
    rw [windowOf_evict, if_pos (mem_singleton_self _)]
  have hhot : hotMessages (evict rooms ["r"]) "r" none (normalizeLimit limit) = [] := by
    rw [hotMessages_eq]
    show ((windowPart none (windowOf (evict rooms ["r"]) "r")).rtake _).reverse = []
    rw [hwindow, show windowPart none [] = [] from rfl, rtake_nil]
    rfl
  have hpage : (latestMessages .merge 10 .new (evict rooms ["r"]) "r" ⟨none, limit⟩).1.messages = [] := by
    have hpos := normalizeLimit_pos limit
    simp only [latestMessages]
    rw [hhot, if_neg (by simpa using hpos.ne'), if_neg (by simp)]
    exact hlatest _
  rw [pages]
  simp only [hpage]
  rfl

/-- The server crashes when the message is in the log only. A retry is answered with it,
and no page of the room has it once the room is evicted. -/
theorem message_lost_sample :
    ∃ s live, Reaches (ServerStep .merge Snapshot.sampleShards) (fun _ _ => True) .new s ∧
    ServerStep .merge Snapshot.sampleShards s .startUp ⟨s.disk.startUp Snapshot.sampleShards,
    some live⟩ ∧
    sampleMessage ∈ (s.disk.startUp Snapshot.sampleShards).history Snapshot.sampleShards "r" ∧
    findCommittedMutation (clientMutationIndexFromWalRecords (s.disk.records Snapshot.sampleShards)) (some "c") =
    some (.messageCreated sampleMessage) ∧ ∀ limit evictions, sampleMessage ∉
    pages .merge 10 (s.disk.startUp Snapshot.sampleShards).chatLog "r" limit (["r"] :: evictions) none live.rooms := by
  have hcrash := logNext_sample.tail trivial (@ServerStep.crash .merge Snapshot.sampleShards _ _)
  refine ⟨_, _, hcrash, .startUp, ?_, ?_, fun limit evictions hm => ?_⟩
  · show sampleMessage ∈ (sampleDisk [sampleRecord] .new).history Snapshot.sampleShards "r"
    rw [Disk.history, messages_sample]
    exact mem_singleton_self _
  · rw [show (ServerState.disk ⟨sampleDisk [sampleRecord] .new, none⟩).records Snapshot.sampleShards =
      [sampleRecord] from records_sample _ _]
    exact @noteCommittedMutationRecord_self ∅ sampleRecord "c" (.messageCreated sampleMessage) rfl
  · have := pages_of_new limit evictions ((sampleDisk [sampleRecord] .new).startLive .merge Snapshot.sampleShards).rooms
    rw [show ((sampleDisk [sampleRecord] .new).startUp Snapshot.sampleShards).chatLog = .new from rfl, this] at hm
    cases hm

end NextDb.Api.Crash
