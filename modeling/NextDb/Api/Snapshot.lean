import NextDb.Lib.Run
import NextDb.Wal.Replay

/-!
# Snapshots of the rooms

A snapshot reads `current_lsn` and then captures the actor shards one after the
other, while messages are written: an LSN is allocated, the record is appended,
the LSN is committed and the message is applied to its room. At startup the log is
replayed on top of the snapshot, from its LSN.

The state holds, beside what the server holds, the messages applied so far.

* `snapshot_then_tail`: that gives the hot windows that replaying the whole log
  gives, in every run in which a shard is captured when exactly the messages up to
  the snapshot's LSN have been applied to it, and no message is written to a room
  that was evicted.
-/

namespace NextDb.Api.Snapshot

open Run Wal Actor Newest List Option Function Std Std.ExtHashMap

structure RoomSnapshot where
  messages : List Message

structure ActorSnapshot where
  lsn : Nat
  rooms : HashMap String RoomSnapshot

def ActorSnapshot.intoRuntimeState (snapshot : ActorSnapshot) : HashMap String RoomLiveState :=
  snapshot.rooms.map fun _ room => ⟨room.messages⟩

/-- The hashes that give a room its actor shard and its log. -/
structure Shards where
  hotWindow : Nat
  actorShards : Nat
  actorShard : String → Nat
  actorShard_lt : ∀ room, actorShard room < actorShards
  walShards : Nat
  walShard : String → Nat
  walShard_lt : ∀ room, walShard room < walShards

/-! ## Writing messages -/

/-- How far a write has come. -/
inductive WritePhase where
  | allocated
  | appended
  | committed
deriving DecidableEq

/-- A message on its way. -/
structure Write where
  draft : MessageDraft
  lsn : Nat
  phase : WritePhase

def Write.message (w : Write) : Message := w.draft.intoMessage w.lsn

/-- The log, the rooms and the writes that are on their way. -/
structure LiveState where
  nextLsn : Nat
  currentLsn : Nat
  wal : Nat → List WalRecord
  writes : List Write
  rooms : HashMap String RoomLiveState
  /-- The messages applied so far. -/
  applied : List Message

/-- The steps of a write, and evictions. -/
inductive LiveEvent where
  | allocate (draft : MessageDraft)
  | append (write : Nat) (record : WalRecord)
  | commit (write : Nat)
  | apply (write : Nat)
  /-- The request fails, or its client is gone. -/
  | abandon (write : Nat)
  | evict (rooms : List String)

variable (sort : MessageSort) (cfg : Shards)

/-- The messages of a room in its log. -/
def LiveState.history (s : LiveState) (room : String) : List Message :=
  roomMessages (s.wal (cfg.walShard room)) room

def LiveState.appliedTo (s : LiveState) (room : String) : List Message :=
  s.applied.filter (·.roomId = room)

/-- One step of a request, or an eviction. A shard's records are appended in the
order of their LSNs, which are allocated and queued under its lock. -/
inductive LiveStep : LiveState → LiveEvent → LiveState → Prop where
  | allocate {s draft} : LiveStep s (.allocate draft)
      { s with nextLsn := s.nextLsn + 1, writes := s.writes ++ [⟨draft, s.nextLsn + 1, .allocated⟩] }
  | append {s write w record} : s.writes[write]? = some w → w.phase = .allocated →
    record.lsn = w.lsn → record.payload = .messageCreated w.draft →
    (∀ other ∈ s.writes.eraseIdx write, other.phase = .allocated →
      cfg.walShard other.draft.roomId = cfg.walShard w.draft.roomId → w.lsn < other.lsn) →
    LiveStep s (.append write record)
      { s with
        wal := Function.update s.wal (cfg.walShard w.draft.roomId) (s.wal (cfg.walShard w.draft.roomId) ++ [record])
        writes := s.writes.set write { w with phase := .appended } }
  | commit {s write w} : s.writes[write]? = some w → w.phase = .appended →
    LiveStep s (.commit write)
      { s with
        currentLsn := max s.currentLsn w.lsn
        writes := s.writes.set write { w with phase := .committed } }
  | apply {s write w} : s.writes[write]? = some w → w.phase = .committed →
    LiveStep s (.apply write)
      { s with
        writes := s.writes.eraseIdx write
        rooms := applyToRooms sort cfg.hotWindow s.rooms w.message
        applied := s.applied ++ [w.message] }
  | abandon {s write} : LiveStep s (.abandon write) { s with writes := s.writes.eraseIdx write }
  | evict {s rooms} : LiveStep s (.evict rooms)
      { s with rooms := s.rooms.filter fun room _ => room ∉ rooms }

/-! ## Taking a snapshot -/

/-- A snapshot that has captured the first `captured` actor shards. -/
structure RunningSnapshot where
  captured : Nat
  snapshot : ActorSnapshot

/-- The server, with the snapshots that are taken of it. -/
structure SnapshotState where
  live : LiveState
  snapshots : List RunningSnapshot
  saved : Option ActorSnapshot

/-- The steps of the server and of snapshots. -/
inductive SnapshotEvent where
  | live (e : LiveEvent)
  | create
  | capture (snapshot : Nat)
  | save (snapshot : Nat)

/-- The next actor shard goes into the snapshot. -/
def RunningSnapshot.capture (r : RunningSnapshot) (rooms : HashMap String RoomLiveState) :
    RunningSnapshot where
  captured := r.captured + 1
  snapshot := { r.snapshot with
    rooms := r.snapshot.rooms ∪
      (rooms.filter fun room _ => cfg.actorShard room = r.captured).map fun _ room => ⟨room.messages⟩ }

/-- What each event does. -/
inductive SnapshotStep : SnapshotState → SnapshotEvent → SnapshotState → Prop where
  | live {s e live} : LiveStep sort cfg s.live e live →
    SnapshotStep s (.live e) { s with live }
  | create {s} : SnapshotStep s .create
      { s with snapshots := s.snapshots ++ [⟨0, s.live.currentLsn, ∅⟩] }
  | capture {s snapshot r} : s.snapshots[snapshot]? = some r → r.captured < cfg.actorShards →
    SnapshotStep s (.capture snapshot)
      { s with snapshots := s.snapshots.set snapshot (r.capture cfg s.live.rooms) }
  | save {s snapshot r} : s.snapshots[snapshot]? = some r → r.captured = cfg.actorShards →
    SnapshotStep s (.save snapshot)
      { s with snapshots := s.snapshots.eraseIdx snapshot, saved := some r.snapshot }

/-- `replay_from` over the logs of the shards, at the records they hold. -/
def replayShards (sinceLsn : Nat) (rooms : HashMap String RoomLiveState)
    (wal : Nat → List WalRecord) : HashMap String RoomLiveState :=
  (List.range cfg.walShards).foldl
    (fun rooms shard => (wal shard).foldl (replayedRooms sort cfg.hotWindow sinceLsn) rooms) rooms

/-- No message of the room is on its way: none is being written, and those in the
log have been applied. -/
def Quiet (s : LiveState) (room : String) : Prop :=
  (∀ w ∈ s.writes, w.draft.roomId ≠ room) ∧ ∀ m ∈ s.history cfg room, m ∈ s.applied

/-- An actor shard is captured when exactly the messages of its rooms up to the
snapshot's LSN have been applied. A message is written to a room that is resident
or new, and a room is not evicted while one of its messages is on its way. -/
def InStep (s : SnapshotState) : SnapshotEvent → Prop
  | .live (.allocate draft) => s.live.rooms.contains draft.roomId ∨ s.live.appliedTo draft.roomId =
    []
  | .live (.evict rooms) => ∀ room ∈ rooms, s.live.rooms.contains room → Quiet cfg s.live room
  | .capture snapshot => ∀ r, s.snapshots[snapshot]? = some r →
    ∀ room, cfg.actorShard room = r.captured →
    (∀ w ∈ s.live.writes, w.draft.roomId = room → r.snapshot.lsn < w.lsn) ∧
        ∀ m ∈ s.live.history cfg room, m.lsn ≤ r.snapshot.lsn ↔ m ∈ s.live.applied
  | _ => True

/-- A server that has just started from its logs. -/
structure Started (s : SnapshotState) : Prop where
  counters : s.live.currentLsn ≤ s.live.nextLsn
  lsns : ∀ shard, ∀ r ∈ s.live.wal shard, 0 < r.lsn ∧ r.lsn ≤ s.live.nextLsn
  ascending : ∀ shard, Ascending WalRecord.lsn (s.live.wal shard)
  routed : ∀ shard, ∀ r ∈ s.live.wal shard, ∀ m, messageOf r = some m → cfg.walShard m.roomId = shard
  applied : ∀ room, s.live.appliedTo room = s.live.history cfg room
  resident : ∀ room live, s.live.rooms[room]? = some live →
    live.messages = newest Message.lsn cfg.hotWindow (s.live.history cfg room)
  idle : s.live.writes = [] ∧ s.snapshots = [] ∧ s.saved = none

/-! ## The live rooms -/

variable {sort cfg}

/-- The log ascends, and the rooms have what was applied. -/
structure LiveInv (cfg : Shards) (s : LiveState) : Prop where
  counters : s.currentLsn ≤ s.nextLsn
  lsns : ∀ shard, ∀ r ∈ s.wal shard, 0 < r.lsn ∧ r.lsn ≤ s.nextLsn
  ascending : ∀ shard, Ascending WalRecord.lsn (s.wal shard)
  routed : ∀ shard, ∀ r ∈ s.wal shard, ∀ m, messageOf r = some m → cfg.walShard m.roomId = shard
  distinct : (s.writes.map Write.lsn).Nodup
  writes : ∀ w ∈ s.writes, 0 < w.lsn ∧ w.lsn ≤ s.nextLsn ∧ w.message ∉ s.applied
  allocated : ∀ w ∈ s.writes, w.phase = .allocated → ∀ r ∈ s.wal (cfg.walShard w.draft.roomId), r.lsn < w.lsn
  appended : ∀ w ∈ s.writes, w.phase ≠ .allocated → w.message ∈ s.history cfg w.draft.roomId
  applied : ∀ m ∈ s.applied, m ∈ s.history cfg m.roomId
  nodup : ∀ room, ((s.appliedTo room).map Message.lsn).Nodup
  resident : ∀ room live, s.rooms[room]? = some live →
    live.messages = newest Message.lsn cfg.hotWindow (s.appliedTo room)
  evicted : ∀ room, s.rooms[room]? = none → s.appliedTo room = [] ∨ Quiet cfg s room

variable {w : Write} {s : LiveState} {room : String} {m : Message} {writes : List Write} {i : Nat}
    {record : WalRecord}

theorem messageOf_write (hlsn : record.lsn = w.lsn)
    (hpayload : record.payload = .messageCreated w.draft) :
    messageOf record = some w.message := by
  rw [messageOf, hpayload, hlsn]
  rfl

theorem ascending_filterMap_messageOf {records : List WalRecord}
    (h : Ascending WalRecord.lsn records) :
    Ascending Message.lsn (records.filterMap messageOf) := by
  refine pairwise_filterMap.mpr (h.imp fun {a b} hlt m hm m' hm' => ?_)
  rw [messageOf_lsn hm, messageOf_lsn hm']
  exact hlt

theorem LiveInv.history_ascending (h : LiveInv cfg s) (room : String) :
    Ascending Message.lsn (s.history cfg room) :=
  (ascending_filterMap_messageOf (h.ascending _)).sublist filter_sublist

theorem LiveInv.history_lsn (h : LiveInv cfg s) (hm : m ∈ s.history cfg room) :
    0 < m.lsn ∧ m.lsn ≤ s.nextLsn := by
  obtain ⟨⟨r, hr, hmsg⟩, -⟩ := mem_roomMessages.mp hm
  rw [messageOf_lsn hmsg]
  exact h.lsns _ r hr

theorem mem_appliedTo : m ∈ s.appliedTo room ↔ m ∈ s.applied ∧ m.roomId = room := by
  simp [LiveState.appliedTo, mem_filter]

section
variable (hi : writes[i]? = some w)
include hi

theorem writes_perm : (w :: writes.eraseIdx i).Perm writes := by
  obtain ⟨hlt, rfl⟩ := List.getElem?_eq_some_iff.mp hi
  exact List.getElem_cons_eraseIdx_perm hlt

theorem writes_set_perm (new : Write) : (new :: writes.eraseIdx i).Perm (writes.set i new) := by
  obtain ⟨hlt, -⟩ := List.getElem?_eq_some_iff.mp hi
  have := writes_perm (show (writes.set i new)[i]? = some new by simp [hlt])
  rwa [eraseIdx_set_eq] at this

variable {new w' : Write}

theorem mem_set_writes (hw' : w' ∈ writes.set i new) : w' = new ∨ w' ∈ writes.eraseIdx i :=
  mem_cons.mp ((writes_set_perm hi new).mem_iff.mpr hw')

theorem nodup_set_writes (hn : (writes.map Write.lsn).Nodup) (hlsn : new.lsn = w.lsn) :
    ((writes.set i new).map Write.lsn).Nodup := by
  have hp := ((writes_set_perm hi new).symm.map Write.lsn).trans
    (show ((new :: writes.eraseIdx i).map Write.lsn).Perm (writes.map Write.lsn) by
      rw [map_cons, hlsn, ← map_cons]
      exact (writes_perm hi).map _)
  exact hp.nodup_iff.mpr hn

theorem lsn_ne_of_mem_eraseIdx (hn : (writes.map Write.lsn).Nodup) (hw' : w' ∈ writes.eraseIdx i) :
    w'.lsn ≠ w.lsn := by
  have := ((writes_perm hi).map Write.lsn).nodup_iff.mpr hn
  rw [map_cons, nodup_cons] at this
  exact fun he => this.1 (he ▸ mem_map_of_mem hw')

end

theorem history_append (hlsn : record.lsn = w.lsn) (hpayload : record.payload = .messageCreated
    w.draft) (writes : List Write) (room : String) : ({ s with
        wal :=
  update s.wal (cfg.walShard w.draft.roomId) (s.wal (cfg.walShard w.draft.roomId) ++ [record])
        writes } : LiveState).history cfg room =
      s.history cfg room ++ (if w.draft.roomId = room then [w.message] else []) := by
  have hone : roomMessages [record] room = if w.draft.roomId = room then [w.message] else [] := by
    rw [roomMessages, filterMap_cons, messageOf_write hlsn hpayload]
    by_cases hr : w.message.roomId = room
    · rw [if_pos (show w.draft.roomId = room from hr)]
      exact filter_cons_of_pos (by simpa using hr)
    · rw [if_neg (show w.draft.roomId ≠ room from hr)]
      exact filter_cons_of_neg (by simpa using hr)
  unfold LiveState.history
  dsimp only
  by_cases hs : cfg.walShard room = cfg.walShard w.draft.roomId
  · rw [hs, update_self, roomMessages_append, hone]
  · have hr : w.draft.roomId ≠ room := fun he => hs (he ▸ rfl)
    rw [update_of_ne hs, if_neg hr, append_nil]

theorem appliedTo_append (s : LiveState) (m : Message) (writes : List Write)
    (rooms : HashMap String RoomLiveState)
    (room : String) : ({ s with writes, rooms, applied := s.applied ++ [m] } : LiveState).appliedTo room =
    s.appliedTo room ++ (if m.roomId = room then [m] else []) := by
  rw [LiveState.appliedTo, filter_append, filter_cons]
  simp only [decide_eq_true_eq, filter_nil]
  rfl

theorem LiveInv.allocate {s : LiveState} (h : LiveInv cfg s) {draft : MessageDraft}
    (hroom : s.rooms.contains
    draft.roomId ∨ s.appliedTo draft.roomId = []) : LiveInv cfg { s with
      nextLsn := s.nextLsn + 1
      writes := s.writes ++ [⟨draft, s.nextLsn + 1, .allocated⟩] } := by
  have hmem : ∀ {w : Write}, w ∈ s.writes ++ [⟨draft, s.nextLsn + 1, .allocated⟩] →
      w ∈ s.writes ∨ w = ⟨draft, s.nextLsn + 1, .allocated⟩ := fun hw => by simpa using hw
  refine ⟨Nat.le_succ_of_le h.counters, fun shard r hr => ?_, h.ascending, h.routed, ?_, fun w hw => ?_,
    fun w hw => ?_, fun w hw hp => ?_, h.applied, h.nodup, h.resident, fun room hnone => ?_⟩
  · exact ⟨(h.lsns shard r hr).1, Nat.le_succ_of_le (h.lsns shard r hr).2⟩
  · rw [map_append, nodup_append]
    refine ⟨h.distinct, nodup_singleton _, fun n hn n' hn' => ?_⟩
    obtain ⟨w, hw, rfl⟩ := mem_map.mp hn
    have := (h.writes w hw).2.1
    rw [mem_singleton.mp hn']
    exact (Nat.lt_succ_of_le this).ne
  · rcases hmem hw with hw | rfl
    · obtain ⟨hpos, hle, hnot⟩ := h.writes w hw
      exact ⟨hpos, Nat.le_succ_of_le hle, hnot⟩
    · refine ⟨Nat.succ_pos _, le_rfl, fun hm => ?_⟩
      have := (h.history_lsn (h.applied _ hm)).2
      exact absurd this (Nat.not_succ_le_self _)
  · rcases hmem hw with hw | rfl
    · exact h.allocated w hw
    · exact fun _ r hr => Nat.lt_succ_of_le (h.lsns _ r hr).2
  · rcases hmem hw with hw | rfl
    · exact h.appended w hw hp
    · exact absurd rfl hp
  · rcases h.evicted room hnone with he | ⟨hwrites, hall⟩
    · exact .inl he
    · by_cases hr : draft.roomId = room
      · refine .inl ((hr ▸ hroom).resolve_left fun hc => ?_)
        rw [contains_eq_isSome_getElem?, hnone] at hc
        cases hc
      · refine .inr ⟨fun w hw => ?_, hall⟩
        rcases hmem hw with hw | rfl
        · exact hwrites w hw
        · exact hr

theorem LiveInv.append {s : LiveState} {write : Nat} {w : Write} {record : WalRecord}
    (h : LiveInv cfg s) (hi :
    s.writes[write]? = some w) (hphase : w.phase = .allocated) (hlsn : record.lsn = w.lsn)
    (hpayload : record.payload =
    .messageCreated w.draft) (hfirst : ∀ other ∈ s.writes.eraseIdx write, other.phase = .allocated →
      cfg.walShard other.draft.roomId = cfg.walShard w.draft.roomId → w.lsn < other.lsn) :
    LiveInv cfg { s with
      wal :=
  update s.wal (cfg.walShard w.draft.roomId) (s.wal (cfg.walShard w.draft.roomId) ++ [record])
      writes := s.writes.set write { w with phase := .appended } } := by
  have hw := mem_of_getElem? hi
  obtain ⟨hpos, hle, hnot⟩ := h.writes w hw
  have hbelow := h.allocated w hw hphase
  have hrecord : ∀ {shard : Nat} {r : WalRecord}, r ∈ update s.wal (cfg.walShard w.draft.roomId) (s.wal (cfg.walShard
      w.draft.roomId) ++ [record]) shard → r ∈ s.wal shard ∨ shard = cfg.walShard w.draft.roomId ∧ r = record := by
    intro shard r hr
    rcases eq_or_ne shard (cfg.walShard w.draft.roomId) with rfl | hne
    · simpa using hr
    · rw [update_of_ne hne] at hr
      exact .inl hr
  have hhistory : ∀ {room : String} {m : Message}, m ∈ s.history cfg room →
      m ∈ s.history cfg room ++ (if w.draft.roomId = room then [w.message] else []) :=
    fun hm => mem_append_left _ hm
  refine ⟨h.counters, fun shard r hr => ?_, fun shard => ?_, fun shard r hr m hm => ?_,
    nodup_set_writes hi h.distinct rfl, fun w' hw' => ?_, fun w' hw' hp r hr => ?_, fun w' hw' hp => ?_,
    fun m hm => ?_, h.nodup, h.resident, fun room hnone => ?_⟩
  · rcases hrecord hr with hr | ⟨-, rfl⟩
    · exact h.lsns shard r hr
    · rw [hlsn]
      exact ⟨hpos, hle⟩
  · dsimp only
    rcases eq_or_ne shard (cfg.walShard w.draft.roomId) with rfl | hne
    · rw [update_self]
      exact (h.ascending _).concat fun r hr => hlsn ▸ hbelow r hr
    · rw [update_of_ne hne]
      exact h.ascending shard
  · rcases hrecord hr with hr | ⟨rfl, rfl⟩
    · exact h.routed shard r hr m hm
    · rw [messageOf_write hlsn hpayload] at hm
      cases hm
      rfl
  · rcases mem_set_writes hi hw' with rfl | hw'
    · exact ⟨hpos, hle, hnot⟩
    · exact h.writes w' (mem_of_mem_eraseIdx hw')
  · rcases mem_set_writes hi hw' with rfl | hother
    · cases hp
    · rcases hrecord hr with hr | ⟨hs, rfl⟩
      · exact h.allocated w' (mem_of_mem_eraseIdx hother) hp r hr
      · exact hlsn ▸ hfirst w' hother hp hs
  · rw [history_append hlsn hpayload]
    rcases mem_set_writes hi hw' with rfl | hw'
    · exact mem_append_right _ (by rw [if_pos rfl]; exact mem_singleton.mpr rfl)
    · exact hhistory (h.appended w' (mem_of_mem_eraseIdx hw') hp)
  · rw [history_append hlsn hpayload]
    exact hhistory (h.applied m hm)
  · rcases h.evicted room hnone with he | ⟨hwrites, hall⟩
    · exact .inl he
    · have hr : w.draft.roomId ≠ room := hwrites w hw
      refine .inr ⟨fun w' hw' => ?_, fun m hm => ?_⟩
      · rcases mem_set_writes hi hw' with rfl | hw'
        · exact hr
        · exact hwrites w' (mem_of_mem_eraseIdx hw')
      · rw [history_append hlsn hpayload, if_neg hr, append_nil] at hm
        exact hall m hm

theorem LiveInv.commit {s : LiveState} {write : Nat} {w : Write} (h : LiveInv cfg s)
    (hi : s.writes[write]? = some w) (hphase : w.phase = .appended) : LiveInv cfg { s with
      currentLsn := max s.currentLsn w.lsn
      writes := s.writes.set write { w with phase := .committed } } := by
  have hw := mem_of_getElem? hi
  refine ⟨max_le h.counters (h.writes w hw).2.1, h.lsns, h.ascending, h.routed, nodup_set_writes hi h.distinct rfl, fun
    w' hw' => ?_, fun w' hw' hp => ?_, fun w' hw' hp => ?_, h.applied, h.nodup, h.resident, fun room hnone => ?_⟩
  · rcases mem_set_writes hi hw' with rfl | hw'
    · exact h.writes w hw
    · exact h.writes w' (mem_of_mem_eraseIdx hw')
  · rcases mem_set_writes hi hw' with rfl | hw'
    · cases hp
    · exact h.allocated w' (mem_of_mem_eraseIdx hw') hp
  · rcases mem_set_writes hi hw' with rfl | hw'
    · exact h.appended w hw (by simp [hphase])
    · exact h.appended w' (mem_of_mem_eraseIdx hw') hp
  · rcases h.evicted room hnone with he | ⟨hwrites, hall⟩
    · exact .inl he
    · refine .inr ⟨fun w' hw' => ?_, hall⟩
      rcases mem_set_writes hi hw' with rfl | hw'
      · exact hwrites w hw
      · exact hwrites w' (mem_of_mem_eraseIdx hw')

theorem LiveInv.abandon {s : LiveState} (h : LiveInv cfg s) (write : Nat) :
    LiveInv cfg { s with writes := s.writes.eraseIdx write } := by
  have hsub : ∀ {w : Write}, w ∈ s.writes.eraseIdx write → w ∈ s.writes := mem_of_mem_eraseIdx
  refine ⟨h.counters, h.lsns, h.ascending, h.routed, h.distinct.sublist ((eraseIdx_sublist ..).map _), fun w hw =>
    h.writes w (hsub hw), fun w hw => h.allocated w (hsub hw), fun w hw => h.appended w (hsub hw), h.applied, h.nodup,
    h.resident, fun room hnone => ?_⟩
  exact (h.evicted room hnone).imp_right fun hq => ⟨fun w hw => hq.1 w (hsub hw), hq.2⟩

theorem LiveInv.apply {s : LiveState} {write : Nat} {w : Write} (h : LiveInv cfg s)
    (hi : s.writes[write]? = some w) (hphase : w.phase = .committed) : LiveInv cfg { s with
      writes := s.writes.eraseIdx write
      rooms := applyToRooms sort cfg.hotWindow s.rooms w.message
      applied := s.applied ++ [w.message] } := by
  have hw := mem_of_getElem? hi
  have hsub : ∀ {w' : Write}, w' ∈ s.writes.eraseIdx write → w' ∈ s.writes := mem_of_mem_eraseIdx
  have hmem : w.message ∈ s.history cfg w.draft.roomId := h.appended w hw (by simp [hphase])
  -- the messages applied to the room, after this one, have distinct LSNs
  have hnodup : ((s.appliedTo w.draft.roomId ++ [w.message]).map Message.lsn).Nodup := by
    rw [map_append, nodup_append]
    refine ⟨h.nodup _, nodup_singleton _, fun n hn n' hn' he => ?_⟩
    obtain ⟨m, hm, rfl⟩ := mem_map.mp hn
    obtain ⟨hm, hroom⟩ := mem_appliedTo.mp hm
    rw [mem_singleton.mp hn'] at he
    have := inj_on_of_nodup_map (h.history_ascending _).nodup (hroom ▸ h.applied m hm) hmem he
    exact (h.writes w hw).2.2 (this ▸ hm)
  refine ⟨h.counters, h.lsns, h.ascending, h.routed, h.distinct.sublist ((eraseIdx_sublist ..).map _), fun w' hw' => ?_,
    fun w' hw' => h.allocated w' (hsub hw'), fun w' hw' => h.appended w' (hsub hw'), fun m hm => ?_, fun room => ?_, fun
    room live hlive => ?_, fun room hnone => ?_⟩
  · obtain ⟨hpos, hle, hnot⟩ := h.writes w' (hsub hw')
    refine ⟨hpos, hle, fun hm => ?_⟩
    rcases mem_append.mp hm with hm | hm
    · exact hnot hm
    · exact lsn_ne_of_mem_eraseIdx hi h.distinct hw' (congrArg Message.lsn (mem_singleton.mp hm))
  · rcases mem_append.mp hm with hm | hm
    · exact h.applied m hm
    · rw [mem_singleton.mp hm]
      exact hmem
  · rw [appliedTo_append]
    split
    · next he => exact (show w.draft.roomId = room from he) ▸ hnodup
    · rw [append_nil]
      exact h.nodup room
  · rw [applyToRooms, ExtHashMap.getElem?_insert] at hlive
    rw [appliedTo_append]
    split at hlive
    · next he =>
      have he : w.message.roomId = room := by simpa using he
      subst he
      cases hlive
      rw [if_pos rfl]
      refine applyMessages_newest sort ?_ ?_ hnodup (cons_ne_nil _ _)
      · rw [getD_eq_getD_getElem?]
        cases hr : s.rooms[w.message.roomId]? with
        | some live => exact h.resident _ live hr
        | none =>
          have := (h.evicted _ hr).resolve_right fun hq => hq.1 w hw rfl
          rw [this, newest_nil]
          rfl
      · intro m hm
        rcases mem_append.mp hm with hm | hm
        · obtain ⟨hm, hroom⟩ := mem_appliedTo.mp hm
          exact (h.history_lsn (h.applied m hm)).1
        · rw [mem_singleton.mp hm]
          exact (h.writes w hw).1
    · next he =>
      rw [if_neg (by simpa using he), append_nil]
      exact h.resident room live hlive
  · rw [applyToRooms, ExtHashMap.getElem?_insert] at hnone
    split at hnone
    · cases hnone
    · next he =>
      rw [appliedTo_append, if_neg (by simpa using he), append_nil]
      exact (h.evicted room hnone).imp_right fun hq =>
        ⟨fun w' hw' => hq.1 w' (hsub hw'), fun m hm => mem_append_left _ (hq.2 m hm)⟩

theorem LiveInv.evict {s : LiveState} {rooms : List String}
    (h : LiveInv cfg s) (hquiet : ∀ room ∈ rooms, s.rooms.contains room → Quiet cfg s room) :
    LiveInv cfg { s with rooms := s.rooms.filter fun room _ => room ∉ rooms } := by
  refine ⟨h.counters, h.lsns, h.ascending, h.routed, h.distinct, h.writes, h.allocated, h.appended, h.applied, h.nodup,
    fun room live hlive => ?_, fun room hnone => ?_⟩
  · rw [getElem?_filter'] at hlive
    exact h.resident room live (filter_eq_some_iff.mp hlive).1
  · rw [getElem?_filter'] at hnone
    cases hr : s.rooms[room]? with
    | none => exact h.evicted room hr
    | some live =>
      rw [hr] at hnone
      have hin : room ∈ rooms := by simpa using hnone
      refine .inr (hquiet room hin ?_)
      rw [contains_eq_isSome_getElem?, hr]
      rfl

/-! ## The captured rooms -/

/-- What a snapshot has of the rooms it is done with: their newest messages up to
its LSN. A room that it does not keep has none of these, or was evicted and has no
others. -/
structure Captured (cfg : Shards) (s : LiveState) (snapshot : ActorSnapshot)
    (done : String → Prop) :
    Prop where
  lsn : snapshot.lsn ≤ s.nextLsn
  above : ∀ room, done room → ∀ w ∈ s.writes, w.draft.roomId = room → snapshot.lsn < w.lsn
  kept : ∀ room live, done room → snapshot.rooms[room]? = some live → live.messages =
    newest Message.lsn cfg.hotWindow ((s.history cfg room).filter (·.lsn ≤ snapshot.lsn))
  dropped : ∀ room, done room → snapshot.rooms[room]? = none → (∀ m ∈ s.history cfg room, snapshot.lsn < m.lsn) ∨
      (∀ m ∈ s.history cfg room, m.lsn ≤ snapshot.lsn) ∧ s.rooms[room]? = none ∧ s.appliedTo room ≠ []
  rest : ∀ room, ¬ done room → snapshot.rooms[room]? = none

/-- What a live step leaves to a snapshot: new writes are above every LSN, a room's
log grows by a write that was on its way, and a room that was evicted is not
touched. -/
structure Advances (cfg : Shards) (s t : LiveState) : Prop where
  next : s.nextLsn ≤ t.nextLsn
  writes : ∀ w ∈ t.writes, s.nextLsn < w.lsn ∨ ∃ w' ∈ s.writes, w'.draft.roomId = w.draft.roomId ∧ w'.lsn = w.lsn
  history : ∀ room, t.history cfg room = s.history cfg room ∨
    ∃ w ∈ s.writes, w.draft.roomId = room ∧ t.history cfg room = s.history cfg room ++ [w.message]
  evicted : ∀ room, s.rooms[room]? = none → s.appliedTo room ≠ [] →
    t.history cfg room = s.history cfg room ∧ t.rooms[room]? = none ∧ t.appliedTo room ≠ []

theorem Captured.advance {s t : LiveState} {snapshot : ActorSnapshot} {done : String → Prop}
    (h : Captured cfg s snapshot done) (ht : Advances cfg s t) : Captured cfg t snapshot done where
  lsn := h.lsn.trans ht.next
  above room hdone w hw hroom := by
    rcases ht.writes w hw with hlt | ⟨w', hw', hr, hl⟩
    · exact h.lsn.trans_lt hlt
    · exact hl ▸ h.above room hdone w' hw' (hr.trans hroom)
  kept room live hdone hlive := by
    rcases ht.history room with he | ⟨w, hw, hroom, he⟩
    · rw [he]
      exact h.kept room live hdone hlive
    · have habove : ¬ w.message.lsn ≤ snapshot.lsn :=
        Nat.not_le.mpr (h.above room hdone w hw hroom)
      rw [he, filter_append, filter_cons_of_neg (by simpa using habove), filter_nil, append_nil]
      exact h.kept room live hdone hlive
  dropped room hdone hnone := by
    rcases h.dropped room hdone hnone with hall | ⟨hall, hgone, happlied⟩
    · refine .inl fun m hm => ?_
      rcases ht.history room with he | ⟨w, hw, hroom, he⟩
      · exact hall m (he ▸ hm)
      · rw [he] at hm
        rcases mem_append.mp hm with hm | hm
        · exact hall m hm
        · rw [mem_singleton.mp hm]
          exact h.above room hdone w hw hroom
    · obtain ⟨he, hgone', happlied'⟩ := ht.evicted room hgone happlied
      exact .inr ⟨fun m hm => hall m (he ▸ hm), hgone', happlied'⟩
  rest := h.rest

theorem LiveInv.quiet (h : LiveInv cfg s) (hgone : s.rooms[room]? = none)
    (happlied : s.appliedTo room ≠ []) :
    Quiet cfg s room :=
  (h.evicted room hgone).resolve_left happlied

/-- A live step keeps the invariant, and leaves the captured rooms alone. -/
theorem LiveInv.step {s : SnapshotState} {t : LiveState} {e : LiveEvent} (h : LiveInv cfg s.live)
    (hin : InStep cfg s (.live e)) (hstep : LiveStep sort cfg s.live e t) :
    LiveInv cfg t ∧ Advances cfg s.live t := by
  have hsame : ∀ {writes : List Write}, (∀ w ∈ writes, w ∈ s.live.writes) → ∀ w ∈ writes, s.live.nextLsn < w.lsn ∨
        ∃ w' ∈ s.live.writes, w'.draft.roomId = w.draft.roomId ∧ w'.lsn = w.lsn :=
    fun hsub w hw => .inr ⟨w, hsub w hw, rfl, rfl⟩
  have hset : ∀ {i : Nat} {w : Write} (p : WritePhase), s.live.writes[i]? = some w →
      ∀ w' ∈ s.live.writes.set i { w with phase := p }, s.live.nextLsn < w'.lsn ∨
        ∃ w'' ∈ s.live.writes, w''.draft.roomId = w'.draft.roomId ∧ w''.lsn = w'.lsn := by
    intro i w p hi w' hw'
    rcases mem_set_writes hi hw' with rfl | hw'
    · exact .inr ⟨w, mem_of_getElem? hi, rfl, rfl⟩
    · exact .inr ⟨w', mem_of_mem_eraseIdx hw', rfl, rfl⟩
  cases hstep with
  | allocate =>
    refine ⟨h.allocate hin, Nat.le_succ _, fun w hw => ?_, fun _ => .inl rfl,
      fun room hgone happlied => ⟨rfl, hgone, happlied⟩⟩
    rcases mem_append.mp hw with hw | hw
    · exact .inr ⟨w, hw, rfl, rfl⟩
    · rw [mem_singleton.mp hw]
      exact .inl (Nat.lt_succ_self _)
  | @append write w record hi hphase hlsn hpayload hfirst =>
    refine ⟨h.append hi hphase hlsn hpayload hfirst, le_rfl, hset _ hi, fun room => ?_,
      fun room hgone happlied => ⟨?_, hgone, happlied⟩⟩
    · rw [history_append hlsn hpayload]
      split
      · next hr => exact .inr ⟨w, mem_of_getElem? hi, hr, rfl⟩
      · exact .inl (append_nil _)
    · rw [history_append hlsn hpayload, if_neg ((h.quiet hgone happlied).1 w (mem_of_getElem? hi)), append_nil]
  | commit hi hphase =>
    exact ⟨h.commit hi hphase, le_rfl, hset _ hi, fun _ => .inl rfl, fun _ hgone happlied => ⟨rfl, hgone, happlied⟩⟩
  | @apply write w hi hphase =>
    refine ⟨h.apply hi hphase, le_rfl, hsame fun _ => mem_of_mem_eraseIdx, fun _ => .inl rfl,
      fun room hgone happlied => ?_⟩
    have hr : w.message.roomId ≠ room := (h.quiet hgone happlied).1 w (mem_of_getElem? hi)
    refine ⟨rfl, ?_, ?_⟩
    · rw [applyToRooms, ExtHashMap.getElem?_insert, if_neg (by simpa using hr)]
      exact hgone
    · rw [appliedTo_append, if_neg hr, append_nil]
      exact happlied
  | abandon =>
    exact ⟨h.abandon _, le_rfl, hsame fun _ => mem_of_mem_eraseIdx, fun _ => .inl rfl,
      fun _ hgone happlied => ⟨rfl, hgone, happlied⟩⟩
  | evict =>
    refine ⟨h.evict hin, le_rfl, hsame fun _ => id, fun _ => .inl rfl, fun room hgone happlied => ⟨rfl, ?_, happlied⟩⟩
    rw [getElem?_filter', hgone]
    rfl

theorem captured_create (h : LiveInv cfg s) :
    Captured cfg s ⟨s.currentLsn, ∅⟩ (cfg.actorShard · < 0) :=
  ⟨h.counters, fun _ hd => absurd hd (Nat.not_lt_zero _), fun _ _ hd => absurd hd (Nat.not_lt_zero _),
    fun _ hd => absurd hd (Nat.not_lt_zero _), fun _ _ => getElem?_empty⟩

/-- The room in a snapshot after the next shard is captured. -/
theorem getElem?_capture (r : RunningSnapshot) (rooms : HashMap String RoomLiveState)
    (room : String) :
    (r.capture cfg rooms).snapshot.rooms[room]? = (if cfg.actorShard room = r.captured then
    (rooms[room]?).map fun live => ⟨live.messages⟩ else none).or r.snapshot.rooms[room]? := by
  rw [RunningSnapshot.capture, ExtHashMap.getElem?_union, ExtHashMap.getElem?_map,
    ExtHashMap.getElem?_filter']
  congr 1
  by_cases hs : cfg.actorShard room = r.captured <;> cases rooms[room]? <;> simp [hs]

theorem Captured.capture {s : LiveState}
    {r : RunningSnapshot} (h : LiveInv cfg s)
    (hc : Captured cfg s r.snapshot (cfg.actorShard · < r.captured))
    (hin : ∀ room, cfg.actorShard room = r.captured → (∀ w ∈ s.writes, w.draft.roomId = room →
      r.snapshot.lsn < w.lsn) ∧
    ∀ m ∈ s.history cfg room, m.lsn ≤ r.snapshot.lsn ↔ m ∈ s.applied) :
    Captured cfg s (r.capture cfg s.rooms).snapshot (cfg.actorShard · < r.captured + 1) := by
  have hsplit : ∀ {room}, cfg.actorShard room < r.captured + 1 → cfg.actorShard room < r.captured ∧
      (r.capture cfg s.rooms).snapshot.rooms[room]? = r.snapshot.rooms[room]? ∨
        cfg.actorShard room = r.captured ∧
          (r.capture cfg s.rooms).snapshot.rooms[room]? = (s.rooms[room]?).map fun live => ⟨live.messages⟩ := by
    intro room hlt
    rw [getElem?_capture]
    rcases Nat.lt_succ_iff_lt_or_eq.mp hlt with hlt | he
    · exact .inl ⟨hlt, by rw [if_neg hlt.ne]; rfl⟩
    · refine .inr ⟨he, ?_⟩
      rw [if_pos he, hc.rest room (by omega), or_none]
  refine ⟨hc.lsn, fun room hdone => ?_, fun room live hdone hlive => ?_, fun room hdone hnone => ?_,
    fun room hdone => ?_⟩
  · rcases hsplit hdone with ⟨hlt, -⟩ | ⟨he, -⟩
    · exact hc.above room hlt
    · exact (hin room he).1
  · rcases hsplit hdone with ⟨hlt, hget⟩ | ⟨he, hget⟩
    · exact hc.kept room live hlt (hget ▸ hlive)
    · rw [hget] at hlive
      obtain ⟨room', hroom', rfl⟩ := map_eq_some_iff.mp hlive
      -- what was applied to the room is its log up to the LSN
      have hperm : (s.appliedTo room).Perm ((s.history cfg room).filter (·.lsn ≤ r.snapshot.lsn)) := by
        refine (perm_ext_iff_of_nodup (Nodup.of_map _ (h.nodup room))
          ((Nodup.of_map _ (h.history_ascending room).nodup).filter _)).mpr fun m => ?_
        rw [mem_appliedTo, mem_filter, decide_eq_true_eq]
        constructor
        · rintro ⟨hm, rfl⟩
          have hmem := h.applied m hm
          exact ⟨hmem, ((hin _ he).2 m hmem).mpr hm⟩
        · rintro ⟨hmem, hle⟩
          exact ⟨((hin room he).2 m hmem).mp hle, (mem_roomMessages.mp hmem).2⟩
      exact (h.resident room room' hroom').trans (newest_perm (h.nodup room) hperm _)
  · rcases hsplit hdone with ⟨hlt, hget⟩ | ⟨he, hget⟩
    · exact hc.dropped room hlt (hget ▸ hnone)
    · rw [hget, map_eq_none_iff] at hnone
      by_cases happlied : s.appliedTo room = []
      · refine .inl fun m hm => Nat.not_le.mp fun hle => ?_
        have := mem_appliedTo.mpr ⟨((hin room he).2 m hm).mp hle, (mem_roomMessages.mp hm).2⟩
        rw [happlied] at this
        cases this
      · refine .inr ⟨fun m hm => ?_, hnone, happlied⟩
        exact ((hin room he).2 m hm).mpr ((h.quiet hnone happlied).2 m hm)
  · have hlt : ¬ cfg.actorShard room < r.captured + 1 := hdone
    rw [getElem?_capture, if_neg (by omega), hc.rest room (by omega)]
    rfl

/-! ## Runs -/

/-- What a snapshot has captured is the rooms up to its LSN. -/
structure SnapshotInv (cfg : Shards) (s : SnapshotState) : Prop where
  live : LiveInv cfg s.live
  snapshots : ∀ r ∈ s.snapshots, Captured cfg s.live r.snapshot (cfg.actorShard · < r.captured)
  saved : ∀ snapshot, s.saved = some snapshot → Captured cfg s.live snapshot fun _ => True

theorem Captured.congr {snapshot : ActorSnapshot} {done done' : String → Prop}
    (h : Captured cfg s snapshot done)
    (hd : ∀ room, done room ↔ done' room) : Captured cfg s snapshot done' :=
  funext (fun room => propext (hd room)) ▸ h

theorem SnapshotInv.step {s t : SnapshotState} {e : SnapshotEvent} (h : SnapshotInv cfg s)
    (hin : InStep cfg s e) (hstep : SnapshotStep sort cfg s e t) : SnapshotInv cfg t := by
  cases hstep with
  | live hlive =>
    obtain ⟨hinv, hadv⟩ := h.live.step hin hlive
    exact ⟨hinv, fun r hr => (h.snapshots r hr).advance hadv, fun snapshot hs => (h.saved snapshot hs).advance hadv⟩
  | create =>
    refine ⟨h.live, fun r hr => ?_, h.saved⟩
    rcases mem_append.mp hr with hr | hr
    · exact h.snapshots r hr
    · rw [mem_singleton.mp hr]
      exact captured_create h.live
  | capture hi hlt =>
    refine ⟨h.live, fun r hr => ?_, h.saved⟩
    rcases mem_or_eq_of_mem_set hr with hr | rfl
    · exact h.snapshots r hr
    · exact (h.snapshots _ (mem_of_getElem? hi)).capture h.live (hin _ hi)
  | save hi hdone =>
    refine ⟨h.live, fun r hr => h.snapshots r (mem_of_mem_eraseIdx hr), fun snapshot hs => ?_⟩
    cases hs
    refine (h.snapshots _ (mem_of_getElem? hi)).congr fun room => ?_
    exact ⟨fun _ => trivial, fun _ => hdone ▸ cfg.actorShard_lt room⟩

theorem Started.inv {s : SnapshotState} (h : Started cfg s) : SnapshotInv cfg s := by
  obtain ⟨hwrites, hsnapshots, hsaved⟩ := h.idle
  have hlive : LiveInv cfg s.live := by
    have hascending : ∀ room, Ascending Message.lsn (s.live.history cfg room) := fun room =>
      (ascending_filterMap_messageOf (h.ascending _)).sublist filter_sublist
    refine ⟨h.counters, h.lsns, h.ascending, h.routed,
      by simp [hwrites], by simp [hwrites], by simp [hwrites], by simp [hwrites], fun m hm => ?_, fun room => ?_,
      fun room live hr => ?_, fun room _ => .inr ⟨by simp [hwrites], fun m hm => ?_⟩⟩
    · exact h.applied m.roomId ▸ mem_appliedTo.mpr ⟨hm, rfl⟩
    · exact h.applied room ▸ (hascending room).nodup
    · exact h.applied room ▸ h.resident room live hr
    · exact (mem_appliedTo.mp (h.applied room ▸ hm)).1
  exact ⟨hlive, by simp [hsnapshots], by simp [hsaved]⟩

/-! ## Startup -/

theorem replayShards_eq (sinceLsn : Nat) (rooms : HashMap String RoomLiveState)
    (wal : Nat → List WalRecord) :
    replayShards sort cfg sinceLsn rooms wal =
    ((range cfg.walShards).flatMap wal).foldl (replayedRooms sort cfg.hotWindow sinceLsn) rooms := by
  rw [replayShards, foldl_flatMap]

theorem LiveInv.roomMessages_shards (h : LiveInv cfg s) (room : String) :
    roomMessages ((range cfg.walShards).flatMap s.wal) room = s.history cfg room := by
  have hother : ∀ shard, shard ≠ cfg.walShard room → roomMessages (s.wal shard) room = [] := by
    intro shard hne
    refine eq_nil_iff_forall_not_mem.mpr fun m hm => hne ?_
    obtain ⟨⟨r, hr, hmsg⟩, rfl⟩ := mem_roomMessages.mp hm
    exact (h.routed shard r hr m hmsg).symm
  have hmany : ∀ shards : List Nat, cfg.walShard room ∉ shards → roomMessages (shards.flatMap s.wal) room = [] := by
    intro shards hnot
    induction shards with
    | nil => rfl
    | cons shard shards ih =>
      rw [mem_cons, not_or] at hnot
      rw [flatMap_cons, roomMessages_append, hother shard (Ne.symm hnot.1), ih hnot.2]
      rfl
  obtain ⟨before, after, he⟩ := append_of_mem (mem_range.mpr (cfg.walShard_lt room))
  have hnodup := he ▸ nodup_range (n := cfg.walShards)
  rw [nodup_append, nodup_cons] at hnodup
  obtain ⟨-, ⟨hafter, -⟩, hbefore⟩ := hnodup
  rw [he, flatMap_append, flatMap_cons, roomMessages_append, roomMessages_append,
    hmany before fun hm => hbefore _ hm _ mem_cons_self rfl, hmany after hafter, nil_append, append_nil]
  rfl

theorem filter_lsn_perm (messages : List Message) (n : Nat) :
    (messages.filter (·.lsn ≤ n) ++ messages.filter (n < ·.lsn)).Perm messages := by
  have : (fun m : Message => decide (n < m.lsn)) = fun m => !decide (m.lsn ≤ n) := by
    funext m
    exact Bool.eq_iff_iff.mpr (by simp)
  rw [this]
  exact filter_append_perm _ messages

/-- Replay on top of rooms that hold the newest messages up to an LSN. -/
theorem LiveInv.replayShards (h : LiveInv cfg s)
    {sinceLsn : Nat} {rooms : HashMap String RoomLiveState}
    (hroom : (rooms.getD room .new).messages =
    newest Message.lsn cfg.hotWindow ((s.history cfg room).filter (·.lsn ≤ sinceLsn))) :
    ((replayShards sort cfg sinceLsn rooms s.wal).getD room .new).messages =
    newest Message.lsn cfg.hotWindow (s.history cfg room) := by
  have hperm := filter_lsn_perm (s.history cfg room) sinceLsn
  have hnodup := (hperm.map Message.lsn).nodup_iff.mpr (h.history_ascending room).nodup
  have hmessages := h.roomMessages_shards room
  rw [replayShards_eq, foldl_replayedRooms _ hroom, hmessages]
  · exact newest_perm hnodup hperm _
  · rw [hmessages]
    exact fun m hm => (h.history_lsn (hperm.mem_iff.mp hm)).1
  · rwa [hmessages]

/-- Restoring a saved snapshot and replaying the logs from its LSN gives every room
that is in the snapshot or in the tail the hot window that replaying the whole logs
gives: the last messages of its log, each once. -/
theorem snapshot_then_tail {s t : SnapshotState}
    (hs : Started cfg s) (hrun : Reaches (SnapshotStep sort cfg) (InStep cfg) s t)
    {snapshot : ActorSnapshot} (hsaved : t.saved = some snapshot)
    {room : String} (hroom : snapshot.rooms.contains room ∨ ∃ m ∈ t.live.history cfg room,
      snapshot.lsn < m.lsn) :
    ((replayShards sort cfg snapshot.lsn snapshot.intoRuntimeState t.live.wal).getD room .new).messages =
    ((replayShards sort cfg 0 ∅ t.live.wal).getD room .new).messages ∧
    ((replayShards sort cfg 0 ∅ t.live.wal).getD room .new).messages =
    (t.live.history cfg room).rtake cfg.hotWindow ∧
    ((t.live.history cfg room).map Message.lsn).Nodup := by
  have hinv : SnapshotInv cfg t :=
    hrun.invariant (fun _ _ _ h hin hstep => h.step hin hstep) hs.inv
  have hlive := hinv.live
  have hcaptured := hinv.saved snapshot hsaved
  have hfull : ((replayShards sort cfg 0 ∅ t.live.wal).getD room .new).messages =
      newest Message.lsn cfg.hotWindow (t.live.history cfg room) := by
    refine hlive.replayShards ?_
    have : (t.live.history cfg room).filter (·.lsn ≤ 0) = [] := by
      refine filter_eq_nil_iff.mpr fun m hm => ?_
      simpa using (hlive.history_lsn hm).1.ne'
    rw [this, newest_nil, getD_empty]
    rfl
  have hascending := hlive.history_ascending room
  refine ⟨?_, hfull.trans (hascending.newest _), hascending.nodup⟩
  rw [hfull]
  refine hlive.replayShards ?_
  rw [ExtHashMap.getD_eq_getD_getElem?, ActorSnapshot.intoRuntimeState, ExtHashMap.getElem?_map]
  cases hget : snapshot.rooms[room]? with
  | some live => exact hcaptured.kept room live trivial hget
  | none =>
    rw [contains_eq_isSome_getElem?, hget] at hroom
    obtain ⟨m, hm, hlt⟩ := hroom.resolve_left (by simp)
    have hall := (hcaptured.dropped room trivial hget).resolve_right fun hgone =>
      absurd (hgone.1 m hm) (Nat.not_le.mpr hlt)
    have : (t.live.history cfg room).filter (·.lsn ≤ snapshot.lsn) = [] := by
      refine filter_eq_nil_iff.mpr fun m hm => ?_
      simpa using hall m hm
    rw [this, newest_nil]
    rfl

/-! ## One room -/

def sampleShards : Shards where
  hotWindow := 10
  actorShards := 1
  actorShard _ := 0
  actorShard_lt _ := Nat.one_pos
  walShards := 1
  walShard _ := 0
  walShard_lt _ := Nat.one_pos

def sampleDraft (id : String) : MessageDraft :=
  ⟨id, none, "r", "u", "b", [], 0, "rooms/r/messages/" ++ id⟩

def sampleWrite (lsn : Nat) (phase : WritePhase) : Write := ⟨sampleDraft (toString lsn), lsn, phase⟩

def sampleRecord (lsn : Nat) : WalRecord :=
  ⟨lsn, 0, 1, "n", 0, 1, .strict, .messageCreated (sampleDraft (toString lsn)), none⟩

def sampleMessage (lsn : Nat) : Message := (sampleDraft (toString lsn)).intoMessage lsn

/-- A server with one room: the LSNs in its log, and of the messages applied. -/
def sampleLive (nextLsn currentLsn : Nat) (log : List Nat) (writes : List Write)
    (applied : List Nat) : LiveState where
  nextLsn := nextLsn
  currentLsn := currentLsn
  wal := Function.update (fun _ => []) 0 (log.map sampleRecord)
  writes := writes
  rooms := (applied.map sampleMessage).foldl (applyToRooms .merge 10) ∅
  applied := applied.map sampleMessage

section SampleSteps

variable {nextLsn currentLsn : Nat} {log applied : List Nat} {writes : List Write}
  {snapshots : List RunningSnapshot} {saved : Option ActorSnapshot}

theorem allocate_sample :
    SnapshotStep .merge sampleShards ⟨sampleLive nextLsn currentLsn log writes applied, snapshots,
    saved⟩ (.live (.allocate (sampleDraft (toString (nextLsn + 1))))) ⟨sampleLive (nextLsn + 1) currentLsn log
    (writes ++ [sampleWrite (nextLsn + 1) .allocated]) applied, snapshots, saved⟩ :=
  .live .allocate

theorem append_sample (lsn : Nat) :
    SnapshotStep .merge sampleShards ⟨sampleLive nextLsn currentLsn log [sampleWrite lsn .allocated] applied,
    snapshots, saved⟩ (.live (.append 0 (sampleRecord lsn)))
    ⟨sampleLive nextLsn currentLsn (log ++ [lsn]) [sampleWrite lsn .appended] applied, snapshots,
    saved⟩ := by
  let s := sampleLive nextLsn currentLsn log [sampleWrite lsn .allocated] applied
  have h := @LiveStep.append .merge sampleShards s 0 (sampleWrite lsn .allocated) (sampleRecord lsn)
    rfl rfl rfl rfl (by nofun)
  have he : sampleLive nextLsn currentLsn (log ++ [lsn]) [sampleWrite lsn .appended] applied = { s with
        wal := update s.wal 0 (log.map sampleRecord ++ [sampleRecord lsn])
        writes := [sampleWrite lsn .appended] } := by
    simp [sampleLive, s]
  exact .live (he ▸ h)

theorem commit_sample (lsn : Nat) : SnapshotStep .merge sampleShards
    ⟨sampleLive nextLsn currentLsn log [sampleWrite lsn .appended] applied, snapshots,
    saved⟩ (.live (.commit 0))
    ⟨sampleLive nextLsn (max currentLsn lsn) log [sampleWrite lsn .committed] applied, snapshots,
    saved⟩ :=
  .live (@LiveStep.commit .merge sampleShards (sampleLive nextLsn currentLsn log [sampleWrite lsn .appended] applied) 0
    (sampleWrite lsn .appended)
    rfl rfl)

theorem apply_sample (lsn : Nat) :
    SnapshotStep .merge sampleShards ⟨sampleLive nextLsn currentLsn log [sampleWrite lsn .committed] applied, snapshots,
    saved⟩ (.live (.apply 0)) ⟨sampleLive nextLsn currentLsn log [] (applied ++ [lsn]), snapshots,
    saved⟩ := by
  let s := sampleLive nextLsn currentLsn log [sampleWrite lsn .committed] applied
  have h := @LiveStep.apply .merge sampleShards s 0 (sampleWrite lsn .committed) rfl rfl
  have he : sampleLive nextLsn currentLsn log [] (applied ++ [lsn]) = { s with
        writes := []
        rooms := applyToRooms .merge 10 s.rooms (sampleMessage lsn)
        applied := applied.map sampleMessage ++ [sampleMessage lsn] } := by
    simp [sampleLive, s]
  exact .live (he ▸ h)

end SampleSteps

def sampleStart : SnapshotState := ⟨sampleLive 0 0 [] [] [], [], none⟩

theorem sampleStart_started : Started sampleShards sampleStart := by
  have hwal : ∀ shard, sampleStart.live.wal shard = [] := congrFun (update_eq_self 0 fun _ => [])
  refine ⟨le_rfl, ?_, ?_, ?_, fun _ => rfl, fun room live hlive => ?_, rfl, rfl, rfl⟩
  · simp [hwal]
  · exact fun shard => (hwal shard).symm ▸ .nil
  · simp [hwal]
  · rw [show sampleStart.live.rooms = ∅ from rfl, getElem?_empty] at hlive
    cases hlive

theorem first_sample : Reaches (SnapshotStep .merge sampleShards) (InStep sampleShards) sampleStart
    ⟨sampleLive 1 1 [1] [] [1], [], none⟩ := by
  have h1 := @Reaches.tail _ _ _ (InStep sampleShards) _ _ _ _ (Reaches.refl sampleStart)
    (show InStep sampleShards _ (.live (.allocate _)) from .inr rfl) allocate_sample
  have h2 := h1.tail (e := SnapshotEvent.live (.append 0 _)) trivial (append_sample 1)
  have h3 := h2.tail (e := SnapshotEvent.live (.commit 0)) trivial (commit_sample 1)
  exact h3.tail (e := SnapshotEvent.live (.apply 0)) trivial (apply_sample 1)

/-- A snapshot of the room at an LSN. -/
def sampleSnapshot (lsn : Nat) (applied : List Nat) : RunningSnapshot :=
  (⟨0, ⟨lsn, ∅⟩⟩ : RunningSnapshot).capture sampleShards (sampleLive 0 0 [] [] applied).rooms

/-- A snapshot begins, captures the shard and is saved. -/
theorem snapshot_sample {meets : SnapshotState → SnapshotEvent → Prop} {live : LiveState}
    (hrun : Reaches (SnapshotStep .merge sampleShards) meets sampleStart ⟨live, [], none⟩)
    (applied : List Nat)
    (hrooms : live.rooms = (sampleLive 0 0 [] [] applied).rooms)
    (hmeets : ∀ s, meets s .create ∧ meets s (.save 0))
    (hcapture : meets ⟨live, [⟨0, ⟨live.currentLsn, ∅⟩⟩], none⟩ (.capture 0)) :
    Reaches (SnapshotStep .merge sampleShards) meets sampleStart ⟨live, [],
    some (sampleSnapshot live.currentLsn applied).snapshot⟩ := by
  have h1 := hrun.tail (hmeets _).1 .create
  have h2 := h1.tail hcapture (.capture rfl Nat.one_pos)
  have h3 := h2.tail (hmeets _).2 (.save rfl rfl)
  rw [sampleSnapshot, ← hrooms]
  exact h3

theorem getElem?_sampleSnapshot (lsn : Nat) :
    (sampleSnapshot lsn [1]).snapshot.rooms["r"]? = some ⟨[sampleMessage 1]⟩ := by
  have hroom : (sampleLive 0 0 [] [] [1]).rooms["r"]? = some ⟨[sampleMessage 1]⟩ := by
    show (applyToRooms .merge 10 ∅ (sampleMessage 1))["r"]? = _
    rw [applyToRooms, show (sampleMessage 1).roomId = "r" from rfl, getElem?_insert_self,
      getD_empty]
    rfl
  rw [sampleSnapshot, getElem?_capture, hroom]
  rfl

/-- A message is written after the snapshot. -/
theorem snapshot_then_tail_sample :
    let t := sampleLive 2 1 [1, 2] [sampleWrite 2 .appended] [1]
    let snapshot := (sampleSnapshot 1 [1]).snapshot
    ((replayShards .merge sampleShards snapshot.lsn snapshot.intoRuntimeState t.wal).getD "r" .new).messages =
        ((replayShards .merge sampleShards 0 ∅ t.wal).getD "r" .new).messages ∧
      ((replayShards .merge sampleShards 0 ∅ t.wal).getD "r" .new).messages = (t.history sampleShards "r").rtake 10 ∧
      ((t.history sampleShards "r").map Message.lsn).Nodup := by
  have hcapture : InStep sampleShards ⟨sampleLive 1 1 [1] [] [1], [⟨0, ⟨1, ∅⟩⟩], none⟩ (.capture 0) := by
    intro r hr room _
    cases hr
    refine ⟨nofun, fun m hm => ?_⟩
    obtain ⟨⟨record, hrecord, hmsg⟩, -⟩ := mem_roomMessages.mp hm
    rw [mem_singleton.mp hrecord] at hmsg
    cases hmsg
    exact ⟨fun _ => mem_singleton_self _, fun _ => le_rfl⟩
  have hsaved := snapshot_sample first_sample [1] rfl (fun _ => ⟨trivial, trivial⟩) hcapture
  have hroom : (sampleLive 1 1 [1] [] [1]).rooms.contains "r" := by
    show (applyToRooms .merge 10 ∅ (sampleMessage 1)).contains "r"
    exact contains_insert_self
  have hallocated := hsaved.tail (e := SnapshotEvent.live (.allocate _)) (.inl hroom) allocate_sample
  have happended := hallocated.tail (e := SnapshotEvent.live (.append 0 _)) trivial (append_sample 2)
  refine snapshot_then_tail sampleStart_started happended rfl (.inl ?_)
  rw [contains_eq_isSome_getElem?]
  exact congrArg isSome (getElem?_sampleSnapshot 1)

/-- The second message is logged and committed when the snapshot reads the LSN, and
applied when it has captured the room: it is in neither. -/
theorem snapshot_lost_sample : ∃ t snapshot, Started sampleShards sampleStart ∧
    Reaches (SnapshotStep .merge sampleShards) (fun _ _ => True) sampleStart t ∧
    t.saved = some snapshot ∧ snapshot.rooms.contains "r" ∧
    ((replayShards .merge sampleShards snapshot.lsn snapshot.intoRuntimeState t.live.wal).getD "r" .new).messages =
    [sampleMessage 1] ∧ ((replayShards .merge sampleShards 0 ∅ t.live.wal).getD "r" .new).messages =
    [sampleMessage 1, sampleMessage 2] := by
  have h0 : Reaches (SnapshotStep .merge sampleShards) (fun _ _ => True) sampleStart _ :=
    first_sample.weaken fun _ _ _ => trivial
  have h1 := h0.tail trivial allocate_sample
  have h2 := h1.tail trivial (append_sample 2)
  have h3 := h2.tail trivial (commit_sample 2)
  have h4 := snapshot_sample h3 [1] rfl (fun _ => ⟨trivial, trivial⟩) trivial
  have h5 := h4.tail trivial (apply_sample 2)
  have hget := getElem?_sampleSnapshot 2
  refine ⟨_, _, sampleStart_started, h5, rfl, ?_, ?_, ?_⟩
  · rw [contains_eq_isSome_getElem?]
    exact congrArg isSome hget
  · show ((sampleSnapshot 2 [1]).snapshot.intoRuntimeState.getD "r" .new).messages = _
    rw [ActorSnapshot.intoRuntimeState, ExtHashMap.getD_eq_getD_getElem?, ExtHashMap.getElem?_map, hget]
    rfl
  · show ((applyToRooms .merge 10 (applyToRooms .merge 10 ∅ (sampleMessage 1)) (sampleMessage 2)).getD
      (sampleMessage 2).roomId .new).messages = _
    rw [applyToRooms, getD_insert_self, applyToRooms,
      show (sampleMessage 2).roomId = (sampleMessage 1).roomId from rfl, getD_insert_self,
      getD_empty]
    rfl

end NextDb.Api.Snapshot
