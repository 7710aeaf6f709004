import Mathlib.Data.List.Dedup
import NextDb.Actor.Room
import NextDb.Lib.Keys

/-!
# The chat log

The logged messages of the rooms. A keyspace projects them, in the order of keys that
begin with the room and go on with what is left of the LSN up to its greatest value, so
that the newest message of a room comes first; the bucket files hold the messages of a
room by day.

* `ChatLog.Holds.appendMany`: messages with new ids are added.
* `ChatLog.Holds.latest`: what is read are the newest messages of the room below the
  cursor, unless keys of another room begin with the room's prefix.
* `latest_iff`: the projection reads a room right only then.
-/

namespace NextDb.Chat

open Actor Keys Newest List Std Std.ExtTreeMap

def u64Max : Nat := 18446744073709551615

def strBytes (s : String) : Bytes := s.toUTF8.data.toList

theorem strBytes_inj {s t : String} (h : strBytes s = strBytes t) : s = t :=
  String.toByteArray_inj.mp (ByteArray.ext (Array.toList_inj.mp h))

/-! ## The projection -/

def chatLogRoomPrefix (roomId : String) : Bytes := strBytes roomId ++ [0]

def chatLogRefKey (roomId messageId : String) : Bytes := strBytes roomId ++ 0 :: strBytes messageId

def chatLogMessageKey (message : Message) : Bytes :=
  strBytes message.roomId ++ 0 :: (decimal 20 (u64Max - message.lsn) ++
    0 :: (decimal 20 (u64Max - message.createdAtMs) ++ 0 :: strBytes message.id))

structure ChatLogProjection where
  messages : BTreeMap Bytes Message
  refs : BTreeMap Bytes Bytes

/-- One message of a batch, with the key its id had. -/
def ChatLogProjection.put (projection : ChatLogProjection) (message : Message)
    (previousKey : Option Bytes) : ChatLogProjection where
  messages := (previousKey.elim projection.messages projection.messages.erase).insert
    (chatLogMessageKey message) message
  refs := projection.refs.insert (chatLogRefKey message.roomId message.id) (chatLogMessageKey message)

def ChatLogProjection.putMessages (projection : ChatLogProjection) (messages : List Message) :
    ChatLogProjection :=
  let replacements := messages.map fun m => projection.refs[chatLogRefKey m.roomId m.id]?
  (messages.zip replacements).foldl (fun projection (m, previousKey) => projection.put m previousKey) projection

/-- `before_lsn.is_none_or(|before| lsn < before)`. -/
def below (beforeLsn : Option Nat) (message : Message) : Bool := beforeLsn.all (message.lsn < ·)

/-- The messages below the cursor, each id once, until there are `limit`. -/
def collectLatest (beforeLsn : Option Nat) (limit : Nat) :
    List Message → List Message → List Message
  | [], collected => collected
  | message :: rest, collected =>
    if below beforeLsn message then
      let collected :=
        if collected.any (·.id = message.id) then collected else collected ++ [message]
      if limit ≤ collected.length then collected else collectLatest beforeLsn limit rest collected
    else collectLatest beforeLsn limit rest collected

/-- The values under the room's prefix, in the order of their keys. -/
def ChatLogProjection.roomRows (projection : ChatLogProjection) (roomId : String) : List Message :=
  (projection.messages.toList.filter fun row => (chatLogRoomPrefix roomId).isPrefixOf row.1).map Prod.snd

def ChatLogProjection.latest (projection : ChatLogProjection) (roomId : String)
    (beforeLsn : Option Nat) (limit : Nat) : List Message :=
  collectLatest beforeLsn limit (projection.roomRows roomId) []

/-! ## The log -/

def timeBucketDay (timestampMs : Nat) : Nat := timestampMs / 86400000

structure ChatLog where
  projection : ChatLogProjection
  /-- The bucket files in the directory of each room. -/
  rooms : HashMap String (BTreeMap Nat (List Message))

def ChatLog.new : ChatLog := ⟨⟨∅, ∅⟩, ∅⟩

def bucketPath (message : Message) : String × Nat :=
  (message.roomId, timeBucketDay message.createdAtMs)

def ChatLog.appendBucket (log : ChatLog) (path : String × Nat) (messages : List Message) :
    ChatLog where
  projection := log.projection.putMessages messages
  rooms :=
    let buckets := log.rooms.getD path.1 ∅
    log.rooms.insert path.1 (buckets.insert path.2 (buckets.getD path.2 [] ++ messages))

def ChatLog.append (log : ChatLog) (message : Message) : ChatLog :=
  log.appendBucket (bucketPath message) [message]

/-- The batches of the buckets, one after the other. -/
def ChatLog.appendMany (log : ChatLog) (messages : List Message) : ChatLog :=
  (messages.map bucketPath).dedup.foldl
    (fun log path => log.appendBucket path (messages.filter fun m => bucketPath m = path)) log

def readBucketLatest (beforeLsn : Option Nat) (limit : Nat) (bucket : List Message) :
    List Message :=
  ((bucket.filter (below beforeLsn)).mergeSort fun a b => messageLe b a).take limit

/-- The buckets, the latest first, until there are `limit` messages. -/
def latestOfBuckets (beforeLsn : Option Nat) (limit : Nat) : List (List Message) → List Message →
    List Message
  | [], messages => messages
  | bucket :: rest, messages =>
    let messages :=
  collectLatest none limit (readBucketLatest beforeLsn (limit - messages.length) bucket) messages
    if limit ≤ messages.length then messages else latestOfBuckets beforeLsn limit rest messages

def ChatLog.latest (log : ChatLog) (roomId : String) (beforeLsn : Option Nat) (limit : Nat) :
    List Message :=
  if limit = 0 then []
  else
    let projected := log.projection.latest roomId beforeLsn limit
    match log.rooms[roomId]? with
    | some buckets =>
      if projected.isEmpty then
        latestOfBuckets beforeLsn limit (buckets.toList.map Prod.snd).reverse []
      else projected
    | none => projected

/-! ## What the log holds -/

/-- The ids as they are made: each one new, and without a zero byte. -/
structure Identified (messages : List Message) : Prop where
  distinct : (messages.map Message.id).Nodup
  noZero : ∀ m ∈ messages, 0 ∉ strBytes m.id

variable {messages logged : List Message} {m m' : Message} {log : ChatLog}
    {projection : ChatLogProjection}
  {limit : Nat} {roomId : String}

theorem Identified.ext (h : Identified messages) (hm : m ∈ messages) (hm' : m' ∈ messages)
    (he : m.id = m'.id) :
    m = m' :=
  inj_on_of_nodup_map h.distinct hm hm' he

variable {messages' : List Message} {beforeLsn : Option Nat}

theorem Identified.sublist (h : Identified messages') (hs : messages.Sublist messages') :
    Identified messages :=
  ⟨h.distinct.sublist (hs.map _), fun m hm => h.noZero m (hs.subset hm)⟩

theorem Identified.perm (h : Identified messages) (hp : messages.Perm messages') :
    Identified messages' :=
  ⟨(hp.map _).nodup_iff.mp h.distinct, fun m hm => h.noZero m (hp.mem_iff.mpr hm)⟩

theorem id_of_refKey (hm : 0 ∉ strBytes m.id) (hm' : 0 ∉ strBytes m'.id)
    (h : chatLogRefKey m.roomId m.id = chatLogRefKey m'.roomId m'.id) : m.id = m'.id :=
  strBytes_inj (append_zero_inj hm hm' h).2

theorem id_of_messageKey (hm : 0 ∉ strBytes m.id) (hm' : 0 ∉ strBytes m'.id)
    (h : chatLogMessageKey m = chatLogMessageKey m') : m.id = m'.id := by
  have hkey : ∀ m, chatLogMessageKey m = (strBytes m.roomId ++ 0 ::
        (decimal 20 (u64Max - m.lsn) ++ 0 :: decimal 20 (u64Max - m.createdAtMs))) ++ 0 :: strBytes m.id := by
    intro m
    simp [chatLogMessageKey]
  rw [hkey, hkey] at h
  exact strBytes_inj (append_zero_inj hm hm' h).2

/-- The projection has the logged messages under their keys. -/
structure ChatLogProjection.Holds (projection : ChatLogProjection) (logged : List Message) :
    Prop where
  messages : ∀ k m, projection.messages[k]? = some m ↔ m ∈ logged ∧ chatLogMessageKey m = k
  refs : ∀ k v, projection.refs[k]? = some v → ∃ m ∈ logged, chatLogRefKey m.roomId m.id = k

/-- The projection and the buckets have logged messages. -/
structure ChatLog.Holds (log : ChatLog) (logged : List Message) : Prop where
  projection : log.projection.Holds logged
  rooms : ∀ (room : String) (buckets : BTreeMap Nat (List Message)), log.rooms[room]? = some buckets →
    ∀ (day : Nat) (bucket : List Message), buckets[day]? = some bucket → ∀ m ∈ bucket, m ∈ logged ∧ m.roomId = room

theorem ChatLog.new_holds : ChatLog.new.Holds [] where
  projection := ⟨fun k m => by simp [ChatLog.new], fun k v h => by simp [ChatLog.new] at h⟩
  rooms room buckets h := by simp [ChatLog.new] at h

theorem ChatLog.Holds.congr {logged' : List Message} (h : log.Holds logged)
    (hmem : ∀ m, m ∈ logged ↔ m ∈ logged') :
    log.Holds logged' where
  projection := ⟨fun k m => by rw [h.projection.messages, hmem], fun k v hv => by
    obtain ⟨m, hm, hk⟩ := h.projection.refs k v hv
    exact ⟨m, (hmem m).mp hm, hk⟩⟩
  rooms room buckets hb day bucket hd m hm :=
    (h.rooms room buckets hb day bucket hd m hm).imp_left (hmem m).mp

theorem ChatLogProjection.Holds.put {message : Message} (h : projection.Holds logged)
    (hid : Identified (logged ++ [message])) :
    (projection.put message none).Holds (logged ++ [message]) := by
  refine ⟨fun k m => ?_, fun k v hv => ?_⟩
  · rw [ChatLogProjection.put, Option.elim_none, ExtTreeMap.getElem?_insert, mem_append, mem_singleton]
    split
    · next hk =>
      have hk := LawfulEqCmp.eq_of_compare hk
      constructor
      · rintro h
        cases h
        exact ⟨.inr rfl, hk⟩
      · rintro ⟨hm, hkm⟩
        have hm' : m ∈ logged ++ [message] := by simpa using hm
        have hmessage : message ∈ logged ++ [message] := by simp
        rw [hid.ext hm' hmessage (id_of_messageKey (hid.noZero m hm') (hid.noZero _ hmessage) (hkm.trans hk.symm))]
    · next hk =>
      rw [h.messages]
      constructor
      · exact fun ⟨hm, hkm⟩ => ⟨.inl hm, hkm⟩
      · rintro ⟨hm | rfl, hkm⟩
        · exact ⟨hm, hkm⟩
        · exact absurd (hkm ▸ ReflCmp.compare_self) hk
  · rw [ChatLogProjection.put, ExtTreeMap.getElem?_insert] at hv
    split at hv
    · next hk => exact ⟨message, by simp, LawfulEqCmp.eq_of_compare hk⟩
    · obtain ⟨m, hm, hk⟩ := h.refs k v hv
      exact ⟨m, mem_append_left _ hm, hk⟩

theorem ChatLogProjection.Holds.putMessages (h : projection.Holds logged)
    (hid : Identified (logged ++ messages)) :
    (projection.putMessages messages).Holds (logged ++ messages) := by
  have hnew : ∀ m ∈ messages, projection.refs[chatLogRefKey m.roomId m.id]? = none := by
    intro m hm
    refine Option.eq_none_iff_forall_ne_some.mpr fun v hv => ?_
    obtain ⟨m', hm', hk⟩ := h.refs _ v hv
    have he := id_of_refKey (hid.noZero m' (mem_append_left _ hm')) (hid.noZero m (mem_append_right _ hm)) hk
    have hdistinct := hid.distinct
    rw [map_append, nodup_append] at hdistinct
    exact hdistinct.2.2 _ (mem_map_of_mem hm') _ (mem_map_of_mem hm) he
  have hzip : messages.zip (messages.map fun m => projection.refs[chatLogRefKey m.roomId m.id]?) = messages.map fun m =>
      (m, none) := by
    rw [map_congr_left hnew, zip_eq_zipWith, zipWith_map_right, zipWith_self]
  rw [ChatLogProjection.putMessages]
  dsimp only
  rw [hzip, foldl_map]
  clear hnew hzip
  induction messages generalizing projection logged with
  | nil => rwa [append_nil]
  | cons m messages ih =>
    rw [append_cons] at hid ⊢
    exact ih (h.put (hid.sublist (sublist_append_left ..))) hid

theorem ChatLog.Holds.appendBucket (h : log.Holds logged) (hid : Identified (logged ++ messages))
    {path : String × Nat}
    (hpath : ∀ m ∈ messages, bucketPath m = path) :
    (log.appendBucket path messages).Holds (logged ++ messages) := by
  have hgetD : ∀ (day : Nat) (bucket : List Message), (log.rooms.getD path.1 ∅)[day]? = some bucket →
      ∀ m ∈ bucket, m ∈ logged ∧ m.roomId = path.1 := by
    intro day bucket hd
    rw [ExtHashMap.getD_eq_getD_getElem?] at hd
    cases hb : log.rooms[path.1]? with
    | none => simp [hb] at hd
    | some buckets =>
      rw [hb] at hd
      exact h.rooms path.1 buckets hb day bucket hd
  have hadd : ∀ {m : Message} {room : String}, m ∈ logged ∧ m.roomId = room → m ∈ logged ++ messages ∧
      m.roomId = room := fun hm => hm.imp_left (mem_append_left _)
  refine ⟨h.projection.putMessages hid, fun room buckets hb day bucket hd m hm => ?_⟩
  rw [ChatLog.appendBucket, ExtHashMap.getElem?_insert] at hb
  split at hb
  · next hroom =>
    cases hb
    rw [← eq_of_beq hroom]
    rw [ExtTreeMap.getElem?_insert] at hd
    split at hd
    · next hday =>
      cases hd
      rcases mem_append.mp hm with hm | hm
      · rw [getD_eq_getD_getElem?] at hm
        cases hold : (log.rooms.getD path.1 ∅)[path.2]? with
        | none => simp [hold] at hm
        | some bucket => exact hadd (hgetD path.2 bucket hold m (by simpa [hold] using hm))
      · exact ⟨mem_append_right _ hm, congrArg Prod.fst (hpath m hm)⟩
    · exact hadd (hgetD day bucket hd m hm)
  · exact hadd (h.rooms room buckets hb day bucket hd m hm)

theorem ChatLog.append_eq_appendMany (log : ChatLog) (message : Message) :
    log.append message = log.appendMany [message] := by
  rw [ChatLog.appendMany, map_singleton, dedup_eq_self.mpr (nodup_singleton (bucketPath message)), foldl_cons,
    foldl_nil, filter_cons_of_pos (by simp), filter_nil]
  rfl

theorem flatMap_buckets_perm (hn : messages.Nodup) :
    ((messages.map bucketPath).dedup.flatMap fun path =>
    messages.filter fun m => bucketPath m = path).Perm messages := by
  refine (perm_ext_iff_of_nodup (nodup_flatMap.mpr ⟨fun path _ => hn.filter _, ?_⟩) hn).mpr fun m => ?_
  · refine (nodup_dedup _).imp fun {path path'} hne => ?_
    intro m hm hm'
    exact hne
      ((by simpa using (mem_filter.mp hm).2 : bucketPath m = path).symm.trans (by simpa using (mem_filter.mp hm').2))
  · simp only [mem_flatMap, mem_dedup, mem_filter, decide_eq_true_eq]
    exact ⟨fun ⟨_, _, hm, _⟩ => hm, fun hm => ⟨_, mem_map_of_mem hm, hm, rfl⟩⟩

/-- Appending messages with new ids. -/
theorem ChatLog.Holds.appendMany (h : log.Holds logged) (hid : Identified (logged ++ messages)) :
    (log.appendMany messages).Holds (logged ++ messages) := by
  have hrun : ∀ (paths : List (String × Nat)) {log : ChatLog} {logged : List Message}, log.Holds logged →
      Identified (logged ++ paths.flatMap fun path => messages.filter fun m => bucketPath m = path) →
      (paths.foldl (fun log path => log.appendBucket path (messages.filter fun m => bucketPath m = path))
        log).Holds (logged ++ paths.flatMap fun path => messages.filter fun m => bucketPath m = path) := by
    intro paths
    induction paths with
    | nil =>
      intro log logged h _
      rwa [flatMap_nil, append_nil]
    | cons path paths ih =>
      intro log logged h hid
      rw [flatMap_cons, ← append_assoc] at hid ⊢
      refine ih (h.appendBucket (hid.sublist (sublist_append_left ..)) fun m hm => ?_) hid
      simpa using (mem_filter.mp hm).2
  have hnodup : messages.Nodup :=
    Nodup.of_map Message.id (hid.sublist (sublist_append_right ..)).distinct
  have hperm := (flatMap_buckets_perm hnodup).append_left logged
  exact (hrun _ h (hid.perm hperm.symm)).congr fun m => hperm.mem_iff

/-! ## Reading -/

/-- Messages with ids of their own: the first below the cursor. -/
theorem collectLatest_of_distinct (messages : List Message) {collected : List Message}
    (hlen : collected.length < limit)
    (hn : ((collected ++ messages).map Message.id).Nodup) : collectLatest beforeLsn
    limit messages collected =
    collected ++ (messages.filter (below beforeLsn)).take (limit - collected.length) := by
  induction messages generalizing collected with
  | nil => simp [collectLatest]
  | cons m messages ih =>
    have hn' : ((collected ++ messages).map Message.id).Nodup :=
      hn.sublist (((sublist_cons_self m messages).append_left collected).map _)
    by_cases hb : below beforeLsn m
    · have hnew : collected.any (·.id = m.id) = false := by
        rw [map_append, nodup_append] at hn
        refine any_eq_false.mpr fun m' hm' => ?_
        simpa using hn.2.2 _ (mem_map_of_mem hm') m.id (by simp)
      rw [collectLatest, if_pos hb, hnew, filter_cons_of_pos hb]
      simp only [Bool.false_eq_true, ↓reduceIte]
      obtain ⟨k, hk⟩ := Nat.exists_eq_succ_of_ne_zero (Nat.sub_ne_zero_of_lt hlen)
      rw [hk, take_succ_cons]
      split
      · next hfull =>
        have : k = 0 := by
          rw [length_append, length_singleton] at hfull
          omega
        rw [this, take_zero]
      · next hfull =>
        rw [ih (Nat.not_le.mp hfull) (by simpa using hn), length_append, length_singleton,
          show limit - (collected.length + 1) = k by omega, append_assoc, singleton_append]
    · rw [collectLatest, if_neg hb, filter_cons_of_neg hb]
      exact ih hlen hn'

theorem compare_messageKey (hroom : m.roomId = m'.roomId) (hlt : m.lsn < m'.lsn)
    (hle : m'.lsn ≤ u64Max) :
    compare (chatLogMessageKey m') (chatLogMessageKey m) = .lt := by
  have hrest : u64Max - m'.lsn < u64Max - m.lsn := by omega
  rw [chatLogMessageKey, chatLogMessageKey, hroom, compare_append_left, List.compare_eq_compareLex,
    List.compareLex_cons_cons, ReflOrd.compare_self, Ordering.eq_then]
  exact compare_append_lt (by simp) (compare_decimal hrest (by simp only [u64Max]; omega)) _ _

theorem prefix_messageKey (m : Message) : chatLogRoomPrefix m.roomId <+: chatLogMessageKey m := by
  rw [chatLogMessageKey, append_cons]
  exact prefix_append ..

/-- No message of another room has a key that begins with the room's prefix. -/
def Alone (logged : List Message) (roomId : String) : Prop :=
  ∀ m ∈ logged, chatLogRoomPrefix roomId <+: chatLogMessageKey m → m.roomId = roomId

/-- The rows of a room are its messages, the newest first. -/
theorem ChatLogProjection.Holds.roomRows (h : projection.Holds logged)
    (hlsns : (logged.map Message.lsn).Nodup)
    (hbound : ∀ m ∈ logged, m.lsn ≤ u64Max) (halone : Alone logged roomId) :
    (∀ m, m ∈ projection.roomRows roomId ↔ m ∈ logged ∧ m.roomId = roomId) ∧
    Ascending Message.lsn (projection.roomRows roomId).reverse := by
  have hmem : ∀ m, m ∈ projection.roomRows roomId ↔ m ∈ logged ∧ m.roomId = roomId := by
    intro m
    simp only [ChatLogProjection.roomRows, mem_map, mem_filter, Prod.exists, mem_toList_iff_getElem?_eq_some,
      h.messages, isPrefixOf_iff_prefix]
    constructor
    · rintro ⟨k, m, ⟨⟨hm, rfl⟩, hp⟩, rfl⟩
      exact ⟨hm, halone m hm hp⟩
    · rintro ⟨hm, rfl⟩
      exact ⟨_, m, ⟨⟨hm, rfl⟩, prefix_messageKey m⟩, rfl⟩
  refine ⟨hmem, pairwise_reverse.mpr (pairwise_map.mpr ?_)⟩
  refine ((ordered_keys_toList).filter _).imp_of_mem ?_
  rintro ⟨k, m⟩ ⟨k', m'⟩ hm hm' hlt
  have hrow : ∀ {k : Bytes} {m : Message}, (k, m) ∈ projection.messages.toList.filter (fun row =>
      (chatLogRoomPrefix roomId).isPrefixOf row.1) → m ∈ logged ∧ m.roomId = roomId ∧ chatLogMessageKey m = k := by
    intro k m hm
    obtain ⟨hin, -⟩ := mem_filter.mp hm
    obtain ⟨hlogged, hk⟩ := (h.messages k m).mp (mem_toList_iff_getElem?_eq_some.mp hin)
    have := (hmem m).mp (mem_map.mpr ⟨(k, m), hm, rfl⟩)
    exact ⟨hlogged, this.2, hk⟩
  obtain ⟨hlog, hroom, rfl⟩ := hrow hm
  obtain ⟨hlog', hroom', rfl⟩ := hrow hm'
  show m'.lsn < m.lsn
  by_contra hge
  rcases Nat.lt_or_eq_of_le (Nat.not_lt.mp hge) with hlsn | heq
  · have hgt := compare_messageKey (hroom.trans hroom'.symm) hlsn (hbound m' hlog')
    rw [OrientedCmp.gt_of_lt hgt] at hlt
    cases hlt
  · rw [inj_on_of_nodup_map hlsns hlog hlog' heq, ReflOrd.compare_self] at hlt
    cases hlt

theorem latestOfBuckets_nil (hlimit : 0 < limit) {buckets : List (List Message)}
    (h : ∀ bucket ∈ buckets, bucket.filter (below beforeLsn) = []) :
    latestOfBuckets beforeLsn limit buckets [] = [] := by
  induction buckets with
  | nil => rfl
  | cons bucket buckets ih =>
    obtain ⟨hbucket, hrest⟩ := forall_mem_cons.mp h
    have hread : readBucketLatest beforeLsn (limit - 0) bucket = [] := by
      rw [readBucketLatest, hbucket, mergeSort_nil, take_nil]
    rw [latestOfBuckets, length_nil, hread]
    show (if limit ≤ 0 then [] else latestOfBuckets beforeLsn limit buckets []) = []
    rw [if_neg (Nat.not_le.mpr hlimit)]
    exact ih hrest

/-- The projection's newest messages of the room below the cursor, the newest first. -/
theorem ChatLogProjection.Holds.latest (h : projection.Holds logged) (hid : Identified logged)
    (hlsns : (logged.map Message.lsn).Nodup) (hbound : ∀ m ∈ logged, m.lsn ≤ u64Max)
    (halone : Alone logged roomId)
    (beforeLsn : Option Nat) (hlimit : 0 < limit) : projection.latest roomId beforeLsn limit =
    (newest Message.lsn limit ((logged.filter (·.roomId = roomId)).filter (below beforeLsn))).reverse := by
  obtain ⟨hmem, hasc⟩ := h.roomRows hlsns hbound halone
  have hlogged : logged.Nodup := Nodup.of_map _ hlsns
  have hrows : (projection.roomRows roomId).Nodup :=
    nodup_reverse.mp (Nodup.of_map _ hasc.nodup)
  have hperm : (projection.roomRows roomId).Perm (logged.filter (·.roomId = roomId)) :=
    (perm_ext_iff_of_nodup hrows (hlogged.filter _)).mpr fun m => by
      rw [hmem, mem_filter, decide_eq_true_eq]
  have hprojected : projection.latest roomId beforeLsn limit =
      ((projection.roomRows roomId).filter (below beforeLsn)).take limit := by
    rw [ChatLogProjection.latest, collectLatest_of_distinct _ hlimit, nil_append]
    · rfl
    · rw [nil_append]
      exact (hperm.map _).nodup_iff.mpr (hid.sublist filter_sublist).distinct
  have hasc' : Ascending Message.lsn ((projection.roomRows roomId).filter (below beforeLsn)).reverse := by
    rw [← filter_reverse]
    exact hasc.sublist filter_sublist
  rw [hprojected, newest_perm _ (((hperm.filter _).symm).trans (reverse_perm _).symm), hasc'.newest,
    rtake_eq_reverse_take_reverse, reverse_reverse, reverse_reverse]
  exact ((((reverse_perm _).trans (hperm.filter _)).map _).nodup_iff.mp hasc'.nodup)

/-- The newest messages of the room below the cursor, the newest first. -/
theorem ChatLog.Holds.latest (h : log.Holds logged) (hid : Identified logged)
    (hlsns : (logged.map Message.lsn).Nodup) (hbound : ∀ m ∈ logged, m.lsn ≤ u64Max)
    (halone : Alone logged roomId) (beforeLsn : Option Nat) (hlimit : 0 < limit) :
    log.latest roomId beforeLsn limit =
    (newest Message.lsn limit ((logged.filter (·.roomId = roomId)).filter (below beforeLsn))).reverse := by
  have hprojected := h.projection.latest hid hlsns hbound halone beforeLsn hlimit
  rw [← hprojected, ChatLog.latest, if_neg hlimit.ne']
  dsimp only
  split
  · next buckets hbuckets =>
    split
    · next hempty =>
      rw [List.isEmpty_iff] at hempty
      rw [hempty]
      refine latestOfBuckets_nil hlimit fun bucket hbucket => filter_eq_nil_iff.mpr fun m hm hb => ?_
      obtain ⟨⟨day, bucket⟩, hday, rfl⟩ := mem_map.mp (mem_reverse.mp hbucket)
      obtain ⟨hm, hroom⟩ := h.rooms roomId buckets hbuckets day bucket (mem_toList_iff_getElem?_eq_some.mp hday) m hm
      rw [hprojected, reverse_eq_nil_iff] at hempty
      have hnone : (logged.filter (·.roomId = roomId)).filter (below beforeLsn) = [] :=
        newest_eq_nil hlimit hempty
      exact filter_eq_nil_iff.mp hnone m (mem_filter.mpr ⟨hm, decide_eq_true hroom⟩) hb
    · rfl
  · rfl

/-! ## Rooms apart -/

/-- The projection after batches of messages. -/
def ChatLogProjection.putAll (batches : List (List Message)) : ChatLogProjection :=
  batches.foldl ChatLogProjection.putMessages ⟨∅, ∅⟩

theorem putAll_holds (batches : List (List Message)) (hid : Identified batches.flatten) :
    (ChatLogProjection.putAll batches).Holds batches.flatten := by
  have hrun : ∀ (batches : List (List Message)) {projection : ChatLogProjection} {logged : List Message},
      projection.Holds logged → Identified (logged ++ batches.flatten) →
        (batches.foldl ChatLogProjection.putMessages projection).Holds (logged ++ batches.flatten) := by
    intro batches
    induction batches with
    | nil => exact fun h _ => by simpa using h
    | cons batch batches ih =>
      intro projection logged h hid
      rw [flatten_cons, ← append_assoc] at hid ⊢
      exact ih (h.putMessages (hid.sublist (sublist_append_left ..))) hid
  exact hrun batches ChatLog.new_holds.projection hid

/-- A message whose key begins with a room's prefix is read as one of the room. -/
theorem ChatLogProjection.Holds.mem_latest (h : projection.Holds logged) (hid : Identified logged)
    (hm : m ∈ logged) (hstarts : chatLogRoomPrefix roomId <+: chatLogMessageKey m) :
    ∃ limit, 0 < limit ∧ m ∈ projection.latest roomId none limit := by
  have hfound : ∀ {row : Bytes × Message}, row ∈ projection.messages.toList → row.2 ∈ logged ∧
      chatLogMessageKey row.2 = row.1 := fun hrow => (h.messages _ _).mp (mem_toList_iff_getElem?_eq_some.mp hrow)
  have hids : ((projection.roomRows roomId).map Message.id).Nodup := by
    refine pairwise_map.mpr (pairwise_map.mpr ((distinct_keys_toList.filter _).imp_of_mem ?_))
    intro row row' hrow hrow' hne heq
    obtain ⟨hlogged, hkey⟩ := hfound (mem_of_mem_filter hrow)
    obtain ⟨hlogged', hkey'⟩ := hfound (mem_of_mem_filter hrow')
    rw [← hkey, ← hkey', hid.ext hlogged hlogged' heq] at hne
    exact hne ReflOrd.compare_self
  refine ⟨(projection.roomRows roomId).length + 1, by omega, ?_⟩
  have hall : (projection.roomRows roomId).filter (below none) = projection.roomRows roomId :=
    filter_eq_self.mpr fun _ _ => rfl
  rw [ChatLogProjection.latest, collectLatest_of_distinct _ (by simp) hids, nil_append, hall,
    take_of_length_le (by simp)]
  refine mem_map.mpr ⟨(chatLogMessageKey m, m), mem_filter.mpr ⟨?_, ?_⟩, rfl⟩
  · exact mem_toList_iff_getElem?_eq_some.mpr ((h.messages _ _).mpr ⟨hm, rfl⟩)
  · exact isPrefixOf_iff_prefix.mpr hstarts

/-- A room is read right where no key of another room begins with its prefix. -/
theorem latest_iff (batches : List (List Message))
    (hid : Identified batches.flatten) (hlsns : (batches.flatten.map Message.lsn).Nodup)
    (hbound : ∀ m ∈ batches.flatten, m.lsn ≤ u64Max) (roomId : String) :
    (∀ beforeLsn limit, 0 < limit →
    (ChatLogProjection.putAll batches).latest roomId beforeLsn limit =
    (newest Message.lsn limit ((batches.flatten.filter (·.roomId = roomId)).filter (below beforeLsn))).reverse) ↔
    Alone batches.flatten roomId := by
  have hholds := putAll_holds batches hid
  refine ⟨fun h m hm hprefix => ?_, fun halone beforeLsn limit => hholds.latest hid hlsns hbound halone beforeLsn⟩
  obtain ⟨limit, hlimit, hmem⟩ := hholds.mem_latest hid hm hprefix
  rw [h none limit hlimit, mem_reverse] at hmem
  have hlsns' := hlsns.sublist
    (((filter_sublist (p := below none)).trans (filter_sublist (p := (·.roomId = roomId)))).map _)
  have hroom := (mem_filter.mp ((mem_newest hlsns').mp hmem).1).1
  simpa using (mem_filter.mp hroom).2

def roomMessage (roomId id : String) (lsn : Nat) : Message :=
  ⟨id, roomId, "user", "", [], 0, lsn, ""⟩

/-- Two rooms with two messages each. -/
def roomBatches : List (List Message) :=
  [[roomMessage "a" "m1" 1, roomMessage "b" "m2" 2], [roomMessage "b" "m3" 3], [roomMessage "a" "m4" 4]]

theorem latest_iff_sample :
    (∀ beforeLsn limit, 0 < limit →
    (ChatLogProjection.putAll roomBatches).latest "b" beforeLsn limit =
    (newest Message.lsn limit ((roomBatches.flatten.filter (·.roomId = "b")).filter (below beforeLsn))).reverse) ↔
    Alone roomBatches.flatten "b" :=
  latest_iff roomBatches ⟨by decide, by decide +kernel⟩ (by decide) (by decide) "b"

/-- The id of one room goes on, behind a NUL, from that of the other. -/
theorem nul_room_read :
    ∃ m limit, m ∈ (ChatLogProjection.putAll [[roomMessage "a\x00b" "m" 1]]).latest "a" none limit ∧
    m.roomId ≠ "a" := by
  have hid : Identified [roomMessage "a\x00b" "m" 1] := ⟨by decide, by decide +kernel⟩
  have hprefix : chatLogRoomPrefix "a" <+: chatLogMessageKey (roomMessage "a\x00b" "m" 1) := by decide +kernel
  obtain ⟨limit, -, hmem⟩ := (putAll_holds [[roomMessage "a\x00b" "m" 1]] hid).mem_latest hid mem_cons_self hprefix
  exact ⟨_, limit, hmem, by decide⟩

end NextDb.Chat
