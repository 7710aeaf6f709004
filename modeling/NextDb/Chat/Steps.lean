import NextDb.Chat.Log

/-!
# The chat log between its steps

Appending messages takes several steps: the lines of a bucket file, one after the other,
then the batch of the projection. Between them, and after a crash, a message can be in its
bucket file and not in the projection. A read takes the bucket files only where the
projection has nothing below the cursor.

* `appendBucket_eq`: the steps of a bucket, all taken.
* `ChatLog.Wrote.latest`: a read goes on through the history when every message is
  `Readable`: projected, or in its bucket file and older than what is projected.
-/

namespace NextDb.Chat

open Actor Newest List Std.ExtHashMap

/-! ## The steps -/

/-- A line of a bucket file. -/
def ChatLog.appendLine (log : ChatLog) (message : Message) : ChatLog :=
  { log with
    rooms :=
      let path := bucketPath message
      let buckets := log.rooms.getD path.1 ∅
      log.rooms.insert path.1 (buckets.insert path.2 (buckets.getD path.2 [] ++ [message])) }

/-- The batch of the projection. -/
def ChatLog.project (log : ChatLog) (messages : List Message) : ChatLog :=
  { log with projection := log.projection.putMessages messages }

/-- The messages in a bucket file. -/
def ChatLog.bucket (log : ChatLog) (path : String × Nat) : List Message :=
  (log.rooms.getD path.1 ∅).getD path.2 []

@[simp] theorem ChatLog.bucket_project (log : ChatLog) (messages : List Message)
    (path : String × Nat) :
    (log.project messages).bucket path = log.bucket path := rfl

@[simp] theorem ChatLog.project_projection (log : ChatLog) (messages : List Message) :
    (log.project messages).projection = log.projection.putMessages messages := rfl

@[simp] theorem ChatLog.appendLine_projection (log : ChatLog) (message : Message) :
    (log.appendLine message).projection = log.projection := rfl

@[simp] theorem ChatLog.foldl_appendLine_projection (messages : List Message) (log : ChatLog) :
    (messages.foldl ChatLog.appendLine log).projection = log.projection := by
  induction messages generalizing log with
  | nil => rfl
  | cons m messages ih => exact ih (log.appendLine m)

@[simp] theorem ChatLog.bucket_new (path : String × Nat) : ChatLog.new.bucket path = [] := by
  simp [ChatLog.bucket, ChatLog.new]

theorem ChatLog.bucket_appendLine (log : ChatLog) (message : Message) (path : String × Nat) :
    (log.appendLine message).bucket path = log.bucket path ++ if bucketPath message =
    path then [message] else [] := by
  rw [ChatLog.bucket, ChatLog.appendLine, getD_insert]
  by_cases hroom : (bucketPath message).1 = path.1
  · rw [if_pos (by simpa using hroom), Std.ExtTreeMap.getD_insert]
    by_cases hday : (bucketPath message).2 = path.2
    · rw [if_pos (by simpa using hday), if_pos (Prod.ext hroom hday), ChatLog.bucket, hroom, hday]
    · rw [if_neg (by simpa using hday), if_neg fun he => hday (congrArg Prod.snd he), append_nil, ChatLog.bucket, hroom]
  · rw [if_neg (by simpa using hroom), if_neg fun he => hroom (congrArg Prod.fst he), append_nil, ChatLog.bucket]

variable {messages projected lines : List Message} {path : String × Nat} {log : ChatLog}
    {beforeLsn : Option Nat}
  {m : Message} {limit : Nat}

/-- The lines of one bucket. -/
theorem foldl_appendLine (hne : messages ≠ []) (hpath : ∀ m ∈ messages, bucketPath m = path)
    (log : ChatLog) :
    (messages.foldl ChatLog.appendLine log).rooms =
    log.rooms.insert path.1 ((log.rooms.getD path.1 ∅).insert path.2 (log.bucket path ++ messages)) := by
  induction messages using reverseRecOn with
  | nil => exact absurd rfl hne
  | append_singleton messages m ih =>
    have hm : bucketPath m = path := hpath m (by simp)
    rw [foldl_append, foldl_cons, foldl_nil, ChatLog.appendLine]
    dsimp only
    rw [hm]
    by_cases hempty : messages = []
    · subst hempty
      rfl
    · rw [ih hempty fun m hm => hpath m (by simp [hm]), getD_insert_self, Std.ExtTreeMap.getD_insert_self, append_assoc]
      refine ext_getElem? fun room => ?_
      rw [Std.ExtHashMap.getElem?_insert, Std.ExtHashMap.getElem?_insert, Std.ExtHashMap.getElem?_insert]
      split
      · refine congrArg some (Std.ExtTreeMap.ext_getElem? fun day => ?_)
        rw [Std.ExtTreeMap.getElem?_insert, Std.ExtTreeMap.getElem?_insert, Std.ExtTreeMap.getElem?_insert]
        split <;> rfl
      · rfl

/-- All steps of a bucket. -/
theorem appendBucket_eq (hne : messages ≠ []) (hpath : ∀ m ∈ messages, bucketPath m = path)
    (log : ChatLog) :
    log.appendBucket path messages = (messages.foldl ChatLog.appendLine log).project messages := by
  rw [ChatLog.project, foldl_appendLine hne hpath, ChatLog.foldl_appendLine_projection]
  rfl

/-! ## What is written -/

/-- The messages projected, and the lines of the bucket files, so far. -/
structure ChatLog.Wrote (log : ChatLog) (projected lines : List Message) : Prop where
  projection : log.projection.Holds projected
  buckets : ∀ path, log.bucket path = lines.filter (bucketPath · = path)

theorem ChatLog.new_wrote : ChatLog.new.Wrote [] [] :=
  ⟨ChatLog.new_holds.projection, fun _ => by simp⟩

theorem ChatLog.Wrote.appendLine (h : log.Wrote projected lines) (message : Message) :
    (log.appendLine message).Wrote projected (lines ++ [message]) := by
  refine ⟨h.projection, fun path => ?_⟩
  rw [ChatLog.bucket_appendLine, h.buckets, filter_append]
  by_cases he : bucketPath message = path <;> simp [he]

theorem ChatLog.Wrote.project (h : log.Wrote projected lines)
    (hid : Identified (projected ++ messages)) :
    (log.project messages).Wrote (projected ++ messages) lines :=
  ⟨h.projection.putMessages hid, h.buckets⟩

theorem ChatLog.Wrote.appendBucket (h : log.Wrote projected lines)
    (hid : Identified (projected ++ messages)) (hne : messages ≠ [])
    (hpath : ∀ m ∈ messages, bucketPath m = path) :
    (log.appendBucket path messages).Wrote (projected ++ messages) (lines ++ messages) := by
  rw [appendBucket_eq hne hpath]
  refine ChatLog.Wrote.project ?_ hid
  have hlines : ∀ (messages : List Message) {log : ChatLog} {lines : List Message}, log.Wrote projected lines →
      (messages.foldl ChatLog.appendLine log).Wrote projected (lines ++ messages) := by
    intro messages
    induction messages with
    | nil => exact fun h => by rwa [append_nil]
    | cons m messages ih =>
      intro log lines h
      rw [append_cons]
      exact ih (h.appendLine m)
  exact hlines messages h

theorem ChatLog.wrote_appendMany (hid : Identified messages) : ∃ written :
    List Message, written.Perm messages ∧
    (ChatLog.new.appendMany messages).Wrote written written := by
  have hrun : ∀ (paths : List (String × Nat)) {log : ChatLog} {written : List Message},
      (∀ path ∈ paths, path ∈ messages.map bucketPath) → log.Wrote written written →
      Identified (written ++ paths.flatMap fun path => messages.filter fun m => bucketPath m = path) →
      (paths.foldl (fun log path => log.appendBucket path (messages.filter fun m => bucketPath m = path)) log).Wrote
        (written ++ paths.flatMap fun path => messages.filter fun m => bucketPath m = path)
        (written ++ paths.flatMap fun path => messages.filter fun m => bucketPath m = path) := by
    intro paths
    induction paths with
    | nil => exact fun _ h _ => by rwa [flatMap_nil, append_nil]
    | cons path paths ih =>
      intro log written hpaths h hid
      rw [flatMap_cons, ← append_assoc] at hid ⊢
      refine ih (fun path hpath => hpaths path (mem_cons_of_mem _ hpath)) ?_ hid
      obtain ⟨m, hm, hp⟩ := mem_map.mp (hpaths path mem_cons_self)
      refine h.appendBucket (hid.sublist (sublist_append_left ..))
        (ne_nil_of_mem (mem_filter.mpr ⟨hm, decide_eq_true hp⟩)) fun m hm => ?_
      simpa using (mem_filter.mp hm).2
  have hperm := flatMap_buckets_perm (Nodup.of_map Message.id hid.distinct)
  refine ⟨_, hperm, ?_⟩
  exact hrun _ (fun path hpath => mem_dedup.mp hpath) ChatLog.new_wrote (hid.perm hperm.symm)

/-! ## Reading the bucket files -/

/-- What a read can take from a bucket file. -/
def bucketRows (beforeLsn : Option Nat) (bucket : List Message) : List Message :=
  (bucket.filter (below beforeLsn)).mergeSort fun a b => messageLe b a

variable {bucket : List Message}

theorem mem_bucketRows : m ∈ bucketRows beforeLsn bucket ↔ m ∈ bucket ∧ below beforeLsn m := by
  rw [bucketRows, mem_mergeSort, mem_filter]

/-- Files of messages with ids of their own: the first rows. -/
theorem latestOfBuckets_of_distinct (buckets : List (List Message)) (hlen : messages.length < limit)
    (hn : ((messages ++ buckets.flatMap (bucketRows beforeLsn)).map Message.id).Nodup) :
    latestOfBuckets beforeLsn limit
    buckets messages = messages ++ (buckets.flatMap (bucketRows beforeLsn)).take (limit - messages.length) := by
  induction buckets generalizing messages with
  | nil => simp [latestOfBuckets]
  | cons bucket buckets ih =>
    rw [flatMap_cons] at hn ⊢
    have hread : readBucketLatest beforeLsn (limit - messages.length) bucket =
        (bucketRows beforeLsn bucket).take (limit - messages.length) := rfl
    have hbucket : ((messages ++ (bucketRows beforeLsn bucket).take (limit - messages.length)).map Message.id).Nodup :=
        by
      refine hn.sublist (Sublist.map _ (Sublist.append_left ?_ messages))
      exact (take_sublist ..).trans (sublist_append_left ..)
    have hcollect : collectLatest none limit ((bucketRows beforeLsn bucket).take (limit - messages.length)) messages =
        messages ++ (bucketRows beforeLsn bucket).take (limit - messages.length) := by
      have hall : ∀ rows : List Message, rows.filter (below none) = rows := fun rows =>
        filter_eq_self.mpr fun _ _ => rfl
      rw [collectLatest_of_distinct _ hlen hbucket, hall, take_take, min_self]
    rw [latestOfBuckets, hread, hcollect, take_append]
    rw [length_append, length_take]
    split
    · next hfull =>
      rw [show limit - messages.length - (bucketRows beforeLsn bucket).length = 0 by omega, take_zero, append_nil]
    · next hfull =>
      have hall : (bucketRows beforeLsn bucket).length < limit - messages.length := by omega
      rw [take_of_length_le hall.le] at hbucket ⊢
      rw [ih (by rw [length_append]; omega) (by rwa [append_assoc]), append_assoc, length_append, Nat.sub_sub]

theorem bucketRows_sorted (hd : Durable bucket) :
    (bucketRows beforeLsn bucket).Pairwise fun a b => b.lsn ≤ a.lsn := by
  have hle : ∀ a ∈ bucket.filter (below beforeLsn), ∀ b ∈ bucket.filter (below beforeLsn),
      messageLe b a = decide (b.lsn ≤ a.lsn) := fun a ha b hb =>
    messageLe_of_durable (hd b (mem_filter.mp hb).1) (hd a (mem_filter.mp ha).1)
  have hsort := map_mergeSort (f := id) (s := fun a b : Message => decide (b.lsn ≤ a.lsn)) hle
  rw [map_id, map_id] at hsort
  rw [bucketRows, hsort]
  have := @List.pairwise_mergeSort _ (fun a b : Message => decide (b.lsn ≤ a.lsn))
    (fun a b c hab hbc => by simpa using le_trans (by simpa using hbc) (by simpa using hab))
    (fun a b => by simpa using Nat.le_total b.lsn a.lsn) (bucket.filter (below beforeLsn))
  exact this.imp fun h => by simpa using h

/-- A message that a read finds when the cursor comes to it: it is projected, or it is in
its bucket file and everything older in the room is not projected and of no later day. -/
def ChatLog.Readable (log : ChatLog) (history : List Message) (m : Message) : Prop :=
  log.projection.messages[chatLogMessageKey m]? = some m ∨
    m ∈ log.bucket (bucketPath m) ∧ ∀ m' ∈ history, m'.lsn < m.lsn →
      log.projection.messages[chatLogMessageKey m']? ≠ some m' ∧
        timeBucketDay m'.createdAtMs ≤ timeBucketDay m.createdAtMs

/-- The messages of a log, of which some are projected and some are in the bucket files. -/
structure Logs (messages projected lines : List Message) : Prop where
  identified : Identified messages
  lsns : (messages.map Message.lsn).Nodup
  durable : Durable messages
  bound : ∀ m ∈ messages, m.lsn ≤ u64Max
  projected : projected.Nodup ∧ ∀ m ∈ projected, m ∈ messages
  lines : lines.Nodup ∧ ∀ m ∈ lines, m ∈ messages

theorem Logs.identified_of {some : List Message} (h : Logs messages projected lines)
    (hn : some.Nodup) (hs : ∀ m ∈ some, m ∈ messages) : Identified some :=
  ⟨hn.map_on fun _ hm _ hm' he => h.identified.ext (hs _ hm) (hs _ hm') he, fun m hm => h.identified.noZero m (hs m hm)⟩

theorem Logs.lsns_of {some : List Message} (h : Logs messages projected lines) (hn : some.Nodup)
    (hs : ∀ m ∈ some, m ∈ messages) : (some.map Message.lsn).Nodup :=
  hn.map_on fun _ hm _ hm' he => inj_on_of_nodup_map h.lsns (hs _ hm) (hs _ hm') he

theorem ChatLog.Wrote.projected_iff (h : log.Wrote projected lines) (m : Message) :
    log.projection.messages[chatLogMessageKey m]? = some m ↔ m ∈ projected := by
  rw [h.projection.messages]
  exact and_iff_left rfl

/-! ## What a read can find -/

theorem mem_collectLatest {collected : List Message}
    (hm : m ∈ collectLatest beforeLsn limit messages collected) :
    m ∈ collected ∨ m ∈ messages := by
  induction messages generalizing collected with
  | nil => exact .inl hm
  | cons a messages ih =>
    have hstep : ∀ {collected' : List Message}, (∀ m ∈ collected', m ∈ collected ∨ m = a) → m ∈ collected' ∨
        m ∈ messages → m ∈ collected ∨ m ∈ a :: messages := by
      intro collected' hc hm
      rcases hm with hm | hm
      · exact (hc m hm).imp_right fun he => mem_cons.mpr (.inl he)
      · exact .inr (mem_cons_of_mem _ hm)
    have hadded : ∀ m ∈ (if collected.any (·.id = a.id) then collected else collected ++ [a]), m ∈ collected ∨ m = a :=
        by
      intro m hm
      split at hm
      · exact .inl hm
      · exact (mem_append.mp hm).imp_right mem_singleton.mp
    rw [collectLatest] at hm
    split at hm
    · generalize (if collected.any (·.id = a.id) then collected else collected ++ [a]) = next at hm hadded
      dsimp only at hm
      split at hm
      · exact hstep hadded (.inl hm)
      · exact hstep hadded (ih hm)
    · exact hstep (fun m hm => .inl hm) (ih hm)

theorem mem_latestOfBuckets {buckets : List (List Message)}
    (hm : m ∈ latestOfBuckets beforeLsn limit buckets messages) :
    m ∈ messages ∨ ∃ bucket ∈ buckets, m ∈ bucket := by
  induction buckets generalizing messages with
  | nil => exact .inl hm
  | cons bucket buckets ih =>
    have hread : ∀ m ∈ collectLatest none limit (readBucketLatest beforeLsn (limit - messages.length) bucket) messages,
        m ∈ messages ∨ m ∈ bucket := by
      intro m hm
      refine (mem_collectLatest hm).imp_right fun hm => ?_
      exact (mem_bucketRows.mp (mem_of_mem_take hm : m ∈ bucketRows beforeLsn bucket)).1
    have hfound : m ∈ collectLatest none limit (readBucketLatest beforeLsn (limit - messages.length) bucket) messages →
        m ∈ messages ∨ ∃ bucket' ∈ bucket :: buckets, m ∈ bucket' := fun hm =>
      (hread m hm).imp_right fun hm => ⟨bucket, mem_cons_self, hm⟩
    rw [latestOfBuckets] at hm
    split at hm
    · exact hfound hm
    · rcases ih hm with hm | ⟨b, hb, hm⟩
      · exact hfound hm
      · exact .inr ⟨b, mem_cons_of_mem _ hb, hm⟩

theorem getD_of_mem_toList {buckets : BTreeMap Nat (List Message)} {day : Nat}
    (h : (day, bucket) ∈ buckets.toList) :
    buckets.getD day [] = bucket := by
  rw [Std.ExtTreeMap.getD_eq_getD_getElem?, Std.ExtTreeMap.mem_toList_iff_getElem?_eq_some.mp h]
  rfl

theorem ChatLog.Wrote.mem_latest (h : log.Wrote projected lines) {roomId : String}
    (hm : m ∈ log.latest roomId beforeLsn limit) : m ∈ projected ∨ m ∈ lines := by
  have hprojected : m ∈ log.projection.latest roomId beforeLsn limit → m ∈ projected := by
    intro hm
    have hrow := (mem_collectLatest hm).resolve_left not_mem_nil
    obtain ⟨⟨k, m⟩, hmem, rfl⟩ := mem_map.mp hrow
    have := Std.ExtTreeMap.mem_toList_iff_getElem?_eq_some.mp (mem_filter.mp hmem).1
    exact ((h.projection.messages k m).mp this).1
  rw [ChatLog.latest] at hm
  split at hm
  · cases hm
  · cases hbuckets : log.rooms[roomId]? with
    | none =>
      rw [hbuckets] at hm
      exact .inl (hprojected hm)
    | some buckets =>
      rw [hbuckets] at hm
      dsimp only at hm
      split at hm
      · obtain ⟨bucket, hmem, hm⟩ := (mem_latestOfBuckets hm).resolve_left not_mem_nil
        obtain ⟨⟨day, bucket⟩, hday, rfl⟩ := mem_map.mp (mem_reverse.mp hmem)
        have hfile := h.buckets (roomId, day)
        rw [ChatLog.bucket, getD_eq_getD_getElem?, hbuckets, Option.getD_some, getD_of_mem_toList hday] at hfile
        rw [hfile] at hm
        exact .inr (mem_filter.mp hm).1
      · exact .inl (hprojected hm)

section Read

variable {log : ChatLog} {messages projected lines : List Message} {roomId : String}

/-- The rows of the bucket files of a room, the latest file first, when a later message is
in no earlier file. -/
theorem ChatLog.Wrote.ascending_rows (h : log.Wrote projected lines)
    (hlogs : Logs messages projected lines) {buckets :
    BTreeMap Nat (List Message)} (hbuckets : log.rooms[roomId]? = some buckets)
    (beforeLsn : Option Nat) (hdays : ∀ m ∈
    lines, ∀ m' ∈ lines, m.roomId = roomId → m'.roomId = roomId → below beforeLsn m →
      below beforeLsn m' → m'.lsn < m.lsn →
      timeBucketDay m'.createdAtMs ≤ timeBucketDay m.createdAtMs) :
    let rows := (buckets.toList.map Prod.snd).reverse.flatMap (bucketRows beforeLsn)
    (∀ m, m ∈ rows ↔ m ∈ lines ∧ m.roomId = roomId ∧ below beforeLsn m) ∧ Ascending Message.lsn rows.reverse := by
  have hfile : ∀ {day : Nat} {bucket : List Message}, (day, bucket) ∈ buckets.toList →
      bucket = lines.filter (bucketPath · = (roomId, day)) := by
    intro day bucket hmem
    rw [← h.buckets, ChatLog.bucket, getD_eq_getD_getElem?, hbuckets]
    exact (getD_of_mem_toList hmem).symm
  have hline : ∀ {day : Nat} {bucket : List Message} {m : Message}, (day, bucket) ∈ buckets.toList → m ∈ bucket →
      m ∈ lines ∧ m.roomId = roomId ∧ timeBucketDay m.createdAtMs = day := by
    intro day bucket m hmem hm
    rw [hfile hmem, mem_filter, decide_eq_true_eq] at hm
    exact ⟨hm.1, congrArg Prod.fst hm.2, congrArg Prod.snd hm.2⟩
  refine ⟨fun m => ?_, ?_⟩
  · simp only [mem_flatMap, mem_reverse, mem_map, Prod.exists, exists_eq_right, mem_bucketRows]
    constructor
    · rintro ⟨bucket, ⟨day, hmem⟩, hm, hb⟩
      exact ⟨(hline hmem hm).1, (hline hmem hm).2.1, hb⟩
    · rintro ⟨hm, hroom, hb⟩
      have hin : m ∈ log.bucket (bucketPath m) := by
        rw [h.buckets]
        exact mem_filter.mpr ⟨hm, decide_eq_true rfl⟩
      have hfound : buckets[timeBucketDay m.createdAtMs]?.getD [] = log.bucket (bucketPath m) := by
        rw [ChatLog.bucket, bucketPath, hroom, getD_eq_getD_getElem?, hbuckets]
        exact Std.ExtTreeMap.getD_eq_getD_getElem?.symm
      cases hday : buckets[timeBucketDay m.createdAtMs]? with
      | none =>
        rw [hday] at hfound
        rw [← hfound] at hin
        cases hin
      | some bucket =>
        rw [hday] at hfound
        rw [← hfound] at hin
        exact ⟨bucket, ⟨_, Std.ExtTreeMap.mem_toList_iff_getElem?_eq_some.mpr hday⟩, hin, hb⟩
  · rw [Ascending, pairwise_reverse]
    have hstrict : ∀ {m m' : Message}, m ∈ lines → m' ∈ lines → m'.lsn ≤ m.lsn → m ≠ m' → m'.lsn < m.lsn := by
      intro m m' hm hm' hle hne
      refine lt_of_le_of_ne hle fun he => hne ?_
      exact inj_on_of_nodup_map hlogs.lsns (hlogs.lines.2 m hm) (hlogs.lines.2 m' hm') he.symm
    have hbelow : ∀ {day : Nat} {bucket : List Message} {m : Message}, (day, bucket) ∈ buckets.toList → m ∈ bucketRows
        beforeLsn bucket → m ∈ lines ∧ m.roomId = roomId ∧ timeBucketDay m.createdAtMs = day ∧ below beforeLsn m := by
      intro day bucket m hmem hm
      obtain ⟨hm, hb⟩ := mem_bucketRows.mp hm
      obtain ⟨hl, hr, hd⟩ := hline hmem hm
      exact ⟨hl, hr, hd, hb⟩
    refine pairwise_flatMap.mpr ⟨fun bucket hbucket => ?_, ?_⟩
    · obtain ⟨⟨day, bucket⟩, hmem, rfl⟩ := mem_map.mp (mem_reverse.mp hbucket)
      have hd : Durable bucket := fun m hm => hlogs.durable m (hlogs.lines.2 m (hline hmem hm).1)
      have hn : (bucketRows beforeLsn bucket).Nodup := by
        refine (mergeSort_perm _ _).nodup_iff.mpr (Nodup.filter _ ?_)
        rw [hfile hmem]
        exact hlogs.lines.1.filter _
      exact ((bucketRows_sorted hd).and hn).imp_of_mem fun {m m'} hm hm' hlt =>
        hstrict (hbelow hmem hm).1 (hbelow hmem hm').1 hlt.1 hlt.2
    · rw [pairwise_reverse, pairwise_map]
      refine (Std.ExtTreeMap.ordered_keys_toList).imp_of_mem ?_
      rintro ⟨day, bucket⟩ ⟨day', bucket'⟩ hmem hmem' hlt m hm m' hm'
      have hlt : day < day' := Nat.compare_eq_lt.mp hlt
      obtain ⟨hl, hr, hday, hb⟩ := hbelow hmem' hm
      obtain ⟨hl', hr', hday', hb'⟩ := hbelow hmem hm'
      refine hstrict hl hl' (Nat.not_lt.mp fun hgt => ?_) fun he => ?_
      · have := hdays m' hl' m hl hr' hr hb' hb hgt
        omega
      · rw [← he] at hday'
        omega

/-- The messages of the room below a cursor. -/
def underCursor (messages : List Message) (roomId : String) (beforeLsn : Option Nat) :
    List Message :=
  (messages.filter (·.roomId = roomId)).filter (below beforeLsn)

theorem mem_underCursor : m ∈ underCursor messages roomId beforeLsn ↔
    m ∈ messages ∧ m.roomId = roomId ∧
    below beforeLsn m := by
  simp only [underCursor, mem_filter, decide_eq_true_eq, and_assoc]

/-- Nothing below the cursor is projected: the bucket files are read. -/
theorem ChatLog.Wrote.latest_unprojected (h : log.Wrote projected lines)
    (hlogs : Logs messages projected lines)
    (hlimit : 0 < limit) (hprojected : log.projection.latest roomId beforeLsn limit = [])
    (hlines : ∀ m ∈ underCursor messages roomId beforeLsn, m ∈ lines ∧
      ∀ m' ∈ underCursor messages roomId beforeLsn,
    m'.lsn < m.lsn → timeBucketDay m'.createdAtMs ≤ timeBucketDay m.createdAtMs) :
    IsTop Message.lsn (underCursor messages roomId beforeLsn) (log.latest roomId beforeLsn limit).reverse ∧
    (log.latest roomId beforeLsn limit = [] → underCursor messages roomId beforeLsn = []) := by
  cases hbuckets : log.rooms[roomId]? with
  | none =>
    have hlatest : log.latest roomId beforeLsn limit = [] := by
      rw [ChatLog.latest, if_neg hlimit.ne', hprojected, hbuckets]
    have hall : underCursor messages roomId beforeLsn = [] :=
      eq_nil_iff_forall_not_mem.mpr fun m hm => by
        have hin : m ∈ log.bucket (bucketPath m) := by
          rw [h.buckets]
          exact mem_filter.mpr ⟨(hlines m hm).1, decide_eq_true rfl⟩
        rw [ChatLog.bucket, bucketPath, (mem_underCursor.mp hm).2.1, getD_eq_getD_getElem?, hbuckets, Option.getD_none,
          Std.ExtTreeMap.getD_empty] at hin
        cases hin
    rw [hlatest, hall]
    exact ⟨isTop_nil _, fun _ => rfl⟩
  | some buckets =>
    have hin : ∀ m ∈ lines, m.roomId = roomId → below beforeLsn m → m ∈ underCursor messages roomId beforeLsn :=
        fun m hm hroom hb =>
      mem_underCursor.mpr ⟨hlogs.lines.2 m hm, hroom, hb⟩
    obtain ⟨hmem, hasc⟩ := h.ascending_rows hlogs hbuckets beforeLsn fun m hm m' hm' hroom hroom' hb hb' hlt =>
        (hlines m (hin m hm hroom hb)).2 m' (hin m' hm' hroom' hb') hlt
    let all := (buckets.toList.map Prod.snd).reverse.flatMap (bucketRows beforeLsn)
    have hnodup : all.Nodup := nodup_reverse.mp (Nodup.of_map _ hasc.nodup)
    have hids : ((([] : List Message) ++ all).map Message.id).Nodup :=
      (hlogs.identified_of hnodup fun m hm => hlogs.lines.2 m ((hmem m).mp hm).1).distinct
    have hread : log.latest roomId beforeLsn limit = all.take limit := by
      rw [ChatLog.latest, if_neg hlimit.ne', hprojected, hbuckets]
      exact latestOfBuckets_of_distinct _ hlimit hids
    have htop : IsTop Message.lsn (underCursor messages roomId beforeLsn) all.reverse := by
      refine ⟨hasc, fun m hm => ?_, fun m hm m' hm' hlt => ?_⟩
      · obtain ⟨hl, hroom, hb⟩ := (hmem m).mp (mem_reverse.mp hm)
        exact hin m hl hroom hb
      · obtain ⟨-, hroom, hb⟩ := mem_underCursor.mp hm'
        exact mem_reverse.mpr ((hmem m').mpr ⟨(hlines m' hm').1, hroom, hb⟩)
    rw [hread]
    refine ⟨htop.of_suffix (reverse_suffix.mpr (List.take_prefix ..)), fun hnil => ?_⟩
    have hall : all = [] := (take_eq_nil_iff.mp hnil).resolve_left hlimit.ne'
    refine eq_nil_iff_forall_not_mem.mpr fun m hm => ?_
    obtain ⟨-, hroom, hb⟩ := mem_underCursor.mp hm
    have : m ∈ all := (hmem m).mpr ⟨(hlines m hm).1, hroom, hb⟩
    rw [hall] at this
    cases this

/-- A read takes the newest messages below the cursor, and none only if there are none. -/
theorem ChatLog.Wrote.latest (h : log.Wrote projected lines) (hlogs : Logs messages projected lines)
    (halone : Alone messages roomId) (hreadable : ∀ m ∈ messages, m.roomId = roomId →
    log.Readable (messages.filter (·.roomId = roomId)) m) (beforeLsn : Option Nat)
    (hlimit : 0 < limit) :
    IsTop Message.lsn (underCursor messages roomId beforeLsn) (log.latest roomId beforeLsn limit).reverse ∧
    (log.latest roomId beforeLsn limit = [] → underCursor messages roomId beforeLsn = []) := by
  have hlsns : (projected.map Message.lsn).Nodup := hlogs.lsns_of hlogs.projected.1 hlogs.projected.2
  have hprojected : log.projection.latest roomId beforeLsn limit =
      (newest Message.lsn limit (underCursor projected roomId beforeLsn)).reverse :=
    h.projection.latest (hlogs.identified_of hlogs.projected.1 hlogs.projected.2) hlsns (fun m hm =>
      hlogs.bound m (hlogs.projected.2 m hm)) (fun m hm => halone m (hlogs.projected.2 m hm)) beforeLsn hlimit
  have htop := @isTop_newest _ _ _ Message.lsn (underCursor projected roomId beforeLsn)
    (hlsns.sublist ((filter_sublist.trans filter_sublist).map _)) limit
  have hroomOf : ∀ m ∈ messages, m.roomId = roomId → m ∈ messages.filter (·.roomId = roomId) :=
    fun m hm hroom => mem_filter.mpr ⟨hm, decide_eq_true hroom⟩
  by_cases hempty : newest Message.lsn limit (underCursor projected roomId beforeLsn) = []
  · have hnone : underCursor projected roomId beforeLsn = [] := newest_eq_nil hlimit hempty
    rw [hempty, reverse_nil] at hprojected
    refine h.latest_unprojected hlogs hlimit hprojected fun m hm => ?_
    obtain ⟨hmem, hroom, hb⟩ := mem_underCursor.mp hm
    rcases hreadable m hmem hroom with hp | ⟨hin, hold⟩
    · have := mem_underCursor.mpr ⟨(h.projected_iff m).mp hp, hroom, hb⟩
      rw [hnone] at this
      cases this
    · rw [h.buckets] at hin
      refine ⟨(mem_filter.mp hin).1, fun m' hm' hlt => ?_⟩
      obtain ⟨hmem', hroom', -⟩ := mem_underCursor.mp hm'
      exact (hold m' (hroomOf m' hmem' hroom') hlt).2
  · have hread : log.latest roomId beforeLsn limit =
        (newest Message.lsn limit (underCursor projected roomId beforeLsn)).reverse := by
      have hfull : (newest Message.lsn limit (underCursor projected roomId beforeLsn)).reverse.isEmpty = false :=
        isEmpty_eq_false_iff.mpr fun he => hempty (reverse_eq_nil_iff.mp he)
      rw [ChatLog.latest, if_neg hlimit.ne', hprojected]
      dsimp only
      rw [hfull]
      cases log.rooms[roomId]? <;> rfl
    rw [hread, reverse_reverse]
    refine ⟨⟨htop.ascending, fun m hm => ?_, fun m hm m' hm' hlt => ?_⟩,
      fun he => absurd (reverse_eq_nil_iff.mp he) hempty⟩
    · obtain ⟨hp, hroom, hb⟩ := mem_underCursor.mp (htop.subset m hm)
      exact mem_underCursor.mpr ⟨hlogs.projected.2 m hp, hroom, hb⟩
    · obtain ⟨hp, hroom, hb⟩ := mem_underCursor.mp (htop.subset m hm)
      obtain ⟨hmem', hroom', hb'⟩ := mem_underCursor.mp hm'
      rcases hreadable m' hmem' hroom' with hp' | ⟨-, hold⟩
      · exact htop.upward m hm m' (mem_underCursor.mpr ⟨(h.projected_iff m').mp hp', hroom', hb'⟩) hlt
      · exact absurd ((h.projected_iff m).mpr hp) (hold m (hroomOf m (hlogs.projected.2 m hp) hroom) hlt).1

end Read

end NextDb.Chat
