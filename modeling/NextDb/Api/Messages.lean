import NextDb.Actor.Window
import NextDb.Chat.Log
import NextDb.Lib.Run

/-!
# The latest messages of a room

Messages are sent to rooms, rooms are evicted, and the latest messages are read: from
the hot window when it has enough of them, and otherwise together with the chat log. What
is read from the log is written back to the room.

The state holds, beside what the server holds, the messages sent so far.

* `latestMessages_newest`: a read answers the newest messages of the room below the
  cursor, in every run in which what is written to a hot window goes on from it without a
  gap and without a message twice, or finds no place in it.
-/

namespace NextDb.Api.Messages

open Run Actor Chat Newest List Std.ExtHashMap

structure MessagesQuery where
  beforeLsn : Option Nat
  limit : Option Nat

structure MessagesResponse where
  roomId : String
  source : String
  messages : List Message

def normalizeLimit (limit : Option Nat) : Nat := max 1 (min (limit.getD 50) 500)

/-- `ActorRuntime::latest_messages`. -/
def hotMessages (rooms : HashMap String RoomLiveState) (roomId : String) (beforeLsn : Option Nat)
    (limit : Nat) : List Message :=
  (rooms[roomId]?).elim [] fun room =>
    match beforeLsn with
    | some beforeLsn => room.before beforeLsn limit
    | none => room.latest limit

variable (sort : MessageSort) (hotWindow : Nat)

/-- `ActorRuntime::apply_messages`: the batches of the rooms. -/
def applyMessages (rooms : HashMap String RoomLiveState) (messages : List Message) :
    HashMap String RoomLiveState :=
  (messages.map Message.roomId).dedup.foldl (fun rooms roomId =>
    rooms.insert roomId ((rooms.getD roomId .new).applyMessages sort
      (messages.filter (·.roomId = roomId)) hotWindow)) rooms

/-- The messages, each id once, until there are `limit`. -/
def mergeMessages (limit : Nat) : List Message → List Message → List Message
  | [], merged => merged
  | message :: rest, merged =>
    if merged.any (·.id = message.id) then mergeMessages limit rest merged
    else if limit ≤ (merged ++ [message]).length then merged ++ [message]
    else mergeMessages limit rest (merged ++ [message])

/-- The answer, and the rooms with what is written back. -/
def latestMessages (chatLog : ChatLog) (rooms : HashMap String RoomLiveState) (roomId : String)
    (query : MessagesQuery) : MessagesResponse × HashMap String RoomLiveState :=
  let limit := normalizeLimit query.limit
  let hot := hotMessages rooms roomId query.beforeLsn limit
  if limit ≤ hot.length then (⟨roomId, "live", hot⟩, rooms)
  else
    let messages := chatLog.latest roomId query.beforeLsn limit
    if ¬ hot.isEmpty then
      let merged := mergeMessages limit (hot ++ messages) []
      (⟨roomId, "live", merged⟩, applyMessages sort hotWindow rooms merged)
    else (⟨roomId, "chatLog", messages⟩, applyMessages sort hotWindow rooms messages)

/-! ## The server -/

/-- The chat log, the windows of the rooms, and what was sent. -/
structure MessagesState where
  chatLog : ChatLog
  rooms : HashMap String RoomLiveState
  /-- The messages sent so far, the volatile ones too. -/
  sent : List Message

/-- Sends, evictions and reads. -/
inductive MessagesEvent where
  | sendMessage (message : Message)
  | sendMessages (roomId : String) (messages : List Message)
  | sendVolatile (roomId : String) (messages : List Message)
  | evict (rooms : List String)
  | read (roomId : String) (query : MessagesQuery)

/-- The logged messages of a room. -/
def MessagesState.history (s : MessagesState) (roomId : String) : List Message :=
  (logged s.sent).filter (·.roomId = roomId)

def MessagesState.window (s : MessagesState) (roomId : String) : List Message :=
  (s.rooms.getD roomId .new).messages

/-- Messages of a room, with ids that were made for them. -/
structure Sends (s : MessagesState) (roomId : String) (messages : List Message) : Prop where
  nonempty : messages ≠ []
  room : ∀ m ∈ messages, m.roomId = roomId
  identified : Identified (s.sent ++ messages)

/-- LSNs are allocated in order, above all that were allocated before. -/
structure Logs (s : MessagesState) (messages : List Message) : Prop where
  ascending : Ascending Message.lsn messages
  above : ∀ m ∈ s.sent, ∀ m' ∈ messages, m.lsn < m'.lsn
  durable : Durable messages
  bound : ∀ m ∈ messages, m.lsn ≤ u64Max

/-- What each event does to the windows and the chat log. -/
inductive MessagesStep : MessagesState → MessagesEvent → MessagesState → Prop where
  | sendMessage {s message} : Sends s message.roomId [message] → Logs s [message] →
    MessagesStep s (.sendMessage message)
      { chatLog := s.chatLog.append message
        rooms := applyToRooms sort hotWindow s.rooms message
        sent := s.sent ++ [message] }
  | sendMessages {s roomId messages} : Sends s roomId messages → Logs s messages →
    MessagesStep s (.sendMessages roomId messages)
      { chatLog := s.chatLog.appendMany messages
        rooms := applyMessages sort hotWindow s.rooms messages
        sent := s.sent ++ messages }
  | sendVolatile {s roomId messages} : Sends s roomId messages → (∀ m ∈ messages, m.lsn = 0) →
    MessagesStep s (.sendVolatile roomId messages)
      { s with
        rooms := applyMessages sort hotWindow s.rooms messages
        sent := s.sent ++ messages }
  | evict {s rooms} : MessagesStep s (.evict rooms)
      { s with rooms := s.rooms.filter fun room _ => room ∉ rooms }
  | read {s roomId query} : MessagesStep s (.read roomId query)
      { s with rooms := (latestMessages sort hotWindow s.chatLog s.rooms roomId query).2 }

/-! ## What is written to a hot window -/

/-- The logged messages of the room below the cursor. -/
def MessagesState.under (s : MessagesState) (roomId : String) (query : MessagesQuery) :
    List Message :=
  (s.history roomId).filter (below query.beforeLsn)

/-- The newest of them, the newest first. -/
def MessagesState.page (s : MessagesState) (roomId : String) (query : MessagesQuery) :
    List Message :=
  (newest Message.lsn (normalizeLimit query.limit) (s.under roomId query)).reverse

/-- What the hot window has for a read. -/
def MessagesState.hot (s : MessagesState) (roomId : String) (query : MessagesQuery) :
    List Message :=
  hotMessages s.rooms roomId query.beforeLsn (normalizeLimit query.limit)

/-- The newest logged messages that a read lacks. -/
def MessagesState.backfill (s : MessagesState) (roomId : String) (query : MessagesQuery) :
    List Message :=
  ((s.page roomId query).filter (· ∉ s.hot roomId query)).take
    (normalizeLimit query.limit - (s.hot roomId query).dedup.length)

/-- The hot window has enough for the read, or no key of another room begins with the
room's prefix. -/
def ReadsRoom (s : MessagesState) (roomId : String) (query : MessagesQuery) : Prop :=
  normalizeLimit query.limit ≤ (s.hot roomId query).length ∨ Alone (logged s.sent) roomId

/-- The hot window has no logged message below the cursor, and all others. -/
def GoesOn (s : MessagesState) (roomId : String) (query : MessagesQuery) : Prop :=
  logged (s.hot roomId query) = [] ∧ ∀ m ∈ s.history roomId, ¬ below query.beforeLsn m → m ∈ s.window roomId

/-- The hot window is full with messages above the newest one below the cursor, and with
that one where it has it. A volatile message that was read counts twice: it is written
again. -/
def Full (s : MessagesState) (roomId : String) (query : MessagesQuery) : Prop :=
  ∃ m ∈ s.under roomId query, (∀ m' ∈ s.under roomId query, m'.lsn ≤ m.lsn) ∧
    hotWindow ≤ ((s.window roomId ++ (s.hot roomId query).dedup).countP fun m' => !messageLe m' m) +
      if m ∈ s.window roomId then 1 else 0

/-- A read whose answer comes from the hot window, or is empty, or can be sorted into the
hot window and goes on from it or finds no place in it. -/
def ReadKeeps (s : MessagesState) (roomId : String) (query : MessagesQuery) : Prop :=
  normalizeLimit query.limit ≤ (s.hot roomId query).length ∨ Alone (logged s.sent) roomId ∧
      (s.hot roomId query = [] ∧ s.under roomId query = [] ∨ Ordered (s.window roomId ++ s.backfill roomId query) ∧
          (GoesOn s roomId query ∨ Full hotWindow s roomId query))

/-- The messages are behind the hot window, or can be sorted into it. -/
def SendKeeps (s : MessagesState) (roomId : String) (messages : List Message) : Prop :=
  (s.rooms.getD roomId .new).canAppendInOrder messages ∨ Ordered (s.window roomId ++ messages)

/-- What is sent or read goes on from the window. -/
def KeepsWindow (s : MessagesState) : MessagesEvent → Prop
  | .sendMessage message => SendKeeps s message.roomId [message]
  | .sendMessages roomId messages => SendKeeps s roomId messages
  | .sendVolatile roomId messages => SendKeeps s roomId messages
  | .evict _ => True
  | .read roomId query => ReadKeeps hotWindow s roomId query

/-- A server whose chat log has all messages, and whose rooms have the newest. -/
structure Started (s : MessagesState) : Prop where
  chatLog : ∃ batches : List (List Message),
    s.chatLog = batches.foldl ChatLog.appendMany .new ∧ s.sent = batches.flatten
  durable : Durable s.sent
  identified : Identified s.sent
  lsns : (s.sent.map Message.lsn).Nodup
  bound : ∀ m ∈ s.sent, m.lsn ≤ u64Max
  resident : ∀ roomId room, s.rooms[roomId]? = some room →
    room.messages = newest Message.lsn hotWindow (s.history roomId)

/-! ## The hot part of a read -/

variable {sort hotWindow}

/-- What of a window a read can take. -/
def windowPart (beforeLsn : Option Nat) (window : List Message) : List Message :=
  if beforeLsn.isSome then (logged window).filter (below beforeLsn) else window

theorem hotMessages_eq (rooms : HashMap String RoomLiveState) (roomId : String)
    (beforeLsn : Option Nat) (limit : Nat) :
    hotMessages rooms roomId beforeLsn limit =
    ((windowPart beforeLsn (rooms.getD roomId .new).messages).rtake limit).reverse := by
  rw [hotMessages, getD_eq_getD_getElem?, rtake_eq_reverse_take_reverse, reverse_reverse]
  cases hroom : rooms[roomId]? with
  | none => cases beforeLsn <;> simp [windowPart, RoomLiveState.new, logged]
  | some room =>
    cases beforeLsn with
    | none => rfl
    | some before =>
      have hfilter : (logged room.messages).filter (below (some before)) = room.messages.filter fun m => m.lsn > 0 ∧
          m.lsn < before := by
        rw [logged, filter_filter]
        refine filter_congr fun m _ => ?_
        simp [below, and_comm]
      show room.before before limit = ((logged room.messages).filter (below (some before))).reverse.take limit
      rw [hfilter, ← filter_reverse]
      rfl

theorem windowPart_sublist (beforeLsn : Option Nat) (window : List Message) :
    (windowPart beforeLsn window).Sublist window := by
  unfold windowPart
  split
  · exact filter_sublist.trans filter_sublist
  · exact .refl _

theorem logged_windowPart (beforeLsn : Option Nat) (window : List Message) :
    logged (windowPart beforeLsn window) = (logged window).filter (below beforeLsn) := by
  unfold windowPart
  cases beforeLsn with
  | none => exact (filter_eq_self.mpr fun _ _ => rfl).symm
  | some before =>
    show logged ((logged window).filter (below (some before))) = _
    exact filter_eq_self.mpr fun m hm => by simpa using (mem_logged.mp (mem_filter.mp hm).1).2

/-! ## Merging -/

/-- Messages that are told by their ids, each once. -/
theorem mergeMessages_append {limit : Nat} (messages rest : List Message) {merged : List Message}
    (hid : ∀ m ∈ merged ++ messages, ∀ m' ∈ merged ++ messages, m.id = m'.id → m = m')
    (hn : merged.Nodup)
    (hlen : merged.length + messages.length < limit) :
    ∃ merged', mergeMessages limit (messages ++ rest) merged =
    mergeMessages limit rest merged' ∧ merged'.Nodup ∧
    (∀ m, m ∈ merged' ↔ m ∈ merged ∨ m ∈ messages) ∧
    merged'.length ≤ merged.length + messages.length ∧
    ((merged ++ messages).Nodup → merged' = merged ++ messages) := by
  induction messages generalizing merged with
  | nil => exact ⟨merged, rfl, hn, by simp, by simp, fun _ => by simp⟩
  | cons m messages ih =>
    rw [length_cons] at hlen
    rw [cons_append, mergeMessages]
    by_cases hold : merged.any (·.id = m.id)
    · rw [if_pos hold]
      obtain ⟨m', hm', he⟩ := any_eq_true.mp hold
      have hmem : m ∈ merged :=
        hid m' (by simp [hm']) m (by simp) (by simpa using he) ▸ hm'
      obtain ⟨merged', heq, hn', hmem', hlen', -⟩ :=
        ih (fun a ha b hb => hid a (by simp at ha ⊢; tauto) b (by simp at hb ⊢; tauto)) hn (by omega)
      refine ⟨merged', heq, hn', fun a => ?_, by rw [length_cons]; omega, fun hnodup => ?_⟩
      · rw [hmem', mem_cons]
        exact ⟨Or.imp_right .inr, fun h => h.elim .inl fun h => h.elim (fun he => .inl (he ▸ hmem)) .inr⟩
      · exact absurd rfl ((nodup_append.mp hnodup).2.2 m hmem m mem_cons_self)
    · have hnew : m ∉ merged := fun hmem => hold (any_eq_true.mpr ⟨m, hmem, by simp⟩)
      rw [if_neg hold, if_neg (by rw [length_append, length_singleton]; omega)]
      obtain ⟨merged', heq, hn', hmem', hlen', hsame⟩ := @ih (merged ++ [m]) (fun a ha b hb =>
        hid a (by simpa using ha) b (by simpa using hb)) (nodup_append.mpr ⟨hn, nodup_singleton m, fun a ha b hb he =>
          hnew (mem_singleton.mp hb ▸ he ▸ ha)⟩)
        (by rw [length_append, length_singleton]; omega)
      refine ⟨merged', heq, hn', fun a => ?_, ?_, fun hnodup => ?_⟩
      · rw [hmem', mem_append, mem_singleton, mem_cons, or_assoc]
      · rw [length_append, length_singleton] at hlen'
        rw [length_cons]
        omega
      · rw [hsame (by simpa using hnodup), append_assoc, singleton_append]

variable {merged : List Message} {s : MessagesState} {roomId : String} {m : Message}
    {query : MessagesQuery}

/-- Behind what was merged come the messages that are not among it. -/
theorem mergeMessages_of_nodup {limit : Nat} (messages : List Message)
    (hid : ∀ m ∈ merged ++ messages,
    ∀ m' ∈ merged ++ messages, m.id = m'.id → m = m') (hn : messages.Nodup)
    (hlen : merged.length < limit) :
    mergeMessages limit messages merged =
    merged ++ (messages.filter (· ∉ merged)).take (limit - merged.length) := by
  induction messages generalizing merged with
  | nil => simp [mergeMessages]
  | cons m messages ih =>
    obtain ⟨hnot, hn⟩ := nodup_cons.mp hn
    rw [mergeMessages]
    by_cases hold : merged.any (·.id = m.id)
    · obtain ⟨m', hm', he⟩ := any_eq_true.mp hold
      have hmem : m ∈ merged :=
        hid m' (by simp [hm']) m (by simp) (by simpa using he) ▸ hm'
      rw [if_pos hold, filter_cons_of_neg (by simpa using hmem)]
      exact ih (fun a ha b hb => hid a (by simp at ha ⊢; tauto) b (by simp at hb ⊢; tauto)) hn hlen
    · have hnew : m ∉ merged := fun hmem => hold (any_eq_true.mpr ⟨m, hmem, by simp⟩)
      obtain ⟨k, hk⟩ := Nat.exists_eq_succ_of_ne_zero (Nat.sub_ne_zero_of_lt hlen)
      rw [if_neg hold, filter_cons_of_pos (by simpa using hnew), hk, take_succ_cons]
      split
      · next hfull =>
        rw [length_append, length_singleton] at hfull
        rw [show k = 0 by omega, take_zero]
      · next hfull =>
        have hrest : messages.filter (· ∉ merged ++ [m]) = messages.filter (· ∉ merged) := by
          refine filter_congr fun a ha => ?_
          have : a ≠ m := fun he => hnot (he ▸ ha)
          simp [this]
        rw [ih (fun a ha b hb => hid a (by simpa using ha) b (by simpa using hb)) hn (Nat.not_le.mp hfull), hrest,
          length_append, length_singleton,
          show limit - (merged.length + 1) = k by omega, append_assoc, singleton_append]

/-! ## The invariant -/

/-- The chat log has what was logged, and each window the newest of its room. -/
structure MessagesInv (s : MessagesState) : Prop where
  chatLog : s.chatLog.Holds (logged s.sent)
  identified : Identified s.sent
  lsns : ((logged s.sent).map Message.lsn).Nodup
  bound : ∀ m ∈ s.sent, m.lsn ≤ u64Max
  window : ∀ roomId, WindowHolds (s.history roomId) (s.window roomId)
  sent : ∀ roomId, ∀ m ∈ s.window roomId, m ∈ s.sent ∧ m.roomId = roomId

theorem MessagesInv.history_nodup (h : MessagesInv s) (roomId : String) :
    ((s.history roomId).map Message.lsn).Nodup := h.lsns.sublist (filter_sublist.map _)

theorem MessagesInv.under_nodup (h : MessagesInv s) (roomId : String) (query : MessagesQuery) :
    ((s.under roomId query).map Message.lsn).Nodup :=
  (h.history_nodup roomId).sublist (filter_sublist.map _)

theorem mem_history : m ∈ s.history roomId ↔ m ∈ s.sent ∧ 0 < m.lsn ∧ m.roomId = roomId := by
  rw [MessagesState.history, mem_filter, mem_logged, decide_eq_true_eq, and_assoc]

theorem mem_under : m ∈ s.under roomId query ↔ m ∈ s.history roomId ∧ below query.beforeLsn m :=
  mem_filter

theorem normalizeLimit_pos (limit : Option Nat) : 0 < normalizeLimit limit := by
  unfold normalizeLimit
  omega

/-- What the chat log has for a read. -/
theorem MessagesInv.latest (h : MessagesInv s) (halone : Alone (logged s.sent) roomId)
    (query : MessagesQuery) :
    s.chatLog.latest roomId query.beforeLsn (normalizeLimit query.limit) = s.page roomId query :=
  h.chatLog.latest (h.identified.sublist filter_sublist) h.lsns (fun m hm => h.bound m (mem_logged.mp hm).1) halone
    query.beforeLsn (normalizeLimit_pos _)

section Page

variable {s : MessagesState} (h : MessagesInv s) (roomId : String) (query : MessagesQuery)

include h

theorem MessagesInv.isTop_page :
    IsTop Message.lsn (s.under roomId query) (s.page roomId query).reverse := by
  rw [MessagesState.page, reverse_reverse]
  exact isTop_newest (h.under_nodup roomId query) _

theorem MessagesInv.page_nodup : (s.page roomId query).Nodup :=
  nodup_reverse.mp (Nodup.of_map _ (h.isTop_page roomId query).ascending.nodup)

theorem MessagesInv.mem_page (hm : m ∈ s.page roomId query) : m ∈ s.under roomId query :=
  (h.isTop_page roomId query).subset m (mem_reverse.mpr hm)

end Page

theorem length_page (s : MessagesState) (roomId : String) (query : MessagesQuery) :
    (s.page roomId query).length =
    min (normalizeLimit query.limit) (s.under roomId query).length := by
  rw [MessagesState.page, length_reverse, length_newest]

theorem hot_eq (s : MessagesState) (roomId : String) (query : MessagesQuery) :
    s.hot roomId query =
    ((windowPart query.beforeLsn (s.window roomId)).rtake (normalizeLimit query.limit)).reverse :=
  hotMessages_eq ..

theorem hot_eq_of_lt (hlt : (s.hot roomId query).length < normalizeLimit query.limit) :
    s.hot roomId query = (windowPart query.beforeLsn (s.window roomId)).reverse := by
  rw [hot_eq] at hlt ⊢
  rw [length_reverse, rtake, length_drop] at hlt
  rw [rtake, show (windowPart query.beforeLsn (s.window roomId)).length -
    normalizeLimit query.limit = 0 by omega, drop_zero]

theorem mem_hot (hm : m ∈ s.hot roomId query) :
    m ∈ windowPart query.beforeLsn (s.window roomId) := by
  rw [hot_eq, mem_reverse] at hm
  exact mem_of_mem_drop hm

theorem mem_window_of_hot (hm : m ∈ s.hot roomId query) : m ∈ s.window roomId :=
  (windowPart_sublist _ _).subset (mem_hot hm)

theorem MessagesInv.isTop_part (h : MessagesInv s) (roomId : String) (query : MessagesQuery) :
    IsTop Message.lsn (s.under roomId query) (logged (windowPart query.beforeLsn (s.window roomId))) := by
  rw [logged_windowPart]
  exact (h.window roomId).top.filter _

theorem MessagesInv.mem_under_of_hot (h : MessagesInv s) (hm : m ∈ s.hot roomId query)
    (hpos : 0 < m.lsn) :
    m ∈ s.under roomId query :=
  (h.isTop_part roomId query).subset m (mem_logged.mpr ⟨mem_hot hm, hpos⟩)

theorem MessagesInv.hot_eq_page (h : MessagesInv s)
    (hle : normalizeLimit query.limit ≤ (s.hot roomId query).length)
    (hdurable : Durable (s.hot roomId query)) : s.hot roomId query = s.page roomId query := by
  rw [hot_eq] at hle hdurable ⊢
  rw [MessagesState.page, reverse_inj]
  let part := windowPart query.beforeLsn (s.window roomId)
  have hd : Durable (part.rtake (normalizeLimit query.limit)) := fun m hm => hdurable m (mem_reverse.mpr hm)
  have hs : part.rtake (normalizeLimit query.limit) <:+ logged part := by
    have := (drop_suffix (part.length - normalizeLimit query.limit) part).filter (0 < ·.lsn)
    rwa [← rtake, ← logged, ← logged, logged_of_durable hd] at this
  have htop := ((h.isTop_part roomId query).of_suffix hs).eq_newest (h.under_nodup roomId query)
  have hlen : (part.rtake (normalizeLimit query.limit)).length = normalizeLimit query.limit := by
    rw [length_reverse] at hle
    refine le_antisymm ?_ hle
    rw [rtake, length_drop]
    omega
  rwa [hlen] at htop

/-- A read that the hot window has enough for. -/
theorem latestMessages_of_ge {s : MessagesState}
    {roomId : String} {query : MessagesQuery}
    (hge : normalizeLimit query.limit ≤ (s.hot roomId query).length) :
    latestMessages sort hotWindow s.chatLog s.rooms roomId query =
    (⟨roomId, "live", s.hot roomId query⟩, s.rooms) := if_pos hge

/-- What a read answers from the chat log: what the hot window has, and what that lacks. -/
theorem MessagesInv.latestMessages_of_lt {s : MessagesState} (h : MessagesInv s) {roomId : String}
    {query : MessagesQuery} (halone : Alone (logged s.sent) roomId)
    (hlt : (s.hot roomId query).length < normalizeLimit query.limit) : ∃ merged :
    List Message, merged.Perm (s.hot roomId query).dedup ∧
    ((s.hot roomId query).Nodup → merged = s.hot roomId query) ∧
    latestMessages sort hotWindow s.chatLog s.rooms roomId query =
    (⟨roomId, if (s.hot roomId query).isEmpty then "chatLog" else "live",
    merged ++ s.backfill roomId query⟩,
    applyMessages sort hotWindow s.rooms (merged ++ s.backfill roomId query)) := by
  have hpage := h.latest halone query
  have hbackfill : s.hot roomId query = [] → s.backfill roomId query = s.page roomId query := by
    intro hempty
    have hlen := length_page s roomId query
    rw [MessagesState.backfill, hempty, filter_eq_self.mpr (by simp)]
    exact take_of_length_le (by simp; omega)
  unfold latestMessages
  dsimp only
  rw [← MessagesState.hot, if_neg (Nat.not_le.mpr hlt), hpage]
  by_cases hempty : s.hot roomId query = []
  · refine ⟨[], by simp [hempty], fun _ => hempty.symm, ?_⟩
    simp [hempty, hbackfill hempty]
  · have hid : ∀ m ∈ s.hot roomId query ++ s.page roomId query, m ∈ s.sent := by
      intro m hm
      rcases mem_append.mp hm with hm | hm
      · exact (h.sent roomId m (mem_window_of_hot hm)).1
      · exact (mem_history.mp (mem_under.mp (h.mem_page roomId query hm)).1).1
    obtain ⟨merged, heq, hn, hmem, -, hsame⟩ :=
      @mergeMessages_append (normalizeLimit query.limit) (s.hot roomId query) (s.page roomId query) [] (fun a ha b hb =>
      h.identified.ext (hid a (mem_append_left _ ha)) (hid b (mem_append_left _ hb))) nodup_nil (by simpa using hlt)
    have hperm : merged.Perm (s.hot roomId query).dedup :=
      (perm_ext_iff_of_nodup hn (nodup_dedup _)).mpr fun m => by
        rw [hmem, mem_dedup]
        simp
    have hsent : ∀ m ∈ merged ++ s.page roomId query, m ∈ s.sent := fun m hm =>
      hid m ((mem_append.mp hm).elim (fun hm => mem_append_left _ (((hmem m).mp hm).resolve_left not_mem_nil))
        (fun hm => mem_append_right _ hm))
    refine ⟨merged, hperm, fun hnodup => hsame hnodup, ?_⟩
    have hfilter : (s.page roomId query).filter (· ∉ merged) = (s.page roomId query).filter (· ∉ s.hot roomId query) :=
      filter_congr fun m _ => by simp [hmem m]
    have hlen : merged.length < normalizeLimit query.limit := by
      rw [hperm.length_eq]
      exact (dedup_sublist _).length_le.trans_lt hlt
    rw [if_pos (by simpa using hempty), heq, mergeMessages_of_nodup _ (fun a ha b hb => h.identified.ext (hsent a ha)
      (hsent b hb)) (h.page_nodup roomId query) hlen, hfilter, hperm.length_eq, if_neg (by simpa using hempty)]
    rfl

/-- The hot window has the newest part of the page. -/
theorem MessagesInv.page_eq (h : MessagesInv s)
    (hlt : (s.hot roomId query).length < normalizeLimit query.limit)
    (hdurable : Durable (s.hot roomId query)) :
    ∃ rest, s.page roomId query = s.hot roomId query ++ rest ∧ (s.hot roomId query).Nodup := by
  let part := windowPart query.beforeLsn (s.window roomId)
  have hhot : s.hot roomId query = part.reverse := hot_eq_of_lt hlt
  have hd : Durable part := fun m hm => hdurable m (hhot ▸ mem_reverse.mpr hm)
  have htop : IsTop Message.lsn (s.under roomId query) part := logged_of_durable hd ▸ h.isTop_part roomId query
  have hnodup : part.Nodup := Nodup.of_map _ htop.ascending.nodup
  have hlen : part.length ≤ (s.page roomId query).reverse.length := by
    have hunder := (subperm_of_subset hnodup fun m hm => htop.subset m hm).length_le
    rw [hhot, length_reverse] at hlt
    rw [length_reverse, length_page]
    omega
  obtain ⟨rest, hrest⟩ :=
    htop.suffix (h.isTop_page roomId query) (h.under_nodup roomId query) hlen
  refine ⟨rest.reverse, ?_, hhot ▸ nodup_reverse.mpr hnodup⟩
  rw [hhot, ← reverse_append, hrest, reverse_reverse]

/-- A read of a right window answers the newest messages below the cursor. -/
theorem MessagesInv.latestMessages (h : MessagesInv s) (hroom : ReadsRoom s roomId query)
    (hdurable : Durable (latestMessages sort hotWindow s.chatLog s.rooms roomId query).1.messages) :
    (latestMessages sort hotWindow s.chatLog s.rooms roomId query).1.messages =
    s.page roomId query := by
  rcases Nat.lt_or_ge (s.hot roomId query).length (normalizeLimit query.limit) with hlt | hge
  · obtain ⟨merged, hperm, hsame, hanswer⟩ :=
      @latestMessages_of_lt sort hotWindow s h roomId query (hroom.resolve_left (Nat.not_le.mpr hlt)) hlt
    rw [hanswer] at hdurable ⊢
    have hd : Durable (s.hot roomId query) := fun m hm =>
      hdurable m (mem_append_left _ (hperm.mem_iff.mpr (mem_dedup.mpr hm)))
    obtain ⟨rest, hpage, hnodup⟩ := h.page_eq hlt hd
    have hdisjoint := hpage ▸ h.page_nodup roomId query
    have hrest : (s.page roomId query).filter (· ∉ s.hot roomId query) = rest := by
      rw [hpage, filter_append, filter_eq_nil_iff.mpr (by simp), nil_append]
      exact filter_eq_self.mpr fun m hm => by
        simpa using fun hmem => (nodup_append.mp hdisjoint).2.2 m hmem m hm rfl
    have hlen := length_page s roomId query
    rw [hpage, length_append] at hlen
    show merged ++ s.backfill roomId query = _
    rw [hsame hnodup, MessagesState.backfill, hrest, hnodup.dedup, take_of_length_le (by omega), hpage]
  · rw [latestMessages_of_ge hge] at hdurable ⊢
    exact h.hot_eq_page hge hdurable

/-- Where all messages are logged, an answer holds logged messages only. -/
theorem MessagesInv.durable_latestMessages (h : MessagesInv s)
    (halone : Alone (logged s.sent) roomId) (hdurable : Durable s.sent) :
    Durable (Messages.latestMessages sort hotWindow s.chatLog s.rooms roomId query).1.messages := by
  have hhot : Durable (s.hot roomId query) := fun m hm => hdurable m (h.sent roomId m (mem_window_of_hot hm)).1
  rcases Nat.lt_or_ge (s.hot roomId query).length (normalizeLimit query.limit) with hlt | hge
  · obtain ⟨merged, hperm, -, hanswer⟩ := @latestMessages_of_lt sort hotWindow s h roomId query halone hlt
    rw [hanswer]
    refine Durable.append.mpr ⟨fun m hm => hhot m (mem_dedup.mp (hperm.mem_iff.mp hm)), fun m hm => ?_⟩
    exact (mem_history.mp (mem_under.mp (h.mem_page roomId query (mem_filter.mp (mem_of_mem_take hm)).1)).1).2.1
  · rw [latestMessages_of_ge hge]
    exact hhot

/-! ## What a step keeps -/

theorem applyMessages_nil (rooms : HashMap String RoomLiveState) :
    applyMessages sort hotWindow rooms [] = rooms := rfl

/-- Messages of one room go to it. -/
theorem applyMessages_room {rooms : HashMap String RoomLiveState} {roomId : String}
    {messages : List Message}
    (hne : messages ≠ []) (hroom : ∀ m ∈ messages, m.roomId = roomId) :
    applyMessages sort hotWindow rooms messages =
    rooms.insert roomId ((rooms.getD roomId .new).applyMessages sort messages hotWindow) := by
  have hids : messages.map Message.roomId = replicate messages.length roomId :=
    eq_replicate_iff.mpr ⟨length_map _, fun id hid => by
      obtain ⟨m, hm, rfl⟩ := mem_map.mp hid
      exact hroom m hm⟩
  rw [applyMessages, hids, replicate_dedup (by simpa using hne), foldl_cons, foldl_nil,
    filter_eq_self.mpr fun m hm => by simpa using hroom m hm]

variable {room : RoomLiveState} {messages : List Message}

theorem mem_applyMessages (hm : m ∈ (room.applyMessages sort messages hotWindow).messages) :
    m ∈ room.messages ∨ m ∈ messages := by
  unfold RoomLiveState.applyMessages at hm
  split at hm
  · exact .inl hm
  · have hm := mem_of_mem_drop hm
    dsimp only at hm
    split at hm
    · exact mem_append.mp hm
    · exact mem_append.mp ((sort.perm _).mem_iff.mp hm)

/-- The rooms after a batch for one of them. -/
theorem window_insert (chatLog : ChatLog) (sent : List Message) (other : String) :
    (⟨chatLog, s.rooms.insert roomId room, sent⟩ : MessagesState).window other = if roomId =
    other then
    room.messages else s.window other := by
  rw [MessagesState.window, getD_insert]
  by_cases he : roomId = other
  · simp [he]
  · simp [he, MessagesState.window]

/-- A batch for a room, with the messages that are sent in it. -/
theorem MessagesInv.applyMessages {s : MessagesState} (h : MessagesInv s) {roomId : String}
    {batch new : List Message}
    {chatLog : ChatLog} (hne : batch ≠ []) (hchatLog : chatLog.Holds (logged (s.sent ++ new)))
    (hid : Identified (s.sent ++ new)) (hlsns : ((logged (s.sent ++ new)).map Message.lsn).Nodup)
    (hbound : ∀ m ∈ new, m.lsn ≤ u64Max) (hnew : ∀ m ∈ new, m.roomId = roomId)
    (hbatch : ∀ m ∈ batch, m ∈ s.sent ++ new ∧ m.roomId = roomId) (hwindow : WindowHolds
    (s.history roomId ++ logged new) ((s.rooms.getD roomId .new).applyMessages sort batch hotWindow).messages) :
    MessagesInv ⟨chatLog, applyMessages sort hotWindow s.rooms batch, s.sent ++ new⟩ := by
  rw [applyMessages_room hne fun m hm => (hbatch m hm).2]
  have hhistory : ∀ other,
      (⟨chatLog, s.rooms.insert roomId ((s.rooms.getD roomId .new).applyMessages sort batch hotWindow), s.sent ++ new⟩ :
      MessagesState).history
        other = if roomId = other then s.history roomId ++ logged new else s.history other := by
    intro other
    rw [MessagesState.history, logged_append, filter_append]
    split
    · next he =>
      rw [he]
      congr 1
      exact filter_eq_self.mpr fun m hm => by simpa using (hnew m (mem_logged.mp hm).1).trans he
    · next hother =>
      have hnone : (logged new).filter (·.roomId = other) = [] := filter_eq_nil_iff.mpr fun m hm => by
        rw [hnew m (mem_logged.mp hm).1]
        simpa using hother
      rw [hnone, append_nil]
      rfl
  refine ⟨hchatLog, hid, hlsns, fun m hm => ?_, fun other => ?_, fun other m hm => ?_⟩
  · exact (mem_append.mp hm).elim (h.bound m) (hbound m)
  · rw [hhistory, window_insert]
    split
    · exact hwindow
    · exact h.window other
  · rw [window_insert] at hm
    split at hm
    · next he =>
      rcases mem_applyMessages hm with hm | hm
      · exact ⟨mem_append_left _ (h.sent roomId m hm).1, (h.sent roomId m hm).2.trans he⟩
      · exact ⟨(hbatch m hm).1, (hbatch m hm).2.trans he⟩
    · exact ⟨mem_append_left _ (h.sent other m hm).1, (h.sent other m hm).2⟩

/-- Sending messages, which are all logged or all volatile. -/
theorem MessagesInv.send {s : MessagesState} (h : MessagesInv s) {roomId : String}
    {messages : List Message}
    {chatLog : ChatLog} (hsends : Sends s roomId messages) (hkeeps : SendKeeps s roomId messages)
    (hchatLog : chatLog.Holds (logged (s.sent ++ messages)))
    (hnew : Ascending Message.lsn (logged messages))
    (habove : ∀ m ∈ s.sent, ∀ m' ∈ logged messages, m.lsn < m'.lsn)
    (hbound : ∀ m ∈ messages, m.lsn ≤ u64Max) :
    MessagesInv ⟨chatLog, Messages.applyMessages sort hotWindow s.rooms messages,
    s.sent ++ messages⟩ := by
  have hlsns : ((logged (s.sent ++ messages)).map Message.lsn).Nodup := by
    rw [logged_append, map_append, nodup_append]
    refine ⟨h.lsns, hnew.nodup, fun n hn n' hn' => ?_⟩
    obtain ⟨m, hm, rfl⟩ := mem_map.mp hn
    obtain ⟨m', hm', rfl⟩ := mem_map.mp hn'
    exact (habove m (mem_logged.mp hm).1 m' hm').ne
  refine h.applyMessages hsends.nonempty hchatLog hsends.identified hlsns hbound hsends.room
    (fun m hm => ⟨mem_append_right _ hm, hsends.room m hm⟩) ?_
  have htop := (h.window roomId).top
  have hcross : ∀ m ∈ logged (s.window roomId), ∀ m' ∈ logged messages, m.lsn < m'.lsn := fun m hm =>
    habove m (h.sent roomId m (mem_logged.mp hm).1).1
  have hparts := logged_append (s.window roomId) messages
  suffices IsTop Message.lsn (s.history roomId ++ logged messages) (logged (s.window roomId) ++ logged messages)
    from (h.window roomId).apply sort hsends.nonempty this (hparts ▸ .rfl)
      (hkeeps.symm.imp_right fun happend => ⟨happend, hparts⟩)
  refine ⟨pairwise_append.mpr ⟨htop.ascending, hnew, hcross⟩, fun m hm => ?_, fun m hm m' hm' hlt => ?_⟩
  · exact (mem_append.mp hm).elim (fun hm => mem_append_left _ (htop.subset m hm)) (mem_append_right _)
  · rcases mem_append.mp hm' with hm' | hm'
    · refine mem_append_left _ ((mem_append.mp hm).elim (fun hm => htop.upward m hm m' hm' hlt) fun hm => ?_)
      exact absurd (habove m' (mem_history.mp hm').1 m hm) hlt.asymm
    · exact mem_append_right _ hm'

theorem MessagesInv.sendLogged {s : MessagesState} (h : MessagesInv s) {roomId : String}
    {messages : List Message}
    (hsends : Sends s roomId messages) (hlogs : Logs s messages)
    (hkeeps : SendKeeps s roomId messages) : MessagesInv
    ⟨s.chatLog.appendMany messages, Messages.applyMessages sort hotWindow s.rooms messages,
    s.sent ++ messages⟩ := by
  have hlogged := logged_of_durable hlogs.durable
  refine h.send hsends hkeeps ?_ (by rw [hlogged]; exact hlogs.ascending) (by rw [hlogged]; exact hlogs.above)
    hlogs.bound
  rw [logged_append, hlogged]
  exact h.chatLog.appendMany (hsends.identified.sublist (filter_sublist.append_right _))

theorem MessagesInv.sendVolatile (h : MessagesInv s) (hsends : Sends s roomId messages)
    (hvolatile : ∀ m ∈ messages, m.lsn = 0) (hkeeps : SendKeeps s roomId messages) :
    MessagesInv ⟨s.chatLog, Messages.applyMessages sort hotWindow s.rooms messages,
    s.sent ++ messages⟩ := by
  have hlogged : logged messages = [] :=
    filter_eq_nil_iff.mpr fun m hm => by simp [hvolatile m hm]
  refine h.send hsends hkeeps ?_ (hlogged ▸ .nil) (by simp [hlogged])
    (fun m hm => (hvolatile m hm).le.trans (Nat.zero_le _))
  rw [logged_append, hlogged, append_nil]
  exact h.chatLog

theorem window_evict (s : MessagesState) (rooms : List String) (roomId : String) :
    ({ s with rooms := s.rooms.filter fun room _ => room ∉ rooms } : MessagesState).window roomId =
    if roomId ∈ rooms then [] else s.window roomId := by
  rw [MessagesState.window, getD_eq_getD_getElem?, getElem?_filter', MessagesState.window, getD_eq_getD_getElem?]
  by_cases hmem : roomId ∈ rooms <;> cases s.rooms[roomId]? <;> simp [hmem, RoomLiveState.new, Option.filter]

theorem MessagesInv.evict {s : MessagesState} (h : MessagesInv s) (rooms : List String) :
    MessagesInv { s with rooms := s.rooms.filter fun room _ => room ∉ rooms } := by
  refine ⟨h.chatLog, h.identified, h.lsns, h.bound, fun roomId => ?_, fun roomId m hm => ?_⟩
  · rw [window_evict]
    split
    · exact .nil _
    · exact h.window roomId
  · rw [window_evict] at hm
    split at hm
    · cases hm
    · exact h.sent roomId m hm

section Backfill

variable {s : MessagesState} (h : MessagesInv s) {roomId : String} {query : MessagesQuery}

include h

theorem MessagesInv.mem_under_of_backfill (hm : m ∈ s.backfill roomId query) :
    m ∈ s.under roomId query :=
  h.mem_page roomId query (mem_filter.mp (mem_of_mem_take hm)).1

theorem MessagesInv.durable_backfill : Durable (s.backfill roomId query) := fun _ hm =>
  (mem_history.mp (mem_under.mp (h.mem_under_of_backfill hm)).1).2.1

/-- The newest message below the cursor is read: from the hot window or from the log. -/
theorem MessagesInv.newest_mem {newest : Message}
    (hnewest : newest ∈ s.under roomId query)
    (hmax : ∀ m ∈ s.under roomId query, m.lsn ≤ newest.lsn)
    (hlt : (s.hot roomId query).length < normalizeLimit query.limit) :
    newest ∈ s.hot roomId query ∨ newest ∈ s.backfill roomId query := by
  refine or_iff_not_imp_left.mpr fun hnot => ?_
  have hpos := length_pos_of_mem hnewest
  have hlen := length_page s roomId query
  obtain ⟨first, rest, hpage⟩ : ∃ first rest, s.page roomId query = first :: rest :=
    exists_cons_of_ne_nil (ne_nil_of_length_pos (by
      have := normalizeLimit_pos query.limit
      omega))
  have hfirst : first ∈ s.under roomId query := h.mem_page roomId query (hpage ▸ mem_cons_self)
  have heq : first = newest := by
    refine inj_on_of_nodup_map (h.under_nodup roomId query) hfirst hnewest
      ((hmax first hfirst).antisymm (Nat.not_lt.mp fun hgt => ?_))
    have htop := h.isTop_page roomId query
    have hmem := htop.upward first (by simp [hpage]) newest hnewest hgt
    rw [hpage, reverse_cons] at hmem htop
    rcases mem_append.mp hmem with hmem | hmem
    · exact absurd ((pairwise_append.mp htop.ascending).2.2 newest hmem first (by simp)) hgt.asymm
    · exact absurd hgt (mem_singleton.mp hmem ▸ lt_irrefl _)
  obtain ⟨k, hk⟩ :=
    Nat.exists_eq_succ_of_ne_zero (Nat.sub_ne_zero_of_lt ((dedup_sublist (s.hot roomId query)).length_le.trans_lt hlt))
  rw [MessagesState.backfill, hpage, heq, filter_cons_of_pos (by simpa using hnot), hk, take_succ_cons]
  exact mem_cons_self

/-- A read that goes on from the hot window. -/
theorem MessagesInv.window_goesOn (hlt : (s.hot roomId query).length < normalizeLimit query.limit)
    (hmerged : merged.Perm (s.hot roomId query).dedup)
    (ho : Ordered (s.window roomId ++ (merged ++ s.backfill roomId query)))
    (hne : merged ++ s.backfill roomId query ≠ []) (hgoes : GoesOn s roomId query) :
    WindowHolds (s.history roomId)
    ((s.rooms.getD roomId .new).applyMessages sort (merged ++ s.backfill roomId query) hotWindow).messages := by
  obtain ⟨hnone, hrest⟩ := hgoes
  have htop := (h.window roomId).top
  have hmergedNone : logged merged = [] := eq_nil_iff_forall_not_mem.mpr fun m hm => by
    obtain ⟨hm, hpos⟩ := mem_logged.mp hm
    have := mem_logged.mpr ⟨mem_dedup.mp (hmerged.mem_iff.mp hm), hpos⟩
    rw [hnone] at this
    cases this
  have hparts : logged (s.window roomId ++ (merged ++ s.backfill roomId query)) = logged (s.window roomId) ++
      s.backfill roomId query := by
    rw [logged_append, logged_append, hmergedNone, logged_of_durable h.durable_backfill, nil_append]
  have habove : ∀ m ∈ logged (s.window roomId), ¬ below query.beforeLsn m := by
    intro m hm hb
    have hpart : m ∈ logged (windowPart query.beforeLsn (s.window roomId)) := by
      rw [logged_windowPart]
      exact mem_filter.mpr ⟨hm, hb⟩
    have : m ∈ logged (s.hot roomId query) := by
      rw [hot_eq_of_lt hlt]
      exact mem_logged.mpr ⟨mem_reverse.mpr (mem_logged.mp hpart).1, (mem_logged.mp hm).2⟩
    rw [hnone] at this
    cases this
  have hpage : (s.page roomId query).filter (· ∉ s.hot roomId query) = s.page roomId query := by
    refine filter_eq_self.mpr fun m hm => decide_eq_true fun hmem => ?_
    have hpos := (mem_history.mp (mem_under.mp (h.mem_page roomId query hm)).1).2.1
    have := mem_logged.mpr ⟨hmem, hpos⟩
    rw [hnone] at this
    cases this
  have hbackfill : IsTop Message.lsn (s.under roomId query) (s.backfill roomId query).reverse := by
    rw [MessagesState.backfill, hpage]
    exact (h.isTop_page roomId query).of_suffix (reverse_suffix.mpr (List.take_prefix ..))
  have hcross : ∀ m ∈ (s.backfill roomId query).reverse, ∀ m' ∈ logged (s.window roomId), m.lsn < m'.lsn := by
    intro m hm m' hm'
    have hb := (mem_under.mp (hbackfill.subset m hm)).2
    have ha := habove m' hm'
    revert hb ha
    cases query.beforeLsn <;> simp [below]
    omega
  refine (h.window roomId).apply sort hne (show IsTop Message.lsn (s.history roomId)
      ((s.backfill roomId query).reverse ++ logged (s.window roomId)) from ?_) ?_ (.inl ho)
  · refine ⟨pairwise_append.mpr ⟨hbackfill.ascending, htop.ascending, hcross⟩, fun m hm => ?_,
      fun m hm m' hm' hlt' => ?_⟩
    · exact (mem_append.mp hm).elim (fun hm => (mem_under.mp (hbackfill.subset m hm)).1) (htop.subset m)
    · by_cases hb : below query.beforeLsn m'
      · rcases mem_append.mp hm with hm | hm
        · exact mem_append_left _ (hbackfill.upward m hm m' (mem_under.mpr ⟨hm', hb⟩) hlt')
        · exact absurd hb (habove m' (htop.upward m hm m' hm' hlt'))
      · exact mem_append_right _ (mem_logged.mpr ⟨hrest m' hm' hb, (mem_history.mp hm').2.1⟩)
  · exact hparts ▸ (perm_append_comm.trans ((reverse_perm _).symm.append_right _))

/-- A read that finds no place in the hot window. -/
theorem MessagesInv.window_full (hlt : (s.hot roomId query).length < normalizeLimit query.limit)
    (hmerged : merged.Perm (s.hot roomId query).dedup)
    (ho : Ordered (s.window roomId ++ (merged ++ s.backfill roomId query)))
    (hfull : Full hotWindow s roomId query) :
    WindowHolds (s.history roomId)
    ((s.rooms.getD roomId .new).applyMessages sort (merged ++ s.backfill roomId query) hotWindow).messages := by
  obtain ⟨newest, hnewest, hmax, hcount⟩ := hfull
  have hread : newest ∈ merged ++ s.backfill roomId query :=
    mem_append.mpr ((h.newest_mem hnewest hmax hlt).imp_left fun hm =>
      hmerged.mem_iff.mpr (mem_dedup.mpr hm))
  refine (h.window roomId).apply_full sort (h.history_nodup roomId) ho hread
    (mem_history.mp (mem_under.mp hnewest).1).2.1 (fun m hm => ?_) (hcount.trans ?_)
  · obtain ⟨hm, hpos⟩ := mem_logged.mp hm
    have hunder : m ∈ s.under roomId query := (mem_append.mp hm).elim
      (fun hm => h.mem_under_of_hot (mem_dedup.mp (hmerged.mem_iff.mp hm)) hpos) h.mem_under_of_backfill
    exact ⟨(mem_under.mp hunder).1, hmax m hunder⟩
  · refine Nat.add_le_add_right ?_ _
    show _ ≤ (s.window roomId ++ (merged ++ s.backfill roomId query)).countP _
    rw [countP_append, countP_append, countP_append, hmerged.countP_eq]
    omega

end Backfill

theorem MessagesInv.read {s : MessagesState}
    (h : MessagesInv s) {roomId : String} {query : MessagesQuery}
    (hkeeps : ReadKeeps hotWindow s roomId query) :
    MessagesInv { s with rooms := (Messages.latestMessages sort hotWindow s.chatLog s.rooms roomId query).2 } := by
  rcases Nat.lt_or_ge (s.hot roomId query).length (normalizeLimit query.limit) with hlt | hge
  · obtain ⟨halone, hkeeps⟩ := hkeeps.resolve_left (Nat.not_le.mpr hlt)
    obtain ⟨merged, hmerged, -, hanswer⟩ :=
      @latestMessages_of_lt sort hotWindow s h roomId query halone hlt
    rw [hanswer]
    by_cases hne : merged ++ s.backfill roomId query = []
    · rw [hne, applyMessages_nil]
      exact h
    have hmem : ∀ m ∈ merged, m ∈ s.hot roomId query := fun m hm =>
      mem_dedup.mp (hmerged.mem_iff.mp hm)
    have hbatch : ∀ m ∈ merged ++ s.backfill roomId query, m ∈ s.sent ++ [] ∧ m.roomId = roomId := by
      intro m hm
      rw [append_nil]
      rcases mem_append.mp hm with hm | hm
      · exact h.sent roomId m (mem_window_of_hot (hmem m hm))
      · obtain ⟨hsent, -, hroom⟩ := mem_history.mp (mem_under.mp (h.mem_under_of_backfill hm)).1
        exact ⟨hsent, hroom⟩
    have hwindow : WindowHolds (s.history roomId)
        ((s.rooms.getD roomId .new).applyMessages sort (merged ++ s.backfill roomId query) hotWindow).messages := by
      rcases hkeeps with ⟨hhot, hunder⟩ | ⟨ho, hkeeps⟩
      · refine absurd (eq_nil_iff_forall_not_mem.mpr fun m hm => ?_) hne
        rcases mem_append.mp hm with hm | hm
        · exact not_mem_nil (hhot ▸ hmem m hm)
        · exact not_mem_nil (hunder ▸ h.mem_under_of_backfill hm)
      · have ho' : Ordered (s.window roomId ++ (merged ++ s.backfill roomId query)) := ho.mono fun m hm => by
          simp only [mem_append] at hm ⊢
          exact hm.elim .inl fun hm => hm.imp_left fun hm => mem_window_of_hot (hmem m hm)
        rcases hkeeps with hgoes | hfull
        · exact h.window_goesOn hlt hmerged ho' hne hgoes
        · exact h.window_full hlt hmerged ho' hfull
    have happly := @MessagesInv.applyMessages sort hotWindow s h roomId (merged ++ s.backfill roomId query) [] s.chatLog
      hne (by rw [append_nil]; exact h.chatLog) (by rw [append_nil]; exact h.identified) (by rw [append_nil]; exact
      h.lsns) nofun nofun hbatch (by rw [show logged [] = [] from rfl, append_nil]; exact hwindow)
    rwa [append_nil] at happly
  · rw [latestMessages_of_ge hge]
    exact h

/-! ## Runs -/

theorem MessagesInv.step {t : MessagesState} {e : MessagesEvent} (h : MessagesInv s)
    (hkeeps : KeepsWindow hotWindow s e) (hstep : MessagesStep sort hotWindow s e t) :
    MessagesInv t := by
  cases hstep with
  | sendMessage hsends hlogs =>
    have := @sendLogged sort hotWindow s h _ _ hsends hlogs hkeeps
    rwa [← ChatLog.append_eq_appendMany, applyMessages_room hsends.nonempty hsends.room] at this
  | sendMessages hsends hlogs => exact h.sendLogged hsends hlogs hkeeps
  | sendVolatile hsends hvolatile => exact h.sendVolatile hsends hvolatile hkeeps
  | evict => exact h.evict _
  | read => exact h.read hkeeps

theorem holds_foldl {batches : List (List Message)} {chatLog : ChatLog}
    {before : List Message} (h : chatLog.Holds before)
    (hid : Identified (before ++ batches.flatten)) :
    (batches.foldl ChatLog.appendMany chatLog).Holds (before ++ batches.flatten) := by
  induction batches generalizing chatLog before with
  | nil => rwa [flatten_nil, append_nil]
  | cons batch batches ih =>
    rw [flatten_cons, ← append_assoc] at hid ⊢
    exact ih (h.appendMany (hid.sublist (sublist_append_left ..))) hid

theorem Started.inv (h : Started hotWindow s) : MessagesInv s := by
  have hlogged : logged s.sent = s.sent := logged_of_durable h.durable
  have hn : ∀ roomId, ((s.history roomId).map Message.lsn).Nodup := fun roomId =>
    h.lsns.sublist ((filter_sublist.trans filter_sublist).map _)
  have hwindow : ∀ roomId, s.window roomId = [] ∨ s.window roomId = newest Message.lsn hotWindow (s.history roomId) :=
      by
    intro roomId
    rw [MessagesState.window, getD_eq_getD_getElem?]
    cases hroom : s.rooms[roomId]? with
    | none => exact .inl rfl
    | some room => exact .inr (h.resident roomId room hroom)
  have hnewest : ∀ roomId, WindowHolds (s.history roomId) (newest Message.lsn hotWindow (s.history roomId)) := by
    intro roomId
    have htop := isTop_newest (hn roomId) hotWindow
    have hd : Durable (newest Message.lsn hotWindow (s.history roomId)) := fun m hm =>
      (mem_history.mp (htop.subset m hm)).2.1
    refine ⟨Pairwise.isChain (htop.ascending.imp_of_mem fun {a b} ha hb hlt => ?_), (logged_of_durable hd).symm ▸ htop⟩
    rw [messageLe_of_durable (hd a ha) (hd b hb)]
    exact decide_eq_true hlt.le
  obtain ⟨batches, hchatLog, hsent⟩ := h.chatLog
  refine ⟨?_, h.identified, by rw [hlogged]; exact h.lsns, h.bound, fun roomId => ?_, fun roomId m hm => ?_⟩
  · rw [hlogged, hchatLog, hsent]
    exact holds_foldl ChatLog.new_holds (hsent ▸ h.identified)
  · rcases hwindow roomId with he | he <;> rw [he]
    · exact .nil _
    · exact hnewest roomId
  · rcases hwindow roomId with he | he <;> rw [he] at hm
    · cases hm
    · obtain ⟨hm, -, hroom⟩ := mem_history.mp (isTop_newest (hn roomId) hotWindow |>.subset m hm)
      exact ⟨hm, hroom⟩

/-- A read whose answer holds no volatile message answers the newest messages of the room
below the cursor, the newest first. -/
theorem latestMessages_newest {s t : MessagesState}
    (hs : Started hotWindow s)
    (hrun : Reaches (MessagesStep sort hotWindow) (KeepsWindow hotWindow) s t)
    (roomId : String) (query : MessagesQuery) (hroom : ReadsRoom t roomId query)
    (hdurable : Durable (latestMessages sort hotWindow t.chatLog t.rooms roomId query).1.messages) :
    (latestMessages sort hotWindow t.chatLog t.rooms roomId query).1.messages =
    (newest Message.lsn (normalizeLimit query.limit) ((t.history roomId).filter (below query.beforeLsn))).reverse :=
  (hrun.invariant (fun _ _ _ h hkeeps hstep => h.step hkeeps hstep) hs.inv).latestMessages hroom hdurable

/-! ## One message -/

def sampleMessage : Message := ⟨"1", "r", "u", "b", [], 0, 1, "rooms/r/messages/1"⟩

def sampleStart : MessagesState := ⟨.new, ∅, []⟩

def sampleSent : MessagesState where
  chatLog := ChatLog.new.append sampleMessage
  rooms := applyToRooms .merge 10 ∅ sampleMessage
  sent := [sampleMessage]

theorem sampleStart_started : Started 10 sampleStart where
  chatLog := ⟨[], rfl, rfl⟩
  durable := nofun
  identified := ⟨.nil, nofun⟩
  lsns := .nil
  bound := nofun
  resident roomId room h := by
    rw [show sampleStart.rooms = ∅ from rfl, getElem?_empty] at h
    cases h

theorem sampleMessage_identified : Identified [sampleMessage] :=
  ⟨nodup_singleton _, fun m hm => by rw [mem_singleton.mp hm]; decide⟩

theorem sent_sample : Reaches (MessagesStep .merge 10) (KeepsWindow 10) sampleStart sampleSent := by
  refine (Reaches.refl _).tail (e := MessagesEvent.sendMessage sampleMessage) (.inl ?_) (.sendMessage ?_ ?_)
  · show ((∅ : HashMap String RoomLiveState).getD sampleMessage.roomId .new).canAppendInOrder [sampleMessage]
    rw [getD_empty]
    rfl
  · exact ⟨cons_ne_nil _ _, fun m hm => by rw [mem_singleton.mp hm], sampleMessage_identified⟩
  · exact ⟨pairwise_singleton _ _, nofun,
      fun m hm => by rw [mem_singleton.mp hm]; decide, fun m hm => by rw [mem_singleton.mp hm]; decide⟩

theorem window_sample : sampleSent.window "r" = [sampleMessage] := by
  show ((applyToRooms .merge 10 ∅ sampleMessage).getD sampleMessage.roomId .new).messages = _
  rw [applyToRooms, getD_insert_self, getD_empty]
  rfl

theorem hot_sample (limit : Nat) :
    sampleSent.hot "r" ⟨none, some limit⟩ =
    ([sampleMessage].rtake (normalizeLimit (some limit))).reverse := by
  rw [hot_eq, window_sample]
  rfl

/-! ## Two messages and an eviction -/

def secondMessage : Message := ⟨"2", "r", "u", "b", [], 0, 2, "rooms/r/messages/2"⟩

def sampleEvicted : MessagesState where
  chatLog := sampleSent.chatLog.appendMany [secondMessage]
  rooms := (applyMessages .merge 10 sampleSent.rooms [secondMessage]).filter fun room _ => room ∉ ["r"]
  sent := [sampleMessage, secondMessage]

/-- A read of the evicted room has put both messages back. -/
def sampleBackfilled : MessagesState where
  chatLog := sampleEvicted.chatLog
  rooms := (latestMessages .merge 10 sampleEvicted.chatLog sampleEvicted.rooms "r" ⟨none, some 2⟩).2
  sent := [sampleMessage, secondMessage]

theorem durable_sample : Durable [sampleMessage, secondMessage] := by
  simp [Durable, sampleMessage, secondMessage]

theorem alone_sample : Alone (logged [sampleMessage, secondMessage]) "r" := fun m hm _ => by
  rcases mem_pair.mp (mem_logged.mp hm).1 with rfl | rfl <;> rfl

theorem evicted_sample :
    Reaches (MessagesStep .merge 10) (KeepsWindow 10) sampleStart sampleEvicted := by
  have hsecond : ∀ m ∈ [secondMessage], m = secondMessage := fun m => mem_singleton.mp
  have hsends : Sends sampleSent "r" [secondMessage] := by
    refine ⟨cons_ne_nil _ _, fun m hm => by rw [hsecond m hm]; rfl, by decide, fun m hm => ?_⟩
    rcases mem_pair.mp hm with rfl | rfl <;> decide
  have hlogs : Logs sampleSent [secondMessage] := by
    refine ⟨pairwise_singleton _ _, fun m hm m' hm' => ?_, fun m hm => ?_, fun m hm => ?_⟩
    · rw [mem_singleton.mp hm, hsecond m' hm']
      decide
    all_goals rw [hsecond m hm]; decide
  have hkeeps : SendKeeps sampleSent "r" [secondMessage] := by
    refine .inr (Ordered.of_durable ?_)
    rw [window_sample]
    exact durable_sample
  exact (sent_sample.take (.sendMessages hsends hlogs) hkeeps).take (e := .evict ["r"]) .evict trivial

theorem window_evicted_sample : sampleEvicted.window "r" = [] :=
  (window_evict ⟨.new, applyMessages .merge 10 sampleSent.rooms [secondMessage], []⟩ ["r"] "r").trans
    (if_pos mem_cons_self)

theorem backfilled_sample :
    Reaches (MessagesStep .merge 10) (KeepsWindow 10) sampleStart sampleBackfilled := by
  have hinv : MessagesInv sampleEvicted :=
    evicted_sample.invariant (fun _ _ _ h hkeeps hstep => h.step hkeeps hstep) sampleStart_started.inv
  refine evicted_sample.take (e := .read "r" ⟨none, some 2⟩) .read (.inr ⟨alone_sample, .inr ⟨?_, .inl ⟨?_, ?_⟩⟩⟩)
  · rw [window_evicted_sample, nil_append]
    exact Ordered.of_durable hinv.durable_backfill
  · rw [hot_eq, window_evicted_sample]
    rfl
  · exact fun m _ hnot => absurd rfl hnot

/-- Both messages are read after the eviction, the newest first. -/
theorem latestMessages_newest_sample :
    (latestMessages .merge 10 sampleBackfilled.chatLog sampleBackfilled.rooms "r" ⟨none,
    some 2⟩).1.messages =
    [secondMessage, sampleMessage] := by
  have hinv : MessagesInv sampleBackfilled :=
    backfilled_sample.invariant (fun _ _ _ h hkeeps hstep => h.step hkeeps hstep) sampleStart_started.inv
  have hnewest : newest Message.lsn 2 [sampleMessage, secondMessage] = [sampleMessage, secondMessage] :=
    Ascending.newest (pairwise_pair.mpr (by decide)) 2
  refine (latestMessages_newest sampleStart_started backfilled_sample "r" ⟨none, some 2⟩ (.inr alone_sample)
    (hinv.durable_latestMessages alone_sample durable_sample)).trans ?_
  exact congrArg reverse hnewest

theorem newest_sample (query : MessagesQuery) (hb : query.beforeLsn = none) :
    newest Message.lsn 2 (sampleSent.under "r" query) = [sampleMessage] := by
  have hunder : sampleSent.under "r" query = [sampleMessage] := by
    rw [MessagesState.under, hb]
    rfl
  rw [hunder]
  exact Ascending.newest (pairwise_singleton _ _) 2

theorem read_twice_sample :
    (latestMessages .merge 10 sampleSent.chatLog sampleSent.rooms "r" ⟨none, some 2⟩).2 =
    applyMessages .merge 10 sampleSent.rooms [sampleMessage] := by
  have hhot : sampleSent.hot "r" ⟨none, some 2⟩ = [sampleMessage] := hot_sample 2
  have hinv : MessagesInv sampleSent :=
    sent_sample.invariant (fun _ _ _ h hkeeps hstep => h.step hkeeps hstep) sampleStart_started.inv
  have halone : Alone (logged sampleSent.sent) "r" := fun m hm _ => by
    rw [mem_singleton.mp (mem_logged.mp hm).1]
    rfl
  obtain ⟨merged, -, hmerged, hanswer⟩ := @MessagesInv.latestMessages_of_lt .merge 10 sampleSent hinv "r"
    ⟨none, some 2⟩ halone (by rw [hhot]; decide)
  have hpage : sampleSent.page "r" ⟨none, some 2⟩ = [sampleMessage] := by
    rw [MessagesState.page]
    exact congrArg reverse (newest_sample ⟨none, some 2⟩ rfl)
  have hbackfill : sampleSent.backfill "r" ⟨none, some 2⟩ = [] := by
    rw [MessagesState.backfill, hpage, hhot]
    rfl
  rw [hanswer, hmerged (hhot ▸ nodup_singleton _), hbackfill, hhot]
  rfl

def sampleTwice : MessagesState :=
  { sampleSent with rooms := applyMessages .merge 10 sampleSent.rooms [sampleMessage] }

theorem hot_twice_sample : sampleTwice.hot "r" ⟨none, some 2⟩ = [sampleMessage, sampleMessage] := by
  have hroom := @applyMessages_room .merge 10 sampleSent.rooms "r" [sampleMessage] (cons_ne_nil _ _)
    fun m hm => by rw [mem_singleton.mp hm]; rfl
  have hwindow : sampleTwice.window "r" = [sampleMessage, sampleMessage] := by
    rw [sampleTwice, hroom, window_insert, if_pos rfl]
    show (RoomLiveState.applyMessages .merge ⟨sampleSent.window "r"⟩ [sampleMessage] 10).messages = _
    rw [window_sample]
    rfl
  rw [hot_eq, hwindow]
  rfl

/-- The next read answers the message twice. -/
theorem latestMessages_twice_sample :
    ∃ t, Started 10 sampleStart ∧ Reaches (MessagesStep .merge 10) (fun _ _ => True) sampleStart t ∧
    (latestMessages .merge 10 t.chatLog t.rooms "r" ⟨none, some 2⟩).1.messages =
    [sampleMessage, sampleMessage] ∧
    (newest Message.lsn (normalizeLimit (some 2)) ((t.history "r").filter (below none))).reverse =
    [sampleMessage] := by
  have hsent : Reaches (MessagesStep .merge 10) (fun _ _ => True) sampleStart sampleSent :=
    sent_sample.weaken fun _ _ _ => trivial
  have hread := hsent.tail (e := MessagesEvent.read "r" ⟨none, some 2⟩) trivial .read
  rw [read_twice_sample] at hread
  have hhot := hot_twice_sample
  have hge : normalizeLimit (some 2) ≤ (sampleTwice.hot "r" ⟨none, some 2⟩).length := by
    rw [hhot]
    exact le_rfl
  refine ⟨sampleTwice, sampleStart_started, hread, ?_, congrArg reverse (newest_sample ⟨none, some 2⟩ rfl)⟩
  rw [@latestMessages_of_ge _ _ _ _ ⟨none, _⟩ hge, hhot]

end NextDb.Api.Messages
