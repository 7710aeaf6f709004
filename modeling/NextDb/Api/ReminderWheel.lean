import NextDb.Api.ArchiveRetention

/-!
# The reminder wheel and the log

Calls schedule, cancel and run reminders side by side. A call that schedules or cancels appends its
record first and updates the wheel later; a run takes what is due out of the wheel first, and
appends that each reminder has fired after the reminder's behavior has run.

* `Inv.step`: a reminder that no call is at is in the wheel as the log leaves it, one that a run has
  taken is in the log as it was taken, and the latest of the updates that are still to come makes of
  a reminder what the log leaves of it.
* `wheel_equals_log`: where the updates of a reminder keep the order of their records and nothing
  else is done with a reminder that a run has taken, the wheel is that of the log when no call is in
  flight.
-/

namespace NextDb.Api.ReminderWheel

open ArchiveRetention Run Startup Wal List Option
open Converge (ActorReminderEntry ActorReminderWheel actorIdFromWalParts actorKindFromWalStr
  actorReminderEntryFromDraft)

/-! ## Requests -/

structure RuntimeActorReminderScheduleRequest where
  kind : Actor.ActorKind
  key : String
  reminderId : Option String
  dueAtMs : Option Nat
  delayMs : Option Nat
  payload : Option Value

structure RuntimeActorReminderCancelRequest where
  kind : Actor.ActorKind
  key : String
  reminderId : String

def runtimeActorId (kind : Actor.ActorKind) (key : String) : Option Actor.ActorId :=
  if trim key = "" then none else some ⟨kind, trim key⟩

/-- What `schedule_actor_reminder` appends. -/
def scheduledDraft (request : RuntimeActorReminderScheduleRequest) (acceptedAtMs : Nat)
    (freshId : String) :
    Option ActorReminderDraft := do
  let actorId ← runtimeActorId request.kind request.key
  let dueAtMs ← request.dueAtMs <|> request.delayMs.map fun delayMs => min (2 ^ 64 - 1) (acceptedAtMs + delayMs)
  if dueAtMs = 0 then none
  else
    some ⟨actorId.kind.asStr, actorId.key, ((request.reminderId.map trim).filter (· ≠ "")).getD freshId, dueAtMs,
      request.payload⟩

/-- What `cancel_actor_reminder_internal` cancels. -/
def cancelledReminder (request : RuntimeActorReminderCancelRequest) :
    Option (Actor.ActorId × String) := do
  let actorId ← runtimeActorId request.kind request.key
  if trim request.reminderId = "" then none else some (actorId, trim request.reminderId)

def takeDue (wheel : ActorReminderWheel) (nowMs limit : Nat) : List ActorReminderEntry :=
  (wheel.takeWhile (·.dueAtMs ≤ nowMs)).take limit

/-! ## Calls in flight -/

/-- A call that has still to do something with its reminders. -/
inductive Call where
  /-- Its record is in the log; the wheel is to get the entry. -/
  | scheduling (lsn : Nat) (entry : ActorReminderEntry)
  | cancelling (lsn : Nat) (actorId : Actor.ActorId) (reminderId : String)
  /-- What has been taken out of the wheel and has not fired. -/
  | running (due : List ActorReminderEntry)
  /-- The record that the first has fired is in the log, and the run waits for the append. -/
  | firing (entry : ActorReminderEntry) (due : List ActorReminderEntry)
  | ended

/-- An update of the wheel that is still to come: the LSN of its record, and what becomes of the
reminder. -/
structure WheelUpdate where
  lsn : Nat
  key : Actor.ActorId × String
  value : Option ActorReminderEntry

def Call.owes : Call → Option WheelUpdate
  | .scheduling lsn entry => some ⟨lsn, reminderKey entry, some entry⟩
  | .cancelling lsn actorId reminderId => some ⟨lsn, (actorId, reminderId), none⟩
  | _ => none

/-- What a run has yet to fire. -/
def Call.due : Call → List ActorReminderEntry
  | .running due | .firing _ due => due
  | _ => []

/-- The entries that a call has. -/
def Call.entries : Call → List ActorReminderEntry
  | .scheduling _ entry => [entry]
  | .running due => due
  | .firing entry due => entry :: due
  | _ => []

/-- The updates of the wheel that are still to come. -/
def updates (calls : List Call) : List WheelUpdate := calls.filterMap Call.owes

/-- What runs have taken out of the wheel and have not fired. -/
def taken (calls : List Call) : List ActorReminderEntry := calls.flatMap Call.due

/-- The log, the wheel, and the calls that are on their way. -/
structure ServerState where
  wal : List WalRecord
  wheel : ActorReminderWheel
  calls : List Call

/-- The server comes up. -/
def ServerState.initial (wal : List WalRecord) : ServerState :=
  ⟨wal, actorRemindersFromWalRecords wal, []⟩

/-- Schedules and cancellations, and what takes and fires reminders. -/
inductive ServerEvent where
  | schedule (request : RuntimeActorReminderScheduleRequest) (acceptedAtMs : Nat) (freshId : String)
      (record : WalRecord)
  | cancel (request : RuntimeActorReminderCancelRequest) (record : WalRecord)
  /-- A call that schedules or cancels updates the wheel. -/
  | update (i : Nat)
  /-- Its append fails after all, or its client is gone. -/
  | abandon (i : Nat)
  | takeDue (nowMs : Nat) (limit : Option Nat)
  | fire (i : Nat) (record : WalRecord)
  | fired (i : Nat)
  /-- A run fails. It requeues the reminder that it is at, unless no reply can be made of the
  behavior's response or the client is gone; what else it has taken is dropped. -/
  | fail (i : Nat) (requeued : Bool)
  | finish (i : Nat)

section

variable (s : ServerState)

def ServerState.append (record : WalRecord) (calls : List Call) : ServerState :=
  { s with wal := s.wal ++ [record], calls }

/-- Appends are in the order of their LSNs. -/
def ServerState.Next (record : WalRecord) : Prop := ∀ r ∈ s.wal, r.lsn < record.lsn

/-- The calls but for this one. -/
def ServerState.others (i : Nat) : List Call := s.calls.set i .ended

/-- What each event does to the log and the wheel. -/
inductive ServerStep : ServerEvent → ServerState → Prop
  | schedule {request acceptedAtMs freshId record draft entry} :
      scheduledDraft request acceptedAtMs freshId = some draft →
      record.payload = .actorReminderScheduled draft →
      actorReminderEntryFromDraft draft = some entry → s.Next record →
      ServerStep (.schedule request acceptedAtMs freshId record)
        (s.append record (s.calls ++ [.scheduling record.lsn entry]))
  | cancel {request record actorId reminderId cancelledAtMs} :
      cancelledReminder request = some (actorId, reminderId) →
      record.payload = .actorReminderCancelled actorId.kind.asStr actorId.key reminderId cancelledAtMs →
      s.Next record →
      ServerStep (.cancel request record)
        (s.append record (s.calls ++ [.cancelling record.lsn actorId reminderId]))
  | scheduled {i lsn entry} : s.calls[i]? = some (.scheduling lsn entry) →
      ServerStep (.update i) { s with wheel := s.wheel.upsert entry, calls := s.others i }
  | cancelled {i lsn actorId reminderId} : s.calls[i]? = some (.cancelling lsn actorId reminderId) →
      ServerStep (.update i) { s with wheel := s.wheel.remove actorId reminderId, calls := s.others i }
  | abandon {i call update} : s.calls[i]? = some call → call.owes = some update →
      ServerStep (.abandon i) { s with calls := s.others i }
  | takeDue {nowMs limit due} : takeDue s.wheel nowMs (max (limit.getD 64) 1) = due →
      ServerStep (.takeDue nowMs limit)
        { s with wheel := s.wheel.drop due.length, calls := s.calls ++ [.running due] }
  | fire {i record entry due firedAtMs} : s.calls[i]? = some (.running (entry :: due)) →
      record.payload = .actorReminderFired entry.actorId.kind.asStr entry.actorId.key entry.reminderId entry.dueAtMs
        firedAtMs → s.Next record →
      ServerStep (.fire i record) (s.append record (s.calls.set i (.firing entry due)))
  | fired {i entry due} : s.calls[i]? = some (.firing entry due) →
      ServerStep (.fired i) { s with calls := s.calls.set i (.running due) }
  | fail {i requeued call entry due} : s.calls[i]? = some call →
      call = .running (entry :: due) ∨ call = .firing entry due →
      ServerStep (.fail i requeued)
        { s with wheel := if requeued then s.wheel.upsert entry else s.wheel, calls := s.others i }
  | finish {i} : s.calls[i]? = some (.running []) →
    ServerStep (.finish i) { s with calls := s.others i }

/-! ## What becomes of a reminder -/

/-- The entry of a reminder in the wheel. -/
def held (wheel : ActorReminderWheel) (key : Actor.ActorId × String) : Option ActorReminderEntry :=
  wheel.find? (reminderKey · = key)

/-- What the log leaves of a reminder. -/
def ServerState.logged (key : Actor.ActorId × String) : Option ActorReminderEntry :=
  LastWord.read (reminderTells key) s.wal

/-- No reminder is scheduled or cancelled while a run has taken it, nor taken while an update of it
is still to come. The updates of a reminder are in the order of their records, and a call ends
without one only if a later record's is still to come. A run that fails puts its reminder back,
whose record was not appended, and has taken nothing else. -/
def Meets : ServerEvent → Prop
  | .schedule request acceptedAtMs freshId _ => ∀ draft entry,
    scheduledDraft request acceptedAtMs freshId = some draft →
    actorReminderEntryFromDraft draft = some entry →
    ∀ other ∈ taken s.calls, reminderKey other ≠ reminderKey entry
  | .cancel request _ => ∀ key, cancelledReminder request = some key →
    ∀ other ∈ taken s.calls, reminderKey other ≠ key
  | .update i => ∀ call update, s.calls[i]? = some call → call.owes = some update →
    ∀ other ∈ updates (s.others i), other.key = update.key → update.lsn < other.lsn
  | .abandon i => ∀ call update, s.calls[i]? = some call → call.owes = some update →
    ∃ other ∈ updates (s.others i), other.key = update.key ∧ update.lsn < other.lsn
  | .takeDue nowMs limit => ∀ entry ∈ ReminderWheel.takeDue s.wheel nowMs (max (limit.getD 64) 1),
    ∀ update ∈ updates s.calls, update.key ≠ reminderKey entry
  | .fail i requeued => requeued = true ∧ ∃ entry, s.calls[i]? = some (.running [entry])
  | _ => True

end

variable {s t : ServerState} {e : ServerEvent} {wheel : ActorReminderWheel}
    {key : Actor.ActorId × String}
  {entry : ActorReminderEntry} {update : WheelUpdate} {calls : List Call} {call call' : Call}
    {i : Nat}

theorem held_eq_some (h : OneEach wheel) :
    held wheel key = some entry ↔ entry ∈ wheel ∧ reminderKey entry = key := by
  refine ⟨fun hheld => ⟨mem_of_find?_eq_some hheld, by simpa using find?_some hheld⟩, ?_⟩
  rintro ⟨hmem, rfl⟩
  obtain ⟨other, hother⟩ :=
    isSome_iff_exists.mp (find?_isSome (p := (reminderKey · = reminderKey entry)).mpr ⟨entry, hmem, by simp⟩)
  have hsame : reminderKey other = reminderKey entry := by simpa using find?_some hother
  rw [held, hother, inj_on_of_nodup_map h (mem_of_find?_eq_some hother) hmem hsame]

theorem held_upsert (h : OneEach wheel) (entry : ActorReminderEntry)
    (key : Actor.ActorId × String) :
    held (wheel.upsert entry) key = if reminderKey entry =
    key then some entry else held wheel key := by
  refine ext fun other => ?_
  rw [held_eq_some (h.upsert entry), mem_upsert h]
  split_ifs with hother hkey hkey
  · exact ⟨fun hmem => congrArg some hmem.1.symm, fun hsome => ⟨(some.inj hsome).symm, hother ▸ hkey⟩⟩
  · refine ⟨fun hmem => absurd (hother.trans hmem.2) hkey, fun hheld => ?_⟩
    exact absurd (hother.trans ((held_eq_some h).mp hheld).2) hkey
  · refine ⟨fun hmem => absurd (hkey.trans hmem.2.symm) hother, fun hsome => ?_⟩
    exact absurd (congrArg reminderKey (some.inj hsome)) hother
  · exact (held_eq_some h).symm

theorem held_remove (h : OneEach wheel) (actorId : Actor.ActorId) (reminderId : String)
    (key : Actor.ActorId × String) :
    held (wheel.remove actorId reminderId) key = if (actorId, reminderId) =
    key then none else held wheel key := by
  refine ext fun other => ?_
  rw [held_eq_some (h.remove actorId reminderId), mem_remove h]
  split_ifs with hkey
  · subst hkey
    exact ⟨fun hmem => absurd hmem.2 hmem.1.2, nofun⟩
  · rw [held_eq_some h]
    exact ⟨fun hmem => ⟨hmem.1.1, hmem.2⟩, fun hmem => ⟨⟨hmem.1, fun hsame => hkey (hsame.symm.trans hmem.2)⟩, hmem.2⟩⟩

/-- What a log record spells an actor's id as is read back. -/
def Readable (actorId : Actor.ActorId) : Prop :=
  actorIdFromWalParts actorId.kind.asStr actorId.key = some actorId

theorem readable_trim (kind : Actor.ActorKind) {text : String} (h : trim text ≠ "") :
    Readable ⟨kind, trim text⟩ := by
  have hkind : actorKindFromWalStr (trim kind.asStr) = some kind := by cases kind <;> decide
  simp [Readable, actorIdFromWalParts, hkind, trim_trim, h]

theorem readable_of_draft {draft : ActorReminderDraft}
    (h : actorReminderEntryFromDraft draft = some entry) :
    Readable entry.actorId := by
  obtain ⟨actorId, hparts, rfl⟩ := map_eq_some_iff.mp h
  obtain ⟨kind, -, hparts⟩ := bind_eq_some_iff.mp hparts
  split_ifs at hparts with hempty
  cases hparts
  exact readable_trim kind hempty

theorem readable_of_cancelled {request : RuntimeActorReminderCancelRequest}
    {actorId : Actor.ActorId}
    {reminderId : String} (h : cancelledReminder request = some (actorId, reminderId)) :
    Readable actorId := by
  obtain ⟨actorId', hactorId, h⟩ := bind_eq_some_iff.mp h
  split_ifs at h
  cases h
  unfold runtimeActorId at hactorId
  split_ifs at hactorId with hempty
  cases hactorId
  exact readable_trim _ hempty

theorem of_logged (h : s.logged key = some entry) :
    reminderKey entry = key ∧ Readable entry.actorId := by
  obtain ⟨r, -, htells⟩ := LastWord.mem_of_read h
  unfold reminderTells at htells
  split at htells
  · obtain ⟨other, hother, htells⟩ := bind_eq_some_iff.mp htells
    split_ifs at htells with hkey
    cases htells
    exact ⟨hkey, readable_of_draft hother⟩
  · obtain ⟨_, -, htells⟩ := bind_eq_some_iff.mp htells
    split_ifs at htells
    cases htells
  · obtain ⟨_, -, htells⟩ := bind_eq_some_iff.mp htells
    split_ifs at htells
    cases htells
  · cases htells

theorem logged_append (s : ServerState) (record : WalRecord) (calls : List Call)
    (key : Actor.ActorId × String) :
    (s.append record calls).logged key = (reminderTells key record).getD (s.logged key) :=
  LastWord.read_concat ..

theorem ascending_append (h : s.wal.Pairwise fun a b => a.lsn < b.lsn) {record : WalRecord}
    (hnext : s.Next record) :
    (s.wal ++ [record]).Pairwise fun a b => a.lsn < b.lsn :=
  pairwise_append.mpr ⟨h, pairwise_singleton .., fun r hr _ hr' => mem_singleton.mp hr' ▸ hnext r hr⟩

/-! ## Calls go on -/

/-- The calls before and behind one that goes on. -/
theorem exists_around (hi : calls[i]? = some call) :
    ∃ before behind, calls = before ++ call :: behind ∧
    ∀ call', calls.set i call' = before ++ call' :: behind := by
  obtain ⟨hlt, rfl⟩ := List.getElem?_eq_some_iff.mp hi
  exact ⟨calls.take i, calls.drop (i + 1), by simp, fun call' => set_eq_take_append_cons_drop.trans (if_pos hlt)⟩

theorem mem_updates_append {before behind : List Call} :
    update ∈ updates (before ++ call :: behind) ↔
    call.owes = some update ∨ update ∈ updates (before ++ behind) := by
  simp only [updates, filterMap_append, filterMap_cons, mem_append]
  cases call.owes with
  | none => simp
  | some owed => simp [or_left_comm, eq_comm]

/-- A call that owes nothing goes on to one that owes nothing. -/
theorem updates_set (hi : calls[i]? = some call) (howes : call.owes = none)
    (howes' : call'.owes = none) :
    updates (calls.set i call') = updates calls := by
  obtain ⟨before, behind, rfl, hset⟩ := exists_around hi
  simp [hset, updates, howes, howes']

/-- A call goes on that has the same to fire. -/
theorem taken_set (hi : calls[i]? = some call) (hdue : call'.due = call.due) :
    taken (calls.set i call') = taken calls := by
  obtain ⟨before, behind, rfl, hset⟩ := exists_around hi
  simp [hset, taken, hdue]

/-- A call ends that owes an update: the others' are left. -/
theorem mem_updates_iff (hi : calls[i]? = some call) (howes : call.owes = some update)
    (other : WheelUpdate) :
    other ∈ updates calls ↔ other = update ∨ other ∈ updates (calls.set i .ended) := by
  obtain ⟨before, behind, rfl, hset⟩ := exists_around hi
  rw [hset, mem_updates_append, mem_updates_append, howes, Option.some.injEq, eq_comm]
  exact or_congr_right (or_iff_right nofun).symm

theorem due_of_owes (howes : call.owes = some update) : call.due = [] := by
  cases call with
  | scheduling | cancelling | ended => rfl
  | running | firing => cases howes

/-- A call is done with the first that it had to fire. -/
theorem taken_perm (hi : calls[i]? = some call) {due : List ActorReminderEntry}
    (hdue : call.due = entry :: due)
    (hdue' : call'.due = due) : (taken calls).Perm (entry :: taken (calls.set i call')) := by
  obtain ⟨before, behind, rfl, hset⟩ := exists_around hi
  simp only [hset, taken, flatMap_append, flatMap_cons, hdue, hdue', cons_append]
  exact perm_middle

theorem updates_push (calls : List Call) (call : Call) : updates (calls ++ [call]) =
    updates calls ++ call.owes.toList := by
  cases howes : call.owes <;> simp [updates, howes]

theorem taken_push (calls : List Call) (call : Call) :
    taken (calls ++ [call]) = taken calls ++ call.due := by
  simp [taken]

theorem mem_entries_set (hi : calls[i]? = some call) (call' : Call) (hsub : ∀ entry ∈ call'.entries,
    entry ∈ call.entries) (h : ∃ c ∈ calls.set i call', entry ∈ c.entries) :
    ∃ c ∈ calls, entry ∈ c.entries := by
  obtain ⟨c, hc, hentry⟩ := h
  rcases mem_or_eq_of_mem_set hc with hc | rfl
  · exact ⟨c, hc, hentry⟩
  · exact ⟨call, mem_of_getElem? hi, hsub entry hentry⟩

/-! ## Runs -/

/-- The wheel agrees with the log, but for what the calls have still to do. -/
structure Inv (s : ServerState) : Prop where
  one : OneEach s.wheel
  ascending : s.wal.Pairwise fun a b => a.lsn < b.lsn
  readable : ∀ entry, (entry ∈ s.wheel ∨ ∃ call ∈ s.calls, entry ∈ call.entries) → Readable entry.actorId
  /-- The record of an update is in the log. -/
  appended : ∀ update ∈ updates s.calls, ∃ r ∈ s.wal, r.lsn = update.lsn
  oneTaken : OneEach (taken s.calls)
  /-- A run has what the log has of a reminder, and no other call is at it. -/
  taken : ∀ entry ∈ taken s.calls, held s.wheel (reminderKey entry) = none ∧
    s.logged (reminderKey entry) = some entry ∧ ∀ update ∈ updates s.calls, update.key ≠ reminderKey entry
  /-- No earlier than an update is one that makes of the reminder what the log leaves of it. -/
  owed : ∀ update ∈ updates s.calls, ∃ last ∈ updates s.calls, last.key = update.key ∧ update.lsn ≤ last.lsn ∧
    last.value = s.logged update.key
  idle : ∀ key, (∀ update ∈ updates s.calls, update.key ≠ key) → (∀ entry ∈ ReminderWheel.taken s.calls,
    reminderKey entry ≠ key) → held s.wheel key = s.logged key

theorem inv_initial {wal : List WalRecord} (hasc : wal.Pairwise fun a b => a.lsn < b.lsn) :
    Inv (.initial wal) := by
  have hone : OneEach (actorRemindersFromWalRecords wal) := by
    rw [actorRemindersFromWalRecords, orderedByLsn_of_ascending hasc]
    exact (oneEach_reminders wal).1
  have hlogged : ∀ entry, entry ∈ actorRemindersFromWalRecords wal ↔
      (ServerState.initial wal).logged (reminderKey entry) = some entry := mem_actorReminders hasc
  refine ⟨hone, hasc, fun entry hentry => ?_, forall_mem_nil _, nodup_nil, forall_mem_nil _, forall_mem_nil _,
    fun key _ _ => ext fun entry => ?_⟩
  · exact (of_logged ((hlogged entry).mp (hentry.resolve_right (by simp [ServerState.initial])))).2
  · refine (held_eq_some hone).trans ?_
    constructor
    · rintro ⟨hmem, rfl⟩
      exact (hlogged entry).mp hmem
    · intro h
      obtain rfl := (of_logged h).1
      exact ⟨(hlogged entry).mpr h, rfl⟩

section
variable (h : Inv s)
include h

/-- A call has appended its record of a reminder that no run has taken. -/
theorem Inv.append {record : WalRecord} (hnext : s.Next record) (call : Call)
    (howes : call.owes = some update)
    (hlsn : update.lsn = record.lsn) (htells : ∀ other, reminderTells other record =
      if update.key = other then some update.value else none) (hdue : call.due = [])
    (hread : ∀ entry ∈ call.entries, Readable entry.actorId)
    (hfree : ∀ other ∈ ReminderWheel.taken s.calls, reminderKey other ≠ update.key) :
    Inv (s.append record (s.calls ++ [call])) := by
  have hupdates : ∀ other, other ∈ updates (s.calls ++ [call]) ↔ other ∈ updates s.calls ∨ other = update := by
    simp [updates_push, howes]
  have htaken : ReminderWheel.taken (s.calls ++ [call]) = ReminderWheel.taken s.calls := by simp [taken_push, hdue]
  have hlogged : ∀ key, update.key ≠ key → (s.append record (s.calls ++ [call])).logged key = s.logged key := by
    intro key hkey
    rw [logged_append, htells, if_neg hkey, getD_none]
  have hnew : (s.append record (s.calls ++ [call])).logged update.key = update.value := by
    rw [logged_append, htells, if_pos rfl, getD_some]
  refine ⟨h.one, ascending_append h.ascending hnext, ?_, fun other hother => ?_, ?_, fun entry hentry => ?_,
    fun other hother => ?_, fun key hkey hfree' => ?_⟩
  · rintro entry (hentry | ⟨c, hc, hentry⟩)
    · exact h.readable entry (.inl hentry)
    · rcases mem_append.mp hc with hc | hc
      · exact h.readable entry (.inr ⟨c, hc, hentry⟩)
      · exact hread entry (mem_singleton.mp hc ▸ hentry)
  · rcases (hupdates other).mp hother with hother | rfl
    · obtain ⟨r, hr, heq⟩ := h.appended other hother
      exact ⟨r, mem_append_left _ hr, heq⟩
    · exact ⟨record, mem_append_right _ (mem_singleton_self _), hlsn.symm⟩
  · exact htaken ▸ h.oneTaken
  · have hentry : entry ∈ ReminderWheel.taken s.calls := htaken ▸ hentry
    obtain ⟨hheld, hlog, hnone⟩ := h.taken entry hentry
    refine ⟨hheld, (hlogged _ (hfree entry hentry).symm).trans hlog, fun other hother => ?_⟩
    rcases (hupdates other).mp hother with hother | rfl
    · exact hnone other hother
    · exact (hfree entry hentry).symm
  · by_cases hkey : other.key = update.key
    · refine ⟨update, (hupdates _).mpr (.inr rfl), hkey.symm, ?_, hkey ▸ hnew.symm⟩
      rcases (hupdates other).mp hother with hother | rfl
      · obtain ⟨r, hr, heq⟩ := h.appended other hother
        exact hlsn ▸ heq ▸ (hnext r hr).le
      · exact le_refl _
    · obtain ⟨last, hlast, hsame, hle, hvalue⟩ := h.owed other (((hupdates other).mp hother).resolve_right fun heq =>
        hkey (congrArg WheelUpdate.key heq))
      exact ⟨last, (hupdates _).mpr (.inl hlast), hsame, hle, hvalue.trans (hlogged _ (Ne.symm hkey)).symm⟩
  · have hne : update.key ≠ key := hkey update ((hupdates _).mpr (.inr rfl))
    rw [hlogged key hne]
    exact h.idle key (fun other hother => hkey other ((hupdates _).mpr (.inl hother))) (htaken ▸ hfree')

/-- Where a later update of the reminder is left when a call ends, or no other, the last is as the
log leaves it. -/
theorem Inv.owed_others (hi : s.calls[i]? = some call) (howes : call.owes = some update)
    (hlater : ∀ other ∈ updates (s.others i), other.key = update.key →
      ∃ later ∈ updates (s.others i), later.key = update.key ∧ update.lsn < later.lsn) :
    ∀ other ∈ updates (s.others i), ∃ last ∈ updates (s.others i), last.key = other.key ∧
    other.lsn ≤ last.lsn ∧
      last.value = s.logged other.key := by
  have hmem := mem_updates_iff hi howes
  intro other hother
  obtain ⟨last, hlast, hsame, hle, hvalue⟩ := h.owed other ((hmem other).mpr (.inr hother))
  rcases (hmem last).mp hlast with rfl | hlast
  · obtain ⟨later, hin, hkey, hlt⟩ := hlater other hother hsame.symm
    obtain ⟨final, hfinal, hfinalKey, hfinalLe, hfinalValue⟩ := h.owed later ((hmem later).mpr (.inr hin))
    have hleft : final ∈ updates (s.others i) := by
      refine ((hmem final).mp hfinal).resolve_left ?_
      rintro rfl
      exact absurd hfinalLe (not_le.mpr hlt)
    refine ⟨final, hleft, hfinalKey.trans (hkey.trans hsame), hle.trans (hlt.le.trans hfinalLe), ?_⟩
    rw [hfinalValue, hkey, hsame]
  · exact ⟨last, hlast, hsame, hle, hvalue⟩

theorem Inv.updated {wheel' : ActorReminderWheel} (hi : s.calls[i]? = some call)
    (howes : call.owes = some update)
    (hmeets : Meets s (.update i)) (hone : OneEach wheel') (hheld : ∀ key, held wheel' key =
      if update.key = key then update.value else held s.wheel key)
    (hread : ∀ entry ∈ wheel', Readable entry.actorId) :
    Inv { s with wheel := wheel', calls := s.others i } := by
  have hmem := mem_updates_iff hi howes
  have htaken : ReminderWheel.taken (s.others i) = ReminderWheel.taken s.calls :=
    taken_set hi (due_of_owes howes).symm
  have hmeets := hmeets call update hi howes
  refine ⟨hone, h.ascending, fun entry hentry => ?_,
    fun other hother => h.appended other ((hmem other).mpr (.inr hother)),
    htaken ▸ h.oneTaken, fun entry hentry => ?_, ?_, fun key hkey hfree => ?_⟩
  · exact hentry.elim (hread entry) fun hentry => h.readable entry (.inr (mem_entries_set hi .ended nofun hentry))
  · obtain ⟨hnone, hlogged, hfree⟩ := h.taken entry (htaken ▸ hentry)
    refine ⟨?_, hlogged, fun other hother => hfree other ((hmem other).mpr (.inr hother))⟩
    rw [hheld, if_neg (hfree update ((hmem update).mpr (.inl rfl)))]
    exact hnone
  · exact h.owed_others hi howes fun other hother hkey => ⟨other, hother, hkey, hmeets other hother hkey⟩
  · show held wheel' key = s.logged key
    rw [hheld]
    split_ifs with hsame
    · obtain ⟨last, hlast, hlastKey, -, hvalue⟩ := h.owed update ((hmem update).mpr (.inl rfl))
      rcases (hmem last).mp hlast with rfl | hlast
      · exact hsame ▸ hvalue
      · exact absurd (hlastKey.trans hsame) (hkey last hlast)
    · refine h.idle key (fun other hother => ?_) (htaken ▸ hfree)
      rcases (hmem other).mp hother with rfl | hother
      · exact hsame
      · exact hkey other hother

theorem Inv.abandon (hi : s.calls[i]? = some call) (howes : call.owes = some update)
    (hmeets : Meets s (.abandon i)) :
    Inv { s with calls := s.others i } := by
  have hmem := mem_updates_iff hi howes
  have htaken : ReminderWheel.taken (s.others i) = ReminderWheel.taken s.calls :=
    taken_set hi (due_of_owes howes).symm
  obtain ⟨later, hlater, hlaterKey, hlt⟩ := hmeets call update hi howes
  refine ⟨h.one, h.ascending, fun entry hentry => ?_,
    fun other hother => h.appended other ((hmem other).mpr (.inr hother)),
    htaken ▸ h.oneTaken, fun entry hentry => ?_, ?_, fun key hkey hfree => ?_⟩
  · exact h.readable entry (hentry.imp_right (mem_entries_set hi .ended nofun))
  · obtain ⟨hnone, hlogged, hfree⟩ := h.taken entry (htaken ▸ hentry)
    exact ⟨hnone, hlogged, fun other hother => hfree other ((hmem other).mpr (.inr hother))⟩
  · exact h.owed_others hi howes fun _ _ _ => ⟨later, hlater, hlaterKey, hlt⟩
  · refine h.idle key (fun other hother => ?_) (htaken ▸ hfree)
    rcases (hmem other).mp hother with rfl | hother
    · exact hlaterKey ▸ hkey later hlater
    · exact hkey other hother

theorem Inv.takeDue {nowMs : Nat} {limit : Option Nat} (hmeets : Meets s (.takeDue nowMs limit)) :
    let due := ReminderWheel.takeDue s.wheel nowMs (max (limit.getD 64) 1)
    Inv { s with wheel := s.wheel.drop due.length, calls := s.calls ++ [.running due] } := by
  intro due
  have hmeets : ∀ entry ∈ due, ∀ update ∈ updates s.calls, update.key ≠ reminderKey entry := hmeets
  have hwheel : due ++ s.wheel.drop due.length = s.wheel :=
    (prefix_iff_eq_append.mp ((List.take_prefix _ _).trans (List.takeWhile_prefix _)))
  generalize due = due at hmeets hwheel
  generalize s.wheel.drop due.length = rest at hwheel
  have hone : OneEach (due ++ rest) := hwheel ▸ h.one
  rw [OneEach, map_append, nodup_append] at hone
  obtain ⟨hdue, hrest, hdisjoint⟩ := hone
  have hheld : ∀ key, held s.wheel key = (held due key).or (held rest key) := by
    intro key
    rw [← hwheel, held, find?_append]
    rfl
  have hupdates : updates (s.calls ++ [.running due]) = updates s.calls := by simp [updates_push, Call.owes]
  have htaken : ReminderWheel.taken (s.calls ++ [.running due]) = ReminderWheel.taken s.calls ++ due := taken_push ..
  have hin : ∀ entry ∈ due, held s.wheel (reminderKey entry) = some entry :=
    fun entry hentry => (held_eq_some h.one).mpr ⟨hwheel ▸ mem_append_left _ hentry, rfl⟩
  have hapart : ∀ entry ∈ due, ∀ other ∈ ReminderWheel.taken s.calls, reminderKey other ≠ reminderKey entry := by
    intro entry hentry other hother hsame
    have hnone := (h.taken other hother).1
    rw [hsame, hin entry hentry] at hnone
    cases hnone
  refine ⟨hrest, h.ascending, fun entry hentry => ?_, hupdates ▸ h.appended, ?_, fun entry hentry => ?_, ?_,
    fun key hkey hfree => ?_⟩
  · refine h.readable entry ?_
    rw [← hwheel]
    rcases hentry with hentry | ⟨call, hcall, hentry⟩
    · exact .inl (mem_append_right _ hentry)
    · rcases mem_append.mp hcall with hcall | hcall
      · exact .inr ⟨call, hcall, hentry⟩
      · obtain rfl := mem_singleton.mp hcall
        exact .inl (mem_append_left _ hentry)
  · rw [htaken, OneEach, map_append, nodup_append]
    refine ⟨h.oneTaken, hdue, fun key hkey key' hkey' => ?_⟩
    obtain ⟨other, hother, rfl⟩ := mem_map.mp hkey
    obtain ⟨entry, hentry, rfl⟩ := mem_map.mp hkey'
    exact hapart entry hentry other hother
  · show held rest _ = none ∧ s.logged _ = _ ∧ ∀ update ∈ updates (s.calls ++ [.running due]), _
    rw [hupdates]
    rw [htaken] at hentry
    rcases mem_append.mp hentry with hentry | hentry
    · obtain ⟨hnone, hlogged, hfree⟩ := h.taken entry hentry
      exact ⟨(Option.or_eq_none_iff.mp ((hheld _).symm.trans hnone)).2, hlogged, hfree⟩
    · refine ⟨?_, ?_, hmeets entry hentry⟩
      · refine eq_none_iff_forall_ne_some.mpr fun other hother => ?_
        obtain ⟨hother, hsame⟩ := (held_eq_some hrest).mp hother
        exact hdisjoint _ (mem_map_of_mem hentry) _ (mem_map_of_mem hother) hsame.symm
      · rw [← h.idle _ (hmeets entry hentry) (hapart entry hentry)]
        exact hin entry hentry
  · rw [hupdates]
    exact h.owed
  · show held rest key = s.logged key
    rw [hupdates] at hkey
    rw [htaken] at hfree
    have hnone : held due key = none := by
      refine eq_none_iff_forall_ne_some.mpr fun other hother => ?_
      obtain ⟨hother, hsame⟩ := (held_eq_some hdue).mp hother
      exact hfree other (mem_append_right _ hother) hsame
    rw [← h.idle key hkey fun other hother => hfree other (mem_append_left _ hother), hheld, hnone, none_or]

/-- The first of a run has fired: the log has it no more, and nothing else is at it. -/
theorem Inv.fire {due : List ActorReminderEntry} {record : WalRecord}
    (hi : s.calls[i]? = some (.running (entry :: due)))
    (hnext : s.Next record) (htells : ∀ key, reminderTells key record =
      if reminderKey entry = key then some none else none) :
      Inv (s.append record (s.calls.set i (.firing entry due))) := by
  have hupdates : updates (s.calls.set i (.firing entry due)) = updates s.calls := updates_set hi rfl rfl
  have hperm : (ReminderWheel.taken s.calls).Perm (entry :: ReminderWheel.taken (s.calls.set i (.firing entry due))) :=
    taken_perm hi rfl rfl
  obtain ⟨hgone, hone⟩ := nodup_cons.mp ((hperm.map reminderKey).nodup_iff.mp h.oneTaken)
  obtain ⟨hnone, -, hfree⟩ := h.taken entry (hperm.mem_iff.mpr mem_cons_self)
  have hlogged : ∀ key, (s.append record (s.calls.set i (.firing entry due))).logged key =
      if reminderKey entry = key then none else s.logged key := by
    intro key
    rw [logged_append, htells]
    split_ifs <;> rfl
  refine ⟨h.one, ascending_append h.ascending hnext, fun other hother => ?_, fun other hother => ?_, hone,
    fun other hother => ?_, fun other hother => ?_, fun key hkey hfree' => ?_⟩
  · exact h.readable other (hother.imp_right (mem_entries_set hi (.firing entry due) fun _ => id))
  · obtain ⟨r, hr, heq⟩ := h.appended other (hupdates ▸ hother)
    exact ⟨r, mem_append_left _ hr, heq⟩
  · obtain ⟨hheld, hlog, hnot⟩ := h.taken other (hperm.mem_iff.mpr (mem_cons_of_mem _ hother))
    have hne : reminderKey entry ≠ reminderKey other := fun hsame => hgone (hsame ▸ mem_map_of_mem hother)
    exact ⟨hheld, by rw [hlogged, if_neg hne, hlog], fun update hupdate => hnot update (hupdates ▸ hupdate)⟩
  · have hother : other ∈ updates s.calls := hupdates ▸ hother
    obtain ⟨last, hlast, hsame, hle, hvalue⟩ := h.owed other hother
    refine ⟨last, hupdates ▸ hlast, hsame, hle, ?_⟩
    rw [hlogged, if_neg (hfree other hother).symm, hvalue]
  · rw [hlogged]
    split_ifs with hsame
    · exact hsame ▸ hnone
    · refine h.idle key (fun other hother => hkey other (hupdates.symm ▸ hother)) fun other hother => ?_
      rcases mem_cons.mp (hperm.mem_iff.mp hother) with rfl | hother
      · exact hsame
      · exact hfree' other hother

/-- A run puts back the only reminder that it has left. -/
theorem Inv.fail (hi : s.calls[i]? = some (.running [entry])) :
    Inv { s with wheel := s.wheel.upsert entry, calls := s.others i } := by
  have hupdates : updates (s.others i) = updates s.calls := updates_set hi rfl rfl
  have hperm : (ReminderWheel.taken s.calls).Perm (entry :: ReminderWheel.taken (s.others i)) := taken_perm hi rfl rfl
  obtain ⟨hgone, hone⟩ := nodup_cons.mp ((hperm.map reminderKey).nodup_iff.mp h.oneTaken)
  obtain ⟨hnone, hlog, hfree⟩ := h.taken entry (hperm.mem_iff.mpr mem_cons_self)
  refine ⟨h.one.upsert entry, h.ascending, fun other hother => ?_, fun other hother => ?_, hone,
    fun other hother => ?_, fun other hother => ?_, fun key hkey hfree' => ?_⟩
  · rcases hother with hother | hother
    · rw [mem_upsert h.one] at hother
      split_ifs at hother
      · exact hother ▸ h.readable entry (.inr ⟨_, mem_of_getElem? hi, mem_cons_self⟩)
      · exact h.readable other (.inl hother)
    · exact h.readable other (.inr (mem_entries_set hi .ended nofun hother))
  · exact h.appended other (hupdates ▸ hother)
  · obtain ⟨hheld, hlog, hnot⟩ := h.taken other (hperm.mem_iff.mpr (mem_cons_of_mem _ hother))
    have hne : reminderKey entry ≠ reminderKey other := fun hsame => hgone (hsame ▸ mem_map_of_mem hother)
    exact ⟨by rw [held_upsert h.one, if_neg hne, hheld], hlog, fun update hupdate => hnot update (hupdates ▸ hupdate)⟩
  · obtain ⟨last, hlast, hrest⟩ := h.owed other (hupdates ▸ hother)
    exact ⟨last, hupdates ▸ hlast, hrest⟩
  · show held (s.wheel.upsert entry) key = s.logged key
    rw [held_upsert h.one]
    split_ifs with hsame
    · exact hsame ▸ hlog.symm
    · refine h.idle key (fun other hother => hkey other (hupdates.symm ▸ hother)) fun other hother => ?_
      rcases mem_cons.mp (hperm.mem_iff.mp hother) with rfl | hother
      · exact hsame
      · exact hfree' other hother

/-- A run goes on, or ends, with the same to fire. -/
theorem Inv.goesOn (hi : s.calls[i]? = some call) (howes : call.owes = none)
    (howes' : call'.owes = none)
    (hdue : call'.due = call.due) (hentries : ∀ entry ∈ call'.entries, entry ∈ call.entries) :
    Inv { s with calls := s.calls.set i call' } := by
  have hupdates : updates (s.calls.set i call') = updates s.calls := updates_set hi howes howes'
  have htaken : ReminderWheel.taken (s.calls.set i call') = ReminderWheel.taken s.calls := taken_set hi hdue
  refine ⟨h.one, h.ascending, fun other hother => ?_, hupdates ▸ h.appended, htaken ▸ h.oneTaken,
    fun entry hentry => ?_, fun other hother => ?_, fun key hkey hfree => ?_⟩
  · exact h.readable other (hother.imp_right (mem_entries_set hi _ hentries))
  · rw [hupdates]
    exact h.taken entry (htaken ▸ hentry)
  · rw [hupdates] at hother ⊢
    exact h.owed other hother
  · exact h.idle key (hupdates ▸ hkey) (htaken ▸ hfree)

theorem Inv.step (hmeets : Meets s e) (hstep : ServerStep s e t) : Inv t := by
  have hwheel : ∀ entry ∈ s.wheel, Readable entry.actorId := fun entry hentry => h.readable entry (.inl hentry)
  have hown : ∀ {i call}, s.calls[i]? = some call → ∀ entry ∈ Call.entries call, Readable entry.actorId :=
    fun hi entry hentry => h.readable entry (.inr ⟨_, mem_of_getElem? hi, hentry⟩)
  cases hstep with
  | @schedule request acceptedAtMs freshId record draft entry hdraft hpayload hentry hnext =>
    refine h.append hnext (.scheduling record.lsn entry) rfl rfl (fun key => ?_) rfl ?_
      (hmeets draft entry hdraft hentry)
    · simp [reminderTells, hpayload, hentry]
    · simpa [Call.entries] using readable_of_draft hentry
  | @cancel request record actorId reminderId cancelledAtMs hrequest hpayload hnext =>
    have hreadable : actorIdFromWalParts _ _ = some actorId := readable_of_cancelled hrequest
    refine h.append hnext (.cancelling record.lsn actorId reminderId) rfl rfl (fun key => ?_) rfl nofun
      (hmeets _ hrequest)
    simp [reminderTells, hpayload, hreadable]
  | @scheduled i lsn entry hi =>
    refine h.updated hi rfl hmeets (h.one.upsert entry) (held_upsert h.one entry) fun other hother => ?_
    rw [mem_upsert h.one] at hother
    split_ifs at hother
    · exact hother ▸ hown hi entry mem_cons_self
    · exact hwheel other hother
  | @cancelled i lsn actorId reminderId hi =>
    exact h.updated hi rfl hmeets (h.one.remove actorId reminderId) (held_remove h.one actorId reminderId)
      fun other hother => hwheel other ((mem_remove h.one ..).mp hother).1
  | abandon hi howes => exact h.abandon hi howes hmeets
  | takeDue hdue => exact hdue ▸ h.takeDue hmeets
  | @fire i record entry due firedAtMs hi hpayload hnext =>
    have hreadable : actorIdFromWalParts _ _ = some entry.actorId := hown hi entry mem_cons_self
    refine h.fire hi hnext fun key => ?_
    rw [reminderTells, hpayload]
    simp only [hreadable, bind_some]
    rfl
  | fired hi => exact h.goesOn hi rfl rfl rfl fun _ => mem_cons_of_mem _
  | fail hi hcall =>
    obtain ⟨rfl, other, hsame⟩ := hmeets
    obtain rfl := some.inj (hsame.symm.trans hi)
    rcases hcall with hcall | hcall
    · cases hcall
      exact h.fail hi
    · cases hcall
  | finish hi => exact h.goesOn hi rfl rfl rfl nofun

end

/-- Where the updates of a reminder keep the order of their records and nothing else is done with
one that a run has taken, the wheel has exactly the reminders of the log whenever no call is in
flight. -/
theorem wheel_equals_log {wal : List WalRecord} (hasc : wal.Pairwise fun a b => a.lsn < b.lsn)
    {s : ServerState} (h : Reaches ServerStep Meets (.initial wal) s)
    (hended : ∀ call ∈ s.calls, call = .ended) :
    s.wheel.Perm (actorRemindersFromWalRecords s.wal) := by
  have hinv : Inv s := h.invariant (I := Inv) (fun _ _ _ hs hmeets hstep => hs.step hmeets hstep) (inv_initial hasc)
  have hlog : OneEach (actorRemindersFromWalRecords s.wal) := (inv_initial hinv.ascending).one
  refine (perm_ext_iff_of_nodup (.of_map _ hinv.one) (.of_map _ hlog)).mpr fun entry => ?_
  rw [mem_actorReminders hinv.ascending]
  have hsame : held s.wheel (reminderKey entry) = s.logged (reminderKey entry) := by
    refine hinv.idle _ (fun update hupdate => ?_) fun other hother => ?_
    · obtain ⟨call, hcall, howes⟩ := mem_filterMap.mp hupdate
      rw [hended call hcall] at howes
      cases howes
    · obtain ⟨call, hcall, hdue⟩ := mem_flatMap.mp hother
      rw [hended call hcall] at hdue
      cases hdue
  change _ ↔ s.logged _ = _
  rw [← hsame, held_eq_some hinv.one]
  exact (and_iff_left rfl).symm

def reminder (reminderId : String) (dueAtMs : Nat) : ActorReminderEntry :=
  ⟨⟨.room, "lobby"⟩, reminderId, dueAtMs, none⟩

def logRecord (lsn : Nat) (payload : WalPayload) : WalRecord :=
  ⟨lsn, 0, 1, "node", 0, 1, .strict, payload, none⟩

def scheduledRecord (lsn : Nat) (reminderId : String) (dueAtMs : Nat) : WalRecord :=
  logRecord lsn (.actorReminderScheduled ⟨"room", "lobby", reminderId, dueAtMs, none⟩)

/-- One reminder is in the log; another is scheduled, and scheduled again, while it runs. -/
theorem wheel_equals_log_sample :
    [reminder "b" 7].Perm (actorRemindersFromWalRecords [scheduledRecord 1 "a" 1,
    scheduledRecord 2 "b" 9, scheduledRecord 3 "b" 7,
    logRecord 4 (.actorReminderFired "room" "lobby" "a" 1 5)]) := by
  have hstart : Reaches ServerStep Meets _ _ := .refl (.initial [scheduledRecord 1 "a" 1])
  have htaken := hstart.take (e := .takeDue 5 none) (.takeDue rfl) (by intro entry _ update hupdate; cases hupdate)
  have hscheduled := htaken.take (e := .schedule ⟨.room, "lobby", some "b", some 9, none, none⟩ 5 ""
    (scheduledRecord 2 "b" 9)) (.schedule rfl rfl rfl (by rintro r (_ | ⟨_, ⟨⟩⟩); decide)) (by
    rintro draft entry ⟨⟩ ⟨⟩ other (_ | ⟨_, ⟨⟩⟩)
    decide)
  have hagain := hscheduled.take (e := .schedule ⟨.room, "lobby", some "b", some 7, none, none⟩ 5 ""
    (scheduledRecord 3 "b" 7)) (.schedule rfl rfl rfl (by rintro r (_ | ⟨_, _ | ⟨_, ⟨⟩⟩⟩) <;> decide)) (by
    rintro draft entry ⟨⟩ ⟨⟩ other (_ | ⟨_, ⟨⟩⟩)
    decide)
  have hfirst := hagain.take (e := .update 1) (.scheduled rfl) (by
    rintro _ _ ⟨⟩ ⟨⟩ other (_ | ⟨_, ⟨⟩⟩) _
    decide)
  have hsecond := hfirst.take (e := .update 2) (.scheduled rfl) (by
    rintro _ _ ⟨⟩ ⟨⟩ other ⟨⟩)
  have hfiring := hsecond.take (e := .fire 0 (logRecord 4 (.actorReminderFired "room" "lobby" "a" 1 5)))
    (.fire rfl rfl (by rintro r (_ | ⟨_, _ | ⟨_, _ | ⟨_, ⟨⟩⟩⟩⟩) <;> decide)) (by exact trivial)
  have hended := (hfiring.take (e := .fired 0) (.fired rfl) (by exact trivial)).take (e := .finish 0) (.finish rfl)
    (by exact trivial)
  exact wheel_equals_log (pairwise_singleton ..) hended (by
    simp [ServerState.initial, ServerState.others, ServerState.append])

/-- Two reminders are due; the behavior of the first fails, and the second is in no wheel. -/
theorem second_due_lost :
    ¬ ∀ s, Reaches ServerStep (fun _ _ => True) (.initial [scheduledRecord 1 "a" 1,
    scheduledRecord 2 "b" 2]) s →
    (∀ call ∈ s.calls, call = .ended) → s.wheel.Perm (actorRemindersFromWalRecords s.wal) := by
  intro hall
  have hstart : Reaches ServerStep (fun _ _ => True) _ _ :=
    .refl (.initial [scheduledRecord 1 "a" 1, scheduledRecord 2 "b" 2])
  have hfailed := (hstart.take (e := .takeDue 5 none) (.takeDue rfl) (by trivial)).take (e := .fail 0 true)
    (.fail rfl (.inl rfl)) (by trivial)
  have hlength := (hall _ hfailed (by simp [ServerState.initial, ServerState.others])).length_eq
  exact absurd hlength (by decide)

end NextDb.Api.ReminderWheel
