import NextDb.Api.Connections
import NextDb.Lib.Entries

/-!
# The client's copy of a live query

The client keeps the last response of a live query. It is sent a result, or the diff to the last
response, which it merges into its copy. Frames arrive in the order in which they are sent; the
handling of each reads the copy, waits for the client's cache, and stores the new copy, and nobody
waits for it before the next frame is handled. Frames are lost with the connection, and the client
then subscribes anew.

* `copyOf_mergeLiveQueryDiff`: a diff makes of a copy of the previous response one of the next.
* `copy_follows`: where a frame of the query is handled only after the one before it, the client has
  a copy of the last response that the server keeps for the query once it has handled what is under
  way.
-/

namespace NextDb.Api.QueryCopies

open Run List Option Frames RecordMatch LiveQuery Connections

/-! ## The client -/

def setRecord (recordsByKey : BTreeMap String DbRecord) (record : DbRecord) :
    BTreeMap String DbRecord :=
  recordsByKey.insert record.key record

def mergeLiveQueryDiff (previous : Option ListRecordsResponse) (diff : RecordQueryDiff) :
    ListRecordsResponse :=
  let recordsByKey := (previous.elim [] ListRecordsResponse.records).foldl setRecord ∅
  let recordsByKey := (diff.removed.map RecordQueryRemovedRecord.key).foldl (·.erase ·) recordsByKey
  let recordsByKey := diff.updated.foldl setRecord (diff.added.foldl setRecord recordsByKey)
  { table := previous.elim diff.table ListRecordsResponse.table
    records := diff.keys.filterMap (recordsByKey[·]?)
    nextAfterKey := diff.nextAfterKey
    nextCursor := diff.nextCursor
    hasMore := diff.hasMore }

/-- The frame is a result or a diff of the query. -/
def isOf (queryId : String) : ServerFrame → Bool
  | .queryResult other _ _ _ | .queryDiff other _ _ _ => decide (other = queryId)
  | _ => false

/-- A frame of the query that is handled: what it found as the copy, and is to store. -/
structure Handling where
  frame : ServerFrame
  previousQueryResult : Option ListRecordsResponse

/-- What the handling of a frame stores. A diff that found no copy has asked for the query anew. -/
def Handling.store (self : Handling) (copy : Option ListRecordsResponse) :
    Option ListRecordsResponse :=
  match self.frame, self.previousQueryResult with
  | .queryResult _ response _ _, _ => some response
  | .queryDiff _ diff _ _, some previous => some (mergeLiveQueryDiff (some previous) diff)
  | _, _ => copy

/-- What a frame makes of the copy of a query, handled at once. -/
def handleFrame (queryId : String) (copy : Option ListRecordsResponse) (frame : ServerFrame) :
    Option ListRecordsResponse :=
  if isOf queryId frame then Handling.store ⟨frame, copy⟩ copy else copy

/-- Without the copy that it had, the client ends up with none or with the same. -/
theorem handleFrames_none (queryId : String) (frames : List ServerFrame)
    (copy : Option ListRecordsResponse) :
    frames.foldl (handleFrame queryId) none = none ∨
      frames.foldl (handleFrame queryId) none = frames.foldl (handleFrame queryId) copy := by
  induction frames generalizing copy with
  | nil => exact .inl rfl
  | cons frame frames ih =>
    rw [foldl_cons, foldl_cons]
    by_cases hof : isOf queryId frame = true
    · cases frame with
      | queryResult => exact .inr (by simp [handleFrame, hof, Handling.store])
      | queryDiff => simpa [handleFrame, hof, Handling.store] using ih _
      | _ => cases hof
    · simpa [handleFrame, hof] using ih copy

theorem handleFrame_queryDiff (queryId : String) (copy : Option ListRecordsResponse)
    (diff : RecordQueryDiff)
    (currentLsn : Nat) (resultId : String) :
    handleFrame queryId copy (.queryDiff queryId diff currentLsn resultId) =
    copy.map fun copy => mergeLiveQueryDiff (some copy) diff := by
  cases copy <;> simp [handleFrame, isOf, Handling.store]

theorem store_none (handling : Handling) (copy : Option ListRecordsResponse) :
    handling.store none = none ∨ handling.store none = handling.store copy := by
  unfold Handling.store
  split
  · exact .inr rfl
  · exact .inr rfl
  · exact .inl rfl

/-! ## Copies -/

/-- The comparison of JSON values is an equivalence. -/
structure ComparesValues (lib : QueryLibrary) : Prop where
  refl : ∀ a, lib.valueEq a a = true
  trans : ∀ a b c, lib.valueEq a b = true → lib.valueEq b c = true → lib.valueEq a c = true

/-- Rows that only the comparison of values can tell apart, and does not. -/
structure SameRow (lib : QueryLibrary) (a b : DbRecord) : Prop where
  table : a.table = b.table
  key : a.key = b.key
  updatedAtMs : a.updatedAtMs = b.updatedAtMs
  lsn : a.lsn = b.lsn
  path : a.path = b.path
  value : lib.valueEq a.value.json b.value.json = true

/-- The same page, with the same rows in the same order. -/
structure CopyOf (lib : QueryLibrary) (copy response : ListRecordsResponse) : Prop where
  table : copy.table = response.table
  records : Forall₂ (SameRow lib) copy.records response.records
  nextAfterKey : copy.nextAfterKey = response.nextAfterKey
  nextCursor : copy.nextCursor = response.nextCursor
  hasMore : copy.hasMore = response.hasMore

/-- The rows are of the table, and of distinct keys. -/
structure IsPage (table : String) (response : ListRecordsResponse) : Prop where
  ofTable : response.table = table
  rows : ∀ record ∈ response.records, record.table = table
  keys : (response.records.map DbRecord.key).Nodup

section Merge

variable {lib : QueryLibrary} {table key : String} {record : DbRecord}

theorem SameRow.refl (hlib : ComparesValues lib) (record : DbRecord) : SameRow lib record record :=
  ⟨rfl, rfl, rfl, rfl, rfl, hlib.refl _⟩

theorem CopyOf.refl (hlib : ComparesValues lib) (response : ListRecordsResponse) :
    CopyOf lib response response :=
  ⟨rfl, forall₂_same.mpr fun record _ => .refl hlib record, rfl, rfl, rfl⟩

/-- A row that is not found changed is the row before, but for what its copy may be told from it by.
-/
theorem SameRow.unchanged (hlib : ComparesValues lib) {copy previous : DbRecord}
    (h : SameRow lib copy previous)
    (htable : previous.table = record.table) (hkey : previous.key = record.key)
    (hsame : recordQueryRecordChanged lib previous record = false) : SameRow lib copy record := by
  simp only [recordQueryRecordChanged, Bool.or_eq_false_iff, bne_eq_false_iff_eq, Bool.not_eq_false'] at hsame
  obtain ⟨⟨⟨hlsn, hupdated⟩, hpath⟩, hvalue⟩ := hsame
  exact ⟨h.table.trans htable, h.key.trans hkey, h.updatedAtMs.trans hupdated, h.lsn.trans hlsn,
    h.path.trans hpath, hlib.trans _ _ _ h.value hvalue⟩

/-- The last of the rows with a key is the one that the map has there. -/
theorem getElem?_setRecords (records : List DbRecord) (recordsByKey : BTreeMap String DbRecord) :
    (records.foldl setRecord recordsByKey)[key]? =
    (records.reverse.find? (·.key == key)).or recordsByKey[key]? := by
  induction records generalizing recordsByKey with
  | nil => rfl
  | cons first rest ih =>
    rw [foldl_cons, ih, setRecord, Std.ExtTreeMap.getElem?_insert, reverse_cons, find?_append]
    by_cases hkey : first.key = key
    · simp [hkey]
    · simp [hkey]

/-- What a filter leaves in of rows of which one has a key. -/
theorem find?_kept {rows : List DbRecord} (kept : DbRecord → Bool) (hrecord : record ∈ rows)
    (hone : ∀ other ∈ rows, other.key = record.key → other = record) :
    (rows.filter kept).reverse.find? (·.key == record.key) =
    if kept record then some record else none := by
  have hkey : ∀ other ∈ (rows.filter kept).reverse, (other.key == record.key) = true → other = record :=
    fun other hother hkey => hone other (mem_filter.mp (mem_reverse.mp hother)).1 (beq_iff_eq.mp hkey)
  cases hfound : (rows.filter kept).reverse.find? (·.key == record.key) with
  | none =>
    rw [if_neg]
    intro hkept
    exact absurd (beq_self_eq_true _) (find?_eq_none.mp hfound record
      (mem_reverse.mpr (mem_filter.mpr ⟨hrecord, hkept⟩)))
  | some other =>
    have hmem := mem_of_find?_eq_some hfound
    obtain rfl := hkey other hmem (find?_some (p := fun other : DbRecord => other.key == record.key) hfound)
    rw [if_pos (mem_filter.mp (mem_reverse.mp hmem)).2]

theorem find?_of_copy {copies records : List DbRecord} {previous : DbRecord}
    (h : Forall₂ (SameRow lib) copies records)
    (hfound : records.find? (·.key == key) = some previous) :
    ∃ copy, copies.find? (·.key == key) = some copy ∧ SameRow lib copy previous := by
  induction h with
  | nil => cases hfound
  | cons hsame _ ih =>
    rw [find?_cons, hsame.key]
    rw [find?_cons] at hfound
    split at hfound
    · exact ⟨_, rfl, some.inj hfound ▸ hsame⟩
    · exact ih hfound

theorem forall₂_filterMap {rows : List DbRecord} {find : String → Option DbRecord}
    (h : ∀ record ∈ rows, ∃ copy, find record.key = some copy ∧ SameRow lib copy record) :
    Forall₂ (SameRow lib) ((rows.map DbRecord.key).filterMap find) rows := by
  induction rows with
  | nil => exact .nil
  | cons record rows ih =>
    obtain ⟨copy, hfound, hsame⟩ := h record mem_cons_self
    rw [map_cons, filterMap_cons_some hfound]
    exact .cons hsame (ih fun other hother => h other (mem_cons_of_mem record hother))

/-- A diff makes of a copy of the previous response one of the next. -/
theorem copyOf_mergeLiveQueryDiff (hlib : ComparesValues lib)
    {copy previous next : ListRecordsResponse}
    (deletedHints : RecordQueryDeletedHints) (hcopy : CopyOf lib copy previous)
    (hprevious : IsPage table previous) (hnext : IsPage table next) :
    CopyOf lib (mergeLiveQueryDiff (some copy) (recordQueryDiff lib previous next deletedHints)) next := by
  refine ⟨hcopy.table.trans (hprevious.ofTable.trans hnext.ofTable.symm), ?_, rfl, rfl, rfl⟩
  refine forall₂_filterMap fun record hrecord => ?_
  have hone : ∀ other ∈ next.records, other.key = record.key → other = record := fun other hother hkey =>
    inj_on_of_nodup_map hnext.keys hother hrecord hkey
  dsimp only [recordQueryDiff]
  rw [getElem?_setRecords, find?_kept _ hrecord hone, getElem?_setRecords, find?_kept _ hrecord hone,
    Entries.getElem?_foldl_erase, getElem?_setRecords]
  cases hbefore : previousByKey previous record.key with
  | none => exact ⟨record, by simp, .refl hlib record⟩
  | some before =>
    cases hchanged : recordQueryRecordChanged lib before record with
    | true => exact ⟨record, by simp [hchanged], .refl hlib record⟩
    | false =>
      obtain ⟨kept, hkept, hsame⟩ := find?_of_copy (forall₂_reverse_iff.mpr hcopy.records) hbefore
      have hin : record.key ∈ next.records.map DbRecord.key := mem_map_of_mem hrecord
      have hkey : before.key = record.key := by simpa using find?_some hbefore
      have htable := (hprevious.rows before (mem_reverse.mp (mem_of_find?_eq_some hbefore))).trans
        (hnext.rows record hrecord).symm
      have hremoved : record.key ∉
        ((previous.records.filter fun record => record.key ∉ next.records.map DbRecord.key).map
          (removedRecord deletedHints)).map RecordQueryRemovedRecord.key := by
        intro hmem
        obtain ⟨_, hmem, hremoved⟩ := List.mem_map.mp hmem
        obtain ⟨old, hold, rfl⟩ := List.mem_map.mp hmem
        have hout : old.key ∉ next.records.map DbRecord.key := by simpa using (mem_filter.mp hold).2
        have hremoved : old.key = record.key := hremoved
        exact hout (hremoved ▸ hin)
      refine ⟨kept, ?_, hsame.unchanged hlib htable hkey hchanged⟩
      rw [if_neg hremoved]
      simp [hchanged, hkept]

end Merge

/-! ## A query of a connection -/

/-- What the server knows of the query, the frames that the client has not begun to handle, the
oldest first, those of the query that it is handling, the client's copy, and whether it has ever
dropped one. -/
structure QueryState where
  subscription : Option RecordQuerySubscription
  inFlight : List ServerFrame
  handling : List Handling
  copy : Option ListRecordsResponse
  dropped : Bool

/-- The copy once the frames under way are handled, each after the one before it. -/
def QueryState.settled (s : QueryState) (queryId : String) : Option ListRecordsResponse :=
  s.inFlight.foldl (handleFrame queryId) (s.handling.foldl (fun copy handling => handling.store copy) s.copy)

/-- Answers of the server, and what the client makes of them. -/
inductive QueryEvent where
  /-- The query is evaluated, for a frame that subscribes to it or for a batch of events. -/
  | answer (subscription : RecordQuerySubscription) (evaluation : RecordQueryEvaluation)
  | unsubscribe
  /-- The client begins to handle a frame. -/
  | begin
  | store (i : Nat)
  /-- The cache fails, and the handling of a frame with it. -/
  | fail (i : Nat)
  | drop
  /-- The connection is lost, with what is under way. -/
  | disconnect

/-- What each event does to the subscription and the client's copy. -/
inductive QueryStep (lib : QueryLibrary) (limits : LiveQueryLimits) (queryId : String) :
    QueryState → QueryEvent → QueryState → Prop where
  | subscribe {s : QueryState} {subscription currentLsn evaluation frame} :
    subscription.queryId = queryId → subscription.lastResponse = none →
    prepareRecordQueryEvaluation lib limits currentLsn subscription subscription.lastResultId.isNone [] evaluation =
      .ok frame →
    QueryStep lib limits queryId s (.answer subscription evaluation)
      { s with
        subscription := some (frame.elim subscription fun _ => subscription.applySnapshot evaluation)
        inFlight := s.inFlight ++ frame.toList }
  | refresh {s : QueryState} {subscription currentLsn deletedHints evaluation frame} :
    s.subscription = some subscription →
    prepareRecordQueryEvaluation lib limits currentLsn subscription false deletedHints evaluation = .ok frame →
    QueryStep lib limits queryId s (.answer subscription evaluation)
      { s with
        subscription := some (frame.elim subscription fun _ => subscription.applySnapshot evaluation)
        inFlight := s.inFlight ++ frame.toList }
  | unsubscribe {s : QueryState} : QueryStep lib limits queryId s .unsubscribe { s with subscription := none }
  | skip {s : QueryState} {frame rest} : s.inFlight = frame :: rest → isOf queryId frame = false →
    QueryStep lib limits queryId s .begin { s with inFlight := rest }
  | begin {s : QueryState} {frame rest} : s.inFlight = frame :: rest → isOf queryId frame = true →
    QueryStep lib limits queryId s .begin { s with inFlight := rest, handling := s.handling ++ [⟨frame, s.copy⟩] }
  | store {s : QueryState} {i handling} : s.handling[i]? = some handling →
    QueryStep lib limits queryId s (.store i)
      { s with handling := s.handling.eraseIdx i, copy := handling.store s.copy }
  | fail {s : QueryState} {i handling} : s.handling[i]? = some handling →
    QueryStep lib limits queryId s (.fail i) { s with handling := s.handling.eraseIdx i }
  | drop {s : QueryState} : QueryStep lib limits queryId s .drop { s with copy := none, dropped := true }
  | disconnect {s : QueryState} :
    QueryStep lib limits queryId s .disconnect { s with subscription := none, inFlight := [] }

/-- Evaluating the query returns a page of its table. The client begins to handle a frame of the
query when it has handled the one before, and no handling fails. -/
def Meets (table queryId : String) (s : QueryState) : QueryEvent → Prop
  | .answer _ evaluation => IsPage table evaluation.response
  | .begin => ∀ frame ∈ s.inFlight.head?, isOf queryId frame = true → s.handling = []
  | .fail _ => False
  | _ => True

section Runs

variable {lib : QueryLibrary} {limits : LiveQueryLimits} {table queryId : String} {s t : QueryState}

/-- The server keeps a page, and the client ends up with a copy of it, unless it has dropped one. -/
structure Follows (lib : QueryLibrary) (table queryId : String) (dropped : Bool)
    (copy : Option ListRecordsResponse) (subscription : RecordQuerySubscription) : Prop where
  id : subscription.queryId = queryId
  page : ∀ response, subscription.lastResponse = some response → IsPage table response
  copies : ∀ response, subscription.lastResponse = some response → ∀ held, copy = some held → CopyOf lib held response
  holds : subscription.lastResponse.isSome → copy.isSome ∨ dropped = true

/-- One frame is handled at a time, and what is stored then follows the subscription. -/
structure Inv (lib : QueryLibrary) (table queryId : String) (s : QueryState) : Prop where
  one : s.handling.length ≤ 1
  follows : ∀ subscription, s.subscription = some subscription →
    Follows lib table queryId s.dropped (s.settled queryId) subscription

/-- A copy is dropped: the client ends up with none, or with the same. -/
theorem settled_drop (hone : s.handling.length ≤ 1) (queryId : String) :
    QueryState.settled { s with copy := none, dropped := true } queryId = none ∨
    QueryState.settled { s with copy := none, dropped := true } queryId = s.settled queryId := by
  unfold QueryState.settled
  match hhandling : s.handling with
  | [] => exact handleFrames_none queryId s.inFlight s.copy
  | [handling] =>
    rcases store_none handling s.copy with hnone | hsame
    · rw [foldl_cons, foldl_nil, hnone, foldl_cons, foldl_nil]
      exact handleFrames_none queryId s.inFlight _
    · exact .inr (by rw [foldl_cons, foldl_nil, hsame, foldl_cons, foldl_nil])
  | _ :: _ :: _ => simp [hhandling] at hone

/-- What is sent of an evaluation makes of the client's copy one of the new response. -/
theorem Follows.answer (hlib : ComparesValues lib) {dropped : Bool}
    {copy : Option ListRecordsResponse}
    {subscription : RecordQuerySubscription}
    (h : Follows lib table queryId dropped copy subscription)
    {currentLsn : Nat} {force : Bool} {deletedHints : RecordQueryDeletedHints}
    {evaluation : RecordQueryEvaluation}
    {frame : Option ServerFrame} (hpage : IsPage table evaluation.response)
    (hframe : prepareRecordQueryEvaluation lib limits currentLsn subscription force deletedHints evaluation = .ok frame) :
    Follows lib table queryId dropped (frame.toList.foldl (handleFrame queryId) copy)
      (frame.elim subscription fun _ => subscription.applySnapshot evaluation) := by
  have hlast : ∀ response, (subscription.applySnapshot evaluation).lastResponse = some response →
      evaluation.response = response := by
    intro response hresponse
    simp only [RecordQuerySubscription.applySnapshot] at hresponse
    split at hresponse
    · exact some.inj hresponse
    · cases hresponse
  have hanswered : ∀ {next : Option ListRecordsResponse},
    (∀ held, next = some held → CopyOf lib held evaluation.response) →
      (next.isSome ∨ dropped = true) →
      Follows lib table queryId dropped next (subscription.applySnapshot evaluation) := fun hcopies hholds =>
    ⟨h.id, fun response hresponse => hlast response hresponse ▸ hpage,
      fun response hresponse held hheld => hlast response hresponse ▸ hcopies held hheld, fun _ => hholds⟩
  have hresult : Follows lib table queryId dropped
      (handleFrame queryId copy (.queryResult subscription.queryId evaluation.response currentLsn evaluation.resultId))
      (subscription.applySnapshot evaluation) := by
    rw [handleFrame, isOf, if_pos (decide_eq_true h.id)]
    exact hanswered (fun held hheld => some.inj hheld ▸ .refl hlib _) (.inl rfl)
  unfold prepareRecordQueryEvaluation at hframe
  split at hframe
  · obtain rfl := Except.ok.inj hframe
    exact h
  · obtain ⟨_, -, hframe⟩ := bind_eq_ok.mp hframe
    split at hframe
    · obtain rfl := Except.ok.inj hframe
      cases hprevious : subscription.lastResponse with
      | none => exact hresult
      | some previous =>
        show Follows lib table queryId dropped (handleFrame queryId copy (.queryDiff subscription.queryId
          (recordQueryDiff lib previous evaluation.response deletedHints) currentLsn evaluation.resultId)) _
        rw [h.id, handleFrame_queryDiff]
        refine hanswered (fun held hheld => ?_) ?_
        · obtain ⟨before, hbefore, rfl⟩ := map_eq_some_iff.mp hheld
          exact copyOf_mergeLiveQueryDiff hlib deletedHints (h.copies previous hprevious before hbefore)
            (h.page previous hprevious) hpage
        · rw [isSome_map]
          exact h.holds (by rw [hprevious]; rfl)
    · obtain rfl := Except.ok.inj hframe
      exact hresult

theorem Inv.step (hlib : ComparesValues lib) (h : Inv lib table queryId s) {e : QueryEvent}
    (hmeets : Meets table queryId s e) (hstep : QueryStep lib limits queryId s e t) :
    Inv lib table queryId t := by
  cases hstep with
  | subscribe hid hnew hframe =>
    refine ⟨h.one, ?_⟩
    rintro _ ⟨⟩
    rw [QueryState.settled, foldl_append]
    exact Follows.answer hlib ⟨hid, by simp [hnew], by simp [hnew], by simp [hnew]⟩ hmeets hframe
  | refresh hsubscription hframe =>
    refine ⟨h.one, ?_⟩
    rintro _ ⟨⟩
    rw [QueryState.settled, foldl_append]
    exact (h.follows _ hsubscription).answer hlib hmeets hframe
  | unsubscribe | disconnect => exact ⟨h.one, fun _ hnone => by cases hnone⟩
  | @skip frame rest hframes hother =>
    have hsettled : QueryState.settled { s with inFlight := rest } queryId = s.settled queryId := by
      rw [QueryState.settled, QueryState.settled, hframes, foldl_cons, handleFrame, hother]
      rfl
    exact ⟨h.one, fun subscription hsubscription => hsettled ▸ h.follows subscription hsubscription⟩
  | @begin frame rest hframes hof =>
    -- nothing else of the query is handled, so what the handling finds is what it stores to
    have hnone : s.handling = [] := hmeets frame (by rw [hframes]; rfl) hof
    have hsettled : QueryState.settled
      { s with inFlight := rest, handling := s.handling ++ [⟨frame, s.copy⟩] } queryId =
        s.settled queryId := by
      simp [QueryState.settled, hframes, hnone, handleFrame, hof]
    refine ⟨by simp [hnone], fun subscription hsubscription => hsettled ▸ h.follows subscription hsubscription⟩
  | @store i handling hi =>
    obtain ⟨only, hhandling⟩ := length_eq_one_iff.mp (le_antisymm h.one (length_pos_of_mem (mem_of_getElem? hi)))
    obtain rfl : i = 0 := by
      have := (List.getElem?_eq_some_iff.mp hi).1
      rw [hhandling, length_singleton] at this
      omega
    obtain rfl : only = handling := by simpa [hhandling] using hi
    have hsettled : QueryState.settled { s with handling := s.handling.eraseIdx 0, copy := only.store s.copy } queryId =
        s.settled queryId := by
      simp [QueryState.settled, hhandling]
    exact ⟨by simp [hhandling], fun subscription hsubscription => hsettled ▸ h.follows subscription hsubscription⟩
  | fail => exact hmeets.elim
  | drop =>
    refine ⟨h.one, fun subscription hsubscription => ?_⟩
    obtain ⟨hid, hpage, hcopies, -⟩ := h.follows subscription hsubscription
    refine ⟨hid, hpage, fun response hlast held hheld => ?_, fun _ => .inr rfl⟩
    rcases settled_drop h.one queryId with hnone | hsame
    · cases hnone.symm.trans hheld
    · exact hcopies response hlast held (hsame.symm.trans hheld)

end Runs

/-- In every run in which evaluations of the query are pages of its table and the frames of the
query are handled one after the other, once the client has handled the frames that are under way,
what it holds is a copy of the last response that the server keeps for the diffs; and it holds one,
unless it has dropped one. -/
theorem copy_follows {lib : QueryLibrary} (hlib : ComparesValues lib) {limits : LiveQueryLimits}
    {table queryId : String} {s t : QueryState} (hstart : s.subscription = none)
    (hhandling : s.handling = [])
    (hrun : Reaches (QueryStep lib limits queryId) (Meets table queryId) s t)
    {subscription : RecordQuerySubscription}
    (hsubscription : t.subscription = some subscription) {response : ListRecordsResponse}
    (hlast : subscription.lastResponse = some response) :
    (∀ held, t.settled queryId = some held → CopyOf lib held response) ∧
    ((t.settled queryId).isSome ∨ t.dropped = true) := by
  have hinv : Inv lib table queryId t := hrun.invariant (fun _ _ _ h hmeets hstep => h.step hlib hmeets hstep)
    ⟨by simp [hhandling], by simp [hstart]⟩
  have hfollows := hinv.follows subscription hsubscription
  exact ⟨hfollows.copies response hlast, hfollows.holds (by rw [hlast]; rfl)⟩

section Sample

def ownerOf : Json → Option String
  | .object [(_, .string owner)] => some owner
  | _ => none

def ownerLibrary : QueryLibrary := { plainLibrary with valueEq a b := ownerOf a == ownerOf b }

theorem ownerLibrary_compares : ComparesValues ownerLibrary where
  refl _ := beq_self_eq_true _
  trans _ _ _ hab hbc := beq_iff_eq.mpr ((beq_iff_eq.mp hab).trans (beq_iff_eq.mp hbc))

def docsDiffs : RecordQuerySubscription := { docsQuery with diff := true }

def twoDocs : ListRecordsResponse :=
  ⟨"docs", [docOf "alice", { docOf "bob" with key := "b", lsn := 2, path := "tables/docs/b" }], some "b", none, false⟩

/-- The client handles the diff to the second result behind the first, and has not stored it. -/
theorem copy_follows_sample : ∃ s : QueryState, s.handling ≠ [] ∧ s.copy = some (docsOf "alice") ∧
    (∀ held, s.settled "q" = some held → CopyOf ownerLibrary held twoDocs) ∧
    ((s.settled "q").isSome ∨ s.dropped = true) := by
  have h₀ : Reaches (QueryStep ownerLibrary ⟨0, 0, 0, 0⟩ "q") (Meets "docs" "q") ⟨none, [], [], none, false⟩
      ⟨none, [], [], none, false⟩ := Reaches.refl _
  have h₁ := h₀.take (@QueryStep.subscribe _ _ _ _ docsDiffs 1 ⟨docsOf "alice", "first"⟩ _ rfl rfl rfl)
    ⟨rfl, forall_mem_singleton.mpr rfl, nodup_singleton "a"⟩
  have h₂ := h₁.take (@QueryStep.refresh _ _ _ _ _ 2 [] ⟨twoDocs, "second"⟩ _ rfl rfl) ⟨rfl, by simp [twoDocs, docOf],
    (by decide : ["a", "b"].Nodup)⟩
  have h₃ := (h₂.take (.begin rfl rfl) fun _ _ _ => rfl).take (.store (i := 0) rfl) (by exact trivial)
  have h₄ := h₃.take (.begin rfl rfl) fun _ _ _ => rfl
  exact ⟨_, cons_ne_nil _ _, rfl, copy_follows ownerLibrary_compares rfl rfl h₄ rfl rfl⟩

end Sample

end NextDb.Api.QueryCopies
