import NextDb.Lib.Run
import NextDb.Model.Schema
import NextDb.Util

/-!
# Cache invalidations

The server numbers the invalidations that it issues and keeps the last thousand. A client passes
the greatest number that it has seen and is answered with the entries above it.

* `polls_complete`: a client gets every invalidation that was issued since it was last answered, or
  is told to reset, in every run in which a client polls before an entry that it has not seen is
  dropped, and the server restarts only when the file has the list in memory.
-/

namespace NextDb.Api.CacheControl

open Run List Function

structure ClientCacheProfile where
  version : Nat
  leaseTtlMs : Nat
  maxObjects : Nat
  maxObjectBytes : Nat
  maxRoomMessages : Nat
  maxUserEvents : Nat
  maxRecordsPerTable : Nat
  maxNestedPartitions : Nat
  maxPendingWrites : Nat
  maxPendingWriteBytes : Nat
  offlineWrites : Bool
deriving DecidableEq

inductive ClientCacheInvalidationScope where
  | all
  | profile
  | object
  | room
  | user
  | table
  | nestedTable
deriving DecidableEq

structure ClientCacheInvalidationEntry where
  id : String
  generation : Nat
  scope : ClientCacheInvalidationScope
  key : Option String
  table : Option String
  parentKey : Option String
  nested : Option String
  minValidLsn : Nat
  reason : String
  createdAtMs : Nat
deriving DecidableEq

structure ClientCacheControl where
  profile : ClientCacheProfile
  invalidations : List ClientCacheInvalidationEntry

/-- `u64::MAX`. -/
def maxGeneration : Nat := UInt64.size - 1

variable (self : ClientCacheControl)

def ClientCacheControl.nextGeneration : Nat :=
  match self.invalidations.getLast? with
  | some entry => min (entry.generation + 1) maxGeneration
  | none => 1

def ClientCacheControl.invalidationsAfter (generation : Nat) :
    List ClientCacheInvalidationEntry :=
  self.invalidations.filter fun entry => generation < entry.generation

def maxInvalidations : Nat := 1000

/-- The list with an entry, cut to its end. -/
def ClientCacheControl.pushInvalidation (entry : ClientCacheInvalidationEntry) :
    ClientCacheControl :=
  let invalidations := self.invalidations ++ [entry]
  { self with invalidations := invalidations.drop (invalidations.length - maxInvalidations) }

structure ClientCacheProfileQuery where
  clientId : Option String
  sessionId : Option String
  afterInvalidationGeneration : Option Nat
  schemaVersion : Option Nat
  cursorLsn : Option Nat

/-- The times of the lease are left out. -/
structure ClientCacheLease where
  clientId : String
  sessionId : Option String
  profileVersion : Nat

structure ClientCacheProfileResponse where
  runtimeId : String
  profile : ClientCacheProfile
  lease : ClientCacheLease
  invalidations : List ClientCacheInvalidationEntry
  currentLsn : Nat
  schemaVersion : Nat
  resetRequired : Bool

/-- How often each client was answered is kept with the greatest generation it has seen: `issued`
is the number of entries that had been issued by then. -/
structure CacheClient where
  generation : Nat
  issued : Nat

/-- An answer, with what had been issued since the client was last answered. -/
structure Answer where
  missed : List ClientCacheInvalidationEntry
  response : ClientCacheProfileResponse

/-- The cache control of a server with its file, and the clients that poll it. -/
structure CacheState where
  runtimeId : String
  control : ClientCacheControl
  /-- What the file reads as; `none` if it does not parse. -/
  file : Option ClientCacheControl
  schemaVersion : Nat
  currentLsn : Nat
  clients : String → CacheClient
  /-- The entries whose calls returned `Ok`. -/
  issued : List ClientCacheInvalidationEntry
  answers : List Answer

def getCacheProfile (s : CacheState) (query : ClientCacheProfileQuery) :
    ClientCacheProfileResponse where
  runtimeId := s.runtimeId
  profile := s.control.profile
  lease :=
    { clientId := (query.clientId.filter fun value => !(trim value).isEmpty).getD "anonymous"
      sessionId := query.sessionId
      profileVersion := s.control.profile.version }
  invalidations := s.control.invalidationsAfter (query.afterInvalidationGeneration.getD 0)
  currentLsn := s.currentLsn
  schemaVersion := s.schemaVersion
  resetRequired := query.schemaVersion.any (· != s.schemaVersion) || query.cursorLsn.any (s.currentLsn < ·)

/-- How writing the file ends: it is written; or the write fails, and leaves the file as it was or
torn. -/
inductive PersistOutcome where
  | written
  | failed (torn : Bool)

def CacheState.persist (s : CacheState) (outcome : PersistOutcome) : CacheState :=
  match outcome with
  | .written => { s with file := some s.control }
  | .failed torn => if torn then { s with file := none } else s

/-- `append_cache_invalidation`, of an entry with a generation still to be given. -/
def appendCacheInvalidation (s : CacheState) (entry : ClientCacheInvalidationEntry)
    (outcome : PersistOutcome) :
    CacheState :=
  let entry := { entry with generation := s.control.nextGeneration }
  let s := { s with control := s.control.pushInvalidation entry }.persist outcome
  match outcome with
  | .written => { s with issued := s.issued ++ [entry] }
  | .failed _ => s

/-- The client takes the answer in. -/
def CacheClient.answered (client : CacheClient) (issued : Nat)
    (response : ClientCacheProfileResponse) :
    CacheClient where
  generation := response.invalidations.foldl (fun generation entry => max generation entry.generation) client.generation
  issued := issued

def pollStep (s : CacheState) (client : String) (query : ClientCacheProfileQuery) : CacheState :=
  let response := getCacheProfile s query
  { s with
    clients := Function.update s.clients client ((s.clients client).answered s.issued.length response)
    answers := s.answers ++ [⟨s.issued.drop (s.clients client).issued, response⟩] }

/-- Invalidations, changes of the server, polls and restarts. -/
inductive CacheEvent where
  | append (entry : ClientCacheInvalidationEntry) (outcome : PersistOutcome)
  /-- The part of `update_cache_profile` before its invalidation. -/
  | updateProfile (profile : ClientCacheProfile) (outcome : PersistOutcome)
  /-- The schema or the LSN of the server changes. -/
  | advance (schemaVersion currentLsn : Nat)
  | restart (runtimeId : String)
  | poll (client : String) (query : ClientCacheProfileQuery)

/-- What each event does to the cache control and the clients. -/
inductive CacheStep : CacheState → CacheEvent → CacheState → Prop where
  | append {s entry outcome} : CacheStep s (.append entry outcome) (appendCacheInvalidation s entry outcome)
  | updateProfile {s profile outcome} :
    CacheStep s (.updateProfile profile outcome) ({ s with control := { s.control with profile } }.persist outcome)
  | advance {s schemaVersion currentLsn} :
    CacheStep s (.advance schemaVersion currentLsn) { s with schemaVersion, currentLsn }
  | restart {s runtimeId control} : s.file = some control →
    CacheStep s (.restart runtimeId) { s with runtimeId, control }
  | poll {s client query} :
    query.afterInvalidationGeneration.getD 0 = (s.clients client).generation →
    CacheStep s (.poll client query) (pollStep s client query)

/-- An invalidation is appended while there is a generation left for it; the server restarts only
when the file has the list in memory; and a client polls before an entry above its generation is
dropped, or is told to reset. -/
def InTime (s : CacheState) : CacheEvent → Prop
  | .append _ _ => ∀ entry ∈ s.control.invalidations, entry.generation < maxGeneration
  | .restart _ => s.file.map (·.invalidations) = some s.control.invalidations
  | .poll client query => (getCacheProfile s query).resetRequired = true ∨
    ∀ first, s.control.invalidations.head? = some first →
    first.generation ≤ (s.clients client).generation + 1
  | _ => True

/-- A server that has issued nothing, and clients that have seen nothing. -/
structure Started (s : CacheState) : Prop where
  control : s.control.invalidations = []
  clients : ∀ client, s.clients client = ⟨0, 0⟩
  none : s.issued = [] ∧ s.answers = []

/-- The answer tells the client to reset, or has what it missed. -/
def Answer.Complete (answer : Answer) : Prop :=
  answer.response.resetRequired = true ∨ ∀ entry ∈ answer.missed, entry ∈ answer.response.invalidations

/-! ## The list -/

/-- The generation of the last entry, or 0. -/
def ClientCacheControl.newest (self : ClientCacheControl) : Nat :=
  (self.invalidations.getLast?.map (·.generation)).getD 0

/-- The entries are kept by generation. -/
def ClientCacheControl.Ascending (self : ClientCacheControl) : Prop :=
  self.invalidations.Pairwise (·.generation < ·.generation)

variable {control : ClientCacheControl} {entry : ClientCacheInvalidationEntry} {s : CacheState}

theorem nextGeneration_eq (h : ∀ entry ∈ control.invalidations, entry.generation < maxGeneration) :
    control.nextGeneration = control.newest + 1 := by
  unfold ClientCacheControl.nextGeneration ClientCacheControl.newest
  cases hlast : control.invalidations.getLast? with
  | none => rfl
  | some entry =>
    have := h entry (mem_of_getLast? hlast)
    show min (entry.generation + 1) maxGeneration = entry.generation + 1
    omega

theorem ClientCacheControl.Ascending.le_newest (h : control.Ascending)
    (hentry : entry ∈ control.invalidations) :
    entry.generation ≤ control.newest := by
  obtain ⟨before, last, hsplit⟩ := eq_nil_or_concat control.invalidations |>.resolve_left (ne_nil_of_mem hentry)
  rw [concat_eq_append] at hsplit
  have hnewest : control.newest = last.generation := by simp [newest, hsplit]
  unfold Ascending at h
  rw [hsplit] at h hentry
  rw [hnewest]
  rcases mem_append.mp hentry with hbefore | hlast
  · exact Nat.le_of_lt ((pairwise_append.mp h).2.2 entry hbefore last (mem_singleton.mpr rfl))
  · exact Nat.le_of_eq (congrArg _ (mem_singleton.mp hlast))

/-- An entry that is pushed is the last, behind an end of the list. -/
theorem pushInvalidation_eq (control : ClientCacheControl) (entry : ClientCacheInvalidationEntry) :
    (control.pushInvalidation entry).invalidations =
    control.invalidations.drop (control.invalidations.length + 1 - maxInvalidations) ++ [entry] := by
  have hpos : 0 < maxInvalidations := by decide
  unfold ClientCacheControl.pushInvalidation
  dsimp only
  rw [length_append, length_singleton, drop_append_of_le_length (by omega)]

theorem newest_pushInvalidation (control : ClientCacheControl)
    (entry : ClientCacheInvalidationEntry) :
    (control.pushInvalidation entry).newest = entry.generation := by
  simp [ClientCacheControl.newest, pushInvalidation_eq]

theorem ClientCacheControl.Ascending.push (h : control.Ascending)
    (hentry : control.newest < entry.generation) :
    (control.pushInvalidation entry).Ascending := by
  unfold Ascending
  rw [pushInvalidation_eq, pairwise_append]
  refine ⟨h.sublist (drop_sublist _ _), pairwise_singleton _ _, ?_⟩
  intro kept hkept last hlast
  rw [mem_singleton.mp hlast]
  have := h.le_newest (mem_of_mem_drop hkept)
  omega

/-- The entry is in the list, or before its first. -/
def ClientCacheControl.KeptOrDropped (self : ClientCacheControl)
    (entry : ClientCacheInvalidationEntry) : Prop :=
  entry ∈ self.invalidations ∨ ∃ first, self.invalidations.head? = some first ∧ entry.generation < first.generation

theorem ClientCacheControl.KeptOrDropped.le_newest (h : control.Ascending)
    (hentry : control.KeptOrDropped entry) :
    entry.generation ≤ control.newest := by
  rcases hentry with hkept | ⟨first, hfirst, hlt⟩
  · exact h.le_newest hkept
  · have := h.le_newest (mem_of_mem_head? hfirst)
    omega

/-- What a push drops is before the first entry that stays. -/
theorem ClientCacheControl.KeptOrDropped.push (h : control.Ascending)
    {new : ClientCacheInvalidationEntry}
    (hentry : control.KeptOrDropped entry) (hnew : control.newest < new.generation) :
    (control.pushInvalidation new).KeptOrDropped entry := by
  have hle := hentry.le_newest h
  have hascending := h.push hnew
  by_cases hmem : entry ∈ (control.pushInvalidation new).invalidations
  · exact .inl hmem
  · unfold Ascending at h
    unfold KeptOrDropped
    rw [pushInvalidation_eq] at hmem ⊢
    generalize control.invalidations.length + 1 - maxInvalidations = dropped at hmem ⊢
    refine .inr ?_
    cases hrest : control.invalidations.drop dropped with
    | nil => exact ⟨new, rfl, by omega⟩
    | cons first rest =>
      refine ⟨first, rfl, ?_⟩
      have hsplit : control.invalidations = control.invalidations.take dropped ++ first :: rest := by
        rw [← hrest, take_append_drop]
      rcases hentry with hkept | ⟨head, hhead, hlt⟩
      · rw [hsplit] at hkept h
        rcases mem_append.mp hkept with htaken | hrest'
        · exact (pairwise_append.mp h).2.2 entry htaken first mem_cons_self
        · rw [hrest] at hmem
          exact absurd (mem_append_left _ hrest') hmem
      · rw [hsplit] at hhead h
        cases htaken : control.invalidations.take dropped with
        | nil =>
          rw [htaken] at hhead
          have : first = head := by simpa using hhead
          rw [this]
          exact hlt
        | cons head' taken =>
          rw [htaken] at hhead h
          have : head' = head := by simpa using hhead
          rw [this] at h
          have := (pairwise_append.mp h).2.2 head mem_cons_self first mem_cons_self
          omega

/-! ## The invariant -/

/-- The entries that were issued are kept, or were dropped behind newer ones. -/
structure Inv (s : CacheState) : Prop where
  ascending : s.control.Ascending
  issued : s.issued.Pairwise (·.generation < ·.generation)
  kept : ∀ entry ∈ s.issued, s.control.KeptOrDropped entry
  seen : ∀ client, (s.clients client).generation ≤ s.control.newest
  missed : ∀ client, ∀ entry ∈ s.issued.drop (s.clients client).issued, (s.clients client).generation < entry.generation
  answers : ∀ answer ∈ s.answers, answer.Complete

theorem Started.inv (h : Started s) : Inv s := by
  obtain ⟨hissued, hanswers⟩ := h.none
  refine ⟨?_, ?_, ?_, ?_, ?_, ?_⟩
  · simp [ClientCacheControl.Ascending, h.control]
  · simp [hissued]
  · simp [hissued]
  · intro client
    simp [h.clients]
  · simp [hissued]
  · simp [hanswers]

theorem Inv.persist (h : Inv s) (outcome : PersistOutcome) : Inv (s.persist outcome) := by
  unfold CacheState.persist
  cases outcome with
  | written => exact ⟨h.ascending, h.issued, h.kept, h.seen, h.missed, h.answers⟩
  | failed torn =>
    dsimp only
    split
    · exact ⟨h.ascending, h.issued, h.kept, h.seen, h.missed, h.answers⟩
    · exact h

theorem Inv.push (h : Inv s) (hentry : s.control.newest < entry.generation) :
    Inv { s with control := s.control.pushInvalidation entry } := by
  refine ⟨h.ascending.push hentry, h.issued, fun e he => (h.kept e he).push h.ascending hentry, ?_, h.missed, h.answers⟩
  intro client
  have := h.seen client
  show (s.clients client).generation ≤ (s.control.pushInvalidation entry).newest
  rw [newest_pushInvalidation]
  omega

/-- An entry above all that were seen or issued is issued. -/
theorem Inv.issue (h : Inv s) (hkept : s.control.KeptOrDropped entry) (hseen : ∀ client,
    (s.clients client).generation < entry.generation)
    (hissued : ∀ e ∈ s.issued, e.generation < entry.generation) :
    Inv { s with issued := s.issued ++ [entry] } := by
  refine ⟨h.ascending, ?_, ?_, h.seen, ?_, h.answers⟩
  · apply pairwise_append.mpr
    refine ⟨h.issued, pairwise_singleton _ _, fun e he last hlast => ?_⟩
    rw [mem_singleton.mp hlast]
    exact hissued e he
  · intro e he
    rcases mem_append.mp he with he | he
    · exact h.kept e he
    · rw [mem_singleton.mp he]
      exact hkept
  · intro client e he
    rw [drop_append] at he
    rcases mem_append.mp he with he | he
    · exact h.missed client e he
    · rw [mem_singleton.mp (mem_of_mem_drop he)]
      exact hseen client

theorem Inv.append {s : CacheState} (h : Inv s) (entry : ClientCacheInvalidationEntry)
    (outcome : PersistOutcome)
    (hroom : ∀ entry ∈ s.control.invalidations, entry.generation < maxGeneration) :
    Inv (appendCacheInvalidation s entry outcome) := by
  unfold appendCacheInvalidation
  rw [nextGeneration_eq hroom]
  have hnewest : s.control.newest <
    ({ entry with generation := s.control.newest + 1 } : ClientCacheInvalidationEntry).generation := Nat.lt_succ_self _
  generalize ({ entry with generation := s.control.newest + 1 } : ClientCacheInvalidationEntry) = new at hnewest
  have hpush := (h.push hnewest).persist outcome
  cases outcome with
  | failed torn => exact hpush
  | written =>
    have hkept : (s.control.pushInvalidation new).KeptOrDropped new := by
      refine .inl ?_
      rw [pushInvalidation_eq]
      simp
    refine hpush.issue hkept ?_ ?_
    · intro client
      have := h.seen client
      show (s.clients client).generation < new.generation
      omega
    · intro e he
      simp only [CacheState.persist] at he
      have := (h.kept e he).le_newest h.ascending
      omega

theorem foldl_max_le {entries : List ClientCacheInvalidationEntry}
    {generation bound : Nat} (h : generation ≤ bound)
    (hall : ∀ entry ∈ entries, entry.generation ≤ bound) :
    entries.foldl (fun generation entry => max generation entry.generation) generation ≤ bound := by
  induction entries generalizing generation with
  | nil => exact h
  | cons entry entries ih =>
    have := hall entry mem_cons_self
    exact ih (Nat.max_le.mpr ⟨h, this⟩) fun e he => hall e (mem_cons_of_mem _ he)

theorem Inv.poll (h : Inv s) {client : String} {query : ClientCacheProfileQuery}
    (hquery : query.afterInvalidationGeneration.getD 0 = (s.clients client).generation)
    (htime : InTime s (.poll client query)) : Inv (pollStep s client query) := by
  refine ⟨h.ascending, h.issued, h.kept, ?_, ?_, ?_⟩
  · intro other
    show (update s.clients client _ other).generation ≤ s.control.newest
    by_cases hother : other = client
    · rw [hother, update_self]
      exact foldl_max_le (h.seen client) fun e he => h.ascending.le_newest (mem_of_mem_filter he)
    · rw [update_of_ne hother]
      exact h.seen other
  · intro other
    by_cases hother : other = client
    · have hclients : (pollStep s client query).clients other =
          (s.clients client).answered s.issued.length (getCacheProfile s query) := by
        rw [hother]
        exact update_self ..
      rw [hclients]
      simp [CacheClient.answered, pollStep]
    · have hclients : (pollStep s client query).clients other = s.clients other := update_of_ne hother ..
      rw [hclients]
      exact h.missed other
  · intro answer hanswer
    rcases mem_append.mp hanswer with hanswer | hanswer
    · exact h.answers answer hanswer
    · rw [mem_singleton.mp hanswer]
      rcases htime with hreset | hfirst
      · exact .inl hreset
      · refine .inr fun entry hentry => ?_
        have hmissed := h.missed client entry hentry
        show entry ∈ s.control.invalidations.filter _
        rw [hquery]
        rcases h.kept entry (mem_of_mem_drop hentry) with hkept | ⟨first, hhead, hlt⟩
        · exact mem_filter.mpr ⟨hkept, by simpa using hmissed⟩
        · have := hfirst first hhead
          omega

theorem Inv.step {t : CacheState} {e : CacheEvent} (h : Inv s) (htime : InTime s e)
    (hstep : CacheStep s e t) :
    Inv t := by
  cases hstep with
  | append => exact h.append _ _ htime
  | updateProfile =>
    apply Inv.persist
    exact ⟨h.ascending, h.issued, h.kept, h.seen, h.missed, h.answers⟩
  | advance => exact ⟨h.ascending, h.issued, h.kept, h.seen, h.missed, h.answers⟩
  | @restart runtimeId control hfile =>
    have hsame : control.invalidations = s.control.invalidations := by
      have := htime
      simpa [InTime, hfile] using this
    obtain ⟨hascending, hissued, hkept, hseen, hmissed, hanswers⟩ := h
    unfold ClientCacheControl.Ascending at hascending
    unfold ClientCacheControl.KeptOrDropped at hkept
    unfold ClientCacheControl.newest at hseen
    rw [← hsame] at hascending hkept hseen
    exact ⟨hascending, hissued, hkept, hseen, hmissed, hanswers⟩
  | poll hquery => exact h.poll hquery htime

/-- A client that polls in time gets what it missed, and no two invalidations have one generation.
-/
theorem polls_complete {s t : CacheState} (hs : Started s) (hrun : Reaches CacheStep InTime s t) :
    (∀ answer ∈ t.answers, answer.Complete) ∧ t.issued.Pairwise (·.generation < ·.generation) := by
  have hinv : Inv t := hrun.invariant (fun _ _ _ h htime hstep => h.step htime hstep) hs.inv
  exact ⟨hinv.answers, hinv.issued⟩

/-! ## A client that polls late -/

section Sample

def sampleProfile : ClientCacheProfile :=
  ⟨1, 60000, 10000, 536870912, 10000, 10000, 10000, 0, 10000, 536870912, true⟩

def numbered (generation : Nat) : ClientCacheInvalidationEntry :=
  ⟨"", generation, .all, none, none, none, none, 0, "operator invalidation", 0⟩

def sampleStart : CacheState where
  runtimeId := "r"
  control := ⟨sampleProfile, []⟩
  file := some ⟨sampleProfile, []⟩
  schemaVersion := 1
  currentLsn := 0
  clients _ := ⟨0, 0⟩
  issued := []
  answers := []

theorem sampleStart_started : Started sampleStart := ⟨rfl, fun _ => rfl, rfl, rfl⟩

def queryAfter (generation : Nat) : ClientCacheProfileQuery :=
  ⟨some "c", none, some generation, none, none⟩

/-- One entry is issued, and a client polls for it. -/
def polledOnce : CacheState :=
  pollStep (appendCacheInvalidation sampleStart (numbered 0) .written) "c" (queryAfter 0)

theorem polls_complete_sample :
    (∀ answer ∈ polledOnce.answers, answer.Complete) ∧
    polledOnce.issued.Pairwise (·.generation < ·.generation) := by
  have happend : Reaches CacheStep InTime sampleStart (appendCacheInvalidation sampleStart (numbered 0) .written) :=
    (Reaches.refl _).take .append
      (show InTime sampleStart (.append (numbered 0) .written) by simp [InTime, sampleStart])
  have hpoll : InTime (appendCacheInvalidation sampleStart (numbered 0) .written) (.poll "c" (queryAfter 0)) := by
    refine .inr fun first hfirst => ?_
    cases hfirst
    decide
  exact polls_complete sampleStart_started (happend.take (.poll rfl) hpoll)

def firstEntries (n : Nat) : List ClientCacheInvalidationEntry := (List.range' 1 n).map numbered

theorem firstEntries_succ (n : Nat) :
    firstEntries (n + 1) = firstEntries n ++ [numbered (n + 1)] := by
  simp [firstEntries, range'_concat, Nat.add_comm]

theorem length_firstEntries (n : Nat) : (firstEntries n).length = n := by simp [firstEntries]

/-- The server when the client has polled and the entries up to a generation have been issued. -/
def issuedUpTo (n : Nat) : CacheState :=
  { polledOnce with
    control := ⟨sampleProfile, (firstEntries n).drop (n - maxInvalidations)⟩
    file := some ⟨sampleProfile, (firstEntries n).drop (n - maxInvalidations)⟩
    issued := firstEntries n }

theorem nextGeneration_issuedUpTo {n : Nat} (hpos : 0 < n) (hroom : n < 2000) :
    (issuedUpTo n).control.nextGeneration = n + 1 := by
  obtain ⟨m, rfl⟩ : ∃ m, n = m + 1 := ⟨n - 1, by omega⟩
  have hmax : 0 < maxInvalidations := by decide
  have hbound : 2000 ≤ maxGeneration := by decide
  have hlast : ((firstEntries (m + 1)).drop (m + 1 - maxInvalidations)).getLast? = some (numbered (m + 1)) := by
    rw [firstEntries_succ, drop_append_of_le_length (by rw [length_firstEntries]; omega)]
    simp
  unfold ClientCacheControl.nextGeneration issuedUpTo
  dsimp only
  rw [hlast]
  show min (m + 1 + 1) maxGeneration = m + 1 + 1
  omega

theorem append_issuedUpTo {n : Nat} (hpos : 0 < n) (hroom : n < 2000) :
    appendCacheInvalidation (issuedUpTo n) (numbered 0) .written = issuedUpTo (n + 1) := by
  have hmax : 0 < maxInvalidations := by decide
  have hentry : ({ numbered 0 with generation := n + 1 } : ClientCacheInvalidationEntry) = numbered (n + 1) := rfl
  have hpush : (issuedUpTo n).control.pushInvalidation (numbered (n + 1)) =
      ⟨sampleProfile, (firstEntries (n + 1)).drop (n + 1 - maxInvalidations)⟩ := by
    have hle : n + 1 - maxInvalidations ≤ (firstEntries n).length := by
      rw [length_firstEntries]
      omega
    have hlist := pushInvalidation_eq (issuedUpTo n).control (numbered (n + 1))
    have hkept : (issuedUpTo n).control.invalidations = (firstEntries n).drop (n - maxInvalidations) := by
      simp only [issuedUpTo]
    have hdropped : n - maxInvalidations + (n - (n - maxInvalidations) + 1 - maxInvalidations) = n + 1 -
        maxInvalidations := by omega
    rw [hkept, drop_drop, length_drop, length_firstEntries, hdropped] at hlist
    rw [firstEntries_succ, drop_append_of_le_length hle, ← hlist]
    simp only [ClientCacheControl.pushInvalidation, issuedUpTo]
  unfold appendCacheInvalidation
  rw [nextGeneration_issuedUpTo hpos hroom, hentry]
  dsimp only
  rw [hpush]
  simp only [CacheState.persist, issuedUpTo, firstEntries_succ]

theorem reaches_issuedUpTo (n : Nat) (hroom : n < 2000) :
    Reaches CacheStep (fun _ _ => True) sampleStart (issuedUpTo (n + 1)) := by
  induction n with
  | zero =>
    have happend : CacheStep sampleStart (.append (numbered 0) .written) _ := .append
    have hpoll : CacheStep _ (.poll "c" (queryAfter 0)) polledOnce := .poll rfl
    have honce : polledOnce = issuedUpTo 1 := rfl
    rw [← honce]
    exact ((Reaches.refl sampleStart).take happend trivial).take hpoll trivial
  | succ n ih =>
    have hstep : CacheStep (issuedUpTo (n + 1)) (.append (numbered 0) .written) _ := .append
    rw [append_issuedUpTo (by omega) (by omega)] at hstep
    exact (ih (by omega)).take hstep trivial

/-- A client that was answered after the first entry never gets the second, when a thousand more are
issued. -/
theorem polls_incomplete : ¬ ∀ s t, Started s → Reaches CacheStep (fun _ _ => True) s t →
    ∀ answer ∈ t.answers,
    answer.Complete := by
  intro h
  have hrun : Reaches CacheStep (fun _ _ => True) sampleStart (pollStep (issuedUpTo 1002) "c" (queryAfter 1)) :=
    (reaches_issuedUpTo 1001 (by decide)).take (.poll rfl) trivial
  have hanswer := h _ _ sampleStart_started hrun _ (mem_append_right _ (mem_singleton.mpr rfl))
  have hmissed : numbered 2 ∈ (firstEntries 1002).drop 1 := by
    refine mem_drop_iff_getElem.mpr ⟨0, by rw [length_firstEntries]; decide, ?_⟩
    simp [firstEntries]
  rcases hanswer with hreset | hcomplete
  · cases hreset
  · have hgot := mem_of_mem_filter (hcomplete (numbered 2) hmissed)
    have hkept : (issuedUpTo 1002).control.invalidations = (range' 3 1000).map numbered := by
      show ((range' 1 1002).map numbered).drop 2 = _
      rw [map_drop.symm, drop_range']
    rw [hkept] at hgot
    obtain ⟨generation, hgeneration, hsame⟩ := mem_map.mp hgot
    have hge := (mem_range'_1.mp hgeneration).1
    have : generation = 2 := congrArg ClientCacheInvalidationEntry.generation hsame
    omega

end Sample

end NextDb.Api.CacheControl
