import NextDb.Api.RecordWriters

/-!
# The version that a write expects

A request may name the LSN that it expects a record to have, zero for a record that does not exist.
The version is read from the record projection before the request is appended to the log.

* `expected_lsn_once`: no two requests that expect the same LSN of a key both change it: in every
  run in which the projection has what was last committed under the key when it is read, nothing is
  logged for the key between the read and the append, and a key is not expected to be absent once it
  was deleted.
* `logged_accepted`: what a writer has logged is its own, and was accepted as a whole, in every run.
-/

namespace NextDb.Api.ExpectedLsn

open Run List Option Records
open Converge (RecordProjectionJob)
open ProjectionKv RecordChecks RecordWriters
open RecordCommit (RecordOperation)

/-! ## Versions -/

def versionOf (found : Option DbRecord) : Nat := (found.map DbRecord.lsn).getD 0

variable {wal : List WalRecord} {lsn : Nat} {r : WalRecord} {place : String × String}

theorem version_lt (hpos : 0 < lsn) (h : ∀ r ∈ wal, r.lsn < lsn) (place : String × String) :
    versionOf (committedRecord wal place) < lsn := by
  cases hfound : committedRecord wal place with
  | none => exact hpos
  | some record =>
    obtain ⟨r, hr, htells⟩ := LastWord.mem_of_read hfound
    show record.lsn < lsn
    rw [lsn_of_placeTells htells]
    exact h r hr

/-- A record that changes a place leaves its LSN there, until a later one or a deletion. -/
theorem version_ge (hasc : wal.Pairwise fun a b => a.lsn < b.lsn) (hr : r ∈ wal)
    (hplace : place ∈ recordPlaces r) :
    committedRecord wal place = none ∨ r.lsn ≤ versionOf (committedRecord wal place) := by
  cases hfound : committedRecord wal place with
  | none => exact .inl rfl
  | some record =>
    obtain ⟨last, hlast, htells⟩ := (LastWord.read_eq_some_iff hasc).mp hfound
    refine .inr ?_
    show r.lsn ≤ record.lsn
    rw [lsn_of_placeTells htells]
    refine hlast.last r hr (isSome_iff_ne_none.mpr fun hnone => ?_)
    exact placeTells_eq_none.mp hnone hplace

theorem version_pos (hpos : ∀ r ∈ wal, 0 < r.lsn)
    (hkept : ∀ r ∈ wal, placeTells place r ≠ some none) (hr : r ∈ wal)
    (hplace : place ∈ recordPlaces r) : 0 < versionOf (committedRecord wal place) := by
  have habout : (placeTells place r).isSome := isSome_iff_ne_none.mpr fun hnone =>
    placeTells_eq_none.mp hnone hplace
  obtain ⟨record, hfound⟩ := isSome_iff_exists.mp (LastWord.read_isSome hkept hr habout)
  obtain ⟨r', hr', htells⟩ := LastWord.mem_of_read hfound
  rw [committedRecord, hfound]
  show 0 < record.lsn
  rw [lsn_of_placeTells htells]
  exact hpos r' hr'

/-! ## What a request expects -/

/-- The request has an operation on the place that expects the LSN. -/
def Expects (writer : Writer) (place : String × String) (lsn : Nat) : Prop :=
  ∃ request ∈ writer.requests, mutationPlace (request.1.mutation writer.nowMs none) = place ∧ request.2 = some lsn

variable {lib : ProjectionLibraries} {checks : OperationChecks} {schema : DatabaseSchema}
    {s t : WriteState}
  {reads : RecordReads} {expected : Nat} {before after : List WalRecord}

theorem ensureExpectedRecordLsn_ok {table key : String}
    (h : ensureExpectedRecordLsn lib reads table key (some expected) = .ok lsn) :
    ∃ found, getRecord lib reads.records table key = .ok found ∧ versionOf found = expected := by
  obtain ⟨found, hfound, h⟩ := bind_eq_ok.mp h
  refine ⟨found, internal_eq_ok.mp hfound, ?_⟩
  dsimp only at h
  split at h
  · cases h
  · next heq => exact not_not.mp heq

/-- The versions that the operations expect are those that are read. -/
theorem readOperations_expected {nowMs : Nat} {requests : List (RecordOperation × Option Nat)}
    {p : Preparation}
    (h : readOperations lib checks nowMs reads requests = .ok p)
    {request : RecordOperation × Option Nat}
    (hrequest : request ∈ requests) (hexpected : request.2 = some expected) :
    ∃ found, getRecord lib reads.records
    (mutationPlace (request.1.mutation nowMs none)).1 (mutationPlace (request.1.mutation nowMs none)).2 = .ok found ∧
    versionOf found = expected := by
  obtain ⟨-, hall⟩ := foldlM_invariant (I := fun _ => True) (Q := fun request _ => ∃ p p', prepareOperation lib checks
    nowMs reads p request = .ok p') (fun _ _ hstep => ⟨trivial, _, _, hstep⟩) (fun _ _ hQ _ => hQ) trivial h
  obtain ⟨p₀, p₁, hprepared⟩ := hall request hrequest
  obtain ⟨-, hprepared⟩ := check_eq_ok.mp hprepared
  obtain ⟨-, hprepared⟩ := check_eq_ok.mp hprepared
  obtain ⟨-, hprepared⟩ := check_eq_ok.mp hprepared
  obtain ⟨_, -, hprepared⟩ := bind_eq_ok.mp hprepared
  obtain ⟨_, -, hprepared⟩ := bind_eq_ok.mp hprepared
  obtain ⟨_, -, hprepared⟩ := bind_eq_ok.mp hprepared
  obtain ⟨_, -, hprepared⟩ := bind_eq_ok.mp hprepared
  obtain ⟨lsn, hlsn, -⟩ := bind_eq_ok.mp hprepared
  exact ensureExpectedRecordLsn_ok (hexpected ▸ hlsn)

/-! ## The invariant -/

/-- The projection has what was last committed when a version is read; nothing is logged for the key
between the read and the append; and a record that is expected to be absent was never deleted. -/
def UpToDate (lib : ProjectionLibraries) (s : WriteState) : WriteEvent → Prop
  | .read i => ∀ writer, s.writers[i]? = some writer → ∀ place lsn, Expects writer place lsn →
      getRecord lib s.records place.1 place.2 = .ok (committedRecord s.wal place)
  | .append i r => ∀ writer operations readAt checkedAt, s.writers[i]? = some writer →
      writer.phase = .checked operations readAt checkedAt → ∀ place lsn, Expects writer place lsn →
      place ∈ recordPlaces r → (∀ later ∈ s.wal.drop readAt, place ∉ recordPlaces later) ∧
        (lsn = 0 → ∀ old ∈ s.wal, placeTells place old ≠ some none)
  | _ => True

/-- How many records the log had when the writer read the versions, until it appends. -/
def readAt? (writer : Writer) : Option Nat :=
  match writer.phase with
  | .read _ readAt | .checked _ readAt _ => some readAt
  | .received | .logged _ | .cached .. | .committed _ | .failed _ | .answered => none

/-- The versions that a writer expects are those of the log that it read, and of the log before its
record. -/
structure WriterFits (wal : List WalRecord) (writer : Writer) : Prop where
  read : ∀ readAt, readAt? writer = some readAt → readAt ≤ wal.length ∧
    ∀ place lsn, Expects writer place lsn → versionOf (committedRecord (wal.take readAt) place) = lsn
  logged : ∀ r, writer.record? = some r → ∀ place lsn, Expects writer place lsn → place ∈ recordPlaces r →
    ∃ before after, wal = before ++ r :: after ∧ versionOf (committedRecord before place) = lsn ∧
      (lsn = 0 → ∀ old ∈ before, placeTells place old ≠ some none)

/-- The writers that have been checked fit the log as they have read it. -/
structure Inv (schema : DatabaseSchema) (s : WriteState) : Prop where
  writers : Writers schema s
  fits : ∀ writer ∈ s.writers, WriterFits s.wal writer

variable {i : Nat} {writer : Writer}

theorem WriterFits.append {wal : List WalRecord} (h : WriterFits wal writer) (r : WalRecord) :
    WriterFits (wal ++ [r]) writer where
  read := by
    intro readAt hreadAt
    obtain ⟨hle, hread⟩ := h.read readAt hreadAt
    refine ⟨by rw [length_append]; omega, fun place lsn hexpects => ?_⟩
    rw [take_append_of_le_length hle]
    exact hread place lsn hexpects
  logged := by
    intro r' hr' place lsn hexpects hplace
    obtain ⟨before, after, rfl, hversion⟩ := h.logged r' hr' place lsn hexpects hplace
    exact ⟨before, after ++ [r], by simp, hversion⟩

namespace Inv

theorem of_same (h : Inv schema s) (hwriters : Writers schema t) (hwal : t.wal = s.wal)
    (hsame : t.writers = s.writers) : Inv schema t :=
  ⟨hwriters, by rw [hwal, hsame]; exact h.fits⟩

/-- A writer goes on with the log that it has read, and with the record that it has logged. -/
theorem setPhase (h : Inv schema s) (hwriter : s.writers[i]? = some writer) {phase : WriterPhase}
    (hwriters : Writers schema (s.setPhase i writer phase))
    (hread : ∀ readAt, readAt? { writer with phase } = some readAt → readAt? writer = some readAt)
    (hrecord : ∀ r, Writer.record? { writer with phase } = some r → writer.record? = some r) :
    Inv schema (s.setPhase i writer phase) := by
  have hfits := h.fits writer (mem_of_getElem? hwriter)
  refine ⟨hwriters, forall_mem_set h.fits ⟨fun readAt hreadAt => ?_, fun r hr => ?_⟩⟩
  · exact hfits.read readAt (hread readAt hreadAt)
  · exact hfits.logged r (hrecord r hr)

theorem read (h : Inv schema s) (hwriter : s.writers[i]? = some writer)
    {p : Preparation} (hwriters : Writers schema (s.setPhase i writer (.read p s.wal.length)))
    (hread : readOperations lib checks writer.nowMs (s.reads schema) writer.requests = .ok p)
    (hmeets : UpToDate lib s (.read i)) :
    Inv schema (s.setPhase i writer (.read p s.wal.length)) := by
  refine ⟨hwriters, forall_mem_set h.fits ⟨fun readAt hreadAt => ?_, by simp [Writer.record?]⟩⟩
  obtain rfl := some.inj hreadAt
  refine ⟨Nat.le_refl _, fun place lsn hexpects => ?_⟩
  have hcommitted := hmeets writer hwriter place lsn hexpects
  obtain ⟨request, hrequest, rfl, hlsn⟩ := hexpects
  obtain ⟨found, hfound, hversion⟩ := readOperations_expected hread hrequest hlsn
  show versionOf (committedRecord (s.wal.take s.wal.length) _) = lsn
  rw [take_length, ← hversion]
  exact congrArg versionOf (Except.ok.inj (hcommitted.symm.trans hfound))

theorem append (h : Inv schema s) (hwriter : s.writers[i]? = some writer)
    {operations : List DbRecordMutationDraft}
    {readAt checkedAt : Nat} {r : WalRecord}
    (hphase : writer.phase = .checked operations readAt checkedAt)
    (hwriters : Writers schema { s.setPhase i writer (.logged r) with wal := s.wal ++ [r] })
    (hmeets : UpToDate lib s (.append i r)) :
    Inv schema { s.setPhase i writer (.logged r) with wal := s.wal ++ [r] } := by
  have hreadAt : readAt? writer = some readAt := by rw [readAt?, hphase]
  obtain ⟨hle, hread⟩ := (h.fits writer (mem_of_getElem? hwriter)).read readAt hreadAt
  refine ⟨hwriters, forall_mem_set (fun w hw => (h.fits w hw).append r) ⟨by simp [readAt?], fun r' hr' => ?_⟩⟩
  obtain rfl := some.inj hr'
  intro place lsn hexpects hplace
  obtain ⟨hsince, hdeleted⟩ := hmeets writer operations readAt checkedAt hwriter hphase place lsn hexpects hplace
  refine ⟨s.wal, [], rfl, ?_, hdeleted⟩
  rw [← hread place lsn hexpects, committedRecord, ← take_append_drop readAt s.wal,
    LastWord.read_append_of_none fun later hlater => placeTells_eq_none.mpr (hsince later hlater),
    take_append_of_le_length (by rw [length_take]; omega), take_take, Nat.min_self]
  rfl

theorem step (h : Inv schema s) {e : WriteEvent} (hmeets : UpToDate lib s e)
    (hstep : WriteStep lib checks schema s e t) : Inv schema t := by
  have hwriters := h.writers.step hstep
  cases hstep with
  | @receive transaction requests nowMs hsingle hnow =>
    refine ⟨hwriters, fun w hw => ?_⟩
    rcases mem_append.mp hw with hw | hw
    · exact h.fits w hw
    · rw [mem_singleton.mp hw]
      exact ⟨by simp [readAt?], by simp [Writer.record?]⟩
  | read hwriter hphase hread => exact h.read hwriter hwriters hread hmeets
  | @validate i writer p readAt hwriter hphase hvalid hoperations =>
    exact h.setPhase hwriter hwriters (by simp [readAt?, hphase]) (by simp [Writer.record?])
  | append hwriter hphase hpayload hpos hlsn habove => exact h.append hwriter hphase hwriters hmeets
  | @cache i writer r job hwriter hphase hjob =>
    have hok : Writers schema (s.setPhase i writer (.cached r job)) := hwriters.of_same rfl rfl
    exact (h.setPhase hwriter hok (by simp [readAt?]) (by simp [Writer.record?, hphase])).of_same hwriters rfl rfl
  | @enqueue i writer r job hwriter hphase =>
    have hok : Writers schema (s.setPhase i writer (.committed r)) := hwriters.of_same rfl rfl
    exact (h.setPhase hwriter hok (by simp [readAt?]) (by simp [Writer.record?, hphase])).of_same hwriters rfl rfl
  | answer hwriter hphase => exact h.setPhase hwriter hwriters (by simp [readAt?]) (by simp [Writer.record?])
  | failLookup hwriter hphase hjob =>
    exact h.setPhase hwriter hwriters (by simp [readAt?]) (by simp [Writer.record?, hphase])
  | fail hwriter hphase => exact h.setPhase hwriter hwriters (by simp [readAt?]) (by simp [Writer.record?, hphase])
  | @apply job queue hqueue =>
    obtain ⟨hwal, hsame, -⟩ := @work_fields lib { s with queue } job
    exact h.of_same hwriters hwal hsame
  | fetch | hydrate | touch | evict | evictIdle => exact h.of_same hwriters rfl rfl

end Inv

theorem inv_of_settled (h : Settled s) : Inv schema s := ⟨h.writersOk, by simp [h.writers]⟩

/-- A record that is logged leaves no version below it, where no record that is expected to be
absent was deleted. -/
theorem version_ne (hasc : (before ++ r :: after).Pairwise fun a b => a.lsn < b.lsn)
    (hpos : ∀ r' ∈ before ++ r :: after, 0 < r'.lsn) (hplace : place ∈ recordPlaces r)
    (hbefore : versionOf (committedRecord before place) = lsn)
    (hdeleted : lsn = 0 → ∀ old ∈ before ++ r :: after,
    placeTells place old ≠ some none) :
    versionOf (committedRecord (before ++ r :: after) place) ≠ lsn := by
  have hmem : r ∈ before ++ r :: after := mem_append_right _ mem_cons_self
  have hlt : lsn < r.lsn := by
    rw [← hbefore]
    exact version_lt (hpos r hmem) (fun old hold => (pairwise_append.mp hasc).2.2 old hold r mem_cons_self) place
  intro hsame
  by_cases hzero : lsn = 0
  · have := version_pos hpos (hdeleted hzero) hmem hplace
    omega
  · rcases version_ge hasc hmem hplace with hnone | hge
    · rw [hnone] at hsame
      exact hzero hsame.symm
    · omega

/-- Of two records of the log, the one with the higher LSN comes later. -/
theorem split_of_lt {before' after' : List WalRecord} {r' : WalRecord}
    (hasc : wal.Pairwise fun a b => a.lsn < b.lsn)
    (h : wal = before ++ r :: after) (h' : wal = before' ++ r' :: after') (hlt : r.lsn < r'.lsn) :
    ∃ between, before' = before ++ r :: between := by
  have heq := h.symm.trans h'
  rcases append_eq_append_iff.mp heq with ⟨rest, hbefore, hrest⟩ | ⟨rest, hbefore, hrest⟩
  · cases rest with
    | nil =>
      obtain ⟨rfl, -⟩ := cons.inj hrest
      exact absurd hlt (Nat.lt_irrefl _)
    | cons first rest =>
      obtain ⟨rfl, -⟩ := cons.inj hrest
      exact ⟨rest, hbefore⟩
  · -- the other record would come first
    have hmem : r' ∈ before ++ [r] := by
      cases rest with
      | nil =>
        obtain ⟨rfl, -⟩ := cons.inj hrest
        simp
      | cons first rest =>
        obtain ⟨rfl, -⟩ := cons.inj hrest
        rw [hbefore]
        simp
    have hle : r'.lsn ≤ r.lsn := by
      rcases mem_append.mp hmem with hold | hsame
      · exact Nat.le_of_lt ((pairwise_append.mp (h ▸ hasc)).2.2 r' hold r mem_cons_self)
      · rw [mem_singleton.mp hsame]
    omega

/-- Requests that expect the same LSN of a key, and have changed it, are one. -/
theorem expected_lsn_once (hs : Settled s)
    (hrun : Reaches (WriteStep lib checks schema) (UpToDate lib) s t) {i j : Nat}
    {a b : Writer} (ha : t.writers[i]? = some a) (hb : t.writers[j]? = some b) {ra rb : WalRecord}
    (hra : a.record? = some ra) (hrb : b.record? = some rb) {place : String × String}
    {lsn : Nat} (hea : Expects a place lsn) (heb : Expects b place lsn)
    (hpa : place ∈ recordPlaces ra) (hpb : place ∈ recordPlaces rb) : i = j := by
  have h : Inv schema t := hrun.invariant (fun _ _ _ hI hmeets hstep => hI.step hmeets hstep) (inv_of_settled hs)
  obtain ⟨before, after, hwal, hversion, hdeleted⟩ := (h.fits a (mem_of_getElem? ha)).logged ra hra place lsn hea hpa
  obtain ⟨before', after', hwal', hversion', hdeleted'⟩ :=
    (h.fits b (mem_of_getElem? hb)).logged rb hrb place lsn heb hpb
  have hasc := h.writers.ascending
  rcases Nat.lt_trichotomy ra.lsn rb.lsn with hlt | heq | hgt
  · obtain ⟨between, rfl⟩ := split_of_lt hasc hwal hwal' hlt
    have hbefore : (before ++ ra :: between).Pairwise fun a b => a.lsn < b.lsn :=
      (pairwise_append.mp (hwal' ▸ hasc)).1
    refine absurd hversion' (version_ne hbefore (fun r hr => ?_) hpa hversion hdeleted')
    exact (h.writers.bounded r (hwal' ▸ mem_append_left _ hr)).1
  · have hra' := ((h.writers.ok a (mem_of_getElem? ha)).logged ra hra).1
    have hrb' := ((h.writers.ok b (mem_of_getElem? hb)).logged rb hrb).1
    obtain rfl := ObjectRefIndex.eq_of_ascending hasc hra' hrb' heq
    exact h.writers.once i j a b ra ha hb hra hrb
  · obtain ⟨between, rfl⟩ := split_of_lt hasc hwal' hwal hgt
    have hbefore : (before' ++ rb :: between).Pairwise fun a b => a.lsn < b.lsn :=
      (pairwise_append.mp (hwal ▸ hasc)).1
    refine absurd hversion (version_ne hbefore (fun r hr => ?_) hpb hversion' hdeleted)
    exact (h.writers.bounded r (hwal ▸ mem_append_left _ hr)).1

/-- What a writer has logged no other has, and it was accepted as a whole: each record is changed
once, and those that are put have values for their indexes, in a unique one different values. -/
theorem logged_accepted (hs : Settled s) {meets : WriteState → WriteEvent → Prop}
    (hrun : Reaches (WriteStep lib checks schema) meets s t) (hwriter : t.writers[i]? = some writer)
    (hr : writer.record? = some r) : r ∈ t.wal ∧
    (∀ j other, t.writers[j]? = some other → other.record? = some r → j = i) ∧
    AcceptedOperations schema writer.nowMs (recordMutations r.payload) := by
  have h := Writers.run hrun hs.writersOk
  obtain ⟨hmem, haccepted⟩ := (h.ok writer (mem_of_getElem? hwriter)).logged r hr
  exact ⟨hmem, fun j other hj hrj => h.once j i other writer r hj hwriter hrj hr, haccepted⟩

section Sample

def notesSchema : DatabaseSchema where
  name := "app"
  version := 1
  objects := ∅
  tables := (∅ : BTreeMap String TableSchema).insert "notes" ⟨.resident, ∅, ∅, ⟨[]⟩, ∅⟩
  events := ∅
  behaviors := ∅

def noteDraft : DbRecordDraft := ⟨"notes", "a", .null, 0, "tables/notes/a", none⟩

/-- The note is created, if it does not exist. -/
def createNote : List (RecordOperation × Option Nat) := [(.upsert "notes" "a" .null, some 0)]

/-- Bytes for the note as it is created. -/
def notesLibrary : ProjectionLibraries :=
  givenLibrary [(⟨"notes", "a", .null, 0, 1, "tables/notes/a"⟩, [1])] []

def anyShard : OperationChecks := ⟨fun _ => .ok (), fun _ => .ok (), fun _ => .ok 0⟩

def noteRecord (lsn : Nat) : WalRecord :=
  ⟨lsn, 0, 0, "node", 0, 1, .strict, .recordUpserted noteDraft, none⟩

def noteJob : RecordProjectionJob := .upsert 1 (noteDraft.intoRecord 1) ∅ none

def hotNote : RecordHotState := hotAfter ⟨∅, 0⟩ (noteRecord 1)

def creator (phase : WriterPhase) : Writer := ⟨false, createNote, 0, phase⟩

/-- Requests to create the note, before the applier does anything. -/
def creating (wal : List WalRecord) (hot : RecordHotState) (queue : List RecordProjectionJob)
    (phases : List WriterPhase) : WriteState := ⟨wal, hot, queue, .empty, phases.map creator, []⟩

/-- The applier has taken the job of the first request. -/
def noteApplied : WriteState :=
  (creating [noteRecord 1] hotNote [] [.committed (noteRecord 1)]).work notesLibrary noteJob

/-- The note is replaced, if it is the one that was created. -/
def replaceNote : RecordOperation × Option Nat := (.upsert "notes" "a" .null, some 1)

def noteReplaced : WriteState :=
  { noteApplied.push replaceNote (.logged (noteRecord 2)) with wal := [noteRecord 1, noteRecord 2] }

theorem settled_empty : Settled (creating [] ⟨∅, 0⟩ [] []) where
  ascending := .nil
  bounded := by simp [creating]
  logged := fun _ h => nomatch h
  queue := rfl
  writers := rfl
  readers := rfl

abbrev Created (meets : WriteState → WriteEvent → Prop) (t : WriteState) : Prop :=
  Reaches (WriteStep notesLibrary anyShard notesSchema) meets (creating [] ⟨∅, 0⟩ [] []) t

theorem creator_expects (phase : WriterPhase) : Expects (creator phase) ("notes", "a") 0 :=
  ⟨_, mem_singleton_self _, rfl, rfl⟩

theorem created_once :
    Created (UpToDate notesLibrary) (creating [noteRecord 1] ⟨∅,
    0⟩ [] [.logged (noteRecord 1)]) := by
  refine reaches_logged (r := noteRecord 1) (.refl (creating [] ⟨∅, 0⟩ [] [])) rfl (by decide +kernel) rfl (by decide)
    (fun _ h => nomatch h) trivial ?_ (fun _ => trivial) fun operations => ?_
  · rintro writer hwriter place lsn ⟨request, hrequest, rfl, -⟩
    obtain rfl := some.inj hwriter
    obtain rfl := mem_singleton.mp hrequest
    rfl
  · rintro writer operations readAt checkedAt hwriter hphase place lsn hexpects hplace
    exact ⟨fun later hlater => absurd (mem_of_mem_drop hlater) not_mem_nil, fun _ _ h => nomatch h⟩

theorem created_applied : Created (UpToDate notesLibrary) noteApplied := by
  have h₁ : Created (UpToDate notesLibrary) (creating [noteRecord 1] hotNote [] [.cached (noteRecord 1) noteJob]) :=
    created_once.take (e := .cache 0)
      (@WriteStep.cache _ _ _ _ 0 (creator (.logged (noteRecord 1))) _ noteJob rfl rfl rfl) trivial
  have h₂ : Created (UpToDate notesLibrary) (creating [noteRecord 1] hotNote [noteJob] [.committed (noteRecord 1)]) :=
    h₁.take (e := .enqueue 0)
      (@WriteStep.enqueue _ _ _ _ 0 (creator (.cached (noteRecord 1) noteJob)) _ _ rfl rfl) trivial
  exact h₂.take (e := .apply) (.apply rfl) trivial

theorem committed_note :
    committedRecord [noteRecord 1] ("notes", "a") = some (noteDraft.intoRecord 1) := rfl

theorem projected_note :
    getRecord notesLibrary noteApplied.records "notes" "a" = .ok (some (noteDraft.intoRecord 1)) :=
  rfl

theorem wal_noteApplied : noteApplied.wal = [noteRecord 1] :=
  (work_fields (creating [noteRecord 1] hotNote [] [.committed (noteRecord 1)]) noteJob).1

/-- The request that replaces the note is read when the projection has it. -/
theorem created_replaced : Created (UpToDate notesLibrary) noteReplaced := by
  have hlast : ∀ phase, (noteApplied.push replaceNote phase).writers[noteApplied.writers.length]? =
      some ⟨false, [replaceNote], 0, phase⟩ := fun phase => getElem?_concat_length
  have hreach : Created (UpToDate notesLibrary) { noteApplied.push replaceNote (.logged (noteRecord 2)) with
      wal := noteApplied.wal ++ [noteRecord 2] } := reaches_logged
    created_applied rfl (by decide +kernel) rfl (by decide) (by simp [wal_noteApplied, noteRecord]) trivial ?_
    (fun _ => trivial) fun operations => ?_
  · rwa [wal_noteApplied] at hreach
  · rintro writer hwriter place lsn ⟨request, hrequest, rfl, -⟩
    obtain rfl := some.inj ((hlast _).symm.trans hwriter)
    obtain rfl := mem_singleton.mp hrequest
    show getRecord notesLibrary noteApplied.records "notes" "a" = .ok (committedRecord noteApplied.wal ("notes", "a"))
    rw [wal_noteApplied, projected_note, committed_note]
  · rintro writer operations' readAt checkedAt hwriter hphase place lsn ⟨request, hrequest, -, hlsn⟩ -
    obtain rfl := some.inj ((hlast _).symm.trans hwriter)
    obtain rfl := mem_singleton.mp hrequest
    cases hphase
    refine ⟨fun later hlater => ?_, fun hzero => ?_⟩
    · have hnone : (noteApplied.push replaceNote
        (.checked operations noteApplied.wal.length noteApplied.wal.length)).wal.drop
          noteApplied.wal.length = [] := drop_length
      rw [hnone] at hlater
      exact absurd hlater not_mem_nil
    · obtain rfl := some.inj hlsn
      cases hzero

/-- The note is created and replaced, each by the only request that expects its LSN. -/
theorem expected_lsn_once_replaced :
    Settled (creating [] ⟨∅, 0⟩ [] []) ∧ Created (UpToDate notesLibrary) noteReplaced ∧
    noteReplaced.writers.map Writer.record? = [some (noteRecord 1), some (noteRecord 2)] ∧
    ∀ (j : Nat) (b : Writer)
    (rb : WalRecord), noteReplaced.writers[j]? = some b → b.record? = some rb →
    Expects b ("notes", "a") 1 →
    ("notes", "a") ∈ recordPlaces rb → j = 1 := by
  refine ⟨settled_empty, created_replaced, rfl, fun j b rb hb hrb heb hpb => ?_⟩
  have hfirst : noteReplaced.writers[1]? = some ⟨false, [replaceNote], 0, .logged (noteRecord 2)⟩ := rfl
  exact expected_lsn_once settled_empty created_replaced hb hfirst hrb rfl heb ⟨_, mem_singleton_self _, rfl, rfl⟩ hpb
    (mem_singleton_self _)

theorem created_twice : Created (fun _ _ => True)
    (creating [noteRecord 1, noteRecord 2] hotNote [noteJob] [.committed (noteRecord 1),
    .logged (noteRecord 2)]) := by
  have h₁ : Created (fun _ _ => True) (creating [noteRecord 1] ⟨∅, 0⟩ [] [.logged (noteRecord 1)]) :=
    reaches_logged (r := noteRecord 1) (.refl (creating [] ⟨∅, 0⟩ [] [])) rfl (by decide +kernel) rfl (by decide)
      (fun _ h => nomatch h) trivial trivial (fun _ => trivial) fun _ => trivial
  have h₂ : Created (fun _ _ => True) (creating [noteRecord 1] hotNote [] [.cached (noteRecord 1) noteJob]) :=
    h₁.take (e := .cache 0) (@WriteStep.cache _ _ _ _ 0
      (creator (.logged (noteRecord 1))) _ noteJob rfl rfl rfl) trivial
  have h₃ : Created (fun _ _ => True) (creating [noteRecord 1] hotNote [noteJob] [.committed (noteRecord 1)]) :=
    h₂.take (e := .enqueue 0)
      (@WriteStep.enqueue _ _ _ _ 0 (creator (.cached (noteRecord 1) noteJob)) _ _ rfl rfl) trivial
  exact reaches_logged (r := noteRecord 2) h₃ rfl (by decide +kernel) rfl (by decide) (by simp [creating, noteRecord])
    trivial trivial (fun _ => trivial) fun _ => trivial

section Together

open TransactionJob (usersSchema usersLibrary writable emailRequests emailOperations usersRecord userMutation_eq)

/-- Two users with an email each. -/
def addresses : List (String × String) := [("a", "x"), ("b", "y")]

def addressed : WalRecord :=
  usersRecord 1 (.recordTransactionCommitted (emailOperations addresses) none)

theorem addressed_payload : addressed.payload =
    commitPayload true ((emailRequests addresses).map fun request => request.1.mutation 0 none) := by
  simp [addressed, usersRecord, emailRequests, emailOperations, addresses, userMutation_eq, commitPayload]

theorem set_together :
    Reaches (WriteStep usersLibrary writable usersSchema) (fun _ _ => True) (creating [] ⟨∅,
    0⟩ [] [])
    { (creating [] ⟨∅, 0⟩ [] []).pushAll true (emailRequests addresses) (.logged addressed) with wal := [addressed] } :=
  reaches_logged_all (.refl (creating [] ⟨∅, 0⟩ [] [])) nofun (cons_ne_nil _ _) (by decide) (by decide +kernel)
    addressed_payload (by decide) (fun _ h => nomatch h) trivial trivial (fun _ => trivial) fun _ => trivial

/-- A transaction of two upserts into a table with a unique index. -/
theorem logged_accepted_together : AcceptedOperations usersSchema 0 (emailOperations addresses) :=
  (logged_accepted settled_empty set_together (i := 0) rfl rfl).2.2

end Together

/-- Two requests one after the other create the same record. -/
theorem created_by_two :
    ¬ ∀ (lib : ProjectionLibraries) (checks : OperationChecks) (schema : DatabaseSchema)
    (s t : WriteState), Settled s → Reaches (WriteStep lib checks schema) (fun _ _ => True) s t →
    ∀ (i j : Nat) (a b : Writer) (ra rb : WalRecord) (place : String × String) (lsn : Nat),
    t.writers[i]? = some a →
    t.writers[j]? = some b → a.record? = some ra → b.record? = some rb → Expects a place lsn →
    Expects b place lsn →
    place ∈ recordPlaces ra → place ∈ recordPlaces rb → i = j := by
  intro hall
  have hsame := hall _ _ _ _ _ settled_empty created_twice 0 1 _ _ _ _ ("notes", "a") 0 rfl rfl rfl rfl
    (creator_expects (.committed (noteRecord 1))) (creator_expects (.logged (noteRecord 2))) (mem_singleton_self _)
    (mem_singleton_self _)
  cases hsame

end Sample

end NextDb.Api.ExpectedLsn
