import NextDb.Lib.Run
import NextDb.Wal.TornTail

/-!
# The log writer

`handleAppends` writes a batch of append commands in one or two segments: up to
the last `Strict` record, synced, and the rest. A command is answered when its
segment is on disk. A write that fails leaves what it had written in the file,
which stays open for appending; where it fails in the last buffer, `write_all` has
returned already, the sync drops the error, and the next write returns it.

* `strictAcks_recovered`: records acknowledged as `Strict` are recovered, in every
  run in which no `Strict` segment fails in its last buffer, nor is written behind torn bytes.
* `appends_answered`: every command has one answer, and a `Strict` one is acknowledged behind
  its segment only, unless that segment fails in its last buffer.
-/

namespace NextDb.Wal

open Framing Run Actor List Option

structure WalAppendCommand where
  lsn : Nat
  shardEpoch : Nat
  ownerNodeId : String
  durability : Durability
  schemaVersion : Nat
  payload : WalPayload
  /-- The clock when the record is made. -/
  nowMs : Nat

/-- A command and the channel of its waiter. -/
structure WaitingCommand extends WalAppendCommand where
  ack : Nat

/-- What becomes of the bytes of a segment. -/
inductive FileWrite where
  | written
  /-- `write_all` fails, with the first `count` bytes in the file. -/
  | fails (count : Nat) (err : Error)
  /-- The last buffer fails after `write_all` has returned, with the first `count` bytes in the
  file. -/
  | failsLater (count : Nat) (err : Error)

/-- What becomes of a segment: its write, the writes of the replica files, the syncs and the remote
acknowledgements. -/
structure SegmentOutcome where
  write : FileWrite
  replicas : Result Unit
  sync : Result Unit
  remote : Result Unit

/-- What follows the write of the file. -/
def SegmentOutcome.later (self : SegmentOutcome) (sync : Bool) : Result Unit := do
  self.replicas
  if sync then self.sync
  self.remote

/-- The log file and its handle. -/
structure WalFile where
  bytes : Bytes
  isOpen : Bool

/-- The handle keeps the error of a write that has returned already. -/
structure WriterFile extends WalFile where
  lastWriteErr : Option Error

variable (lib : Libraries)

def walAppendCommandsAreSortedByLsn : List WaitingCommand → Bool
  | a :: b :: rest => a.lsn ≤ b.lsn && walAppendCommandsAreSortedByLsn (b :: rest)
  | _ => true

def sortByLsn (commands : List WaitingCommand) : List WaitingCommand :=
  if walAppendCommandsAreSortedByLsn commands then commands
  else commands.mergeSort fun a b => a.lsn ≤ b.lsn

/-- The record of a command, with its checksum. -/
def signedRecord (shard : Nat) (command : WalAppendCommand) : Result WalRecord :=
  refreshChecksum lib {
    lsn := command.lsn
    shard
    shardEpoch := command.shardEpoch
    ownerNodeId := command.ownerNodeId
    timestampMs := command.nowMs
    schemaVersion := command.schemaVersion
    durability := command.durability
    payload := command.payload
    checksum := none }

/-- The end of the shortest prefix that holds every `Strict` record. -/
def strictPrefixEnd (records : List WalRecord) : Option Nat :=
  (records.reverse.findIdx? fun r => r.durability = .strict).map (records.length - ·)

def appendWalSegment (records : List WalRecord) (sync : Bool) (outcome : SegmentOutcome)
    (file : WriterFile) :
    WriterFile × Result Unit :=
  if records.isEmpty then (file, .ok ())
  else if !file.isOpen then (file, bail "WAL file is not open")
  else
    match encodeWalRecords lib records, file.lastWriteErr with
    | .error err, _ => (file, .error err)
    | .ok _, some err => ({ file with lastWriteErr := none }, .error err)
    | .ok encoded, none =>
      match outcome.write with
      | .fails count err => ({ file with bytes := file.bytes ++ encoded.take count }, .error err)
      | .failsLater count err =>
        ({ file with bytes := file.bytes ++ encoded.take count, lastWriteErr := some err }, outcome.later sync)
      | .written => ({ file with bytes := file.bytes ++ encoded }, outcome.later sync)

/-- A waiter is answered with its record or with the text of the error. -/
abbrev Answer := Except String WalRecord

def failWalAcks (acks : List Nat) (err : Error) : List (Nat × Answer) :=
  acks.map fun ack => (ack, .error err.message)

def succeedWalAcks (acks : List Nat) (records : List WalRecord) : List (Nat × Answer) :=
  acks.zip (records.map .ok)

/-- The records of the commands, in the order of the LSNs. -/
def signedRecords (shard : Nat) (commands : List WaitingCommand) : Result (List WalRecord) :=
  (sortByLsn commands).mapM fun command => signedRecord lib shard command.toWalAppendCommand

/-- The log file after a batch, and what is sent to each waiter. -/
def handleAppends (shard : Nat) (commands : List WaitingCommand)
    (first rest : SegmentOutcome) (file : WriterFile) : WriterFile × List (Nat × Answer) :=
  let acks := (sortByLsn commands).map (·.ack)
  let strict := commands.any fun command => command.durability = .strict
  match signedRecords lib shard commands with
  | .error err => (file, failWalAcks acks err)
  | .ok records =>
    match strictPrefixEnd records with
    | none =>
      let (file, written) := appendWalSegment lib records strict rest file
      match written with
      | .error err => (file, failWalAcks acks err)
      | .ok () => (file, succeedWalAcks acks records)
    | some stop =>
      let (file, written) := appendWalSegment lib (records.take stop) true first file
      match written with
      | .error err => (file, failWalAcks acks err)
      | .ok () =>
        let acknowledged := succeedWalAcks (acks.take stop) (records.take stop)
        let (file, written) := appendWalSegment lib (records.drop stop) false rest file
        match written with
        | .error err => (file, acknowledged ++ failWalAcks (acks.drop stop) err)
        | .ok () => (file, acknowledged ++ succeedWalAcks (acks.drop stop) (records.drop stop))

/-! ## Runs of the writer -/

/-- The log file, and the `Strict` records whose waiters were answered `Ok`. -/
structure WriterState where
  file : WriterFile
  strictAcks : List WalRecord

/-- A batch, the clock readings in it and what becomes of its two writes. -/
structure WriterEvent where
  commands : List WaitingCommand
  first : SegmentOutcome
  rest : SegmentOutcome

/-- The `Strict` records among the answers. -/
def strictOf (answers : List (Nat × Answer)) : List WalRecord :=
  (answers.filterMap fun answer => answer.2.toOption).filter fun r => r.durability = .strict

/-- A batch of the worker. -/
def writerStep (shard : Nat) (s : WriterState) (e : WriterEvent) (t : WriterState) : Prop :=
  t = ⟨(handleAppends lib shard e.commands e.first e.rest s.file).1,
    s.strictAcks ++ strictOf (handleAppends lib shard e.commands e.first e.rest s.file).2⟩

/-- A batch with a `Strict` command does not fail in the last buffer of its first segment, and where
its write succeeds it finds an empty or framed file that is read to its end. -/
def WritesBehindWhole (path : String) (s : WriterState) (e : WriterEvent) : Prop :=
  (∃ c ∈ e.commands, c.durability = .strict) → s.file.lastWriteErr = none → e.first.later true = .ok () →
    (∀ count err, e.first.write ≠ .failsLater count err) ∧
      (e.first.write = .written →
        Framed s.file.bytes ∧ (decodeFramedWalRecordsPrefix lib path s.file.bytes).quarantined = none)

variable {lib} {shard : Nat} {command : WalAppendCommand} {record : WalRecord}
    {segment : List WalRecord} {head : Bytes}
  {path : String}

theorem signedRecord_ok (h : signedRecord lib shard command = .ok record) :
    record.durability = command.durability ∧ ensureChecksum lib record = .ok record ∧
    ChecksumFits lib record := by
  obtain ⟨checksum, hc, rfl⟩ := refreshChecksum_ok h
  refine ⟨rfl, rfl, fun c hs => ?_⟩
  cases hs
  exact hc

theorem signedRecord_data {shard : Nat} (h : signedRecord lib shard command = .ok record) :
    record.payload = command.payload ∧ record.lsn = command.lsn := by
  obtain ⟨checksum, -, rfl⟩ := refreshChecksum_ok h
  exact ⟨rfl, rfl⟩

/-- What the file and its handle, the replicas and the remotes are when a segment is acknowledged.
-/
structure SegmentReady (lib : Libraries) (records : List WalRecord) (sync : Bool)
    (outcome : SegmentOutcome) (file : WriterFile) (encoded : Bytes) : Prop where
  isOpen : file.isOpen = true
  quiet : file.lastWriteErr = none
  encodes : encodeWalRecords lib records = .ok encoded
  later : outcome.later sync = .ok ()

/-- A segment only appends, and when it succeeds everything was ready for it. -/
theorem appendWalSegment_appends (records : List WalRecord) (sync : Bool) (outcome : SegmentOutcome)
    (file : WriterFile) :
    ∃ tail, (appendWalSegment lib records sync outcome file).1.bytes = file.bytes ++ tail ∧
    ((appendWalSegment lib records sync outcome file).2 = .ok () → records ≠ [] → ∃ encoded,
    SegmentReady lib records sync outcome file encoded ∧ (outcome.write = .written ∧
    tail = encoded ∨
    ∃ count err, outcome.write = .failsLater count err)) := by
  unfold appendWalSegment
  split
  · next he => exact ⟨[], by simp, fun _ hne => absurd (List.isEmpty_iff.mp he) hne⟩
  · split
    · exact ⟨[], by simp, nofun⟩
    · next hopen =>
      split
      · exact ⟨[], by simp, nofun⟩
      · exact ⟨[], by simp, nofun⟩
      · next encoded hencodes hquiet =>
        have hready : outcome.later sync = .ok () → SegmentReady lib records sync outcome file encoded :=
          fun hlater => ⟨by simpa using hopen, hquiet, hencodes, hlater⟩
        split
        · exact ⟨_, rfl, nofun⟩
        · next count err hwrite => exact ⟨_, rfl, fun hok _ => ⟨encoded, hready hok, .inr ⟨count, err, hwrite⟩⟩⟩
        · next hwrite => exact ⟨_, rfl, fun hok _ => ⟨encoded, hready hok, .inl ⟨hwrite, rfl⟩⟩⟩

/-- A segment that fails in its last buffer succeeds all the same. -/
theorem appendWalSegment_failsLater {records : List WalRecord} {sync : Bool}
    {outcome : SegmentOutcome}
    {file : WriterFile} {encoded : Bytes} (h : SegmentReady lib records sync outcome file encoded)
    {count : Nat} {err : Error} (hwrite : outcome.write = .failsLater count err) :
    (appendWalSegment lib records sync outcome file).2 = .ok () := by
  unfold appendWalSegment
  split
  · rfl
  · simp [h.isOpen, h.quiet, h.encodes, h.later, hwrite]

variable {records : List WalRecord}

theorem strictPrefixEnd_some {stop : Nat} (h : strictPrefixEnd records = some stop) :
    ∀ r ∈ records, r.durability = .strict → r ∈ records.take stop := by
  obtain ⟨i, hi, rfl⟩ := map_eq_some_iff.mp h
  obtain ⟨hlt, -, hbefore⟩ := findIdx?_eq_some_iff_getElem.mp hi
  intro r hr hstrict
  rw [← take_append_drop (records.length - i) records] at hr
  refine (mem_append.mp hr).resolve_right fun hr => absurd hstrict ?_
  rw [← mem_reverse, ← take_reverse] at hr
  obtain ⟨j, hj, rfl⟩ := getElem_of_mem hr
  rw [length_take] at hj
  have := hbefore j (by omega)
  rw [getElem_take]
  simpa using this

theorem strictPrefixEnd_none (h : strictPrefixEnd records = none) :
    ∀ r ∈ records, r.durability ≠ .strict := by
  intro r hr
  have := findIdx?_eq_none_iff.mp (map_eq_none_iff.mp h) r (mem_reverse.mpr hr)
  simpa using this

@[simp] theorem mem_strictOf {answers : List (Nat × Answer)} {r : WalRecord} :
    r ∈ strictOf answers ↔ (∃ ack, (ack, .ok r) ∈ answers) ∧ r.durability = .strict := by
  have hok : ∀ answer : Answer, answer.toOption = some r ↔ answer = .ok r := by
    rintro (_ | _) <;> simp [Except.toOption]
  simp [strictOf, hok]

theorem mem_sortByLsn {commands : List WaitingCommand} {c : WaitingCommand} :
    c ∈ sortByLsn commands ↔ c ∈ commands := by
  unfold sortByLsn
  split
  · rfl
  · exact mem_mergeSort

/-- The batch has a `Strict` record, and its first segment finds everything ready. -/
def FirstReady (lib : Libraries) (shard : Nat) (commands : List WaitingCommand)
    (first : SegmentOutcome)
    (file : WriterFile) (segment : List WalRecord) (encoded : Bytes) : Prop :=
  ∃ records stop, signedRecords lib shard commands = .ok records ∧ strictPrefixEnd records = some stop ∧
    segment = records.take stop ∧ SegmentReady lib segment true first file encoded

/-- The segment of a batch with `Strict` records ends with one, and has them all. -/
theorem FirstReady.strict {commands : List WaitingCommand} {first : SegmentOutcome}
    {file : WriterFile}
    {encoded : Bytes} (h : FirstReady lib shard commands first file segment encoded) :
    ∃ r ∈ segment, r.durability = .strict := by
  obtain ⟨records, stop, -, hstop, rfl, -⟩ := h
  obtain ⟨i, hi, rfl⟩ := map_eq_some_iff.mp hstop
  obtain ⟨hlt, hstrict, -⟩ := findIdx?_eq_some_iff_getElem.mp hi
  have hmem := mem_reverse.mp (getElem_mem hlt)
  have hstrict : (records.reverse[i]).durability = .strict := by simpa using hstrict
  exact ⟨_, strictPrefixEnd_some hstop _ hmem hstrict, hstrict⟩

/-- What a waiter is sent: its own record, if any. -/
def Answers (lib : Libraries) (shard : Nat) (command : WaitingCommand) (sent : Nat × Answer) :
    Prop :=
  sent.1 = command.ack ∧ ∀ record, sent.2 = .ok record →
    signedRecord lib shard command.toWalAppendCommand = .ok record

variable {commands : List WaitingCommand} {first rest : SegmentOutcome} {file : WriterFile}

theorem answers_fail (commands : List WaitingCommand) (err : Error) :
    Forall₂ (Answers lib shard) commands (failWalAcks (commands.map (·.ack)) err) := by
  rw [failWalAcks, List.map_map]
  exact forall₂_map_right_iff.mpr (forall₂_same.mpr fun _ _ => ⟨rfl, nofun⟩)

theorem answers_succeed (h : Forall₂ (fun command record =>
    signedRecord lib shard command.toWalAppendCommand = .ok record) commands records) :
    Forall₂ (Answers lib shard) commands (succeedWalAcks (commands.map (·.ack)) records) := by
  induction h with
  | nil => exact .nil
  | cons hsigned _ ih =>
    refine .cons ⟨rfl, ?_⟩ ih
    rintro record ⟨⟩
    exact hsigned

/-- Every waiter is sent one answer. -/
theorem handleAppends_answers (commands : List WaitingCommand) (first rest : SegmentOutcome)
    (file : WriterFile) :
    Forall₂ (Answers lib shard) (sortByLsn commands) (handleAppends lib shard commands first rest file).2 := by
  simp only [handleAppends]
  cases hm : signedRecords lib shard commands with
  | error err => exact answers_fail _ err
  | ok records =>
    have hsigned := forall₂_of_mapM_ok hm
    dsimp only
    cases hstop : strictPrefixEnd records with
    | none =>
      dsimp only
      split
      · exact answers_fail _ _
      · exact answers_succeed hsigned
    | some stop =>
      dsimp only
      split
      · exact answers_fail _ _
      · have hhead := answers_succeed (forall₂_take stop hsigned)
        rw [← map_take, ← map_drop]
        split
        · simpa only [take_append_drop] using rel_append hhead (answers_fail (drop stop (sortByLsn commands)) _)
        · simpa only [take_append_drop] using rel_append hhead (answers_succeed (forall₂_drop stop hsigned))

/-- A batch only appends to the file, and a `Strict` record is acknowledged when everything was
ready for its segment. -/
theorem handleAppends_appends (commands : List WaitingCommand) (first rest : SegmentOutcome)
    (file : WriterFile) :
    ∃ head tail, (handleAppends lib shard commands first rest file).1.bytes =
    file.bytes ++ (head ++ tail) ∧
    ∀ ack record, (ack, .ok record) ∈ (handleAppends lib shard commands first rest file).2 →
    record.durability = .strict →
    ∃ segment encoded, FirstReady lib shard commands first file segment encoded ∧
    record ∈ segment ∧ (first.write = .written ∧ head = encoded ∨ ∃ count err,
    first.write = .failsLater count err) := by
  have hfail : ∀ {acks : List Nat} {err : Error} {ack : Nat} {record : WalRecord},
      (ack, .ok record) ∉ failWalAcks acks err := by simp [failWalAcks]
  have hsucceed : ∀ {acks : List Nat} {records : List WalRecord} {ack : Nat} {record : WalRecord},
      (ack, .ok record) ∈ succeedWalAcks acks records → record ∈ records := fun h => by
    obtain ⟨_, hmem, heq⟩ := mem_map.mp (of_mem_zip h).2
    exact Except.ok.inj heq ▸ hmem
  simp only [handleAppends]
  cases hm : signedRecords lib shard commands with
  | error err => exact ⟨[], [], by simp, fun _ _ h => absurd h hfail⟩
  | ok records =>
    dsimp only
    cases hstop : strictPrefixEnd records with
    | none =>
      obtain ⟨tail, hbytes, -⟩ := @appendWalSegment_appends lib records
        (commands.any fun command => command.durability = .strict) rest file
      dsimp only
      refine ⟨[], tail, by split <;> exact hbytes, fun ack record hmem hstrict => ?_⟩
      split at hmem
      · exact absurd hmem hfail
      · exact absurd hstrict (strictPrefixEnd_none hstop record (hsucceed hmem))
    | some stop =>
      obtain ⟨head, hbytes, hhead⟩ := @appendWalSegment_appends lib (records.take stop) true first file
      dsimp only
      cases hfirst : (appendWalSegment lib (records.take stop) true first file).2 with
      | error err => exact ⟨head, [], by simpa using hbytes, fun _ _ h => absurd h hfail⟩
      | ok done =>
        obtain ⟨tail, hbytes', -⟩ := @appendWalSegment_appends lib (records.drop stop) false rest
          (appendWalSegment lib (records.take stop) true first file).1
        rw [hbytes, append_assoc] at hbytes'
        dsimp only
        refine ⟨head, tail, by split <;> exact hbytes', fun ack record hmem hstrict => ?_⟩
        have hin : record ∈ records := by
          split at hmem
          · exact mem_of_mem_take (hsucceed ((mem_append.mp hmem).resolve_right hfail))
          · exact (mem_append.mp hmem).elim (fun h => mem_of_mem_take (hsucceed h)) fun h =>
              mem_of_mem_drop (hsucceed h)
        have hsegment := strictPrefixEnd_some hstop record hin hstrict
        obtain ⟨encoded, hready, hwrite⟩ := hhead hfirst (ne_nil_of_mem hsegment)
        exact ⟨_, encoded, ⟨records, stop, hm, hstop, rfl, hready⟩, hsegment, hwrite⟩

/-- The first segment is acknowledged although its last buffer fails. -/
theorem handleAppends_acknowledges {encoded : Bytes}
    (h : FirstReady lib shard commands first file segment encoded)
    {count : Nat} {err : Error} (hwrite : first.write = .failsLater count err)
    (rest : SegmentOutcome)
    (hrecord : record ∈ segment) :
    ∃ ack, (ack, .ok record) ∈ (handleAppends lib shard commands first rest file).2 := by
  obtain ⟨records, stop, hm, hstop, rfl, hready⟩ := h
  have hlength : (take stop ((sortByLsn commands).map (·.ack))).length = (records.take stop).length := by
    simp [(forall₂_of_mapM_ok hm).length_eq]
  have hmem : Except.ok record ∈ (succeedWalAcks (take stop ((sortByLsn commands).map (·.ack)))
      (records.take stop)).map Prod.snd := by
    rw [succeedWalAcks, map_snd_zip (by simpa using hlength.ge)]
    exact mem_map_of_mem hrecord
  obtain ⟨⟨ack, _⟩, hsent, rfl⟩ := mem_map.mp hmem
  refine ⟨ack, ?_⟩
  simp only [handleAppends, hm, hstop, appendWalSegment_failsLater hready hwrite]
  split <;> exact mem_append_left _ hsent

theorem sortByLsn_sorted (commands : List WaitingCommand) :
    (sortByLsn commands).Pairwise fun a b => a.lsn ≤ b.lsn := by
  have htrans : IsTrans WaitingCommand fun a b => a.lsn ≤ b.lsn := ⟨fun _ _ _ => le_trans⟩
  unfold sortByLsn
  split
  · next h =>
    refine IsChain.pairwise ?_
    induction commands using walAppendCommandsAreSortedByLsn.induct with
    | case1 a b rest ih =>
      rw [walAppendCommandsAreSortedByLsn, Bool.and_eq_true, decide_eq_true_eq] at h
      exact isChain_cons_cons.mpr ⟨h.1, ih h.2⟩
    | case2 commands hcommands =>
      match commands with
      | [] => exact .nil
      | [a] => exact .singleton a
      | a :: b :: rest => exact absurd rfl (hcommands a b rest)
  · have := @pairwise_mergeSort _ (fun a b : WaitingCommand => decide (a.lsn ≤ b.lsn))
      (fun a b c => by simpa using le_trans) (fun a b => by simpa using le_total a.lsn b.lsn) commands
    simpa using this

theorem sortByLsn_perm (commands : List WaitingCommand) : (sortByLsn commands).Perm commands := by
  unfold sortByLsn
  split
  · rfl
  · exact mergeSort_perm ..

/-! ## What the answers promise -/

/-- The segment was written and synced, and the policy of the remote acknowledgements met. -/
def SegmentOutcome.Met (self : SegmentOutcome) : Prop :=
  self.write = .written ∧ self.replicas = .ok () ∧ self.sync = .ok () ∧ self.remote = .ok ()

theorem SegmentOutcome.later_ok {self : SegmentOutcome} (h : self.later true = .ok ()) :
    self.replicas = .ok () ∧ self.sync = .ok () ∧ self.remote = .ok () := by
  obtain ⟨_, hreplicas, h⟩ := bind_eq_ok.mp h
  obtain ⟨_, hsync, hremote⟩ := bind_eq_ok.mp h
  exact ⟨hreplicas, hsync, hremote⟩

/-- Every waiter is answered once, with the record of its command if with one; and a `Strict`
command is acknowledged behind a segment with its record and those of all commands below it. -/
structure Disciplined (lib : Libraries) (shard : Nat) (commands : List WaitingCommand)
    (first : SegmentOutcome)
    (file : WriterFile) (batch : WriterFile × List (Nat × Answer)) : Prop where
  once : (batch.2.map Prod.fst).Perm (commands.map (·.ack))
  own : ∀ command ∈ commands, ∀ record, (command.ack, .ok record) ∈ batch.2 →
    record.lsn = command.lsn ∧ record.payload = command.payload
  strict : ∀ command ∈ commands, command.durability = .strict → ∀ record, (command.ack, .ok record) ∈ batch.2 →
    first.Met ∧ ∃ segment head tail, encodeWalRecords lib segment = .ok head ∧
      batch.1.bytes = file.bytes ++ (head ++ tail) ∧ record ∈ segment ∧ ∀ other ∈ commands, other.lsn < command.lsn →
      ∃ r ∈ segment, signedRecord lib shard other.toWalAppendCommand = .ok r

/-- Everything is ready for the segment of the `Strict` commands, and its write fails in the last
buffer. -/
def FailsUnseen (lib : Libraries) (shard : Nat) (commands : List WaitingCommand)
    (first : SegmentOutcome) (file : WriterFile) : Prop :=
  (∃ segment encoded, FirstReady lib shard commands first file segment encoded) ∧
    ∃ count err, first.write = .failsLater count err

/-- What is below a record of the first segment is in it too. -/
theorem FirstReady.lower {encoded : Bytes}
    (h : FirstReady lib shard commands first file segment encoded)
    {other : WaitingCommand} (hrecord : record ∈ segment) (hother : other ∈ commands)
    (hlt : other.lsn < record.lsn) :
    ∃ r ∈ segment, signedRecord lib shard other.toWalAppendCommand = .ok r := by
  obtain ⟨records, stop, hm, -, rfl, -⟩ := h
  have hsigned := forall₂_of_mapM_ok hm
  have hsorted : records.Pairwise fun a b => a.lsn ≤ b.lsn := by
    have hlsns : Forall₂ (· = ·) ((sortByLsn commands).map (·.lsn)) (records.map (·.lsn)) :=
      forall₂_map_left_iff.mpr (forall₂_map_right_iff.mpr (hsigned.imp fun _ _ h => (signedRecord_data h).2.symm))
    rw [forall₂_eq_eq_eq] at hlsns
    exact pairwise_map.mp (hlsns ▸ pairwise_map.mpr (sortByLsn_sorted commands))
  rw [← take_append_drop stop records] at hsorted
  obtain ⟨r, hr, hok⟩ := mem_mapM_of_mem hm (mem_sortByLsn.mpr hother)
  refine ⟨r, ?_, hok⟩
  rw [← take_append_drop stop records] at hr
  refine (mem_append.mp hr).resolve_right fun hdrop => ?_
  rw [← (signedRecord_data hok).2] at hlt
  exact hlt.not_ge ((pairwise_append.mp hsorted).2.2 record hrecord r hdrop)

/-- Every batch keeps to it, unless the write of its first segment fails in the last buffer. -/
theorem appends_answered (lib : Libraries) (shard : Nat) {commands : List WaitingCommand}
    (first rest : SegmentOutcome) (file : WriterFile) (hacks : (commands.map (·.ack)).Nodup) :
    Disciplined lib shard commands first file (handleAppends lib shard commands first rest file) ↔
    ¬ FailsUnseen lib shard commands first file := by
  have hanswers := @handleAppends_answers lib shard commands first rest file
  obtain ⟨head, tail, hbytes, hstrict⟩ := @handleAppends_appends lib shard commands first rest file
  have hown : ∀ command ∈ commands, ∀ record, (command.ack, .ok record) ∈
      (handleAppends lib shard commands first rest file).2 →
      signedRecord lib shard command.toWalAppendCommand = .ok record := by
    intro command hcommand record hsent
    obtain ⟨other, hother, hack, hrecord⟩ := exists_of_forall₂ hanswers hsent
    obtain rfl := inj_on_of_nodup_map hacks hcommand (mem_sortByLsn.mp hother) hack
    exact hrecord record rfl
  constructor
  · rintro ⟨-, -, hmet⟩ ⟨⟨segment, encoded, hready⟩, count, err, hwrite⟩
    obtain ⟨record, hrecord, hdurability⟩ := hready.strict
    obtain ⟨ack, hsent⟩ := handleAppends_acknowledges hready hwrite rest hrecord
    obtain ⟨command, hcommand, rfl, hok⟩ := exists_of_forall₂ hanswers hsent
    have hcommand := mem_sortByLsn.mp hcommand
    have hmet := (hmet command hcommand ((signedRecord_ok (hok record rfl)).1 ▸ hdurability) record hsent).1.1
    cases hwrite.symm.trans hmet
  · intro hseen
    refine ⟨?_, fun command hcommand record hsent => ?_, fun command hcommand hdurability record hsent => ?_⟩
    · have hmap : (handleAppends lib shard commands first rest file).2.map Prod.fst =
          (sortByLsn commands).map (·.ack) := by
        rw [← forall₂_eq_eq_eq]
        exact forall₂_map_left_iff.mpr (forall₂_map_right_iff.mpr (hanswers.flip.imp fun _ _ h => h.1))
      rw [hmap]
      exact (sortByLsn_perm commands).map _
    · exact (signedRecord_data (hown command hcommand record hsent)).symm
    · have hok := hown command hcommand record hsent
      obtain ⟨segment, encoded, hready, hmem, hwrite⟩ :=
        hstrict _ record hsent ((signedRecord_ok hok).1.trans hdurability)
      have hnot : ¬ ∃ count err, first.write = .failsLater count err := fun h => hseen ⟨⟨_, _, hready⟩, h⟩
      obtain ⟨hwritten, rfl⟩ := hwrite.resolve_right hnot
      obtain ⟨_, _, -, -, -, hsegment⟩ := id hready
      refine ⟨⟨hwritten, SegmentOutcome.later_ok hsegment.later⟩, segment, _, tail, hsegment.encodes, hbytes, hmem, ?_⟩
      exact fun other hother hlt => hready.lower hmem hother ((signedRecord_data hok).2 ▸ hlt)

/-! ## What is recovered -/

/-- Signed records encode to frames that are recovered as these records. -/
theorem recoverFrame_frames (hlib : lib.Lawful) (h : encodeWalRecords lib segment = .ok head)
    (hs : ∀ r ∈ segment, ensureChecksum lib r = .ok r ∧ ChecksumFits lib r) :
    ∃ frames, (recoverFrame lib).Frames segment frames ∧ head = frames.flatten := by
  obtain ⟨signed, frames, hsigned, hframes, rfl⟩ := encodeWalRecords_frames hlib h
  have hself : signed = segment := by
    clear h hframes
    induction hsigned with
    | nil => rfl
    | cons hr _ ih =>
      have hr' := (hs _ mem_cons_self).1
      rw [hr] at hr'
      cases hr'
      rw [ih fun r hmem => hs r (mem_cons_of_mem _ hmem)]
  subst hself
  refine ⟨frames, ?_, rfl⟩
  refine forall₂_iff_get.mpr ⟨hframes.length_eq, fun i hi hi' => ?_⟩
  exact recoverFrame_whole ((forall₂_iff_get.mp hframes).2 i hi hi') (hs _ (get_mem _ ⟨i, hi⟩)).2

/-- The record is recovered from a framed file. -/
def RecoveredFrom (lib : Libraries) (path : String) (bytes : Bytes) (record : WalRecord) : Prop :=
  Framed bytes ∧ record ∈ (decodeFramedWalRecordsPrefix lib path bytes).records

/-- A recovered record stays recovered, whatever is appended. -/
theorem RecoveredFrom.append {path : String} {bytes : Bytes} {record : WalRecord}
    (h : RecoveredFrom lib path bytes record) (tail : Bytes) :
    RecoveredFrom lib path (bytes ++ tail) record := by
  obtain ⟨hframed, hmem⟩ := h
  have hne : bytes ≠ [] := by
    rintro rfl
    simp [decodeFramedWalRecordsPrefix] at hmem
  have hmagic := hframed.resolve_left hne
  refine ⟨.inr (hmagic.trans (prefix_append ..)), ?_⟩
  exact (readPrefix_append recoverFrame_local 1 0 bytes tail).subset hmem

/-- What is encoded behind a file that is read to its end is recovered. -/
theorem recoveredFrom_encode (hlib : lib.Lawful) {bytes : Bytes} (hframed : Framed bytes)
    (hwhole : (decodeFramedWalRecordsPrefix lib path bytes).quarantined = none)
    (h : encodeWalRecords lib segment = .ok head)
    (hs : ∀ r ∈ segment, ensureChecksum lib r = .ok r ∧ ChecksumFits lib r) (tail : Bytes) :
    ∀ r ∈ segment, RecoveredFrom lib path (bytes ++ (head ++ tail)) r := by
  intro r hr
  obtain ⟨frames, hframes, rfl⟩ := recoverFrame_frames hlib h hs
  have hhead : frames.flatten ≠ [] := by
    cases hframes with
    | nil => cases hr
    | cons hw _ => simp [hw.1]
  have hmagic : walFrameMagic <+: frames.flatten :=
    (framed_encode hlib h).resolve_left hhead
  refine ⟨hframed.append (.inr (hmagic.trans (prefix_append ..))), ?_⟩
  have hend : (readPrefix (recoverFrame lib) 1 0 bytes).2 = none := by
    simpa [decodeFramedWalRecordsPrefix] using hwhole
  rw [decodeFramedWalRecordsPrefix, readPrefix_append_of_whole recoverFrame_local _ _ _ _ hend,
    readPrefix_flatten hframes]
  exact mem_append_right _ (mem_append_left _ hr)

/-- The invariant of the runs: what was acknowledged as `Strict` is recovered. -/
def StrictAcksRecovered (lib : Libraries) (path : String) (s : WriterState) : Prop :=
  ∀ record ∈ s.strictAcks, RecoveredFrom lib path s.file.bytes record

theorem writerStep_recovered (hlib : lib.Lawful) {s t : WriterState} {e : WriterEvent}
    (hs : StrictAcksRecovered lib path s) (hmeets : WritesBehindWhole lib path s e)
    (hstep : writerStep lib shard s e t)
    : StrictAcksRecovered lib path t := by
  obtain ⟨head, tail, hbytes, hstrict⟩ := @handleAppends_appends lib shard e.commands e.first e.rest s.file
  have hanswers := @handleAppends_answers lib shard e.commands e.first e.rest s.file
  subst hstep
  intro r hr
  rw [hbytes]
  rcases mem_append.mp hr with hr | hr
  · exact (hs r hr).append _
  · obtain ⟨⟨ack, hsent⟩, hdurability⟩ := mem_strictOf.mp hr
    obtain ⟨segment, encoded, hfirst, hmem, hwrite⟩ := hstrict ack r hsent hdurability
    obtain ⟨records, stop, hm, -, rfl, hready⟩ := hfirst
    obtain ⟨command, hcommand, -, hok⟩ := exists_of_forall₂ hanswers hsent
    obtain ⟨hseen, hbehind⟩ := hmeets ⟨command, mem_sortByLsn.mp hcommand,
      (signedRecord_ok (hok r rfl)).1 ▸ hdurability⟩
      hready.quiet hready.later
    obtain ⟨hwritten, rfl⟩ := hwrite.resolve_right fun ⟨count, err, h⟩ => hseen count err h
    obtain ⟨hframed, hwhole⟩ := hbehind hwritten
    refine recoveredFrom_encode hlib hframed hwhole hready.encodes (fun r hr => ?_) tail r hmem
    obtain ⟨c, -, hok⟩ := mem_of_mapM_ok hm (mem_of_mem_take hr)
    exact (signedRecord_ok hok).2

/-- In every run whose `Strict` segments neither fail in their last buffer nor are written behind
anything but an empty or framed file that is read to its end, every record acknowledged as `Strict`
is among those that recovery and replay find in the file. -/
theorem strictAcks_recovered (hlib : lib.Lawful) (sort : MessageSort)
    (path : String) (hotWindow sinceLsn : Nat) (rooms : HashMap String RoomLiveState)
    (file : WriterFile)
    {s : WriterState} (hrun : Reaches (writerStep lib shard) (WritesBehindWhole lib path) ⟨file,
      []⟩ s) :
    ∀ record ∈ s.strictAcks,
    ∃ recovered state, readRecoverableRecordsFile lib path (some s.file.bytes) = .ok recovered ∧
    record ∈ recovered.records ∧
    replayFrom lib sort path (some s.file.bytes) hotWindow sinceLsn rooms = .ok state ∧
    state.scannedRecords = recovered.records.length := by
  have hinv : StrictAcksRecovered lib path s :=
    hrun.invariant (fun _ _ _ hs hm ht => writerStep_recovered hlib hs hm ht) fun _ h => nomatch h
  intro record hrecord
  obtain ⟨hframed, hmem⟩ := hinv record hrecord
  have hread := @readRecoverableRecordsFile_framed lib _ hframed path
  obtain ⟨state, hstate, hscan, -⟩ := @replayFrom_ok _ sort _ _ _ hread hotWindow sinceLsn rooms
  exact ⟨_, state, hread, hmem, hstate, hscan⟩

/-! ## Batches that fail and one that does not -/

def sampleCommand : WalAppendCommand where
  lsn := 1
  shardEpoch := 1
  ownerNodeId := ""
  durability := .strict
  schemaVersion := 1
  payload := .hostHttpCompleted "r" 7
  nowMs := 0

theorem signedRecord_sample : signedRecord sampleLibraries 0 sampleCommand = .ok sampleSigned :=
  refreshChecksum_sample

/-- Only the write fails, if anything does. -/
def writeOutcome (write : FileWrite) : SegmentOutcome := ⟨write, .ok (), .ok (), .ok ()⟩

def sampleWaiting (ack : Nat) : WaitingCommand := { sampleCommand with ack }

def sampleFile (bytes : Bytes) : WriterFile := ⟨⟨bytes, true⟩, none⟩

theorem handleAppends_sample (first : FileWrite) (bytes : Bytes) :
    handleAppends sampleLibraries 0 [sampleWaiting 0] (writeOutcome first) (writeOutcome .written) (sampleFile bytes) =
      match first with
      | .fails count err =>
        (sampleFile (bytes ++ (walFrame sampleLibraries sampleBytes).take count),
        [(0, .error err.message)])
      | .failsLater count err =>
        ({ sampleFile (bytes ++ (walFrame sampleLibraries sampleBytes).take count) with lastWriteErr := some err },
          [(0, .ok sampleSigned)])
      | .written => (sampleFile (bytes ++ walFrame sampleLibraries sampleBytes),
      [(0, .ok sampleSigned)]) := by
  have hm : signedRecords sampleLibraries 0 [sampleWaiting 0] = .ok [sampleSigned] := by
    rw [signedRecords, show sortByLsn [sampleWaiting 0] = [sampleWaiting 0] from rfl, mapM_cons]
    show (do let b ← signedRecord sampleLibraries 0 sampleCommand; _) = _
    rw [signedRecord_sample]
    rfl
  have hstop : strictPrefixEnd [sampleSigned] = some 1 := rfl
  simp only [handleAppends, hm, hstop, take_one, head?_cons, toList_some, appendWalSegment, encodeWalRecords_signed]
  cases first <;> rfl

/-- The run of `strictAcks_recovered_sample`: one batch that is written. -/
theorem strictAcks_recovered_sample : ∃ recovered state, readRecoverableRecordsFile sampleLibraries
    "wal" (some (walFrame sampleLibraries sampleBytes)) = .ok recovered ∧
    sampleSigned ∈ recovered.records ∧
    replayFrom sampleLibraries .merge "wal" (some (walFrame sampleLibraries sampleBytes)) 10 0 ∅ =
    .ok state ∧
    state.scannedRecords = recovered.records.length := by
  have hrun : Reaches (writerStep sampleLibraries 0) (WritesBehindWhole sampleLibraries "wal")
      ⟨sampleFile [], []⟩ ⟨sampleFile (walFrame sampleLibraries sampleBytes), [sampleSigned]⟩ := by
    refine (Reaches.refl _).tail (e := ⟨[sampleWaiting 0], writeOutcome .written, writeOutcome .written⟩) ?_ ?_
    · exact fun _ _ _ => ⟨nofun, fun _ => ⟨.inl rfl, by simp [sampleFile, decodeFramedWalRecordsPrefix]⟩⟩
    · rw [writerStep, handleAppends_sample]
      rfl
  exact strictAcks_recovered sampleLibraries_lawful .merge "wal" 10 0 ∅ (sampleFile []) hrun sampleSigned mem_cons_self

/-- A `Strict` batch behind five bytes of one that failed: it is acknowledged, and
recovery stops before it. -/
theorem strictAck_lost_sample :
    ∃ s, Reaches (writerStep sampleLibraries 0) (fun _ _ => True) ⟨sampleFile [], []⟩ s ∧
    s.strictAcks = [sampleSigned] ∧
    ∃ recovered, readRecoverableRecordsFile sampleLibraries "wal" (some s.file.bytes) =
    .ok recovered ∧ recovered.records = [] := by
  let torn := (walFrame sampleLibraries sampleBytes).take 5
  have hrun : Reaches (writerStep sampleLibraries 0) (fun _ _ => True) ⟨sampleFile [], []⟩
      ⟨sampleFile (torn ++ walFrame sampleLibraries sampleBytes), [sampleSigned]⟩ := by
    refine Reaches.tail (t := ⟨sampleFile torn, []⟩) ((Reaches.refl _).tail
      (e := ⟨[sampleWaiting 0], writeOutcome (.fails 5 ⟨"write failed", []⟩), writeOutcome .written⟩) trivial ?_)
      (e := ⟨[sampleWaiting 0], writeOutcome .written, writeOutcome .written⟩) trivial ?_
    · rw [writerStep, handleAppends_sample]
      rfl
    · rw [writerStep, handleAppends_sample]
      rfl
  have hframed : Framed (torn ++ walFrame sampleLibraries sampleBytes) :=
    .inr ⟨(0 : UInt8) :: walFrame sampleLibraries sampleBytes, rfl⟩
  have hfault : ∃ reason, recoverFrame sampleLibraries 1 (torn ++ walFrame sampleLibraries sampleBytes) =
      .error reason := ⟨_, rfl⟩
  obtain ⟨reason, hr⟩ := hfault
  have hne : torn ++ walFrame sampleLibraries sampleBytes ≠ [] := cons_ne_nil _ _
  refine ⟨_, hrun, rfl, _, readRecoverableRecordsFile_framed hframed "wal", ?_⟩
  show (decodeFramedWalRecordsPrefix sampleLibraries "wal" (torn ++ walFrame sampleLibraries sampleBytes)).records = []
  rw [decodeFramedWalRecordsPrefix, readPrefix_error hne hr]

/-- Two waiters of one batch, one of them `Strict`. -/
def sampleBatch : List WaitingCommand :=
  [sampleWaiting 0, { sampleWaiting 1 with durability := .relaxed }]

theorem appends_answered_sample :
    Disciplined sampleLibraries 0 sampleBatch (writeOutcome .written) (sampleFile [])
    (handleAppends sampleLibraries 0 sampleBatch (writeOutcome .written) (writeOutcome .written) (sampleFile [])) :=
  (appends_answered sampleLibraries 0 (writeOutcome .written) (writeOutcome .written) (sampleFile []) (by decide)).mpr
    fun ⟨_, _, _, h⟩ => nomatch h

/-- Five bytes of the segment are in the file, and its waiter is answered with its record. -/
theorem acknowledged_unwritten :
    (handleAppends sampleLibraries 0 [sampleWaiting 0] (writeOutcome (.failsLater 5 ⟨"write failed",
    []⟩))
      (writeOutcome .written) (sampleFile [])).2 = [(0, .ok sampleSigned)] ∧
    ¬ ∀ (lib : Libraries) (shard : Nat) (commands : List WaitingCommand) (first rest : SegmentOutcome)
      (file : WriterFile), (commands.map (·.ack)).Nodup →
      Disciplined lib shard commands first file (handleAppends lib shard commands first rest file) := by
  refine ⟨by rw [handleAppends_sample], fun h => ?_⟩
  have hstrict := (h sampleLibraries 0 [sampleWaiting 0] (writeOutcome (.failsLater 5 ⟨"write failed", []⟩))
    (writeOutcome .written) (sampleFile []) (by decide)).strict (sampleWaiting 0) mem_cons_self rfl sampleSigned
    (by rw [handleAppends_sample]; exact mem_cons_self)
  cases hstrict.1.1

end NextDb.Wal
