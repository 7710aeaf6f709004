import NextDb.Actor.Kernel
import NextDb.Wal.Frame

/-!
# The snapshot file

A snapshot is written as the magic `NDBS`, a version and an encoding of two bytes
each, the payload's length and its CRC-32C in four bytes each, and the payload: the
zstd compression of a postcard envelope around the JSON text of the snapshot.

The writer limits the length of the payload, and the reader gives the same number to
zstd as the capacity of what it decompresses.

* `decode_encode`: a snapshot that is written is read back exactly when its envelope,
  before compression, fits in the capacity.
-/

namespace NextDb.Actor.SnapshotStore

open List

open BigEndian (toBe)
open Wal (wordAt framed framed_words)

/-! ## What a snapshot holds -/

structure RoomSnapshot where
  messages : List Message
  lastAccessedMs : Nat

structure RecordHotRecordSnapshot where
  record : DbRecord
  access : Nat
  lastAccessedMs : Nat

structure RecordHotTableSnapshot where
  records : BTreeMap String RecordHotRecordSnapshot

structure RecordHotSnapshot where
  accessSeq : Nat
  tables : BTreeMap String RecordHotTableSnapshot

structure TableScopeSnapshotEntry where
  scopeKey : String
  rows : Nat
  bytes : Nat
  lastAccessedMs : Nat
  splitPending : Bool
  splitRows : Nat
  splitBytes : Nat
  splitReminderAtMs : Nat
  childScopes : List String

/-- What a snapshot has of an actor, by its kind. -/
inductive ActorKernelSnapshotState where
  | scope (rows : List DbRecord) (turnCount lastAccessedMs subscriptionRefCount lingeringUntilMs : Nat)
      (residencyTier : ActorResidencyTier)
  | table (scopes : List TableScopeSnapshotEntry) (turnCount lastAccessedMs : Nat)
  | kernel (turnCount lastAccessedMs : Nat)

structure ActorKernelSnapshotEntry where
  actorId : ActorId
  state : ActorKernelSnapshotState

structure ActorSnapshot where
  lsn : Nat
  schemaVersion : Nat
  recordHot : Option RecordHotSnapshot
  rooms : HashMap String RoomSnapshot
  actorStates : List ActorKernelSnapshotEntry

structure SnapshotEnvelope where
  lsn : Nat
  schemaVersion : Nat
  snapshotJson : Bytes
deriving DecidableEq

/-! ## Writing and reading -/

/-- `NDBS`. -/
def snapshotMagic : Bytes := [0x4e, 0x44, 0x42, 0x53]
def snapshotVersionV1 : Nat := 1
def snapshotVersion : Nat := snapshotVersionV1
def snapshotEncodingPostcardZstd : Nat := 1
def snapshotHeaderLen : Nat := 16
def snapshotZstdLevel : Nat := 3
def snapshotMaxPayloadBytes : Nat := 256 * 1024 * 1024

/-- What the server takes from `serde_json`, `postcard`, `zstd` and `crc32c`. -/
structure Libraries where
  jsonToVec : ActorSnapshot → Result Bytes
  jsonFromSlice : Bytes → Result ActorSnapshot
  toAllocvec : SnapshotEnvelope → Result Bytes
  fromBytes : Bytes → Result SnapshotEnvelope
  compress : Bytes → Nat → Result Bytes
  /-- What the bytes decompress to, if that fits in the capacity. -/
  decompress : Bytes → Nat → Result Bytes
  crc32c : Bytes → UInt32

/-- The serialisers read back what they wrote. What was compressed starts with a
magic number, and decompresses exactly when it fits in the capacity. -/
structure Libraries.Lawful (lib : Libraries) : Prop where
  json : ∀ {snapshot bytes}, lib.jsonToVec snapshot = .ok bytes → lib.jsonFromSlice bytes = .ok snapshot
  postcard : ∀ {envelope bytes}, lib.toAllocvec envelope = .ok bytes → lib.fromBytes bytes = .ok envelope
  compress_ne_nil : ∀ {bytes level compressed}, lib.compress bytes level = .ok compressed → compressed ≠ []
  decompress : ∀ {bytes level compressed capacity}, lib.compress bytes level = .ok compressed →
    bytes.length ≤ capacity → lib.decompress compressed capacity = .ok bytes
  decompress_over : ∀ {bytes level compressed capacity}, lib.compress bytes level = .ok compressed →
    capacity < bytes.length → ∃ e, lib.decompress compressed capacity = .error e

variable (lib : Libraries)

/-- The envelope of a snapshot, before it is compressed. -/
def encodeEnvelope (snapshot : ActorSnapshot) : Result Bytes := do
  let snapshotJson ← withContext "encode actor snapshot JSON payload" (lib.jsonToVec snapshot)
  withContext "encode actor snapshot as postcard" (lib.toAllocvec ⟨snapshot.lsn, snapshot.schemaVersion, snapshotJson⟩)

/-- The frame around a compressed envelope. -/
def snapshotFrame (compressed : Bytes) : Bytes :=
  snapshotMagic ++ toBe 2 snapshotVersion ++ toBe 2 snapshotEncodingPostcardZstd ++
    toBe 4 compressed.length ++ toBe 4 (lib.crc32c compressed).toNat ++ compressed

def encodeSnapshot (snapshot : ActorSnapshot) : Result Bytes := do
  let postcard ← encodeEnvelope lib snapshot
  let compressed ← withContext "compress actor snapshot with zstd" (lib.compress postcard snapshotZstdLevel)
  if compressed.length > snapshotMaxPayloadBytes then
    bail s!"actor snapshot exceeds max size: {compressed.length} bytes > {snapshotMaxPayloadBytes} bytes"
  else
    .ok (snapshotFrame lib compressed)

def isFramedSnapshot (bytes : Bytes) : Bool :=
  bytes.length ≥ snapshotMagic.length && bytes.take snapshotMagic.length == snapshotMagic

/-- `decode_snapshot`, from where the header has passed its checks. -/
def decodePayload (payload : Bytes) : Result ActorSnapshot := do
  let postcard ← withContext "decompress zstd actor snapshot" (lib.decompress payload snapshotMaxPayloadBytes)
  let envelope ← withContext "parse postcard actor snapshot envelope" (lib.fromBytes postcard)
  let snapshot ← withContext "parse actor snapshot payload" (lib.jsonFromSlice envelope.snapshotJson)
  if envelope.lsn ≠ snapshot.lsn then
    bail s!"actor snapshot envelope LSN {envelope.lsn} does not match snapshot LSN {snapshot.lsn}"
  else if envelope.schemaVersion ≠ snapshot.schemaVersion then
    bail s!"actor snapshot envelope schema version {envelope.schemaVersion} does not match snapshot schema version {snapshot.schemaVersion}"
  else
    .ok snapshot

def decodeSnapshot (bytes : Bytes) : Result ActorSnapshot :=
  if !isFramedSnapshot bytes then
    withContext "parse legacy JSON actor snapshot" (lib.jsonFromSlice bytes)
  else if bytes.length < snapshotHeaderLen then bail "truncated actor snapshot header"
  else
    let version := wordAt bytes 4 2
    if version ≠ snapshotVersionV1 then bail s!"unsupported actor snapshot version {version}"
    else
      let encoding := wordAt bytes 6 2
      if encoding ≠ snapshotEncodingPostcardZstd then
        bail s!"unsupported actor snapshot encoding {encoding}"
      else
        let len := wordAt bytes 8 4
        if len = 0 then bail "empty actor snapshot payload"
        else if len > snapshotMaxPayloadBytes then
          bail s!"actor snapshot exceeds max size: {len} bytes > {snapshotMaxPayloadBytes} bytes"
        else if snapshotHeaderLen + len ≠ bytes.length then
          bail "actor snapshot payload length mismatch"
        else
          let payload := (bytes.drop snapshotHeaderLen).take len
          let expected := wordAt bytes 12 4
          let actual := lib.crc32c payload
          if actual.toNat ≠ expected then
            bail s!"actor snapshot CRC32C mismatch: expected {hex08 (.ofNat expected)}, found {hex08 actual}"
          else decodePayload lib payload

/-- The envelope of the snapshot is no longer than what the reader lets zstd make. -/
def EnvelopeFits (snapshot : ActorSnapshot) : Prop :=
  ∃ postcard, encodeEnvelope lib snapshot = .ok postcard ∧ postcard.length ≤ snapshotMaxPayloadBytes

/-! ## Reading back what was written -/

variable {lib} {snapshot : ActorSnapshot} {postcard bytes : Bytes}

theorem encodeEnvelope_ok (h : encodeEnvelope lib snapshot = .ok postcard) :
    ∃ json, lib.jsonToVec snapshot = .ok json ∧
    lib.toAllocvec ⟨snapshot.lsn, snapshot.schemaVersion, json⟩ = .ok postcard := by
  obtain ⟨json, hjson, h⟩ := bind_eq_ok.mp h
  exact ⟨json, withContext_eq_ok.mp hjson, withContext_eq_ok.mp h⟩

theorem encodeSnapshot_ok : encodeSnapshot lib snapshot = .ok bytes ↔ ∃ postcard compressed,
    encodeEnvelope lib snapshot = .ok postcard ∧ lib.compress postcard snapshotZstdLevel =
    .ok compressed ∧
    compressed.length ≤ snapshotMaxPayloadBytes ∧ bytes = snapshotFrame lib compressed := by
  constructor
  · intro h
    obtain ⟨postcard, hp, h⟩ := bind_eq_ok.mp h
    obtain ⟨compressed, hc, h⟩ := bind_eq_ok.mp h
    split at h
    · cases h
    · next hlen =>
      cases h
      exact ⟨postcard, compressed, hp, withContext_eq_ok.mp hc, by omega, rfl⟩
  · intro ⟨postcard, compressed, hp, hc, hlen, hbytes⟩
    rw [encodeSnapshot, hp, hbytes]
    show (withContext _ (lib.compress postcard snapshotZstdLevel) >>= _) = _
    rw [hc]
    show (if _ then _ else _) = _
    rw [if_neg (by omega)]

/-- The header of a written snapshot passes every check: what is left of reading it is
to read the payload. -/
theorem decodeSnapshot_frame {compressed : Bytes}
    (hne : compressed ≠ []) (hlen : compressed.length ≤ snapshotMaxPayloadBytes) :
    decodeSnapshot lib (snapshotFrame lib compressed) = decodePayload lib compressed := by
  have hmax : compressed.length < 256 ^ 4 := lt_of_le_of_lt hlen (by decide)
  have hpos : 0 < compressed.length := length_pos_iff.mpr hne
  have hwords : ∀ frame, frame = snapshotFrame lib compressed → frame.take 4 = snapshotMagic ∧
      wordAt frame 4 2 = snapshotVersion ∧
        wordAt frame 6 2 = snapshotEncodingPostcardZstd ∧ wordAt frame 8 4 = compressed.length ∧
        wordAt frame 12 4 = (lib.crc32c compressed).toNat ∧
        (frame.drop 16).take compressed.length = compressed := by
    intro frame hframe
    have hf : frame = framed snapshotMagic snapshotVersion snapshotEncodingPostcardZstd (lib.crc32c compressed)
        compressed ++ [] := by
      rw [hframe, append_nil]
      rfl
    rw [hf]
    exact framed_words _ rfl (by decide) (by decide) hmax []
  have hlength : (snapshotFrame lib compressed).length = 16 + compressed.length := by
    simp [snapshotFrame, snapshotMagic]
    omega
  generalize hframe : snapshotFrame lib compressed = frame at hlength
  obtain ⟨hm, hv, he, hl, hcrc, hpay⟩ := hwords frame hframe.symm
  have hframed : isFramedSnapshot frame = true := by
    show (decide (frame.length ≥ 4) && frame.take 4 == snapshotMagic) = true
    rw [hm]
    simp
    omega
  unfold decodeSnapshot
  simp only [hframed, hv, he, hl, hcrc, snapshotHeaderLen, hpay]
  rw [if_neg (by simp), if_neg (by omega), if_neg (by decide), if_neg (by decide), if_neg (by omega), if_neg (by omega),
    if_neg (by omega), if_neg (by simp)]

theorem decodeSnapshot_of_fits (hlib : lib.Lawful) (h : encodeSnapshot lib snapshot = .ok bytes)
    (hp : encodeEnvelope lib snapshot = .ok postcard)
    (hfits : postcard.length ≤ snapshotMaxPayloadBytes) :
    decodeSnapshot lib bytes = .ok snapshot := by
  obtain ⟨postcard', compressed, hp', hc, hlen, rfl⟩ := encodeSnapshot_ok.mp h
  obtain ⟨json, hjson, henv⟩ := encodeEnvelope_ok hp
  rw [hp] at hp'
  cases hp'
  rw [decodeSnapshot_frame (hlib.compress_ne_nil hc) hlen, decodePayload, hlib.decompress hc hfits]
  show (withContext _ (lib.fromBytes postcard) >>= _) = _
  rw [hlib.postcard henv]
  show (withContext _ (lib.jsonFromSlice json) >>= _) = _
  rw [hlib.json hjson]
  show (if _ then _ else _) = _
  rw [if_neg (by simp), if_neg (by simp)]

theorem decodeSnapshot_of_over (hlib : lib.Lawful) (h : encodeSnapshot lib snapshot = .ok bytes)
    (hp : encodeEnvelope lib snapshot = .ok postcard)
    (hover : snapshotMaxPayloadBytes < postcard.length) :
    ∃ e, decodeSnapshot lib bytes = .error e := by
  obtain ⟨postcard', compressed, hp', hc, hlen, rfl⟩ := encodeSnapshot_ok.mp h
  rw [hp] at hp'
  cases hp'
  obtain ⟨e, he⟩ := hlib.decompress_over hc hover
  refine ⟨e.context "decompress zstd actor snapshot", ?_⟩
  rw [decodeSnapshot_frame (hlib.compress_ne_nil hc) hlen, decodePayload, he]
  rfl

/-- A snapshot that is written is read back exactly when its envelope fits in the
capacity that the reader gives to zstd. -/
theorem decode_encode (hlib : lib.Lawful) {snapshot : ActorSnapshot} {bytes : Bytes}
    (h : encodeSnapshot lib snapshot = .ok bytes) :
    decodeSnapshot lib bytes = .ok snapshot ↔ EnvelopeFits lib snapshot := by
  obtain ⟨postcard, -, hp, -⟩ := encodeSnapshot_ok.mp h
  constructor
  · intro hd
    refine ⟨postcard, hp, ?_⟩
    by_contra hover
    obtain ⟨e, he⟩ := decodeSnapshot_of_over hlib h hp (Nat.lt_of_not_le hover)
    rw [he] at hd
    cases hd
  · intro ⟨postcard, hp, hfits⟩
    exact decodeSnapshot_of_fits hlib h hp hfits

/-! ## Concrete libraries

The JSON writer knows one snapshot. Postcard's integers are LEB128, and a run-length
coder stands in for zstd: like it, it stores a long run of one byte in few bytes. -/

/-- LEB128: seven bits to a byte, lowest first. -/
def toVarint (n : Nat) : Bytes :=
  if n < 128 then [.ofNat n] else .ofNat (n % 128 + 128) :: toVarint (n / 128)

def readVarint : Bytes → Option (Nat × Bytes)
  | [] => none
  | b :: rest =>
    if b.toNat < 128 then some (b.toNat, rest)
    else (readVarint rest).map fun (n, rest) => (b.toNat - 128 + 128 * n, rest)

theorem readVarint_toVarint (n : Nat) (rest : Bytes) :
    readVarint (toVarint n ++ rest) = some (n, rest) := by
  fun_induction toVarint n with
  | case1 n h =>
    have hn : (UInt8.ofNat n).toNat = n := by simp; omega
    simp only [cons_append, nil_append, readVarint, hn, if_pos h]
  | case2 n h ih =>
    have hn : (UInt8.ofNat (n % 128 + 128)).toNat = n % 128 + 128 := by simp; omega
    simp only [cons_append, readVarint, hn, ih, Option.map_some]
    rw [if_neg (by omega), Option.some.injEq, Prod.mk.injEq]
    exact ⟨by omega, rfl⟩

/-- Puts a byte in front of runs, each a byte and one less than its length. -/
def pushRun (b : UInt8) : Bytes → Bytes
  | c :: n :: rest => if b = c ∧ n ≠ 255 then c :: (n + 1) :: rest else b :: 0 :: c :: n :: rest
  | rest => b :: 0 :: rest

def runLength (bytes : Bytes) : Bytes := bytes.foldr pushRun []

def unRuns : Bytes → Bytes
  | c :: n :: rest => List.replicate (n.toNat + 1) c ++ unRuns rest
  | _ => []

theorem toNat_succ {n : UInt8} (h : n ≠ 255) : (n + 1).toNat = n.toNat + 1 := by
  have hlt := n.toNat_lt
  have : n.toNat ≠ 255 := fun he => h (UInt8.toNat_inj.mp he)
  rw [UInt8.toNat_add, UInt8.toNat_one, Nat.mod_eq_of_lt (by omega)]

theorem unRuns_pushRun (b : UInt8) (runs : Bytes) : unRuns (pushRun b runs) = b :: unRuns runs := by
  fun_cases pushRun b runs with
  | case1 c n rest h =>
    have hn := toNat_succ h.2
    rw [unRuns, hn, unRuns, h.1]
    rfl
  | case2 c n rest h => rfl
  | case3 _ h =>
    cases runs with
    | nil => rfl
    | cons c runs =>
      cases runs with
      | nil => rfl
      | cons n rest => exact absurd rfl (h c n rest)

theorem unRuns_runLength (bytes : Bytes) : unRuns (runLength bytes) = bytes := by
  induction bytes with
  | nil => rfl
  | cons b bytes ih =>
    show unRuns (pushRun b (runLength bytes)) = _
    rw [unRuns_pushRun, ih]

/-- What is left of the first run before another `z` makes it longer. -/
def runRoom (z : UInt8) : Bytes → Nat
  | c :: n :: _ => if z = c then n.toNat else 255
  | _ => 255

theorem runRoom_le (z : UInt8) (runs : Bytes) : runRoom z runs ≤ 255 := by
  unfold runRoom
  split
  · next n _ =>
    have := n.toNat_lt
    split <;> omega
  · exact le_rfl

theorem length_pushRun_le (b : UInt8) (runs : Bytes) :
    (pushRun b runs).length ≤ runs.length + 2 := by
  unfold pushRun
  split
  · split <;> simp
  · simp

theorem length_pushRun (z : UInt8) (runs : Bytes) :
    128 * (pushRun z runs).length + runRoom z (pushRun z runs) =
    128 * runs.length + runRoom z runs + 1 := by
  fun_cases pushRun z runs with
  | case1 c n rest h =>
    have hn := toNat_succ h.2
    simp only [runRoom, length_cons, if_pos h.1, hn]
    omega
  | case2 c n rest h =>
    have hroom : runRoom z (c :: n :: rest) = 255 := by
      rw [runRoom]
      split
      · next hz =>
        by_contra hn
        exact h ⟨hz, fun he => hn (by rw [he]; rfl)⟩
      · rfl
    simp only [hroom, length_cons]
    simp [runRoom]
    omega
  | case3 _ h =>
    cases runs with
    | nil => simp [runRoom]
    | cons c runs =>
      cases runs with
      | nil => simp [runRoom]
      | cons n rest => exact absurd rfl (h c n rest)

theorem length_runLength_replicate (n : Nat) (z : UInt8) (bytes : Bytes) :
    128 * (runLength (List.replicate n z ++ bytes)).length ≤
    128 * (runLength bytes).length + 255 + n := by
  have h : 128 * (runLength (replicate n z ++ bytes)).length + runRoom z (runLength (replicate n z ++ bytes)) = 128 *
      (runLength bytes).length + runRoom z (runLength bytes) + n := by
    induction n with
    | zero => rfl
    | succ n ih =>
      have hpush := length_pushRun z (runLength (replicate n z ++ bytes))
      show 128 * (pushRun z (runLength (replicate n z ++ bytes))).length +
        runRoom z (pushRun z (runLength (replicate n z ++ bytes))) = _
      omega
  have := runRoom_le z (runLength bytes)
  omega

theorem length_runLength_append (front bytes : Bytes) :
    (runLength (front ++ bytes)).length ≤ 2 * front.length + (runLength bytes).length := by
  induction front with
  | nil => simp
  | cons b front ih =>
    have := length_pushRun_le b (runLength (front ++ bytes))
    show (pushRun b (runLength (front ++ bytes))).length ≤ _
    rw [length_cons]
    omega

def zstdMagic : Bytes := [0x28, 0xb5, 0x2f, 0xfd]

/-- One bit of the CRC-32C. -/
def crc32cStep (crc : UInt32) : UInt32 :=
  if crc &&& 1 = 1 then (crc >>> 1) ^^^ 0x82f63b78 else crc >>> 1

open Classical in
/-- The libraries, with a JSON writer that knows one snapshot. -/
noncomputable def sampleLibraries (sample : ActorSnapshot) (json : Bytes) : Libraries where
  jsonToVec snapshot := if snapshot = sample then .ok json else bail "not sampled"
  jsonFromSlice bytes := if bytes = json then .ok sample else bail "expected value"
  toAllocvec envelope :=
    .ok (toVarint envelope.lsn ++ (toVarint envelope.schemaVersion ++
      (toVarint envelope.snapshotJson.length ++ envelope.snapshotJson)))
  fromBytes bytes := do
    let (lsn, rest) ← okOr "unexpected end" (readVarint bytes)
    let (schemaVersion, rest) ← okOr "unexpected end" (readVarint rest)
    let (len, rest) ← okOr "unexpected end" (readVarint rest)
    if rest.length < len then bail "unexpected end" else .ok ⟨lsn, schemaVersion, rest.take len⟩
  compress bytes _ := .ok (zstdMagic ++ runLength bytes)
  decompress bytes capacity :=
    if bytes.take 4 ≠ zstdMagic then bail "Unknown frame descriptor"
    else if (unRuns (bytes.drop 4)).length > capacity then bail "Destination buffer is too small"
    else .ok (unRuns (bytes.drop 4))
  crc32c bytes := ~~~ bytes.foldl (fun crc b => crc32cStep^[8] (crc ^^^ b.toUInt32)) 0xffffffff

theorem drop_zstdMagic (bytes : Bytes) : (zstdMagic ++ bytes).drop 4 = bytes := rfl

theorem take_zstdMagic (bytes : Bytes) : (zstdMagic ++ bytes).take 4 = zstdMagic := rfl

theorem sampleLibraries_lawful (sample : ActorSnapshot) (json : Bytes) :
    (sampleLibraries sample json).Lawful where
  json := by
    intro snapshot bytes h
    simp only [sampleLibraries] at h ⊢
    split at h
    · next hs => cases h; rw [if_pos rfl, hs]
    · cases h
  postcard := by
    intro envelope bytes h
    cases h
    simp [sampleLibraries, readVarint_toVarint, okOr, bind, Except.bind]
  compress_ne_nil := by
    intro bytes level compressed h
    cases h
    exact cons_ne_nil _ _
  decompress := by
    intro bytes level compressed capacity h hle
    cases h
    simp only [sampleLibraries, drop_zstdMagic, take_zstdMagic, unRuns_runLength]
    rw [if_neg (by simp), if_neg (by omega)]
  decompress_over := by
    intro bytes level compressed capacity h hlt
    cases h
    simp only [sampleLibraries, drop_zstdMagic, take_zstdMagic, unRuns_runLength]
    rw [if_neg (by simp), if_pos hlt]
    exact ⟨_, rfl⟩

def text (s : String) : Bytes := s.toUTF8.data.toList

/-- A message whose body is `n` letters. -/
def sampleMessage (n i : Nat) : Message :=
  ⟨s!"m{i}", "general", "u1", String.ofList (List.replicate n 'Z'), [], 10, i + 1, s!"rooms/general/messages/m{i}"⟩

/-- One room of `count` messages. -/
def sampleSnapshot (n count : Nat) : ActorSnapshot where
  lsn := count
  schemaVersion := 3
  recordHot := none
  rooms := (∅ : HashMap String RoomSnapshot).insert "general" ⟨(List.range count).map (sampleMessage n), 11⟩
  actorStates := []

def messageHead (i : Nat) : Bytes :=
  (if i = 0 then [] else text ",") ++
    text s!"\x7b\"id\":\"m{i}\",\"roomId\":\"general\",\"senderId\":\"u1\",\"body\":\""

def messageTail (i : Nat) : Bytes :=
  text s!"\",\"attachments\":[],\"createdAtMs\":10,\"lsn\":{i + 1},\"path\":\"rooms/general/messages/m{i}\"\x7d"

def messagesJson (n : Nat) (is : List Nat) (rest : Bytes) : Bytes :=
  is.foldr (fun i json => messageHead i ++ (List.replicate n 0x5a ++ (messageTail i ++ json))) rest

/-- What `serde_json` writes for such a snapshot. -/
def sampleJson (n count : Nat) : Bytes :=
  text s!"\x7b\"lsn\":{count},\"schemaVersion\":3,\"rooms\":\x7b\"general\":\x7b\"messages\":[" ++
    messagesJson n (List.range count) (text "],\"lastAccessedMs\":11\x7d\x7d\x7d")

noncomputable abbrev samples (n count : Nat) : Libraries :=
  sampleLibraries (sampleSnapshot n count) (sampleJson n count)

variable {i count : Nat} {is : List Nat}

theorem messageHead_le (hi : i < 8) : (messageHead i).length ≤ 100 := by
  have : ∀ i < 8, (messageHead i).length ≤ 100 := by decide
  exact this i hi

theorem messageTail_le (hi : i < 8) : (messageTail i).length ≤ 100 := by
  have : ∀ i < 8, (messageTail i).length ≤ 100 := by decide
  exact this i hi

theorem messagesJson_cons (n i : Nat) (is : List Nat) (rest : Bytes) :
    messagesJson n (i :: is) rest =
    messageHead i ++ (replicate n 0x5a ++ (messageTail i ++ messagesJson n is rest)) := rfl

theorem length_runLength_messagesJson (n : Nat) (h : ∀ i ∈ is, i < 8) (rest : Bytes) :
    128 * (runLength (messagesJson n is rest)).length ≤
    128 * (runLength rest).length + is.length * (n + 60000) := by
  induction is with
  | nil => simp [messagesJson]
  | cons i is ih =>
    have hi := h i mem_cons_self
    have hhead := messageHead_le hi
    have htail := messageTail_le hi
    have ih := ih fun j hj => h j (mem_cons_of_mem _ hj)
    have h₁ := length_runLength_append (messageTail i) (messagesJson n is rest)
    have h₂ := length_runLength_replicate n 0x5a (messageTail i ++ messagesJson n is rest)
    have h₃ := length_runLength_append (messageHead i) (replicate n 0x5a ++ (messageTail i ++ messagesJson n is rest))
    rw [messagesJson_cons, length_cons, Nat.add_mul, Nat.one_mul]
    omega

theorem le_length_messagesJson (n : Nat) (is : List Nat) (rest : Bytes) :
    is.length * n ≤ (messagesJson n is rest).length := by
  induction is with
  | nil => simp
  | cons i is ih =>
    rw [messagesJson_cons, length_cons, Nat.add_mul, Nat.one_mul]
    simp only [length_append, length_replicate]
    omega

theorem length_messagesJson_le (n : Nat) (h : ∀ i ∈ is, i < 8) (rest : Bytes) :
    (messagesJson n is rest).length ≤ rest.length + is.length * (n + 200) := by
  induction is with
  | nil => simp [messagesJson]
  | cons i is ih =>
    have hi := h i mem_cons_self
    have hhead := messageHead_le hi
    have htail := messageTail_le hi
    have ih := ih fun j hj => h j (mem_cons_of_mem _ hj)
    rw [messagesJson_cons, length_cons, Nat.add_mul, Nat.one_mul]
    simp only [length_append, length_replicate]
    omega

theorem length_toVarint_le (n : Nat) :
    1 ≤ (toVarint n).length ∧ (toVarint n).length ≤ n / 128 + 1 := by
  fun_induction toVarint n with
  | case1 n h => simp
  | case2 n h ih =>
    rw [length_cons]
    omega

theorem length_sampleJson (n : Nat) (hc : count ≤ 8) :
    count * n ≤ (sampleJson n count).length ∧
    (sampleJson n count).length ≤ 200 + count * (n + 200) ∧
    128 * (runLength (sampleJson n count)).length ≤ 51200 + count * (n + 60000) := by
  have his : ∀ i ∈ range count, i < 8 := fun i hi => by
    have := mem_range.mp hi
    omega
  have hfront : ∀ c ≤ 8, (text s!"\x7b\"lsn\":{c},\"schemaVersion\":3,\"rooms\":\x7b\"general\":\x7b\"messages\":[").length ≤ 100 := by
    decide
  have hback : (text "],\"lastAccessedMs\":11\x7d\x7d\x7d").length ≤ 100 := by decide
  have hfront := hfront count hc
  have hle := le_length_messagesJson n (range count) (text "],\"lastAccessedMs\":11\x7d\x7d\x7d")
  have hge := length_messagesJson_le n his (text "],\"lastAccessedMs\":11\x7d\x7d\x7d")
  have hrun := length_runLength_messagesJson n his (text "],\"lastAccessedMs\":11\x7d\x7d\x7d")
  have happ := length_runLength_append
    (text s!"\x7b\"lsn\":{count},\"schemaVersion\":3,\"rooms\":\x7b\"general\":\x7b\"messages\":[")
    (messagesJson n (range count) (text "],\"lastAccessedMs\":11\x7d\x7d\x7d"))
  have hlast := length_runLength_append (text "],\"lastAccessedMs\":11\x7d\x7d\x7d") []
  have hnil : (runLength []).length = 0 := rfl
  rw [append_nil] at hlast
  rw [length_range] at hle hge hrun
  unfold sampleJson
  rw [length_append]
  refine ⟨by omega, by omega, by omega⟩

def sampleEnvelope (n count : Nat) : Bytes :=
  toVarint count ++ (toVarint 3 ++ (toVarint (sampleJson n count).length ++ sampleJson n count))

theorem encodeEnvelope_samples (n count : Nat) :
    encodeEnvelope (samples n count) (sampleSnapshot n count) = .ok (sampleEnvelope n count) := by
  have hjson : (samples n count).jsonToVec (sampleSnapshot n count) = .ok (sampleJson n count) :=
    if_pos rfl
  rw [encodeEnvelope, hjson]
  rfl

theorem encodeSnapshot_samples {n : Nat} (hn : n ≤ 2 ^ 25) (hc : count ≤ 8) :
    encodeSnapshot (samples n count) (sampleSnapshot n count) =
    .ok (snapshotFrame (samples n count) (zstdMagic ++ runLength (sampleEnvelope n count))) := by
  refine encodeSnapshot_ok.mpr ⟨_, _, encodeEnvelope_samples n count, rfl, ?_, rfl⟩
  obtain ⟨-, hlen, hrun⟩ := length_sampleJson n hc
  have hmul : count * n ≤ 8 * 2 ^ 25 := Nat.mul_le_mul hc hn
  rw [Nat.mul_add] at hlen hrun
  have h₁ := length_runLength_append (toVarint (sampleJson n count).length) (sampleJson n count)
  have h₂ := length_runLength_append (toVarint 3) (toVarint (sampleJson n count).length ++ sampleJson n count)
  have h₃ := length_runLength_append (toVarint count)
    (toVarint 3 ++ (toVarint (sampleJson n count).length ++ sampleJson n count))
  have v₁ := (length_toVarint_le (sampleJson n count).length).2
  have v₂ := (length_toVarint_le 3).2
  have v₃ := (length_toVarint_le count).2
  rw [length_append, sampleEnvelope, snapshotMaxPayloadBytes, show zstdMagic.length = 4 from rfl]
  omega

/-- A room of one short message. -/
theorem decode_encode_sample :
    ∃ bytes, encodeSnapshot (samples 5 1) (sampleSnapshot 5 1) = .ok bytes ∧
    decodeSnapshot (samples 5 1) bytes = .ok (sampleSnapshot 5 1) := by
  have henc := encodeSnapshot_samples (by omega : 5 ≤ 2 ^ 25) (by omega : 1 ≤ 8)
  refine ⟨_, henc, (decode_encode (sampleLibraries_lawful _ _) henc).mpr ?_⟩
  refine ⟨_, encodeEnvelope_samples 5 1, ?_⟩
  obtain ⟨-, hlen, -⟩ := length_sampleJson 5 (by omega : 1 ≤ 8)
  have v₁ := (length_toVarint_le (sampleJson 5 1).length).2
  have v₂ := (length_toVarint_le 3).2
  have v₃ := (length_toVarint_le 1).2
  rw [sampleEnvelope, snapshotMaxPayloadBytes]
  simp only [length_append]
  omega

/-- A room of eight messages of 32 MiB each: the snapshot is written and cannot be read. -/
theorem decode_encode_over :
    ∃ lib : Libraries, lib.Lawful ∧ ∃ snapshot bytes, snapshot = sampleSnapshot (2 ^ 25) 8 ∧
    encodeSnapshot lib snapshot = .ok bytes ∧ decodeSnapshot lib bytes ≠ .ok snapshot := by
  have hlib := sampleLibraries_lawful (sampleSnapshot (2 ^ 25) 8) (sampleJson (2 ^ 25) 8)
  have henc := encodeSnapshot_samples (le_refl (2 ^ 25)) (le_refl 8)
  refine ⟨_, hlib, _, _, rfl, henc, fun hd => ?_⟩
  obtain ⟨hge, -, -⟩ := length_sampleJson (2 ^ 25) (le_refl 8)
  have v := (length_toVarint_le 8).1
  have hover : snapshotMaxPayloadBytes < (sampleEnvelope (2 ^ 25) 8).length := by
    rw [sampleEnvelope, snapshotMaxPayloadBytes]
    simp only [length_append]
    omega
  obtain ⟨e, he⟩ := decodeSnapshot_of_over hlib henc (encodeEnvelope_samples (2 ^ 25) 8) hover
  rw [he] at hd
  cases hd

end NextDb.Actor.SnapshotStore
