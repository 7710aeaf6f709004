import NextDb.Lib.BigEndian
import NextDb.Lib.Framing
import NextDb.Wal.Checksum

/-!
# Log frames

A frame is the magic `NDBW`, a version and an encoding of two bytes each, the
payload's length in four bytes, in version 2 its CRC-32C, and the payload.

* `readFrame` is the body of the two decoding loops: one frame from the front
  of the bytes left, or what is wrong with it. The loops differ in the texts
  of their errors only, which the next module gives.
* `readFrame_local`: a frame reads the same whatever follows it.
* `readFrame_encode`: the frame written for a record reads as that record.
-/

namespace NextDb.Wal

open Framing BigEndian List

/-- `NDBW`. -/
def walFrameMagic : Bytes := [0x4e, 0x44, 0x42, 0x57]
def walFrameVersionV1 : Nat := 1
def walFrameVersionV2 : Nat := 2
def walFrameVersion : Nat := walFrameVersionV2
def walFrameEncodingJson : Nat := 1
def walFrameEncodingPostcard : Nat := 2
def walFrameEncoding : Nat := walFrameEncodingPostcard
def walFrameHeaderLenV1 : Nat := 12
def walFrameHeaderLenV2 : Nat := 16
def walFrameMinHeaderLen : Nat := walFrameHeaderLenV1
def walFrameMaxBytes : Nat := 64 * 1024 * 1024

variable (lib : Libraries)

def encodeWalRecordFrame (record : WalRecord) : Result Bytes := do
  let payload ← lib.toAllocvec (← PostcardWalRecordFrame.fromRecord lib record)
  if payload.length > walFrameMaxBytes then
    bail s!"WAL frame for LSN {record.lsn} exceeds max size: {payload.length} bytes > {walFrameMaxBytes} bytes"
  else
    .ok (walFrameMagic ++ toBe 2 walFrameVersion ++ toBe 2 walFrameEncoding ++
      toBe 4 payload.length ++ toBe 4 (lib.crc32c payload).toNat ++ payload)

/-- The frames of the records, one after the other; a missing checksum is
filled in first. -/
def encodeWalRecords : List WalRecord → Result Bytes
  | [] => .ok []
  | record :: records => do
    let frame ← encodeWalRecordFrame lib (← ensureChecksum lib record)
    let encoded ← encodeWalRecords records
    .ok (frame ++ encoded)

def walFrameHeaderLen (version : Nat) : Result Nat :=
  if version = walFrameVersionV1 then .ok walFrameHeaderLenV1
  else if version = walFrameVersionV2 then .ok walFrameHeaderLenV2
  else bail s!"unsupported WAL frame version {version}"

/-- The word in `n` bytes at `start`. -/
def wordAt (bytes : Bytes) (start n : Nat) : Nat := ofBe ((bytes.drop start).take n)

def walFrameLen (bytes : Bytes) : Nat := wordAt bytes 8 4

def verifyWalFrameCrc32c (bytes : Bytes) (version : Nat) (payload : Bytes) : Result Unit :=
  if version ≠ walFrameVersionV2 then .ok ()
  else
    let expected := wordAt bytes 12 4
    let actual := lib.crc32c payload
    if actual.toNat ≠ expected then
      bail s!"WAL frame CRC32C mismatch: expected {hex08 (.ofNat expected)}, found {hex08 actual}"
    else .ok ()

def decodeWalFramePayload (encoding : Nat) (payload : Bytes) (frame : Nat) : Result WalRecord :=
  if encoding = walFrameEncodingJson then
    withContext s!"parse JSON WAL frame {frame}" (lib.recordFromSlice payload)
  else if encoding = walFrameEncodingPostcard then do
    let decoded ← withContext s!"parse postcard WAL frame {frame}" (lib.fromBytes payload)
    withContext s!"decode postcard WAL frame {frame}" (decoded.intoRecord lib)
  else bail s!"unsupported WAL frame encoding {encoding} at frame {frame}"

/-- What can be wrong with a frame. -/
inductive FrameFault where
  | truncatedHeader
  | invalidMagic
  | unsupportedVersion (version : Nat) (err : Error)
  | emptyPayload
  | exceedsMaxSize (len : Nat)
  | truncatedPayload
  | crc32c (err : Error)
  | payload (err : Error)

/-- The checks both decoding loops make, in their order, of the frame at the
front of `rest`: the record it holds and its length. -/
def readFrame : Next UInt8 WalRecord FrameFault := fun frame rest =>
  if rest.length < walFrameMinHeaderLen then .error .truncatedHeader
  else if rest.take 4 ≠ walFrameMagic then .error .invalidMagic
  else
    let version := wordAt rest 4 2
    match walFrameHeaderLen version with
    | .error err => .error (.unsupportedVersion version err)
    | .ok headerLen =>
      if rest.length < headerLen then .error .truncatedHeader
      else
        let encoding := wordAt rest 6 2
        let len := walFrameLen rest
        if h : len = 0 then .error .emptyPayload
        else if len > walFrameMaxBytes then .error (.exceedsMaxSize len)
        else if headerLen + len > rest.length then .error .truncatedPayload
        else
          let payload := (rest.drop headerLen).take len
          match verifyWalFrameCrc32c lib rest version payload with
          | .error err => .error (.crc32c err)
          | .ok () =>
            match decodeWalFramePayload lib encoding payload frame with
            | .error err => .error (.payload err)
            | .ok record => .ok (record, ⟨headerLen + len, by omega⟩)

/-! ## One frame -/

variable {lib} {headerLen n start : Nat} {record : WalRecord} {payload rest bytes : Bytes}
  {version encoding frame k : Nat} {bytes' : Bytes}

theorem walFrameHeaderLen_ok (h : walFrameHeaderLen version = .ok headerLen) :
    version = walFrameVersionV1 ∧ headerLen = walFrameHeaderLenV1 ∨ version = walFrameVersionV2 ∧
    headerLen = walFrameHeaderLenV2 := by
  unfold walFrameHeaderLen at h
  split at h
  · next hv => cases h; exact .inl ⟨hv, rfl⟩
  · split at h
    · next hv => cases h; exact .inr ⟨hv, rfl⟩
    · cases h

/-- The payload of a frame decodes to the same record at every position. -/
theorem decodeWalFramePayload_frame
    (h : decodeWalFramePayload lib encoding payload frame = .ok record) (frame' : Nat)
    :
    decodeWalFramePayload lib encoding payload frame' = .ok record := by
  unfold decodeWalFramePayload at h ⊢
  split at h
  · next he => rw [if_pos he, withContext_eq_ok]; exact withContext_eq_ok.mp h
  · next he =>
    rw [if_neg he]
    split at h
    · next he =>
      obtain ⟨decoded, hd, h⟩ := bind_eq_ok.mp h
      rw [if_pos he, withContext_eq_ok.mp hd]
      exact withContext_eq_ok.mpr (withContext_eq_ok.mp h)
    · cases h

/-- Everything that is checked of a frame. -/
structure FrameAt (lib : Libraries) (rest : Bytes) (record : WalRecord) (n headerLen : Nat) :
    Prop where
  magic : rest.take 4 = walFrameMagic
  header : walFrameHeaderLen (wordAt rest 4 2) = .ok headerLen
  nonempty : walFrameLen rest ≠ 0
  maxSize : walFrameLen rest ≤ walFrameMaxBytes
  length : n = headerLen + walFrameLen rest
  within : n ≤ rest.length
  crc32c : verifyWalFrameCrc32c lib rest (wordAt rest 4 2) ((rest.drop headerLen).take (walFrameLen rest)) = .ok ()
  decoded : decodeWalFramePayload lib (wordAt rest 6 2) ((rest.drop headerLen).take (walFrameLen rest)) 0 = .ok record

theorem FrameAt.headerLen_le (h : FrameAt lib rest record n headerLen) :
    walFrameHeaderLenV1 ≤ headerLen ∧
    (wordAt rest 4 2 = walFrameVersionV2 → headerLen = walFrameHeaderLenV2) := by
  rcases walFrameHeaderLen_ok h.header with ⟨hv, rfl⟩ | ⟨hv, rfl⟩
  · exact ⟨le_rfl, fun h => by rw [hv] at h; cases h⟩
  · exact ⟨by decide, fun _ => rfl⟩

theorem readFrame_ok {n : ℕ+} :
    readFrame lib frame rest = .ok (record, n) ↔
    ∃ headerLen, FrameAt lib rest record n headerLen := by
  constructor
  · intro h
    unfold readFrame at h
    split at h
    · cases h
    split at h
    · cases h
    next hmin hmagic =>
    dsimp only at h
    split at h
    · cases h
    next headerLen hheader =>
    split at h
    · cases h
    split at h
    · cases h
    split at h
    · cases h
    split at h
    · cases h
    split at h
    · cases h
    next hcrc =>
    split at h
    · cases h
    next hdec =>
    cases h
    exact ⟨headerLen, by simpa using hmagic, hheader, ‹_›, by omega, rfl, by simp only [PNat.mk_coe]; omega, hcrc,
      decodeWalFramePayload_frame hdec 0⟩
  · rintro ⟨headerLen, hf⟩
    have hh := hf.headerLen_le.1
    have hn := hf.length
    have hw := hf.within
    have hz := hf.nonempty
    have hm := hf.maxSize
    unfold readFrame
    rw [if_neg (by unfold walFrameMinHeaderLen; omega), if_neg (by simpa using hf.magic)]
    dsimp only
    rw [hf.header]
    dsimp only
    rw [if_neg (by omega), dif_neg hz, if_neg (by omega), if_neg (by omega), hf.crc32c]
    dsimp only
    rw [decodeWalFramePayload_frame hf.decoded frame]
    exact congrArg (fun k => Except.ok (record, k)) (PNat.eq hn.symm)

/-! ## What a frame looks at -/

theorem slice_congr (he : bytes'.take n = bytes.take n) (h : start + k ≤ n) :
    (bytes'.drop start).take k = (bytes.drop start).take k := by
  have := congrArg (fun b => (b.drop start).take k) he
  simpa only [drop_take, take_take, Nat.min_eq_left (show k ≤ n - start by omega)] using this

theorem wordAt_congr (he : bytes'.take n = bytes.take n) (h : start + k ≤ n) :
    wordAt bytes' start k = wordAt bytes start k :=
  congrArg ofBe (slice_congr he h)

theorem FrameAt.congr {rest' : Bytes} (h : FrameAt lib rest record n headerLen)
    (he : rest'.take n = rest.take n)
    (hl : n ≤ rest'.length) : FrameAt lib rest' record n headerLen := by
  obtain ⟨hmin, hv2⟩ := h.headerLen_le
  have hn := h.length
  unfold walFrameHeaderLenV1 at hmin
  have hlen : walFrameLen rest' = walFrameLen rest := wordAt_congr he (by omega)
  have hver : wordAt rest' 4 2 = wordAt rest 4 2 := wordAt_congr he (by omega)
  have henc : wordAt rest' 6 2 = wordAt rest 6 2 := wordAt_congr he (by omega)
  have hpay : (rest'.drop headerLen).take (walFrameLen rest) = (rest.drop headerLen).take (walFrameLen rest) :=
      slice_congr he (by omega)
  refine ⟨?_, ?_, ?_, ?_, ?_, hl, ?_, ?_⟩
  · exact (slice_congr (k := 4) he (by omega : 0 + 4 ≤ n)).trans h.magic
  · rw [hver]; exact h.header
  · rw [hlen]; exact h.nonempty
  · rw [hlen]; exact h.maxSize
  · rw [hlen]; exact hn
  · rw [hver, hlen, hpay]
    have hc := h.crc32c
    unfold verifyWalFrameCrc32c at hc ⊢
    by_cases hv : wordAt rest 4 2 = walFrameVersionV2
    · have := hv2 hv
      rw [show walFrameHeaderLenV2 = 16 from rfl] at this
      rwa [wordAt_congr he (by omega : 12 + 4 ≤ n)]
    · rw [if_pos hv]
  · rw [henc, hlen, hpay]; exact h.decoded

/-- A frame reads the same whatever follows it. -/
theorem readFrame_local : (readFrame lib).Local := by
  intro frame rest record n h
  obtain ⟨headerLen, hf⟩ := readFrame_ok.mp h
  have hw := hf.within
  refine ⟨hw, fun tail => readFrame_ok.mpr ⟨headerLen, hf.congr ?_ ?_⟩⟩
  · rw [take_append_of_le_length (by simp [hw]), take_take, Nat.min_self]
  · rw [length_append, length_take, Nat.min_eq_left hw]; omega

/-! ## The frame of a record -/

/-- The frame around a payload. -/
def walFrame (lib : Libraries) (payload : Bytes) : Bytes :=
  walFrameMagic ++ toBe 2 walFrameVersion ++ toBe 2 walFrameEncoding ++
    toBe 4 payload.length ++ toBe 4 (lib.crc32c payload).toNat ++ payload

theorem encodeWalRecordFrame_ok (h : encodeWalRecordFrame lib record = .ok bytes) :
    ∃ postcard payload, PostcardWalRecordFrame.fromRecord lib record = .ok postcard ∧
    lib.toAllocvec postcard = .ok payload ∧ payload.length ≤ walFrameMaxBytes ∧
    bytes = walFrame lib payload := by
  obtain ⟨postcard, hp, h⟩ := bind_eq_ok.mp h
  obtain ⟨payload, hb, h⟩ := bind_eq_ok.mp h
  split at h
  · cases h
  · next hlen => cases h; exact ⟨postcard, payload, hp, hb, by omega, rfl⟩

@[simp] theorem length_walFrame (payload : Bytes) :
    (walFrame lib payload).length = 16 + payload.length := by
  simp [walFrame, walFrameMagic]
  omega

theorem wordAt_append {front : Bytes} {w : Nat} (tail : Bytes) (hs : front.length = start)
    (h : w < 256 ^ n) :
    wordAt (front ++ (toBe n w ++ tail)) start n = w := by
  rw [wordAt, ← hs, drop_left, take_append_of_le_length (by simp), take_of_length_le (by simp), ofBe_toBe h]

/-- A header of a magic, four words and the payload behind it. -/
def framed (magic : Bytes) (version encoding : Nat) (crc32c : UInt32) (payload : Bytes) : Bytes :=
  magic ++ toBe 2 version ++ toBe 2 encoding ++ toBe 4 payload.length ++ toBe 4 crc32c.toNat ++ payload

/-- The words of a header and the payload, whatever follows them. -/
theorem framed_words {magic : Bytes} (crc32c : UInt32) (hmagic : magic.length = 4)
    (hv : version < 256 ^ 2)
    (he : encoding < 256 ^ 2) (hlen : payload.length < 256 ^ 4) (tail : Bytes) :
    (framed magic version encoding crc32c payload ++ tail).take 4 = magic ∧
    wordAt (framed magic version encoding crc32c payload ++ tail) 4 2 = version ∧
    wordAt (framed magic version encoding crc32c payload ++ tail) 6 2 = encoding ∧
    wordAt (framed magic version encoding crc32c payload ++ tail) 8 4 = payload.length ∧
    wordAt (framed magic version encoding crc32c payload ++ tail) 12 4 = crc32c.toNat ∧
    ((framed magic version encoding crc32c payload ++ tail).drop 16).take payload.length =
    payload := by
  let front := magic ++ toBe 2 version
  let front' := front ++ toBe 2 encoding
  let front'' := front' ++ toBe 4 payload.length
  let header := front'' ++ toBe 4 crc32c.toNat
  have hh : header.length = 16 := by simp [header, front'', front', front, hmagic]
  have hw : framed magic version encoding crc32c payload ++ tail = header ++ (payload ++ tail) :=
    append_assoc ..
  refine ⟨?_, ?_, ?_, ?_, ?_, ?_⟩
  · rw [hw, ← hmagic]
    simp only [header, front'', front', front, append_assoc]
    exact take_left
  · rw [hw]
    simp only [header, front'', front', front, append_assoc]
    exact wordAt_append _ hmagic hv
  · rw [hw]
    simp only [header, front'', front', append_assoc _ _ (payload ++ tail), append_assoc front]
    exact wordAt_append _ (by simp [front, hmagic]) he
  · rw [hw]
    simp only [header, front'', append_assoc _ _ (payload ++ tail), append_assoc front']
    exact wordAt_append _ (by simp [front', front, hmagic]) hlen
  · rw [hw]
    simp only [header, append_assoc front'']
    exact wordAt_append _ (by simp [front'', front', front, hmagic]) crc32c.toNat_lt
  · rw [hw, ← hh, drop_left, take_left]

/-- The words of the header and the payload of a frame, whatever follows it. -/
theorem walFrame_words (hmax : payload.length ≤ walFrameMaxBytes) (tail : Bytes) :
    (walFrame lib payload ++ tail).take 4 = walFrameMagic ∧
    wordAt (walFrame lib payload ++ tail) 4 2 =
    walFrameVersion ∧ wordAt (walFrame lib payload ++ tail) 6 2 = walFrameEncoding ∧
    walFrameLen (walFrame lib payload ++ tail) = payload.length ∧
    wordAt (walFrame lib payload ++ tail) 12 4 =
    (lib.crc32c payload).toNat ∧ ((walFrame lib payload ++ tail).drop 16).take payload.length =
    payload :=
  framed_words _ rfl (by decide) (by decide) (lt_of_le_of_lt hmax (by decide)) tail

/-- The frame written for a record reads as that record. -/
theorem readFrame_encode (hlib : lib.Lawful) (h : encodeWalRecordFrame lib record = .ok bytes) :
    (readFrame lib).Whole record bytes := by
  obtain ⟨postcard, payload, hrec, hvec, hmax, rfl⟩ := encodeWalRecordFrame_ok h
  have hpos := length_pos_iff.mpr (hlib.postcard_ne_nil hvec)
  have hlen : (walFrame lib payload).length = 16 + payload.length := length_walFrame payload
  refine ⟨ne_nil_of_length_pos (by omega), fun frame tail => ?_⟩
  obtain ⟨hmagic, hver, henc, hplen, hcrc, hpay⟩ := walFrame_words hmax tail
  refine ⟨⟨16 + payload.length, by omega⟩, hlen.symm, readFrame_ok.mpr ⟨16, ?_⟩⟩
  refine ⟨hmagic, by rw [hver]; rfl, by omega, by omega, by rw [hplen]; rfl, ?_, ?_, ?_⟩
  · simp only [PNat.mk_coe, length_append, hlen]; omega
  · rw [hplen, hpay, verifyWalFrameCrc32c, hcrc]
    simp
  · rw [hplen, hpay, henc]
    unfold decodeWalFramePayload
    rw [if_neg (by decide), if_pos (by rfl), hlib.postcard hvec]
    exact withContext_eq_ok.mpr (PostcardWalRecordFrame.intoRecord_fromRecord hlib hrec)

/-- What encodes is a row of frames, one for each record with its checksum
filled in. -/
theorem encodeWalRecords_ok {records : List WalRecord}
    (h : encodeWalRecords lib records = .ok bytes) :
    ∃ signed frames, Forall₂ (fun r s => ensureChecksum lib r = .ok s) records signed ∧
    Forall₂ (fun s f => encodeWalRecordFrame lib s = .ok f) signed frames ∧
    bytes = frames.flatten := by
  induction records generalizing bytes with
  | nil => cases h; exact ⟨[], [], .nil, .nil, rfl⟩
  | cons record records ih =>
    obtain ⟨signed, hs, h⟩ := bind_eq_ok.mp h
    obtain ⟨frame, hf, h⟩ := bind_eq_ok.mp h
    obtain ⟨encoded, he, h⟩ := bind_eq_ok.mp h
    cases h
    obtain ⟨signeds, frames, hss, hfs, rfl⟩ := ih he
    exact ⟨signed :: signeds, frame :: frames, .cons hs hss, .cons hf hfs, rfl⟩

end NextDb.Wal
