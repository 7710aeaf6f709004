import Mathlib.Data.PNat.Basic
import Mathlib.Data.List.Forall2
import Mathlib.Data.List.Infix

/-!
# Streams of frames

A stream is a list of symbols read from the front, one frame at a time. A
reader `next` is given the number of the frame and the symbols that are left
and returns what the frame holds and its positive length, or an error.

* `readAll` reads the whole stream or fails; `readPrefix` stops at the first
  error and keeps what it has read.
* `Next.Local`: a reader that looks at nothing behind its own frame.
  `readPrefix_append` is then a frame rule: appending to a stream never
  changes what was read before its first error.
* `Next.Whole` and `Next.Torn` say that a piece is one frame, and that no
  proper prefix of it is. `readAll_flatten` and `readPrefix_flatten` read a
  row of whole frames, and `readPrefix_cut` reads a row of frames cut at any
  position.
-/

namespace NextDb.Framing

open List

variable {β α ε : Type}

/-- A reader: the number of the frame and the symbols left, to the frame's
content and length. -/
abbrev Next (β α ε : Type) := Nat → List β → Except ε (α × ℕ+)

/-- Where and why a stream stopped being readable. -/
structure Stop (ε : Type) where
  frame : Nat
  offset : Nat
  reason : ε

variable {rest bytes : List β} {frame k : Nat} {a : α} {bs : List (List β)} {as : List α}

theorem drop_lt (h : rest ≠ []) (n : ℕ+) : (rest.drop n).length < rest.length := by
  have := length_pos_iff.mpr h
  have := n.pos
  rw [length_drop]
  omega

/-- All frames of a stream, numbered, or the first error. -/
def readAll (next : Next β α ε) (frame : Nat) (rest : List β) : Except ε (List (Nat × α)) :=
  if h : rest = [] then .ok []
  else
    match next frame rest with
    | .error e => .error e
    | .ok (a, n) =>
      have := drop_lt h n
      match readAll next (frame + 1) (rest.drop n) with
      | .error e => .error e
      | .ok as => .ok ((frame, a) :: as)
termination_by rest.length

/-- The frames before the first error, and where that error is. -/
def readPrefix (next : Next β α ε) (frame offset : Nat) (rest : List β) :
    List α × Option (Stop ε) :=
  if h : rest = [] then ([], none)
  else
    match next frame rest with
    | .error e => ([], some ⟨frame, offset, e⟩)
    | .ok (a, n) =>
      have := drop_lt h n
      let r := readPrefix next (frame + 1) (offset + n) (rest.drop n)
      (a :: r.1, r.2)
termination_by rest.length

variable {next : Next β α ε}

@[simp] theorem readAll_nil (frame : Nat) : readAll next frame [] = .ok [] := by
  rw [readAll]; simp

@[simp] theorem readPrefix_nil (frame offset : Nat) :
    readPrefix next frame offset [] = ([], none) := by
  rw [readPrefix]; simp

theorem readAll_ok {n : ℕ+} (h : rest ≠ []) (hn : next frame rest = .ok (a, n)) :
    readAll next frame rest = (readAll next (frame + 1) (rest.drop n)).map ((frame, a) :: ·) := by
  rw [readAll, dif_neg h, hn]
  dsimp only
  cases readAll next (frame + 1) (rest.drop n) <;> rfl

theorem readAll_error {e : ε} (h : rest ≠ []) (hn : next frame rest = .error e) :
    readAll next frame rest = .error e := by
  rw [readAll, dif_neg h, hn]

theorem readPrefix_ok {offset : Nat} {n : ℕ+} (h : rest ≠ []) (hn : next frame rest = .ok (a, n)) :
    readPrefix next frame offset rest =
    (a :: (readPrefix next (frame + 1) (offset + n) (rest.drop n)).1,
    (readPrefix next (frame + 1) (offset + n) (rest.drop n)).2) := by
  rw [readPrefix, dif_neg h, hn]

theorem readPrefix_error {offset : Nat} {e : ε} (h : rest ≠ []) (hn : next frame rest = .error e) :
    readPrefix next frame offset rest = ([], some ⟨frame, offset, e⟩) := by
  rw [readPrefix, dif_neg h, hn]

/-! ## What a reader looks at -/

/-- A reader looks at its own frame only: the frame is within the stream, and
reads the same whatever follows it. -/
def Next.Local (next : Next β α ε) : Prop :=
  ∀ ⦃frame : Nat⦄ ⦃rest : List β⦄ ⦃a : α⦄ ⦃n : ℕ+⦄, next frame rest = .ok (a, n) →
    (n : Nat) ≤ rest.length ∧ ∀ tail, next frame (rest.take n ++ tail) = .ok (a, n)

theorem Next.Local.append (hl : Next.Local next)
    {frame : Nat} {rest : List β} {a : α} {n : ℕ+} (hn : next frame rest = .ok (a, n))
    (tail : List β) :
    next frame (rest ++ tail) = .ok (a, n) ∧ (rest ++ tail).drop n = rest.drop n ++ tail := by
  obtain ⟨hle, ht⟩ := hl hn
  refine ⟨?_, drop_append_of_le_length hle⟩
  have := ht (rest.drop n ++ tail)
  rwa [← append_assoc, take_append_drop] at this

/-- The frame rule of a log: what was read before the first error is still
read, in the same order, after anything is appended. -/
theorem readPrefix_append (hl : Next.Local next) (frame offset : Nat) (rest tail : List β) :
    (readPrefix next frame offset rest).1 <+: (readPrefix next frame offset (rest ++ tail)).1 := by
  induction frame, offset, rest using readPrefix.induct next with
  | case1 frame offset => simp
  | case2 frame offset rest h e hn => rw [readPrefix_error h hn]; exact nil_prefix
  | case3 frame offset rest h a n hn _ ih =>
    obtain ⟨hn', hd⟩ := hl.append hn tail
    rw [readPrefix_ok h hn, readPrefix_ok (append_ne_nil_of_left_ne_nil h _) hn', hd]
    exact cons_prefix_cons.mpr ⟨rfl, ih⟩

/-- A stream that was read whole is followed by the reading of what is appended. -/
theorem readAll_append (hl : next.Local) {tail : List β} {as : List (Nat × α)}
    (h : readAll next frame rest = .ok as) :
    readAll next frame (rest ++ tail) = (readAll next (frame + as.length) tail).map (as ++ ·) := by
  induction frame, rest using readAll.induct next generalizing as with
  | case1 frame =>
    rw [readAll_nil] at h
    cases h
    simp only [nil_append, length_nil, add_zero]
    cases readAll next frame tail <;> rfl
  | case2 frame rest hne e hn => rw [readAll_error hne hn] at h; cases h
  | case3 frame rest hne a n hn _ e he => rw [readAll_ok hne hn, he] at h; cases h
  | case4 frame rest hne a n hn _ as' has ih =>
    obtain ⟨hn', hd⟩ := hl.append hn tail
    rw [readAll_ok hne hn, has] at h
    cases h
    rw [readAll_ok (append_ne_nil_of_left_ne_nil hne _) hn', hd, ih has, length_cons, add_assoc frame, add_comm 1]
    cases readAll next (frame + (as'.length + 1)) tail <;> rfl

/-- A stream read to its end is followed by the reading of what is appended. -/
theorem readPrefix_append_of_whole (hl : Next.Local next)
    (frame offset : Nat) (rest tail : List β) (hw : (readPrefix next frame offset rest).2 = none) :
    readPrefix next frame offset (rest ++ tail) = ((readPrefix next frame offset rest).1 ++
    (readPrefix next (frame + (readPrefix next frame offset rest).1.length) (offset + rest.length) tail).1,
    (readPrefix next (frame + (readPrefix next frame offset rest).1.length) (offset + rest.length) tail).2) := by
  induction frame, offset, rest using readPrefix.induct next with
  | case1 frame offset => simp
  | case2 frame offset rest h e hn => rw [readPrefix_error h hn] at hw; cases hw
  | case3 frame offset rest h a n hn _ ih =>
    obtain ⟨hn', hd⟩ := hl.append hn tail
    have hle := (hl hn).1
    rw [readPrefix_ok h hn] at hw ⊢
    rw [readPrefix_ok (append_ne_nil_of_left_ne_nil h _) hn', hd, ih hw]
    simp only [cons_append, length_cons, length_drop]
    rw [show offset + n + (rest.length - n) = offset + rest.length by omega, add_right_comm, add_assoc frame]

/-! ## Whole and torn frames -/

/-- `bytes` is one frame that holds `a`. -/
def Next.Whole (next : Next β α ε) (a : α) (bytes : List β) : Prop :=
  bytes ≠ [] ∧ ∀ frame tail, ∃ n : ℕ+, (n : Nat) = bytes.length ∧ next frame (bytes ++ tail) = .ok (a, n)

/-- No proper prefix of `bytes` is a frame. -/
def Next.Torn (next : Next β α ε) (bytes : List β) : Prop :=
  ∀ frame piece, piece <+: bytes → piece ≠ [] → piece ≠ bytes → ∃ e, next frame piece = .error e

/-- The frames `bs`, one for each content of `as`. -/
def Next.Frames (next : Next β α ε) (as : List α) (bs : List (List β)) : Prop :=
  List.Forall₂ next.Whole as bs

theorem readAll_whole (hw : next.Whole a bytes) (frame : Nat) (tail : List β) :
    readAll next frame (bytes ++ tail) = (readAll next (frame + 1) tail).map ((frame, a) :: ·) := by
  obtain ⟨hne, h⟩ := hw
  obtain ⟨n, hn, hok⟩ := h frame tail
  rw [readAll_ok (append_ne_nil_of_left_ne_nil hne _) hok, hn, drop_left]

theorem readPrefix_whole (hw : next.Whole a bytes) (frame offset : Nat) (tail : List β) :
    readPrefix next frame offset (bytes ++ tail) =
    (a :: (readPrefix next (frame + 1) (offset + bytes.length) tail).1,
    (readPrefix next (frame + 1) (offset + bytes.length) tail).2) := by
  obtain ⟨hne, h⟩ := hw
  obtain ⟨n, hn, hok⟩ := h frame tail
  rw [readPrefix_ok (append_ne_nil_of_left_ne_nil hne _) hok, hn, drop_left]

/-- The contents of a row of frames, numbered from `frame`. -/
def numbered (frame : Nat) : List α → List (Nat × α)
  | [] => []
  | a :: as => (frame, a) :: numbered (frame + 1) as

@[simp] theorem map_snd_numbered (frame : Nat) (as : List α) :
    (numbered frame as).map Prod.snd = as := by
  induction as generalizing frame with
  | nil => rfl
  | cons a as ih => simp [numbered, ih]

@[simp] theorem length_numbered (frame : Nat) (as : List α) :
    (numbered frame as).length = as.length := by
  rw [← length_map Prod.snd, map_snd_numbered]

theorem numbered_add (n frame : Nat) (as : List α) :
    numbered (n + frame) as = (numbered frame as).map fun d => (n + d.1, d.2) := by
  induction as generalizing frame with
  | nil => rfl
  | cons a as ih => rw [numbered, add_assoc, ih]; rfl

theorem readAll_flatten (hf : next.Frames as bs) (frame : Nat) (tail : List β) :
    readAll next frame (bs.flatten ++ tail) =
    (readAll next (frame + as.length) tail).map (numbered frame as ++ ·) := by
  induction hf generalizing frame with
  | nil => simp [numbered]; cases readAll next frame tail <;> rfl
  | cons hw _ ih =>
    rw [flatten_cons, append_assoc, readAll_whole hw, ih, length_cons, add_right_comm frame, add_assoc frame]
    cases readAll next (frame + _) tail <;> rfl

theorem readPrefix_flatten (hf : next.Frames as bs) (frame offset : Nat) (tail : List β) :
    readPrefix next frame
    offset (bs.flatten ++ tail) =
    (as ++ (readPrefix next (frame + as.length) (offset + bs.flatten.length) tail).1,
    (readPrefix next (frame + as.length) (offset + bs.flatten.length) tail).2) := by
  induction hf generalizing frame offset with
  | nil => simp
  | cons hw _ ih =>
    rw [flatten_cons, append_assoc, readPrefix_whole hw, ih]
    simp only [length_cons, length_append, cons_append]
    rw [add_right_comm frame, add_assoc frame, add_assoc offset]

theorem readPrefix_forall {P : α → Prop}
    (hP : ∀ ⦃frame rest a n⦄, next frame rest = .ok (a, n) → P a)
    (frame offset : Nat) (rest : List β) : ∀ a ∈ (readPrefix next frame offset rest).1, P a := by
  induction frame, offset, rest using readPrefix.induct next with
  | case1 frame offset => simp
  | case2 frame offset rest h e hn => simp [readPrefix_error h hn]
  | case3 frame offset rest h a n hn _ ih =>
    rw [readPrefix_ok h hn]
    exact forall_mem_cons.mpr ⟨hP hn, ih⟩

/-! ## Cutting a row of frames -/

/-- How many pieces of a row end at or before `k`. -/
def fitting : List (List β) → Nat → Nat
  | [], _ => 0
  | b :: bs, k => if b.length ≤ k then fitting bs (k - b.length) + 1 else 0

/-- Where the first `i` pieces of a row end. -/
def endOf (bs : List (List β)) (i : Nat) : Nat := ((bs.take i).flatten).length

theorem fitting_le (bs : List (List β)) (k : Nat) : fitting bs k ≤ bs.length := by
  induction bs generalizing k with
  | nil => rfl
  | cons b bs ih =>
    unfold fitting
    split
    · exact Nat.succ_le_succ (ih _)
    · exact Nat.zero_le _

@[simp] theorem endOf_zero (bs : List (List β)) : endOf bs 0 = 0 := rfl

@[simp] theorem endOf_cons_succ (b : List β) (bs : List (List β)) (i : Nat) :
    endOf (b :: bs) (i + 1) = b.length + endOf bs i := by
  rw [endOf, take_succ_cons, flatten_cons, length_append]
  rfl

theorem endOf_mono (bs : List (List β)) {i j : Nat} (h : i ≤ j) : endOf bs i ≤ endOf bs j := by
  have hp : bs.take i <+: bs.take j := take_prefix_take_left h
  obtain ⟨rest, hr⟩ := hp
  rw [endOf, endOf, ← hr, flatten_append, length_append]
  exact Nat.le_add_right ..

theorem endOf_fitting_le (bs : List (List β)) (k : Nat) : endOf bs (fitting bs k) ≤ k := by
  induction bs generalizing k with
  | nil => simp [endOf]
  | cons b bs ih =>
    unfold fitting
    split
    · have := ih (k - b.length)
      rw [endOf_cons_succ]
      omega
    · exact Nat.zero_le _

theorem le_fitting {i : Nat} (hi : i ≤ bs.length) (h : endOf bs i ≤ k) : i ≤ fitting bs k := by
  induction bs generalizing k i with
  | nil => exact hi
  | cons b bs ih =>
    cases i with
    | zero => exact Nat.zero_le _
    | succ i =>
      rw [endOf_cons_succ] at h
      unfold fitting
      rw [if_pos (by omega)]
      exact Nat.succ_le_succ (ih (by simpa using hi) (by omega))

/-- A position is the end of some piece exactly when it is the end of the last
one that fits. -/
theorem boundary_iff : (∃ i ≤ bs.length, k = endOf bs i) ↔ k = endOf bs (fitting bs k) := by
  constructor
  · rintro ⟨i, hi, hk⟩
    have := endOf_mono bs (le_fitting hi hk.ge)
    have := endOf_fitting_le bs k
    omega
  · exact fun h => ⟨_, fitting_le bs k, h⟩

/-- A cut of a row of pieces: the pieces that fit, and a proper prefix of the
next one. -/
theorem take_flatten (bs : List (List β)) (hk : k ≤ bs.flatten.length) :
    ∃ piece, bs.flatten.take k = (bs.take (fitting bs k)).flatten ++ piece ∧
    piece.length = k - endOf bs (fitting bs k) ∧
    (piece = [] ∨ ∃ b ∈ bs, piece <+: b ∧ piece ≠ b) := by
  induction bs generalizing k with
  | nil => exact ⟨[], by simp, by simpa [endOf, eq_comm] using hk, .inl rfl⟩
  | cons b bs ih =>
    rw [flatten_cons, length_append] at hk
    unfold fitting
    split
    · next hb =>
      obtain ⟨piece, ht, hp, hcase⟩ := @ih (k - b.length) (by omega)
      refine ⟨piece, ?_, ?_, hcase.imp_right fun ⟨b', hb', h⟩ => ⟨b', mem_cons_of_mem _ hb', h⟩⟩
      · rw [flatten_cons, take_append, take_of_length_le hb, ht, take_succ_cons, flatten_cons, append_assoc]
      · rw [endOf_cons_succ, hp]
        omega
    · next hb =>
      refine ⟨b.take k, ?_, ?_, .inr ⟨b, mem_cons_self, take_prefix _ _, fun h => ?_⟩⟩
      · rw [flatten_cons, take_append_of_le_length (by omega)]
        rfl
      · rw [endOf_zero, length_take]
        omega
      · have := congrArg length h
        rw [length_take] at this
        omega

/-- Looking at nothing behind a frame, a reader finds no frame in a piece of one. -/
theorem Next.Whole.torn (hl : next.Local) (hw : next.Whole a bytes) : next.Torn bytes := by
  rintro frame piece ⟨rest, rfl⟩ - hne
  cases hp : next frame piece with
  | error e => exact ⟨e, rfl⟩
  | ok r =>
    obtain ⟨n, hn, hok⟩ := hw.2 frame []
    have hr := (hl.append hp rest).1
    rw [append_nil, hr] at hok
    cases hok
    have hle := (hl hp).1
    rw [length_append] at hn
    have hz : rest.length = 0 := by omega
    exact absurd (by simp [length_eq_zero_iff.mp hz]) hne

/-- Reading a row of pieces cut at `k`, when the pieces that fit are frames and
no proper prefix of a piece is one: exactly those frames are read, and the
reading stops, behind them, if and only if `k` is not where they end. -/
theorem readPrefix_cut (hf : next.Frames as (bs.take (fitting bs k))) (ht : ∀ b ∈ bs, next.Torn b)
    (frame : Nat) (hk : k ≤ bs.flatten.length) :
    (readPrefix next frame 0 (bs.flatten.take k)).1 = as ∧
    ((readPrefix next frame 0 (bs.flatten.take k)).2 = none ↔ k = endOf bs (fitting bs k)) ∧
    ∀ stop, (readPrefix next frame 0 (bs.flatten.take k)).2 = some stop →
    stop.frame = frame + fitting bs k ∧
    stop.offset = endOf bs (fitting bs k) := by
  obtain ⟨piece, hcut, hlen, hcase⟩ := take_flatten bs hk
  have hfit := endOf_fitting_le bs k
  have hcount : as.length = fitting bs k := by
    rw [hf.length_eq, length_take, min_eq_left (fitting_le bs k)]
  rw [hcut, readPrefix_flatten hf, hcount, zero_add]
  by_cases hp : piece = []
  · subst hp
    rw [length_nil] at hlen
    refine ⟨by simp, ?_, by simp⟩
    simp only [readPrefix_nil, true_iff]
    omega
  · obtain h | ⟨b, hb, hpre, hneq⟩ := hcase
    · exact absurd h hp
    · obtain ⟨e, he⟩ := ht b hb (frame + fitting bs k) piece hpre hp hneq
      have hpos := length_pos_iff.mpr hp
      rw [readPrefix_error hp he]
      refine ⟨by simp, ?_, ?_⟩
      · simp only [reduceCtorEq, false_iff]
        omega
      · rintro stop h
        cases h
        exact ⟨rfl, rfl⟩

/-- Reading all of such a cut gives the frames that fit if it ends with them, and fails
otherwise. -/
theorem readAll_cut (hf : next.Frames as (bs.take (fitting bs k))) (ht : ∀ b ∈ bs, next.Torn b)
    (frame : Nat)
    (hk : k ≤ bs.flatten.length) (decoded : List (Nat × α)) :
    readAll next frame (bs.flatten.take k) = .ok decoded ↔
    k = endOf bs (fitting bs k) ∧ decoded = numbered frame as := by
  obtain ⟨piece, hcut, hlen, hcase⟩ := take_flatten bs hk
  have hfit := endOf_fitting_le bs k
  rw [hcut, readAll_flatten hf]
  by_cases hp : piece = []
  · subst hp
    rw [length_nil] at hlen
    rw [readAll_nil]
    show Except.ok (numbered frame as ++ []) = _ ↔ _
    rw [append_nil, Except.ok.injEq, eq_comm]
    exact ⟨fun h => ⟨by omega, h⟩, And.right⟩
  · obtain ⟨b, hb, hpre, hneq⟩ := hcase.resolve_left hp
    obtain ⟨e, he⟩ := ht b hb (frame + as.length) piece hpre hp hneq
    have hpos := length_pos_iff.mpr hp
    rw [readAll_error hp he]
    constructor
    · exact nofun
    · rintro ⟨h, -⟩
      omega

end NextDb.Framing
