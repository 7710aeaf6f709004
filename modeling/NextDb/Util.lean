import Mathlib.Data.List.DropRight

/-!
# Errors and texts

The error type of the server is a message with the errors it was put around,
outermost first; only the outermost is displayed. `hexLower` and `hex08` are
the two hexadecimal renderings the log formats use; `isWhitespace` and `trim` are
the Unicode ones.
-/

namespace NextDb

open List

/-- A byte string. -/
abbrev Bytes := List UInt8

/-- `anyhow::Error`: the message displayed and the causes below it. -/
structure Error where
  message : String
  causes : List String
deriving DecidableEq

abbrev Result := Except Error

def bail {α : Type} (message : String) : Result α := .error ⟨message, []⟩

def Error.context (e : Error) (message : String) : Error := ⟨message, e.message :: e.causes⟩

/-- `{err:#}`: the error with its causes. -/
def Error.chain (e : Error) : String := ": ".intercalate (e.message :: e.causes)

/-- `Context::context` on a result: an error is put under a new message. -/
def withContext {α : Type} (message : String) (r : Result α) : Result α :=
  r.mapError (·.context message)

/-- `Context::context` on an option: an absent value is an error. -/
def okOr {α : Type} (message : String) : Option α → Result α
  | some a => .ok a
  | none => bail message

variable {α β ε : Type} {message : String}

@[simp] theorem withContext_ok (message : String) (a : α) : withContext message (.ok a) = .ok a :=
  rfl

@[simp] theorem withContext_error (message : String) (e : Error) :
    withContext message (.error e : Result α) = .error (e.context message) := rfl

variable {a : α} {x : Except ε α} {b : β} {f : α → Except ε β} {as : List α} {bs : List β}

@[simp] theorem withContext_eq_ok {r : Result α} : withContext message r = .ok a ↔ r = .ok a := by
  cases r <;> simp

theorem eq_ok_of_toOption (h : x.toOption = some a) : x = .ok a := by
  cases x with
  | error e => cases h
  | ok b => exact congrArg Except.ok (Option.some.inj h)

/-- A sequence of fallible steps succeeds exactly when both do. -/
theorem bind_eq_ok : x >>= f = .ok b ↔ ∃ a, x = .ok a ∧ f a = .ok b := by
  cases x with
  | error e => exact ⟨nofun, nofun⟩
  | ok a => exact ⟨fun h => ⟨a, rfl, h⟩, fun ⟨_, ha, hf⟩ => by cases ha; exact hf⟩

theorem map_eq_ok {f : α → β} : x.map f = .ok b ↔ ∃ a, x = .ok a ∧ f a = b := by
  cases x with
  | error e => exact ⟨nofun, nofun⟩
  | ok a => simp [Except.map]

theorem forall₂_of_mapM_ok (h : as.mapM f = .ok bs) :
    List.Forall₂ (fun a b => f a = .ok b) as bs := by
  induction as generalizing bs with
  | nil => cases h; exact .nil
  | cons a as ih =>
    rw [mapM_cons] at h
    obtain ⟨b, hb, h⟩ := bind_eq_ok.mp h
    obtain ⟨bs', hbs', h⟩ := bind_eq_ok.mp h
    cases h
    exact .cons hb (ih hbs')

theorem exists_of_forall₂ {R : α → β → Prop} (h : List.Forall₂ R as bs) (hb : b ∈ bs) :
    ∃ a ∈ as, R a b := by
  induction h with
  | nil => cases hb
  | cons ha _ ih =>
    rcases mem_cons.mp hb with rfl | hb
    · exact ⟨_, mem_cons_self, ha⟩
    · obtain ⟨a', ha', hr⟩ := ih hb
      exact ⟨a', mem_cons_of_mem _ ha', hr⟩

/-- What a fallible map returns comes from some element. -/
theorem mem_of_mapM_ok (h : as.mapM f = .ok bs) (hb : b ∈ bs) : ∃ a ∈ as, f a = .ok b :=
  exists_of_forall₂ (R := fun a b => f a = .ok b) (forall₂_of_mapM_ok h) hb

/-- A fallible map succeeds when it does on each element. -/
theorem mapM_ok_of_forall {ε α β : Type} {f : α → Except ε β} {as : List α}
    (h : ∀ a ∈ as, ∃ b, f a = .ok b) :
    ∃ bs, as.mapM f = .ok bs := by
  induction as with
  | nil => exact ⟨[], rfl⟩
  | cons a as ih =>
    obtain ⟨b, hb⟩ := h a mem_cons_self
    obtain ⟨bs, hbs⟩ := ih fun a' ha' => h a' (mem_cons_of_mem _ ha')
    refine ⟨b :: bs, ?_⟩
    rw [mapM_cons, hb]
    show (as.mapM f >>= fun bs => Except.ok (b :: bs)) = _
    rw [hbs]
    rfl

/-- What a fallible map makes of an element is in what it returns. -/
theorem mem_mapM_of_mem (h : as.mapM f = .ok bs) (ha : a ∈ as) : ∃ b ∈ bs, f a = .ok b := by
  have hf := forall₂_of_mapM_ok h
  clear h
  induction hf with
  | nil => cases ha
  | cons hab _ ih =>
    rcases mem_cons.mp ha with rfl | ha
    · exact ⟨_, mem_cons_self, hab⟩
    · obtain ⟨b, hb, hf⟩ := ih ha
      exact ⟨b, mem_cons_of_mem _ hb, hf⟩

/-- A fallible fold whose steps all succeed. -/
theorem foldlM_eq_ok {f : β → α → Except ε β} {g : β → α → β}
    (h : ∀ a ∈ as, ∀ b, f b a = .ok (g b a)) (b : β) :
    as.foldlM f b = .ok (as.foldl g b) := by
  induction as generalizing b with
  | nil => rfl
  | cons a as ih =>
    rw [foldlM_cons, h a mem_cons_self]
    exact ih (fun a' ha' => h a' (mem_cons_of_mem _ ha')) (g b a)

/-- A fallible map over what `path` gives. -/
theorem mapM_map_ok {γ : Type} {f : β → Except ε γ} {path : α → β} {g : α → γ}
    (h : ∀ a ∈ as, f (path a) = .ok (g a)) :
    (as.map path).mapM f = .ok (as.map g) := by
  induction as with
  | nil => rfl
  | cons a as ih =>
    rw [forall_mem_cons] at h
    rw [map_cons, mapM_cons, h.1, ih h.2]
    rfl

theorem mapM_congr {g : α → Except ε β} (h : ∀ a ∈ as, f a = g a) : as.mapM f = as.mapM g := by
  induction as with
  | nil => rfl
  | cons a as ih =>
    rw [forall_mem_cons] at h
    rw [mapM_cons, mapM_cons, h.1, ih h.2]

theorem foldlM_congr {f g : β → α → Except ε β} (h : ∀ b, ∀ a ∈ as, f b a = g b a) :
    as.foldlM f b = as.foldlM g b := by
  induction as generalizing b with
  | nil => rfl
  | cons a as ih =>
    rw [foldlM_cons, foldlM_cons, h b a mem_cons_self]
    refine congrArg _ (funext fun b' => ih fun b a ha => h b a (mem_cons_of_mem _ ha))

/-- A fallible fold succeeds when each step does. -/
theorem foldlM_ok {f : β → α → Except ε β} (h : ∀ b, ∀ a ∈ as, ∃ b', f b a = .ok b') (b : β) :
    ∃ b', as.foldlM f b = .ok b' := by
  induction as generalizing b with
  | nil => exact ⟨b, rfl⟩
  | cons a as ih =>
    obtain ⟨b', hb'⟩ := h b a mem_cons_self
    obtain ⟨last, hlast⟩ := ih (fun b a ha => h b a (mem_cons_of_mem _ ha)) b'
    exact ⟨last, bind_eq_ok.mpr ⟨b', hb', hlast⟩⟩

/-- What each step of a fallible fold keeps, and what it establishes of its element and later steps
keep. -/
theorem foldlM_invariant {f : β → α → Except ε β} {I : β → Prop} {Q : α → β → Prop}
    (hstep : ∀ {b a b'}, a ∈ as → I b →
    f b a = .ok b' → I b' ∧ Q a b')
    (hkeep : ∀ {a b a' b'}, a' ∈ as → I b → Q a b → f b a' = .ok b' → Q a b') {b' : β}
    (hb : I b) (h : as.foldlM f b = .ok b') : I b' ∧ ∀ a ∈ as, Q a b' := by
  have hall : ∀ {as' : List α} {b : β}, (∀ a ∈ as', a ∈ as) → I b → as'.foldlM f b = .ok b' → I b' ∧
      (∀ a ∈ as', Q a b') ∧ ∀ a, Q a b → Q a b' := by
    intro as' b hsub hb h
    induction as' generalizing b with
    | nil =>
      obtain rfl := Except.ok.inj h
      exact ⟨hb, fun a ha => absurd ha not_mem_nil, fun _ hq => hq⟩
    | cons a as' ih =>
      obtain ⟨b₁, h₁, h⟩ := bind_eq_ok.mp ((foldlM_cons ..).symm.trans h)
      have ha := hsub a mem_cons_self
      obtain ⟨hI, hQ⟩ := hstep ha hb h₁
      obtain ⟨hI', hall, hkept⟩ := ih (fun a ha => hsub a (mem_cons_of_mem _ ha)) hI h
      exact ⟨hI', forall_mem_cons.mpr ⟨hkept a hQ, hall⟩, fun c hc => hkept c (hkeep ha hb hc h₁)⟩
  obtain ⟨hI, hQ, -⟩ := hall (fun _ ha => ha) hb h
  exact ⟨hI, hQ⟩

/-- A check and what follows it. -/
theorem check_eq_ok {x : Except ε Unit} {f : Unit → Except ε β} :
    x >>= f = .ok b ↔ x = .ok () ∧ f () = .ok b := by
  rw [bind_eq_ok]
  exact ⟨fun ⟨_, hx, hf⟩ => ⟨hx, hf⟩, fun ⟨hx, hf⟩ => ⟨(), hx, hf⟩⟩

/-- A loop succeeds when every round does. -/
theorem forM_eq_ok {f : α → Except ε Unit} : as.forM f = .ok () ↔ ∀ a ∈ as, f a = .ok () := by
  induction as with
  | nil => exact ⟨fun _ _ h => (not_mem_nil h).elim, fun _ => rfl⟩
  | cons a as ih =>
    have hcons : (a :: as).forM f = f a >>= fun _ => as.forM f := rfl
    rw [hcons, check_eq_ok, forall_mem_cons, ih]

@[simp] theorem okOr_eq_ok {x : Option α} : okOr message x = .ok a ↔ x = some a := by
  cases x with
  | none => exact ⟨nofun, nofun⟩
  | some b => exact ⟨fun h => by cases h; rfl, fun h => by cases h; rfl⟩

/-- A check that bails. -/
theorem ite_bail_eq_ok {p : Prop} [Decidable p] :
    (if p then .ok () else bail message : Result Unit) = .ok () ↔ p := by
  by_cases h : p
  · simp [h]
  · simp [h, bail]

def hexDigit (n : Nat) : Char := "0123456789abcdef".toList.getD n '0'

def hexLower (bytes : Bytes) : String :=
  String.ofList (bytes.flatMap fun b => [hexDigit (b.toNat / 16), hexDigit (b.toNat % 16)])

/-- `{:08x}`. -/
def hex08 (n : UInt32) : String :=
  String.ofList ((List.range 8).map fun i => hexDigit (n.toNat >>> (4 * (7 - i)) % 16))

/-- `char::is_whitespace`. -/
def isWhitespace (c : Char) : Bool :=
  let n := c.toNat
  0x9 ≤ n && n ≤ 0xd || n == 0x20 || n == 0x85 || n == 0xa0 || n == 0x1680 ||
    0x2000 ≤ n && n ≤ 0x200a || n == 0x2028 || n == 0x2029 || n == 0x202f || n == 0x205f ||
    n == 0x3000

/-- `str::trim`. -/
def trim (text : String) : String :=
  String.ofList ((text.toList.dropWhile isWhitespace).reverse.dropWhile isWhitespace).reverse

/-- What is trimmed begins and ends as it is. -/
theorem trim_trim (text : String) : trim (trim text) = trim text := by
  have hstart : ∀ l : List Char, ((l.dropWhile isWhitespace).rdropWhile isWhitespace).dropWhile isWhitespace =
      (l.dropWhile isWhitespace).rdropWhile isWhitespace := by
    intro l
    rw [dropWhile_eq_self_iff]
    intro hl
    have hbegins := rdropWhile_prefix isWhitespace (l := l.dropWhile isWhitespace)
    have hl' := hl.trans_le hbegins.length_le
    have hhead := head_dropWhile_not isWhitespace (length_pos_iff.mp hl')
    rw [head_eq_getElem] at hhead
    rw [hbegins.getElem hl, hhead]
    exact Bool.false_ne_true
  show String.ofList (((String.ofList _).toList.dropWhile isWhitespace).rdropWhile isWhitespace) = String.ofList _
  rw [String.toList_ofList]
  show String.ofList ((((text.toList.dropWhile isWhitespace).rdropWhile isWhitespace).dropWhile isWhitespace).rdropWhile
    isWhitespace) = _
  rw [hstart, rdropWhile_idempotent]
  rfl

/-- The characters of a text, as the kernel evaluates them fastest: where all bytes are ASCII, each
is a character. -/
def charsOf (text : String) : List Char :=
  let bytes := text.toByteArray.data.toList
  if bytes.all (· < 128) then bytes.map fun b => Char.ofNat b.toNat else text.toList

theorem utf8EncodeChar_ascii {c : Char} (h : (String.utf8EncodeChar c).all (· < 128) = true) :
    (String.utf8EncodeChar c).map (fun b => Char.ofNat b.toNat) = [c] := by
  unfold String.utf8EncodeChar at h ⊢
  have hc : Char.ofNat c.val.toNat = c := Char.ofNat_toNat c
  have hno : ∀ n, 128 ≤ n → n < 256 → ¬ (UInt8.ofNat n < 128) := fun n hlow hhigh hlt => by
    have := UInt8.lt_iff_toNat_lt.mp hlt
    simp [UInt8.toNat_ofNat', Nat.mod_eq_of_lt hhigh] at this
    omega
  simp only at h ⊢
  split at h
  · next hsmall =>
    rw [if_pos hsmall]
    have hbyte : (UInt8.ofNat c.val.toNat).toNat = c.val.toNat := by
      rw [UInt8.toNat_ofNat', Nat.mod_eq_of_lt (by omega)]
    rw [map_singleton, hbyte, hc]
  · exfalso
    split at h
    · simp only [all_cons, Bool.and_eq_true, decide_eq_true_eq] at h
      exact hno _ (by omega) (by omega) h.1
    · split at h <;>
      · simp only [all_cons, Bool.and_eq_true, decide_eq_true_eq] at h
        exact hno _ (by omega) (by omega) h.1

theorem toList_eq_charsOf : String.toList = charsOf := by
  funext text
  unfold charsOf
  simp only
  split
  · next hascii =>
    obtain ⟨cs, rfl⟩ : ∃ cs, text = String.ofList cs := ⟨text.toList, String.ofList_toList.symm⟩
    have hbytes : (String.ofList cs).toByteArray.data.toList = cs.flatMap String.utf8EncodeChar := by
      simp [utf8Encode]
    rw [hbytes] at hascii ⊢
    rw [String.toList_ofList]
    clear hbytes
    induction cs with
    | nil => rfl
    | cons c cs ih =>
      rw [flatMap_cons, all_append, Bool.and_eq_true] at hascii
      rw [flatMap_cons, map_append, utf8EncodeChar_ascii hascii.1, ← ih hascii.2]
      rfl
  · rfl

end NextDb
