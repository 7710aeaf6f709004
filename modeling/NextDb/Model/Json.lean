import Std.Data.ExtTreeMap.Lemmas
import Mathlib.Data.List.Sort
import Mathlib.Data.String.Basic
import NextDb.Util

/-!
# JSON values and their binary form

`Value` is `serde_json::Value`: a number is an unsigned, a negative or a finite
floating-point number, and the keys of an object are distinct and ascending.
`BinaryJsonValue` is the form that the postcard log frames hold.

* `intoJson_fromJson`: the conversion to the binary form, and back, is the
  identity, at every nesting.
-/

namespace NextDb

open Std.ExtTreeMap

/-- An `f64`, by its bits. -/
structure F64 where
  bits : UInt64
deriving DecidableEq

/-- Neither infinite nor a NaN: the exponent is not all ones. -/
def F64.isFinite (x : F64) : Bool := x.bits >>> 52 &&& 0x7ff != 0x7ff

inductive Number where
  | posInt (n : UInt64)
  | negInt (i : Int64) (neg : i < 0)
  | float (x : F64) (finite : x.isFinite)
deriving DecidableEq

def Number.asI64 : Number → Option Int64
  | .posInt n => if n.toNat < 2 ^ 63 then some n.toInt64 else none
  | .negInt i _ => some i
  | .float _ _ => none

def Number.asU64 : Number → Option UInt64
  | .posInt n => some n
  | .negInt _ _ => none
  | .float _ _ => none

/-- `as_f64` of the numbers that `as_i64` and `as_u64` refuse. -/
def Number.asF64 : Number → Option F64
  | .float x _ => some x
  | _ => none

/-- `Number::from` on an `i64`. -/
def Number.ofI64 (i : Int64) : Number := if h : i < 0 then .negInt i h else .posInt i.toUInt64

/-- `Number::from_f64`. -/
def Number.fromF64 (x : F64) : Option Number := if h : x.isFinite then some (.float x h) else none

inductive Json where
  | null
  | bool (value : Bool)
  | number (value : Number)
  | string (value : String)
  | array (values : List Json)
  | object (values : List (String × Json))

inductive BinaryJsonValue where
  | null
  | bool (value : Bool)
  | i64 (value : Int64)
  | u64 (value : UInt64)
  | f64 (value : F64)
  | string (value : String)
  | array (values : List BinaryJsonValue)
  | object (values : List (String × BinaryJsonValue))

/-- The keys of a map's entries are ascending. -/
def KeysAscending {α : Type} (entries : List (String × α)) : Prop :=
  entries.Pairwise fun a b => a.1 < b.1

mutual

/-- At every nesting, the keys of an object are distinct and ascending. -/
def Json.WellFormed : Json → Prop
  | .array values => Json.AllWellFormed values
  | .object values => KeysAscending values ∧ Json.FieldsWellFormed values
  | _ => True

/-- All values are well formed. -/
def Json.AllWellFormed : List Json → Prop
  | [] => True
  | value :: values => value.WellFormed ∧ Json.AllWellFormed values

/-- The values of all fields are well formed. -/
def Json.FieldsWellFormed : List (String × Json) → Prop
  | [] => True
  | (_, value) :: values => value.WellFormed ∧ Json.FieldsWellFormed values

end

/-- `serde_json::Value`. -/
structure Value where
  json : Json
  wellFormed : json.WellFormed

@[ext] theorem Value.ext {a b : Value} (h : a.json = b.json) : a = b := by
  cases a; cases b; cases h; rfl

def Value.null : Value := ⟨.null, trivial⟩

/-! ## Collecting entries in a map -/

/-- `collect` into a `BTreeMap`, read in key order. -/
def collectEntries {α : Type} (entries : List (String × α)) : List (String × α) :=
  (Std.ExtTreeMap.ofList entries).toList

variable {α : Type} {value : BinaryJsonValue} {v : Value}

theorem toList_eq_of_ascending (m : Std.ExtTreeMap String α) {entries : List (String × α)}
    (ha : KeysAscending entries)
    (hm : ∀ k v, m[k]? = some v ↔ (k, v) ∈ entries) : m.toList = entries := by
  have hlt : m.toList.Pairwise fun a b => a.1 < b.1 := by
    refine m.ordered_keys_toList.imp fun h => ?_
    simpa [compare_lt_iff_lt] using h
  have hperm : m.toList.Perm entries := by
    refine (List.perm_ext_iff_of_nodup ?_ ?_).mpr fun ⟨k, v⟩ => ?_
    · exact hlt.imp fun h he => absurd h (by simp [he])
    · exact ha.imp fun h he => absurd h (by simp [he])
    · rw [mem_toList_iff_getElem?_eq_some, hm]
  refine hperm.eq_of_pairwise (fun a b _ _ hab hba => ?_) hlt ha
  exact absurd (hab.trans hba) (lt_irrefl _)

theorem collectEntries_of_ascending {entries : List (String × α)} (ha : KeysAscending entries) :
    collectEntries entries = entries := by
  refine toList_eq_of_ascending _ ha fun k v => ?_
  have hd : entries.Pairwise fun a b => ¬ compare a.1 b.1 = .eq :=
    ha.imp fun h he => absurd h (by simp [compare_eq_iff_eq.mp he])
  constructor
  · intro h
    by_contra hn
    by_cases hk : k ∈ entries.map Prod.fst
    · obtain ⟨⟨k', v'⟩, hmem, rfl⟩ := List.mem_map.mp hk
      rw [getElem?_ofList_of_mem Std.ReflCmp.compare_self hd hmem] at h
      cases h
      exact hn hmem
    · rw [getElem?_ofList_of_contains_eq_false (by simpa using hk)] at h
      cases h
  · exact fun h => getElem?_ofList_of_mem Std.ReflCmp.compare_self hd h

/-! ## The two conversions -/

mutual

def BinaryJsonValue.fromJson : Json → Result BinaryJsonValue
  | .null => .ok .null
  | .bool value => .ok (.bool value)
  | .number value =>
    match value.asI64 with
    | some i => .ok (.i64 i)
    | none =>
      match value.asU64 with
      | some n => .ok (.u64 n)
      | none => (okOr "JSON number is not finite" value.asF64).map .f64
  | .string value => .ok (.string value)
  | .array values => (BinaryJsonValue.fromJsonAll values).map .array
  | .object values => (BinaryJsonValue.fromJsonFields values).map (.object ∘ collectEntries)

def BinaryJsonValue.fromJsonAll : List Json → Result (List BinaryJsonValue)
  | [] => .ok []
  | value :: values => do
    let value ← BinaryJsonValue.fromJson value
    let values ← BinaryJsonValue.fromJsonAll values
    .ok (value :: values)

def BinaryJsonValue.fromJsonFields : List (String × Json) → Result (List (String × BinaryJsonValue))
  | [] => .ok []
  | (key, value) :: values => do
    let value ← BinaryJsonValue.fromJson value
    let values ← BinaryJsonValue.fromJsonFields values
    .ok ((key, value) :: values)

end

mutual

def BinaryJsonValue.intoJson : BinaryJsonValue → Result Json
  | .null => .ok .null
  | .bool value => .ok (.bool value)
  | .i64 value => .ok (.number (.ofI64 value))
  | .u64 value => .ok (.number (.posInt value))
  | .f64 value => (okOr "non-finite f64 JSON value" (Number.fromF64 value)).map .number
  | .string value => .ok (.string value)
  | .array values => (BinaryJsonValue.intoJsonAll values).map .array
  | .object values => (BinaryJsonValue.intoJsonFields values ∅).map (.object ·.toList)

def BinaryJsonValue.intoJsonAll : List BinaryJsonValue → Result (List Json)
  | [] => .ok []
  | value :: values => do
    let value ← BinaryJsonValue.intoJson value
    let values ← BinaryJsonValue.intoJsonAll values
    .ok (value :: values)

/-- The loop over an object's entries: a key that the map already has is an error. -/
def BinaryJsonValue.intoJsonFields :
    List (String × BinaryJsonValue) → Std.ExtTreeMap String Json →
    Result (Std.ExtTreeMap String Json)
  | [], members => .ok members
  | (key, value) :: values, members => do
    let value ← BinaryJsonValue.intoJson value
    if key ∈ members then bail s!"duplicate JSON object key {key}"
    else BinaryJsonValue.intoJsonFields values (members.insert key value)

end

theorem Json.fieldsWellFormed_iff {fields : List (String × Json)} :
    Json.FieldsWellFormed fields ↔ ∀ f ∈ fields, f.2.WellFormed := by
  induction fields with
  | nil => simp [Json.FieldsWellFormed]
  | cons f fields ih => simp [Json.FieldsWellFormed, ih]

theorem Json.wellFormed_toList {members : Std.ExtTreeMap String Json}
    (h : ∀ (k : String) (v : Json), members[k]? = some v → v.WellFormed) :
    (Json.object members.toList).WellFormed := by
  refine ⟨members.ordered_keys_toList.imp fun h => ?_, Json.fieldsWellFormed_iff.mpr ?_⟩
  · simpa [compare_lt_iff_lt] using h
  · rintro ⟨k, v⟩ hmem
    exact h k v (mem_toList_iff_getElem?_eq_some.mp hmem)

mutual

theorem BinaryJsonValue.intoJson_wellFormed :
    ∀ {value : BinaryJsonValue} {json : Json}, value.intoJson = .ok json →
    json.WellFormed
  | .null, _, h | .bool _, _, h | .i64 _, _, h | .u64 _, _, h | .string _, _, h => by
    cases h; trivial
  | .f64 _, _, h => by
    obtain ⟨_, _, rfl⟩ := map_eq_ok.mp h
    trivial
  | .array values, _, h => by
    obtain ⟨_, hv, rfl⟩ := map_eq_ok.mp h
    exact BinaryJsonValue.intoJsonAll_wellFormed hv
  | .object values, _, h => by
    obtain ⟨_, hv, rfl⟩ := map_eq_ok.mp h
    exact Json.wellFormed_toList (BinaryJsonValue.intoJsonFields_wellFormed hv (by simp))

theorem BinaryJsonValue.intoJsonAll_wellFormed :
    ∀ {values : List BinaryJsonValue} {jsons : List Json},
    BinaryJsonValue.intoJsonAll values = .ok jsons → Json.AllWellFormed jsons
  | [], _, h => by cases h; trivial
  | _ :: _, _, h => by
    obtain ⟨_, hv, h⟩ := bind_eq_ok.mp h
    obtain ⟨_, hvs, h⟩ := bind_eq_ok.mp h
    cases h
    exact ⟨BinaryJsonValue.intoJson_wellFormed hv, BinaryJsonValue.intoJsonAll_wellFormed hvs⟩

theorem BinaryJsonValue.intoJsonFields_wellFormed : ∀ {values : List (String × BinaryJsonValue)}
    {members members' : Std.ExtTreeMap String Json}, BinaryJsonValue.intoJsonFields values members =
    .ok members' →
    (∀ (k : String) (v : Json), members[k]? = some v → v.WellFormed) → ∀ (k : String) (v : Json),
    members'[k]? = some v → v.WellFormed
  | [], _, _, h, hm => by cases h; exact hm
  | (key, _) :: _, _, _, h, hm => by
    obtain ⟨_, hv, h⟩ := bind_eq_ok.mp h
    split at h
    · cases h
    · refine BinaryJsonValue.intoJsonFields_wellFormed h fun k v hk => ?_
      rw [getElem?_insert] at hk
      split at hk
      · cases hk; exact BinaryJsonValue.intoJson_wellFormed hv
      · exact hm k v hk

end

/-- `into_json`, with the shape of its result. -/
def BinaryJsonValue.intoValue (value : BinaryJsonValue) : Result Value :=
  match h : value.intoJson with
  | .ok json => .ok ⟨json, BinaryJsonValue.intoJson_wellFormed h⟩
  | .error e => .error e

theorem BinaryJsonValue.intoValue_ok (h : value.intoJson = .ok v.json) :
    value.intoValue = .ok v := by
  unfold BinaryJsonValue.intoValue
  split
  · next json hj => rw [h] at hj; cases hj; rfl
  · next e he => rw [h] at he; cases he

/-! ## Round trip -/

theorem Number.ofI64_asI64 {n : Number} {i : Int64} (h : n.asI64 = some i) :
    Number.ofI64 i = n := by
  cases n with
  | posInt n =>
    simp only [Number.asI64] at h
    split at h
    · next hn =>
      cases h
      have hs : ¬ n.toInt64 < 0 := by
        have hi : n.toInt64.toInt = n.toNat := BitVec.toInt_eq_toNat_of_lt (by
          have : n.toInt64.toBitVec.toNat = n.toNat := rfl
          omega)
        rw [Int64.lt_iff_toInt_lt, hi, Int64.toInt_zero]
        omega
      simp [Number.ofI64, hs]
    · cases h
  | negInt i' neg =>
    cases h
    simp [Number.ofI64, neg]
  | float x finite => cases h

theorem BinaryJsonValue.fromJsonFields_keys :
    ∀ {fields : List (String × Json)} {values : List (String × BinaryJsonValue)},
    BinaryJsonValue.fromJsonFields fields = .ok values → values.map Prod.fst = fields.map Prod.fst
  | [], _, h => by cases h; rfl
  | _ :: _, _, h => by
    obtain ⟨_, _, h⟩ := bind_eq_ok.mp h
    obtain ⟨_, hvs, h⟩ := bind_eq_ok.mp h
    cases h
    simp [BinaryJsonValue.fromJsonFields_keys hvs]

theorem keysAscending_iff {entries : List (String × α)} :
    KeysAscending entries ↔ (entries.map Prod.fst).Pairwise (· < ·) := by
  rw [List.pairwise_map]; rfl

mutual

/-- Back from the binary form of a value is the value. -/
theorem BinaryJsonValue.intoJson_fromJson :
    ∀ {json : Json} {value : BinaryJsonValue}, json.WellFormed →
    BinaryJsonValue.fromJson json = .ok value → value.intoJson = .ok json
  | .null, _, _, h | .bool _, _, _, h | .string _, _, _, h => by cases h; rfl
  | .number n, _, _, h => by
    simp only [BinaryJsonValue.fromJson] at h
    split at h
    · next i hi => cases h; simp [BinaryJsonValue.intoJson, Number.ofI64_asI64 hi]
    · split at h
      · next u hu => cases n <;> cases hu; cases h; rfl
      · obtain ⟨x, hx, rfl⟩ := map_eq_ok.mp h
        cases n with
        | float x' finite => cases hx; simp [BinaryJsonValue.intoJson, Number.fromF64, finite, okOr, Except.map]
        | _ => cases hx
  | .array values, _, hw, h => by
    obtain ⟨_, hv, rfl⟩ := map_eq_ok.mp h
    rw [BinaryJsonValue.intoJson, BinaryJsonValue.intoJsonAll_fromJsonAll hw hv]
    rfl
  | .object fields, _, ⟨ha, hw⟩, h => by
    obtain ⟨values, hv, rfl⟩ := map_eq_ok.mp h
    have hav : KeysAscending values := by
      rw [keysAscending_iff, BinaryJsonValue.fromJsonFields_keys hv, ← keysAscending_iff]
      exact ha
    have hne : fields.Pairwise fun a b => a.1 ≠ b.1 := ha.imp fun h => h.ne
    rw [Function.comp_apply, collectEntries_of_ascending hav, BinaryJsonValue.intoJson,
      BinaryJsonValue.intoJsonFields_fromJsonFields hw hv hne (by simp)]
    simp only [Except.map, ← ofList_eq_insertMany_empty]
    exact congrArg (Except.ok ∘ Json.object) (collectEntries_of_ascending ha)

theorem BinaryJsonValue.intoJsonAll_fromJsonAll :
    ∀ {jsons : List Json} {values : List BinaryJsonValue}, Json.AllWellFormed jsons →
    BinaryJsonValue.fromJsonAll jsons = .ok values → BinaryJsonValue.intoJsonAll values = .ok jsons
  | [], _, _, h => by cases h; rfl
  | _ :: _, _, ⟨hw, hws⟩, h => by
    obtain ⟨_, hv, h⟩ := bind_eq_ok.mp h
    obtain ⟨_, hvs, h⟩ := bind_eq_ok.mp h
    cases h
    rw [BinaryJsonValue.intoJsonAll, BinaryJsonValue.intoJson_fromJson hw hv,
      BinaryJsonValue.intoJsonAll_fromJsonAll hws hvs]
    rfl

theorem BinaryJsonValue.intoJsonFields_fromJsonFields : ∀ {fields : List (String × Json)}
    {values : List (String × BinaryJsonValue)} {members : Std.ExtTreeMap String Json},
    Json.FieldsWellFormed fields →
    BinaryJsonValue.fromJsonFields fields = .ok values → (fields.Pairwise fun a b => a.1 ≠ b.1) →
    (∀ f ∈ fields, f.1 ∉ members) →
    BinaryJsonValue.intoJsonFields values members = .ok (members.insertMany fields)
  | [], _, _, _, h, _, _ => by cases h; simp [BinaryJsonValue.intoJsonFields]
  | (key, json) :: fields, _, members, ⟨hw, hws⟩, h, hne, hm => by
    obtain ⟨value, hv, h⟩ := bind_eq_ok.mp h
    obtain ⟨values, hvs, h⟩ := bind_eq_ok.mp h
    cases h
    obtain ⟨hkey, hne⟩ := List.pairwise_cons.mp hne
    have hm' : ∀ f ∈ fields, f.1 ∉ members.insert key json := by
      intro f hf hin
      rcases mem_insert.mp hin with hin | hin
      · exact hkey f hf (by simpa using hin)
      · exact hm f (List.mem_cons_of_mem _ hf) hin
    rw [BinaryJsonValue.intoJsonFields, BinaryJsonValue.intoJson_fromJson hw hv]
    simp only [bind, Except.bind]
    rw [if_neg (hm _ List.mem_cons_self), insertMany_cons]
    exact BinaryJsonValue.intoJsonFields_fromJsonFields hws hvs hne hm'

end

theorem BinaryJsonValue.intoValue_fromJson (h : BinaryJsonValue.fromJson v.json = .ok value) :
    value.intoValue = .ok v :=
  BinaryJsonValue.intoValue_ok (BinaryJsonValue.intoJson_fromJson v.wellFormed h)

end NextDb
