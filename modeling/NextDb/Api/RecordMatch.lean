import NextDb.Api.Frames

/-!
# What records match

The predicates of queries, the values of an indexed record, and the tables, ranges of keys, prefixes
of indexes and nested tables that a record is in.
-/

namespace NextDb.Api.RecordMatch

open Auth (startsWith)
open Routing (splitAll)
open Records (splitOnce)
open Frames

/-- `serde_json` and the digest, as far as queries use them. -/
structure QueryLibrary where
  valueEq : Json → Json → Bool
  compareNumbers : Number → Number → Option Ordering
  parseValue : String → Option Json
  parseValues : String → Except String (List Json)
  indexQueryText : QueryRecordsByIndexQuery → String
  predicateText : RecordPredicate → String
  resultId : ListRecordsResponse → String

/-! ## Values of records -/

def jsonGet (value : Json) (field : String) : Option Json :=
  match value with
  | .object fields => fields.lookup field
  | _ => none

def valueAtFieldPath (value : Json) (fieldPath : String) : Option Json :=
  (splitAll '.' fieldPath.toList).foldl (fun value component => value.bind (jsonGet · (String.ofList component)))
    (some value)

def isScalar : Json → Bool
  | .string _ | .number _ | .bool _ | .null => true
  | _ => false

def recordIndexValues (record : DbRecord) (index : IndexSchema) : Result (List Json) :=
  index.fields.mapM fun field =>
    match jsonGet record.value.json field with
    | none => bail s!"indexed field {field} is missing"
    | some value => if isScalar value then .ok value else bail s!"indexed field {field} must be scalar"

section Matching

variable (lib : QueryLibrary)

def comparePredicateValues (actual expected : Json) : Option Ordering :=
  match actual, expected with
  | .number a, .number b => lib.compareNumbers a b
  | .string a, .string b => some (compare a b)
  | _, _ => none

def predicateContains (actual expected : Json) : Bool :=
  match actual, expected with
  | .string a, .string b => decide (b.toList <:+: a.toList)
  | .array items, expected => items.any (lib.valueEq · expected)
  | _, _ => false

variable (record : DbRecord)

def recordMatchesPredicateTerm (term : RecordPredicateTerm) : Bool :=
  let actual := valueAtFieldPath record.value.json term.field
  let expected := term.value.map Value.json
  let both := fun (holds : Json → Json → Bool) => actual.any fun a => expected.any fun b => holds a b
  match term.op with
  | .exists =>
    actual.isSome == (match expected with
      | some (.bool value) => value
      | _ => true)
  | .eq => both lib.valueEq
  | .ne => both fun a b => !lib.valueEq a b
  | .lt => both fun a b => (comparePredicateValues lib a b).any (· == .lt)
  | .lte => both fun a b => (comparePredicateValues lib a b).any (· != .gt)
  | .gt => both fun a b => (comparePredicateValues lib a b).any (· == .gt)
  | .gte => both fun a b => (comparePredicateValues lib a b).any (· != .lt)
  | .contains => both (predicateContains lib)
  | .startsWith => both fun a b =>
    match a, b with
    | .string a, .string b => startsWith a b
    | _, _ => false

def recordMatchesPredicate (predicate : Option RecordPredicate) : Bool :=
  predicate.all fun predicate => predicate.all.all (recordMatchesPredicateTerm lib record)

def valuesEq (a b : List Json) : Bool :=
  a.length == b.length && (a.zip b).all fun pair => lib.valueEq pair.1 pair.2

def recordMatchesIndexValues (index : IndexSchema) (values : List Json) : Bool :=
  match recordIndexValues record index with
  | .ok recordValues => valuesEq lib recordValues values
  | .error _ => false

def recordMatchesIndexValuePrefix (index : IndexSchema) (values : List Json) : Bool :=
  match recordIndexValues record index with
  | .ok recordValues => valuesEq lib (recordValues.take values.length) values
  | .error _ => false

def parseIndexValue (value : String) : Json :=
  match lib.parseValue value with
  | some json => if isScalar json then json else .string value
  | none => .string value

def parseIndexQueryValues (query : QueryRecordsByIndexQuery) (index : IndexSchema) :
    Except ApiError (List Json) := do
  let values ← match query.values, query.value with
    | some values, _ => (lib.parseValues values).mapError fun err => .badRequest s!"invalid values JSON: {err}"
    | none, some value => .ok [parseIndexValue lib value]
    | none, none => .error (.badRequest "value or values is required")
  if values.length ≠ index.fields.length then
    .error (.badRequest s!"index requires {index.fields.length} value(s), got {values.length}")
  else if !values.all isScalar then .error (.badRequest "index query values must be scalar")
  else .ok values

def parseIndexPrefixValues (valuesJson : String) (index : IndexSchema) :
    Except ApiError (List Json) := do
  let values ← (lib.parseValues valuesJson).mapError fun err => .badRequest s!"invalid indexValues JSON: {err}"
  if values.isEmpty then .error (.badRequest "indexValues must not be empty")
  else if values.length > index.fields.length then
    .error (.badRequest s!"index prefix accepts at most {index.fields.length} value(s), got {values.length}")
  else if !values.all isScalar then .error (.badRequest "indexValues must be scalar")
  else .ok values

/-! ## Subscriptions of tables -/

def tableSubscriptionIndexSchema (schema : DatabaseSchema) (table indexName : String) :
    Option IndexSchema :=
  match splitOnce table '.' with
  | some (parent, nested) => do (← (← schema.tables[parent]?).nested[nested]?).indexes[indexName]?
  | none => do (← schema.tables[table]?).indexes[indexName]?

def recordMatchesTableSubscription (table key : String) (record : Option DbRecord)
    (schema : DatabaseSchema) (subscription : TableSubscription) : Bool :=
  if subscription.table ≠ table then false
  else if !subscription.hasIndexPrefix then subscription.matches table key
  else
    match record, subscription.indexName, subscription.indexValues with
    | some record, some indexName, some indexValues =>
      match tableSubscriptionIndexSchema schema table indexName with
      | none => false
      | some index =>
        match parseIndexPrefixValues lib indexValues index with
        | .ok values => recordMatchesIndexValuePrefix lib record index values
        | .error _ => false
    | _, _, _ => false

def nestedTableMatches (nestedTableFilter : List NestedTableSubscription) (table key : String) :
    Bool :=
  nestedTableFilter.any fun subscription =>
    subscription.logicalTable == table && startsWith key subscription.keyPrefix

def recordMatchesTableFilters (table key : String) (tableFilter : List String)
    (tableRangeFilter : List TableSubscription) (nestedTableFilter : List NestedTableSubscription) :
    Bool :=
  table ∈ tableFilter || (tableRangeFilter.any fun subscription => subscription.matches table key) ||
    nestedTableMatches nestedTableFilter table key

def recordMatchesTableFiltersWithRecord (table key : String) (record : DbRecord)
    (tableFilter : List String)
    (tableRangeFilter : List TableSubscription) (nestedTableFilter : List NestedTableSubscription)
    (schema : Option DatabaseSchema) : Bool :=
  table ∈ tableFilter || (tableRangeFilter.any fun subscription =>
      if subscription.hasIndexPrefix then
        schema.any fun schema => recordMatchesTableSubscription lib table key (some record) schema subscription
      else subscription.matches table key) ||
    nestedTableMatches nestedTableFilter table key

end Matching

end NextDb.Api.RecordMatch
