import NextDb.Actor.Kernel
import NextDb.Lib.Descent

/-!
# Scopes and their directory

A scope actor holds the rows of a scope. The table actor keeps the directory of the
scopes: a scope that was split has its child scopes in its entry, and a row's key is
routed from the scope that a caller names down to a scope without children.

* `route_eq_of_rests`: in a directory whose splits are deep enough down the route ends
  where the key rests.
-/

namespace NextDb.Actor

open Descent List

/-- What the scopes use of other crates. -/
structure ScopeLibraries where
  /-- The first eight bytes of the SHA-256 digest of a key, as a number. -/
  digest : String → Nat
  /-- The length of a value's JSON text. -/
  jsonLen : Value → Nat

structure ScopeSplitPolicy where
  rows : Nat
  bytes : Nat

def maxScopeSplitDepth : Nat := 32

def scopeExceedsSplitPolicy (rows bytes : Nat) (policy : ScopeSplitPolicy) : Bool :=
  rows > 1 && (policy.rows > 0 && rows > policy.rows || policy.bytes > 0 && bytes > policy.bytes)

variable (lib : ScopeLibraries)

def recordEstimatedBytes (record : DbRecord) : Nat :=
  record.table.utf8ByteSize + record.key.utf8ByteSize + record.path.utf8ByteSize + lib.jsonLen record.value + 8 + 8

def recordsEstimatedBytes (rows : List DbRecord) : Nat :=
  rows.foldl (fun bytes record => bytes + recordEstimatedBytes lib record) 0

def shardIndex (key : String) (shardCount : Nat) : Nat :=
  if shardCount ≤ 1 then 0 else lib.digest key % shardCount

def splitChildIndex (parentScopeKey recordKey : String) (childCount : Nat) : Nat :=
  shardIndex lib s!"{parentScopeKey}:{recordKey}" (max childCount 1)

/-- `{:02x}` of a number below 256. -/
def hex02 (n : Nat) : String := hexLower [UInt8.ofNat n]

/-- The key of the child scope with an index. -/
def childScopeKey (parentScopeKey : String) (childIndex : Nat) : String :=
  s!"{parentScopeKey}/child:{hex02 childIndex}"

def splitChildScopeKey (parentScopeKey recordKey : String) (childCount : Nat) : String :=
  childScopeKey parentScopeKey (splitChildIndex lib parentScopeKey recordKey childCount)

/-- The number of occurrences of `/child:`, no two of which overlap. -/
def scopeSplitDepth (scopeKey : String) : Nat :=
  (scopeKey.toList.tails.filter fun rest => "/child:".toList.isPrefixOf rest).length

theorem getElem?_insert_eq {α : Type} (entries : BTreeMap String α) (key key' : String) (a : α) :
    (entries.insert key a)[key']? = if key' = key then some a else entries[key']? := by
  rw [Std.ExtTreeMap.getElem?_insert]
  by_cases h : key' = key
  · rw [if_pos h, if_pos (compare_eq_iff_eq.mpr h.symm)]
  · rw [if_neg h, if_neg fun he => h (compare_eq_iff_eq.mp he).symm]

/-! ## The rows of a scope -/

abbrev ScopeRows := BTreeMap String DbRecord

/-- `upsert_rows`. -/
def ScopeRows.upsertRows (self : ScopeRows) (rows : List DbRecord) : ScopeRows :=
  rows.foldl (fun rows row => rows.insert row.key row) self

/-- `into_values`. -/
def ScopeRows.intoValues (self : ScopeRows) : List DbRecord := self.toList.map Prod.snd

variable {self : ScopeRows} {p q : String}

theorem ScopeRows.mem_intoValues {row : DbRecord} : row ∈ self.intoValues ↔ ∃ key :
    String, self[key]? = some row := by
  simp [intoValues, Std.ExtTreeMap.mem_toList_iff_getElem?_eq_some]

theorem ScopeRows.nodup_intoValues (h : ∀ (key : String) (row : DbRecord),
    self[key]? = some row → row.key = key) : (self.intoValues.map DbRecord.key).Nodup := by
  have hkeys : self.intoValues.map DbRecord.key = self.keys := by
    rw [intoValues, map_map, ← Std.ExtTreeMap.map_fst_toList_eq_keys]
    refine map_congr_left fun entry hentry => ?_
    exact h entry.1 entry.2 (Std.ExtTreeMap.mem_toList_iff_getElem?_eq_some.mp hentry)
  rw [hkeys]
  exact Std.ExtTreeMap.nodup_keys

/-! ## The directory -/

structure TableScopeDirectoryEntry where
  rows : Nat
  bytes : Nat
  splitPending : Bool
  splitRows : Nat
  splitBytes : Nat
  splitReminderAtMs : Nat
  childScopes : List String

/-- The scopes of a table actor. -/
abbrev Directory := BTreeMap String TableScopeDirectoryEntry

structure TableScopeChildUpdate where
  scopeKey : String
  rows : Nat
  bytes : Nat

/-- The entry of a scope without children. -/
def leafEntry (rows bytes : Nat) (splitPolicy : ScopeSplitPolicy) (nowMs : Nat) :
    TableScopeDirectoryEntry :=
  let splitPending := scopeExceedsSplitPolicy rows bytes splitPolicy
  { rows, bytes, splitPending
    splitRows := splitPolicy.rows
    splitBytes := splitPolicy.bytes
    splitReminderAtMs := if splitPending then nowMs else 0
    childScopes := [] }

/-- `upsert_scope`. The update that it returns says whether a split is pending. -/
def Directory.upsertScope (self : Directory) (scopeKey : String) (rows bytes : Nat)
    (splitPolicy : ScopeSplitPolicy) (nowMs : Nat) : Directory × Bool :=
  (self.insert scopeKey (leafEntry rows bytes splitPolicy nowMs), scopeExceedsSplitPolicy rows bytes splitPolicy)

/-- The entry of a scope that was split. -/
def splitEntry (children : List TableScopeChildUpdate) (splitPolicy : ScopeSplitPolicy) :
    TableScopeDirectoryEntry where
  rows := 0
  bytes := 0
  splitPending := false
  splitRows := splitPolicy.rows
  splitBytes := splitPolicy.bytes
  splitReminderAtMs := 0
  childScopes := children.map TableScopeChildUpdate.scopeKey

def Directory.splitScope (self : Directory) (parentScopeKey : String)
    (children : List TableScopeChildUpdate) (splitPolicy : ScopeSplitPolicy) (nowMs : Nat) :
    Directory :=
  children.foldl (fun scopes child =>
    scopes.insert child.scopeKey (leafEntry child.rows child.bytes splitPolicy nowMs))
    (self.insert parentScopeKey (splitEntry children splitPolicy))

def Directory.pendingSplitScopeKeys (self : Directory) (limit nowMs : Nat) : List String :=
  ((self.toList.filter fun (scopeKey, scope) =>
    scope.splitPending && (scope.splitReminderAtMs == 0 || scope.splitReminderAtMs ≤ nowMs) &&
      scope.childScopes.isEmpty && scopeSplitDepth scopeKey < maxScopeSplitDepth).take limit).map Prod.fst

/-- The loop of `route_record_scope_key`, with its rounds left. -/
def Directory.routeFrom (self : Directory) (recordKey : String) : Nat → String → String
  | 0, current => current
  | rounds + 1, current =>
    match self[current]? with
    | none => current
    | some scope =>
      if scope.childScopes.isEmpty then current
      else
        match scope.childScopes[splitChildIndex lib current recordKey scope.childScopes.length]? with
        | none => current -- the index is below the number of children
        | some child => if child = current then current else routeFrom self recordKey rounds child

def Directory.routeRecordScopeKey (self : Directory) (scopeKey recordKey : String) : String :=
  self.routeFrom lib recordKey (maxScopeSplitDepth + 1) scopeKey

def Directory.routeRows (self : Directory) (scopeKey : String) (rows : List DbRecord) :
    List (String × List DbRecord) :=
  (rows.foldl (fun routed row =>
    let routedScopeKey := self.routeRecordScopeKey lib scopeKey row.key
    routed.insert routedScopeKey (routed.getD routedScopeKey [] ++ [row]))
    (∅ : BTreeMap String (List DbRecord))).toList

/-! ## Child scopes -/

@[simp] theorem length_hex02 (n : Nat) : (hex02 n).length = 2 := by
  rw [hex02, hexLower, String.length_ofList]
  rfl

theorem toList_childScopeKey (parent : String) (index : Nat) :
    (childScopeKey parent index).toList =
    parent.toList ++ ("/child:".toList ++ (hex02 index).toList) := by
  rw [← String.toList_append, ← String.toList_append, ← String.append_assoc]
  rfl

theorem length_childScopeKey (parent : String) (index : Nat) :
    (childScopeKey parent index).length = parent.length + 9 := by
  rw [← String.length_toList, toList_childScopeKey, length_append, length_append, String.length_toList,
    String.length_toList, String.length_toList, length_hex02]
  rfl

theorem childScopeKey_ne (parent : String) (index : Nat) : childScopeKey parent index ≠ parent := by
  intro h
  have := congrArg String.length h
  rw [length_childScopeKey] at this
  omega

variable {entry : TableScopeDirectoryEntry}

theorem childScopeKey_inj {i j : Nat} (h : childScopeKey p i = childScopeKey q j) : p = q := by
  have hlist := congrArg String.toList h
  rw [toList_childScopeKey, toList_childScopeKey] at hlist
  have hlen := congrArg String.length h
  rw [length_childScopeKey, length_childScopeKey] at hlen
  exact String.toList_inj.mp (append_inj_left hlist (by
    rw [String.length_toList, String.length_toList]
    omega))

/-- The child scope that a split into two puts a row's key into. -/
def childOf (parentScopeKey recordKey : String) : String :=
  splitChildScopeKey lib parentScopeKey recordKey 2

theorem splitChildIndex_two (parent recordKey : String) :
    splitChildIndex lib parent recordKey 2 = 0 ∨ splitChildIndex lib parent recordKey 2 = 1 := by
  show lib.digest _ % 2 = 0 ∨ lib.digest _ % 2 = 1
  omega

theorem childOf_ne (parent recordKey : String) : childOf lib parent recordKey ≠ parent :=
  childScopeKey_ne parent _

theorem childOf_inj {k l : String} (h : childOf lib p k = childOf lib q l) : p = q :=
  childScopeKey_inj h

/-- The rows that go into each of the two child scopes. -/
theorem filter_child_perm (parent : String) (rows : List DbRecord) :
    ((rows.filter fun row => splitChildIndex lib parent row.key 2 = 0).map (childScopeKey parent 0,
    ·) ++
    (rows.filter fun row => splitChildIndex lib parent row.key 2 = 1).map (childScopeKey parent 1,
    ·)).Perm
    (rows.map fun row => (childOf lib parent row.key, row)) := by
  have hmap : ∀ i, (rows.filter fun row => splitChildIndex lib parent row.key 2 = i).map (childScopeKey parent i, ·) =
      (rows.filter fun row => splitChildIndex lib parent row.key 2 = i).map fun row =>
      (childOf lib parent row.key, row) := by
    intro i
    refine map_congr_left fun row hrow => ?_
    have hi : splitChildIndex lib parent row.key 2 = i := by simpa using (mem_filter.mp hrow).2
    rw [childOf, splitChildScopeKey, hi]
  have hone : (rows.filter fun row => splitChildIndex lib parent row.key 2 = 1) = rows.filter fun row =>
      !decide (splitChildIndex lib parent row.key 2 = 0) := by
    refine filter_congr fun row _ => ?_
    rcases splitChildIndex_two lib parent row.key with hi | hi <;> simp [hi]
  rw [hmap 0, hmap 1, ← map_append, hone]
  exact (filter_append_perm _ rows).map _

/-! ## Routing -/

/-- The scopes that have children. -/
def Directory.Inner (self : Directory) (scopeKey : String) : Prop :=
  ∃ entry, self[scopeKey]? = some entry ∧ entry.childScopes ≠ []

/-- A scope that was split has the two child scopes that its rows were put into. -/
def Directory.TwoChildren (self : Directory) : Prop :=
  ∀ (scopeKey : String) (entry : TableScopeDirectoryEntry), self[scopeKey]? = some entry →
    entry.childScopes = [] ∨ entry.childScopes = [childScopeKey scopeKey 0, childScopeKey scopeKey 1]

variable {lib} {directory : Directory} {scopeKey recordKey t : String}

/-- An entry that has no children is replaced by one that has none. -/
theorem Directory.inner_insert_leaf (h : ¬directory.Inner scopeKey)
    (hentry : entry.childScopes = []) (x : String) :
    Directory.Inner (directory.insert scopeKey entry) x ↔ directory.Inner x := by
  unfold Inner
  rw [getElem?_insert_eq]
  by_cases hx : x = scopeKey
  · subst hx
    rw [if_pos rfl]
    exact ⟨fun ⟨_, he, hne⟩ => absurd (Option.some.inj he ▸ hentry) hne, fun hi => absurd hi h⟩
  · rw [if_neg hx]

theorem Directory.twoChildren_insert (h : directory.TwoChildren)
    (hentry : entry.childScopes = [] ∨ entry.childScopes = [childScopeKey scopeKey 0,
      childScopeKey scopeKey 1]) :
    Directory.TwoChildren (directory.insert scopeKey entry) := by
  intro key entry' hget
  rw [getElem?_insert_eq] at hget
  split at hget
  · next hkey =>
    cases hget
    rw [hkey]
    exact hentry
  · exact h key entry' hget

/-- `splitScope` makes the scope inner and leaves its two children without children. -/
theorem Directory.splitScope_spec {children : List TableScopeChildUpdate}
    (policy : ScopeSplitPolicy) (nowMs : Nat) (htwo : directory.TwoChildren)
    (hkeys : children.map TableScopeChildUpdate.scopeKey = [childScopeKey scopeKey 0,
      childScopeKey scopeKey 1])
    (hleaf : ∀ child ∈ children, ¬directory.Inner child.scopeKey) :
    (directory.splitScope scopeKey children policy nowMs).TwoChildren ∧
    ∀ x, (directory.splitScope scopeKey children policy nowMs).Inner x ↔
    directory.Inner x ∨ x = scopeKey := by
  have htwo' : Directory.TwoChildren (directory.insert scopeKey (splitEntry children policy)) :=
    twoChildren_insert htwo (.inr hkeys)
  have hinner' : ∀ x, Directory.Inner (directory.insert scopeKey (splitEntry children policy)) x ↔ directory.Inner x ∨
      x = scopeKey := by
    intro x
    unfold Inner
    rw [getElem?_insert_eq]
    by_cases hx : x = scopeKey
    · rw [if_pos hx]
      refine ⟨fun _ => .inr hx, fun _ => ⟨_, rfl, ?_⟩⟩
      show children.map TableScopeChildUpdate.scopeKey ≠ []
      rw [hkeys]
      simp
    · rw [if_neg hx]
      exact ⟨.inl, fun h => h.resolve_right hx⟩
  have hloop : ∀ (todo : List TableScopeChildUpdate) (d : Directory), (∀ child ∈ todo, child ∈ children) →
      d.TwoChildren → (∀ x, d.Inner x ↔ directory.Inner x ∨ x = scopeKey) → (todo.foldl (fun scopes child =>
        scopes.insert child.scopeKey (leafEntry child.rows child.bytes policy nowMs)) d : Directory).TwoChildren ∧
      ∀ x, (todo.foldl (fun scopes child =>
        scopes.insert child.scopeKey (leafEntry child.rows child.bytes policy nowMs)) d : Directory).Inner x ↔
        directory.Inner x ∨ x = scopeKey := by
    intro todo
    induction todo with
    | nil => exact fun d _ htwo hinner => ⟨htwo, hinner⟩
    | cons child todo ih =>
      intro d hmem htwo hinner
      have hchild := hmem child mem_cons_self
      have hne : child.scopeKey ≠ scopeKey := by
        have : child.scopeKey ∈ [childScopeKey scopeKey 0, childScopeKey scopeKey 1] :=
          hkeys ▸ mem_map_of_mem hchild
        rcases mem_pair.mp this with he | he <;> rw [he] <;> exact childScopeKey_ne scopeKey _
      have hnot : ¬d.Inner child.scopeKey := fun hi =>
        ((hinner _).mp hi).elim (hleaf child hchild) hne
      refine ih _ (fun c hc => hmem c (mem_cons_of_mem _ hc)) (twoChildren_insert htwo (.inl rfl)) fun x => ?_
      exact (inner_insert_leaf hnot rfl x).trans (hinner x)
  exact hloop children _ (fun _ h => h) htwo' hinner'

theorem Directory.routeFrom_of_not_inner (h : ¬directory.Inner scopeKey) (rounds : Nat) :
    directory.routeFrom lib recordKey rounds scopeKey = scopeKey := by
  cases rounds with
  | zero => rfl
  | succ rounds =>
    rw [routeFrom]
    cases hentry : directory[scopeKey]? with
    | none => rfl
    | some entry =>
      have hnil : entry.childScopes = [] := Classical.not_not.mp fun hne => h ⟨entry, hentry, hne⟩
      simp [hnil]

theorem Directory.routeFrom_of_inner (htwo : directory.TwoChildren) (h : directory.Inner scopeKey)
    (rounds : Nat) :
    directory.routeFrom lib recordKey (rounds + 1) scopeKey =
    directory.routeFrom lib recordKey rounds (childOf lib scopeKey recordKey) := by
  obtain ⟨entry, hentry, hne⟩ := h
  have hchildren := (htwo scopeKey entry hentry).resolve_left hne
  have hchild : [childScopeKey scopeKey 0, childScopeKey scopeKey 1][splitChildIndex lib scopeKey recordKey 2]? =
      some (childOf lib scopeKey recordKey) := by
    unfold childOf splitChildScopeKey
    rcases splitChildIndex_two lib scopeKey recordKey with hi | hi <;> rw [hi] <;> rfl
  rw [routeFrom, hentry]
  dsimp only
  rw [hchildren, if_neg (by simp), show [childScopeKey scopeKey 0, childScopeKey scopeKey 1].length = 2 from rfl,
    hchild]
  exact if_neg (childOf_ne lib scopeKey recordKey)

/-- In a directory that is not too deep for the loop, the route ends where the key rests. -/
theorem Directory.route_eq_of_rests (htwo : directory.TwoChildren)
    (hdepth : ∀ n, directory.Inner (path (childOf lib) scopeKey recordKey n) →
      n ≤ maxScopeSplitDepth)
    (h : Rests (childOf lib) directory.Inner scopeKey recordKey t) :
    directory.routeRecordScopeKey lib scopeKey recordKey = t := by
  have hloop : ∀ (n rounds : Nat) (current : String), n ≤ rounds →
      (∀ m < n, directory.Inner (path (childOf lib) current recordKey m)) →
      ¬directory.Inner (path (childOf lib) current recordKey n) →
      directory.routeFrom lib recordKey rounds current = path (childOf lib) current recordKey n := by
    intro n
    induction n with
    | zero => exact fun rounds current _ _ hleaf => routeFrom_of_not_inner hleaf rounds
    | succ n ih =>
      intro rounds current hle hinner hleaf
      obtain ⟨rounds, rfl⟩ : ∃ r, rounds = r + 1 := ⟨rounds - 1, by omega⟩
      have hcurrent : directory.Inner current := hinner 0 (by omega)
      rw [routeFrom_of_inner htwo hcurrent, path_succ]
      refine ih rounds _ (by omega) (fun m hm => ?_) ?_
      · rw [← path_succ]
        exact hinner (m + 1) (by omega)
      · rw [← path_succ]
        exact hleaf
  obtain ⟨n, rfl, hinner, hleaf⟩ := h
  refine hloop n _ scopeKey ?_ hinner hleaf
  cases n with
  | zero => omega
  | succ n =>
    have := hdepth n (hinner n (Nat.lt_succ_self n))
    omega

/-- Where the route ends the key rests. -/
theorem Directory.rests_route (htwo : directory.TwoChildren)
    (hdepth : ∀ n, directory.Inner (path (childOf lib) scopeKey recordKey n) →
      n ≤ maxScopeSplitDepth) :
    Rests (childOf lib) directory.Inner scopeKey recordKey (directory.routeRecordScopeKey lib scopeKey recordKey) := by
  have hleaf : ¬directory.Inner (path (childOf lib) scopeKey recordKey (maxScopeSplitDepth + 1)) :=
    fun hi => absurd (hdepth _ hi) (by omega)
  obtain ⟨t, ht⟩ := exists_rests hleaf
  rw [route_eq_of_rests htwo hdepth ht]
  exact ht

end NextDb.Actor
