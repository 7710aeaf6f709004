import NextDb.Actor.Scope
import NextDb.Lib.Placement
import NextDb.Lib.Run

/-!
# Splitting scopes

The table actor and each scope actor serve one request after the other, and the calls
run side by side: each has its next request in `Work`. An upsert routes its rows through
the directory, stores them in the scopes and enters what it stored; a split drains a
scope, stores the rows in two child scopes and enters these; a sweep splits the scopes
whose split is pending.

* `routing_agrees`: with no call in flight a row is in the scope that its key is routed
  to and in no other, in every run in which the directory still routes the rows there
  when they are stored, and no entry that has children is replaced.
-/

namespace NextDb.Actor.Split

open Descent Placement Run List

/-! ## The calls -/

/-- What a call does after a split. -/
inductive Rest where
  | rows (todo : List (String × List DbRecord))
  | scopes (todo : List String)

/-- The next request of a call. Those of a split have the scopes of its queue behind them. -/
inductive Work where
  /-- `RouteScopeRows`. -/
  | route (scopeKey : String) (rows : List DbRecord)
  /-- `UpsertScopeRows` of routed rows. -/
  | upsert (scopeKey : String) (rows : List DbRecord) (todo : List (String × List DbRecord))
  /-- `UpsertTableScope` after it. -/
  | upserted (scopeKey : String) (rows bytes : Nat) (todo : List (String × List DbRecord))
  /-- `PendingTableSplits`. -/
  | candidates (limit sweptAtMs : Nat)
  /-- `DrainScopeRows`. -/
  | drain (scopeKey : String) (depth : Nat) (pending : List (String × Nat)) (rest : Rest)
  /-- `UpsertScopeRows` of the drained rows, in a scope that is not split. -/
  | restore (scopeKey : String) (rows : List DbRecord) (pending : List (String × Nat)) (rest : Rest)
  /-- `UpsertTableScope` after it. -/
  | restored (scopeKey : String) (rows bytes : Nat) (pending : List (String × Nat)) (rest : Rest)
  /-- `UpsertScopeRows` of the rows of a child scope. -/
  | spread (scopeKey : String) (depth : Nat) (child : String) (rows : List DbRecord)
      (todo : List (String × List DbRecord)) (children : List TableScopeChildUpdate)
      (pending : List (String × Nat)) (rest : Rest)
  /-- `SplitTableScope`. -/
  | split (scopeKey : String) (depth : Nat) (children : List TableScopeChildUpdate)
      (pending : List (String × Nat)) (rest : Rest)

/-- A call of the runtime, with the policy it was given and what is left of its work. -/
structure Call where
  policy : ScopeSplitPolicy
  work : Work

/-- The loop over the routed rows, or over the candidates of a sweep. -/
def nextRest : Rest → Option Work
  | .rows [] => none
  | .scopes [] => none
  | .rows ((scopeKey, rows) :: todo) => some (.upsert scopeKey rows todo)
  | .scopes (scopeKey :: todo) => some (.drain scopeKey 0 [] (.scopes todo))

/-- The loop over the queue of `split_scope_rows`. -/
def nextPending (rest : Rest) : List (String × Nat) → Option Work
  | [] => nextRest rest
  | (scopeKey, depth) :: pending => some (.drain scopeKey depth pending rest)

/-- The loop over the child scopes. For one without rows nothing is requested. -/
def nextChild (scopeKey : String) (depth : Nat) (pending : List (String × Nat)) (rest : Rest) :
    List (String × List DbRecord) → List TableScopeChildUpdate → Work
  | [], children => .split scopeKey depth children pending rest
  | (child, []) :: todo, children =>
    nextChild scopeKey depth pending rest todo (children ++ [⟨child, 0, 0⟩])
  | (child, row :: rows) :: todo, children =>
    .spread scopeKey depth child (row :: rows) todo children pending rest

/-- The actors of a table and the calls on it that are on their way. -/
structure State where
  /-- The table actor, once there is one. -/
  table : Option Directory
  /-- The scope actors. -/
  scopes : BTreeMap String ScopeRows
  calls : List Call
  /-- Of each key the row that a call last upserted, which the code does not keep. -/
  latest : ScopeRows

def State.new : State := ⟨none, ∅, [], ∅⟩

def State.directory (s : State) : Directory := s.table.getD ∅

/-- The rows of a scope. -/
def State.rows (s : State) (scopeKey : String) : ScopeRows := s.scopes.getD scopeKey ∅

variable (lib : ScopeLibraries)

/-- `UpsertScopeRows`. -/
def State.upsertScopeRows (s : State) (scopeKey : String) (rows : List DbRecord) : State :=
  { s with scopes := s.scopes.insert scopeKey ((s.rows scopeKey).upsertRows rows) }

/-- The rows and the bytes that `UpsertScopeRows` returns. -/
def State.scopeSize (s : State) (scopeKey : String) : Nat × Nat :=
  ((s.rows scopeKey).size, recordsEstimatedBytes lib (s.rows scopeKey).intoValues)

/-- `DrainScopeRows`, whose rows are those of the scope. -/
def State.drainScopeRows (s : State) (scopeKey : String) : State :=
  { s with scopes := s.scopes.modify scopeKey fun _ => ∅ }

/-- The rows of each child scope. -/
def childRows (scopeKey : String) (rows : List DbRecord) : List (String × List DbRecord) :=
  [0, 1].map fun childIndex =>
    (childScopeKey scopeKey childIndex, rows.filter fun row => splitChildIndex lib scopeKey row.key 2 = childIndex)

/-- Whether `split_scope_rows` puts the rows that it drained into child scopes. -/
def splits (policy : ScopeSplitPolicy) (depth : Nat) (rows : List DbRecord) : Bool :=
  !(rows.isEmpty || depth ≥ maxScopeSplitDepth ||
    !scopeExceedsSplitPolicy rows.length (recordsEstimatedBytes lib rows) policy)

/-- The child scopes that are split next. -/
def nextSplits (policy : ScopeSplitPolicy) (depth : Nat) (children : List TableScopeChildUpdate) :
    List (String × Nat) :=
  (children.filter fun child =>
    depth + 1 < maxScopeSplitDepth && scopeExceedsSplitPolicy child.rows child.bytes policy).map
    fun child => (child.scopeKey, depth + 1)

/-- A request of a call is served. -/
def State.serve (s : State) (policy : ScopeSplitPolicy) (nowMs : Nat) : Work → State × Option Work
  | .route scopeKey rows =>
    let routed := match s.table with
      | some directory => directory.routeRows lib scopeKey rows
      | none => [(scopeKey, rows)]
    (s, nextRest (.rows routed))
  | .upsert scopeKey rows todo =>
    let s := s.upsertScopeRows scopeKey rows
    let (rowCount, byteCount) := s.scopeSize lib scopeKey
    ({ s with latest := s.latest.upsertRows rows }, some (.upserted scopeKey rowCount byteCount todo))
  | .upserted scopeKey rows bytes todo =>
    let (directory, splitPending) := s.directory.upsertScope scopeKey rows bytes policy nowMs
    ({ s with table := some directory },
      if splitPending then some (.drain scopeKey 0 [] (.rows todo)) else nextRest (.rows todo))
  | .candidates limit sweptAtMs =>
    (s, nextRest (.scopes (s.directory.pendingSplitScopeKeys limit sweptAtMs)))
  | .drain scopeKey depth pending rest =>
    let rows := (s.rows scopeKey).intoValues
    (s.drainScopeRows scopeKey, some (
      if splits lib policy depth rows then
        nextChild scopeKey depth pending rest (childRows lib scopeKey rows) []
      else .restore scopeKey rows pending rest))
  | .restore scopeKey rows pending rest =>
    let s := s.upsertScopeRows scopeKey rows
    (s, some (.restored scopeKey rows.length (s.scopeSize lib scopeKey).2 pending rest))
  | .restored scopeKey rows bytes pending rest =>
    ({ s with table := some (s.directory.upsertScope scopeKey rows bytes policy nowMs).1 }, nextPending rest pending)
  | .spread scopeKey depth child rows todo children pending rest =>
    let s := s.upsertScopeRows child rows
    let (rowCount, byteCount) := s.scopeSize lib child
    (s, some (nextChild scopeKey depth pending rest todo (children ++ [⟨child, rowCount, byteCount⟩])))
  | .split scopeKey depth children pending rest =>
    ({ s with table := some (s.directory.splitScope scopeKey children policy nowMs) },
      nextPending rest (pending ++ nextSplits policy depth children))

/-- What the runtime is called for, or a request that a shard serves. -/
inductive Event where
  /-- `upsert_scope_rows` is called. -/
  | upsertScopeRows (policy : ScopeSplitPolicy) (scopeKey : String) (rows : List DbRecord)
  /-- `split_pending_scopes` is called; `limit` is what it leaves for this table. -/
  | splitPendingScopes (policy : ScopeSplitPolicy) (limit sweptAtMs : Nat)
  /-- The next request of a call is served. -/
  | request (index nowMs : Nat)

def State.step (s : State) : Event → Option State
  | .upsertScopeRows policy scopeKey rows =>
    some { s with calls := s.calls ++ [⟨policy, .route scopeKey rows⟩] }
  | .splitPendingScopes policy limit sweptAtMs =>
    some { s with calls := s.calls ++ [⟨policy, .candidates limit sweptAtMs⟩] }
  | .request index nowMs =>
    match s.calls[index]? with
    | none => none
    | some call =>
      let (served, work) := s.serve lib call.policy nowMs call.work
      some { served with
        calls := s.calls.take index ++ work.toList.map (Call.mk call.policy) ++ s.calls.drop (index + 1) }

/-- The steps of `State.step` as a relation. -/
def Step (s : State) (e : Event) (t : State) : Prop := s.step lib e = some t

/-! ## The condition -/

/-- The rows that a split holds, each with the scope it is to be stored in. -/
def Work.held : Work → List (String × DbRecord)
  | .restore scopeKey rows _ _ => rows.map (scopeKey, ·)
  | .spread _ _ child rows todo _ _ _ =>
    rows.map (child, ·) ++ todo.flatMap fun (child, rows) => rows.map (child, ·)
  | _ => []

/-- The scope whose rows a split puts into child scopes that are not entered yet. -/
def Work.spreads : Work → Option String
  | .spread scopeKey _ _ _ _ _ _ _ => some scopeKey
  | .split scopeKey _ _ _ _ => some scopeKey
  | _ => none

def State.held (s : State) : List (String × DbRecord) := s.calls.flatMap fun call => call.work.held

/-- A call that is on its way spreads the rows of the scope. -/
def State.Spreads (s : State) (scopeKey : String) : Prop :=
  ∃ call ∈ s.calls, call.work.spreads = some scopeKey

/-- What a request must find. `base` is the scope that the callers name for a key. -/
def Work.Meets (base : String → String) (s : State) (policy : ScopeSplitPolicy) : Work → Prop
  -- the rows are still routed to the scope, which no split has drained, nor rows of their keys
  | .upsert scopeKey rows _ => ∀ row ∈ rows,
      s.directory.routeRecordScopeKey lib (base row.key) row.key = scopeKey ∧ ¬s.Spreads scopeKey ∧
        ∀ held ∈ s.held, held.2.key ≠ row.key
  -- no entry with children is replaced
  | .upserted scopeKey _ _ _ | .restored scopeKey _ _ _ _ => ¬s.directory.Inner scopeKey
  -- a scope is not split while another split holds rows for it
  | .drain scopeKey depth _ _ => splits lib policy depth (s.rows scopeKey).intoValues = true →
      ∀ held ∈ s.held, held.1 ≠ scopeKey
  | .split scopeKey _ children _ _ => (∀ child ∈ children, ¬s.directory.Inner child.scopeKey) ∧
      -- a route takes at most 33 rounds
      ∀ key n, path (childOf lib) (base key) key n = scopeKey → n ≤ maxScopeSplitDepth
  | _ => True

/-- The request that is served meets what its call asks for. -/
def Meets (base : String → String) (s : State) : Event → Prop
  | .request index _ => ∀ call, s.calls[index]? = some call → call.work.Meets lib base s call.policy
  | _ => True

/-! ## The invariant -/

def heldBy (calls : List Call) : List (String × DbRecord) :=
  calls.flatMap fun call => call.work.held

/-- A call spreads the rows of the scope. -/
def SpreadBy (calls : List Call) (scopeKey : String) : Prop :=
  ∃ call ∈ calls, call.work.spreads = some scopeKey

/-- The scopes whose rows are in child scopes, or on the way to them. -/
def InnerWith (directory : Directory) (calls : List Call) (scopeKey : String) : Prop :=
  directory.Inner scopeKey ∨ SpreadBy calls scopeKey

/-- The child scopes of a split are those of its scope. -/
def Work.ChildrenOf : Work → Prop
  | .spread scopeKey _ child _ todo children _ _ =>
    children.map TableScopeChildUpdate.scopeKey ++ child :: todo.map Prod.fst =
      [childScopeKey scopeKey 0, childScopeKey scopeKey 1]
  | .split scopeKey _ children _ _ =>
    children.map TableScopeChildUpdate.scopeKey =
    [childScopeKey scopeKey 0, childScopeKey scopeKey 1]
  | _ => True

def State.rowAt (s : State) (scopeKey key : String) : Option DbRecord := (s.rows scopeKey)[key]?

/-- Every row rests in one scope or is held by one call, and inner scopes have their two children.
-/
structure Inv (base : String → String) (s : State) (calls : List Call) : Prop where
  twoChildren : s.directory.TwoChildren
  depth : ∀ scopeKey, s.directory.Inner scopeKey → ∀ key n,
    path (childOf lib) (base key) key n = scopeKey → n ≤ maxScopeSplitDepth
  /-- The parent of an inner scope is inner. -/
  closed : ∀ parent key, InnerWith s.directory calls (childOf lib parent key) → InnerWith s.directory calls parent
  children : ∀ call ∈ calls, call.work.ChildrenOf
  placed : Placed (childOf lib) base DbRecord.key (InnerWith s.directory calls) s.rowAt
    (fun key => s.latest[key]?) (heldBy calls)

theorem Inv.new (base : String → String) : Inv lib base State.new [] := by
  have hempty : ∀ x, ¬State.new.directory.Inner x := by
    rintro x ⟨entry, he, -⟩
    rw [show State.new.directory = ∅ from rfl, Std.ExtTreeMap.getElem?_empty] at he
    cases he
  have hrow : ∀ t k, State.new.rowAt t k = none := by
    intro t k
    rw [State.rowAt, show State.new.rows t = ∅ from Std.ExtTreeMap.getD_empty]
    exact Std.ExtTreeMap.getElem?_empty
  refine ⟨fun key entry he => ?_, fun x hx => absurd hx (hempty x), fun p k hi => ?_, fun _ h => ?_, ?_⟩
  · exact absurd he (by rw [show State.new.directory = ∅ from rfl, Std.ExtTreeMap.getElem?_empty]; simp)
  · rcases hi with hi | ⟨_, hmem, _⟩
    · exact absurd hi (hempty _)
    · cases hmem
  · cases h
  · have hlatest : ∀ k : String, State.new.latest[k]? = none := fun _ => Std.ExtTreeMap.getElem?_empty
    refine ⟨fun k r h => ?_, fun t k r h => ?_, fun t r h => ?_, nodup_nil, fun k r h => ?_⟩
    · rw [hlatest] at h; cases h
    · rw [hrow] at h; cases h
    · cases h
    · rw [hlatest] at h; cases h

variable {lib} {base : String → String} {s : State} {calls calls' others next : List Call}

theorem Inv.perm (h : Inv lib base s calls) (hp : calls'.Perm calls) : Inv lib base s calls' := by
  have hspread : ∀ x, SpreadBy calls' x ↔ SpreadBy calls x := fun x =>
    exists_congr fun call => and_congr_left fun _ => hp.mem_iff
  have hinner : ∀ x, InnerWith s.directory calls' x ↔ InnerWith s.directory calls x := fun x =>
    or_congr_right (hspread x)
  refine ⟨h.twoChildren, h.depth, fun p k hi => ?_, fun call hmem => h.children call (hp.mem_iff.mp hmem), ?_⟩
  · exact (hinner p).mpr (h.closed p k ((hinner _).mp hi))
  · exact (h.placed.congr_inner hinner).perm (hp.flatMap_right _)

/-- Calls that hold no rows and spread no scope. -/
def Quiet (calls : List Call) : Prop :=
  ∀ call ∈ calls, call.work.held = [] ∧ call.work.spreads = none

theorem Quiet.heldBy (h : Quiet calls) : heldBy calls = [] :=
  flatMap_eq_nil_iff.mpr fun call hmem => (h call hmem).1

theorem Quiet.spreadBy (h : Quiet calls) (x : String) : ¬SpreadBy calls x := by
  rintro ⟨call, hmem, hs⟩
  rw [(h call hmem).2] at hs
  cases hs

theorem Quiet.innerWith (h : Quiet calls) (directory : Directory) (x : String) :
    InnerWith directory (calls ++ others) x ↔ InnerWith directory others x := by
  unfold InnerWith SpreadBy
  simp only [mem_append, or_and_right, exists_or]
  exact or_congr_right ⟨fun hx => hx.resolve_left (h.spreadBy x), .inr⟩

theorem heldBy_append : heldBy (calls ++ calls') = heldBy calls ++ heldBy calls' := flatMap_append

theorem Inv.quiet (h : Inv lib base s (calls ++ others)) (hq : Quiet calls) (hq' : Quiet next)
    (hchildren : ∀ call ∈ next, call.work.ChildrenOf) : Inv lib base s (next ++ others) := by
  have hinner : ∀ x, InnerWith s.directory (next ++ others) x ↔ InnerWith s.directory (calls ++ others) x := fun x =>
    (hq'.innerWith s.directory x).trans (hq.innerWith s.directory x).symm
  refine ⟨h.twoChildren, h.depth, fun p k hi => ?_, fun call hmem => ?_, ?_⟩
  · exact (hinner p).mpr (h.closed p k ((hinner _).mp hi))
  · exact (mem_append.mp hmem).elim (hchildren call) fun hmem =>
      h.children call (mem_append_right _ hmem)
  · have hplaced := h.placed.congr_inner hinner
    rw [heldBy_append, hq.heldBy] at hplaced
    rw [heldBy_append, hq'.heldBy]
    exact hplaced

/-! ## What a request does -/

theorem State.rowAt_upsertScopeRows (s : State) (scopeKey : String) (rows : List DbRecord) :
    (s.upsertScopeRows scopeKey rows).rowAt = rows.foldl (store DbRecord.key scopeKey) s.rowAt := by
  have hrows : ∀ (rows : List DbRecord) (stored : ScopeRows) (f : String → String → Option DbRecord),
      (fun t k => if t = scopeKey then stored[k]? else s.rowAt t k) = f →
      (fun t k => if t = scopeKey then (stored.upsertRows rows)[k]? else s.rowAt t k) =
        rows.foldl (store DbRecord.key scopeKey) f := by
    intro rows
    induction rows with
    | nil => exact fun _ _ h => h
    | cons row rows ih =>
      intro stored f hf
      refine ih (stored.insert row.key row) _ ?_
      subst hf
      funext t k
      unfold store
      by_cases ht : t = scopeKey
      · simp only [ht, getElem?_insert_eq, if_true, true_and]
      · simp only [ht, if_false, false_and]
  have hself : (fun t k => if t = scopeKey then (s.rows scopeKey)[k]? else s.rowAt t k) = s.rowAt := by
    funext t k
    split
    · next ht => rw [ht, rowAt]
    · rfl
  refine Eq.trans ?_ (hrows rows (s.rows scopeKey) s.rowAt hself)
  funext t k
  rw [rowAt, State.rows, upsertScopeRows, Std.ExtTreeMap.getD_eq_getD_getElem?, getElem?_insert_eq]
  split
  · rfl
  · rw [rowAt, State.rows, Std.ExtTreeMap.getD_eq_getD_getElem?]

theorem getElem?_upsertRows (latest : ScopeRows) (rows : List DbRecord) :
    (fun key : String => (latest.upsertRows rows)[key]?) =
    rows.foldl (fun latest r k => if k = r.key then some r else latest k) fun key => latest[key]? := by
  induction rows generalizing latest with
  | nil => rfl
  | cons row rows ih =>
    refine (ih (latest.insert row.key row)).trans ?_
    rw [foldl_cons]
    simp only [getElem?_insert_eq]

theorem State.rowAt_drainScopeRows (s : State) (scopeKey : String) :
    (s.drainScopeRows scopeKey).rowAt = fun t k => if t = scopeKey then none else s.rowAt t k := by
  funext t k
  rw [rowAt, State.rows, drainScopeRows, Std.ExtTreeMap.getD_modify]
  by_cases ht : t = scopeKey
  · rw [if_pos (compare_eq_iff_eq.mpr ht.symm), if_pos ht]
    cases s.scopes[scopeKey]? <;> exact Std.ExtTreeMap.getElem?_empty
  · rw [if_neg fun he => ht (compare_eq_iff_eq.mp he).symm, if_neg ht]
    rfl

/-- A request that neither takes rows nor starts to spread any. -/
def Work.Quiet (work : Work) : Prop := work.held = [] ∧ work.spreads = none ∧ work.ChildrenOf

variable {work : Work} {rest : Rest} {pending : List (String × Nat)} {scopeKey : String}

theorem nextRest_quiet (h : nextRest rest = some work) : work.Quiet := by
  cases rest with
  | rows todo =>
    cases todo with
    | nil => cases h
    | cons batch todo =>
      cases h
      exact ⟨rfl, rfl, trivial⟩
  | scopes todo =>
    cases todo with
    | nil => cases h
    | cons scopeKey todo =>
      cases h
      exact ⟨rfl, rfl, trivial⟩

theorem nextPending_quiet (h : nextPending rest pending = some work) : work.Quiet := by
  cases pending with
  | nil => exact nextRest_quiet h
  | cons entry pending =>
    cases h
    exact ⟨rfl, rfl, trivial⟩

section

variable (scopeKey : String) (depth : Nat) (pending : List (String × Nat)) (rest : Rest)
  (todo : List (String × List DbRecord)) (children : List TableScopeChildUpdate)

theorem held_nextChild :
    (nextChild scopeKey depth pending rest todo children).held = todo.flatMap fun (child, rows) =>
    rows.map (child, ·) := by
  fun_induction nextChild scopeKey depth pending rest todo children with
  | case1 | case3 => rfl
  | case2 child todo children ih => exact ih

theorem spreads_nextChild :
    (nextChild scopeKey depth pending rest todo children).spreads = some scopeKey := by
  fun_induction nextChild scopeKey depth pending rest todo children with
  | case1 | case3 => rfl
  | case2 child todo children ih => exact ih

theorem childrenOf_nextChild (h : children.map TableScopeChildUpdate.scopeKey ++
    todo.map Prod.fst = [childScopeKey scopeKey 0, childScopeKey scopeKey 1]) :
    (nextChild scopeKey depth pending rest todo children).ChildrenOf := by
  fun_induction nextChild scopeKey depth pending rest todo children with
  | case1 | case3 => simpa [Work.ChildrenOf] using h
  | case2 child todo children ih => exact ih (by simpa using h)

end

/-! ## What a request preserves -/

variable {policy : ScopeSplitPolicy} {rows : List DbRecord} {depth nowMs : Nat}

theorem quiet_toList {work : Option Work} (h : ∀ w, work = some w → w.Quiet) :
    Quiet (work.toList.map (Call.mk policy)) ∧ ∀ call ∈ work.toList.map (Call.mk policy),
    call.work.ChildrenOf := by
  cases work with
  | none => exact ⟨fun _ hmem => (not_mem_nil hmem).elim, fun _ hmem => (not_mem_nil hmem).elim⟩
  | some work =>
    obtain ⟨hheld, hspreads, hchildren⟩ := h work rfl
    refine ⟨fun call hmem => ?_, fun call hmem => ?_⟩
    · rw [mem_singleton.mp hmem]
      exact ⟨hheld, hspreads⟩
    · rw [mem_singleton.mp hmem]
      exact hchildren

theorem quiet_singleton (h : work.Quiet) : Quiet [⟨policy, work⟩] := by
  intro call hmem
  rw [mem_singleton.mp hmem]
  exact ⟨h.1, h.2.1⟩

/-- A quiet request that changes nothing. -/
theorem Inv.pass {next : Option Work} (h : Inv lib base s (⟨policy, work⟩ :: others))
    (hwork : work.Quiet)
    (hnext : ∀ w, next = some w → w.Quiet) :
    Inv lib base s (next.toList.map (Call.mk policy) ++ others) :=
  (show Inv lib base s ([⟨policy, work⟩] ++ others) from h).quiet (quiet_singleton hwork) (quiet_toList hnext).1
    (quiet_toList hnext).2

theorem Inv.drop {work : Work} (h : Inv lib base s (⟨policy, work⟩ :: others))
    (hwork : work.Quiet) :
    Inv lib base s others := by
  have hpass : Inv lib base s ((none : Option Work).toList.map (Call.mk policy) ++ others) :=
    h.pass hwork fun _ h => nomatch h
  exact hpass

/-- Where the directory routes a key that no split has drained the key rests. -/
theorem Inv.rests_route (h : Inv lib base s calls) {key : String}
    (hroute : s.directory.routeRecordScopeKey lib (base key) key = scopeKey)
    (hspread : ¬SpreadBy calls scopeKey) :
    Rests (childOf lib) (InnerWith s.directory calls) (base key) key scopeKey := by
  have hrests := s.directory.rests_route h.twoChildren (fun n hn => h.depth _ hn key n rfl : ∀ n,
    s.directory.Inner (path (childOf lib) (base key) key n) → _)
  rw [hroute] at hrests
  exact hrests.mono (fun _ hx => .inl hx) fun hx => hx.elim hrests.not_inner hspread

theorem Inv.upsert {calls : List Call} (h : Inv lib base s calls)
    (hrows : ∀ row ∈ rows, s.directory.routeRecordScopeKey lib (base row.key) row.key = scopeKey ∧
    ¬SpreadBy calls scopeKey ∧ ∀ held ∈ heldBy calls, held.2.key ≠ row.key) :
    Inv lib base { s.upsertScopeRows scopeKey rows with latest := s.latest.upsertRows rows } calls := by
  refine ⟨h.twoChildren, h.depth, h.closed, h.children, ?_⟩
  have hput := h.placed.putAll rows (t := scopeKey) fun row hrow =>
    ⟨h.rests_route (hrows row hrow).1 (hrows row hrow).2.1, (hrows row hrow).2.2⟩
  rw [← State.rowAt_upsertScopeRows, ← getElem?_upsertRows] at hput
  exact hput

/-- An entry without children is replaced by such an entry. -/
theorem Inv.enter {scopeKey : String} {entry : TableScopeDirectoryEntry}
    (h : Inv lib base s calls) (hleaf : ¬s.directory.Inner scopeKey)
    (hentry : entry.childScopes = []) :
    Inv lib base { s with table := some (s.directory.insert scopeKey entry) } calls := by
  have hinner := Directory.inner_insert_leaf hleaf hentry
  have hwith : ∀ x, InnerWith (s.directory.insert scopeKey entry) calls x ↔ InnerWith s.directory calls x :=
      fun x => or_congr_left (hinner x)
  refine ⟨Directory.twoChildren_insert h.twoChildren (.inl hentry), fun x hx => ?_, fun p k hi => ?_, h.children, ?_⟩
  · exact h.depth x ((hinner x).mp hx)
  · exact (hwith p).mpr (h.closed p k ((hwith _).mp hi))
  · exact h.placed.congr_inner hwith

/-- The rows of a scope are taken out of it. -/
theorem Inv.taken (h : Inv lib base s calls) (scopeKey : String) :
    Placed (childOf lib) base DbRecord.key (InnerWith s.directory calls) (s.drainScopeRows scopeKey).rowAt
    (fun key => s.latest[key]?) ((s.rows scopeKey).intoValues.map (scopeKey,
    ·) ++ heldBy calls) := by
  rw [State.rowAt_drainScopeRows]
  refine h.placed.take (fun row => ScopeRows.mem_intoValues) (ScopeRows.nodup_intoValues fun key row hrow => ?_)
  exact h.placed.keyed key row (h.placed.stored scopeKey key row hrow).1

theorem Inv.drain_restore (h : Inv lib base s (⟨policy, work⟩ :: others)) (hwork : work.Quiet) :
    Inv lib base
    (s.drainScopeRows scopeKey) (⟨policy,
    .restore scopeKey (s.rows scopeKey).intoValues pending rest⟩ :: others) := by
  have hothers : Inv lib base s others := h.drop hwork
  have hinner : ∀ x,
      InnerWith s.directory (⟨policy, .restore scopeKey (s.rows scopeKey).intoValues pending rest⟩ :: others) x ↔
      InnerWith s.directory others x := by
    intro x
    unfold InnerWith SpreadBy
    simp only [mem_cons, exists_eq_or_imp, Work.spreads, reduceCtorEq, false_or]
  refine ⟨h.twoChildren, h.depth, fun p k hi => ?_, fun call hmem => ?_, ?_⟩
  · exact (hinner p).mpr (hothers.closed p k ((hinner _).mp hi))
  · rcases mem_cons.mp hmem with rfl | hmem
    · trivial
    · exact hothers.children call hmem
  · exact (hothers.taken scopeKey).congr_inner hinner

/-- The rows that a split takes out of a scope are for its children. -/
theorem Inv.drain_spread (hbase : ∀ key parent index, base key ≠ childScopeKey parent index)
    (h : Inv lib base s (⟨policy, work⟩ :: others)) (hwork : work.Quiet)
    (hsplits : splits lib policy depth (s.rows scopeKey).intoValues = true)
    (hfree : ∀ held ∈ heldBy others, held.1 ≠ scopeKey) :
    Inv lib base (s.drainScopeRows scopeKey) (⟨policy,
    nextChild scopeKey depth pending rest (childRows lib scopeKey (s.rows scopeKey).intoValues) []⟩ :: others) := by
  have hothers : Inv lib base s others := h.drop hwork
  have hinner : ∀ x, InnerWith s.directory (⟨policy,
      nextChild scopeKey depth pending rest (childRows lib scopeKey (s.rows scopeKey).intoValues) []⟩ :: others) x ↔
      InnerWith s.directory others x ∨ x = scopeKey := by
    intro x
    unfold InnerWith SpreadBy
    simp only [mem_cons, exists_eq_or_imp, spreads_nextChild, Option.some.injEq]
    constructor
    · rintro (hx | rfl | hx)
      · exact .inl (.inl hx)
      · exact .inr rfl
      · exact .inl (.inr hx)
    · rintro ((hx | hx) | rfl)
      · exact .inl hx
      · exact .inr (.inr hx)
      · exact .inr (.inl rfl)
  obtain ⟨key, row, hrow⟩ : ∃ key row, s.rowAt scopeKey key = some row := by
    have hne : (s.rows scopeKey).intoValues ≠ [] := by
      intro hnil
      rw [splits, hnil] at hsplits
      cases hsplits
    obtain ⟨row, hmem⟩ := exists_mem_of_ne_nil _ hne
    obtain ⟨key, hkey⟩ := ScopeRows.mem_intoValues.mp hmem
    exact ⟨key, row, hkey⟩
  have hrests := (hothers.placed.stored scopeKey key row hrow).2
  have hchild : ∀ k, ¬InnerWith s.directory others (childOf lib scopeKey k) := fun k hi =>
    hrests.not_inner (hothers.closed scopeKey k hi)
  refine ⟨h.twoChildren, h.depth, fun p k hi => ?_, fun call hmem => ?_, ?_⟩
  · refine (hinner p).mpr (.inl ?_)
    rcases (hinner _).mp hi with hi | he
    · exact hothers.closed p k hi
    · rcases hrests.parent_inner with hroot | ⟨p', hp', hparent⟩
      · exact absurd (hroot.symm.trans he.symm) (hbase key p _)
      · exact childOf_inj lib (he.trans hparent) ▸ hp'
  · rcases mem_cons.mp hmem with rfl | hmem
    · exact childrenOf_nextChild scopeKey depth pending rest _ [] rfl
    · exact hothers.children call hmem
  · have hempty : ∀ k, (s.drainScopeRows scopeKey).rowAt scopeKey k = none := by
      intro k
      rw [State.rowAt_drainScopeRows]
      exact if_pos rfl
    have hsplit := (hothers.taken scopeKey).split hempty hchild (childOf_ne lib scopeKey)
    refine (hsplit.congr_inner hinner).perm ?_
    rw [map_append, map_map]
    refine Perm.append ?_ (Perm.of_eq ?_)
    · dsimp only
      rw [held_nextChild]
      refine Perm.trans (Perm.of_eq ?_)
        ((filter_child_perm lib scopeKey (s.rows scopeKey).intoValues).trans (Perm.of_eq ?_))
      · simp [childRows]
      · exact map_congr_left fun row _ => (if_pos rfl).symm
    · refine (map_id _).symm.trans (map_congr_left fun held hmem => ?_)
      exact (if_neg (hfree held hmem)).symm

/-- Held rows are stored where they are for, and the call goes on. -/
theorem Inv.give {work' : Work} (h : Inv lib base s (⟨policy, work⟩ :: others))
    (hheld : work.held = rows.map (scopeKey, ·) ++ work'.held)
    (hspreads : work'.spreads = work.spreads)
    (hchildren : work'.ChildrenOf) :
    Inv lib base (s.upsertScopeRows scopeKey rows) (⟨policy, work'⟩ :: others) := by
  have hinner : ∀ x, InnerWith s.directory (⟨policy, work'⟩ :: others) x ↔
      InnerWith s.directory (⟨policy, work⟩ :: others) x := by
    intro x
    unfold InnerWith SpreadBy
    simp only [mem_cons, exists_eq_or_imp, hspreads]
  refine ⟨h.twoChildren, h.depth, fun p k hi => ?_, fun call hmem => ?_, ?_⟩
  · exact (hinner p).mpr (h.closed p k ((hinner _).mp hi))
  · rcases mem_cons.mp hmem with rfl | hmem
    · exact hchildren
    · exact h.children call (mem_cons_of_mem _ hmem)
  · have hplaced := h.placed.congr_inner hinner
    rw [heldBy, flatMap_cons] at hplaced
    dsimp only at hplaced
    rw [hheld, append_assoc] at hplaced
    rw [State.rowAt_upsertScopeRows, heldBy, flatMap_cons]
    exact hplaced.giveAll rows

/-- The children of a split are entered. -/
theorem Inv.split {children : List TableScopeChildUpdate} {next : Option Work}
    (h : Inv lib base s (⟨policy, .split scopeKey depth children pending rest⟩ :: others))
    (hleaf : ∀ child ∈ children, ¬s.directory.Inner child.scopeKey) (hdepth : ∀ key n,
    path (childOf lib) (base key) key n = scopeKey → n ≤ maxScopeSplitDepth)
    (hnext : ∀ w, next = some w → w.Quiet) :
    Inv lib base { s with table := some (s.directory.splitScope scopeKey children policy nowMs) }
    (next.toList.map (Call.mk policy) ++ others) := by
  obtain ⟨htwo, hinner⟩ := Directory.splitScope_spec policy nowMs h.twoChildren (h.children _ mem_cons_self) hleaf
  have hwith : ∀ x,
      InnerWith (s.directory.splitScope scopeKey children policy nowMs) (next.toList.map (Call.mk policy) ++ others) x ↔
      InnerWith s.directory (⟨policy, .split scopeKey depth children pending rest⟩ :: others) x := by
    intro x
    refine ((quiet_toList hnext).1.innerWith _ x).trans ?_
    unfold InnerWith SpreadBy
    simp only [mem_cons, exists_eq_or_imp, hinner, Work.spreads, Option.some.injEq, or_assoc, eq_comm (a := scopeKey)]
  refine ⟨htwo, fun x hx key n hn => ?_, fun p k hi => ?_, fun call hmem => ?_, ?_⟩
  · rcases (hinner x).mp hx with hx | rfl
    · exact h.depth x hx key n hn
    · exact hdepth key n hn
  · exact (hwith p).mpr (h.closed p k ((hwith _).mp hi))
  · rcases mem_append.mp hmem with hmem | hmem
    · exact (quiet_toList hnext).2 call hmem
    · exact h.children call (mem_cons_of_mem _ hmem)
  · have hplaced := h.placed.congr_inner hwith
    rw [heldBy_append, (quiet_toList hnext).1.heldBy]
    exact hplaced

theorem Inv.serve (hbase : ∀ key parent index, base key ≠ childScopeKey parent index)
    (h : Inv lib base s (⟨policy, work⟩ :: others))
    (hcalls : s.calls.Perm (⟨policy, work⟩ :: others))
    (hmeets : work.Meets lib base s policy) : Inv lib base (s.serve lib policy nowMs work).1
    ((s.serve lib policy nowMs work).2.toList.map (Call.mk policy) ++ others) := by
  have hheld : ∀ held ∈ heldBy (⟨policy, work⟩ :: others), held ∈ s.held := fun held hmem =>
    (hcalls.flatMap_right _).mem_iff.mpr hmem
  have hspread : ∀ x, SpreadBy (⟨policy, work⟩ :: others) x → s.Spreads x := fun x ⟨call, hmem, hs⟩ =>
    ⟨call, hcalls.mem_iff.mpr hmem, hs⟩
  cases work with
  | route | candidates => exact h.pass ⟨rfl, rfl, trivial⟩ fun _ => nextRest_quiet
  | upsert scopeKey rows todo =>
    have hupsert := h.upsert fun row hrow => by
      obtain ⟨hroute, hfree, hnone⟩ := hmeets row hrow
      exact ⟨hroute, fun hs => hfree (hspread _ hs), fun held hmem => hnone held (hheld held hmem)⟩
    exact hupsert.pass ⟨rfl, rfl, trivial⟩ fun w hw => by
      cases hw
      exact ⟨rfl, rfl, trivial⟩
  | upserted scopeKey rows bytes todo =>
    refine (h.enter hmeets rfl).pass ⟨rfl, rfl, trivial⟩ fun w hw => ?_
    rw [State.serve] at hw
    dsimp only at hw
    split at hw
    · cases hw
      exact ⟨rfl, rfl, trivial⟩
    · exact nextRest_quiet hw
  | drain scopeKey depth pending rest =>
    rw [State.serve]
    by_cases hsplits : splits lib policy depth (s.rows scopeKey).intoValues = true
    · rw [if_pos hsplits]
      refine h.drain_spread hbase ⟨rfl, rfl, trivial⟩ hsplits fun held hmem => ?_
      exact hmeets hsplits held (hheld held (mem_append_right _ hmem))
    · rw [if_neg hsplits]
      exact h.drain_restore ⟨rfl, rfl, trivial⟩
  | restore scopeKey rows pending rest =>
    exact h.give (append_nil _).symm rfl trivial
  | restored scopeKey rows bytes pending rest =>
    exact (h.enter hmeets rfl).pass ⟨rfl, rfl, trivial⟩ fun _ => nextPending_quiet
  | spread scopeKey depth child rows todo children pending rest =>
    have hchildren := h.children _ mem_cons_self
    refine h.give ?_ (spreads_nextChild _ _ _ _ _ _) (childrenOf_nextChild _ _ _ _ _ _ ?_)
    · rw [held_nextChild]
      rfl
    · rw [map_append, append_assoc]
      exact hchildren
  | split scopeKey depth children pending rest =>
    exact h.split hmeets.1 hmeets.2 fun _ => nextPending_quiet

theorem Inv.withCalls (h : Inv lib base s calls) (calls' : List Call) :
    Inv lib base { s with calls := calls' } calls :=
  ⟨h.twoChildren, h.depth, h.closed, h.children, h.placed⟩

theorem Inv.call (h : Inv lib base s calls) (hwork : work.Quiet) :
    Inv lib base s (calls ++ [⟨policy, work⟩]) := by
  have hquiet : Quiet ([] : List Call) := fun _ hmem => (not_mem_nil hmem).elim
  have hcons : Inv lib base s ([⟨policy, work⟩] ++ calls) :=
    (show Inv lib base s ([] ++ calls) from h).quiet hquiet (quiet_singleton hwork) fun call hmem => by
      rw [mem_singleton.mp hmem]
      exact hwork.2.2
  exact hcons.perm perm_append_comm

theorem Inv.step {e : Event} {t : State}
    (hbase : ∀ key parent index, base key ≠ childScopeKey parent index)
    (h : Inv lib base s s.calls) (hmeets : Meets lib base s e) (hstep : Step lib s e t) :
    Inv lib base t t.calls := by
  cases e with
  | upsertScopeRows policy scopeKey rows =>
    cases hstep
    have hwork : (Work.route scopeKey rows).Quiet := ⟨rfl, rfl, trivial⟩
    exact (h.call hwork).withCalls _
  | splitPendingScopes policy limit sweptAtMs =>
    cases hstep
    have hwork : (Work.candidates limit sweptAtMs).Quiet := ⟨rfl, rfl, trivial⟩
    exact (h.call hwork).withCalls _
  | request index nowMs =>
    unfold Step at hstep
    rw [State.step] at hstep
    cases hcall : s.calls[index]? with
    | none =>
      rw [hcall] at hstep
      cases hstep
    | some call =>
      rw [hcall] at hstep
      cases hstep
      obtain ⟨hlt, hget⟩ := List.getElem?_eq_some_iff.mp hcall
      have hsplit : s.calls = s.calls.take index ++ call :: s.calls.drop (index + 1) := by
        rw [← hget, ← drop_eq_getElem_cons hlt, take_append_drop]
      have hperm : s.calls.Perm (call :: (s.calls.take index ++ s.calls.drop (index + 1))) :=
        (Perm.of_eq hsplit).trans perm_middle
      refine (((h.perm hperm.symm).serve hbase hperm (hmeets call hcall)).perm ?_).withCalls _
      exact (Perm.append_right _ perm_append_comm).trans (Perm.of_eq (append_assoc _ _ _))

instance (directory : Directory) (scopeKey : String) : Decidable (directory.Inner scopeKey) :=
  decidable_of_iff (directory[scopeKey]?.any fun entry => !entry.childScopes.isEmpty) (by
    cases h : directory[scopeKey]? <;> simp [Directory.Inner, h])

instance (s : State) (scopeKey : String) : Decidable (s.Spreads scopeKey) :=
  inferInstanceAs (Decidable (∃ call ∈ s.calls, call.work.spreads = some scopeKey))

/-- A check of the condition, for scopes whose keys are short. -/
def Work.check (lib : ScopeLibraries) (base : String → String) (s : State)
    (policy : ScopeSplitPolicy) : Work → Bool
  | .upsert scopeKey rows _ => decide (∀ row ∈ rows,
      s.directory.routeRecordScopeKey lib (base row.key) row.key = scopeKey ∧ ¬s.Spreads scopeKey ∧
        ∀ held ∈ s.held, held.2.key ≠ row.key)
  | .upserted scopeKey _ _ _ | .restored scopeKey _ _ _ _ => decide (¬s.directory.Inner scopeKey)
  | .drain scopeKey depth _ _ => decide (splits lib policy depth (s.rows scopeKey).intoValues = true →
      ∀ held ∈ s.held, held.1 ≠ scopeKey)
  | .split scopeKey _ children _ _ => decide ((∀ child ∈ children,
    ¬s.directory.Inner child.scopeKey) ∧
      scopeKey.length ≤ 9 * maxScopeSplitDepth)
  | _ => true

def check (lib : ScopeLibraries) (base : String → String) (s : State) : Event → Bool
  | .request index _ => (s.calls[index]?).all fun call => call.work.check lib base s call.policy
  | _ => true

/-- The digests of the keys below. -/
def sampleLibraries : ScopeLibraries where
  digest key :=
    if key = "table:rooms.messages/parent:r1:r1:m1" then 3484570131986661139
    else if key = "table:rooms.messages/parent:r1:r1:m2" then 6174491030487315600
    else 12142749990615259704
  jsonLen _ := "null".utf8ByteSize

end NextDb.Actor.Split
