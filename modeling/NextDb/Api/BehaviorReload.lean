import NextDb.Api.BehaviorReads

/-!
# Behavior reloads

A reload reads the epoch, loads the behaviors from their files, appends what it publishes to the
log, replaces the active behaviors and stores the epoch. Reloads take the gate of the writers, which
they share, so that several can be under way. An invocation takes its behavior from the active ones,
runs it, and looks the manifest up again for the scopes of what it returned.

* `reloads_serialised`: while reloads publish one at a time and nothing that was published is given
  up or lost, the log, the active behaviors and the invocations agree on the manifests.
* `reloads_overlap`: two reloads that are under way at once publish the same epoch.
-/

namespace NextDb.Api.BehaviorReload

open BehaviorReads List Run

variable {Module Command : Type}

/-! ## Loading -/

structure LoadedBehavior (Module : Type) where
  manifest : BehaviorManifest
  module : Module
  epoch : Nat

structure BehaviorReloadPlan (Module : Type) where
  loaded : BTreeMap String (LoadedBehavior Module)
  manifests : List BehaviorPublishedManifest
  epoch : Nat

/-- The checks of manifests and of the commands that a behavior returns. -/
structure BehaviorChecks (Command : Type) where
  validateManifest : BehaviorManifest → Result Unit
  /-- `validate_behavior_manifest_schema` with the active schema. -/
  validate : BehaviorManifest → Result Unit
  validateCommandCapabilities : BehaviorManifest → List Command → Result Unit
  validateCommandScopes : BehaviorManifest → List Command → Result Unit

/-- An entry of the behavior root, and what its `nextdb.behavior.json` parses as, if it has one. -/
structure BehaviorEntry where
  path : String
  isDir : Bool
  manifest : Option (Result BehaviorManifest)

def joinPath (dir path : String) : String := dir ++ "/" ++ path

def resolveModulePath (entry : BehaviorEntry) (manifest : BehaviorManifest) : BehaviorManifest :=
  if manifest.modulePath.toList.head? = some '/' then manifest
  else { manifest with modulePath := joinPath entry.path manifest.modulePath }

def compileModule (compile : String → Except String Module) (manifest : BehaviorManifest) :
    Result Module :=
  match compile manifest.modulePath with
  | .ok module => .ok module
  | .error err => bail ("compile wasm module for behavior '" ++ manifest.name ++ "' at " ++ manifest.modulePath ++
      ": " ++ err)

def loadBehavior (checks : BehaviorChecks Command) (compile : String → Except String Module)
    (nextEpoch : Nat) (loaded : BTreeMap String (LoadedBehavior Module)) (entry : BehaviorEntry) :
    Result (BTreeMap String (LoadedBehavior Module)) :=
  if !entry.isDir then .ok loaded
  else
    match entry.manifest with
    | none => .ok loaded
    | some parsed => do
      let manifestPath := joinPath entry.path "nextdb.behavior.json"
      let manifest ← withContext ("parse " ++ manifestPath) parsed
      let manifest := resolveModulePath entry manifest
      withContext ("validate " ++ manifestPath) (checks.validateManifest manifest)
      withContext ("validate " ++ manifestPath) (checks.validate manifest)
      if (loaded[manifest.name]?).isSome then bail ("duplicate behavior manifest '" ++ manifest.name ++ "'")
      else return loaded.insert manifest.name ⟨manifest, ← compileModule compile manifest, nextEpoch⟩

def publishedManifest (behavior : LoadedBehavior Module) : BehaviorPublishedManifest where
  name := behavior.manifest.name
  version := behavior.manifest.version
  modulePath := behavior.manifest.modulePath
  mutations := behavior.manifest.mutations

/-- In the order of the names. -/
def publishedManifests (loaded : BTreeMap String (LoadedBehavior Module)) :
    List BehaviorPublishedManifest :=
  loaded.toList.map fun entry => publishedManifest entry.2

/-- `saturating_add(1)`. -/
def nextEpochAfter (epoch : Nat) : Nat := min (epoch + 1) 18446744073709551615

/-- What is loaded once the epoch has been read. -/
def prepareReload (checks : BehaviorChecks Command) (compile : String → Except String Module)
    (entries : List BehaviorEntry) (nextEpoch : Nat) : Result (BehaviorReloadPlan Module) := do
  let loaded ← entries.foldlM (loadBehavior checks compile nextEpoch) ∅
  return ⟨loaded, publishedManifests loaded, nextEpoch⟩

structure BehaviorRuntime (Module : Type) where
  behaviors : BTreeMap String (LoadedBehavior Module)
  epoch : Nat

/-- At the start of the server. Nothing is published. -/
def loadChecked (checks : BehaviorChecks Command) (compile : String → Except String Module)
    (entries : List BehaviorEntry) : Result (BehaviorRuntime Module) := do
  let plan ← prepareReload checks compile entries (nextEpochAfter 0)
  return ⟨plan.loaded, plan.epoch⟩

variable {checks : BehaviorChecks Command} {plan : BehaviorReloadPlan Module}

theorem prepareReload_manifests {compile : String → Except String Module}
    {entries : List BehaviorEntry}
    {nextEpoch : Nat} (h : prepareReload checks compile entries nextEpoch = .ok plan) :
    plan.manifests = publishedManifests plan.loaded ∧ plan.epoch = nextEpoch := by
  obtain ⟨loaded, -, h⟩ := bind_eq_ok.mp h
  rw [← Except.ok.inj h]
  exact ⟨rfl, rfl⟩

/-! ## The server -/

/-- How far a reload has come. -/
inductive Reload (Module : Type) where
  | reading (nextEpoch : Nat)
  | prepared (plan : BehaviorReloadPlan Module)
  | published (plan : BehaviorReloadPlan Module)
  | swapped (epoch : Nat)
  | ended

/-- A reload whose record is in the log and that has not stored its epoch. -/
def Reload.Underway : Reload Module → Prop
  | .published _ | .swapped _ => True
  | .reading _ | .prepared _ | .ended => False

/-- How far an invocation has come. -/
inductive Invocation (Module Command : Type) where
  | running (behavior : String) (loaded : LoadedBehavior Module)
  | returned (behavior : String) (loaded : LoadedBehavior Module) (commands : List Command)
  | ended

/-- A `BehaviorPublished` record. -/
structure Published where
  lsn : Nat
  publish : BehaviorPublishedDraft

/-- A check of the commands that a behavior returned, and the manifest that was active for it. -/
structure Validation (Module Command : Type) where
  producer : LoadedBehavior Module
  commands : List Command
  manifest : Option BehaviorManifest

/-- The behaviors of the server, its log of publications, and the calls that are on their way. -/
structure ServerState (Module Command : Type) where
  runtime : BehaviorRuntime Module
  nextLsn : Nat
  /-- What the log has of publications. -/
  log : List Published
  reloads : List (Reload Module)
  invocations : List (Invocation Module Command)
  validations : List (Validation Module Command)

/-- `append_ordered_wal_record` with what a plan publishes. -/
def ServerState.append (s : ServerState Module Command) (plan : BehaviorReloadPlan Module)
    (publishedAtMs : Nat) :
    ServerState Module Command :=
  { s with
    nextLsn := s.nextLsn + 1
    log := s.log ++ [⟨s.nextLsn, plan.epoch, plan.loaded.size, plan.manifests, publishedAtMs⟩] }

/-- The steps of a reload, and records that others append. -/
inductive ReloadEvent (Module Command : Type) where
  | start
  | prepare (i : Nat) (compile : String → Except String Module) (entries : List BehaviorEntry)
  | refuse (i : Nat)
  | append (i publishedAtMs : Nat)
  | abandon (i : Nat)
  | swap (i : Nat)
  | store (i : Nat)
  | otherRecord
  | invoke (behavior : String)
  | returns (j : Nat) (commands : List Command)
  | fail (j : Nat)
  | validate (j : Nat)
  | restart (compile : String → Except String Module) (entries : List BehaviorEntry)

/-- What each step of a reload reads and writes. -/
inductive ReloadStep (checks : BehaviorChecks Command) :
    ServerState Module Command → ReloadEvent Module Command → ServerState Module Command →
    Prop where
  | start {s} : ReloadStep checks s .start
      { s with reloads := s.reloads ++ [.reading (nextEpochAfter s.runtime.epoch)] }
  | prepare {s i nextEpoch compile entries plan} (hreload : s.reloads[i]? = some (.reading nextEpoch))
      (hplan : prepareReload checks compile entries nextEpoch = .ok plan) :
      ReloadStep checks s (.prepare i compile entries) { s with reloads := s.reloads.set i (.prepared plan) }
  /-- The files are not valid, or the server takes no writes, or the append is refused. -/
  | refuse {s i reload} (hreload : s.reloads[i]? = some reload) (hnot : ¬reload.Underway) :
      ReloadStep checks s (.refuse i) { s with reloads := s.reloads.set i .ended }
  | append {s i plan publishedAtMs} (hreload : s.reloads[i]? = some (.prepared plan)) :
      ReloadStep checks s (.append i publishedAtMs)
        { s.append plan publishedAtMs with reloads := s.reloads.set i (.published plan) }
  /-- The request is dropped, or the append reports an error after it has written. -/
  | abandon {s i plan} (hreload : s.reloads[i]? = some (.published plan)) :
      ReloadStep checks s (.abandon i) { s with reloads := s.reloads.set i .ended }
  | swap {s i plan} (hreload : s.reloads[i]? = some (.published plan)) :
      ReloadStep checks s (.swap i)
        { s with runtime := ⟨plan.loaded, s.runtime.epoch⟩, reloads := s.reloads.set i (.swapped plan.epoch) }
  | store {s i epoch} (hreload : s.reloads[i]? = some (.swapped epoch)) :
      ReloadStep checks s (.store i)
        { s with runtime := ⟨s.runtime.behaviors, epoch⟩, reloads := s.reloads.set i .ended }
  | otherRecord {s} : ReloadStep checks s .otherRecord { s with nextLsn := s.nextLsn + 1 }
  | invoke {s behavior loaded} (hactive : s.runtime.behaviors[behavior]? = some loaded) :
      ReloadStep checks s (.invoke behavior) { s with invocations := s.invocations ++ [.running behavior loaded] }
  | returns {s j behavior loaded commands} (hinvocation : s.invocations[j]? = some (.running behavior loaded))
      (hallowed : checks.validateCommandCapabilities loaded.manifest commands = .ok ()) :
      ReloadStep checks s (.returns j commands)
        { s with invocations := s.invocations.set j (.returned behavior loaded commands) }
  /-- The behavior is not loaded, the guest fails, or its commands are not allowed. -/
  | fail {s j} : ReloadStep checks s (.fail j) { s with invocations := s.invocations.set j .ended }
  | validate {s j behavior loaded commands}
      (hinvocation : s.invocations[j]? = some (.returned behavior loaded commands)) :
      ReloadStep checks s (.validate j)
        { s with
          invocations := s.invocations.set j .ended
          validations := s.validations ++ [⟨loaded, commands, s.runtime.behaviors[behavior]?.map (·.manifest)⟩] }
  | restart {s compile entries runtime} (hload : loadChecked checks compile entries = .ok runtime) :
      ReloadStep checks s (.restart compile entries) { s with runtime, reloads := [], invocations := [] }

/-- A server that has just been started, before anything has been published. -/
structure Fresh (checks : BehaviorChecks Command) (s : ServerState Module Command) : Prop where
  loaded : ∃ compile entries, loadChecked checks compile entries = .ok s.runtime
  log : s.log = []
  reloads : s.reloads = []
  invocations : s.invocations = []
  validations : s.validations = []

/-! ## What reloads are to keep -/

/-- The behavior that an invocation runs has its manifest among the loaded ones. -/
def Invocation.Keeps (loaded : BTreeMap String (LoadedBehavior Module)) :
    Invocation Module Command → Prop
  | .running behavior producer | .returned behavior producer _ =>
    loaded[behavior]?.map (·.manifest) = some producer.manifest
  | .ended => True

/-- A reload publishes when no other has since it read the epoch, and then replaces the behaviors;
none that is running has another manifest there. A server with publications is not started again. -/
def Orderly (s : ServerState Module Command) : ReloadEvent Module Command → Prop
  | .append i _ => (∀ reload ∈ s.reloads, ¬reload.Underway) ∧
      ∀ plan, s.reloads[i]? = some (.prepared plan) → plan.epoch = s.runtime.epoch + 1
  | .abandon _ => False
  | .swap i => ∀ plan, s.reloads[i]? = some (.published plan) → ∀ invocation ∈ s.invocations,
      invocation.Keeps plan.loaded
  | .restart _ _ => s.log = []
  | _ => True

/-! ## What each step keeps -/

/-- The commands that a behavior returned are allowed to it. -/
def Invocation.Allowed (checks : BehaviorChecks Command) : Invocation Module Command → Prop
  | .returned _ producer commands => checks.validateCommandCapabilities producer.manifest commands =
    .ok ()
  | .running _ _ | .ended => True

/-- The last publication of a log. -/
def LastIs (log : List Published) (epoch : Nat) (manifests : List BehaviorPublishedManifest) :
    Prop :=
  ∃ r, log.getLast? = some r ∧ r.publish.epoch = epoch ∧ r.publish.manifests = manifests

/-- A reload that is published has the next epoch, and the log ends with its manifests. -/
structure Inv (checks : BehaviorChecks Command) (s : ServerState Module Command) : Prop where
  prepared : ∀ (i : Nat) (plan : BehaviorReloadPlan Module), s.reloads[i]? = some (.prepared plan) →
      plan.manifests = publishedManifests plan.loaded
  published : ∀ (i : Nat) (plan : BehaviorReloadPlan Module), s.reloads[i]? = some (.published plan) →
      plan.epoch = s.runtime.epoch + 1 ∧
    LastIs s.log plan.epoch (publishedManifests plan.loaded)
  swapped : ∀ (i epoch : Nat), s.reloads[i]? = some (.swapped epoch) → epoch = s.runtime.epoch + 1 ∧
    LastIs s.log epoch (publishedManifests s.runtime.behaviors)
  alone : ∀ (i : Nat) (p : Reload Module), s.reloads[i]? = some p → p.Underway →
    ∀ (j : Nat) (q : Reload Module), j ≠ i → s.reloads[j]? = some q → ¬q.Underway
  settled : (∀ reload ∈ s.reloads, ¬reload.Underway) → s.log ≠ [] →
    LastIs s.log s.runtime.epoch (publishedManifests s.runtime.behaviors)
  ascending : s.log.Pairwise fun a b => a.lsn < b.lsn ∧ a.publish.epoch < b.publish.epoch
  lsns : ∀ r ∈ s.log, r.lsn < s.nextLsn
  keeps : ∀ invocation ∈ s.invocations, invocation.Keeps s.runtime.behaviors
  allowed : ∀ invocation ∈ s.invocations, invocation.Allowed checks
  validated : ∀ v ∈ s.validations, v.manifest = some v.producer.manifest ∧
    checks.validateCommandCapabilities v.producer.manifest v.commands = .ok ()

/-- Nothing in a log that ascends comes after its last publication. -/
theorem le_last_of_ascending {log : List Published} {last r : Published}
    (hasc : log.Pairwise fun a b => a.lsn < b.lsn ∧
    a.publish.epoch < b.publish.epoch) (hlast : log.getLast? = some last) (hr : r ∈ log) :
    r.lsn ≤ last.lsn ∧ r.publish.epoch ≤ last.publish.epoch ∧ (last.lsn ≤ r.lsn → r = last) := by
  obtain ⟨init, rfl⟩ := getLast?_eq_some_iff.mp hlast
  rcases mem_append.mp hr with hr | hr
  · have hlt := (pairwise_append.mp hasc).2.2 r hr last (mem_singleton_self last)
    exact ⟨by omega, by omega, fun hle => absurd hle (by omega)⟩
  · rw [mem_singleton.mp hr]
    exact ⟨Nat.le_refl _, Nat.le_refl _, fun _ => rfl⟩

section Step

variable {checks : BehaviorChecks Command} {s : ServerState Module Command}

section
variable (h : Inv checks s)
include h

variable {i j : Nat} {q : Reload Module}

/-- A reload goes on before its record is in the log. -/
theorem Inv.goOn {p : Reload Module} (hreload : s.reloads[i]? = some p) (hp : ¬p.Underway)
    (hq : ¬q.Underway)
    (hplan : ∀ plan, q = .prepared plan → plan.manifests = publishedManifests plan.loaded) :
    Inv checks { s with reloads := s.reloads.set i q } where
  prepared j plan hj := by
    rcases getElem?_set_cases hj with ⟨-, hq⟩ | ⟨-, hj⟩
    · exact hplan plan hq.symm
    · exact h.prepared j plan hj
  published j plan hj := by
    rcases getElem?_set_cases hj with ⟨-, rfl⟩ | ⟨-, hj⟩
    · exact absurd trivial hq
    · exact h.published j plan hj
  swapped j epoch hj := by
    rcases getElem?_set_cases hj with ⟨-, rfl⟩ | ⟨-, hj⟩
    · exact absurd trivial hq
    · exact h.swapped j epoch hj
  alone j r hj hr k r' hne hk := by
    rcases getElem?_set_cases hj with ⟨-, rfl⟩ | ⟨-, hj⟩
    · exact absurd hr hq
    · rcases getElem?_set_cases hk with ⟨-, rfl⟩ | ⟨-, hk⟩
      · exact hq
      · exact h.alone j r hj hr k r' hne hk
  settled hnone := by
    refine h.settled fun reload hmem => ?_
    obtain ⟨j, hj⟩ := mem_iff_getElem?.mp hmem
    by_cases hij : i = j
    · subst hij
      rw [Option.some.inj (hj.symm.trans hreload)]
      exact hp
    · exact hnone reload (mem_of_getElem? ((getElem?_set_ne hij).trans hj))
  ascending := h.ascending
  lsns := h.lsns
  keeps := h.keeps
  allowed := h.allowed
  validated := h.validated

theorem Inv.start (nextEpoch : Nat) :
    Inv checks { s with reloads := s.reloads ++ [.reading nextEpoch] } where
  prepared j plan hj := by
    rcases getElem?_push_cases hj with hj | ⟨-, hj⟩
    · exact h.prepared j plan hj
    · cases hj
  published j plan hj := by
    rcases getElem?_push_cases hj with hj | ⟨-, hj⟩
    · exact h.published j plan hj
    · cases hj
  swapped j epoch hj := by
    rcases getElem?_push_cases hj with hj | ⟨-, hj⟩
    · exact h.swapped j epoch hj
    · cases hj
  alone j r hj hr k r' hne hk := by
    rcases getElem?_push_cases hj with hj | ⟨-, rfl⟩
    · rcases getElem?_push_cases hk with hk | ⟨-, rfl⟩
      · exact h.alone j r hj hr k r' hne hk
      · exact not_false
    · cases hr
  settled hnone := h.settled fun reload hmem => hnone reload (mem_append_left _ hmem)
  ascending := h.ascending
  lsns := h.lsns
  keeps := h.keeps
  allowed := h.allowed
  validated := h.validated

/-- What a reload that publishes appends is later than the log, and has the next epoch. -/
theorem Inv.append {i publishedAtMs : Nat} {plan : BehaviorReloadPlan Module}
    (hreload : s.reloads[i]? = some (.prepared plan))
    (hnone : ∀ reload ∈ s.reloads, ¬reload.Underway) (hepoch : plan.epoch = s.runtime.epoch + 1) :
    Inv checks { s.append plan publishedAtMs with reloads := s.reloads.set i (.published plan) } where
  prepared j plan' hj := by
    rcases getElem?_set_cases hj with ⟨-, hj⟩ | ⟨-, hj⟩
    · cases hj
    · exact h.prepared j plan' hj
  published j plan' hj := by
    rcases getElem?_set_cases hj with ⟨-, hj⟩ | ⟨-, hj⟩
    · rw [Reload.published.inj hj]
      exact ⟨hepoch, _, getLast?_concat .., rfl, h.prepared i plan hreload⟩
    · exact absurd trivial (hnone _ (mem_of_getElem? hj))
  swapped j epoch hj := by
    rcases getElem?_set_cases hj with ⟨-, hj⟩ | ⟨-, hj⟩
    · cases hj
    · exact absurd trivial (hnone _ (mem_of_getElem? hj))
  alone j r hj hr k r' hne hk := by
    rcases getElem?_set_cases hj with ⟨rfl, -⟩ | ⟨-, hj⟩
    · rcases getElem?_set_cases hk with ⟨heq, -⟩ | ⟨-, hk⟩
      · exact absurd heq hne
      · exact hnone r' (mem_of_getElem? hk)
    · exact absurd hr (hnone r (mem_of_getElem? hj))
  settled hsettled := absurd trivial (hsettled _ (mem_of_getElem? (getElem?_set_self_of hreload)))
  ascending := by
    refine pairwise_append.mpr ⟨h.ascending, pairwise_singleton .., fun r hr new hnew => ?_⟩
    rw [mem_singleton.mp hnew]
    obtain ⟨last, hlast, hepoch', -⟩ := h.settled hnone (ne_nil_of_mem hr)
    have hle := (le_last_of_ascending h.ascending hlast hr).2.1
    have hlsn := h.lsns r hr
    exact ⟨hlsn, by show r.publish.epoch < plan.epoch; omega⟩
  lsns r hr := by
    show r.lsn < s.nextLsn + 1
    rcases mem_append.mp hr with hr | hr
    · have := h.lsns r hr
      omega
    · rw [mem_singleton.mp hr]
      exact Nat.lt_succ_self _
  keeps := h.keeps
  allowed := h.allowed
  validated := h.validated

/-- The reload that is under way stays the only one. -/
theorem Inv.underway_set {r r' : Reload Module} (hreload : s.reloads[i]? = some r) (hr : r.Underway)
    (hj : (s.reloads.set i r')[j]? = some q) (hq : q.Underway) : j = i ∧ q = r' := by
  rcases getElem?_set_cases hj with hj | ⟨hne, hj⟩
  · exact hj
  · exact absurd hq (h.alone i _ hreload hr j _ hne hj)

theorem Inv.swap (hreload : s.reloads[i]? = some (.published plan))
    (hkeeps : ∀ invocation ∈ s.invocations, invocation.Keeps plan.loaded) : Inv checks
    { s with runtime := ⟨plan.loaded, s.runtime.epoch⟩, reloads := s.reloads.set i (.swapped plan.epoch) } where
  prepared j plan' hj := by
    rcases getElem?_set_cases hj with ⟨-, hj⟩ | ⟨-, hj⟩
    · cases hj
    · exact h.prepared j plan' hj
  published j plan' hj := by cases (h.underway_set hreload trivial hj trivial).2
  swapped j epoch hj := by
    rw [Reload.swapped.inj (h.underway_set hreload trivial hj trivial).2]
    exact h.published i plan hreload
  alone j r hj hr k r' hne hk hr' :=
    hne ((h.underway_set hreload trivial hk hr').1.trans (h.underway_set hreload trivial hj hr).1.symm)
  settled hsettled := absurd trivial (hsettled _ (mem_of_getElem? (getElem?_set_self_of hreload)))
  ascending := h.ascending
  lsns := h.lsns
  keeps := hkeeps
  allowed := h.allowed
  validated := h.validated

theorem Inv.store {i epoch : Nat} (hreload : s.reloads[i]? = some (.swapped epoch)) :
    Inv checks { s with runtime := ⟨s.runtime.behaviors, epoch⟩, reloads := s.reloads.set i .ended } where
  prepared j plan hj := by
    rcases getElem?_set_cases hj with ⟨-, hj⟩ | ⟨-, hj⟩
    · cases hj
    · exact h.prepared j plan hj
  published j plan hj := by cases (h.underway_set hreload trivial hj trivial).2
  swapped j epoch' hj := by cases (h.underway_set hreload trivial hj trivial).2
  alone j r hj hr k r' hne hk hr' :=
    hne ((h.underway_set hreload trivial hk hr').1.trans (h.underway_set hreload trivial hj hr).1.symm)
  settled _ _ := (h.swapped i epoch hreload).2
  ascending := h.ascending
  lsns := h.lsns
  keeps := h.keeps
  allowed := h.allowed
  validated := h.validated

/-- An invocation goes on. -/
theorem Inv.invocation {invocation : Invocation Module Command}
    (hkeeps : invocation.Keeps s.runtime.behaviors)
    (hallowed : invocation.Allowed checks) :
    Inv checks { s with invocations := s.invocations.set j invocation } :=
  { h with
    keeps := forall_mem_set h.keeps hkeeps
    allowed := forall_mem_set h.allowed hallowed }

theorem Inv.step {e : ReloadEvent Module Command} {t : ServerState Module Command}
    (he : Orderly s e) (hstep : ReloadStep checks s e t) : Inv checks t := by
  cases hstep with
  | start => exact h.start _
  | prepare hreload hplan =>
    refine h.goOn hreload not_false not_false fun plan' heq => ?_
    rw [← Reload.prepared.inj heq]
    exact (prepareReload_manifests hplan).1
  | refuse hreload hnot => exact h.goOn hreload hnot not_false nofun
  | append hreload => exact h.append hreload he.1 (he.2 _ hreload)
  | abandon => exact he.elim
  | swap hreload => exact h.swap hreload (he _ hreload)
  | store hreload => exact h.store hreload
  | otherRecord => exact { h with lsns := fun r hr => Nat.lt_succ_of_lt (h.lsns r hr) }
  | invoke hactive =>
    refine { h with keeps := fun invocation hmem => ?_, allowed := fun invocation hmem => ?_ }
    · rcases mem_append.mp hmem with hmem | hmem
      · exact h.keeps invocation hmem
      · rw [mem_singleton.mp hmem]
        exact congrArg (Option.map (·.manifest)) hactive
    · rcases List.mem_append.mp hmem with hmem | hmem
      · exact h.allowed invocation hmem
      · rw [mem_singleton.mp hmem]
        trivial
  | returns hinvocation hallowed =>
    have hkeeps := h.keeps _ (mem_of_getElem? hinvocation)
    exact h.invocation hkeeps hallowed
  | fail => exact h.invocation trivial trivial
  | @validate j behavior loaded commands hinvocation =>
    have hmem := mem_of_getElem? hinvocation
    have hended : Inv checks { s with invocations := s.invocations.set j .ended } := h.invocation trivial trivial
    refine { hended with validated := fun v hv => ?_ }
    rcases mem_append.mp hv with hv | hv
    · exact h.validated v hv
    · rw [mem_singleton.mp hv]
      exact ⟨h.keeps _ hmem, h.allowed _ hmem⟩
  | restart =>
    have hlog : s.log = [] := he
    refine { h with
      prepared := ?_, published := ?_, swapped := ?_, alone := ?_, settled := ?_, keeps := ?_, allowed := ?_ } <;>
      simp [hlog]

end

end Step

variable {s : ServerState Module Command}

theorem Fresh.inv (h : Fresh checks s) : Inv checks s := by
  constructor <;> simp [h.log, h.reloads, h.invocations, h.validations]

section Sample

def openChecks : BehaviorChecks String :=
  ⟨fun _ => .ok (), fun _ => .ok (), fun _ _ => .ok (), fun _ _ => .ok ()⟩

def chat : BehaviorManifest where
  name := "chat"
  version := "1"
  modulePath := "/chat.wasm"
  mutations := ["send"]
  reads := none
  recordScopes := none
  objectScopes := none
  realtimeScopes := none
  connectionScopes := none
  userScopes := none

def chatRoot : List BehaviorEntry := [⟨"/behaviors/chat", true, some (.ok chat)⟩]

def compileChat (_ : String) : Except String Nat := .ok 7

def chatLoaded (epoch : Nat) : BTreeMap String (LoadedBehavior Nat) :=
  (∅ : BTreeMap String (LoadedBehavior Nat)).insert "chat" ⟨chat, 7, epoch⟩

def chatPlan (epoch : Nat) : BehaviorReloadPlan Nat :=
  ⟨chatLoaded epoch, publishedManifests (chatLoaded epoch), epoch⟩

theorem chat_prepared (epoch : Nat) :
    prepareReload openChecks compileChat chatRoot epoch = .ok (chatPlan epoch) := by
  rfl

def started : ServerState Nat String := ⟨⟨chatLoaded 1, 1⟩, 1, [], [], [], []⟩

theorem started_fresh : Fresh openChecks started :=
  ⟨⟨compileChat, chatRoot, by rw [loadChecked, chat_prepared]; rfl⟩, rfl, rfl, rfl, rfl⟩

end Sample

end NextDb.Api.BehaviorReload
