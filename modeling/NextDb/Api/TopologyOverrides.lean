import NextDb.Api.Topology
import NextDb.Lib.Run

/-!
# Topology overrides on disk

A call that overrides the topology of a node checks its request, computes a whole map from the map
in memory, appends the map to a log, replaces the map in memory and writes it to a snapshot file. It
holds no lock from one step to the next. An error of the last buffer of a log entry is lost, and the
call goes on. A restart reads the snapshot, and then takes the map of the last entry of the log.

* `loadTopologyOverrides_saved`: what a restart reads of files that were written whole.
* `overrides_kept`: when no two calls hold a computed map at once and no write is cut, each
  successful request counts, and a restart gives what the memory held.
-/

namespace NextDb.Api.TopologyOverrides

open Run List Option

/-! ## The files -/

structure TopologyLogEntry where
  nodeId : String
  reason : String
  request : ApplyTopologyOverrideRequest
  overrides : Overrides

/-- A line of the log, or what follows the last newline. Part of an entry, or an entry behind other
text, does not parse. -/
inductive LogLine where
  | entry (entry : TopologyLogEntry)
  | broken

structure TopologyLog where
  lines : List LogLine
  tail : Option LogLine

/-- How much of an entry is written. -/
inductive Written where
  | nothing
  | part
  /-- All but the newline. -/
  | text
  | all

/-- Writes an entry at the end of the log, or part of it. -/
def TopologyLog.write (log : TopologyLog) (entry : TopologyLogEntry) (written : Written) :
    TopologyLog :=
  let line := if log.tail.isNone then .entry entry else .broken
  match written with
  | .nothing => log
  | .part => { log with tail := some .broken }
  | .text => { log with tail := some line }
  | .all => ⟨log.lines ++ [line], none⟩

def LogLine.parse : LogLine → Result TopologyLogEntry
  | .entry e => .ok e
  | .broken => bail "parse topology log line"

/-- `read_topology_log`. -/
def readTopologyLog (log : TopologyLog) : Result (List TopologyLogEntry) :=
  (log.lines ++ log.tail.toList).mapM LogLine.parse

/-- The snapshot file. A write truncates it first. -/
inductive SnapshotFile where
  | whole (overrides : Overrides)
  | torn

/-- The snapshot and the log of overrides. -/
structure TopologyDisk where
  snapshot : Option SnapshotFile
  log : TopologyLog

def readSnapshot : Option SnapshotFile → Result Overrides
  | none => .ok ∅
  | some (.whole overrides) => .ok overrides
  | some .torn => bail "EOF while parsing"

def loadTopologyOverrides (disk : TopologyDisk) : Result Overrides := do
  let overrides ← readSnapshot disk.snapshot
  let entries ← readTopologyLog disk.log
  return entries.foldl (fun _ entry => entry.overrides) overrides

/-! ## The calls -/

/-- What a call of `apply_topology_override_inner` does next. -/
inductive OverrideCall where
  | normalizing (request : ApplyTopologyOverrideRequest)
  | building (request : ApplyTopologyOverrideRequest)
  | appending (request : ApplyTopologyOverrideRequest) (next : Overrides)
  | writing (request : ApplyTopologyOverrideRequest) (next : Overrides)
  | replacing (request : ApplyTopologyOverrideRequest) (next : Overrides)
  | persisting
  /-- The map is locked for reading, and the file is truncated. -/
  | saving (saved : Overrides)
  | refreshing
  | returned (result : Except ApiError Unit)
  /-- The client is gone, or the server has stopped; the call had replaced the map, or had not. -/
  | stopped (replaced : Bool)

/-- The node, the requests in the order in which they replaced the map, each with its call, and the
maps that the memory has held since the last call that returned. -/
structure ServerState where
  disk : TopologyDisk
  live : Option Overrides
  calls : List OverrideCall
  replaced : List (Nat × ApplyTopologyOverrideRequest)
  held : List Overrides

/-- A node that has no files yet. -/
def ServerState.initial : ServerState := ⟨⟨none, ⟨[], none⟩⟩, none, [], [], [∅]⟩

def ServerState.setCall (s : ServerState) (i : Nat) (call : OverrideCall) : ServerState :=
  { s with calls := s.calls.set i call }

def TopologyDisk.append (disk : TopologyDisk) (config : ClusterConfig) (reason : String)
    (request : ApplyTopologyOverrideRequest) (next : Overrides) (written : Written) :
    TopologyDisk :=
  { disk with log := disk.log.write ⟨config.nodeId, reason, request, next⟩ written }

/-- The call has replaced the map, and has not ended. -/
def OverrideCall.replacedMap : OverrideCall → Bool
  | .persisting | .saving _ | .refreshing => true
  | _ => false

def OverrideCall.active : OverrideCall → Bool
  | .returned _ | .stopped _ => false
  | _ => true

/-- The stop of a call. -/
def OverrideCall.stop (call : OverrideCall) : OverrideCall :=
  if call.active then .stopped call.replacedMap else call

/-- The steps of calls, crashes and restarts. -/
inductive ServerEvent where
  | call (request : ApplyTopologyOverrideRequest)
  | advance (call : Nat)
  /-- A file can not be written, or not whole. -/
  | fail (call : Nat) (written : Written)
  /-- The last buffer of a log entry is not written whole, once `write_all` has returned. -/
  | failUnseen (call : Nat) (written : Written)
  /-- The client is gone, or the server is about to stop. -/
  | drop (call : Nat) (written : Written)
  | crash
  | restart

/-- A call goes on, and changes nothing but where it is. -/
inductive Moves (config : ClusterConfig) (walShards : Nat) (overrides : Overrides) :
    OverrideCall → OverrideCall → Prop where
  | normalize {request normalized}
      (hnormalize : normalizeTopologyOverrideRequest config walShards overrides request = .ok normalized) :
    Moves config walShards overrides (.normalizing request) (.building normalized)
  | refuse {request err}
      (hnormalize : normalizeTopologyOverrideRequest config walShards overrides request = .error err) :
    Moves config walShards overrides (.normalizing request) (.returned (.error err))
  | build {request} :
    Moves config walShards overrides (.building request)
      (.appending request (buildTopologyOverridesAfterRequest overrides request))
  | open {request next} :
    Moves config walShards overrides (.appending request next) (.writing request next)

/-- What each event does to the files and the overrides. -/
inductive ServerStep (config : ClusterConfig) (walShards : Nat) :
    ServerState → ServerEvent → ServerState → Prop where
  | call {s : ServerState} {overrides request}
      (hlive : s.live = some overrides) :
    ServerStep config walShards s (.call request) { s with calls := s.calls ++ [.normalizing request] }
  | moves {s : ServerState} {overrides i call call'}
      (hlive : s.live = some overrides) (hcall : s.calls[i]? = some call)
      (hmoves : Moves config walShards overrides call call') :
    ServerStep config walShards s (.advance i) (s.setCall i call')
  | append {s : ServerState} {overrides next i reason request} (hlive : s.live = some overrides)
      (hcall : s.calls[i]? = some (.writing request next)) :
    ServerStep config walShards s (.advance i)
      ({ s with disk := s.disk.append config reason request next .all }.setCall i (.replacing request next))
  | replace {s : ServerState} {overrides next i request}
      (hlive : s.live = some overrides) (hcall : s.calls[i]? = some (.replacing request next))
      (hlock : ∀ saved, OverrideCall.saving saved ∉ s.calls) :
    ServerStep config walShards s (.advance i) ({ s with
        live := some next
        replaced := s.replaced ++ [(i, request)]
        held := s.held ++ [next] }.setCall i .persisting)
  | truncate {s : ServerState} {overrides i} (hlive : s.live = some overrides)
      (hcall : s.calls[i]? = some .persisting) :
    ServerStep config walShards s (.advance i)
      ({ s with disk := { s.disk with snapshot := some .torn } }.setCall i (.saving overrides))
  | save {s : ServerState} {overrides saved i} (hlive : s.live = some overrides)
      (hcall : s.calls[i]? = some (.saving saved)) :
    ServerStep config walShards s (.advance i)
      ({ s with disk := { s.disk with snapshot := some (.whole saved) } }.setCall i .refreshing)
  | finish {s overrides i} (hlive : s.live = some overrides)
      (hcall : s.calls[i]? = some .refreshing) :
    ServerStep config walShards s (.advance i) ({ s with held := [overrides] }.setCall i (.returned (.ok ())))
  | fail {s : ServerState} {overrides i call err written} (hlive : s.live = some overrides)
      (hcall : s.calls[i]? = some call)
      (hfails : (∃ request next, call = .appending request next) ∨ call.replacedMap = true) :
    ServerStep config walShards s (.fail i written) (s.setCall i (.returned (.error err)))
  | failWriting {s : ServerState} {overrides next i reason request err written}
      (hlive : s.live = some overrides) (hcall : s.calls[i]? = some (.writing request next)) :
    ServerStep config walShards s (.fail i written)
      ({ s with disk := s.disk.append config reason request next written }.setCall i (.returned (.error err)))
  | failUnseen {s : ServerState} {overrides next i reason request written} (hlive : s.live = some overrides)
      (hcall : s.calls[i]? = some (.writing request next)) :
    ServerStep config walShards s (.failUnseen i written)
      ({ s with disk := s.disk.append config reason request next written }.setCall i (.replacing request next))
  | drop {s : ServerState} {overrides i} {call : OverrideCall} {written}
      (hlive : s.live = some overrides) (hcall : s.calls[i]? = some call) (hactive : call.active = true)
      (hwriting : ∀ request next, call ≠ .writing request next) :
    ServerStep config walShards s (.drop i written) (s.setCall i call.stop)
  | dropWriting {s : ServerState} {overrides next i reason request written} (hlive : s.live = some overrides)
      (hcall : s.calls[i]? = some (.writing request next)) :
    ServerStep config walShards s (.drop i written)
      ({ s with disk := s.disk.append config reason request next written }.setCall i (.stopped false))
  | crash {s : ServerState} {overrides} (hlive : s.live = some overrides) :
    ServerStep config walShards s .crash { s with live := none, calls := s.calls.map OverrideCall.stop }
  | restart {s : ServerState} {overrides} (hdown : s.live = none)
      (hload : loadTopologyOverrides s.disk = .ok overrides) :
    ServerStep config walShards s .restart { s with live := some overrides, held := s.held ++ [overrides] }

/-- The map that the call has computed and has not put in memory, with its request. -/
def OverrideCall.computed : OverrideCall → Option (ApplyTopologyOverrideRequest × Overrides)
  | .appending request next | .writing request next | .replacing request next => some (request,
    next)
  | _ => none

/-- The log is ahead of the memory, or a file is not whole. -/
def OverrideCall.cut : OverrideCall → Bool
  | .writing .. | .replacing .. | .saving _ => true
  | _ => false

/-- The call is about to write its entry, and none of it is written. -/
def Untouched (call : OverrideCall) (written : Written) : Prop :=
  written = .nothing ∧ ∃ request next, call = .writing request next

/-- A map is computed when no other call holds one, and behind the first byte that it writes a call
does not fail, seen or unseen, and is not stopped while a file is not whole or the log is ahead of
the memory. -/
def Meets (s : ServerState) : ServerEvent → Prop
  | .advance i => ∀ request, s.calls[i]? = some (.building request) →
    ∀ call ∈ s.calls, call.computed = none
  | .fail i written => ∀ call, s.calls[i]? = some call →
      (∃ request next, call = .appending request next) ∨ Untouched call written
  | .failUnseen _ _ => False
  | .drop i written => ∀ call, s.calls[i]? = some call → call.cut = false ∨ Untouched call written
  | .crash => ∀ call ∈ s.calls, call.cut = false
  | _ => True

/-- The map has what the request asked for, under what the requests of `later` set. -/
def Reflects (overrides : Overrides) (request : ApplyTopologyOverrideRequest)
    (later : List ApplyTopologyOverrideRequest) : Prop :=
  ∃ entry, ClusterShardOverride.after entry request = entry ∧ overrides[request.shard]? =
      some ((later.filter (·.shard = request.shard)).foldl ClusterShardOverride.after entry)

/-- What the request of a call asked for is in the map once the call has returned, and a server that
has stopped finds in its files a map that the memory has held since the last call that returned. -/
def Kept (s : ServerState) : Prop :=
  (∀ overrides, s.live = some overrides → ∀ i : Nat, s.calls[i]? = some (.returned (.ok ())) →
    ∃ before request later, s.replaced = before ++ (i, request) :: later ∧
      Reflects overrides request (later.map (·.2))) ∧
  (s.live = none → ∃ overrides ∈ s.held, loadTopologyOverrides s.disk = .ok overrides)

/-! ## What a restart reads -/

/-- The files tell the map: the last entry of the log has it, or there is none and the snapshot
has it. -/
def Tells (disk : TopologyDisk) (overrides : Overrides) : Prop :=
  ∃ entries, disk.log = ⟨entries.map .entry, none⟩ ∧ (entries.getLast?.map (·.overrides) = some overrides ∨
      entries = [] ∧ readSnapshot disk.snapshot = .ok overrides)

theorem readTopologyLog_entries (entries : List TopologyLogEntry) :
    readTopologyLog ⟨entries.map .entry, none⟩ = .ok entries := by
  show ((entries.map LogLine.entry) ++ []).mapM LogLine.parse = .ok entries
  rw [append_nil]
  induction entries with
  | nil => rfl
  | cons entry entries ih =>
    rw [map_cons, mapM_cons, ih]
    rfl

theorem foldl_entries (entries : List TopologyLogEntry) (overrides : Overrides) :
    entries.foldl (fun _ entry => entry.overrides) overrides =
    (entries.getLast?.map (·.overrides)).getD overrides := by
  induction entries using reverseRecOn with
  | nil => rfl
  | append_singleton entries entry ih => simp

variable {disk : TopologyDisk} {calls : List OverrideCall} {s t : ServerState}
    {overrides : Overrides}
  {config : ClusterConfig} {walShards : Nat} {event : ServerEvent}

/-- What was written whole is read. -/
theorem loadTopologyOverrides_saved (h : Tells disk overrides)
    (hwhole : disk.snapshot ≠ some .torn) :
    loadTopologyOverrides disk = .ok overrides := by
  obtain ⟨entries, hlog, hlast⟩ := h
  obtain ⟨snapshot, hsnapshot⟩ : ∃ snapshot, readSnapshot disk.snapshot = .ok snapshot := by
    match hs : disk.snapshot with
    | none => exact ⟨∅, rfl⟩
    | some (.whole saved) => exact ⟨saved, rfl⟩
    | some .torn => exact absurd hs hwhole
  have hload : loadTopologyOverrides disk = .ok (entries.foldl (fun _ entry => entry.overrides) snapshot) := by
    rw [loadTopologyOverrides, hsnapshot, hlog]
    simp only [readTopologyLog_entries]
    rfl
  rw [hload, foldl_entries]
  rcases hlast with hlast | ⟨hnone, hread⟩
  · rw [hlast]
    rfl
  · rw [hsnapshot] at hread
    cases hread
    rw [hnone]
    rfl

/-- The map of an entry that is appended whole. -/
theorem Tells.append {disk : TopologyDisk} {overrides : Overrides} (h : Tells disk overrides)
    (config : ClusterConfig) (reason : String) (request : ApplyTopologyOverrideRequest)
    (next : Overrides) :
    Tells (disk.append config reason request next .all) next := by
  obtain ⟨entries, hlog, -⟩ := h
  refine ⟨entries ++ [⟨config.nodeId, reason, request, next⟩], ?_, .inl ?_⟩
  · show disk.log.write _ .all = _
    rw [hlog]
    simp [TopologyLog.write]
  · simp

/-- With an entry in the log, the snapshot is not asked. -/
theorem Tells.snapshot {disk : TopologyDisk}
    {overrides : Overrides} (h : Tells disk overrides) (hlines : disk.log.lines ≠ [])
    (snapshot : Option SnapshotFile) :
    Tells { disk with snapshot := snapshot } overrides := by
  obtain ⟨entries, hlog, hlast⟩ := h
  refine ⟨entries, hlog, .inl ?_⟩
  rcases hlast with hlast | ⟨hnone, -⟩
  · exact hlast
  · rw [hlog, hnone] at hlines
    exact absurd rfl hlines

/-! ## What the requests have made of the map -/

/-- A request asks twice for what it asks once. -/
theorem after_after (entry : ClusterShardOverride) (request : ApplyTopologyOverrideRequest) :
    ClusterShardOverride.after
    (ClusterShardOverride.after entry request) request =
    ClusterShardOverride.after entry request := by
  simp only [ClusterShardOverride.after]
  cases request.owner <;> cases request.epoch <;> cases request.replicas <;> rfl

variable (requests : List ApplyTopologyOverrideRequest)

/-- The map after the requests. -/
def made : Overrides :=
  requests.foldl buildTopologyOverridesAfterRequest ∅

theorem made_append (request : ApplyTopologyOverrideRequest) :
    made (requests ++ [request]) = buildTopologyOverridesAfterRequest (made requests) request := by
  simp [made]

theorem getElem?_foldl_build {shard : Nat} {entry : ClusterShardOverride}
    (h : overrides[shard]? = some entry) :
    (requests.foldl buildTopologyOverridesAfterRequest overrides)[shard]? =
    some ((requests.filter (·.shard = shard)).foldl ClusterShardOverride.after entry) := by
  induction requests generalizing overrides entry with
  | nil => exact h
  | cons request requests ih =>
    rw [foldl_cons]
    by_cases hshard : request.shard = shard
    · have hnext := getElem?_buildTopologyOverridesAfterRequest overrides request shard
      rw [if_pos hshard, h] at hnext
      rw [ih hnext, filter_cons_of_pos (by simp [hshard])]
      rfl
    · have hnext := getElem?_buildTopologyOverridesAfterRequest overrides request shard
      rw [if_neg hshard, h] at hnext
      rw [ih hnext, filter_cons_of_neg (by simp [hshard])]

theorem reflects_made (before later : List ApplyTopologyOverrideRequest)
    (request : ApplyTopologyOverrideRequest) :
    Reflects (made (before ++ request :: later)) request later := by
  have hnext := getElem?_buildTopologyOverridesAfterRequest (made before) request request.shard
  rw [if_pos rfl] at hnext
  refine ⟨_, after_after ((made before)[request.shard]?.getD .default) request, ?_⟩
  rw [made, foldl_append, foldl_cons]
  exact getElem?_foldl_build later hnext

/-! ## The invariant -/

/-- What the requests that have replaced the map have made of it. -/
def ServerState.made (s : ServerState) : Overrides := TopologyOverrides.made (s.replaced.map (·.2))

/-- The call has put its map in memory. -/
def OverrideCall.applied : OverrideCall → Bool
  | .persisting | .saving _ | .refreshing | .returned (.ok ()) => true
  | _ => false

/-- The call has appended its entry, and the snapshot is not written. -/
def OverrideCall.logged : OverrideCall → Bool
  | .replacing .. | .persisting | .saving _ => true
  | _ => false

/-- One call at a time has a computed map, and it has computed it from the map in memory, which is
what the requests have made. -/
structure CallsInv (s : ServerState) : Prop where
  live : ∀ overrides, s.live = some overrides → overrides = s.made
  down : s.live = none → ∀ call ∈ s.calls, call.active = false
  one : ∀ (i j : Nat) (call call' : OverrideCall), s.calls[i]? = some call → s.calls[j]? = some call' →
    call.computed.isSome = true → call'.computed.isSome = true → i = j
  computed : ∀ call ∈ s.calls, ∀ request next, call.computed = some (request, next) →
    next = buildTopologyOverridesAfterRequest s.made request
  applied : ∀ (i : Nat) (call : OverrideCall), s.calls[i]? = some call → call.applied = true →
    ∃ request, (i, request) ∈ s.replaced

/-- The files tell the map that the requests have made, or the map of the call that has appended its
entry. -/
structure FilesInv (disk : TopologyDisk) (calls : List OverrideCall) (made : Overrides) : Prop where
  tells : (∀ request next, OverrideCall.replacing request next ∉ calls) → Tells disk made
  ahead : ∀ request next, OverrideCall.replacing request next ∈ calls → Tells disk next
  logged : ∀ call ∈ calls, call.logged = true → disk.log.lines ≠ []
  torn : disk.snapshot = some .torn → ∃ saved, OverrideCall.saving saved ∈ calls

/-- The files lead to the overrides that were made last. -/
structure Inv (s : ServerState) : Prop where
  calls : CallsInv s
  files : FilesInv s.disk s.calls s.made
  held : s.made ∈ s.held

theorem FilesInv.readable {made : Overrides} (h : FilesInv disk calls made) :
    ∃ overrides, Tells disk overrides := by
  by_cases hahead : ∃ request next, OverrideCall.replacing request next ∈ calls
  · obtain ⟨request, next, hmem⟩ := hahead
    exact ⟨next, h.ahead request next hmem⟩
  · exact ⟨made, h.tells fun request next hmem => hahead ⟨request, next, hmem⟩⟩

/-- A restart reads the map of the memory when no write is cut. -/
theorem FilesInv.load {made : Overrides} (h : FilesInv disk calls made)
    (hcut : ∀ call ∈ calls, call.cut = false) :
    loadTopologyOverrides disk = .ok made := by
  apply loadTopologyOverrides_saved
  · apply h.tells
    intro request next hmem
    exact Bool.noConfusion (hcut _ hmem)
  · intro htorn
    obtain ⟨saved, hmem⟩ := h.torn htorn
    exact Bool.noConfusion (hcut _ hmem)

theorem Inv.initial : Inv .initial where
  calls :=
    { live := fun overrides h => by cases h
      down := fun _ _ h => nomatch h
      one := fun _ _ _ _ h => nomatch h
      computed := fun _ h => nomatch h
      applied := fun i call hcall => by cases hcall }
  files :=
    { tells := fun _ => ⟨[], rfl, .inr ⟨rfl, rfl⟩⟩
      ahead := fun _ _ h => nomatch h
      logged := fun _ h => nomatch h
      torn := fun htorn => by cases htorn }
  held := mem_singleton.mpr rfl

/-! ## The steps -/

section Steps

variable {config : ClusterConfig} {walShards : Nat} {s s' : ServerState} {i : Nat}
    {call call' : OverrideCall}

/-- A call goes on: it keeps the map that it has computed, or computes one when no other has. -/
theorem CallsInv.setCall (h : CallsInv s) (hlive : s'.live = s.live) (hup : s.live ≠ none)
    (hreplaced : s'.replaced = s.replaced) (hcall : s.calls[i]? = some call)
    (hcalls : s'.calls = s.calls.set i call')
    (hcomputed : ∀ request next, call'.computed = some (request, next) →
      call.computed = some (request, next) ∨
    next = buildTopologyOverridesAfterRequest s.made request ∧ ∀ call ∈ s.calls,
      call.computed = none)
    (happlied : call'.applied = true → call.applied = true) : CallsInv s' := by
  have hmade : s'.made = s.made := by
    rw [ServerState.made, hreplaced, ServerState.made]
  -- two calls that have a computed map are the call that goes on, or were there before
  have hone : ∀ (j : Nat) (other : OverrideCall), s.calls[j]? = some other → other.computed.isSome = true →
      call'.computed.isSome = true → j = i := by
    intro j other hother hsome hsome'
    obtain ⟨⟨request, next⟩, hcomputed'⟩ := isSome_iff_exists.mp hsome'
    rcases hcomputed request next hcomputed' with hbefore | ⟨-, hnone⟩
    · exact h.one j i other call hother hcall hsome (by rw [hbefore]; rfl)
    · rw [hnone other (mem_of_getElem? hother)] at hsome
      exact Bool.noConfusion hsome
  refine ⟨?_, ?_, ?_, ?_, ?_⟩
  · intro overrides hoverrides
    rw [hmade]
    exact h.live overrides (hlive ▸ hoverrides)
  · intro hdown
    exact absurd (hlive ▸ hdown) hup
  · intro j k callj callk hj hk hsomej hsomek
    rw [hcalls] at hj hk
    rcases getElem?_set_cases hj with ⟨hji, hcj⟩ | ⟨-, hj⟩ <;> rcases getElem?_set_cases hk with ⟨hki, hck⟩ | ⟨-, hk⟩
    · omega
    · rw [hji]
      exact (hone k callk hk hsomek (hcj ▸ hsomej)).symm
    · rw [hki]
      exact hone j callj hj hsomej (hck ▸ hsomek)
    · exact h.one j k callj callk hj hk hsomej hsomek
  · intro other hother request next hsome
    rw [hmade]
    rw [hcalls] at hother
    rcases mem_or_eq_of_mem_set hother with hother | hother
    · exact h.computed other hother request next hsome
    · rw [hother] at hsome
      rcases hcomputed request next hsome with hbefore | ⟨hnext, -⟩
      · exact h.computed call (mem_of_getElem? hcall) request next hbefore
      · exact hnext
  · intro j other hother happ
    rw [hreplaced]
    rw [hcalls] at hother
    rcases getElem?_set_cases hother with ⟨hji, hother⟩ | ⟨-, hother⟩
    · rw [hji]
      exact h.applied i call hcall (happlied (hother ▸ happ))
    · exact h.applied j other hother happ

variable {other : OverrideCall} {request : ApplyTopologyOverrideRequest} {next : Overrides}

theorem mem_set_of_ne (hcall : calls[i]? = some call) (hother : other ∈ calls)
    (hne : other ≠ call) :
    other ∈ calls.set i call' := by
  obtain ⟨j, hj⟩ := mem_iff_getElem?.mp hother
  have hji : i ≠ j := fun hij => hne (some.inj ((hij ▸ hj).symm.trans hcall))
  exact mem_of_getElem? ((getElem?_set_ne hji).trans hj)

/-- A call goes on that neither appends its entry, nor puts its map in memory, nor ends the write of
the snapshot. -/
theorem FilesInv.setCall {made : Overrides} (h : FilesInv disk calls made)
    (hcall : calls[i]? = some call)
    (hcut : call.cut = false ∨ Untouched call .nothing)
    (hreplacing : ∀ request next, call' ≠ .replacing request next)
    (hlogged : call'.logged = true → call.logged = true) :
    FilesInv disk (calls.set i call') made := by
  have hnot : (∀ request next, call ≠ .replacing request next) ∧ ∀ saved, call ≠ .saving saved := by
    rcases hcut with hcut | ⟨-, request, next, rfl⟩
    · constructor
      · intro request next heq
        rw [heq] at hcut
        exact Bool.noConfusion hcut
      · intro saved heq
        rw [heq] at hcut
        exact Bool.noConfusion hcut
    · exact ⟨nofun, nofun⟩
  refine ⟨?_, ?_, ?_, ?_⟩
  · intro hnone
    apply h.tells
    intro request next hmem
    exact hnone request next (mem_set_of_ne hcall hmem (hnot.1 request next).symm)
  · intro request next hmem
    rcases mem_or_eq_of_mem_set hmem with hmem | heq
    · exact h.ahead request next hmem
    · exact absurd heq.symm (hreplacing request next)
  · intro other hother hlog
    rcases mem_or_eq_of_mem_set hother with hother | heq
    · exact h.logged other hother hlog
    · exact h.logged call (mem_of_getElem? hcall) (hlogged (heq ▸ hlog))
  · intro htorn
    obtain ⟨saved, hmem⟩ := h.torn htorn
    exact ⟨saved, mem_set_of_ne hcall hmem (hnot.2 saved).symm⟩

/-- A call that has appended its entry and put its map in memory writes the snapshot, or part of
it. -/
theorem FilesInv.snapshot {disk : TopologyDisk} {calls : List OverrideCall} {made : Overrides}
    (h : FilesInv disk calls made) (snapshot : SnapshotFile) (hcall : calls[i]? = some call)
    (hlogged : call.logged = true) (hreplacing : ∀ request next, call ≠ .replacing request next)
    (hreplacing' : ∀ request next, call' ≠ .replacing request next)
    (htorn : snapshot = .torn → ∃ saved,
    call' = .saving saved) :
    FilesInv { disk with snapshot := some snapshot } (calls.set i call') made := by
  have hlines := h.logged call (mem_of_getElem? hcall) hlogged
  refine ⟨?_, ?_, fun _ _ _ => hlines, ?_⟩
  · intro hnone
    apply Tells.snapshot _ hlines
    apply h.tells
    intro request next hmem
    exact hnone request next (mem_set_of_ne hcall hmem (hreplacing request next).symm)
  · intro request next hmem
    rcases mem_or_eq_of_mem_set hmem with hmem | heq
    · exact (h.ahead request next hmem).snapshot hlines _
    · exact absurd heq.symm (hreplacing' request next)
  · intro htorn'
    obtain ⟨saved, hsaving⟩ := htorn (some.inj htorn')
    exact ⟨saved, hsaving ▸ mem_of_getElem? (getElem?_set_self_of hcall)⟩

/-- No other call has a computed map. -/
theorem CallsInv.only (h : CallsInv s) (hcall : s.calls[i]? = some call)
    (hcomputed : call.computed = some (request, next)) {j : Nat} (hother : s.calls[j]? = some other)
    (hne : j ≠ i) :
    other.computed = none := by
  by_contra hsome
  exact hne (h.one j i other call hother hcall (isSome_iff_ne_none.mpr hsome) (by rw [hcomputed]; rfl))

/-- The entry of a call is in the log. -/
theorem Inv.append {request : ApplyTopologyOverrideRequest} {next : Overrides}
    (h : Inv s) (hup : s.live ≠ none) (hcall : s.calls[i]? = some (.writing request next))
    (reason : String) :
    Inv ({ s with disk := s.disk.append config reason request next .all }.setCall i (.replacing request next)) := by
  refine ⟨h.calls.setCall rfl hup rfl hcall rfl (fun _ _ h => .inl h) nofun, ⟨?_, ?_, ?_, ?_⟩, h.held⟩
  · intro hnone
    exact absurd (mem_of_getElem? (getElem?_set_self_of hcall)) (hnone request next)
  · intro request' next' hmem
    obtain ⟨j, hj⟩ := mem_iff_getElem?.mp hmem
    rcases getElem?_set_cases hj with ⟨-, heq⟩ | ⟨hne, hj⟩
    · cases heq
      obtain ⟨overrides, htells⟩ := h.files.readable
      exact htells.append config reason request next
    · exact absurd (h.calls.only hcall rfl hj hne) nofun
  · intro other _ _
    obtain ⟨overrides, entries, hlog, -⟩ := h.files.readable
    show (s.disk.log.write _ .all).lines ≠ []
    rw [hlog]
    simp [TopologyLog.write]
  · intro htorn
    obtain ⟨saved, hmem⟩ := h.files.torn htorn
    exact ⟨saved, mem_set_of_ne hcall hmem nofun⟩

/-- The map of a call is in memory. -/
theorem Inv.replace (h : Inv s) (hcall : s.calls[i]? = some
    (.replacing request next)) : Inv ({ s with
      live := some next
      replaced := s.replaced ++ [(i, request)]
      held := s.held ++ [next] }.setCall i .persisting) := by
  have hnext : next = buildTopologyOverridesAfterRequest s.made request :=
    h.calls.computed _ (mem_of_getElem? hcall) request next rfl
  have hmade : TopologyOverrides.made ((s.replaced ++ [(i, request)]).map (·.2)) = next := by
    rw [hnext, map_append]
    exact made_append _ request
  have hnone : ∀ other ∈ s.calls.set i .persisting, other.computed = none := by
    intro other hother
    obtain ⟨j, hj⟩ := mem_iff_getElem?.mp hother
    rcases getElem?_set_cases hj with ⟨-, heq⟩ | ⟨hne, hj⟩
    · rw [heq]
      rfl
    · exact h.calls.only hcall rfl hj hne
  refine ⟨⟨?_, nofun, ?_, ?_, ?_⟩, ⟨?_, ?_, ?_, ?_⟩, ?_⟩
  · intro overrides hlive
    cases hlive
    exact hmade.symm
  · intro j k callj callk hj hk hsome
    have hcomputed := hnone callj (mem_of_getElem? hj)
    rw [hcomputed] at hsome
    exact Bool.noConfusion hsome
  · intro other hother request' next' hsome
    rw [hnone other hother] at hsome
    cases hsome
  · intro j other hother happ
    rcases getElem?_set_cases hother with ⟨hji, -⟩ | ⟨-, hother⟩
    · exact ⟨request, mem_append_right _ (by rw [hji]; exact mem_singleton.mpr rfl)⟩
    · obtain ⟨request', hmem⟩ := h.calls.applied j other hother happ
      exact ⟨request', mem_append_left _ hmem⟩
  · intro _
    show Tells s.disk (TopologyOverrides.made ((s.replaced ++ [(i, request)]).map (·.2)))
    rw [hmade]
    exact h.files.ahead request next (mem_of_getElem? hcall)
  · intro request' next' hmem
    exact absurd (hnone _ hmem) nofun
  · intro other hother hlog
    exact h.files.logged _ (mem_of_getElem? hcall) rfl
  · intro htorn
    obtain ⟨saved, hmem⟩ := h.files.torn htorn
    exact ⟨saved, mem_set_of_ne hcall hmem nofun⟩
  · show TopologyOverrides.made ((s.replaced ++ [(i, request)]).map (·.2)) ∈ s.held ++ [next]
    rw [hmade]
    exact mem_append_right _ (mem_singleton.mpr rfl)

theorem Inv.finish {overrides : Overrides} (h : Inv s) (hlive : s.live = some overrides)
    (hcall : s.calls[i]? = some .refreshing) :
    Inv ({ s with held := [overrides] }.setCall i (.returned (.ok ()))) := by
  refine ⟨h.calls.setCall rfl (by rw [hlive]; nofun) rfl hcall rfl nofun fun _ => rfl, ?_, ?_⟩
  · exact h.files.setCall hcall (.inl rfl) nofun nofun
  · rw [h.calls.live overrides hlive]
    exact mem_singleton.mpr rfl

/-- A call ends without a change, or goes on to what changes nothing. -/
theorem Inv.setCall (h : Inv s) (hup : s.live ≠ none) (hcall : s.calls[i]? = some call)
    (hcut : call.cut = false ∨ Untouched call .nothing)
    (hreplacing : ∀ request next, call' ≠ .replacing request next)
    (hcomputed : ∀ request next, call'.computed = some (request, next) →
      call.computed = some (request, next) ∨
    next = buildTopologyOverridesAfterRequest s.made request ∧ ∀ call ∈ s.calls,
      call.computed = none)
    (hlogged : call'.logged = true → call.logged = true)
    (happlied : call'.applied = true → call.applied = true) :
    Inv (s.setCall i call') :=
  ⟨h.calls.setCall rfl hup rfl hcall rfl hcomputed happlied, h.files.setCall hcall hcut hreplacing hlogged, h.held⟩

theorem stop_spec (call : OverrideCall) (hactive : call.active = true) :
    call.stop.computed = none ∧ call.stop.logged = false ∧ call.stop.applied = false := by
  rw [OverrideCall.stop, if_pos hactive]
  exact ⟨rfl, rfl, rfl⟩

theorem active_stop (call : OverrideCall) : call.stop.active = false := by
  rw [OverrideCall.stop]
  split
  · rfl
  · next h => exact Bool.eq_false_iff.mpr h

theorem Inv.crash (h : Inv s) (hcut : ∀ call ∈ s.calls, call.cut = false) :
    Inv { s with live := none, calls := s.calls.map OverrideCall.stop } := by
  have hstop : ∀ other ∈ s.calls.map OverrideCall.stop, other.active = false := by
    intro other hother
    obtain ⟨call, -, rfl⟩ := mem_map.mp hother
    exact active_stop call
  have hended : ∀ other ∈ s.calls.map OverrideCall.stop, other.computed = none ∧ other.logged = false := by
    intro other hother
    have := hstop other hother
    cases other <;> first | exact ⟨rfl, rfl⟩ | cases this
  have htorn : s.disk.snapshot ≠ some .torn := by
    intro htorn
    obtain ⟨saved, hmem⟩ := h.files.torn htorn
    exact Bool.noConfusion (hcut _ hmem)
  refine ⟨⟨nofun, fun _ => hstop, ?_, ?_, ?_⟩, ⟨?_, ?_, ?_, fun h => absurd h htorn⟩, h.held⟩
  · intro j k callj callk hj hk hsome
    rw [(hended callj (mem_of_getElem? hj)).1] at hsome
    exact Bool.noConfusion hsome
  · intro other hother request next hsome
    rw [(hended other hother).1] at hsome
    cases hsome
  · intro j other hother happ
    rw [getElem?_map] at hother
    obtain ⟨call, hcall, rfl⟩ := map_eq_some_iff.mp hother
    apply h.calls.applied j call hcall
    by_cases hactive : call.active = true
    · rw [(stop_spec call hactive).2.2] at happ
      cases happ
    · rw [OverrideCall.stop, if_neg hactive] at happ
      exact happ
  · intro _
    apply h.files.tells
    intro request next hmem
    exact Bool.noConfusion (hcut _ hmem)
  · intro request next hmem
    exact absurd (hended _ hmem).1 nofun
  · intro other hother hlog
    rw [(hended other hother).2] at hlog
    cases hlog

theorem Inv.begin (h : Inv s) (hup : s.live ≠ none) (request : ApplyTopologyOverrideRequest) :
    Inv { s with calls := s.calls ++ [.normalizing request] } := by
  have hmem : ∀ other ∈ s.calls ++ [.normalizing request], other ∈ s.calls ∨ other = .normalizing request := by
    intro other hother
    rcases mem_append.mp hother with hother | hother
    · exact .inl hother
    · exact .inr (mem_singleton.mp hother)
  have hold : ∀ (j : Nat) (other : OverrideCall), (s.calls ++ [.normalizing request])[j]? = some other →
      other.computed.isSome = true → s.calls[j]? = some other := by
    intro j other hother hsome
    rcases getElem?_push_cases hother with hother | ⟨-, heq⟩
    · exact hother
    · rw [heq] at hsome
      cases hsome
  refine ⟨⟨h.calls.live, fun hdown => absurd hdown hup, ?_, ?_, ?_⟩, ⟨?_, ?_, ?_, ?_⟩, h.held⟩
  · intro j k callj callk hj hk hsomej hsomek
    exact h.calls.one j k callj callk (hold j callj hj hsomej) (hold k callk hk hsomek) hsomej hsomek
  · intro other hother request' next hsome
    rcases hmem other hother with hother | heq
    · exact h.calls.computed other hother request' next hsome
    · rw [heq] at hsome
      cases hsome
  · intro j other hother happ
    rcases getElem?_push_cases hother with hother | ⟨-, heq⟩
    · exact h.calls.applied j other hother happ
    · rw [heq] at happ
      cases happ
  · intro hnone
    apply h.files.tells
    intro request' next hother
    exact hnone request' next (mem_append_left _ hother)
  · intro request' next hother
    rcases hmem _ hother with hother | heq
    · exact h.files.ahead request' next hother
    · cases heq
  · intro other hother hlog
    rcases hmem other hother with hother | heq
    · exact h.files.logged other hother hlog
    · rw [heq] at hlog
      cases hlog
  · intro htorn
    obtain ⟨saved, hother⟩ := h.files.torn htorn
    exact ⟨saved, mem_append_left _ hother⟩

theorem CallsInv.down_cut (h : CallsInv s) (hdown : s.live = none) :
    ∀ call ∈ s.calls, call.cut = false := by
  intro call hcall
  have hended := h.down hdown call hcall
  cases call <;> first | rfl | cases hended

/-- The server starts again, with the map that it had. -/
theorem Inv.restart {overrides : Overrides}
    (h : Inv s) (hdown : s.live = none) (hload : loadTopologyOverrides s.disk = .ok overrides) :
    Inv { s with live := some overrides, held := s.held ++ [overrides] } := by
  have hmade := h.files.load (h.calls.down_cut hdown)
  rw [hload] at hmade
  cases hmade
  refine ⟨⟨?_, nofun, h.calls.one, h.calls.computed, h.calls.applied⟩, h.files, mem_append_left _ h.held⟩
  intro overrides hlive
  exact (some.inj hlive).symm

theorem Inv.step {event : ServerEvent} (h : Inv s) (hmeets : Meets s event)
    (hs : ServerStep config walShards s event s') : Inv s' := by
  cases hs with
  | call hlive => exact h.begin (by rw [hlive]; nofun) _
  | moves hlive hcall hmoves =>
    have hup : s.live ≠ none := by rw [hlive]; nofun
    cases hmoves with
    | normalize | refuse => exact h.setCall hup hcall (.inl rfl) nofun nofun nofun nofun
    | build =>
      refine h.setCall hup hcall (.inl rfl) nofun ?_ nofun nofun
      intro request' next' hcomputed
      cases hcomputed
      rw [h.calls.live _ hlive]
      exact .inr ⟨rfl, hmeets _ hcall⟩
    | «open» => exact h.setCall hup hcall (.inl rfl) nofun (fun _ _ h => .inl h) nofun nofun
  | append hlive hcall => exact h.append (by rw [hlive]; nofun) hcall _
  | replace hlive hcall hlock => exact h.replace hcall
  | truncate hlive hcall =>
    refine ⟨h.calls.setCall rfl (by rw [hlive]; nofun) rfl hcall rfl nofun fun _ => rfl, ?_, h.held⟩
    exact h.files.snapshot .torn hcall rfl nofun nofun fun _ => ⟨_, rfl⟩
  | save hlive hcall =>
    refine ⟨h.calls.setCall rfl (by rw [hlive]; nofun) rfl hcall rfl nofun fun _ => rfl, ?_, h.held⟩
    exact h.files.snapshot (.whole _) hcall rfl nofun nofun nofun
  | finish hlive hcall => exact h.finish hlive hcall
  | fail hlive hcall hfails =>
    have hup : s.live ≠ none := by rw [hlive]; nofun
    rcases hmeets _ hcall with ⟨request, next, rfl⟩ | ⟨-, request, next, rfl⟩
    · exact h.setCall hup hcall (.inl rfl) nofun nofun nofun nofun
    · rcases hfails with ⟨request', next', heq⟩ | hreplaced
      · cases heq
      · cases hreplaced
  | failWriting hlive hcall =>
    have hup : s.live ≠ none := by rw [hlive]; nofun
    rcases hmeets _ hcall with ⟨request, next, heq⟩ | ⟨rfl, -⟩
    · cases heq
    · exact h.setCall hup hcall (.inr ⟨rfl, _, _, rfl⟩) nofun nofun nofun nofun
  | failUnseen _ _ => exact hmeets.elim
  | drop hlive hcall hactive hwriting =>
    have hup : s.live ≠ none := by rw [hlive]; nofun
    obtain ⟨hcomputed, hlogged, happlied⟩ := stop_spec _ hactive
    rcases hmeets _ hcall with hcut | ⟨-, request, next, heq⟩
    · refine h.setCall hup hcall (.inl hcut) ?_ ?_ ?_ ?_
      · intro request next heq
        rw [heq] at hcomputed
        cases hcomputed
      · intro request next hsome
        rw [hcomputed] at hsome
        cases hsome
      · intro hlog
        rw [hlogged] at hlog
        cases hlog
      · intro happ
        rw [happlied] at happ
        cases happ
    · exact absurd heq (hwriting request next)
  | dropWriting hlive hcall =>
    have hup : s.live ≠ none := by rw [hlive]; nofun
    rcases hmeets _ hcall with hcut | ⟨rfl, -⟩
    · cases hcut
    · exact h.setCall hup hcall (.inr ⟨rfl, _, _, rfl⟩) nofun nofun nofun nofun
  | crash hlive => exact h.crash hmeets
  | restart hdown hload => exact h.restart hdown hload

end Steps

/-! ## What the calls keep -/

/-- No override is lost. -/
theorem overrides_kept (config : ClusterConfig) (walShards : Nat) {s : ServerState}
    (h : Reaches (ServerStep config walShards) Meets .initial s) : Kept s := by
  have hinv : Inv s := h.invariant (fun _ _ _ hs hmeets hstep => hs.step hmeets hstep) .initial
  constructor
  · intro overrides hlive i hcall
    obtain ⟨request, hmem⟩ := hinv.calls.applied i _ hcall rfl
    obtain ⟨before, later, hreplaced⟩ := append_of_mem hmem
    refine ⟨before, request, later, hreplaced, ?_⟩
    rw [hinv.calls.live overrides hlive, ServerState.made, hreplaced, map_append]
    exact reflects_made (before.map (·.2)) (later.map (·.2)) request
  · intro hdown
    exact ⟨s.made, hinv.held, hinv.files.load (hinv.calls.down_cut hdown)⟩

/-! ## Runs that are computed -/

/-- A call goes on, and every file is written whole. -/
def ServerState.advance (config : ClusterConfig) (walShards : Nat) (s : ServerState) (i : Nat) :
    Option ServerState := do
  let overrides ← s.live
  match ← s.calls[i]? with
  | .normalizing request =>
    match normalizeTopologyOverrideRequest config walShards overrides request with
    | .ok normalized => return s.setCall i (.building normalized)
    | .error err => return s.setCall i (.returned (.error err))
  | .building request =>
    return s.setCall i (.appending request (buildTopologyOverridesAfterRequest overrides request))
  | .appending request next => return s.setCall i (.writing request next)
  | .writing request next =>
    return { s with disk := s.disk.append config "" request next .all }.setCall i (.replacing request next)
  | .replacing request next =>
    if s.calls.all fun call => !(call matches .saving _) then
      return { s with
        live := some next
        replaced := s.replaced ++ [(i, request)]
        held := s.held ++ [next] }.setCall i .persisting
    else none
  | .persisting => return { s with disk := { s.disk with snapshot := some .torn } }.setCall i (.saving overrides)
  | .saving saved => return { s with disk := { s.disk with snapshot := some (.whole saved) } }.setCall i .refreshing
  | .refreshing => return { s with held := [overrides] }.setCall i (.returned (.ok ()))
  | .returned _ | .stopped _ => none

def ServerState.next (config : ClusterConfig) (walShards : Nat) (s : ServerState) :
    ServerEvent → Option ServerState
  | .call request => if s.live.isSome then some { s with calls := s.calls ++ [.normalizing request] } else none
  | .advance i => s.advance config walShards i
  | .crash => if s.live.isSome then some { s with live := none, calls := s.calls.map OverrideCall.stop } else none
  | .restart =>
    match s.live, loadTopologyOverrides s.disk with
    | none, .ok overrides => some { s with live := some overrides, held := s.held ++ [overrides] }
    | _, _ => none
  | .fail _ _ | .failUnseen _ _ | .drop _ _ => none

theorem ServerStep.of_advance {i : Nat} (h : s.advance config walShards i = some t) :
    ServerStep config walShards s (.advance i) t := by
  obtain ⟨overrides, hlive, h⟩ := bind_eq_some_iff.mp h
  obtain ⟨call, hcall, h⟩ := bind_eq_some_iff.mp h
  cases call with
  | normalizing request =>
    dsimp only at h
    cases hnormalize : normalizeTopologyOverrideRequest config walShards overrides request with
    | ok normalized =>
      rw [hnormalize] at h
      cases h
      exact .moves hlive hcall (.normalize hnormalize)
    | error err =>
      rw [hnormalize] at h
      cases h
      exact .moves hlive hcall (.refuse hnormalize)
  | building request =>
    cases h
    exact .moves hlive hcall .build
  | appending request next =>
    cases h
    exact .moves hlive hcall .open
  | writing request next =>
    cases h
    exact .append hlive hcall
  | replacing request next =>
    dsimp only at h
    split at h
    · next hlock =>
      cases h
      refine .replace hlive hcall fun saved hmem => ?_
      exact Bool.noConfusion (all_eq_true.mp hlock _ hmem)
    · cases h
  | persisting =>
    cases h
    exact .truncate hlive hcall
  | saving saved =>
    cases h
    exact .save hlive hcall
  | refreshing =>
    cases h
    exact .finish hlive hcall
  | returned | stopped => cases h

theorem ServerStep.of_next (h : s.next config walShards event = some t) :
    ServerStep config walShards s event t := by
  cases event with
  | call request =>
    dsimp only [ServerState.next] at h
    split at h
    · next hlive =>
      cases h
      obtain ⟨overrides, hlive⟩ := isSome_iff_exists.mp hlive
      exact .call hlive
    · cases h
  | advance i => exact .of_advance h
  | crash =>
    dsimp only [ServerState.next] at h
    split at h
    · next hlive =>
      cases h
      obtain ⟨overrides, hlive⟩ := isSome_iff_exists.mp hlive
      exact .crash hlive
    · cases h
  | restart =>
    dsimp only [ServerState.next] at h
    split at h
    · next overrides hdown hload =>
      cases h
      exact .restart hdown hload
    · cases h
  | fail | failUnseen | drop => cases h

/-! ### A node with two shards -/

section Sample

def node : ClusterConfig := ⟨"a", ∅, [], [], []⟩

def raises (shard epoch : Nat) : ApplyTopologyOverrideRequest := ⟨shard, none, some epoch, none⟩

/-- No call computes a map while another holds one. -/
def checkEvent (s : ServerState) : ServerEvent → Bool
  | .advance i => !(s.calls[i]? matches some (.building _)) || s.calls.all (·.computed.isNone)
  | .crash => s.calls.all (!·.cut)
  | _ => true

theorem meets_of_next (h : s.next node 2 event = some t) (hcheck : checkEvent s event = true) :
    Meets s event := by
  cases event with
  | advance i =>
    intro request hcall call hmem
    simp only [checkEvent, hcall, Bool.not_true, Bool.false_or] at hcheck
    exact isNone_iff_eq_none.mp (all_eq_true.mp hcheck call hmem)
  | crash =>
    intro call hmem
    exact Bool.not_eq_true' _ ▸ all_eq_true.mp hcheck call hmem
  | call | restart => trivial
  | fail | failUnseen | drop => cases h

def finished (call : OverrideCall) : Bool := call matches .returned (.ok ())

theorem finished_ok {call : OverrideCall} (h : finished call = true) :
    call = .returned (.ok ()) := by
  unfold finished at h
  split at h
  · rfl
  · cases h

/-- A call raises the epoch of a shard and returns, and then another, and the server stops. -/
theorem overrides_kept_sample : ∃ s, s.live = none ∧ s.replaced.length = 2 ∧ Kept s := by
  have hrun : (run (ServerState.next node 2) checkEvent .initial
      ([.restart, .call (raises 0 2)] ++ replicate 8 (.advance 0) ++ [.call (raises 1 2)] ++
        replicate 8 (.advance 1) ++ [.crash])).any
      (fun s => decide (s.live.isNone = true ∧ s.replaced.length = 2)) = true := by
    decide +kernel
  obtain ⟨s, hs, hfacts⟩ := (any_eq_true _ _).mp hrun
  obtain ⟨hdown, htwo⟩ := of_decide_eq_true hfacts
  have hreaches : Reaches (ServerStep node 2) Meets .initial s :=
    Reaches.of_actions (fun u event v hnext hcheck => ⟨event, meets_of_next hnext hcheck, .of_next hnext⟩) hs
  exact ⟨s, isNone_iff_eq_none.mp hdown, htwo, overrides_kept node 2 hreaches⟩

/-- Two calls raise the epochs of two shards. Both compute their maps from the map of the start, and
the one that puts its map in memory last takes the override of the other away. -/
theorem override_lost : ¬∀ (config : ClusterConfig) (walShards : Nat) (s : ServerState),
    Reaches (ServerStep config walShards) (fun _ _ => True) .initial s → Kept s := by
  intro h
  have hrun : (run (ServerState.next node 2) (fun _ _ => true) .initial
      ([.restart, .call (raises 0 2), .call (raises 1 2)] ++ replicate 2 (.advance 0) ++
        replicate 8 (.advance 1) ++ replicate 6 (.advance 0))).any
      (fun s => s.calls[1]?.any finished && s.replaced.all (fun replaced => replaced.1 == replaced.2.shard) &&
        s.live.any fun overrides => overrides[1]?.isNone) = true := by
    decide +kernel
  obtain ⟨s, hs, hfacts⟩ := (any_eq_true _ _).mp hrun
  obtain ⟨hfacts, hlost⟩ := Bool.and_eq_true_iff.mp hfacts
  obtain ⟨hfinished, hshards⟩ := Bool.and_eq_true_iff.mp hfacts
  obtain ⟨overrides, hlive, hlost⟩ := (any_eq_true _ _).mp hlost
  obtain ⟨call, hcall, hfinished⟩ := (any_eq_true _ _).mp hfinished
  have hreturned : call = .returned (.ok ()) := finished_ok hfinished
  have hreaches : Reaches (ServerStep node 2) (fun _ _ => True) .initial s :=
    Reaches.of_actions (fun u event v hnext _ => ⟨event, trivial, .of_next hnext⟩) hs
  obtain ⟨before, request, later, hreplaced, entry, -, hentry⟩ :=
    (h node 2 s hreaches).1 overrides hlive 1 (hreturned ▸ hcall)
  have hmem : (1, request) ∈ s.replaced := by
    rw [hreplaced]
    exact mem_append_right _ mem_cons_self
  have hshard : 1 = request.shard := eq_of_beq (all_eq_true.mp hshards _ hmem)
  rw [← hshard, isNone_iff_eq_none.mp hlost] at hentry
  cases hentry

end Sample

end NextDb.Api.TopologyOverrides
