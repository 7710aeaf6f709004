import Mathlib.Algebra.BigOperators.Fin
import Mathlib.Algebra.Order.BigOperators.Group.Multiset
import NextDb.Actor.Room
import NextDb.Lib.Run

/-!
# Counting the resident rooms

The rooms live in shards, each of which serves one request after the other, and
`resident_rooms` counts them from outside: a call adds what its request created, or
takes off what its requests removed, after the replies. The calls run side by side,
and a `Call` is what one of them still has to do.

* `residentRooms_eq`: with no call in flight the counter is the number of rooms, in
  every run in which no decrement is cut off at zero and every eviction of all rooms
  removes as many as it listed.
-/

namespace NextDb.Actor.Resident

open Run List Function Std

/-! ## The requests to a shard -/

structure RoomActor where
  room : RoomLiveState
  lastAccessedMs : Nat

/-- The rooms among the actors of a shard. -/
abbrev ShardRooms := HashMap String RoomActor

structure RoomLruCandidate (shards : Nat) where
  shardIndex : Fin shards
  roomId : String
  lastAccessedMs : Nat

/-- `ApplyMessages`: the rooms with the messages applied, and how many were created.
A room that is touched gets its new access stamp from `stamp`. -/
def ShardRooms.applyMessages (sort : MessageSort) (hotWindow : Nat) (stamp : String → Nat) :
    ShardRooms → List (String × List Message) → ShardRooms × Nat
  | rooms, [] => (rooms, 0)
  | rooms, (roomId, messages) :: batches =>
    let actor := rooms.getD roomId ⟨.new, stamp roomId⟩
    let applied : RoomActor :=
      ⟨actor.room.applyMessages sort messages hotWindow,
        if messages.isEmpty then actor.lastAccessedMs else stamp roomId⟩
    let (rooms', newRooms) := applyMessages sort hotWindow stamp (rooms.insert roomId applied) batches
    (rooms', newRooms + if roomId ∈ rooms then 0 else 1)

/-- `RunActorTurn` of a room, and whether it was created. -/
def ShardRooms.runActorTurn (rooms : ShardRooms) (roomId : String) (stamp : Nat) :
    ShardRooms × Bool :=
  (rooms.insert roomId ⟨(rooms.getD roomId ⟨.new, stamp⟩).room, stamp⟩, roomId ∉ rooms)

/-- `EvictRoom`, and whether it was there. -/
def ShardRooms.evictRoom (rooms : ShardRooms) (roomId : String) : ShardRooms × Bool :=
  (rooms.erase roomId, roomId ∈ rooms)

/-- `EvictRooms`, and how many were there. -/
def ShardRooms.evictRooms : ShardRooms → List String → ShardRooms × Nat
  | rooms, [] => (rooms, 0)
  | rooms, roomId :: roomIds =>
    let (rooms', evicted) := evictRooms (rooms.erase roomId) roomIds
    (rooms', evicted + if roomId ∈ rooms then 1 else 0)

/-- `EvictIdle`, and how many were removed. -/
def ShardRooms.evictIdle (rooms : ShardRooms) (hotRoomIdleTtlMs nowMs : Nat) : ShardRooms × Nat :=
  let kept := rooms.filter fun _ actor => nowMs - actor.lastAccessedMs ≤ hotRoomIdleTtlMs
  (kept, rooms.size - kept.size)

/-- `LruCandidates`: every room once, in some order. -/
structure LruCandidates {shards : Nat} (rooms : ShardRooms) (shardIndex : Fin shards)
    (candidates : List (RoomLruCandidate shards)) : Prop where
  nodup : (candidates.map RoomLruCandidate.roomId).Nodup
  shard : ∀ c ∈ candidates, c.shardIndex = shardIndex
  rooms : ∀ (roomId : String) (lastAccessedMs : Nat), ⟨shardIndex, roomId, lastAccessedMs⟩ ∈ candidates ↔
      (rooms[roomId]?).map RoomActor.lastAccessedMs = some lastAccessedMs

theorem ShardRooms.size_applyMessages (sort : MessageSort) (hotWindow : Nat) (stamp : String → Nat)
    (rooms : ShardRooms)
    (batches : List (String × List Message)) :
    (rooms.applyMessages sort hotWindow stamp batches).1.size = rooms.size +
    (rooms.applyMessages sort hotWindow stamp batches).2 := by
  induction batches generalizing rooms with
  | nil => rfl
  | cons batch batches ih =>
    rw [applyMessages]
    dsimp only
    rw [ih, ExtHashMap.size_insert]
    split <;> omega

theorem ShardRooms.size_runActorTurn (rooms : ShardRooms) (roomId : String) (stamp : Nat) :
    (rooms.runActorTurn roomId stamp).1.size =
    rooms.size + if (rooms.runActorTurn roomId stamp).2 then 1 else 0 := by
  rw [runActorTurn, ExtHashMap.size_insert]
  by_cases h : roomId ∈ rooms <;> simp [h]

theorem ShardRooms.size_erase (rooms : ShardRooms) (roomId : String) :
    (rooms.erase roomId).size + (if roomId ∈ rooms then 1 else 0) = rooms.size := by
  rw [ExtHashMap.size_erase]
  split
  · next h =>
    have : rooms.size ≠ 0 := fun hz => by
      rw [ExtHashMap.eq_empty_iff_size_eq_zero.mpr hz] at h
      exact ExtHashMap.not_mem_empty h
    omega
  · rfl

theorem ShardRooms.size_evictRooms (rooms : ShardRooms) (roomIds : List String) :
    (rooms.evictRooms roomIds).1.size + (rooms.evictRooms roomIds).2 = rooms.size := by
  induction roomIds generalizing rooms with
  | nil => rfl
  | cons roomId roomIds ih =>
    have herase := size_erase rooms roomId
    have ih := ih (rooms.erase roomId)
    rw [evictRooms]
    dsimp only
    omega

theorem ShardRooms.size_evictIdle (rooms : ShardRooms) (hotRoomIdleTtlMs nowMs : Nat) :
    (rooms.evictIdle hotRoomIdleTtlMs nowMs).1.size + (rooms.evictIdle hotRoomIdleTtlMs nowMs).2 =
    rooms.size := by
  have hle : (rooms.evictIdle hotRoomIdleTtlMs nowMs).1.size ≤ rooms.size :=
    ExtHashMap.size_filter_le_size
  show _ + (rooms.size - (rooms.evictIdle hotRoomIdleTtlMs nowMs).1.size) = _
  omega

/-! ## The calls -/

variable {shards : Nat}

/-- What a call still has to do. `idle` is what `evict_with_config` does after the
LRU eviction, and `removed` is how many rooms an eviction of all rooms has removed,
which the server does not keep. -/
inductive Call (shards : Nat) where
  | apply (byShard : List (Fin shards × List (String × List Message))) (hotWindow maxHotRooms : Nat)
  | count (newRooms : Nat) (byShard : List (Fin shards × List (String × List Message)))
      (hotWindow maxHotRooms : Nat)
  | turn (roomId : String) (maxHotRooms : Nat)
  | countTurn (maxHotRooms : Nat)
  | enforceCapacity (maxHotRooms : Nat)
  | list (maxHotRooms : Nat) (rest : List (Fin shards)) (candidates : List (RoomLruCandidate shards))
      (idle : Option (Nat × Nat))
  | relist (totalRooms removed : Nat) (rest : List (Fin shards)) (idle : Option (Nat × Nat))
  | clear (totalRooms removed : Nat) (shardIndex : Fin shards) (roomIds : List String)
      (rest : List (Fin shards)) (idle : Option (Nat × Nat))
  | evict (byShard : List (Fin shards × List String)) (evicted : Nat) (idle : Option (Nat × Nat))
  | evictIdle (rest : List (Fin shards)) (hotRoomIdleTtlMs nowMs evicted : Nat)
  | evictRoom (roomId : String)
  | decrement (evicted : Nat)

/-- The items by shard, the shards in the order of their first item. -/
def groupByShard {α : Type} (shardOf : α → Fin shards) (items : List α) :
    List (Fin shards × List α) :=
  (items.map shardOf).dedup.map fun k => (k, items.filter fun item => shardOf item = k)

/-- The messages by room and the rooms by shard, both in some order. -/
def ByShard (shard : String → Fin shards) (messages : List Message)
    (byShard : List (Fin shards × List (String × List Message))) : Prop :=
  ∃ byActor : List (String × List Message), byActor.Perm ((messages.map Message.roomId).dedup.map fun roomId =>
      (roomId, messages.filter fun m => m.roomId = roomId)) ∧
    byShard.Perm (groupByShard (fun batch => shard batch.1) byActor)

/-- The calls, as they start. The limits are read from the configuration first, which
can change between calls. -/
inductive Starts (shard : String → Fin shards) : Call shards → Prop where
  | applyMessages {messages byShard}
      (hotWindow maxHotRooms : Nat) (hne : messages ≠ []) (hby : ByShard shard messages byShard) :
      Starts shard (.apply byShard hotWindow maxHotRooms)
  | runActorTurn (roomId : String) (maxHotRooms : Nat) : Starts shard (.turn roomId maxHotRooms)
  | enforceCapacity (maxHotRooms : Nat) : Starts shard (.enforceCapacity maxHotRooms)
  | evictWithConfig (maxHotRooms hotRoomIdleTtlMs nowMs : Nat) :
      Starts shard (.list maxHotRooms (List.finRange shards) [] (some (hotRoomIdleTtlMs, nowMs)))
  | evictIdleRooms (hotRoomIdleTtlMs nowMs : Nat) (httl : hotRoomIdleTtlMs ≠ 0) :
      Starts shard (.evictIdle (List.finRange shards) hotRoomIdleTtlMs nowMs 0)
  | evictRoom (roomId : String) : Starts shard (.evictRoom roomId)

/-- The candidate evicted first. -/
def lruLe (left right : RoomLruCandidate shards) : Bool :=
  ((compare left.lastAccessedMs right.lastAccessedMs).then
    ((compare left.roomId right.roomId).then (compare left.shardIndex right.shardIndex))).isLE

def afterLru (evicted : Nat) : Option (Nat × Nat) → Call shards
  | none => .decrement evicted
  | some (hotRoomIdleTtlMs, nowMs) =>
    if hotRoomIdleTtlMs = 0 then .decrement evicted
    else .evictIdle (List.finRange shards) hotRoomIdleTtlMs nowMs evicted

/-- `evict_lru_sharded_rooms`, when every shard has listed its rooms. -/
inductive AfterListing (maxHotRooms : Nat) (candidates : List (RoomLruCandidate shards))
    (idle : Option (Nat × Nat)) : Call shards → Prop where
  | within (h : candidates.length - maxHotRooms = 0) :
      AfterListing maxHotRooms candidates idle (afterLru 0 idle)
  | all (h : candidates.length - maxHotRooms ≠ 0) (hmax : maxHotRooms = 0) :
      AfterListing maxHotRooms candidates idle (.relist candidates.length 0 (List.finRange shards) idle)
  | oldest {byShard : List (Fin shards × List (RoomLruCandidate shards))}
      (h : candidates.length - maxHotRooms ≠ 0) (hmax : maxHotRooms ≠ 0)
      (hby : byShard.Perm (groupByShard RoomLruCandidate.shardIndex
        ((candidates.mergeSort lruLe).take (candidates.length - maxHotRooms)))) :
      AfterListing maxHotRooms candidates idle
        (.evict (byShard.map fun (k, cs) => (k, cs.map RoomLruCandidate.roomId)) 0 idle)

/-- One request of a call, or one access to the counter: the shards, the counter and
what is left of the call. -/
inductive CallStep (sort : MessageSort) (shard : String → Fin shards) :
    (Fin shards → ShardRooms) → Nat → Call shards → (Fin shards → ShardRooms) → Nat →
    Option (Call shards) → Prop where
  | apply (rooms : Fin shards → ShardRooms) (resident : Nat) (k : Fin shards)
      (batch : List (String × List Message)) (byShard : List (Fin shards × List (String × List Message)))
      (hotWindow maxHotRooms : Nat) (stamp : String → Nat) :
      CallStep sort shard rooms resident (.apply ((k, batch) :: byShard) hotWindow maxHotRooms)
        (Function.update rooms k ((rooms k).applyMessages sort hotWindow stamp batch).1) resident
        (some (.count ((rooms k).applyMessages sort hotWindow stamp batch).2 byShard hotWindow maxHotRooms))
  | count (rooms : Fin shards → ShardRooms) (resident newRooms : Nat)
      (byShard : List (Fin shards × List (String × List Message))) (hotWindow maxHotRooms : Nat) :
      CallStep sort shard rooms resident (.count newRooms byShard hotWindow maxHotRooms)
        rooms (resident + newRooms) (some (.apply byShard hotWindow maxHotRooms))
  | applied (rooms : Fin shards → ShardRooms) (resident hotWindow maxHotRooms : Nat) :
      CallStep sort shard rooms resident (.apply [] hotWindow maxHotRooms)
        rooms resident (some (.enforceCapacity maxHotRooms))
  | turn (rooms : Fin shards → ShardRooms) (resident : Nat) (roomId : String) (maxHotRooms stamp : Nat) :
      CallStep sort shard rooms resident (.turn roomId maxHotRooms)
        (Function.update rooms (shard roomId) ((rooms (shard roomId)).runActorTurn roomId stamp).1) resident
        (if ((rooms (shard roomId)).runActorTurn roomId stamp).2 then some (.countTurn maxHotRooms) else none)
  | countTurn (rooms : Fin shards → ShardRooms) (resident maxHotRooms : Nat) :
      CallStep sort shard rooms resident (.countTurn maxHotRooms)
        rooms (resident + 1) (some (.enforceCapacity maxHotRooms))
  | within (rooms : Fin shards → ShardRooms) (resident maxHotRooms : Nat) (h : resident ≤ maxHotRooms) :
      CallStep sort shard rooms resident (.enforceCapacity maxHotRooms) rooms resident none
  | exceeds (rooms : Fin shards → ShardRooms) (resident maxHotRooms : Nat) (h : ¬resident ≤ maxHotRooms) :
      CallStep sort shard rooms resident (.enforceCapacity maxHotRooms)
        rooms resident (some (.list maxHotRooms (List.finRange shards) [] none))
  | list (rooms : Fin shards → ShardRooms) (resident maxHotRooms : Nat) (k : Fin shards)
      (rest : List (Fin shards)) (candidates listed : List (RoomLruCandidate shards))
      (idle : Option (Nat × Nat)) (h : LruCandidates (rooms k) k listed) :
      CallStep sort shard rooms resident (.list maxHotRooms (k :: rest) candidates idle)
        rooms resident (some (.list maxHotRooms rest (candidates ++ listed) idle))
  | listed (rooms : Fin shards → ShardRooms) (resident maxHotRooms : Nat)
      (candidates : List (RoomLruCandidate shards)) (idle : Option (Nat × Nat)) (call : Call shards)
      (h : AfterListing maxHotRooms candidates idle call) :
      CallStep sort shard rooms resident (.list maxHotRooms [] candidates idle) rooms resident (some call)
  | relist (rooms : Fin shards → ShardRooms) (resident totalRooms removed : Nat) (k : Fin shards)
      (rest : List (Fin shards)) (listed : List (RoomLruCandidate shards)) (idle : Option (Nat × Nat))
      (h : LruCandidates (rooms k) k listed) :
      CallStep sort shard rooms resident (.relist totalRooms removed (k :: rest) idle) rooms resident
        (some (.clear totalRooms removed k (listed.map RoomLruCandidate.roomId) rest idle))
  | clear (rooms : Fin shards → ShardRooms) (resident totalRooms removed : Nat) (k : Fin shards)
      (roomIds : List String) (rest : List (Fin shards)) (idle : Option (Nat × Nat)) :
      CallStep sort shard rooms resident (.clear totalRooms removed k roomIds rest idle)
        (Function.update rooms k ((rooms k).evictRooms roomIds).1) resident
        (some (.relist totalRooms (removed + ((rooms k).evictRooms roomIds).2) rest idle))
  | cleared (rooms : Fin shards → ShardRooms) (resident totalRooms removed : Nat)
      (idle : Option (Nat × Nat)) :
      CallStep sort shard rooms resident (.relist totalRooms removed [] idle)
        rooms resident (some (afterLru totalRooms idle))
  | evict (rooms : Fin shards → ShardRooms) (resident : Nat) (k : Fin shards) (roomIds : List String)
      (byShard : List (Fin shards × List String)) (evicted : Nat) (idle : Option (Nat × Nat)) :
      CallStep sort shard rooms resident (.evict ((k, roomIds) :: byShard) evicted idle)
        (Function.update rooms k ((rooms k).evictRooms roomIds).1) resident
        (some (.evict byShard (evicted + ((rooms k).evictRooms roomIds).2) idle))
  | evicted (rooms : Fin shards → ShardRooms) (resident evicted : Nat) (idle : Option (Nat × Nat)) :
      CallStep sort shard rooms resident (.evict [] evicted idle) rooms resident (some (afterLru evicted idle))
  | evictIdle (rooms : Fin shards → ShardRooms) (resident : Nat) (k : Fin shards)
      (rest : List (Fin shards)) (hotRoomIdleTtlMs nowMs evicted : Nat) :
      CallStep sort shard rooms resident (.evictIdle (k :: rest) hotRoomIdleTtlMs nowMs evicted)
        (Function.update rooms k ((rooms k).evictIdle hotRoomIdleTtlMs nowMs).1) resident
        (some (.evictIdle rest hotRoomIdleTtlMs nowMs (evicted + ((rooms k).evictIdle hotRoomIdleTtlMs nowMs).2)))
  | idleEvicted (rooms : Fin shards → ShardRooms) (resident hotRoomIdleTtlMs nowMs evicted : Nat) :
      CallStep sort shard rooms resident (.evictIdle [] hotRoomIdleTtlMs nowMs evicted)
        rooms resident (some (.decrement evicted))
  | evictRoom (rooms : Fin shards → ShardRooms) (resident : Nat) (roomId : String) :
      CallStep sort shard rooms resident (.evictRoom roomId)
        (Function.update rooms (shard roomId) ((rooms (shard roomId)).evictRoom roomId).1) resident
        (if ((rooms (shard roomId)).evictRoom roomId).2 then some (.decrement 1) else none)
  | decrement (rooms : Fin shards → ShardRooms) (resident evicted : Nat) :
      CallStep sort shard rooms resident (.decrement evicted) rooms (resident - evicted) none

/-- The rooms of the shards, the counter of resident rooms, and the calls that are on their way. -/
structure State (shards : Nat) where
  rooms : Fin shards → ShardRooms
  residentRooms : Nat
  /-- The calls in flight. -/
  calls : Multiset (Call shards)

/-- The number of rooms in the shards. -/
def roomCount (rooms : Fin shards → ShardRooms) : Nat := ∑ k, (rooms k).size

/-- A runtime that starts counts the rooms it starts with. -/
def State.new (rooms : Fin shards → ShardRooms) : State shards := ⟨rooms, roomCount rooms, 0⟩

/-- A call begins, or makes its next request. -/
inductive Event (shards : Nat) where
  | start (call : Call shards)
  | advance (call : Call shards)

/-- One request to a shard, or one update of the counter, of one call. -/
inductive Step (sort : MessageSort) (shard : String → Fin shards) :
    State shards → Event shards → State shards → Prop where
  | start {s : State shards} {call} (h : Starts shard call) :
      Step sort shard s (.start call) { s with calls := call ::ₘ s.calls }
  | advance {s call calls rooms resident} {rest : Option (Call shards)}
      (hcalls : s.calls = call ::ₘ calls)
      (h : CallStep sort shard s.rooms s.residentRooms call rooms resident rest) :
      Step sort shard s (.advance call) ⟨rooms, resident, rest.elim calls (· ::ₘ calls)⟩

/-- The counter is at least what is taken off it, and an eviction of all rooms has
removed as many as it listed at first. -/
def Exact (s : State shards) : Event shards → Prop
  | .advance (.decrement evicted) => evicted ≤ s.residentRooms
  | .advance (.relist totalRooms removed [] _) => totalRooms = removed
  | _ => True

/-! ## The balance -/

/-- The rooms a call has created and not counted yet. -/
def Call.created : Call shards → Nat
  | .count newRooms _ _ _ => newRooms
  | .countTurn _ => 1
  | _ => 0

/-- The rooms a call has removed and not taken off yet. -/
def Call.removed : Call shards → Nat
  | .relist _ removed _ _ => removed
  | .clear _ removed _ _ _ _ => removed
  | .evict _ evicted _ => evicted
  | .evictIdle _ _ _ evicted => evicted
  | .decrement evicted => evicted
  | _ => 0

theorem created_afterLru (evicted : Nat) (idle : Option (Nat × Nat)) :
    (afterLru evicted idle : Call shards).created = 0 := by
  unfold afterLru
  split
  · rfl
  · split <;> rfl

theorem removed_afterLru (evicted : Nat) (idle : Option (Nat × Nat)) :
    (afterLru evicted idle : Call shards).removed = evicted := by
  unfold afterLru
  split
  · rfl
  · split <;> rfl

variable {shard : String → Fin shards} {call : Call shards} {resident resident' : Nat}

theorem Starts.idle (h : Starts shard call) : call.created = 0 ∧ call.removed = 0 := by
  cases h <;> exact ⟨rfl, rfl⟩

theorem AfterListing.idle {maxHotRooms : Nat} {candidates : List (RoomLruCandidate shards)}
    {idle : Option (Nat × Nat)}
    (h : AfterListing maxHotRooms candidates idle call) : call.created = 0 ∧ call.removed = 0 := by
  cases h with
  | within => exact ⟨created_afterLru 0 idle, removed_afterLru 0 idle⟩
  | all | oldest => exact ⟨rfl, rfl⟩

theorem roomCount_update (rooms : Fin shards → ShardRooms) (k : Fin shards) (changed : ShardRooms) :
    roomCount (update rooms k changed) + (rooms k).size = roomCount rooms + changed.size := by
  have hrest : ∑ j ∈ Finset.univ.erase k, (update rooms k changed j).size = ∑ j ∈ Finset.univ.erase k, (rooms j).size :=
      by
    refine Finset.sum_congr rfl fun j hj => ?_
    rw [update_of_ne (Finset.ne_of_mem_erase hj)]
  have hnew := Finset.add_sum_erase Finset.univ (fun j => (update rooms k changed j).size) (Finset.mem_univ k)
  have hold := Finset.add_sum_erase Finset.univ (fun j => (rooms j).size) (Finset.mem_univ k)
  rw [update_self, hrest] at hnew
  show (∑ j, (update rooms k changed j).size) + _ = (∑ j, (rooms j).size) + _
  omega

variable {sort : MessageSort} {meets : State 1 → Event 1 → Prop} {rooms rooms' : ShardRooms}
    {calls : Multiset (Call 1)}

/-- What a step of a call changes about the counter, the rooms and what the call has
still to count is in balance. -/
theorem CallStep.balanced {rooms rooms' : Fin shards → ShardRooms} {rest : Option (Call shards)}
    {calls : Multiset (Call shards)}
    (h : CallStep sort shard rooms resident call rooms' resident' rest)
    (he : Exact ⟨rooms, resident, calls⟩ (.advance call)) :
    resident' + rest.elim 0 Call.created + roomCount rooms +
    call.removed = resident + call.created + roomCount rooms' + rest.elim 0 Call.removed := by
  cases h with
  | apply k batch byShard hotWindow maxHotRooms stamp =>
    have hsize := (rooms k).size_applyMessages sort hotWindow stamp batch
    have hcount := roomCount_update rooms k ((rooms k).applyMessages sort hotWindow stamp batch).1
    simp only [Option.elim, Call.created, Call.removed]
    omega
  | count | applied | countTurn | within | exceeds | list | relist | idleEvicted =>
    simp only [Option.elim, Call.created, Call.removed, Nat.add_zero]
  | turn roomId maxHotRooms stamp =>
    have hsize := (rooms (shard roomId)).size_runActorTurn roomId stamp
    have hcount := roomCount_update rooms (shard roomId) ((rooms (shard roomId)).runActorTurn roomId stamp).1
    cases hnew : ((rooms (shard roomId)).runActorTurn roomId stamp).2 with
    | true =>
      rw [hnew, if_pos rfl] at hsize
      show resident + 1 + roomCount rooms + 0 = resident + 0 + roomCount (update _ _ _) + 0
      omega
    | false =>
      rw [hnew, if_neg (by decide)] at hsize
      show resident + 0 + roomCount rooms + 0 = resident + 0 + roomCount (update _ _ _) + 0
      omega
  | listed maxHotRooms candidates idle call' h =>
    obtain ⟨hc, hr⟩ := h.idle
    show resident + call'.created + roomCount rooms + 0 = resident + 0 + roomCount rooms + call'.removed
    rw [hc, hr]
  | clear _ _ k roomIds | evict k roomIds =>
    have hsize := (rooms k).size_evictRooms roomIds
    have hcount := roomCount_update rooms k ((rooms k).evictRooms roomIds).1
    simp only [Option.elim, Call.created, Call.removed]
    omega
  | cleared totalRooms removed idle =>
    have he : totalRooms = removed := he
    show resident + (afterLru totalRooms idle : Call shards).created + roomCount rooms + removed = resident + 0 +
      roomCount rooms + (afterLru totalRooms idle : Call shards).removed
    rw [created_afterLru, removed_afterLru, he]
  | evicted evicted idle =>
    show resident + (afterLru evicted idle : Call shards).created + roomCount rooms + evicted = resident + 0 +
      roomCount rooms + (afterLru evicted idle : Call shards).removed
    rw [created_afterLru, removed_afterLru]
  | evictIdle k rest hotRoomIdleTtlMs nowMs evicted =>
    have hsize := (rooms k).size_evictIdle hotRoomIdleTtlMs nowMs
    have hcount := roomCount_update rooms k ((rooms k).evictIdle hotRoomIdleTtlMs nowMs).1
    simp only [Option.elim, Call.created, Call.removed]
    omega
  | evictRoom roomId =>
    have hsize := (rooms (shard roomId)).size_erase roomId
    have hcount := roomCount_update rooms (shard roomId) ((rooms (shard roomId)).erase roomId)
    by_cases hin : roomId ∈ rooms (shard roomId)
    · rw [if_pos hin] at hsize
      rw [show ((rooms (shard roomId)).evictRoom roomId).2 = true from decide_eq_true hin]
      show resident + 0 + roomCount rooms + 0 = resident + 0 +
        roomCount (update _ _ ((rooms (shard roomId)).erase roomId)) + 1
      omega
    · rw [if_neg hin] at hsize
      rw [show ((rooms (shard roomId)).evictRoom roomId).2 = false from decide_eq_false hin]
      show resident + 0 + roomCount rooms + 0 = resident + 0 +
        roomCount (update _ _ ((rooms (shard roomId)).erase roomId)) + 0
      omega
  | decrement evicted =>
    have he : evicted ≤ resident := he
    show resident - evicted + 0 + roomCount rooms + evicted = resident + 0 + roomCount rooms + 0
    omega

/-- The counter and what is still to be added to it are the rooms and what is still
to be taken off. -/
def Balanced (s : State shards) : Prop :=
  s.residentRooms + (s.calls.map Call.created).sum = roomCount s.rooms + (s.calls.map Call.removed).sum

theorem Step.balanced ⦃s :
    State shards⦄ ⦃e : Event shards⦄ ⦃t : State shards⦄ (hs : Balanced s) (he : Exact s e)
    (h : Step sort shard s e t) : Balanced t := by
  unfold Balanced at hs ⊢
  cases h with
  | start h =>
    obtain ⟨hc, hr⟩ := h.idle
    simp only [Multiset.map_cons, Multiset.sum_cons, hc, hr]
    omega
  | @advance call calls rooms resident rest hcalls h =>
    have hstep := h.balanced he
    rw [hcalls] at hs
    simp only [Multiset.map_cons, Multiset.sum_cons] at hs
    cases rest with
    | none =>
      simp only [Option.elim] at hstep ⊢
      omega
    | some call' =>
      simp only [Option.elim, Multiset.map_cons, Multiset.sum_cons] at hstep ⊢
      omega

/-- With no call in flight the counter is the number of rooms, in every run whose
steps are exact. -/
theorem residentRooms_eq (sort : MessageSort) (shard : String → Fin shards)
    {rooms : Fin shards → ShardRooms}
    {t : State shards} (hrun : Reaches (Step sort shard) Exact (State.new rooms) t)
    (hcalls : t.calls = 0) :
    t.residentRooms = roomCount t.rooms := by
  have hnew : Balanced (State.new rooms) := rfl
  have ht : Balanced t := hrun.invariant Step.balanced hnew
  rw [Balanced, hcalls] at ht
  exact ht

/-! ## Two runs of one message -/

def sampleMessage : Message :=
  ⟨"m1", "general", "u1", "hello", [], 10, 1, "rooms/general/messages/m1"⟩

/-- The message on its way to the only shard. -/
abbrev sampleApply : Call 1 := .apply [(0, [("general", [sampleMessage])])] 8 1

theorem sampleApply_starts : Starts (fun _ => 0) sampleApply :=
  .applyMessages 8 1 (cons_ne_nil sampleMessage [])
    ⟨[("general", [sampleMessage])], Perm.refl _, Perm.refl _⟩

/-- The shard that has created the room. -/
def sampleRooms : ShardRooms :=
  ((∅ : ShardRooms).applyMessages .merge 8 (fun _ => 5) [("general", [sampleMessage])]).1

theorem sampleRooms_new :
    ((∅ : ShardRooms).applyMessages .merge 8 (fun _ => 5) [("general", [sampleMessage])]).2 =
    1 := by
  simp [ShardRooms.applyMessages]

theorem general_mem_sampleRooms : "general" ∈ sampleRooms := by
  simp [sampleRooms, ShardRooms.applyMessages]

theorem size_sampleRooms : sampleRooms.size = 1 := by
  rw [sampleRooms, ShardRooms.size_applyMessages, sampleRooms_new]
  rfl

/-- The shard that has evicted it. -/
def evictedRooms : ShardRooms := sampleRooms.erase "general"

theorem size_evictedRooms : evictedRooms.size = 0 := by
  rw [evictedRooms, ExtHashMap.size_erase, if_pos general_mem_sampleRooms, size_sampleRooms]

theorem update_only (rooms rooms' : ShardRooms) :
    update (fun _ : Fin 1 => rooms) 0 rooms' = fun _ => rooms' := by
  funext k
  rw [Subsingleton.elim k 0, update_self]

theorem sample_apply (resident : Nat) :
    CallStep .merge (fun _ => 0) (fun _ => ∅) resident sampleApply
    (fun _ => sampleRooms) resident (some (.count 1 [] 8 1)) := by
  have h := @CallStep.apply 1 .merge (fun _ => 0) (fun _ => ∅) resident 0
    [("general", [sampleMessage])] [] 8 1 fun _ => 5
  rw [update_only, sampleRooms_new] at h
  exact h

theorem sample_evictRoom (resident : Nat) :
    CallStep .merge (fun _ => 0) (fun _ : Fin 1 => sampleRooms) resident
    (.evictRoom "general") (fun _ => evictedRooms) resident (some (.decrement 1)) := by
  have h := @CallStep.evictRoom 1 .merge (fun _ => 0) (fun _ => sampleRooms) resident "general"
  rw [update_only, show (sampleRooms.evictRoom "general").2 = true from decide_eq_true general_mem_sampleRooms] at h
  exact h

/-- A state of the only shard. -/
abbrev sampleState (rooms : ShardRooms) (resident : Nat) (calls : Multiset (Call 1)) : State 1 :=
  ⟨fun _ => rooms, resident, calls⟩

/-- The runs from no rooms. -/
abbrev SampleRun (meets : State 1 → Event 1 → Prop) : State 1 → Prop :=
  Reaches (Step .merge fun _ => 0) meets (State.new fun _ => ∅)

theorem SampleRun.start {meets : State 1 → Event 1 → Prop} {s : State 1}
    {call : Call 1} (hrun : SampleRun meets s) (hm : meets s (.start call))
    (h : Starts (fun _ => 0) call) :
    SampleRun meets { s with calls := call ::ₘ s.calls } :=
  Reaches.tail hrun hm (.start h)

theorem SampleRun.next {call call' : Call 1}
    (hrun : SampleRun meets (sampleState rooms resident (call ::ₘ calls)))
    (hm : meets (sampleState rooms resident (call ::ₘ calls)) (.advance call))
    (h : CallStep .merge (fun _ => 0) (fun _ => rooms) resident call (fun _ => rooms') resident' (some call')) :
    SampleRun meets (sampleState rooms' resident' (call' ::ₘ calls)) := by
  have hstep := Step.advance (s := sampleState rooms resident (call ::ₘ calls)) rfl h
  exact Reaches.tail hrun hm hstep

theorem SampleRun.last {call : Call 1}
    (hrun : SampleRun meets (sampleState rooms resident (call ::ₘ calls)))
    (hm : meets (sampleState rooms resident (call ::ₘ calls)) (.advance call))
    (h : CallStep .merge (fun _ => 0) (fun _ => rooms) resident call (fun _ => rooms') resident' none) :
    SampleRun meets (sampleState rooms' resident' calls) := by
  have hstep := Step.advance (s := sampleState rooms resident (call ::ₘ calls)) rfl h
  exact Reaches.tail hrun hm hstep

/-- The message is applied and counted before the room is evicted. -/
theorem residentRooms_eq_sample : ∃ t, SampleRun Exact t ∧ t.calls = 0 ∧ t.rooms 0 = evictedRooms ∧
    t.residentRooms = roomCount t.rooms := by
  have h₁ : SampleRun Exact _ := SampleRun.start (Reaches.refl _) True.intro sampleApply_starts
  have h₂ := SampleRun.next h₁ True.intro (sample_apply 0)
  have h₃ := SampleRun.next h₂ True.intro (.count _ 0 1 [] 8 1)
  have h₄ := SampleRun.next h₃ True.intro (.applied _ 1 8 1)
  have h₅ := SampleRun.last h₄ True.intro (.within _ 1 1 (by decide))
  have h₆ := SampleRun.start h₅ True.intro (.evictRoom "general")
  have h₇ := SampleRun.next h₆ True.intro (sample_evictRoom 1)
  have h₈ := SampleRun.last h₇ (Nat.le_refl 1) (.decrement _ 1 1)
  exact ⟨_, h₈, rfl, rfl, residentRooms_eq .merge (fun _ => 0) h₈ rfl⟩

/-- The room is evicted between its creation and the count of it: the counter stays
at one with no room there. -/
theorem residentRooms_cut_off : ∃ t, SampleRun (fun _ _ => True) t ∧ t.calls = 0 ∧
    t.residentRooms = 1 ∧
    roomCount t.rooms = 0 := by
  have hcount : roomCount (fun _ : Fin 1 => evictedRooms) = 0 := by
    simp [roomCount, size_evictedRooms]
  have h₁ : SampleRun (fun _ _ => True) _ :=
    SampleRun.start (Reaches.refl _) True.intro (.evictRoom "general")
  have h₂ := SampleRun.start h₁ True.intro sampleApply_starts
  have h₃ := SampleRun.next h₂ True.intro (sample_apply 0)
  rw [sampleState, Multiset.cons_swap] at h₃
  have h₄ := SampleRun.next h₃ True.intro (sample_evictRoom 0)
  have h₅ := SampleRun.last h₄ True.intro (.decrement _ 0 1)
  have h₆ := SampleRun.next h₅ True.intro (.count _ 0 1 [] 8 1)
  have h₇ := SampleRun.next h₆ True.intro (.applied _ 1 8 1)
  have h₈ := SampleRun.last h₇ True.intro (.within _ 1 1 (by decide))
  exact ⟨_, h₈, rfl, rfl, hcount⟩

end NextDb.Actor.Resident
