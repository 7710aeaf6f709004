import Std.Data.ExtHashMap.Lemmas
import NextDb.Lib.Newest
import NextDb.Model.Record

/-!
# The live state of a room

A room keeps the newest messages it has been given, oldest first. Messages that
were logged (`0 < lsn`) are ordered by LSN; a volatile one (`lsn = 0`) is
ordered against any other by time and id, and the order is then not transitive.

* `MessageSort` is the standard library's sort, which is specified when the
  order is total on the slice.
-/

namespace NextDb

open List

/-- `HashMap`. -/
abbrev HashMap (κ α : Type) [BEq κ] [Hashable κ] := Std.ExtHashMap κ α

instance equivBEqString : EquivBEq String := inferInstance

instance lawfulHashableString : LawfulHashable String := inferInstance

namespace Actor

def compareMessageOrder (left right : Message) : Ordering :=
  if left.lsn > 0 ∧ right.lsn > 0 then compare left.lsn right.lsn
  else (compare left.createdAtMs right.createdAtMs).then (compare left.id right.id)

def messageLe (left right : Message) : Bool := (compareMessageOrder left right).isLE

/-- The messages were logged: they have LSNs. -/
def Durable (messages : List Message) : Prop := ∀ m ∈ messages, 0 < m.lsn

/-- `sort_by(compare_message_order)`: some permutation of the slice, and the
stable sort of it when the order is total there. -/
structure MessageSort where
  sort : List Message → List Message
  perm : ∀ messages, (sort messages).Perm messages
  stable : ∀ messages, (∀ a ∈ messages, ∀ b ∈ messages, messageLe a b ∨ messageLe b a) →
    (∀ a ∈ messages, ∀ b ∈ messages, ∀ c ∈ messages, messageLe a b → messageLe b c → messageLe a c) →
    sort messages = messages.mergeSort messageLe

/-- Merge sort is such a sort. -/
def MessageSort.merge : MessageSort where
  sort messages := messages.mergeSort messageLe
  perm messages := List.mergeSort_perm messages messageLe
  stable _ _ _ := rfl

def messagesAreSortedByOrder : List Message → Bool
  | a :: b :: rest => messageLe a b && messagesAreSortedByOrder (b :: rest)
  | _ => true

/-- The hot window of a room. -/
structure RoomLiveState where
  messages : List Message
deriving DecidableEq

def RoomLiveState.new : RoomLiveState := ⟨[]⟩

variable (room : RoomLiveState)

def RoomLiveState.truncateTo (hotWindow : Nat) : RoomLiveState :=
  ⟨room.messages.drop (room.messages.length - hotWindow)⟩

/-- The batch is sorted and starts at or behind the end of the room. -/
def RoomLiveState.canAppendInOrder (messages : List Message) : Bool :=
  messagesAreSortedByOrder messages &&
    match room.messages.getLast?, messages.head? with
    | some last, some first => messageLe last first
    | _, _ => true

def RoomLiveState.applyMessages (sort : MessageSort) (room : RoomLiveState)
    (messages : List Message) (hotWindow : Nat) : RoomLiveState :=
  if messages.isEmpty then room
  else
    let extended := room.messages ++ messages
    let ordered := if room.canAppendInOrder messages then extended else sort.sort extended
    (RoomLiveState.mk ordered).truncateTo hotWindow

def RoomLiveState.applyMessage (sort : MessageSort) (room : RoomLiveState) (message : Message)
    (hotWindow : Nat) : RoomLiveState :=
  room.applyMessages sort [message] hotWindow

def RoomLiveState.latest (limit : Nat) : List Message :=
  room.messages.reverse.take limit

def RoomLiveState.before (beforeLsn limit : Nat) : List Message :=
  (room.messages.reverse.filter fun m => m.lsn > 0 ∧ m.lsn < beforeLsn).take limit

/-- The message's room, created if it is not there, with the message applied. -/
def applyToRooms (sort : MessageSort) (hotWindow : Nat) (rooms : HashMap String RoomLiveState)
    (message : Message) : HashMap String RoomLiveState :=
  rooms.insert message.roomId ((rooms.getD message.roomId .new).applyMessage sort message hotWindow)

/-! ## Logged messages -/

open Newest

theorem Durable.append {l l' : List Message} : Durable (l ++ l') ↔ Durable l ∧ Durable l' :=
  forall_mem_append

theorem messageLe_of_durable {a b : Message} (ha : 0 < a.lsn) (hb : 0 < b.lsn) :
    messageLe a b = decide (a.lsn ≤ b.lsn) := by
  rw [messageLe, compareMessageOrder, if_pos ⟨ha, hb⟩]
  exact Bool.eq_iff_iff.mpr (by simp [Nat.isLE_compare])

end Actor

end NextDb
