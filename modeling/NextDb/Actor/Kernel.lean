import NextDb.Actor.Room

/-!
# Actors

An actor is identified by its kind and a key. Rooms, scopes and tables have
their own live state; views and aggregates count their turns only.
-/

namespace NextDb.Actor

inductive ActorKind where
  | room
  | scope
  | table
  | view
  | aggregate
deriving DecidableEq, Hashable

def ActorKind.asStr : ActorKind → String
  | .room => "room"
  | .scope => "scope"
  | .table => "table"
  | .view => "view"
  | .aggregate => "aggregate"

structure ActorId where
  kind : ActorKind
  key : String
deriving DecidableEq, Hashable

inductive ActorResidencyTier where
  | l1Index
  | l3Full
deriving DecidableEq

end NextDb.Actor
