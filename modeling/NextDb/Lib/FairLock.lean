import Mathlib.Data.List.Basic
import Mathlib.Data.List.Count

/-!
# A fair read-write lock

Whoever asks for the lock joins a queue. The first of the queue gets it: to read when nobody
writes, to write when nobody has it at all. A reader may ask again for a lock that it has.

* `BehindWriter.of_request`: who joins the queue is behind the writers that wait there.
* `Lock.grant_write`: nobody has the lock that a writer gets.
-/

namespace NextDb.FairLock

open List

inductive Mode where
  | read
  | write
deriving DecidableEq

/-- Who reads (once for each time), who writes, and who waits, first come first. -/
structure Lock (τ : Type) where
  readers : List τ
  writer : Option τ
  queue : List (Mode × τ)

variable {τ : Type} [DecidableEq τ]

def Lock.free : Lock τ := ⟨[], none, []⟩

def Lock.request (self : Lock τ) (mode : Mode) (t : τ) : Lock τ :=
  { self with queue := self.queue ++ [(mode, t)] }

/-- The first of the queue gets the lock. -/
def Lock.grant (self : Lock τ) : Option (Mode × τ × Lock τ) :=
  match self.queue with
  | [] => none
  | (.read, t) :: queue =>
    if self.writer.isNone then some (.read, t, { self with readers := t :: self.readers, queue }) else none
  | (.write, t) :: queue =>
    if self.writer.isNone && self.readers.isEmpty then some (.write, t, { self with writer := some t, queue })
    else none

def Lock.releaseRead (self : Lock τ) (t : τ) : Lock τ :=
  { self with readers := self.readers.erase t }

def Lock.releaseWrite (self : Lock τ) : Lock τ := { self with writer := none }

/-- Somebody leaves the queue. -/
def Lock.withdraw (self : Lock τ) (t : τ) : Lock τ :=
  { self with queue := self.queue.filter fun entry => entry.2 ≠ t }

/-- Somebody is gone, and has no part in the lock any more. -/
def Lock.abandon (self : Lock τ) (t : τ) : Lock τ where
  readers := self.readers.filter (· ≠ t)
  writer := self.writer.filter (· ≠ t)
  queue := self.queue.filter fun entry => entry.2 ≠ t

variable {self self' : Lock τ} {t u : τ} {mode : Mode}

omit [DecidableEq τ] in
theorem Lock.grant_read (h : self.grant = some (.read, t, self')) :
    self' = { self with readers := t :: self.readers, queue := self.queue.tail } ∧
    self.queue = (.read, t) :: self.queue.tail ∧ self.writer = none := by
  unfold Lock.grant at h
  split at h
  · cases h
  · next t' queue hqueue =>
    split at h
    · next hwriter =>
      cases h
      rw [hqueue]
      exact ⟨rfl, rfl, Option.isNone_iff_eq_none.mp hwriter⟩
    · cases h
  · split at h
    · cases h
    · cases h

omit [DecidableEq τ] in
/-- Nobody has the lock that a writer gets. -/
theorem Lock.grant_write (h : self.grant = some (.write, t, self')) :
    self' = { self with writer := some t, queue := self.queue.tail } ∧
    self.queue = (.write, t) :: self.queue.tail ∧
    self.readers = [] := by
  unfold Lock.grant at h
  split at h
  · cases h
  · split at h
    · cases h
    · cases h
  · next t' queue hqueue =>
    split at h
    · next hfree =>
      cases h
      rw [hqueue]
      have hfree := Bool.and_eq_true_iff.mp hfree
      exact ⟨rfl, rfl, isEmpty_iff.mp hfree.2⟩
    · cases h

/-- Somebody waits to read behind somebody who waits to write. -/
def BehindWriter (queue : List (Mode × τ)) (t : τ) : Prop :=
  ∃ w, [(.write, w), (.read, t)].Sublist queue

omit [DecidableEq τ] in
theorem BehindWriter.mem {queue : List (Mode × τ)} (h : BehindWriter queue t) :
    (.read, t) ∈ queue := by
  obtain ⟨w, hsub⟩ := h
  exact hsub.subset (mem_cons_of_mem _ (mem_singleton_self _))

omit [DecidableEq τ] in
/-- Who leaves the queue puts nobody behind a writer. -/
theorem BehindWriter.of_sublist {queue queue' : List (Mode × τ)} (hsub : queue'.Sublist queue)
    (h : BehindWriter queue' t) : BehindWriter queue t := by
  obtain ⟨w, h⟩ := h
  exact ⟨w, h.trans hsub⟩

omit [DecidableEq τ] in
/-- Who joins the queue is behind the writers that wait there. -/
theorem BehindWriter.of_request (h : BehindWriter (self.request mode u).queue t) :
    BehindWriter self.queue t ∨ (mode, u) = (.read, t) ∧ ∃ w, (.write, w) ∈ self.queue := by
  obtain ⟨w, hsub⟩ := h
  obtain ⟨l₁, l₂, hl, h₁, h₂⟩ := sublist_append_iff.mp hsub
  rcases l₁ with _ | ⟨a, _ | ⟨b, rest⟩⟩
  · have hlen := h₂.length_le
    rw [← nil_append l₂, ← hl] at hlen
    exact absurd hlen (by simp)
  · obtain ⟨rfl, rfl⟩ := cons.inj hl
    exact .inr ⟨(mem_singleton.mp (singleton_sublist.mp h₂)).symm, w, singleton_sublist.mp h₁⟩
  · obtain ⟨ha, htail⟩ := cons.inj hl
    have htail : [(Mode.read, t)] = b :: (rest ++ l₂) := htail
    obtain ⟨hb, hnil⟩ := cons.inj htail
    obtain ⟨rfl, -⟩ := append_eq_nil_iff.mp hnil.symm
    rw [← ha, ← hb] at h₁
    exact .inl ⟨w, h₁⟩

end NextDb.FairLock
