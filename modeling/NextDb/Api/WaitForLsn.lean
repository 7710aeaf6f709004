import NextDb.Api.Converge

/-!
# What the record projection applier has applied

Writers append to the log and then queue a job for the record projection; the shards' writers do
that at the same time. One task applies the jobs in the order of the queue, leaves out those that
fail, and publishes the highest LSN that it has applied. A read that asks for an LSN waits until the
published one is as high.

* `wait_for_lsn_applied`: when a wait returns, every job up to its LSN whose write was committed
  before is applied: in every run in which jobs are queued in the order of their LSNs, none is
  committed below one that is queued, and none fails.
-/

namespace NextDb.Api.WaitForLsn

open Run List Converge

variable {P : Type} (store : RecordStore P)

/-- A call of `wait_for_lsn`, with the jobs whose writes were committed before it. -/
structure Wait where
  lsn : Nat
  committed : List RecordProjectionJob
  returned : Bool

/-- The applier with its queue, and those who wait for it. -/
structure ApplierState (P : Type) where
  records : P
  queue : List RecordProjectionJob
  /-- The LSN of a job that is applied, and not published yet. -/
  unpublished : Option Nat
  /-- `applied_lsn`, the highest that is published. -/
  appliedLsn : Nat
  waits : List Wait
  /-- The jobs of the writes that are committed, of those that are queued and of those that are
  applied. -/
  committed : List RecordProjectionJob
  enqueued : List RecordProjectionJob
  applied : List RecordProjectionJob

/-- Commits, the steps of the applier, and waits. -/
inductive ApplierEvent where
  | commit (job : RecordProjectionJob)
  | enqueue (job : RecordProjectionJob)
  /-- The applier takes a job and applies it; the store may fail at that for reasons of its own. -/
  | apply (ioFails : Bool)
  | publish
  | wait (lsn : Nat)
  | ret (i : Nat)

/-- What is applied of a job. -/
def attempt (ioFails : Bool) (records : P) (job : RecordProjectionJob) : P × Bool :=
  ((applyTransaction store records job.mutations).1, (applyTransaction store records job.mutations).2 && !ioFails)

/-- What each event does to the queue and the LSN. -/
inductive ApplierStep : ApplierState P → ApplierEvent → ApplierState P → Prop where
  /-- LSNs are above zero, and each is given once. -/
  | commit {s : ApplierState P} {job} (hpos : 0 < job.lsn)
      (hnew : ∀ other ∈ s.committed, other.lsn ≠ job.lsn) :
      ApplierStep s (.commit job) { s with committed := s.committed ++ [job] }
  | enqueue {s : ApplierState P} {job} (hcommitted : job ∈ s.committed)
      (hnew : job ∉ s.enqueued) :
      ApplierStep s (.enqueue job) { s with queue := s.queue ++ [job], enqueued := s.enqueued ++ [job] }
  | applied {s : ApplierState P} {job : RecordProjectionJob} {queue ioFails}
      (hqueue : s.queue = job :: queue) (hpublished : s.unpublished = none)
      (hok : (attempt store ioFails s.records job).2 = true) :
      ApplierStep s (.apply ioFails)
        { s with
          records := (attempt store ioFails s.records job).1
          queue
          unpublished := some job.lsn
          applied := s.applied ++ [job] }
  | failed {s job queue ioFails records} (hqueue : s.queue = job :: queue) (hpublished : s.unpublished = none)
      (hfails : (attempt store ioFails s.records job).2 = false) :
      ApplierStep s (.apply ioFails) { s with records, queue }
  | publish {s : ApplierState P} {lsn} (hunpublished : s.unpublished = some lsn) :
      ApplierStep s .publish { s with appliedLsn := max s.appliedLsn lsn, unpublished := none }
  | wait {s : ApplierState P} (lsn : Nat) :
      ApplierStep s (.wait lsn) { s with waits := s.waits ++ [⟨lsn, s.committed, false⟩] }
  | ret {s : ApplierState P} {i wait} (hwait : s.waits[i]? = some wait)
      (hlsn : wait.lsn ≤ s.appliedLsn) :
      ApplierStep s (.ret i) { s with waits := s.waits.set i { wait with returned := true } }

/-- A job is committed above the queued ones, queued when those committed below it are, and applied
without failing. -/
def InOrder (s : ApplierState P) : ApplierEvent → Prop
  | .commit job => ∀ queued ∈ s.enqueued, queued.lsn < job.lsn
  | .enqueue job => ∀ committed ∈ s.committed, committed.lsn < job.lsn → committed ∈ s.enqueued
  | .apply ioFails => ∀ job ∈ s.queue.head?, (attempt store ioFails s.records job).2 = true
  | .publish | .wait _ | .ret _ => True

/-- Nothing was queued or published before. -/
structure Fresh (s : ApplierState P) : Prop where
  queue : s.queue = []
  unpublished : s.unpublished = none
  appliedLsn : s.appliedLsn = 0
  waits : s.waits = []
  committed : s.committed = []
  enqueued : s.enqueued = []
  applied : s.applied = []

/-- A wait that has returned was for jobs that are applied. -/
def WaitsApplied (s : ApplierState P) : Prop :=
  ∀ wait ∈ s.waits, wait.returned = true → ∀ job ∈ wait.committed, job.lsn ≤ wait.lsn → job ∈ s.applied

/-- The jobs are queued in the order of their LSNs, and applied so. -/
structure Inv (s : ApplierState P) : Prop where
  positive : ∀ job ∈ s.committed, 0 < job.lsn
  once : ∀ a ∈ s.committed, ∀ b ∈ s.committed, a.lsn = b.lsn → a = b
  enqueued : ∀ job ∈ s.enqueued, job ∈ s.committed
  below : ∀ queued ∈ s.enqueued, ∀ committed ∈ s.committed, committed.lsn < queued.lsn → committed ∈ s.enqueued
  ascending : s.enqueued.Pairwise (·.lsn < ·.lsn)
  split : s.enqueued = s.applied ++ s.queue
  unpublished : ∀ lsn, s.unpublished = some lsn → ∃ job ∈ s.applied, job.lsn = lsn
  published : s.appliedLsn = 0 ∨ ∃ job ∈ s.applied, job.lsn = s.appliedLsn
  waiting : ∀ wait ∈ s.waits, ∀ job ∈ wait.committed, job ∈ s.committed
  waits : WaitsApplied s

variable {store} {s t : ApplierState P}

theorem Fresh.inv (h : Fresh s) : Inv s where
  positive := by simp [h.committed]
  once := by simp [h.committed]
  enqueued := by simp [h.enqueued]
  below := by simp [h.enqueued]
  ascending := by simp [h.enqueued]
  split := by simp [h.enqueued, h.applied, h.queue]
  unpublished := by simp [h.unpublished]
  published := .inl h.appliedLsn
  waiting := by simp [h.waits]
  waits := by simp [WaitsApplied, h.waits]

namespace Inv

theorem applied_of_le (h : Inv s) {job : RecordProjectionJob} (hjob : job ∈ s.committed)
    (hle : job.lsn ≤ s.appliedLsn) : job ∈ s.applied := by
  rcases h.published with hzero | ⟨last, hlast, hlsn⟩
  · have hpos := h.positive job hjob
    omega
  · have hqueued : last ∈ s.enqueued := h.split ▸ mem_append_left _ hlast
    by_cases heq : job.lsn = last.lsn
    · exact h.once job hjob last (h.enqueued last hqueued) heq ▸ hlast
    · have hmem := h.below last hqueued job hjob (by omega)
      rw [h.split, mem_append] at hmem
      refine hmem.resolve_right fun hqueue => ?_
      have hasc := h.ascending
      rw [h.split, pairwise_append] at hasc
      have hlt := hasc.2.2 last hlast job hqueue
      omega

theorem commit (h : Inv s) {job : RecordProjectionJob} (hpos : 0 < job.lsn)
    (hnew : ∀ other ∈ s.committed, other.lsn ≠ job.lsn)
    (hmeets : ∀ queued ∈ s.enqueued, queued.lsn < job.lsn) :
    Inv { s with committed := s.committed ++ [job] } where
  positive := by
    intro other hother
    rcases mem_append.mp hother with hother | hother
    · exact h.positive other hother
    · exact mem_singleton.mp hother ▸ hpos
  once := by
    intro a ha b hb hlsn
    rcases mem_append.mp ha with ha | ha <;> rcases mem_append.mp hb with hb | hb
    · exact h.once a ha b hb hlsn
    · exact absurd (mem_singleton.mp hb ▸ hlsn) (hnew a ha)
    · exact absurd (mem_singleton.mp ha ▸ hlsn.symm) (hnew b hb)
    · rw [mem_singleton.mp ha, mem_singleton.mp hb]
  enqueued := fun other hother => mem_append_left _ (h.enqueued other hother)
  below := by
    intro queued hqueued committed hcommitted hlt
    rcases mem_append.mp hcommitted with hcommitted | hcommitted
    · exact h.below queued hqueued committed hcommitted hlt
    · have habove := hmeets queued hqueued
      rw [mem_singleton.mp hcommitted] at hlt
      exact absurd habove (by omega)
  ascending := h.ascending
  split := h.split
  unpublished := h.unpublished
  published := h.published
  waiting := fun wait hwait other hother => mem_append_left _ (h.waiting wait hwait other hother)
  waits := h.waits

theorem enqueue (h : Inv s) {job : RecordProjectionJob} (hcommitted : job ∈ s.committed)
    (hnew : job ∉ s.enqueued)
    (hmeets : ∀ committed ∈ s.committed, committed.lsn < job.lsn → committed ∈ s.enqueued) :
    Inv { s with queue := s.queue ++ [job], enqueued := s.enqueued ++ [job] } where
  positive := h.positive
  once := h.once
  enqueued := by
    intro other hother
    rcases mem_append.mp hother with hother | hother
    · exact h.enqueued other hother
    · exact mem_singleton.mp hother ▸ hcommitted
  below := by
    intro queued hqueued committed hcommitted hlt
    rcases mem_append.mp hqueued with hqueued | hqueued
    · exact mem_append_left _ (h.below queued hqueued committed hcommitted hlt)
    · rw [mem_singleton.mp hqueued] at hlt
      exact mem_append_left _ (hmeets committed hcommitted hlt)
  ascending := by
    refine pairwise_append.mpr ⟨h.ascending, pairwise_singleton _ _, fun queued hqueued new hnew' => ?_⟩
    rw [mem_singleton.mp hnew']
    rcases Nat.lt_trichotomy queued.lsn job.lsn with hlt | heq | hgt
    · exact hlt
    · exact absurd (h.once queued (h.enqueued queued hqueued) job hcommitted heq ▸ hqueued) hnew
    · exact absurd (h.below queued hqueued job hcommitted hgt) hnew
  split := by
    show s.enqueued ++ [job] = s.applied ++ (s.queue ++ [job])
    rw [h.split, append_assoc]
  unpublished := h.unpublished
  published := h.published
  waiting := h.waiting
  waits := h.waits

theorem apply (h : Inv s)
    {job : RecordProjectionJob} {queue : List RecordProjectionJob} (hqueue : s.queue = job :: queue)
    (records : P) :
    Inv { s with records, queue, unpublished := some job.lsn, applied := s.applied ++ [job] } where
  positive := h.positive
  once := h.once
  enqueued := h.enqueued
  below := h.below
  ascending := h.ascending
  split := by
    show s.enqueued = s.applied ++ [job] ++ queue
    rw [h.split, hqueue, append_assoc, singleton_append]
  unpublished := by
    intro lsn hlsn
    exact ⟨job, mem_append_right _ (mem_singleton.mpr rfl), Option.some.inj hlsn⟩
  published := h.published.imp_right fun ⟨last, hlast, hlsn⟩ => ⟨last, mem_append_left _ hlast, hlsn⟩
  waiting := h.waiting
  waits := fun wait hwait hreturned other hother hle =>
    mem_append_left _ (h.waits wait hwait hreturned other hother hle)

theorem publish (h : Inv s) {lsn : Nat} (hunpublished : s.unpublished = some lsn) :
    Inv { s with appliedLsn := max s.appliedLsn lsn, unpublished := none } where
  positive := h.positive
  once := h.once
  enqueued := h.enqueued
  below := h.below
  ascending := h.ascending
  split := h.split
  unpublished := nofun
  published := by
    show max s.appliedLsn lsn = 0 ∨ ∃ job ∈ s.applied, job.lsn = max s.appliedLsn lsn
    rcases Nat.le_total lsn s.appliedLsn with hle | hle
    · rw [Nat.max_eq_left hle]
      exact h.published
    · rw [Nat.max_eq_right hle]
      exact .inr (h.unpublished lsn hunpublished)
  waiting := h.waiting
  waits := h.waits

theorem wait (h : Inv s) (lsn : Nat) :
    Inv { s with waits := s.waits ++ [⟨lsn, s.committed, false⟩] } where
  positive := h.positive
  once := h.once
  enqueued := h.enqueued
  below := h.below
  ascending := h.ascending
  split := h.split
  unpublished := h.unpublished
  published := h.published
  waiting := by
    intro wait hwait job hjob
    rcases mem_append.mp hwait with hwait | hwait
    · exact h.waiting wait hwait job hjob
    · rw [mem_singleton.mp hwait] at hjob
      exact hjob
  waits := by
    intro wait hwait hreturned
    rcases mem_append.mp hwait with hwait | hwait
    · exact h.waits wait hwait hreturned
    · rw [mem_singleton.mp hwait] at hreturned
      cases hreturned

theorem ret (h : Inv s) {i : Nat} {wait : Wait} (hwait : s.waits[i]? = some wait)
    (hlsn : wait.lsn ≤ s.appliedLsn) :
    Inv { s with waits := s.waits.set i { wait with returned := true } } where
  positive := h.positive
  once := h.once
  enqueued := h.enqueued
  below := h.below
  ascending := h.ascending
  split := h.split
  unpublished := h.unpublished
  published := h.published
  waiting := forall_mem_set h.waiting (h.waiting wait (mem_of_getElem? hwait))
  waits := forall_mem_set h.waits fun _ job hjob hle =>
    h.applied_of_le (h.waiting wait (mem_of_getElem? hwait) job hjob) (hle.trans hlsn)

theorem step (h : Inv s) {e : ApplierEvent} (hmeets : InOrder store s e)
    (hstep : ApplierStep store s e t) : Inv t := by
  cases hstep with
  | commit hpos hnew => exact h.commit hpos hnew hmeets
  | enqueue hcommitted hnew => exact h.enqueue hcommitted hnew hmeets
  | applied hqueue => exact h.apply hqueue _
  | @failed job queue _ _ hqueue _ hfails =>
    have hok := hmeets job (by rw [hqueue]; rfl)
    rw [hfails] at hok
    cases hok
  | publish hunpublished => exact h.publish hunpublished
  | wait lsn => exact h.wait lsn
  | ret hwait hlsn => exact h.ret hwait hlsn

end Inv

/-- In every run in order, a wait that has returned was for jobs that are applied. -/
theorem wait_for_lsn_applied (hs : Fresh s)
    (hrun : Reaches (ApplierStep store) (InOrder store) s t) : WaitsApplied t :=
  (hrun.invariant (fun _ _ _ h hmeets hstep => h.step hmeets hstep) hs.inv).waits

section Sample

/-- The keys that are deleted, the last one first. -/
def deletions : RecordStore (List String) where
  empty := []
  upsertWithIndexesAndOrder records _ _ _ := .ok records
  failedUpsert records _ _ _ := records
  delete records _ key := key :: records

def idle : ApplierState (List String) := ⟨[], [], none, 0, [], [], [], []⟩

theorem idle_fresh : Fresh idle := ⟨rfl, rfl, rfl, rfl, rfl, rfl, rfl⟩

def deleteA : RecordProjectionJob := .delete 1 "notes" "a"

def deleteB : RecordProjectionJob := .delete 2 "notes" "b"

/-- Both deletions are applied, and the waits for them have returned. -/
def waited : ApplierState (List String) :=
  ⟨["b", "a"], [], none, 2, [⟨1, [deleteA, deleteB], true⟩, ⟨2, [deleteA, deleteB], true⟩], [deleteA, deleteB],
    [deleteA, deleteB], [deleteA, deleteB]⟩

abbrev Ordered (s : ApplierState (List String)) : Prop :=
  Reaches (ApplierStep deletions) (InOrder deletions) idle s

theorem deletion_applies {s : ApplierState (List String)} {job : RecordProjectionJob}
    {queue : List RecordProjectionJob}
    (hqueue : s.queue = job :: queue)
    (happlies : (attempt deletions false s.records job).2 = true) :
    InOrder deletions s (.apply false) := by
  intro job' hjob
  rw [hqueue] at hjob
  obtain rfl := Option.some.inj hjob
  exact happlies

/-- The first deletion is applied while the second is committed and not queued. -/
theorem reaches_first : Ordered
    ⟨["a"], [], none, 1, [⟨1, [deleteA, deleteB], true⟩], [deleteA, deleteB], [deleteA],
    [deleteA]⟩ := by
  have h₀ : Ordered idle := .refl _
  have h₁ := h₀.take (e := ApplierEvent.commit deleteA) (.commit (by decide) nofun) (by intro queued h; cases h)
  have h₂ := h₁.take (e := ApplierEvent.commit deleteB)
    (.commit (by decide) fun other h => by rw [mem_singleton.mp h]; decide) (by intro queued h; cases h)
  have h₃ := h₂.take (e := ApplierEvent.enqueue deleteA) (.enqueue mem_cons_self not_mem_nil) (by
    intro committed h hlt
    rcases mem_pair.mp h with rfl | rfl <;> exact absurd hlt (by decide))
  have h₄ := h₃.take (e := ApplierEvent.apply false) (.applied rfl rfl rfl) (deletion_applies rfl rfl)
  have h₅ := h₄.take (e := ApplierEvent.publish) (.publish rfl) trivial
  have h₆ := h₅.take (e := ApplierEvent.wait 1) (.wait 1) trivial
  exact h₆.take (e := ApplierEvent.ret 0)
    (@ApplierStep.ret _ _ _ 0 ⟨1, [deleteA, deleteB], false⟩ rfl (Nat.le_refl 1)) trivial

/-- The wait for the second begins before its job is queued. -/
theorem reaches_waited : Ordered waited := by
  have h₁ := reaches_first.take (e := ApplierEvent.wait 2) (.wait 2) trivial
  have h₂ := h₁.take (e := ApplierEvent.enqueue deleteB)
    (.enqueue (.tail _ (.head _)) fun h => by cases mem_singleton.mp h) (by
      intro committed h hlt
      rcases mem_pair.mp h with rfl | rfl
      · exact mem_cons_self
      · exact absurd hlt (by decide))
  have h₃ := h₂.take (e := ApplierEvent.apply false) (.applied rfl rfl rfl) (deletion_applies rfl rfl)
  have h₄ := h₃.take (e := ApplierEvent.publish) (.publish rfl) trivial
  exact h₄.take (e := ApplierEvent.ret 1)
    (@ApplierStep.ret _ _ _ 1 ⟨2, [deleteA, deleteB], false⟩ rfl (Nat.le_refl 2)) trivial

theorem wait_for_lsn_applied_delete : Fresh idle ∧ Ordered waited ∧ WaitsApplied waited :=
  ⟨idle_fresh, reaches_waited, wait_for_lsn_applied idle_fresh reaches_waited⟩

def overtaken : ApplierState (List String) :=
  ⟨["b"], [], none, 2, [⟨1, [deleteA, deleteB], true⟩], [deleteA, deleteB], [deleteB], [deleteB]⟩

theorem reaches_overtaken : Reaches (ApplierStep deletions) (fun _ _ => True) idle overtaken := by
  have h₀ : Reaches (ApplierStep deletions) (fun _ _ => True) idle idle := .refl _
  have hnew : ∀ other ∈ [deleteA], other.lsn ≠ deleteB.lsn := fun other h => by
    rw [mem_singleton.mp h]
    decide
  have h₁ := h₀.take (e := ApplierEvent.commit deleteA) (.commit (by decide) nofun) trivial
  have h₂ := h₁.take (e := ApplierEvent.commit deleteB) (.commit (by decide) hnew) trivial
  have h₃ := h₂.take (e := ApplierEvent.enqueue deleteB) (.enqueue (.tail _ (.head _)) not_mem_nil) trivial
  have h₄ := h₃.take (e := ApplierEvent.apply false) (.applied rfl rfl rfl) trivial
  have h₅ := h₄.take (e := ApplierEvent.publish) (.publish rfl) trivial
  have h₆ := h₅.take (e := ApplierEvent.wait 1) (.wait 1) trivial
  exact h₆.take (e := ApplierEvent.ret 0)
    (@ApplierStep.ret _ _ _ 0 ⟨1, [deleteA, deleteB], false⟩ rfl (show 1 ≤ 2 by decide)) trivial

/-- A wait for the first LSN returns once the second is applied. -/
theorem wait_overtaken : ¬ ∀ (store : RecordStore (List String)) (s t : ApplierState (List String)),
    Fresh s →
    Reaches (ApplierStep store) (fun _ _ => True) s t → WaitsApplied t := by
  intro hall
  have hwaits := hall deletions idle overtaken idle_fresh reaches_overtaken
  have hmem : deleteA ∈ [deleteB] :=
    hwaits _ (mem_singleton.mpr rfl) rfl deleteA (mem_cons_self) (Nat.le_refl 1)
  cases mem_singleton.mp hmem

end Sample

end NextDb.Api.WaitForLsn
