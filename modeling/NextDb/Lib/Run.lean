import Mathlib.Data.List.Basic
import Mathlib.Logic.Relation

/-!
# Runs of a system

A system takes a step on an event: `step s e t`. `Reaches step meets` relates two states when a run
between them takes only steps whose events meet a condition on the state before them.

* `Reaches.invariant`: what every such step preserves, every such run preserves.
* `Reaches.of_actions`, `Reaches.of_run`: a list of actions, or of events, that pass a check is a
  run.
* `getElem?_set_cases`: the processes when one of them has gone on.
-/

namespace NextDb.Run

variable {σ ε : Type} {step : σ → ε → σ → Prop} {meets : σ → ε → Prop}

/-- One step on an event that meets the condition. -/
def Takes (step : σ → ε → σ → Prop) (meets : σ → ε → Prop) (s t : σ) : Prop :=
  ∃ e, meets s e ∧ step s e t

/-- A run of any number of such steps. -/
def Reaches (step : σ → ε → σ → Prop) (meets : σ → ε → Prop) : σ → σ → Prop :=
  Relation.ReflTransGen (Takes step meets)

theorem Reaches.refl (s : σ) : Reaches step meets s s := Relation.ReflTransGen.refl

theorem Reaches.tail {s t u : σ} {e : ε} (h : Reaches step meets s t) (he : meets t e)
    (hs : step t e u) :
    Reaches step meets s u :=
  Relation.ReflTransGen.tail h ⟨e, he, hs⟩

/-- `Reaches.tail`, the step first. -/
theorem Reaches.take {s t u : σ} {e : ε} (h : Reaches step meets s t) (hs : step t e u)
    (he : meets t e) :
    Reaches step meets s u :=
  h.tail he hs

/-- A run under a condition is one under a weaker condition. -/
theorem Reaches.weaken {meets' : σ → ε → Prop} (hmeets : ∀ s e, meets s e → meets' s e) {s t : σ}
    (h : Reaches step meets s t) : Reaches step meets' s t :=
  Relation.ReflTransGen.mono (fun _ _ ⟨e, he, hs⟩ => ⟨e, hmeets _ _ he, hs⟩) _ _ h

theorem Reaches.invariant {I : σ → Prop} (hstep : ∀ ⦃s e t⦄, I s → meets s e → step s e t → I t)
    {s t : σ} (h : Reaches step meets s t) (hs : I s) : I t := by
  induction h with
  | refl => exact hs
  | tail _ htu ih =>
    obtain ⟨e, he, hst⟩ := htu
    exact hstep ih he hst

/-- Takes a step on each event in turn, if the event passes a check. -/
def run {α : Type} (next : σ → α → Option σ) (check : σ → α → Bool) : σ → List α → Option σ
  | s, [] => some s
  | s, e :: es => if check s e then (next s e).bind fun t => run next check t es else none

/-- A run of actions, each of which takes a step if it passes the check. -/
theorem Reaches.of_actions {α : Type} {next : σ → α → Option σ} {check : σ → α → Bool}
    (hnext : ∀ ⦃s a t⦄, next s a = some t → check s a = true → Takes step meets s t) {s t : σ}
    {as : List α} (h : run next check s as = some t) : Reaches step meets s t := by
  induction as generalizing s with
  | nil =>
    cases h
    exact .refl _
  | cons a as ih =>
    rw [run] at h
    split at h
    · next hc =>
      obtain ⟨u, hu, h⟩ := Option.bind_eq_some_iff.mp h
      exact Relation.ReflTransGen.head (hnext hu hc) (ih h)
    · cases h

theorem Reaches.of_run {next : σ → ε → Option σ} {check : σ → ε → Bool}
    (hcheck : ∀ s e, check s e = true → meets s e)
    {s t : σ} {es : List ε} (h : run next check s es = some t) :
    Reaches (fun s e t => next s e = some t) meets s t :=
  .of_actions (fun s e _ hs hc => ⟨e, hcheck s e hc, hs⟩) h

/-! ## Processes

A state holds its processes in a list; a process that goes on is set at its place. -/

variable {α : Type} {procs : List α} {i j : Nat} {p q : α}

theorem getElem?_set_cases (h : (procs.set i p)[j]? = some q) :
    j = i ∧ q = p ∨ j ≠ i ∧ procs[j]? = some q := by
  rw [List.getElem?_set] at h
  split at h
  · next hij =>
    split at h
    · exact .inl ⟨hij.symm, (Option.some.inj h).symm⟩
    · cases h
  · next hij => exact .inr ⟨fun hji => hij hji.symm, h⟩

theorem getElem?_push_cases (h : (procs ++ [p])[j]? = some q) :
    procs[j]? = some q ∨ j = procs.length ∧ q = p := by
  rw [List.getElem?_append] at h
  split at h
  · exact .inl h
  · have hlen := (List.getElem?_eq_some_iff.mp h).1
    rw [List.length_singleton] at hlen
    exact .inr ⟨by omega, List.mem_singleton.mp (List.mem_of_getElem? h)⟩

/-- Some process has a property after one has gone on: one had it before, or what is new holds. -/
theorem exists_mem_set_iff {has : α → Prop} {new : Prop} (hi : procs[i]? = some q)
    (h : has p ↔ has q ∨ new) :
    (∃ v ∈ procs.set i p, has v) ↔ (∃ v ∈ procs, has v) ∨ new := by
  have hp : p ∈ procs.set i p := List.mem_of_getElem? (List.getElem?_set_self (List.getElem?_eq_some_iff.mp hi).1)
  constructor
  · rintro ⟨v, hv, hhas⟩
    obtain ⟨j, hj⟩ := List.mem_iff_getElem?.mp hv
    rcases getElem?_set_cases hj with ⟨-, rfl⟩ | ⟨-, hj⟩
    · exact (h.mp hhas).imp_left fun hq => ⟨q, List.mem_of_getElem? hi, hq⟩
    · exact .inl ⟨v, List.mem_of_getElem? hj, hhas⟩
  · rintro (⟨v, hv, hhas⟩ | hnew)
    · obtain ⟨j, hj⟩ := List.mem_iff_getElem?.mp hv
      by_cases hij : i = j
      · subst hij
        cases hi.symm.trans hj
        exact ⟨p, hp, h.mpr (.inl hhas)⟩
      · exact ⟨v, List.mem_of_getElem? ((List.getElem?_set_ne hij).trans hj), hhas⟩
    · exact ⟨p, hp, h.mpr (.inr hnew)⟩

theorem forall_mem_set {has : α → Prop} (hall : ∀ v ∈ procs, has v) (hp : has p) :
    ∀ v ∈ procs.set i p, has v := by
  intro v hv
  rcases List.mem_or_eq_of_mem_set hv with hv | rfl
  · exact hall v hv
  · exact hp

theorem getElem?_set_self_of (h : procs[i]? = some q) : (procs.set i p)[i]? = some p :=
  List.getElem?_set_self (List.getElem?_eq_some_iff.mp h).1

end NextDb.Run
