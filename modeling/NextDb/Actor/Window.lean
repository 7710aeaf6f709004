import Mathlib.Data.List.Chain
import NextDb.Actor.Room

/-!
# The hot window

A hot window is right when its logged messages are the newest of the room's history, in
the order of their LSNs. Beside them it may hold volatile messages, which `messageLe`
orders by time; with them the order need not be transitive (`Ordered`).

* `WindowHolds.apply`: a batch that goes on from the window leaves it right.
* `WindowHolds.apply_full`: so does a batch that the window has no place for.
* `window_of_batches`: logged messages leave the same window however they are cut into batches.
* `room_order_iff`: when the order of a room's messages is one.
-/

namespace NextDb.Actor

open Newest List

/-- The logged messages among some. -/
def logged (messages : List Message) : List Message := messages.filter (0 < ·.lsn)

variable {messages history : List Message} {room : RoomLiveState}

theorem mem_logged {m : Message} : m ∈ logged messages ↔ m ∈ messages ∧ 0 < m.lsn := by
  rw [logged, mem_filter, decide_eq_true_eq]

theorem logged_append (l l' : List Message) : logged (l ++ l') = logged l ++ logged l' :=
  filter_append ..

theorem logged_of_durable (h : Durable messages) : logged messages = messages :=
  filter_eq_self.mpr fun m hm => by simpa using h m hm

/-- On these messages the order is transitive. -/
def Ordered (messages : List Message) : Prop :=
  ∀ a ∈ messages, ∀ b ∈ messages, ∀ c ∈ messages, messageLe a b → messageLe b c → messageLe a c

theorem Ordered.of_durable (h : Durable messages) : Ordered messages := by
  intro a ha b hb c hc
  rw [messageLe_of_durable (h a ha) (h b hb), messageLe_of_durable (h b hb) (h c hc),
    messageLe_of_durable (h a ha) (h c hc)]
  simpa using Nat.le_trans

theorem Ordered.mono {messages' : List Message} (h : Ordered messages')
    (hs : ∀ m ∈ messages, m ∈ messages') :
    Ordered messages :=
  fun a ha b hb c hc => h a (hs a ha) b (hs b hb) c (hs c hc)

theorem messageLe_total (a b : Message) : messageLe a b ∨ messageLe b a := by
  have hswap : compareMessageOrder b a = (compareMessageOrder a b).swap := by
    unfold compareMessageOrder
    by_cases h : a.lsn > 0 ∧ b.lsn > 0
    · rw [if_pos h, if_pos h.symm]
      exact Std.OrientedCmp.eq_swap
    · rw [if_neg h, if_neg fun h' => h h'.symm, Ordering.swap_then]
      congr 1 <;> exact Std.OrientedCmp.eq_swap
  rw [messageLe, messageLe, hswap]
  cases compareMessageOrder a b <;> simp

theorem MessageSort.pairwise_sort (sort : MessageSort) (h : Ordered messages) :
    (sort.sort messages).Pairwise fun a b => messageLe a b := by
  rw [sort.stable messages (fun a _ b _ => messageLe_total a b) h]
  -- among the messages of the list the order is transitive
  let r : { m // m ∈ messages } → { m // m ∈ messages } → Bool := fun a b => messageLe a.1 b.1
  have hsorted := @List.pairwise_mergeSort _ r (fun a b c => h a.1 a.2 b.1 b.2 c.1 c.2)
    (fun a b => by simpa [r] using messageLe_total a.1 b.1) messages.attach
  have hmap := map_mergeSort (r := r) (f := Subtype.val) (s := messageLe) (l := messages.attach) fun _ _ _ _ => rfl
  rw [attach_map_subtype_val] at hmap
  rw [← hmap]
  exact pairwise_map.mpr hsorted

theorem isChain_of_messagesAreSorted (h : messagesAreSortedByOrder messages) :
    messages.IsChain fun a b => messageLe a b := by
  induction messages with
  | nil => exact .nil
  | cons a messages ih =>
    cases messages with
    | nil => exact .singleton a
    | cons b rest =>
      obtain ⟨hab, hrest⟩ := Bool.and_eq_true_iff.mp h
      exact isChain_cons_cons.mpr ⟨hab, ih hrest⟩

theorem isChain_of_canAppendInOrder (hc : room.messages.IsChain fun a b => messageLe a b)
    (h : room.canAppendInOrder messages) :
    (room.messages ++ messages).IsChain fun a b => messageLe a b := by
  obtain ⟨hsorted, hends⟩ := Bool.and_eq_true_iff.mp h
  refine isChain_append.mpr ⟨hc, isChain_of_messagesAreSorted hsorted, fun a ha b hb => ?_⟩
  rw [Option.mem_def] at ha hb
  rw [ha, hb] at hends
  exact hends

theorem Ordered.pairwise (h : Ordered messages) (hc : messages.IsChain fun a b => messageLe a b) :
    messages.Pairwise fun a b => messageLe a b := by
  induction messages with
  | nil => exact .nil
  | cons a messages ih =>
    have hrest := ih (h.mono fun m hm => mem_cons_of_mem _ hm) hc.tail
    refine pairwise_cons.mpr ⟨fun c hmem => ?_, hrest⟩
    cases messages with
    | nil => cases hmem
    | cons b rest =>
      have hab := (isChain_cons_cons.mp hc).1
      rcases mem_cons.mp hmem with rfl | hmem
      · exact hab
      · exact h a (by simp) b (by simp) c (by simp [hmem]) hab ((pairwise_cons.mp hrest).1 c hmem)

theorem ascending_logged (h : messages.Pairwise fun a b => messageLe a b)
    (hn : ((logged messages).map Message.lsn).Nodup) : Ascending Message.lsn (logged messages) := by
  have hle : (logged messages).Pairwise fun a b => a.lsn ≤ b.lsn := by
    refine (h.filter _).imp_of_mem fun {a b} ha hb hab => ?_
    rwa [messageLe_of_durable (mem_logged.mp ha).2 (mem_logged.mp hb).2, decide_eq_true_eq] at hab
  exact (hle.and (pairwise_map.mp hn)).imp fun h => lt_of_le_of_ne h.1 h.2

/-! ## Batches -/

/-- A window stands in the order, and its logged messages are the newest of the history. -/
structure WindowHolds (history window : List Message) : Prop where
  chain : window.IsChain fun a b => messageLe a b
  top : IsTop Message.lsn history (logged window)

theorem WindowHolds.nil (history : List Message) : WindowHolds history [] :=
  ⟨.nil, isTop_nil history⟩

variable {window batch more : List Message} {hotWindow : Nat}

theorem WindowHolds.of_suffix {window' : List Message} (h : WindowHolds history window)
    (hs : window' <:+ window) :
    WindowHolds history window' :=
  ⟨h.chain.suffix hs, h.top.of_suffix (hs.filter _)⟩

theorem WindowHolds.rtake (h : WindowHolds history window) (n : Nat) :
    WindowHolds history (window.rtake n) := h.of_suffix (drop_suffix ..)

/-- The window before it is truncated, when the batch can be sorted into it. -/
theorem applyMessages_ordered (sort : MessageSort) (hotWindow : Nat)
    (hc : room.messages.IsChain fun a b => messageLe a b) (ho : Ordered (room.messages ++ batch))
    (hne : batch ≠ []) :
    ∃ window : List Message, window.Perm (room.messages ++ batch) ∧
    (window.Pairwise fun a b => messageLe a b) ∧
    (room.applyMessages sort batch hotWindow).messages = window.rtake hotWindow := by
  unfold RoomLiveState.applyMessages
  rw [if_neg (by simpa using hne)]
  dsimp only
  split
  · next h => exact ⟨_, .rfl, ho.pairwise (isChain_of_canAppendInOrder hc h), rfl⟩
  · exact ⟨_, sort.perm _, sort.pairwise_sort ho, rfl⟩

/-- A room that holds the newest of some messages, after a batch. A message may be given again. -/
theorem applyMessages_newest_of_tells (sort : MessageSort)
    (hroom : room.messages = newest Message.lsn hotWindow messages)
    (hd : Durable (messages ++ more))
    (htells : KeyTells Message.lsn (messages ++ more)) (hne : more ≠ []) :
    (room.applyMessages sort more hotWindow).messages =
    newest Message.lsn hotWindow (messages ++ more) := by
  have hsub : ∀ m ∈ room.messages ++ more, m ∈ messages ++ more := fun m hm => by
    rcases mem_append.mp hm with hm | hm
    · exact mem_append_left _ (mem_mergeSort.mp (mem_of_mem_drop (hroom ▸ hm)))
    · exact mem_append_right _ hm
  have hd' : Durable (room.messages ++ more) := fun m hm => hd m (hsub m hm)
  have hroomSorted : room.messages.Pairwise fun a b => a.lsn ≤ b.lsn := by
    rw [hroom]
    exact (pairwise_mergeSort_key messages).sublist (drop_sublist ..)
  have hchain : room.messages.IsChain fun a b => messageLe a b :=
    Pairwise.isChain (hroomSorted.imp_of_mem fun {a b} ha hb hab => by
      rw [messageLe_of_durable ((Durable.append.mp hd').1 a ha) ((Durable.append.mp hd').1 b hb)]
      exact decide_eq_true hab)
  obtain ⟨window, hperm, hsorted, hmessages⟩ :=
    applyMessages_ordered sort hotWindow hchain (Ordered.of_durable hd') hne
  have hle : window.Pairwise fun a b => a.lsn ≤ b.lsn := by
    refine hsorted.imp_of_mem fun {a b} ha hb hab => ?_
    rwa [messageLe_of_durable (hd' a (hperm.mem_iff.mp ha)) (hd' b (hperm.mem_iff.mp hb)), decide_eq_true_eq] at hab
  rw [hmessages, (htells.mono hsub).eq_mergeSort hperm hle]
  show newest Message.lsn hotWindow (room.messages ++ more) = _
  rw [hroom]
  exact htells.newest_append hotWindow

/-- A room that holds the newest of some messages, after a batch of others. -/
theorem applyMessages_newest (sort : MessageSort)
    (hroom : room.messages = newest Message.lsn hotWindow messages)
    (hd : Durable (messages ++ more)) (hn : ((messages ++ more).map Message.lsn).Nodup)
    (hne : more ≠ []) :
    (room.applyMessages sort more hotWindow).messages =
    newest Message.lsn hotWindow (messages ++ more) :=
  applyMessages_newest_of_tells sort hroom hd (fun _ ha _ hb => inj_on_of_nodup_map hn ha hb) hne

/-- A batch after which the logged messages are still the newest. -/
theorem WindowHolds.apply (sort : MessageSort) {room : RoomLiveState}
    {batch history history' : List Message} {hotWindow : Nat}
    (h : WindowHolds history room.messages) (hne : batch ≠ [])
    {top : List Message} (htop : IsTop Message.lsn history' top)
    (hperm : (logged (room.messages ++ batch)).Perm top)
    (ho : Ordered (room.messages ++ batch) ∨ room.canAppendInOrder batch ∧
      logged (room.messages ++ batch) = top) :
    WindowHolds history' (room.applyMessages sort batch hotWindow).messages := by
  rcases ho with ho | ⟨hcan, heq⟩
  · obtain ⟨window, hp, hsorted, hmessages⟩ := applyMessages_ordered sort hotWindow h.chain ho hne
    rw [hmessages]
    refine WindowHolds.rtake ⟨hsorted.isChain, ?_⟩ _
    have hperm' : (logged window).Perm top := (hp.filter _).trans hperm
    have hasc := ascending_logged hsorted ((hperm'.map _).nodup_iff.mpr htop.ascending.nodup)
    rwa [hasc.eq_of_mem_iff htop.ascending fun m => hperm'.mem_iff]
  · have hmessages : (room.applyMessages sort batch hotWindow).messages = (room.messages ++ batch).rtake hotWindow := by
      unfold RoomLiveState.applyMessages
      rw [if_neg (by simpa using hne)]
      dsimp only
      rw [if_pos hcan]
      rfl
    rw [hmessages]
    exact WindowHolds.rtake ⟨isChain_of_canAppendInOrder h.chain hcan, heq.symm ▸ htop⟩ _

theorem eq_filter_append_filter {α : Type} {p : α → Bool} {l : List α}
    (h : l.Pairwise fun a b => p b → p a) :
    l = l.filter p ++ l.filter fun a => !p a := by
  induction l with
  | nil => rfl
  | cons a l ih =>
    obtain ⟨ha, hl⟩ := pairwise_cons.mp h
    by_cases hp : p a
    · rw [filter_cons_of_pos hp, filter_cons_of_neg (by simpa using hp), cons_append, ← ih hl]
    · have hnone : l.filter p = [] := filter_eq_nil_iff.mpr fun b hb hpb => hp (ha b hb hpb)
      have hall : (a :: l).filter (fun a => !p a) = a :: l :=
        filter_eq_self.mpr fun b hb => by
          rcases mem_cons.mp hb with rfl | hb
          · simpa using hp
          · simpa using fun hpb => hp (ha b hb hpb)
      rw [filter_cons_of_neg hp, hnone, hall, nil_append]

/-- The part of a window above a message. -/
def above (newest : Message) (window : List Message) : List Message :=
  window.filter fun m => !messageLe m newest

theorem above_iff {m newest : Message} (hdurable : 0 < newest.lsn) (hpos : 0 < m.lsn) :
    (!messageLe m newest) = true ↔ newest.lsn < m.lsn := by
  rw [messageLe_of_durable hpos hdurable]
  simp

/-- No logged message of the batch is above its newest, so those above it are the window's. -/
theorem mem_logged_above {window : List Message} (hp : window.Perm (room.messages ++ batch))
    {newest : Message} (hdurable : 0 < newest.lsn)
    (hbatch : ∀ m ∈ logged batch, m.lsn ≤ newest.lsn) (m : Message) :
    m ∈ logged (above newest window) ↔ m ∈ logged room.messages ∧ newest.lsn < m.lsn := by
  rw [mem_logged, mem_logged, above, mem_filter, hp.mem_iff, mem_append]
  constructor
  · rintro ⟨⟨hm | hm, hgt⟩, hpos⟩
    · exact ⟨⟨hm, hpos⟩, (above_iff hdurable hpos).mp hgt⟩
    · have hle := hbatch m (mem_logged.mpr ⟨hm, hpos⟩)
      exact absurd hle (Nat.not_le.mpr ((above_iff hdurable hpos).mp hgt))
  · rintro ⟨⟨hm, hpos⟩, hgt⟩
    exact ⟨⟨.inl hm, (above_iff hdurable hpos).mpr hgt⟩, hpos⟩

theorem ascending_logged_above {window : List Message}
    (hp : window.Perm (room.messages ++ batch))
    (hsorted : window.Pairwise fun a b => messageLe a b) {newest : Message}
    (hdurable : 0 < newest.lsn) (hbatch : ∀ m ∈ logged batch, m.lsn ≤ newest.lsn)
    (hroom : Ascending Message.lsn (logged room.messages)) :
    Ascending Message.lsn (logged (above newest window)) := by
  refine ascending_logged (hsorted.sublist filter_sublist) ?_
  have hnone : logged (above newest batch) = [] := by
    refine filter_eq_nil_iff.mpr fun m hm hpos => ?_
    obtain ⟨hm, hgt⟩ := mem_filter.mp hm
    have hpos : 0 < m.lsn := by simpa using hpos
    have hle := hbatch m (mem_logged.mpr ⟨hm, hpos⟩)
    exact absurd hle (Nat.not_le.mpr ((above_iff hdurable hpos).mp hgt))
  have hperm : (logged (above newest window)).Perm (logged (above newest room.messages)) := by
    have hfilter := (hp.filter fun m => !messageLe m newest).filter (0 < ·.lsn)
    rw [filter_append, filter_append] at hfilter
    have hnone : (batch.filter fun m => !messageLe m newest).filter (0 < ·.lsn) = [] := hnone
    rwa [hnone, append_nil] at hfilter
  refine (hperm.map _).nodup_iff.mpr (hroom.nodup.sublist (Sublist.map _ ?_))
  exact filter_sublist.filter _

theorem WindowHolds.isTop_above (h : WindowHolds history room.messages) {window : List Message}
    (hp : window.Perm (room.messages ++ batch))
    (hsorted : window.Pairwise fun a b => messageLe a b) {newest : Message}
    (hdurable : 0 < newest.lsn) (hbatch : ∀ m ∈ logged batch, m.lsn ≤ newest.lsn) :
    IsTop Message.lsn history (logged (above newest window)) := by
  have hmem := mem_logged_above hp hdurable hbatch
  refine ⟨ascending_logged_above hp hsorted hdurable hbatch h.top.ascending,
    fun m hm => h.top.subset m ((hmem m).mp hm).1, fun m hm m' hm' hlt => ?_⟩
  obtain ⟨hm, hgt⟩ := (hmem m).mp hm
  exact (hmem m').mpr ⟨h.top.upward m hm m' hm' hlt, hgt.trans hlt⟩

/-- Before the messages above `newest` stands `newest` itself, or a volatile one. -/
theorem WindowHolds.isTop_last (h : WindowHolds history room.messages)
    (hn : (history.map Message.lsn).Nodup) {window before : List Message} {newest last : Message}
    (hp : window.Perm (room.messages ++ batch))
    (hsorted : window.Pairwise fun a b => messageLe a b) (hdurable : 0 < newest.lsn)
    (hbatch : ∀ m ∈ logged batch, m ∈ history ∧ m.lsn ≤ newest.lsn)
    (hkept : newest ∈ room.messages)
    (hwindow : window = before ++ last :: above newest window)
    (hlow : newest ∈ before ++ [last]) (hlastLe : messageLe last newest) :
    IsTop Message.lsn history (logged (last :: above newest window)) := by
  have hbelow : ∀ m ∈ logged batch, m.lsn ≤ newest.lsn := fun m hm => (hbatch m hm).2
  have htop := h.isTop_above hp hsorted hdurable hbelow
  by_cases hpos : 0 < last.lsn
  · have hlastIn : last ∈ room.messages ∨ last ∈ batch := by
      rw [← mem_append, ← hp.mem_iff, hwindow]
      exact mem_append_right _ mem_cons_self
    have hlastHistory : last ∈ history := hlastIn.elim
      (fun hm => h.top.subset last (mem_logged.mpr ⟨hm, hpos⟩))
      fun hm => (hbatch last (mem_logged.mpr ⟨hm, hpos⟩)).1
    have hge : newest.lsn ≤ last.lsn := by
      rcases mem_append.mp hlow with hm | hm
      · have hle := (pairwise_append.mp (hwindow ▸ hsorted)).2.2 newest hm last mem_cons_self
        rwa [messageLe_of_durable hdurable hpos, decide_eq_true_eq] at hle
      · rw [mem_singleton.mp hm]
    rw [messageLe_of_durable hpos hdurable, decide_eq_true_eq] at hlastLe
    have hnewest : newest ∈ logged room.messages := mem_logged.mpr ⟨hkept, hdurable⟩
    have heq : last = newest :=
      inj_on_of_nodup_map hn hlastHistory (h.top.subset newest hnewest) (hlastLe.antisymm hge)
    have hlogged : logged (last :: above newest window) = newest :: logged (above newest window) := by
      rw [heq, logged, filter_cons_of_pos (by simpa using hdurable)]
      rfl
    have hmem := mem_logged_above hp hdurable hbelow
    rw [hlogged]
    refine ⟨pairwise_cons.mpr ⟨fun m hm => ((hmem m).mp hm).2, htop.ascending⟩, fun m hm => ?_,
      fun m hm m' hm' hlt => ?_⟩
    · rcases mem_cons.mp hm with rfl | hm
      · exact heq ▸ hlastHistory
      · exact htop.subset m hm
    · refine mem_cons_of_mem _ ?_
      rcases mem_cons.mp hm with rfl | hm
      · exact (hmem m').mpr ⟨h.top.upward _ hnewest m' hm' hlt, hlt⟩
      · exact htop.upward m hm m' hm' hlt
  · have hlogged : logged (last :: above newest window) = logged (above newest window) :=
      filter_cons_of_neg (by simpa using hpos)
    rwa [hlogged]

/-- A batch of logged messages up to `newest`, and volatile ones, for which the window has
no place: those above it, and it where it is in the window, fill the window. -/
theorem WindowHolds.apply_full (sort : MessageSort) (h : WindowHolds history room.messages)
    (hn : (history.map Message.lsn).Nodup) (ho : Ordered (room.messages ++ batch))
    {newest : Message} (hnewest : newest ∈ batch) (hdurable : 0 < newest.lsn)
    (hbatch : ∀ m ∈ logged batch, m ∈ history ∧ m.lsn ≤ newest.lsn) (hfull : hotWindow ≤
    ((room.messages ++ batch).countP fun m => !messageLe m newest) + if newest ∈ room.messages then 1 else 0) :
    WindowHolds history (room.applyMessages sort batch hotWindow).messages := by
  obtain ⟨window, hp, hsorted, hmessages⟩ :=
    applyMessages_ordered sort hotWindow h.chain ho (ne_nil_of_mem hnewest)
  have hin : newest ∈ window := hp.mem_iff.mpr (mem_append_right _ hnewest)
  have ho' : Ordered window := ho.mono fun m hm => hp.mem_iff.mp hm
  let low := window.filter fun m => messageLe m newest
  have hsplit : window = low ++ above newest window := eq_filter_append_filter <|
    hsorted.imp_of_mem fun {a b} ha hb hab hbn => ho' a ha b hb newest hin hab hbn
  have hhigh : above newest window <:+ window := ⟨low, hsplit.symm⟩
  have hlen : (room.messages ++ batch).countP (fun m => !messageLe m newest) =
      (above newest window).length := by
    rw [countP_eq_length_filter]
    exact (hp.filter _).length_eq.symm
  have hrtake : ∀ n, (window.rtake n).length ≤ n := fun n => by
    rw [List.rtake, List.length_drop]
    omega
  rw [hmessages]
  rw [hlen] at hfull
  by_cases hle : hotWindow ≤ (above newest window).length
  · have htop := h.isTop_above hp hsorted hdurable fun m hm => (hbatch m hm).2
    have hs : window.rtake hotWindow <:+ above newest window :=
      suffix_of_suffix_length_le (drop_suffix ..) hhigh ((hrtake _).trans hle)
    exact WindowHolds.of_suffix ⟨hsorted.isChain.suffix hhigh, htop⟩ hs
  · have hkept : newest ∈ room.messages := by
      by_contra hnot
      rw [if_neg hnot] at hfull
      exact hle hfull
    rw [if_pos hkept] at hfull
    have hnewestLow : newest ∈ low := by
      refine mem_filter.mpr ⟨hin, ?_⟩
      rw [messageLe_of_durable hdurable hdurable]
      simp
    obtain ⟨before, last, hlast⟩ :=
      (eq_nil_or_concat' low).resolve_left (ne_nil_of_mem hnewestLow)
    have hwindow : window = before ++ last :: above newest window := by
      rw [hlast, append_assoc, singleton_append] at hsplit
      exact hsplit
    have hlastLow : last ∈ low := hlast ▸ mem_append_right _ (mem_singleton_self _)
    have htop := h.isTop_last hn hp hsorted hdurable hbatch hkept hwindow (hlast ▸ hnewestLow)
      (mem_filter.mp hlastLow).2
    have hend : last :: above newest window <:+ window := ⟨before, hwindow.symm⟩
    have hs : window.rtake hotWindow <:+ last :: above newest window :=
      suffix_of_suffix_length_le (drop_suffix ..) hend ((hrtake _).trans hfull)
    exact WindowHolds.of_suffix ⟨hsorted.isChain.suffix hend, htop⟩ hs

/-! ## All batches -/

/-- The room after the batches. -/
def RoomLiveState.applyBatches (sort : MessageSort) (hotWindow : Nat) (room : RoomLiveState)
    (batches : List (List Message)) : RoomLiveState :=
  batches.foldl (fun room batch => room.applyMessages sort batch hotWindow) room

theorem applyBatches_newest (sort : MessageSort) (batches : List (List Message))
    {room : RoomLiveState}
    {messages : List Message} (hroom : room.messages = newest Message.lsn hotWindow messages)
    (hd : Durable (messages ++ batches.flatten))
    (hn : ((messages ++ batches.flatten).map Message.lsn).Nodup) :
    (room.applyBatches sort hotWindow batches).messages =
    newest Message.lsn hotWindow (messages ++ batches.flatten) := by
  induction batches generalizing room messages with
  | nil => simpa [RoomLiveState.applyBatches] using hroom
  | cons batch batches ih =>
    rw [flatten_cons, ← append_assoc] at hd hn ⊢
    refine ih ?_ hd hn
    by_cases hne : batch = []
    · simpa [RoomLiveState.applyMessages, hne] using hroom
    · refine applyMessages_newest sort hroom (Durable.append.mp hd).1 ?_ hne
      exact hn.sublist ((sublist_append_left ..).map _)

/-- However logged messages are cut into batches, the room keeps the newest. -/
theorem window_of_batches (sort : MessageSort)
    {messages : List Message} (hd : Durable messages) (hn : (messages.map Message.lsn).Nodup)
    (batches : List (List Message)) (hcut : batches.flatten.Perm messages) (hotWindow : Nat) :
    (RoomLiveState.new.applyBatches sort hotWindow batches).messages =
    newest Message.lsn hotWindow messages := by
  have hn' : (batches.flatten.map Message.lsn).Nodup := (hcut.map _).nodup_iff.mpr hn
  have hnew : RoomLiveState.new.messages = newest Message.lsn hotWindow [] := (newest_nil hotWindow).symm
  rw [applyBatches_newest sort batches hnew (fun m hm => hd m (hcut.mem_iff.mp hm)) hn']
  exact newest_perm hn' hcut hotWindow

def timedMessage (lsn createdAtMs : Nat) : Message :=
  ⟨"m", "room", "user", "", [], createdAtMs, lsn, ""⟩

theorem window_of_batches_sample :
    (RoomLiveState.new.applyBatches .merge 1 [[timedMessage 2 0], [timedMessage 1 0]]).messages =
    newest Message.lsn 1 [timedMessage 1 0, timedMessage 2 0] :=
  window_of_batches .merge (by simp [Durable, timedMessage]) (by decide) [[timedMessage 2 0],
    [timedMessage 1 0]] (.swap ..) 1

/-! ## The order of a room -/

theorem messageLe_of_volatile {a b : Message} (h : a.lsn = 0 ∨ b.lsn = 0) :
    messageLe a b = (compareLex (compareOn Message.createdAtMs) (compareOn Message.id) a b).isLE := by
  rw [messageLe, compareMessageOrder, if_neg (by omega)]
  rfl

/-- A volatile message that stands between two logged ones stands between them as their LSNs do. -/
def SplitsByLsn (messages : List Message) : Prop :=
  ∀ v ∈ messages, v.lsn = 0 → ∀ a ∈ messages, ∀ b ∈ messages, 0 < a.lsn → 0 < b.lsn →
    messageLe a v → messageLe v b → a.lsn < b.lsn ∨ a.lsn = b.lsn ∧ messageLe v a ∧ messageLe b v

theorem ordered_iff : Ordered messages ↔ SplitsByLsn messages := by
  constructor
  · intro h v hv hvolatile a ha b hb ha0 hb0 hav hvb
    have hab := h a ha v hv b hb hav hvb
    rw [messageLe_of_durable ha0 hb0, decide_eq_true_eq] at hab
    refine hab.lt_or_eq.imp_right fun heq => ⟨heq, ?_⟩
    have hba : messageLe b a := by
      rw [messageLe_of_durable hb0 ha0, decide_eq_true_eq]
      exact heq.ge
    exact ⟨h v hv b hb a ha hvb hba, h b hb a ha v hv hba hav⟩
  · intro h a ha b hb c hc hab hbc
    have hle : ∀ {x y : Message}, 0 < x.lsn → 0 < y.lsn → (messageLe x y ↔ x.lsn ≤ y.lsn) := fun hx hy => by
      rw [messageLe_of_durable hx hy, decide_eq_true_eq]
    have htime : (a.lsn = 0 ∨ b.lsn = 0) → (b.lsn = 0 ∨ c.lsn = 0) → (a.lsn = 0 ∨ c.lsn = 0) → messageLe a c := by
      intro h h' h''
      rw [messageLe_of_volatile h] at hab
      rw [messageLe_of_volatile h'] at hbc
      rw [messageLe_of_volatile h'']
      exact Std.TransCmp.isLE_trans hab hbc
    rcases a.lsn.eq_zero_or_pos with ha0 | ha0 <;> rcases b.lsn.eq_zero_or_pos with hb0 | hb0 <;>
      rcases c.lsn.eq_zero_or_pos with hc0 | hc0
    case inl.inr.inr =>
      rw [hle hb0 hc0] at hbc
      rcases messageLe_total a c with hac | hca
      · exact hac
      · exact (h a ha ha0 c hc b hb hc0 hb0 hca hab).elim (fun hlt => by omega) fun hlevel => hlevel.2.1
    case inr.inr.inl =>
      rw [hle ha0 hb0] at hab
      rcases messageLe_total a c with hac | hca
      · exact hac
      · exact (h c hc hc0 b hb a ha hb0 ha0 hbc hca).elim (fun hlt => by omega) fun hlevel => hlevel.2.2
    case inr.inl.inr =>
      rw [hle ha0 hc0]
      exact (h b hb hb0 a ha c hc ha0 hc0 hab hbc).elim le_of_lt fun hlevel => hlevel.1.le
    case inr.inr.inr =>
      rw [hle ha0 hb0] at hab
      rw [hle hb0 hc0] at hbc
      exact (hle ha0 hc0).mpr (hab.trans hbc)
    all_goals exact htime (by simp [ha0, hb0]) (by simp [hb0, hc0]) (by simp [ha0, hc0])

/-- The room's messages stand in the order, and sorting them with a batch that goes on from them
changes nothing. -/
def InOrder (sort : MessageSort) (messages : List Message) (room : RoomLiveState) : Prop :=
  room.messages.Pairwise (fun a b => messageLe a b) ∧ ∀ batch ⊆ messages, room.canAppendInOrder batch →
    sort.sort (room.messages ++ batch) = room.messages ++ batch

theorem inOrder_applyBatches (sort : MessageSort)
    (h : Ordered messages) (hotWindow : Nat) (batches : List (List Message))
    (hroom : room.messages ⊆ messages)
    (hsorted : room.messages.Pairwise fun a b => messageLe a b)
    (hbatches : ∀ batch ∈ batches, batch ⊆ messages) :
    InOrder sort messages (room.applyBatches sort hotWindow batches) := by
  induction batches generalizing room with
  | nil =>
    refine ⟨hsorted, fun batch hbatch hcan => ?_⟩
    change sort.sort (room.messages ++ batch) = room.messages ++ batch
    have ho : Ordered (room.messages ++ batch) := h.mono (append_subset.mpr ⟨hroom, hbatch⟩)
    rw [sort.stable _ (fun a _ b _ => messageLe_total a b) ho]
    exact mergeSort_of_pairwise (ho.pairwise (isChain_of_canAppendInOrder hsorted.isChain hcan))
  | cons batch batches ih =>
    obtain ⟨hbatch, hbatches⟩ := forall_mem_cons.mp hbatches
    by_cases hne : batch = []
    · exact ih (by simpa [RoomLiveState.applyMessages, hne] using hroom)
        (by simpa [RoomLiveState.applyMessages, hne] using hsorted) hbatches
    · have ho : Ordered (room.messages ++ batch) := h.mono (append_subset.mpr ⟨hroom, hbatch⟩)
      obtain ⟨window, hperm, hpairwise, hmessages⟩ := applyMessages_ordered sort hotWindow hsorted.isChain ho hne
      have hsub : (window.rtake hotWindow).Sublist window := drop_sublist ..
      refine ih ?_ (hmessages ▸ hpairwise.sublist hsub) hbatches
      rw [hmessages]
      exact fun m hm => append_subset.mpr ⟨hroom, hbatch⟩ (hperm.mem_iff.mp (hsub.subset hm))

/-- The order is one, and rooms keep it, where no volatile message stands between logged ones
against their LSNs. -/
theorem room_order_iff (sort : MessageSort) (messages : List Message) :
    ((∀ a ∈ messages, ∀ b ∈ messages,
    messageLe a b ∨ messageLe b a) ∧ Ordered messages ∧ ∀ hotWindow batches,
    (∀ batch ∈ batches, batch ⊆ messages) →
    InOrder sort messages (RoomLiveState.new.applyBatches sort hotWindow batches)) ↔
    SplitsByLsn messages := by
  rw [← ordered_iff]
  refine ⟨fun h => h.2.1, fun h => ⟨fun a _ b _ => messageLe_total a b, h, fun hotWindow batches hbatches => ?_⟩⟩
  exact inOrder_applyBatches sort h hotWindow batches (List.nil_subset _) .nil hbatches

/-- A volatile message of a time between those of two logged messages, of which the later was logged
first. -/
theorem order_cycle : ¬ ∀ messages : List Message, Ordered messages := by
  intro h
  have hcycle := h [timedMessage 1 10, timedMessage 2 3,
    timedMessage 0 5] (timedMessage 2 3) (by decide) (timedMessage 0 5) (by decide) (timedMessage 1 10) (by decide)
  revert hcycle
  decide +kernel

end NextDb.Actor
