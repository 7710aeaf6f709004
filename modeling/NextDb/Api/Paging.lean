import NextDb.Api.Messages
import NextDb.Chat.Steps

/-!
# Paging through a room

A client reads the latest messages of a room, then those before the last one it was given,
and so on until a page is empty. Rooms may be evicted between the pages; each page writes
what it read from the chat log to the hot window.

* `pages_complete`: the pages hold every message of the room when the chat log has it, and
  the hot window has no gap, at the first page.
-/

namespace NextDb.Api.Paging

open Actor Chat Newest Messages List

/-- Rooms leave memory. -/
def evict (rooms : HashMap String RoomLiveState) (evicted : List String) :
    HashMap String RoomLiveState :=
  rooms.filter fun room _ => room ∉ evicted

section

variable (sort : MessageSort) (hotWindow : Nat)

/-- The messages of the pages, and before each the rooms that are evicted. -/
def pages (chatLog : ChatLog) (roomId : String) (limit : Option Nat) :
    List (List String) → Option Nat → HashMap String RoomLiveState → List Message
  | [], _, _ => []
  | evicted :: evictions, beforeLsn, rooms =>
    let page :=
  latestMessages sort hotWindow chatLog (evict rooms evicted) roomId ⟨beforeLsn, limit⟩
    match page.1.messages.getLast? with
    | none => []
    | some last =>
      page.1.messages ++ pages chatLog roomId limit evictions (some last.lsn) page.2

end

variable {sort : MessageSort} {hotWindow : Nat}

/-- The hot window of a room. -/
def windowOf (rooms : HashMap String RoomLiveState) (roomId : String) : List Message :=
  (rooms.getD roomId .new).messages

theorem windowOf_evict (rooms : HashMap String RoomLiveState) (evicted : List String)
    (roomId : String) :
    windowOf (evict rooms evicted) roomId = if roomId ∈
    evicted then [] else windowOf rooms roomId := by
  rw [windowOf, evict, Std.ExtHashMap.getD_eq_getD_getElem?, Std.ExtHashMap.getElem?_filter', windowOf,
    Std.ExtHashMap.getD_eq_getD_getElem?]
  by_cases hmem : roomId ∈ evicted <;> cases rooms[roomId]? <;> simp [hmem, RoomLiveState.new, Option.filter]

/-- Below the cursor, the window has every message of the history above one it has. -/
structure WindowFrom (history : List Message) (beforeLsn : Option Nat) (window : List Message) :
    Prop where
  chain : window.IsChain fun a b => messageLe a b
  subset : ∀ m ∈ window, m ∈ history
  upward : ∀ m ∈ window, below beforeLsn m → ∀ m' ∈ history, below beforeLsn m' → m.lsn < m'.lsn → m' ∈ window

theorem WindowFrom.nil (history : List Message) (beforeLsn : Option Nat) :
    WindowFrom history beforeLsn [] := ⟨.nil, nofun, nofun⟩

variable {beforeLsn : Option Nat} {history window : List Message}

theorem WindowFrom.sorted (h : WindowFrom history beforeLsn window) (hd : Durable history) :
    window.Pairwise fun a b => a.lsn ≤ b.lsn := by
  have hw : Durable window := fun m hm => hd m (h.subset m hm)
  refine ((Ordered.of_durable hw).pairwise h.chain).imp_of_mem fun {a b} ha hb hab => ?_
  rwa [messageLe_of_durable (hw a ha) (hw b hb), decide_eq_true_eq] at hab

theorem below_mono {lsn : Nat} {m : Message} (h : m.lsn < lsn)
    (hb : ∀ before, beforeLsn = some before → lsn ≤ before) :
    below beforeLsn m := by
  cases beforeLsn with
  | none => rfl
  | some before =>
    have := hb before rfl
    simp only [below, Option.all_some, decide_eq_true_eq]
    omega

theorem windowPart_of_durable (hd : Durable window) (beforeLsn : Option Nat) :
    windowPart beforeLsn window = window.filter (below beforeLsn) := by
  rw [windowPart, logged_of_durable hd]
  cases beforeLsn with
  | none => exact (filter_eq_self.mpr fun _ _ => rfl).symm
  | some before => rfl

/-! ## One page -/

theorem mergeMessages_sublist (limit : Nat) (messages : List Message) (merged : List Message) :
    ∃ added :
    List Message, mergeMessages limit messages merged = merged ++ added ∧
    added.Sublist messages := by
  induction messages generalizing merged with
  | nil => exact ⟨[], by simp [mergeMessages], .slnil⟩
  | cons m messages ih =>
    rw [mergeMessages]
    split
    · obtain ⟨added, heq, hs⟩ := ih merged
      exact ⟨added, heq, hs.cons m⟩
    · split
      · exact ⟨[m], rfl, (nil_sublist messages).cons_cons m⟩
      · obtain ⟨added, heq, hs⟩ := ih (merged ++ [m])
        exact ⟨m :: added, by rw [heq, append_assoc, singleton_append], hs.cons_cons m⟩

/-- Messages that leave room for more. -/
theorem mergeMessages_append_eq {limit : Nat}
    (messages rest : List Message) {merged : List Message}
    (hlen : merged.length + messages.length < limit) :
    mergeMessages limit (messages ++ rest) merged =
    mergeMessages limit rest (mergeMessages limit messages merged) := by
  induction messages generalizing merged with
  | nil => rfl
  | cons m messages ih =>
    rw [length_cons] at hlen
    rw [cons_append, mergeMessages, mergeMessages]
    split
    · exact ih (by omega)
    · have hroom : ¬ limit ≤ (merged ++ [m]).length := by
        rw [length_append, length_singleton]
        omega
      rw [if_neg hroom, if_neg hroom]
      exact ih (by rw [length_append, length_singleton]; omega)

/-- A page: it goes down, and has every message below the cursor that is above one of its
own. -/
structure Page (under page : List Message) : Prop where
  sorted : page.Pairwise fun a b => b.lsn ≤ a.lsn
  subset : ∀ m ∈ page, m ∈ under
  upward : ∀ m ∈ page, ∀ m' ∈ under, m.lsn < m'.lsn → m' ∈ page
  nonempty : page = [] → under = []

theorem Page.of_isTop {under page : List Message} (h : IsTop Message.lsn under page.reverse)
    (hnonempty : page = [] → under = []) : Page under page where
  sorted := (pairwise_reverse.mp h.ascending).imp Nat.le_of_lt
  subset m hm := h.subset m (mem_reverse.mpr hm)
  upward m hm m' hm' hlt := mem_reverse.mp (h.upward m (mem_reverse.mpr hm) m' hm' hlt)
  nonempty := hnonempty

/-- What the hot window has, and what the chat log has beside it. -/
theorem Page.merge {under hot messages : List Message} {limit : Nat}
    (hid : ∀ m ∈ under, ∀ m' ∈ under, m.id = m'.id → m = m') (hlt : hot.length < limit)
    (hhot : ∀ m ∈ hot, m ∈ under)
    (hsorted : hot.Pairwise fun a b => b.lsn ≤ a.lsn)
    (hup : ∀ m ∈ hot, ∀ m' ∈ under, m.lsn < m'.lsn → m' ∈ hot)
    (hlogged : IsTop Message.lsn under messages.reverse) (hnonempty : messages = [] → under = []) :
    Page under
    (mergeMessages limit (hot ++ messages) []) ∧
    ∀ m ∈ hot, m ∈ mergeMessages limit (hot ++ messages) [] := by
  have hmessages : ∀ m ∈ messages, m ∈ under := fun m hm => hlogged.subset m (mem_reverse.mpr hm)
  have hnodup : messages.Nodup := nodup_reverse.mp (Nodup.of_map _ hlogged.ascending.nodup)
  obtain ⟨merged, heq, -, hmem, hlen, -⟩ := @mergeMessages_append limit hot [] []
    (fun a ha b hb => hid a (hhot a ha) b (hhot b hb)) nodup_nil (by simpa using hlt)
  obtain ⟨added, hadded, hsublist⟩ := mergeMessages_sublist limit hot []
  have heq : mergeMessages limit hot [] = merged := by rwa [append_nil] at heq
  have hmerged : merged = added := heq.symm.trans hadded
  have hin : ∀ m, m ∈ merged ↔ m ∈ hot := fun m => by rw [hmem]; simp
  let rest := messages.filter (· ∉ merged)
  have hrest : mergeMessages limit (hot ++ messages) [] = merged ++ rest.take (limit - merged.length) := by
    rw [mergeMessages_append_eq hot messages (by simpa using hlt), heq]
    refine mergeMessages_of_nodup messages (fun a ha b hb => ?_) hnodup (by simp at hlen; omega)
    have hunder : ∀ m ∈ merged ++ messages, m ∈ under := fun m hm =>
      (mem_append.mp hm).elim (fun hm => hhot m ((hin m).mp hm)) (hmessages m)
    exact hid a (hunder a ha) b (hunder b hb)
  have htop : IsTop Message.lsn rest (rest.take (limit - merged.length)).reverse := by
    have hall : IsTop Message.lsn rest rest.reverse := by
      refine ⟨?_, fun m hm => mem_reverse.mp hm, fun m _ m' hm' _ => mem_reverse.mpr hm'⟩
      rw [← filter_reverse]
      exact hlogged.ascending.sublist filter_sublist
    exact hall.of_suffix (reverse_suffix.mpr (List.take_prefix ..))
  have hbeside : ∀ m ∈ rest, m ∈ messages ∧ m ∉ hot := fun m hm => by
    obtain ⟨hm, hnot⟩ := mem_filter.mp hm
    exact ⟨hm, fun hhot => (by simpa using hnot : m ∉ merged) ((hin m).mpr hhot)⟩
  have htake : ∀ m ∈ rest.take (limit - merged.length), m ∈ messages ∧ m ∉ hot := fun m hm =>
    hbeside m (mem_of_mem_take hm)
  rw [hrest]
  refine ⟨⟨?_, fun m hm => ?_, fun m hm m' hm' hgt => ?_, fun hnil => ?_⟩, fun m hm => ?_⟩
  · refine pairwise_append.mpr ⟨hmerged ▸ hsorted.sublist hsublist,
      (pairwise_reverse.mp htop.ascending).imp Nat.le_of_lt, fun m hm m' hm' => ?_⟩
    obtain ⟨hlog, hnot⟩ := htake m' hm'
    by_contra hgt
    exact hnot (hup m ((hin m).mp hm) m' (hmessages m' hlog) (Nat.not_le.mp hgt))
  · exact (mem_append.mp hm).elim (fun hm => hhot m ((hin m).mp hm)) fun hm =>
      hmessages m (htake m hm).1
  · by_cases hhot' : m' ∈ hot
    · exact mem_append_left _ ((hin m').mpr hhot')
    · rcases mem_append.mp hm with hm | hm
      · exact absurd (hup m ((hin m).mp hm) m' hm' hgt) hhot'
      · have hlog := hlogged.upward m (mem_reverse.mpr (htake m hm).1) m' hm' hgt
        have hmem' : m' ∈ rest := mem_filter.mpr ⟨mem_reverse.mp hlog, decide_eq_true fun h => hhot' ((hin m').mp h)⟩
        exact mem_append_right _ (mem_reverse.mp (htop.upward m (mem_reverse.mpr hm) m' hmem' hgt))
  · obtain ⟨hmerged, htaken⟩ := append_eq_nil_iff.mp hnil
    have hfull : rest = [] := (take_eq_nil_iff.mp htaken).resolve_left (by
      rw [hmerged, length_nil]
      omega)
    refine hnonempty (filter_eq_nil_iff.mp hfull |> fun h => ?_)
    exact eq_nil_iff_forall_not_mem.mpr fun m hm => h m hm (by simp [hmerged])
  · exact mem_append_left _ ((hin m).mpr hm)

/-- The hot part of a page goes down, and has what is above it. -/
theorem WindowFrom.hot (h : WindowFrom history beforeLsn window) (hd : Durable history)
    (limit : Nat) :
    let hot := ((windowPart beforeLsn window).rtake limit).reverse
    (hot.Pairwise fun a b => b.lsn ≤ a.lsn) ∧ (∀ m ∈ hot, m ∈ history.filter (below beforeLsn)) ∧
      ∀ m ∈ hot, ∀ m' ∈ history.filter (below beforeLsn), m.lsn < m'.lsn → m' ∈ hot := by
  intro hot
  have hpart : windowPart beforeLsn window = window.filter (below beforeLsn) :=
    windowPart_of_durable (fun m hm => hd m (h.subset m hm)) beforeLsn
  have hsorted : (window.filter (below beforeLsn)).Pairwise fun a b => a.lsn ≤ b.lsn :=
    (h.sorted hd).sublist filter_sublist
  have hmem : ∀ m, m ∈ hot → m ∈ window ∧ below beforeLsn m := fun m hm => by
    simp only [hot, hpart, mem_reverse] at hm
    exact mem_filter.mp (mem_of_mem_drop hm)
  refine ⟨pairwise_reverse.mpr ?_, fun m hm => ?_, fun m hm m' hm' hlt => ?_⟩
  · rw [hpart]
    exact hsorted.sublist (drop_sublist ..)
  · exact mem_filter.mpr ⟨h.subset m (hmem m hm).1, (hmem m hm).2⟩
  · obtain ⟨hm', hb'⟩ := mem_filter.mp hm'
    have hin : m' ∈ window.filter (below beforeLsn) :=
      mem_filter.mpr ⟨h.upward m (hmem m hm).1 (hmem m hm).2 m' hm' hb' hlt, hb'⟩
    simp only [hot, hpart, mem_reverse, rtake] at hm ⊢
    generalize (window.filter (below beforeLsn)).length - limit = n at hm ⊢
    rw [← take_append_drop n (window.filter (below beforeLsn))] at hin hsorted
    refine (mem_append.mp hin).resolve_left fun htaken => ?_
    exact absurd hlt (Nat.not_lt.mpr ((pairwise_append.mp hsorted).2.2 m' htaken m hm))

/-- A page of the room, and the hot window below it. -/
theorem latestMessages_page {chatLog : ChatLog} {rooms : HashMap String RoomLiveState}
    {roomId : String} {history : List
    Message} {beforeLsn limit : Option Nat} (hd : Durable history)
    (hroom : ∀ m ∈ history, m.roomId = roomId) (hid : ∀ m
    ∈ history, ∀ m' ∈ history, m.id = m'.id → m = m')
    (hlog : IsTop Message.lsn (history.filter (below beforeLsn))
        (chatLog.latest roomId beforeLsn (normalizeLimit limit)).reverse ∧
      (chatLog.latest roomId beforeLsn (normalizeLimit limit) = [] →
      history.filter (below beforeLsn) = []))
    (h : WindowFrom history beforeLsn (windowOf rooms roomId)) :
    let page := latestMessages sort hotWindow chatLog rooms roomId ⟨beforeLsn, limit⟩
    Page (history.filter (below beforeLsn)) page.1.messages ∧ ∀ last ∈ page.1.messages,
      (∀ m ∈ page.1.messages, last.lsn ≤ m.lsn) →
        WindowFrom history (some last.lsn) (windowOf page.2 roomId) := by
  intro page
  let hot := hotMessages rooms roomId beforeLsn (normalizeLimit limit)
  let messages := chatLog.latest roomId beforeLsn (normalizeLimit limit)
  have hhotEq : hot = ((windowPart beforeLsn (windowOf rooms roomId)).rtake (normalizeLimit limit)).reverse :=
    hotMessages_eq ..
  obtain ⟨hsorted, hhot, hup⟩ := h.hot hd (normalizeLimit limit)
  rw [← hhotEq] at hsorted hhot hup
  have hbelow : ∀ {last : Message}, last ∈ history.filter (below beforeLsn) → ∀ {m : Message}, below (some last.lsn) m →
      below beforeLsn m := by
    intro last hlast m hb
    refine below_mono (by simpa [below] using hb) fun before he => ?_
    have := (mem_filter.mp hlast).2
    rw [he] at this
    exact Nat.le_of_lt (by simpa [below] using this)
  by_cases hge : normalizeLimit limit ≤ hot.length
  · have hpage : page = (⟨roomId, "live", hot⟩, rooms) := if_pos hge
    rw [hpage]
    refine ⟨⟨hsorted, hhot, hup, fun hnil => ?_⟩, fun last hlast _ => ⟨h.chain, h.subset, ?_⟩⟩
    · have := normalizeLimit_pos limit
      rw [show hot = [] from hnil, length_nil] at hge
      omega
    · intro m hm hb m' hm' hb' hlt
      exact h.upward m hm (hbelow (hhot last hlast) hb) m' hm' (hbelow (hhot last hlast) hb') hlt
  · have hlt : hot.length < normalizeLimit limit := Nat.not_le.mp hge
    obtain ⟨answer, source, hpage, hanswer, hkept⟩ : ∃ answer source,
        page = (⟨roomId, source, answer⟩, applyMessages sort hotWindow rooms answer) ∧
        Page (history.filter (below beforeLsn)) answer ∧ ∀ m ∈ hot, m ∈ answer := by
      by_cases hempty : hot = []
      · refine ⟨messages, "chatLog", ?_, .of_isTop hlog.1 hlog.2, by simp [hempty]⟩
        simp only [page, latestMessages]
        rw [if_neg hge, if_neg (by simpa [hot] using hempty)]
      · have hmerge := Page.merge (fun m hm m' hm' => hid m (mem_filter.mp hm).1 m' (mem_filter.mp hm').1) hlt hhot
          hsorted hup hlog.1 hlog.2
        refine ⟨_, "live", ?_, hmerge⟩
        simp only [page, latestMessages]
        rw [if_neg hge, if_pos (by simpa [hot] using hempty)]
    rw [hpage]
    refine ⟨hanswer, fun last hlast hleast => ?_⟩
    have hrooms : windowOf (applyMessages sort hotWindow rooms answer) roomId =
        ((rooms.getD roomId .new).applyMessages sort answer hotWindow).messages := by
      rw [applyMessages_room (ne_nil_of_mem hlast) fun m hm =>
        hroom m (mem_filter.mp (hanswer.subset m hm)).1, windowOf, Std.ExtHashMap.getD_insert_self]
    have hdurable : Durable (windowOf rooms roomId ++ answer) :=
      Durable.append.mpr ⟨fun m hm => hd m (h.subset m hm), fun m hm => hd m (mem_filter.mp (hanswer.subset m hm)).1⟩
    obtain ⟨window, hperm, hpairwise, hmessages⟩ :=
      applyMessages_ordered sort hotWindow h.chain (Ordered.of_durable hdurable) (ne_nil_of_mem hlast)
    show WindowFrom history (some last.lsn) (windowOf (applyMessages sort hotWindow rooms answer) roomId)
    rw [hrooms, hmessages]
    have hfrom : ∀ m ∈ window.rtake hotWindow, m ∈ windowOf rooms roomId ∨ m ∈ answer := fun m hm =>
      mem_append.mp (hperm.mem_iff.mp (mem_of_mem_drop hm))
    refine ⟨(hpairwise.isChain).suffix (drop_suffix ..), fun m hm => ?_, fun m hm hb => ?_⟩
    · exact (hfrom m hm).elim (h.subset m) fun hm => (mem_filter.mp (hanswer.subset m hm)).1
    · exfalso
      have hlt' : m.lsn < last.lsn := by simpa [below] using hb
      rcases hfrom m hm with hold | hnew
      · have hpart : m ∈ hot := by
          rw [hhotEq, mem_reverse]
          rw [hhotEq, length_reverse, rtake, length_drop] at hlt
          rw [rtake, show (windowPart beforeLsn (windowOf rooms roomId)).length -
            normalizeLimit limit = 0 by omega, drop_zero,
            windowPart_of_durable (fun m hm => hd m (h.subset m hm))]
          exact mem_filter.mpr ⟨hold, hbelow (hanswer.subset last hlast) hb⟩
        exact absurd hlt' (Nat.not_lt.mpr (hleast m (hkept m hpart)))
      · exact absurd hlt' (Nat.not_lt.mpr (hleast m hnew))

/-! ## All pages -/

/-- Enough pages hold every message below the cursor. -/
theorem pages_complete {chatLog : ChatLog} {roomId : String} {limit : Option Nat}
    (hd : Durable history)
    (hroom : ∀ m ∈ history, m.roomId = roomId)
    (hid : ∀ m ∈ history, ∀ m' ∈ history, m.id = m'.id → m = m')
    (hlsns : (history.map Message.lsn).Nodup) (hlog : ∀ beforeLsn, IsTop
    Message.lsn (history.filter (below beforeLsn)) (chatLog.latest roomId beforeLsn (normalizeLimit limit)).reverse ∧
    (chatLog.latest roomId beforeLsn (normalizeLimit limit) = [] →
      history.filter (below beforeLsn) = []))
    {evictions : List (List String)} {rooms : HashMap String RoomLiveState}
    (h : WindowFrom history beforeLsn (windowOf rooms roomId))
    (henough : (history.filter (below beforeLsn)).length ≤ evictions.length) :
    ∀ m ∈ history.filter (below beforeLsn),
    m ∈ pages sort hotWindow chatLog roomId limit evictions beforeLsn rooms := by
  induction evictions generalizing beforeLsn rooms with
  | nil =>
    intro m hm
    rw [eq_nil_of_length_eq_zero (Nat.le_zero.mp henough)] at hm
    cases hm
  | cons evicted evictions ih =>
    intro m hm
    have hevicted : WindowFrom history beforeLsn (windowOf (evict rooms evicted) roomId) := by
      rw [windowOf_evict]
      split
      · exact .nil _ _
      · exact h
    obtain ⟨hpage, hwindow⟩ := @latestMessages_page sort hotWindow chatLog _ roomId history beforeLsn limit hd hroom hid
      (hlog beforeLsn) hevicted
    rw [pages]
    revert hpage hwindow
    generalize latestMessages sort hotWindow chatLog (evict rooms evicted) roomId ⟨beforeLsn, limit⟩ = page
    intro hpage hwindow
    rcases eq_nil_or_concat' page.1.messages with hnil | ⟨before, last, hlast⟩
    · rw [hpage.nonempty hnil] at hm
      cases hm
    · have hin : last ∈ page.1.messages := by simp [hlast]
      have hleast : ∀ m ∈ page.1.messages, last.lsn ≤ m.lsn := by
        intro m hm
        have hsorted := hpage.sorted
        rw [hlast] at hm hsorted
        rcases mem_append.mp hm with hm | hm
        · exact (pairwise_append.mp hsorted).2.2 m hm last (by simp)
        · rw [mem_singleton.mp hm]
      rw [show page.1.messages.getLast? = some last by simp [hlast]]
      refine mem_append.mpr ?_
      obtain ⟨hmem, hb⟩ := mem_filter.mp hm
      obtain ⟨hlastMem, hlastBelow⟩ := mem_filter.mp (hpage.subset last hin)
      rcases lt_trichotomy last.lsn m.lsn with hgt | heq | hlt
      · exact .inl (hpage.upward last hin m hm hgt)
      · exact .inl (inj_on_of_nodup_map hlsns hlastMem hmem heq ▸ hin)
      · refine .inr (ih (hwindow last hin hleast) ?_ m (mem_filter.mpr ⟨hmem, by simpa [below] using hlt⟩))
        have hfewer : history.filter (below (some last.lsn)) =
            (history.filter (below beforeLsn)).filter (below (some last.lsn)) := by
          rw [filter_filter]
          refine filter_congr fun m' _ => ?_
          by_cases hb' : below (some last.lsn) m' = true
          · rw [hb', Bool.true_and]
            refine (below_mono (by simpa [below] using hb') fun before he => ?_).symm
            rw [he] at hlastBelow
            exact Nat.le_of_lt (by simpa [below] using hlastBelow)
          · rw [Bool.eq_false_iff.mpr hb', Bool.false_and]
        have hless : ((history.filter (below beforeLsn)).filter (below (some last.lsn))).length <
            (history.filter (below beforeLsn)).length :=
          length_filter_lt_length_iff_exists.mpr ⟨last, hpage.subset last hin, by simp [below]⟩
        rw [hfewer]
        rw [length_cons] at henough
        omega

end NextDb.Api.Paging
