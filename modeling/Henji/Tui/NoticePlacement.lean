import Henji.Tui.KeyedConversation
import Henji.Library.Blocks
import Henji.Library.Runs

/-!
# Splicing a notice is rebuilding the order

`Placed` says that the order of display is the one `rebuildDisplayOrder` computes and that the
indexes are exact. Results:
1. `scan_to`: the scan of `noticeInsertionIndex` stops behind the notices of the anchor that were
   added before.
2. `removeAt_placed`, `insertAt_placed`: one splice and the indexes of its suffix are the rebuilt
   order.
3. `placed_apply`: every operation keeps `Placed`.
4. `notices_placed`: every run ends with the rebuilt order.
-/

namespace Henji

open Blocks

namespace KeyedConversationStore

/-! ## Indexes -/

theorem get?_setIndexes {index : InsMap RowId Nat} {start : Nat} {ids : List RowId} {id : RowId}
    (h : ids.Nodup) :
    (setIndexes index start ids).get? id =
      ((ids.idxOf? id).map (· + start)).or (index.get? id) := by
  induction ids generalizing index start with
  | nil => simp [setIndexes]
  | cons head ids ih =>
    obtain ⟨hout, hids⟩ := List.nodup_cons.mp h
    rw [setIndexes, ih hids, List.idxOf?_cons, InsMap.get?_set]
    by_cases hid : id = head
    · subst hid
      simp [List.idxOf?_eq_none_iff.mpr hout]
    · have hne : (head == id) = false := beq_eq_false_iff_ne.mpr (Ne.symm hid)
      simp only [hne, if_neg hid, Bool.false_eq_true, if_false, Option.map_map]
      congr 2
      funext i
      simp only [Function.comp_apply]
      omega

/-- The index of a list has each id at the place where it stands, and no other id. -/
def Indexed (index : InsMap RowId Nat) (order : List RowId) : Prop :=
  ∀ id, index.get? id = order.idxOf? id

theorem indexed_setIndexes {order : List RowId} (h : order.Nodup) :
    Indexed (setIndexes .empty 0 order) order := by
  intro id
  rw [get?_setIndexes h]
  simp

/-- Indexing a suffix again is enough where the index agrees outside of it. -/
theorem indexed_suffix {index : InsMap RowId Nat} {front rest : List RowId}
    (h : (front ++ rest).Nodup) (hindex : ∀ id, id ∉ rest → index.get? id = front.idxOf? id) :
    Indexed (setIndexes index front.length rest) (front ++ rest) := by
  intro id
  obtain ⟨-, hrest, hdisjoint⟩ := List.nodup_append.mp h
  rw [get?_setIndexes hrest, Places.idxOf?_append]
  by_cases hid : id ∈ rest
  · have hout : front.idxOf? id = none :=
      List.idxOf?_eq_none_iff.mpr fun hmem => hdisjoint id hmem id hid rfl
    obtain ⟨i, hi⟩ := Option.isSome_iff_exists.mp (List.isSome_idxOf?.mpr hid)
    simp [hi, hout]
  · rw [List.idxOf?_eq_none_iff.mpr hid, hindex id hid]
    simp

/-! ## The invariant -/

/-- The semantic ids and the notices are apart, and ordinals go up with the order of the notices. -/
structure Kept (store : KeyedConversationStore) : Prop where
  nodup : store.semanticOrder.Nodup
  known : ∀ id, store.semanticIndexById.has id = decide (id ∈ store.semanticOrder)
  apart : ∀ id ∈ store.notices.keys, id ∉ store.semanticOrder
  ordered : store.notices.keys.Pairwise fun a b => store.ordinalOf a < store.ordinalOf b
  drawn : ∀ id ∈ store.notices.keys, ∃ n, store.noticeOrdinalById.get? id = some n ∧
    n < store.nextNoticeOrdinal

/-- What the store keeps: the rebuilt order on display, and its exact index. -/
structure Placed (store : KeyedConversationStore) : Prop extends Kept store where
  display : store.displayOrder = store.rebuiltOrder
  indexed : Indexed store.indexById store.displayOrder

variable {store : KeyedConversationStore} {id : RowId}

theorem rebuiltOrder_eq_blocks (store : KeyedConversationStore) :
    store.rebuiltOrder = blocks store.semanticOrder store.noticesAt := rfl

theorem mem_noticesAt {anchor : Option RowId} :
    id ∈ store.noticesAt anchor ↔ ∃ placement, store.notices.get? id = some placement ∧
      (store.anchorOf placement).filter (fun id => decide (id ∈ store.semanticOrder)) = anchor := by
  simp only [noticesAt, List.mem_map, List.mem_filter, decide_eq_true_eq, Prod.exists,
    exists_and_right, exists_eq_right, InsMap.mem_entries]

theorem keys_of_mem_noticesAt {anchor : Option RowId} (h : id ∈ store.noticesAt anchor) :
    id ∈ store.notices.keys := by
  obtain ⟨placement, hget, -⟩ := mem_noticesAt.mp h
  exact InsMap.mem_keys.mpr (hget ▸ rfl)

/-- Each notice stands behind one anchor. -/
theorem separate_notices (hnodup : store.semanticOrder.Nodup)
    (hapart : ∀ id ∈ store.notices.keys, id ∉ store.semanticOrder) :
    Separate store.semanticOrder store.noticesAt where
  nodup_heads := hnodup
  nodup _ := store.notices.nodup.sublist (List.filter_sublist.map _)
  once h h' := by
    obtain ⟨placement, hget, rfl⟩ := mem_noticesAt.mp h
    obtain ⟨placement', hget', rfl⟩ := mem_noticesAt.mp h'
    cases hget.symm.trans hget'
    rfl
  apart h := hapart _ (keys_of_mem_noticesAt h)

theorem nodup_rebuiltOrder (hnodup : store.semanticOrder.Nodup)
    (hapart : ∀ id ∈ store.notices.keys, id ∉ store.semanticOrder) : store.rebuiltOrder.Nodup :=
  nodup_blocks (separate_notices hnodup hapart)

/-- The rebuilt order has the semantic ids and the notices. -/
theorem mem_rebuiltOrder :
    id ∈ store.rebuiltOrder ↔ id ∈ store.semanticOrder ∨ id ∈ store.notices.keys := by
  rw [rebuiltOrder_eq_blocks, mem_blocks]
  refine or_congr_right ⟨?_, fun hmem => ?_⟩
  · rintro (h | ⟨_, -, h⟩) <;> exact keys_of_mem_noticesAt h
  · obtain ⟨placement, hget⟩ := Option.isSome_iff_exists.mp (InsMap.mem_keys.mp hmem)
    cases hanchor : (store.anchorOf placement).filter
        (fun id => decide (id ∈ store.semanticOrder)) with
    | none => exact .inl (mem_noticesAt.mpr ⟨placement, hget, hanchor⟩)
    | some anchor =>
      have hsemantic : anchor ∈ store.semanticOrder :=
        of_decide_eq_true (Option.filter_eq_some_iff.mp hanchor).2
      exact .inr ⟨anchor, hsemantic, mem_noticesAt.mpr ⟨placement, hget, hanchor⟩⟩

theorem Placed.displayed (h : store.Placed) :
    id ∈ store.displayOrder ↔ id ∈ store.semanticOrder ∨ id ∈ store.notices.keys := by
  rw [h.display, mem_rebuiltOrder]

theorem Placed.nodup_display (h : store.Placed) : store.displayOrder.Nodup :=
  h.display ▸ nodup_rebuiltOrder h.nodup h.apart

theorem Kept.resolvedAnchor (h : store.Kept) (placement : KeyedNoticePlacement) :
    store.resolvedAnchor placement =
      (store.anchorOf placement).filter fun id => decide (id ∈ store.semanticOrder) := by
  rw [KeyedConversationStore.resolvedAnchor]
  congr 1
  funext id
  exact h.known id

/-! ## Splices -/

theorem removeAt_splices {front rest : List RowId} (h : (front ++ id :: rest).Nodup)
    (hdisplay : store.displayOrder = front ++ id :: rest)
    (hindexed : Indexed store.indexById store.displayOrder) :
    (store.removeAt id front.length).displayOrder = front ++ rest ∧
      Indexed (store.removeAt id front.length).indexById (front ++ rest) := by
  have horder : (store.removeAt id front.length).displayOrder = front ++ rest := by
    simp only [removeAt, reindexFrom, hdisplay]
    rw [List.eraseIdx_append_of_length_le (Nat.le_refl _), Nat.sub_self, List.eraseIdx_zero,
      List.tail_cons]
  refine ⟨horder, ?_⟩
  have hsub : (front ++ rest).Nodup :=
    h.sublist (List.Sublist.append_left (List.sublist_cons_self id rest) front)
  have hdrop : (store.removeAt id front.length).displayOrder.drop front.length = rest := by
    rw [horder, List.drop_left]
  simp only [removeAt, reindexFrom] at hdrop ⊢
  rw [hdrop]
  refine indexed_suffix hsub fun x hx => ?_
  rw [InsMap.get?_erase, hindexed, hdisplay, Places.idxOf?_append]
  obtain ⟨-, -, hdisjoint⟩ := List.nodup_append.mp h
  split
  · next heq =>
    exact (List.idxOf?_eq_none_iff.mpr fun hmem =>
      hdisjoint x hmem id List.mem_cons_self heq).symm
  · next hne =>
    have hout : (id :: rest).idxOf? x = none := by
      rw [List.idxOf?_eq_none_iff, List.mem_cons]
      exact not_or.mpr ⟨hne, hx⟩
    simp [hout]

theorem insertAt_splices {front rest : List RowId} (h : (front ++ id :: rest).Nodup)
    (hdisplay : store.displayOrder = front ++ rest)
    (hindexed : Indexed store.indexById store.displayOrder) :
    (store.insertAt id front.length).displayOrder = front ++ id :: rest ∧
      Indexed (store.insertAt id front.length).indexById (front ++ id :: rest) := by
  have horder : (store.insertAt id front.length).displayOrder = front ++ id :: rest := by
    simp only [insertAt, reindexFrom, hdisplay]
    exact insertIdx_append front rest id
  refine ⟨horder, ?_⟩
  have hdrop : (store.insertAt id front.length).displayOrder.drop front.length = id :: rest := by
    rw [horder, List.drop_left]
  simp only [insertAt, reindexFrom] at hdrop ⊢
  rw [hdrop]
  refine indexed_suffix h fun x hx => ?_
  have hout : rest.idxOf? x = none :=
    List.idxOf?_eq_none_iff.mpr fun hmem => hx (List.mem_cons_of_mem _ hmem)
  rw [hindexed, hdisplay, Places.idxOf?_append, hout]
  simp

/-! ## The scan -/

/-- The scan passes the notices of the anchor that are not newer, and stops at the next id. -/
theorem scan_to {anchor : Option RowId} {ordinal index : Nat} {passed rest : List RowId}
    (hpassed : ∀ id ∈ passed, (∃ placement, store.notices.get? id = some placement ∧
      store.resolvedAnchor placement = anchor) ∧ store.ordinalOf id ≤ ordinal)
    (hrest : ∀ id ∈ rest.head?, ∀ placement, store.notices.get? id = some placement →
      store.resolvedAnchor placement = anchor → ordinal < store.ordinalOf id) :
    store.scanNotices anchor ordinal (passed ++ rest) index = index + passed.length := by
  induction passed generalizing index with
  | nil =>
    cases rest with
    | nil => rfl
    | cons head rest =>
      have hstop := hrest head rfl
      simp only [List.nil_append, scanNotices, List.length_nil, Nat.add_zero]
      cases hget : store.notices.get? head with
      | none => rfl
      | some placement =>
        simp only
        split
        · rfl
        · next hanchor =>
          rw [if_pos (hstop placement hget (Decidable.not_not.mp hanchor))]
  | cons head passed ih =>
    obtain ⟨⟨placement, hget, hanchor⟩, hordinal⟩ := hpassed head List.mem_cons_self
    have hrec := @ih (index + 1) fun id hid => hpassed id (List.mem_cons_of_mem _ hid)
    simp only [List.cons_append, scanNotices, hget, hanchor, ne_eq, not_true_eq_false, if_false,
      if_neg (Nat.not_lt.mpr hordinal), hrec, List.length_cons]
    omega

/-- The notices of some entries that stand behind an anchor. -/
def noticesIn (store : KeyedConversationStore) (entries : List (RowId × KeyedNoticePlacement))
    (anchor : Option RowId) : List RowId :=
  (entries.filter fun notice =>
    decide ((store.anchorOf notice.2).filter (fun id => decide (id ∈ store.semanticOrder)) =
      anchor)).map Prod.fst

theorem noticesIn_append {before after : List (RowId × KeyedNoticePlacement)}
    {anchor : Option RowId} :
    store.noticesIn (before ++ after) anchor =
      store.noticesIn before anchor ++ store.noticesIn after anchor := by
  simp [noticesIn]

theorem exists_of_mem_noticesIn {entries : List (RowId × KeyedNoticePlacement)}
    {anchor : Option RowId} (h : id ∈ store.noticesIn entries anchor) :
    ∃ placement, (id, placement) ∈ entries ∧
      (store.anchorOf placement).filter (fun id => decide (id ∈ store.semanticOrder)) = anchor := by
  obtain ⟨⟨_, placement⟩, hmem, rfl⟩ := List.mem_map.mp h
  obtain ⟨hmem, hanchor⟩ := List.mem_filter.mp hmem
  exact ⟨placement, hmem, of_decide_eq_true hanchor⟩

/-- Right behind the older notices of its anchor is where the scan for a notice stops. -/
theorem scan_between (h : store.Kept) {before after : List (RowId × KeyedNoticePlacement)}
    {placement : KeyedNoticePlacement} {anchor : Option RowId} {rest : List RowId} {index : Nat}
    (hentries : store.notices.entries = before ++ (id, placement) :: after)
    (hrest : ∀ next ∈ rest.head?, next ∈ store.semanticOrder) :
    store.scanNotices anchor (store.ordinalOf id)
        (store.noticesIn before anchor ++ (store.noticesIn after anchor ++ rest)) index =
      index + (store.noticesIn before anchor).length := by
  have hordered := h.ordered
  simp only [InsMap.keys, hentries, List.map_append, List.map_cons] at hordered
  obtain ⟨-, hlater, hearlier⟩ := List.pairwise_append.mp hordered
  refine scan_to (fun x hx => ?_) (fun x hx placement' hget hanchor => ?_)
  · obtain ⟨old, hmem, hanchor⟩ := exists_of_mem_noticesIn hx
    have hget : store.notices.get? x = some old :=
      InsMap.mem_entries.mp (hentries ▸ List.mem_append_left _ hmem)
    refine ⟨⟨old, hget, (h.resolvedAnchor old).trans hanchor⟩, ?_⟩
    exact Nat.le_of_lt (hearlier x (List.mem_map_of_mem hmem) id List.mem_cons_self)
  · cases hafter : store.noticesIn after anchor with
    | nil =>
      -- The next id is an entity, not a notice.
      rw [hafter, List.nil_append] at hx
      exact absurd (hrest x hx) (h.apart x (InsMap.mem_keys.mpr (hget ▸ rfl)))
    | cons head tail =>
      rw [hafter] at hx
      cases hx
      obtain ⟨newer, hmem, -⟩ := exists_of_mem_noticesIn (hafter ▸ List.mem_cons_self)
      exact (List.pairwise_cons.mp hlater).1 _ (List.mem_map_of_mem hmem)

/-! ## Where a notice goes -/

/-- The entities behind their notices, the block of `anchor` with one more notice. -/
structure OneMore (store : KeyedConversationStore) (id : RowId) (anchor : Option RowId)
    (before after : List (RowId × KeyedNoticePlacement)) : Prop where
  same : ∀ head, head ≠ anchor → store.noticesAt head = store.noticesIn (before ++ after) head
  more : store.noticesAt anchor =
    store.noticesIn before anchor ++ id :: store.noticesIn after anchor

theorem Kept.oneMore (h : store.Kept) {placement : KeyedNoticePlacement}
    {before after : List (RowId × KeyedNoticePlacement)}
    (hentries : store.notices.entries = before ++ (id, placement) :: after) :
    OneMore store id (store.resolvedAnchor placement) before after := by
  have hnotices : store.noticesAt = store.noticesIn (before ++ (id, placement) :: after) := by
    rw [← hentries]
    rfl
  rw [h.resolvedAnchor]
  constructor
  · intro head hne
    rw [hnotices, noticesIn_append, noticesIn_append]
    simp [noticesIn, Ne.symm hne]
  · rw [hnotices, noticesIn_append]
    simp [noticesIn]

/-- A notice without an anchor goes behind the older ones before the first entity. -/
theorem exists_insertion_first (h : store.Kept) {placement : KeyedNoticePlacement}
    {before after : List (RowId × KeyedNoticePlacement)}
    (hentries : store.notices.entries = before ++ (id, placement) :: after)
    (hanchor : store.resolvedAnchor placement = none)
    (hdisplay : store.displayOrder =
      blocks store.semanticOrder (store.noticesIn (before ++ after)))
    (hindexed : Indexed store.indexById store.displayOrder) (hnodup : store.displayOrder.Nodup) :
    ∃ front rest, store.displayOrder = front ++ rest ∧
      store.noticeInsertionIndex id = front.length ∧ store.rebuiltOrder = front ++ id :: rest := by
  have hmore := hanchor ▸ h.oneMore hentries
  obtain ⟨rest, hhead, hblocks⟩ :=
    exists_after_first store.semanticOrder (store.noticesIn (before ++ after))
  have hold := hdisplay.trans (hblocks _ fun _ _ => rfl)
  have hnew := hblocks store.noticesAt hmore.same
  rw [noticesIn_append] at hold
  rw [hmore.more, List.append_assoc, List.cons_append] at hnew
  refine ⟨_, _, hold.trans (List.append_assoc _ _ _), ?_, hnew⟩
  have hget : store.notices.get? id = some placement :=
    InsMap.mem_entries.mp (hentries ▸ List.mem_append_right _ List.mem_cons_self)
  -- The scan is over the notices that stand before the first entity.
  have htake : store.noticeInsertionIndex id = store.scanNotices none (store.ordinalOf id)
      (store.noticesIn before none ++ (store.noticesIn after none ++ [])) 0 := by
    simp only [noticeInsertionIndex, hget, hanchor, List.append_nil]
    cases hfirst : store.semanticOrder.head? with
    | none =>
      rw [hfirst, List.head?_eq_none_iff] at hhead
      rw [hhead, List.append_nil] at hold
      simp only [List.take_length, hold]
    | some first =>
      obtain ⟨tail, rfl⟩ : ∃ tail, rest = first :: tail :=
        List.head?_eq_some_iff.mp (hhead.trans hfirst)
      have hplace : store.indexById.get? first =
          some (store.noticesIn before none ++ store.noticesIn after none).length := by
        rw [hindexed, Places.idxOf?_eq_some_iff hnodup, hold,
          List.getElem?_append_right (Nat.le_refl _), Nat.sub_self]
        rfl
      simp only [hplace, Option.getD_some]
      rw [hold, List.take_left]
  rw [htake, scan_between h hentries (by simp), Nat.zero_add]

/-- A notice with an anchor goes behind the older ones of the anchor. -/
theorem exists_insertion_behind (h : store.Kept) {placement : KeyedNoticePlacement}
    {before after : List (RowId × KeyedNoticePlacement)} {anchor : RowId}
    (hentries : store.notices.entries = before ++ (id, placement) :: after)
    (hanchor : store.resolvedAnchor placement = some anchor)
    (hdisplay : store.displayOrder =
      blocks store.semanticOrder (store.noticesIn (before ++ after)))
    (hindexed : Indexed store.indexById store.displayOrder) (hnodup : store.displayOrder.Nodup) :
    ∃ front rest, store.displayOrder = front ++ rest ∧
      store.noticeInsertionIndex id = front.length ∧ store.rebuiltOrder = front ++ id :: rest := by
  have hmore := hanchor ▸ h.oneMore hentries
  have hsemantic : anchor ∈ store.semanticOrder := by
    rw [h.resolvedAnchor] at hanchor
    exact of_decide_eq_true (Option.filter_eq_some_iff.mp hanchor).2
  obtain ⟨front, rest, hhead, hblocks⟩ :=
    exists_around h.nodup hsemantic (store.noticesIn (before ++ after))
  have hold := hdisplay.trans (hblocks _ fun _ _ => rfl)
  have hnew := hblocks store.noticesAt hmore.same
  rw [noticesIn_append, List.append_assoc] at hold
  rw [hmore.more, List.append_assoc, List.cons_append] at hnew
  have hassoc : ∀ more, front ++ anchor :: (store.noticesIn before (some anchor) ++ more) =
      (front ++ anchor :: store.noticesIn before (some anchor)) ++ more := by simp
  refine ⟨front ++ anchor :: store.noticesIn before (some anchor), _,
    hold.trans (hassoc _), ?_, hnew.trans (hassoc _)⟩
  have hget : store.notices.get? id = some placement :=
    InsMap.mem_entries.mp (hentries ▸ List.mem_append_right _ List.mem_cons_self)
  have hplace : store.indexById.get? anchor = some front.length := by
    rw [hindexed, Places.idxOf?_eq_some_iff hnodup, hold,
      List.getElem?_append_right (Nat.le_refl _), Nat.sub_self]
    rfl
  have hdrop : store.displayOrder.drop (front.length + 1) =
      store.noticesIn before (some anchor) ++ (store.noticesIn after (some anchor) ++ rest) := by
    rw [hold]
    simp [List.drop_append]
  simp only [noticeInsertionIndex, hget, hanchor, hplace, hdrop]
  rw [scan_between h hentries hhead]
  simp only [List.length_append, List.length_cons]
  omega

/-- With a notice recorded that is not on display yet, inserting it makes the rebuilt order. -/
theorem insertAt_placed (h : store.Kept) {placement : KeyedNoticePlacement}
    (hget : store.notices.get? id = some placement)
    (hdisplay : store.displayOrder =
      blocks store.semanticOrder (store.noticesIn (store.notices.erase id).entries))
    (hindexed : Indexed store.indexById store.displayOrder) (hnodup : store.displayOrder.Nodup) :
    (store.insertAt id (store.noticeInsertionIndex id)).Placed := by
  obtain ⟨before, after, hentries, herased, -⟩ :=
    InsMap.exists_entries_set store.notices id placement
  rw [InsMap.set_of_get? hget] at hentries
  rw [herased] at hdisplay
  obtain ⟨front, rest, hold, hindex, hnew⟩ : ∃ front rest, store.displayOrder = front ++ rest ∧
      store.noticeInsertionIndex id = front.length ∧
        store.rebuiltOrder = front ++ id :: rest := by
    cases hanchor : store.resolvedAnchor placement with
    | none => exact exists_insertion_first h hentries hanchor hdisplay hindexed hnodup
    | some anchor => exact exists_insertion_behind h hentries hanchor hdisplay hindexed hnodup
  have hrebuilt : (front ++ id :: rest).Nodup := hnew ▸ nodup_rebuiltOrder h.nodup h.apart
  obtain ⟨horder, hplaces⟩ := insertAt_splices hrebuilt hold hindexed
  rw [hindex]
  exact {
    nodup := h.nodup
    known := h.known
    apart := h.apart
    ordered := h.ordered
    drawn := h.drawn
    display := horder.trans hnew.symm
    indexed := horder ▸ hplaces }

/-! ## Operations -/

theorem placed_empty : empty.Placed where
  nodup := List.nodup_nil
  known _ := rfl
  apart _ h := nomatch h
  ordered := List.Pairwise.nil
  drawn _ h := nomatch h
  display := rfl
  indexed _ := rfl

/-- Rows are no part of the order. -/
theorem Placed.of_rows (h : store.Placed) (rows : InsMap RowId UiLogEntry) :
    Placed { store with rows := rows } where
  nodup := h.nodup
  known := h.known
  apart := h.apart
  ordered := h.ordered
  drawn := h.drawn
  display := h.display
  indexed := h.indexed

theorem Kept.rebuild (h : store.Kept) : store.rebuildDisplayOrder.Placed where
  nodup := h.nodup
  known := h.known
  apart := h.apart
  ordered := h.ordered
  drawn := h.drawn
  display := rfl
  indexed := indexed_setIndexes (nodup_rebuiltOrder h.nodup h.apart)

theorem has_setIndexes {ids : List RowId} (h : ids.Nodup) :
    (setIndexes .empty 0 ids).has id = decide (id ∈ ids) := by
  rw [InsMap.has, indexed_setIndexes h id, Bool.eq_iff_iff, List.isSome_idxOf?, decide_eq_true_eq]

theorem replaceSemanticOrder_placed (h : store.Placed) {order : List RowId}
    (hnodup : (order.filter store.rows.has).Nodup)
    (hapart : ∀ id ∈ store.notices.keys, id ∉ order) :
    (store.replaceSemanticOrder order).Placed := by
  have hkeys : ∀ f, (store.notices.mapValues f).keys = store.notices.keys :=
    fun f : KeyedNoticePlacement → KeyedNoticePlacement =>
      InsMap.keys_mapValues f store.notices.entries
  refine Kept.rebuild ⟨hnodup, fun id => has_setIndexes hnodup, ?_, ?_, ?_⟩
  · intro id hid hmem
    exact hapart id (hkeys _ ▸ hid) (List.mem_filter.mp hmem).1
  · exact (hkeys _).symm ▸ h.ordered
  · intro id hid
    exact h.drawn id (hkeys _ ▸ hid)

/-- Taking a notice off the display leaves the rebuilt order of the others. -/
theorem filter_display (h : store.Placed) (hapart : id ∉ store.semanticOrder) :
    store.displayOrder.filter (fun x => decide (x ≠ id)) =
      blocks store.semanticOrder (store.noticesIn (store.notices.erase id).entries) := by
  have hheads : ∀ head ∈ store.semanticOrder, decide (head ≠ id) = true :=
    fun head hmem => decide_eq_true fun heq => hapart (heq ▸ hmem)
  rw [h.display, rebuiltOrder_eq_blocks, filter_blocks hheads]
  congr 1
  funext anchor
  simp only [noticesAt, noticesIn, InsMap.erase, List.filter_map, List.filter_filter]
  congr 1
  refine List.filter_congr fun notice _ => ?_
  simp only [Function.comp_apply]
  exact Bool.and_comm _ _

/-- A notice on display is spliced out at its index. -/
theorem exists_splice_out (h : store.Placed) (hid : id ∈ store.notices.keys) :
    ∃ index, store.indexById.get? id = some index ∧
      (store.removeAt id index).displayOrder =
        blocks store.semanticOrder (store.noticesIn (store.notices.erase id).entries) ∧
      Indexed (store.removeAt id index).indexById (store.removeAt id index).displayOrder ∧
      (store.removeAt id index).displayOrder.Nodup := by
  obtain ⟨front, rest, horder⟩ := List.append_of_mem (h.displayed.mpr (.inr hid))
  have hnodup : (front ++ id :: rest).Nodup := horder ▸ h.nodup_display
  obtain ⟨hdisplay, hindexed⟩ := removeAt_splices hnodup horder h.indexed
  have hplace : store.indexById.get? id = some front.length := by
    rw [h.indexed, horder, Places.idxOf?_eq_some_iff hnodup,
      List.getElem?_append_right (Nat.le_refl _), Nat.sub_self]
    rfl
  obtain ⟨-, hrest, hdisjoint⟩ := List.nodup_append.mp hnodup
  have hfilter : store.displayOrder.filter (fun x => decide (x ≠ id)) = front ++ rest := by
    rw [horder, List.filter_append, List.filter_cons_of_neg (by simp)]
    congr 1
    · exact List.filter_eq_self.mpr fun x hx =>
        decide_eq_true (hdisjoint x hx id List.mem_cons_self)
    · exact List.filter_eq_self.mpr fun x hx =>
        decide_eq_true fun heq => (List.nodup_cons.mp hrest).1 (heq ▸ hx)
  refine ⟨front.length, hplace, ?_, hdisplay ▸ hindexed, ?_⟩
  · rw [hdisplay, ← hfilter, filter_display h (h.apart id hid)]
  · rw [hdisplay]
    exact hnodup.sublist (List.Sublist.append_left (List.sublist_cons_self id rest) front)

theorem removeNotice_placed (h : store.Placed) : (store.removeNotice id).2.Placed := by
  cases hhas : store.notices.has id with
  | false => simpa [removeNotice, hhas] using h
  | true =>
    have hid : id ∈ store.notices.keys := InsMap.mem_keys.mpr hhas
    obtain ⟨index, hplace, hdisplay, hindexed, -⟩ := exists_splice_out h hid
    have hsub : (store.notices.erase id).keys.Sublist store.notices.keys :=
      List.filter_sublist.map _
    have hordinal : ∀ x ∈ (store.notices.erase id).keys,
        (store.noticeOrdinalById.erase id).get? x = store.noticeOrdinalById.get? x := by
      intro x hx
      rw [InsMap.get?_erase, if_neg (InsMap.mem_keys_erase.mp hx).1]
    simp only [removeNotice, hhas, Bool.not_true, Bool.false_eq_true, if_false, hplace]
    exact {
      nodup := h.nodup
      known := h.known
      apart := fun x hx => h.apart x (hsub.subset hx)
      ordered := (h.ordered.sublist hsub).imp_of_mem fun hx hy hlt => by
        simp only [ordinalOf, removeAt, reindexFrom, hordinal _ hx, hordinal _ hy]
        exact hlt
      drawn := fun x hx => by
        obtain ⟨n, hn, hlt⟩ := h.drawn x (hsub.subset hx)
        exact ⟨n, (hordinal x hx).trans hn, hlt⟩
      display := hdisplay
      indexed := hindexed }

/-- A new notice draws the next ordinal and stands last. -/
theorem Kept.add (h : store.Kept) {placement : KeyedNoticePlacement}
    (hnew : id ∉ store.notices.keys) (hapart : id ∉ store.semanticOrder) :
    Kept { store with
      notices := store.notices.set id placement
      rows := store.rows.set id placement.entry
      noticeOrdinalById := store.noticeOrdinalById.set id store.nextNoticeOrdinal
      nextNoticeOrdinal := store.nextNoticeOrdinal + 1 } := by
  have hold : ∀ x ∈ store.notices.keys,
      (store.noticeOrdinalById.set id store.nextNoticeOrdinal).get? x =
        store.noticeOrdinalById.get? x :=
    fun x hx => InsMap.get?_set_ne _ _ fun heq => hnew (heq ▸ hx)
  refine ⟨h.nodup, h.known, ?_, ?_, ?_⟩
  · intro x hx
    rcases InsMap.mem_keys_set.mp hx with rfl | hx
    · exact hapart
    · exact h.apart x hx
  · simp only [InsMap.keys_set_of_not_mem hnew]
    refine List.pairwise_append.mpr ⟨?_, List.pairwise_singleton _ _, ?_⟩
    · refine h.ordered.imp_of_mem fun hx hy hlt => ?_
      simp only [ordinalOf, hold _ hx, hold _ hy]
      exact hlt
    · intro x hx y hy
      obtain ⟨n, hn, hlt⟩ := h.drawn x hx
      simp only [List.mem_singleton] at hy
      simp only [ordinalOf, hold x hx, hn, hy, InsMap.get?_set_self, Option.getD_some]
      exact hlt
  · intro x hx
    rcases InsMap.mem_keys_set.mp hx with rfl | hx
    · exact ⟨_, InsMap.get?_set_self _ _ _, Nat.lt_succ_self _⟩
    · obtain ⟨n, hn, hlt⟩ := h.drawn x hx
      exact ⟨n, (hold x hx).trans hn, Nat.lt_succ_of_lt hlt⟩

/-- A notice written again keeps its place among the notices. -/
theorem Kept.replace (h : store.Kept) {placement : KeyedNoticePlacement}
    (hold : id ∈ store.notices.keys) :
    Kept { store with
      notices := store.notices.set id placement
      rows := store.rows.set id placement.entry } := by
  have hkeys := InsMap.keys_set_of_mem (v := placement) hold
  exact ⟨h.nodup, h.known, fun x hx => h.apart x (hkeys ▸ hx), hkeys.symm ▸ h.ordered,
    fun x hx => h.drawn x (hkeys ▸ hx)⟩

theorem Kept.removeAt (h : store.Kept) (index : Nat) : (store.removeAt id index).Kept :=
  ⟨h.nodup, h.known, h.apart, h.ordered, h.drawn⟩

/-- The block of a notice depends on its anchor alone. -/
theorem noticesAt_eq_mapValues (store : KeyedConversationStore) (anchor : Option RowId) :
    store.noticesAt anchor = ((store.notices.mapValues store.anchorOf).entries.filter fun notice =>
      decide (notice.2.filter (fun id => decide (id ∈ store.semanticOrder)) = anchor)).map
        Prod.fst := by
  simp only [noticesAt, InsMap.mapValues, List.filter_map, List.map_map]
  rfl

/-- Another entry of a notice with the same anchor leaves every block. -/
theorem noticesAt_set {previous placement : KeyedNoticePlacement}
    (hget : store.notices.get? id = some previous)
    (hanchor : store.anchorOf placement = store.anchorOf previous) :
    noticesAt { store with
      notices := store.notices.set id placement
      rows := store.rows.set id placement.entry } = store.noticesAt := by
  have hsame : (store.notices.set id placement).mapValues store.anchorOf =
      store.notices.mapValues store.anchorOf := by
    rw [InsMap.mapValues_set, hanchor]
    exact InsMap.set_of_get? (by rw [InsMap.get?_mapValues, hget, Option.map_some])
  funext anchor
  rw [noticesAt_eq_mapValues store, ← hsame, noticesAt_eq_mapValues]
  rfl

theorem addNotices_kept {notices : List (RowId × KeyedNoticePlacement)} (h : store.Kept)
    (hnodup : (store.notices.keys ++ notices.map Prod.fst).Nodup)
    (hapart : ∀ notice ∈ notices, notice.1 ∉ store.semanticOrder) :
    (store.addNotices notices).Kept := by
  induction notices generalizing store with
  | nil => exact h
  | cons notice notices ih =>
    obtain ⟨id, placement⟩ := notice
    obtain ⟨-, -, hdisjoint⟩ := List.nodup_append.mp hnodup
    have hnew : id ∉ store.notices.keys :=
      fun hmem => hdisjoint id hmem id (by simp) rfl
    refine ih (h.add hnew (hapart _ List.mem_cons_self)) ?_
      fun notice hmem => hapart notice (List.mem_cons_of_mem _ hmem)
    simp only [InsMap.keys_set_of_not_mem hnew, List.append_assoc]
    simpa using hnodup

theorem replaceNotices_placed (h : store.Placed) {placements : List KeyedNoticePlacement}
    (hapart : ∀ placement ∈ placements, placement.entry.id ∉ store.semanticOrder) :
    (store.replaceNotices placements).Placed := by
  have hids : ∀ (placements : List KeyedNoticePlacement)
      (next : InsMap RowId KeyedNoticePlacement), ∀ id ∈ (placements.foldl
        (fun next placement => next.set placement.entry.id placement) next).keys,
      id ∈ next.keys ∨ ∃ placement ∈ placements, placement.entry.id = id := by
    intro placements
    induction placements with
    | nil => exact fun next id hid => .inl hid
    | cons placement placements ih =>
      intro next id hid
      rcases ih _ id hid with hid | ⟨other, hmem, rfl⟩
      · rcases InsMap.mem_keys_set.mp hid with rfl | hid
        · exact .inr ⟨placement, List.mem_cons_self, rfl⟩
        · exact .inl hid
      · exact .inr ⟨other, List.mem_cons_of_mem _ hmem, rfl⟩
  refine Kept.rebuild (addNotices_kept ?_ (InsMap.nodup_keys _) fun notice hmem => ?_)
  · exact ⟨h.nodup, h.known, fun _ hx => absurd hx List.not_mem_nil, List.Pairwise.nil,
      fun _ hx => absurd hx List.not_mem_nil⟩
  · rcases hids placements .empty notice.1 (List.mem_map_of_mem hmem) with hid | ⟨_, hin, heq⟩
    · cases hid
    · exact heq ▸ hapart _ hin

theorem upsertNotice_placed (h : store.Placed) {placement : KeyedNoticePlacement}
    (hapart : placement.entry.id ∉ store.semanticOrder) :
    (store.upsertNotice placement).2.Placed := by
  cases hget : store.notices.get? placement.entry.id with
  | none =>
    -- A new notice is not on display.
    have hnew : placement.entry.id ∉ store.notices.keys := by
      rw [InsMap.mem_keys, hget]
      decide
    simp only [upsertNotice, hget, Option.any_none, Bool.false_eq_true, if_false]
    refine insertAt_placed (h.toKept.add hnew hapart) (InsMap.get?_set_self _ _ _) ?_ h.indexed
      h.nodup_display
    simp only [InsMap.erase_set_self, InsMap.erase_of_not_mem hnew]
    exact h.display
  | some previous =>
    have hid : placement.entry.id ∈ store.notices.keys := InsMap.mem_keys.mpr (hget ▸ rfl)
    obtain ⟨index, hplace, hdisplay, hindexed, hnodup⟩ := exists_splice_out h hid
    simp only [upsertNotice, hget, Option.any_some]
    split
    · next hsame =>
      split
      · exact h
      · -- Only the entry is another one: the notice keeps its anchor.
        simp only [Bool.and_eq_true, beq_iff_eq] at hsame
        have hanchor : store.anchorOf placement = store.anchorOf previous := by
          rw [anchorOf, anchorOf, hsame.1, hsame.2]
        exact {
          toKept := h.toKept.replace hid
          display := by
            rw [rebuiltOrder_eq_blocks, noticesAt_set hget hanchor]
            exact h.display
          indexed := h.indexed }
    · simp only [hplace]
      refine insertAt_placed ((h.toKept.removeAt index).replace hid) (InsMap.get?_set_self _ _ _) ?_ hindexed hnodup
      simp only [InsMap.erase_set_self]
      exact hdisplay

/-! ## Runs -/

/-- Semantic ids come once, and no notice has one of them. -/
def IdsApart (store : KeyedConversationStore) : KeyedOperation → Prop
  | .replaceSemanticOrder order =>
    (order.filter store.rows.has).Nodup ∧ ∀ id ∈ store.notices.keys, id ∉ order
  | .upsertNotice placement => placement.entry.id ∉ store.semanticOrder
  | .replaceNotices placements =>
    ∀ placement ∈ placements, placement.entry.id ∉ store.semanticOrder
  | .set _ _ | .delete _ | .removeNotice _ => True

instance (store : KeyedConversationStore) (operation : KeyedOperation) :
    Decidable (store.IdsApart operation) := by
  cases operation <;> simp only [IdsApart] <;> infer_instance

theorem placed_apply (h : store.Placed) {operation : KeyedOperation}
    (hids : store.IdsApart operation) : (store.apply operation).Placed := by
  cases operation with
  | set id entry => exact h.of_rows _
  | delete id => exact h.of_rows _
  | replaceSemanticOrder order => exact replaceSemanticOrder_placed h hids.1 hids.2
  | upsertNotice placement => exact upsertNotice_placed h hids
  | removeNotice id => exact removeNotice_placed h
  | replaceNotices placements => exact replaceNotices_placed h hids

/-- The display is the rebuilt order with every id once, and the index is its inverse. -/
def DisplayedAsRebuilt (store : KeyedConversationStore) : Prop :=
  store.displayOrder = store.rebuiltOrder ∧ store.displayOrder.Nodup ∧
    (∀ id, id ∈ store.displayOrder ↔ id ∈ store.semanticOrder ∨ id ∈ store.notices.keys) ∧
    ∀ id index, store.indexById.get? id = some index ↔ store.displayOrder[index]? = some id

theorem Placed.displayedAsRebuilt (h : store.Placed) : store.DisplayedAsRebuilt := by
  refine ⟨h.display, h.nodup_display, fun _ => h.displayed, fun id index => ?_⟩
  rw [h.indexed id, Places.idxOf?_eq_some_iff h.nodup_display]

def step (store : KeyedConversationStore) (operation : KeyedOperation) :
    Option KeyedConversationStore :=
  some (store.apply operation)

end KeyedConversationStore

open KeyedConversationStore in
/-- Splicing notices one by one gives the order of display that a rebuild computes. -/
theorem notices_placed {operations : List KeyedOperation} {store : KeyedConversationStore}
    (hids : Runs.Throughout step IdsApart empty operations)
    (hrun : Runs.run step empty operations = some store) : store.DisplayedAsRebuilt := by
  have hplaced : store.Placed :=
    Runs.run_keeps_throughout
      (fun h hids hstep => Option.some.inj hstep ▸ placed_apply h hids) placed_empty hids hrun
  exact hplaced.displayedAsRebuilt

namespace KeyedConversationStore

def row (id : RowId) : UiLogEntry where
  id := id
  executionId := some "e"
  object := 0

def noticeAt (id : RowId) (anchor : Option RowId) : KeyedNoticePlacement where
  entry := { row id with executionId := none }
  afterExecutionId := none
  anchor := anchor

/-- A notice loses its anchor to the row before, another one moves to the tail of its execution. -/
def movedNotices : List KeyedOperation :=
  [.set "a" (row "a"), .set "b" (row "b"), .replaceSemanticOrder ["a", "b"],
    .upsertNotice (noticeAt "n" none), .upsertNotice (noticeAt "m" (some "b")),
    .replaceSemanticOrder ["a"],
    .upsertNotice { noticeAt "n" none with afterExecutionId := some "e" }]

/-- The condition can be met: the moved notice stands before the one that was added later. -/
theorem notices_placed_moved :
    ∃ store, Runs.run step empty movedNotices = some store ∧ store.DisplayedAsRebuilt ∧
      store.displayOrder = ["a", "n", "m"] := by
  obtain ⟨store, hrun, horder⟩ : ∃ store, Runs.run step empty movedNotices = some store ∧
      store.displayOrder = ["a", "n", "m"] := Runs.exists_run (by decide +kernel)
  exact ⟨store, hrun, notices_placed (by decide +kernel) hrun, horder⟩

/-- An order with an id twice shows it twice. -/
def repeatedId : List KeyedOperation :=
  [.set "a" (row "a"), .replaceSemanticOrder ["a", "a"]]

/-- A notice behind an id that stands twice is spliced behind the last one only. -/
def noticeBehindRepeatedId : List KeyedOperation :=
  repeatedId ++ [.upsertNotice (noticeAt "n" (some "a"))]

/-- A notice with the id of a row shows it twice. -/
def noticeOfRow : List KeyedOperation :=
  [.set "a" (row "a"), .replaceSemanticOrder ["a"], .upsertNotice (noticeAt "a" none)]

/-- Without ids apart neither of the three holds: equal to the rebuilt order, every id once, and
indexed by its inverse. -/
theorem repeated_ids_shown :
    (∃ store, Runs.run step empty noticeBehindRepeatedId = some store ∧
      store.displayOrder = ["a", "a", "n"] ∧ store.rebuiltOrder = ["a", "n", "a", "n"] ∧
      ¬ store.DisplayedAsRebuilt) ∧
    ∃ store, Runs.run step empty noticeOfRow = some store ∧
      store.displayOrder = ["a", "a"] ∧ store.indexById.get? "a" = some 1 ∧
      ¬ store.DisplayedAsRebuilt := by
  constructor
  · obtain ⟨store, hrun, horder, hrebuilt⟩ : ∃ store,
        Runs.run step empty noticeBehindRepeatedId = some store ∧
        store.displayOrder = ["a", "a", "n"] ∧ store.rebuiltOrder = ["a", "n", "a", "n"] :=
      Runs.exists_run (by decide +kernel)
    refine ⟨store, hrun, horder, hrebuilt, fun hall => ?_⟩
    have heq := hall.1
    rw [horder, hrebuilt] at heq
    revert heq
    decide
  · obtain ⟨store, hrun, horder, hplace⟩ : ∃ store,
        Runs.run step empty noticeOfRow = some store ∧
        store.displayOrder = ["a", "a"] ∧ store.indexById.get? "a" = some 1 :=
      Runs.exists_run (by decide +kernel)
    refine ⟨store, hrun, horder, hplace, fun hall => ?_⟩
    have hnodup := hall.2.1
    rw [horder] at hnodup
    revert hnodup
    decide

end KeyedConversationStore

end Henji
