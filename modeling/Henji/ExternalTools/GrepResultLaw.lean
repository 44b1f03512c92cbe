import Henji.ExternalTools.GrepResult
import Mathlib.Data.List.Induction

/-!
# What a search returns

Which matches are returned depends on the matches alone: they are chosen one by one, as long as they
have room among the matches before them. Contexts are in the order of the search and cost no match
its place, and a result keeps its size without the loop at its end.

Results:
1. `evict_spec`, `append_match`: a match is kept exactly when it has room among the kept matches.
2. `accumulated_accept`: what the accumulator knows and keeps after every event.
3. `search_result`: the records and the totals of a finished search.
-/

namespace Henji.GrepTool

open JsonShape

variable {search : GrepSearch} {acc : ResultAccumulator} {kept : KeptRecords} {record : KeptRecord}
  {records rows : List KeptRecord} {pending : List PendingLine} {reservedBytes : Nat}

/-! ## Sizes -/

theorem joinedBytes_insert (front rest : List Nat) (part : Nat) :
    joinedBytes (front ++ part :: rest) =
      joinedBytes (front ++ rest) + (part + if 1 < (front ++ part :: rest).length then 1 else 0) := by
  simp only [joinedBytes, List.sum_append, List.sum_cons, List.length_append, List.length_cons]
  split <;> omega

theorem joinedBytes_sublist {first second : List Nat} (h : first.Sublist second) :
    joinedBytes first ≤ joinedBytes second := by
  have hsum : first.sum ≤ second.sum := by
    induction h with
    | slnil => exact Nat.le_refl _
    | cons part _ ih =>
      rw [List.sum_cons]
      omega
    | cons_cons part _ ih =>
      rw [List.sum_cons, List.sum_cons]
      omega
  have hlength := h.length_le
  unfold joinedBytes
  omega

def recordsBytes (records : List KeptRecord) : Nat := joinedBytes (records.map KeptRecord.size)

theorem recordsBytes_append_singleton (records : List KeptRecord) (record : KeptRecord) :
    recordsBytes (records ++ [record]) =
      recordsBytes records + ((if records.isEmpty then 0 else 1) + record.size) := by
  unfold recordsBytes
  rw [List.map_append, List.map_singleton, joinedBytes_append_singleton, List.isEmpty_map,
    Nat.add_comm record.size]

/-- Records take no more than their part of a result. -/
def HasRoom (search : GrepSearch) (records : List KeptRecord) (reservedBytes : Nat) : Prop :=
  recordsBytes records + reservedBytes + RESULT_ENVELOPE_BYTES ≤ search.maximumBytes

instance (search : GrepSearch) (records : List KeptRecord) (reservedBytes : Nat) :
    Decidable (HasRoom search records reservedBytes) :=
  inferInstanceAs (Decidable (_ ≤ _))

theorem HasRoom.of_sublist {others : List KeptRecord} (h : HasRoom search records reservedBytes)
    (hsublist : others.Sublist records) : HasRoom search others reservedBytes := by
  have hbytes : recordsBytes others ≤ recordsBytes records :=
    joinedBytes_sublist (hsublist.map KeptRecord.size)
  unfold HasRoom at *
  omega

theorem HasRoom.reserve_zero (h : HasRoom search records reservedBytes) : HasRoom search records 0 := by
  unfold HasRoom at *
  omega

theorem fits_iff : search.fits (recordsBytes records) records.isEmpty record.size reservedBytes = true ↔
    HasRoom search (records ++ [record]) reservedBytes := by
  unfold GrepSearch.fits HasRoom
  rw [recordsBytes_append_singleton, decide_eq_true_eq]
  omega

/-! ## Evicting -/

/-- The records that are not contexts. -/
def matchesOf (records : List KeptRecord) : List KeptRecord :=
  records.filter fun record => !record.isContext

def contextsOf (records : List KeptRecord) : List KeptRecord :=
  records.filter KeptRecord.isContext

theorem matchesOf_append (first second : List KeptRecord) :
    matchesOf (first ++ second) = matchesOf first ++ matchesOf second := List.filter_append ..

theorem contextsOf_append (first second : List KeptRecord) :
    contextsOf (first ++ second) = contextsOf first ++ contextsOf second := List.filter_append ..

theorem matchesOf_match (h : record.isContext = false) (records : List KeptRecord) :
    matchesOf (record :: records) = record :: matchesOf records :=
  List.filter_cons_of_pos (by rw [h]; rfl)

theorem matchesOf_context (h : record.isContext = true) (records : List KeptRecord) :
    matchesOf (record :: records) = matchesOf records :=
  List.filter_cons_of_neg (by rw [h]; exact Bool.false_ne_true)

theorem contextsOf_match (h : record.isContext = false) (records : List KeptRecord) :
    contextsOf (record :: records) = contextsOf records :=
  List.filter_cons_of_neg (by rw [h]; exact Bool.false_ne_true)

theorem contextsOf_context (h : record.isContext = true) (records : List KeptRecord) :
    contextsOf (record :: records) = record :: contextsOf records :=
  List.filter_cons_of_pos h

/-- What is left of records after an eviction: all of the matches. -/
structure Evicted (records left : List KeptRecord) (evictions : Nat) : Prop where
  sublist : left.Sublist records
  kept : matchesOf left = matchesOf records
  contexts : (contextsOf left).length + evictions = (contextsOf records).length

theorem Evicted.refl (records : List KeptRecord) : Evicted records records 0 :=
  ⟨List.Sublist.refl _, rfl, rfl⟩

theorem Evicted.match_cons {left : List KeptRecord} {evictions : Nat}
    (h : Evicted records left evictions) (hrecord : record.isContext = false) :
    Evicted (record :: records) (record :: left) evictions where
  sublist := h.sublist.cons_cons record
  kept := by rw [matchesOf_match hrecord, matchesOf_match hrecord, h.kept]
  contexts := by rw [contextsOf_match hrecord, contextsOf_match hrecord, h.contexts]

theorem Evicted.context_cons {left : List KeptRecord} {evictions : Nat}
    (h : Evicted records left evictions) (hrecord : record.isContext = true) :
    Evicted (record :: records) left (evictions + 1) where
  sublist := h.sublist.cons record
  kept := by rw [matchesOf_context hrecord, h.kept]
  contexts := by rw [contextsOf_context hrecord, List.length_cons, ← h.contexts, Nat.add_assoc]

theorem recordsBytes_without (front rest : List KeptRecord) (record : KeptRecord) :
    recordsBytes (front ++ record :: rest) -
      (record.size + if 1 < (front ++ record :: rest).length then 1 else 0) =
        recordsBytes (front ++ rest) := by
  have hinsert := joinedBytes_insert (front.map KeptRecord.size) (rest.map KeptRecord.size) record.size
  simp only [← List.map_append, ← List.map_cons, List.length_map] at hinsert
  unfold recordsBytes
  omega

/-- The loop stops at the first eviction that makes room, and finds none only where the matches
alone leave none. -/
theorem evict_spec (records front : List KeptRecord)
    (hfull : ¬HasRoom search (front ++ records ++ [record]) reservedBytes) :
    (search.evict record.size reservedBytes records (recordsBytes (front ++ records))
        (front ++ records).length = none ∧
      ¬HasRoom search (front ++ matchesOf records ++ [record]) reservedBytes) ∨
    ∃ left evictions, search.evict record.size reservedBytes records
        (recordsBytes (front ++ records)) (front ++ records).length =
          some (left, recordsBytes (front ++ left), evictions) ∧
      Evicted records left evictions ∧
      HasRoom search (front ++ left ++ [record]) reservedBytes := by
  induction records generalizing front with
  | nil => exact .inl ⟨rfl, hfull⟩
  | cons row records ih =>
    rw [GrepSearch.evict]
    cases hrow : row.isContext with
    | false =>
      have happend : ∀ rest, front ++ row :: rest = front ++ [row] ++ rest := fun rest =>
        List.append_cons front row rest
      rw [happend records] at hfull
      rw [matchesOf_match hrow, happend records, happend (matchesOf records), Bool.not_false, if_pos rfl]
      obtain ⟨hnone, hroom⟩ | ⟨left, evictions, hsome, hevicted, hroom⟩ := ih (front ++ [row]) hfull
      · rw [hnone]
        exact .inl ⟨rfl, hroom⟩
      · rw [hsome]
        refine .inr ⟨row :: left, evictions, ?_, hevicted.match_cons hrow, ?_⟩
        · rw [happend left]
          rfl
        · rwa [happend left]
    | true =>
      have hlength : (front ++ row :: records).length - 1 = (front ++ records).length := by
        simp only [List.length_append, List.length_cons]
        omega
      have hempty : ((front ++ records).length == 0) = (front ++ records).isEmpty := by
        cases front ++ records <;> rfl
      rw [matchesOf_context hrow, Bool.not_true, if_neg Bool.false_ne_true]
      dsimp only
      rw [recordsBytes_without, hlength, hempty]
      by_cases hroom : HasRoom search (front ++ records ++ [record]) reservedBytes
      · rw [if_pos (fits_iff.mpr hroom)]
        exact .inr ⟨records, 1, rfl, (Evicted.refl records).context_cons hrow, hroom⟩
      · rw [if_neg fun hfits => hroom (fits_iff.mp hfits)]
        obtain ⟨hnone, hnoroom⟩ | ⟨left, evictions, hsome, hevicted, hleft⟩ := ih front hroom
        · rw [hnone]
          exact .inl ⟨rfl, hnoroom⟩
        · rw [hsome]
          exact .inr ⟨left, evictions + 1, rfl, hevicted.context_cons hrow, hleft⟩

namespace KeptRecords

/-- What is kept with a record at the end of those that an eviction leaves. -/
def withRecord (kept : KeptRecords) (left : List KeptRecord) (evictions : Nat)
    (record : KeptRecord) : KeptRecords :=
  { kept with
    records := left ++ [record]
    recordBytes := recordsBytes (left ++ [record])
    returnedContexts := kept.returnedContexts - evictions
    omittedContexts := kept.omittedContexts + evictions }

theorem append_fits (hbytes : kept.recordBytes = recordsBytes kept.records)
    (hroom : HasRoom search (kept.records ++ [record]) reservedBytes) :
    kept.append search record reservedBytes = (true, kept.withRecord kept.records 0 record) := by
  have hfits := fits_iff.mpr hroom
  rw [← hbytes] at hfits
  have hsame : kept.makeRoom search record reservedBytes = kept := by
    rw [makeRoom, hfits]
    rfl
  rw [append, hsame, hfits, withRecord, recordsBytes_append_singleton, ← hbytes]
  rfl

theorem not_fits (hbytes : kept.recordBytes = recordsBytes kept.records)
    (hroom : ¬HasRoom search (kept.records ++ [record]) reservedBytes) :
    search.fits kept.recordBytes kept.records.isEmpty record.size reservedBytes = false := by
  rw [hbytes, Bool.eq_false_iff, Ne, fits_iff]
  exact hroom

theorem append_context (hbytes : kept.recordBytes = recordsBytes kept.records)
    (hrecord : record.isContext = true)
    (hroom : ¬HasRoom search (kept.records ++ [record]) reservedBytes) :
    kept.append search record reservedBytes = (false, kept) := by
  have hsame : kept.makeRoom search record reservedBytes = kept := by
    rw [makeRoom, hrecord, Bool.not_true, Bool.and_false, if_neg Bool.false_ne_true]
  rw [append, hsame, not_fits hbytes hroom]
  rfl

/-- A match is kept exactly when it has room among the kept matches. -/
theorem append_match (hbytes : kept.recordBytes = recordsBytes kept.records)
    (hrecord : record.isContext = false) :
    (¬HasRoom search (matchesOf kept.records ++ [record]) reservedBytes ∧
      kept.append search record reservedBytes = (false, kept)) ∨
    (HasRoom search (matchesOf kept.records ++ [record]) reservedBytes ∧
      ∃ left evictions, kept.append search record reservedBytes =
          (true, kept.withRecord left evictions record) ∧
        Evicted kept.records left evictions ∧ HasRoom search (left ++ [record]) reservedBytes) := by
  by_cases hroom : HasRoom search (kept.records ++ [record]) reservedBytes
  · exact .inr ⟨hroom.of_sublist (List.filter_sublist.append (List.Sublist.refl _)), kept.records, 0,
      append_fits hbytes hroom, Evicted.refl _, hroom⟩
  · have hfits := not_fits hbytes hroom
    have hspec := evict_spec kept.records [] hroom
    rw [List.nil_append, List.nil_append, ← hbytes] at hspec
    obtain ⟨hnone, hnoroom⟩ | ⟨left, evictions, hsome, hevicted, hleft⟩ := hspec
    · have hsame : kept.makeRoom search record reservedBytes = kept := by
        rw [makeRoom, hfits, hrecord, hnone]
        rfl
      refine .inl ⟨hnoroom, ?_⟩
      rw [append, hsame, hfits]
      rfl
    · rw [List.nil_append] at hleft
      have hmade : kept.makeRoom search record reservedBytes =
          { kept with
            records := left
            recordBytes := recordsBytes left
            returnedContexts := kept.returnedContexts - evictions
            omittedContexts := kept.omittedContexts + evictions } := by
        rw [makeRoom, hfits, hrecord, hsome]
        rfl
      refine .inr ⟨?_, left, evictions, ?_, hevicted, hleft⟩
      · rw [← hevicted.kept]
        exact hleft.of_sublist (List.filter_sublist.append (List.Sublist.refl _))
      · rw [append, hmade]
        dsimp only
        rw [fits_iff.mpr hleft, withRecord, recordsBytes_append_singleton]
        rfl

end KeptRecords

/-! ## What a search is about -/

namespace KeptRecord

def isFile : KeptRecord → Bool
  | .line _ => false
  | .file _ => true

end KeptRecord

/-- The record that an event asks for. -/
def GrepSearch.rowOf (search : GrepSearch) : GrepEvent → Option KeptRecord
  | .file absolutePath =>
    if search.allows absolutePath then some (.file (search.workspaceRelative absolutePath)) else none
  | .line absolutePath line text kind =>
    if !search.allows absolutePath then none
    else if search.output = .files then
      if kind = .matched then some (.file (search.workspaceRelative absolutePath)) else none
    else some (.line ⟨search.workspaceRelative absolutePath, line, text, kind⟩)

/-- The rows that count: every matching line, and every file once. -/
def countedFrom (seen : List KeptRecord) : List KeptRecord → List KeptRecord
  | [] => []
  | row :: rows =>
    if row.isContext || (row.isFile && seen.contains row) then countedFrom (row :: seen) rows
    else row :: countedFrom (row :: seen) rows

def counted (rows : List KeptRecord) : List KeptRecord := countedFrom [] rows

/-- One row after the others, if it has room. -/
def fitRow (search : GrepSearch) (kept : List KeptRecord) (row : KeptRecord) : List KeptRecord :=
  if HasRoom search (kept ++ [row]) 0 then kept ++ [row] else kept

/-- The rows that have room among those before them. -/
def fitting (search : GrepSearch) (rows : List KeptRecord) : List KeptRecord :=
  rows.foldl (fitRow search) []

theorem countedFrom_snoc (seen rows : List KeptRecord) (row : KeptRecord) :
    countedFrom seen (rows ++ [row]) = countedFrom seen rows ++
      if row.isContext || (row.isFile && (rows.contains row || seen.contains row)) then []
      else [row] := by
  induction rows generalizing seen with
  | nil =>
    rw [List.nil_append, countedFrom, countedFrom]
    split <;> simp_all [countedFrom]
  | cons first rows ih =>
    have hcontains : (rows.contains row || (first :: seen).contains row) =
        ((first :: rows).contains row || seen.contains row) := by
      rw [List.contains_cons, List.contains_cons, Bool.or_left_comm, Bool.or_assoc]
    rw [List.cons_append, countedFrom, countedFrom, ih, hcontains]
    split
    · rfl
    · rw [List.cons_append]

theorem counted_snoc (rows : List KeptRecord) (row : KeptRecord) :
    counted (rows ++ [row]) = counted rows ++
      if row.isContext || (row.isFile && rows.contains row) then [] else [row] := by
  unfold counted
  rw [countedFrom_snoc, List.contains_nil, Bool.or_false]

theorem fitting_snoc (rows : List KeptRecord) (row : KeptRecord) :
    fitting search (rows ++ [row]) = fitRow search (fitting search rows) row := by
  unfold fitting
  rw [List.foldl_append, List.foldl_cons, List.foldl_nil]

/-! ## The invariant -/

/-- What is kept of the rows so far, with contexts that wait. -/
structure Keeps (search : GrepSearch) (rows : List KeptRecord) (pending : List PendingLine)
    (kept : KeptRecords) : Prop where
  bytes : kept.recordBytes = recordsBytes kept.records
  room : kept.records = [] ∨ HasRoom search kept.records 0
  selection : matchesOf kept.records = fitting search ((counted rows).take search.limit)
  returnedMatches : kept.returnedMatches = (matchesOf kept.records).length
  returnedContexts : kept.returnedContexts = (contextsOf kept.records).length
  order : (kept.records ++ pending.map (KeptRecord.line ·.record)).Sublist rows
  waiting : ∀ item ∈ pending, (KeptRecord.line item.record).isContext = true
  contexts : kept.returnedContexts + kept.omittedContexts + pending.length ≤
    (contextsOf rows).length

/-- A waiting context is left out. -/
theorem Keeps.omit {item : PendingLine} (h : Keeps search rows (item :: pending) kept) {n : Nat}
    (hn : n ≤ 1) :
    Keeps search rows pending { kept with omittedContexts := kept.omittedContexts + n } := by
  have hcontexts := h.contexts
  rw [List.length_cons] at hcontexts
  exact { h with
    order := ((List.sublist_cons_self _ _).append_left kept.records).trans h.order
    waiting := (List.forall_mem_cons.mp h.waiting).2
    contexts := by dsimp only; omega }

theorem keeps_flushContext {item : PendingLine} (h : Keeps search rows (item :: pending) kept)
    (last : Option LineRecord) (trailingOnly : Bool) (reservedBytes : Nat) :
    Keeps search rows pending (kept.flushContext search last trailingOnly reservedBytes item) := by
  have hcontext := (List.forall_mem_cons.mp h.waiting).1
  unfold KeptRecords.flushContext
  split
  · exact h.omit (Nat.le_refl 1)
  · split
    · by_cases hroom : HasRoom search (kept.records ++ [.line item.record]) reservedBytes
      · have horder := h.order
        have hcontexts := h.contexts
        have hmatches : matchesOf (kept.records ++ [.line item.record]) = matchesOf kept.records := by
          rw [matchesOf_append, matchesOf_context hcontext]
          exact List.append_nil _
        rw [List.map_cons, List.append_cons] at horder
        rw [List.length_cons] at hcontexts
        rw [KeptRecords.append_fits h.bytes hroom]
        unfold KeptRecords.withRecord
        refine ⟨rfl, .inr (hroom.reserve_zero), hmatches.trans h.selection,
          h.returnedMatches.trans (congrArg List.length hmatches.symm), ?_, horder,
          (List.forall_mem_cons.mp h.waiting).2, by dsimp only; omega⟩
        dsimp only
        rw [contextsOf_append, contextsOf_context hcontext, List.length_append, h.returnedContexts]
        rfl
      · rw [KeptRecords.append_context h.bytes hcontext hroom]
        exact h.omit (Nat.le_refl 1)
    · exact h.omit (Nat.zero_le 1)

theorem keeps_flushLoop (h : Keeps search rows pending kept) (last : Option LineRecord)
    (trailingOnly : Bool) (reservedBytes : Nat) :
    Keeps search rows []
      (pending.foldl (KeptRecords.flushContext search last trailingOnly reservedBytes) kept) := by
  induction pending generalizing kept with
  | nil => exact h
  | cons item pending ih => exact ih (keeps_flushContext h last trailingOnly reservedBytes)

/-- A row that is not counted, or comes after the limit. -/
theorem Keeps.pass {row : KeptRecord} (h : Keeps search rows pending kept)
    (hcounted : (counted (rows ++ [row])).take search.limit = (counted rows).take search.limit) :
    Keeps search (rows ++ [row]) pending kept := by
  have hcontexts := h.contexts
  exact { h with
    selection := by rw [hcounted, h.selection]
    order := h.order.trans (List.sublist_append_left _ _)
    contexts := by rw [contextsOf_append, List.length_append]; omega }

/-- A row that counts is kept if it has room. -/
theorem keeps_appendMatch (h : Keeps search rows [] kept) (hrecord : record.isContext = false)
    (hcounted : counted (rows ++ [record]) = counted rows ++ [record])
    (hlimit : (counted rows).length < search.limit) :
    Keeps search (rows ++ [record]) [] (kept.appendMatch search record).2 := by
  have hselection : fitting search ((counted (rows ++ [record])).take search.limit) =
      fitRow search (matchesOf kept.records) record := by
    rw [hcounted, List.take_of_length_le (by rw [List.length_append, List.length_singleton]; omega),
      fitting_snoc, h.selection, List.take_of_length_le (Nat.le_of_lt hlimit)]
  have hcontexts := h.contexts
  have hrows : contextsOf (rows ++ [record]) = contextsOf rows := by
    rw [contextsOf_append, contextsOf_match hrecord]
    exact List.append_nil _
  have horder := h.order
  rw [List.map_nil, List.append_nil] at horder
  unfold KeptRecords.appendMatch
  obtain ⟨hnoroom, hsame⟩ | ⟨hroom, left, evictions, hkept, hevicted, hleft⟩ :=
    @KeptRecords.append_match search kept record 0 h.bytes hrecord
  · rw [hsame]
    exact { h with
      selection := by rw [hselection, fitRow, if_neg hnoroom]
      order := h.order.trans (List.sublist_append_left _ _)
      contexts := by rw [hrows]; exact hcontexts }
  · have hcount := hevicted.contexts
    have hreturned := h.returnedContexts
    have hmatches : matchesOf (left ++ [record]) = matchesOf kept.records ++ [record] := by
      rw [matchesOf_append, hevicted.kept, matchesOf_match hrecord]
      rfl
    have hleftContexts : contextsOf (left ++ [record]) = contextsOf left := by
      rw [contextsOf_append, contextsOf_match hrecord]
      exact List.append_nil _
    rw [hkept]
    unfold KeptRecords.withRecord
    refine ⟨rfl, .inr hleft, ?_, ?_, ?_, ?_, h.waiting, ?_⟩
    · rw [hselection, fitRow, if_pos hroom]
      exact hmatches
    · dsimp only
      rw [hmatches, List.length_append, h.returnedMatches]
      rfl
    · dsimp only
      rw [hleftContexts]
      omega
    · rw [List.map_nil, List.append_nil]
      exact (hevicted.sublist.trans horder).append (List.Sublist.refl _)
    · rw [hrows]
      dsimp only at hcontexts ⊢
      omega

/-! ## Events -/

/-- What holds between two events. -/
structure Accumulated (search : GrepSearch) (rows : List KeptRecord) (acc : ResultAccumulator) :
    Prop where
  total : acc.total = (counted rows).length
  selected : acc.selected = min acc.total search.limit
  files : ∀ path, acc.files.contains path = rows.contains (.file path)
  keeps : Keeps search rows acc.pendingContexts acc.kept
  idle : search.output = .files → acc.pendingContexts = []

/-- Files are reported alone only where files are searched for. -/
def GrepEvent.suits (output : OutputMode) : GrepEvent → Prop
  | .file _ => output = .files
  | .line _ _ _ _ => True

theorem contains_snoc_line (rows : List KeptRecord) (line : LineRecord) (path : JsText) :
    (rows ++ [KeptRecord.line line]).contains (.file path) = rows.contains (.file path) := by
  rw [List.contains_append, List.contains_cons, List.contains_nil, Bool.or_false]
  exact Bool.or_false _

theorem accumulated_matchedFile {absolutePath : JsText} (h : Accumulated search rows acc)
    (houtput : search.output = .files) (hallows : search.allows absolutePath = true) :
    Accumulated search (rows ++ [.file (search.workspaceRelative absolutePath)])
      (acc.matchedFile search absolutePath) := by
  have hidle := h.idle houtput
  have hkeeps := h.keeps
  have hselected := h.selected
  have htotal := h.total
  rw [hidle] at hkeeps
  unfold ResultAccumulator.matchedFile
  rw [hallows, Bool.not_true, if_neg Bool.false_ne_true]
  generalize search.workspaceRelative absolutePath = path
  have hsnoc : counted (rows ++ [.file path]) =
      counted rows ++ if acc.files.contains path then [] else [.file path] := by
    rw [h.files]
    exact counted_snoc rows (.file path)
  have hcontains : ∀ other, (rows ++ [KeptRecord.file path]).contains (.file other) =
      (rows.contains (.file other) || other == path) := fun other => by
    rw [List.contains_append, List.contains_cons, List.contains_nil, Bool.or_false]
    congr 1
    rw [Bool.eq_iff_iff, beq_iff_eq, beq_iff_eq, KeptRecord.file.injEq]
  dsimp only
  split
  · next hseen =>
    rw [if_pos hseen, List.append_nil] at hsnoc
    refine ⟨by rw [hsnoc, htotal], hselected, fun other => ?_, ?_, h.idle⟩
    · rw [hcontains, h.files]
      cases hother : other == path with
      | false => rw [Bool.or_false]
      | true => rw [beq_iff_eq.mp hother, ← h.files, hseen]; rfl
    · rw [hidle]
      exact hkeeps.pass (congrArg _ hsnoc)
  · next hseen =>
    rw [if_neg hseen] at hsnoc
    have hlength : (counted (rows ++ [.file path])).length = acc.total + 1 := by
      rw [hsnoc, List.length_append, htotal, List.length_singleton]
    have hfiles : ∀ other, (path :: acc.files).contains other =
        (rows ++ [KeptRecord.file path]).contains (.file other) := fun other => by
      rw [hcontains, List.contains_cons, h.files, Bool.or_comm]
    split
    · next hlimit =>
      refine ⟨hlength.symm, by dsimp only; omega, hfiles, ?_, fun _ => hidle⟩
      dsimp only
      rw [hidle]
      refine hkeeps.pass ?_
      rw [hsnoc, List.take_append_of_le_length (by omega)]
    · next hlimit =>
      refine ⟨hlength.symm, by dsimp only; omega, hfiles, ?_, fun _ => hidle⟩
      dsimp only
      rw [hidle]
      exact keeps_appendMatch hkeeps rfl hsnoc (by omega)

theorem accumulated_enterPath {path : JsText} (h : Accumulated search rows acc) :
    Accumulated search rows (acc.enterPath search path) := by
  unfold ResultAccumulator.enterPath
  split
  · exact h
  · exact ⟨h.total, h.selected, h.files, keeps_flushLoop h.keeps _ _ _, fun _ => rfl⟩

/-- A context waits with others. -/
theorem Accumulated.wait {line : LineRecord} {waiting : List PendingLine}
    (h : Accumulated search rows acc) (absolutePath : JsText) (houtput : search.output ≠ .files)
    (hcontext : (KeptRecord.line line).isContext = true)
    (hwaiting : waiting.Sublist (acc.pendingContexts ++ [⟨absolutePath, line⟩])) :
    Accumulated search (rows ++ [.line line]) { acc with pendingContexts := waiting } := by
  have hcounted : counted (rows ++ [.line line]) = counted rows := by
    rw [counted_snoc, hcontext, Bool.true_or, if_pos rfl, List.append_nil]
  have hlength := hwaiting.length_le
  have hcontexts := h.keeps.contexts
  rw [List.length_append, List.length_singleton] at hlength
  refine ⟨by rw [hcounted, h.total], h.selected,
    fun path => by rw [h.files, contains_snoc_line], { h.keeps with
      selection := by rw [hcounted, h.keeps.selection]
      order := ?_
      waiting := fun item hitem => ?_
      contexts := ?_ }, fun hfiles => absurd hfiles houtput⟩
  · have hmap := hwaiting.map (KeptRecord.line ·.record)
    rw [List.map_append, List.map_singleton] at hmap
    refine (hmap.append_left acc.kept.records).trans ?_
    rw [← List.append_assoc]
    exact h.keeps.order.append (List.Sublist.refl _)
  · obtain hitem | hitem := List.mem_append.mp (hwaiting.subset hitem)
    · exact h.keeps.waiting item hitem
    · rw [List.mem_singleton.mp hitem]
      exact hcontext
  · rw [contextsOf_append, contextsOf_context hcontext, List.length_append, List.length_cons]
    dsimp only
    omega

theorem accumulated_contextLine {absolutePath : JsText} {line : LineRecord}
    (h : Accumulated search rows acc) (houtput : search.output ≠ .files)
    (hcontext : (KeptRecord.line line).isContext = true) :
    Accumulated search (rows ++ [.line line]) (acc.contextLine search absolutePath line) := by
  unfold ResultAccumulator.contextLine
  dsimp only
  split
  · split
    · exact h.wait absolutePath houtput hcontext (List.drop_sublist _ _)
    · exact h.wait absolutePath houtput hcontext (List.Sublist.refl _)
  · split
    · exact h.wait absolutePath houtput hcontext (List.Sublist.refl _)
    · exact h.wait absolutePath houtput hcontext (List.sublist_append_left _ _)

theorem accumulated_matchLine {line : LineRecord} (h : Accumulated search rows acc)
    (hmatch : (KeptRecord.line line).isContext = false) :
    Accumulated search (rows ++ [.line line]) (acc.matchLine search line) := by
  have hcounted : counted (rows ++ [.line line]) = counted rows ++ [.line line] := by
    rw [counted_snoc, hmatch]
    rfl
  have hfiles : ∀ path, acc.files.contains path =
      (rows ++ [KeptRecord.line line]).contains (.file path) :=
    fun path => by rw [contains_snoc_line, h.files]
  have hlength : (counted (rows ++ [.line line])).length = acc.total + 1 := by
    rw [hcounted, List.length_append, h.total, List.length_singleton]
  have htotal := h.total
  have hselected := h.selected
  unfold ResultAccumulator.matchLine
  dsimp only
  split
  · next hlimit =>
    exact ⟨hlength.symm, by dsimp only [ResultAccumulator.flushContexts]; omega, hfiles,
      keeps_appendMatch (keeps_flushLoop h.keeps _ _ _) hmatch hcounted (by omega), fun _ => rfl⟩
  · next hlimit =>
    refine ⟨hlength.symm, by dsimp only [ResultAccumulator.flushContexts]; omega, hfiles, ?_,
      fun _ => rfl⟩
    refine (keeps_flushLoop h.keeps acc.lastKeptMatch true 0).pass ?_
    rw [hcounted, List.take_append_of_le_length (by omega)]

theorem accumulated_accept {event : GrepEvent} (h : Accumulated search rows acc)
    (hevent : event.suits search.output) :
    Accumulated search (rows ++ (search.rowOf event).toList) (search.accept acc event) := by
  cases event with
  | file absolutePath =>
    rw [GrepSearch.accept, GrepSearch.rowOf]
    cases hallows : search.allows absolutePath with
    | false =>
      rw [ResultAccumulator.matchedFile, hallows, if_neg Bool.false_ne_true]
      exact (List.append_nil rows).symm ▸ h
    | true => exact accumulated_matchedFile h hevent hallows
  | line absolutePath line text kind =>
    rw [GrepSearch.accept, ResultAccumulator.matchedLine, GrepSearch.rowOf]
    cases hallows : search.allows absolutePath with
    | false => exact (List.append_nil rows).symm ▸ h
    | true =>
      rw [Bool.not_true, if_neg Bool.false_ne_true, if_neg Bool.false_ne_true]
      by_cases houtput : search.output = .files
      · rw [if_pos houtput, if_pos houtput]
        cases kind with
        | matched => exact accumulated_matchedFile h houtput hallows
        | context => exact (List.append_nil rows).symm ▸ h
      · rw [if_neg houtput, if_neg houtput]
        cases kind with
        | matched => exact accumulated_matchLine (accumulated_enterPath h) rfl
        | context => exact accumulated_contextLine (accumulated_enterPath h) houtput rfl

theorem accumulated_foldl {events : List GrepEvent} (h : Accumulated search rows acc)
    (hevents : ∀ event ∈ events, event.suits search.output) :
    Accumulated search (rows ++ events.filterMap search.rowOf) (events.foldl search.accept acc) := by
  induction events generalizing rows acc with
  | nil => exact (List.append_nil rows).symm ▸ h
  | cons event events ih =>
    rw [List.forall_mem_cons] at hevents
    have hstep := ih (accumulated_accept h hevents.1) hevents.2
    have hrows : (event :: events).filterMap search.rowOf =
        (search.rowOf event).toList ++ events.filterMap search.rowOf := by
      rw [List.filterMap_cons]
      cases search.rowOf event <;> rfl
    rw [hrows, ← List.append_assoc]
    exact hstep

theorem accumulated_accumulate {events : List GrepEvent}
    (hevents : ∀ event ∈ events, event.suits search.output) :
    Accumulated search (events.filterMap search.rowOf) (search.accumulate events) := by
  refine @accumulated_foldl search {} [] events ⟨rfl, (Nat.zero_min _).symm, fun _ => rfl, ⟨rfl, .inl rfl, ?_,
    rfl, rfl, List.Sublist.refl _, fun _ h => absurd h List.not_mem_nil, Nat.le_refl _⟩,
    fun _ => rfl⟩ hevents
  rw [show counted [] = [] from rfl, List.take_nil]
  rfl

/-! ## The size of the result -/


/-- A counter is printed with at most sixteen digits. -/
theorem jsonBytes_counter {n : Nat} (h : n ≤ MAX_SAFE_INTEGER) : jsonBytes (natural n) ≤ 16 := by
  rw [jsonBytes_natural, Nat.length_toDigits_le_iff (by decide) (by decide)]
  exact Nat.lt_of_le_of_lt h (by decide)

theorem numbersPrinted_value (record : KeptRecord) : numbersPrinted record.value = true := by
  cases record with
  | line record =>
    obtain ⟨path, line, text, kind⟩ := record
    cases kind <;>
      simp only [KeptRecord.value, RecordKind.toJson, numbersPrinted, numbersPrintedFields,
        numbersPrinted_natural, Bool.and_self]
  | file path => rfl

theorem numbersPrinted_records (records : List KeptRecord) :
    numbersPrintedItems (records.map KeptRecord.value) = true := by
  induction records with
  | nil => rfl
  | cons record records ih =>
    rw [List.map_cons, numbersPrintedItems, numbersPrinted_value, ih]
    rfl

theorem jsonBytes_records (records : List KeptRecord) :
    jsonBytes (.arr (records.map KeptRecord.value)) = 2 + recordsBytes records := by
  rw [jsonBytes_arr (numbersPrinted_records records), List.map_map]
  rfl

theorem jsonBytes_omitted (first second third fourth : Nat) :
    jsonBytes (.obj [(js "matches", natural first), (js "byLimit", natural second),
      (js "byResultBytes", natural third), (js "contexts", natural fourth)]) =
        52 + jsonBytes (natural first) + jsonBytes (natural second) + jsonBytes (natural third) +
          jsonBytes (natural fourth) := by
  have hmatches : jsonBytes (.str (js "matches")) = 9 := by decide
  have hlimit : jsonBytes (.str (js "byLimit")) = 9 := by decide
  have hbytes : jsonBytes (.str (js "byResultBytes")) = 15 := by decide
  have hcontexts : jsonBytes (.str (js "contexts")) = 10 := by decide
  rw [jsonBytes_obj (by simp only [numbersPrintedFields, numbersPrinted_natural, Bool.and_self])]
  simp only [List.map_cons, List.map_nil, fieldBytes, joinedBytes, List.sum_cons, List.sum_nil,
    List.length_cons, List.length_nil, hmatches, hlimit, hbytes, hcontexts]
  omega

/-- The envelope of a result takes less than what is kept free for it. -/
theorem jsonBytes_payload_le (htotal : acc.total ≤ MAX_SAFE_INTEGER)
    (hselected : acc.selected ≤ acc.total) (hreturned : acc.kept.returnedMatches ≤ acc.total)
    (hcontexts : acc.kept.returnedContexts ≤ MAX_SAFE_INTEGER)
    (homitted : acc.kept.omittedContexts ≤ MAX_SAFE_INTEGER) :
    jsonBytes (acc.payload search) ≤ recordsBytes acc.kept.records + RESULT_ENVELOPE_BYTES := by
  have h1 := jsonBytes_counter htotal
  have h2 := jsonBytes_counter (Nat.le_trans hreturned htotal)
  have h3 := jsonBytes_counter (Nat.le_trans (Nat.sub_le acc.total acc.kept.returnedMatches) htotal)
  have h4 := jsonBytes_counter (Nat.le_trans (Nat.sub_le acc.total search.limit) htotal)
  have h5 := jsonBytes_counter (Nat.le_trans
    (Nat.le_trans (Nat.sub_le acc.selected acc.kept.returnedMatches) hselected) htotal)
  have h6 := jsonBytes_counter homitted
  have h7 := jsonBytes_counter hcontexts
  have hbackend : jsonBytes search.backend.toJson ≤ 6 := by cases search.backend <;> decide
  have houtput : jsonBytes search.output.toJson ≤ 7 := by cases search.output <;> decide
  have hignore : jsonBytes (.bool search.ignoreApplied) ≤ 5 := by
    cases search.ignoreApplied <;> decide
  have htrue : jsonBytes (.bool true) = 4 := by decide
  have hkeys : ([js "backend", js "ignoreApplied", js "searchCompleted", js "output", js "total",
      js "returned", js "omitted", js "contextReturned", js "records"].map
        fun key => jsonBytes (.str key)) = [9, 15, 17, 8, 7, 10, 9, 17, 9] := by decide
  simp only [List.map_cons, List.map_nil, List.cons.injEq] at hkeys
  obtain ⟨hk1, hk2, hk3, hk4, hk5, hk6, hk7, hk8, hk9, -⟩ := hkeys
  have hprinted : numbersPrinted search.backend.toJson = true ∧
      numbersPrinted search.output.toJson = true := by
    constructor
    · cases search.backend <;> rfl
    · cases search.output <;> rfl
  unfold ResultAccumulator.payload
  rw [jsonBytes_obj (by
    simp only [numbersPrintedFields, numbersPrinted, numbersPrinted_natural,
      numbersPrinted_records, hprinted, Bool.and_self])]
  simp only [List.map_cons, List.map_nil, fieldBytes, joinedBytes, List.sum_cons, List.sum_nil,
    List.length_cons, List.length_nil, jsonBytes_omitted, jsonBytes_records, htrue, hk1, hk2, hk3,
    hk4, hk5, hk6, hk7, hk8, hk9, RESULT_ENVELOPE_BYTES]
  omega

/-! ## A finished search -/

theorem fitting_sublist (search : GrepSearch) (rows : List KeptRecord) :
    (fitting search rows).Sublist rows := by
  induction rows using List.reverseRecOn with
  | nil => exact List.Sublist.refl _
  | append_singleton rows row ih =>
    rw [fitting_snoc, fitRow]
    split
    · exact ih.append (List.Sublist.refl _)
    · exact ih.trans (List.sublist_append_left _ _)

/-- Where all rows have room together, each of them fits. -/
theorem fitting_of_room (h : HasRoom search rows 0) : fitting search rows = rows := by
  induction rows using List.reverseRecOn with
  | nil => rfl
  | append_singleton rows row ih =>
    rw [fitting_snoc, ih (h.of_sublist (List.sublist_append_left _ _)), fitRow, if_pos h]

theorem length_countedFrom (seen rows : List KeptRecord) :
    (countedFrom seen rows).length + (contextsOf rows).length ≤ rows.length := by
  induction rows generalizing seen with
  | nil => exact Nat.le_refl _
  | cons row rows ih =>
    have hrest := ih (row :: seen)
    rw [countedFrom]
    cases hrow : row.isContext with
    | true =>
      rw [contextsOf_context hrow, Bool.true_or, if_pos rfl, List.length_cons, List.length_cons]
      omega
    | false =>
      rw [contextsOf_match hrow]
      split
      · rw [List.length_cons]
        omega
      · rw [List.length_cons, List.length_cons]
        omega

theorem shrink_of_fits (h : jsonBytes (acc.payload search) ≤ search.maximumBytes) (left : Nat) :
    acc.shrink search left = acc := by
  cases left with
  | zero => rfl
  | succ left => rw [ResultAccumulator.shrink, if_pos h]

/-- The result of a search fits. Its records are rows of the search in their order; the matches are
those that have room among the matches before them, whatever contexts there are; and every row
that counts is returned, over the limit, or left out for its size. -/
theorem search_result (search : GrepSearch) (events : List GrepEvent)
    (hevents : ∀ event ∈ events, event.suits search.output)
    (hroom : RESULT_ENVELOPE_BYTES ≤ search.maximumBytes)
    (hcount : events.length ≤ MAX_SAFE_INTEGER) :
    let result := (search.accumulate events).close search
    let rows := events.filterMap search.rowOf
    let selection := (counted rows).take search.limit
    (encodeUtf8 ((search.accumulate events).finish search)).length ≤ search.maximumBytes ∧
      result.kept.records.Sublist rows ∧
      matchesOf result.kept.records = fitting search selection ∧
      (HasRoom search selection 0 → matchesOf result.kept.records = selection) ∧
      result.total = (counted rows).length ∧
      result.kept.returnedMatches = (matchesOf result.kept.records).length ∧
      result.kept.returnedMatches + (result.total - search.limit) +
        (result.selected - result.kept.returnedMatches) = result.total ∧
      result.kept.returnedContexts = (contextsOf result.kept.records).length ∧
      result.kept.returnedContexts + result.kept.omittedContexts ≤ (contextsOf rows).length := by
  have haccumulated := accumulated_accumulate hevents
  have hkeeps := keeps_flushLoop haccumulated.keeps (search.accumulate events).lastKeptMatch true 0
  have hclose : (search.accumulate events).close search =
      ((search.accumulate events).flushContexts search true 0).shrink search
        ((search.accumulate events).flushContexts search true 0).kept.records.length := rfl
  have hfinish : (encodeUtf8 ((search.accumulate events).finish search)).length =
      jsonBytes (((search.accumulate events).close search).payload search) := rfl
  have hlength : (events.filterMap search.rowOf).length ≤ events.length :=
    List.length_filterMap_le _ _
  have hsizes := length_countedFrom [] (events.filterMap search.rowOf)
  have htotal := haccumulated.total
  have hselected := haccumulated.selected
  have hcontexts := hkeeps.contexts
  have hreturned := (fitting_sublist search
    ((counted (events.filterMap search.rowOf)).take search.limit)).length_le
  have horder := hkeeps.order
  rw [← hkeeps.selection, ← hkeeps.returnedMatches, List.length_take] at hreturned
  rw [List.length_nil] at hcontexts
  rw [List.map_nil, List.append_nil] at horder
  unfold ResultAccumulator.flushContexts at hclose
  generalize List.foldl _ _ _ = kept at hkeeps hclose hcontexts hreturned horder
  unfold counted at htotal hreturned
  have hpayload := @jsonBytes_payload_le search
    { search.accumulate events with kept, pendingContexts := [] } (by dsimp only; omega)
    (by dsimp only; omega) (by dsimp only; omega) (by dsimp only; omega) (by dsimp only; omega)
  have hfits : jsonBytes (ResultAccumulator.payload search
      { search.accumulate events with kept, pendingContexts := [] }) ≤ search.maximumBytes := by
    refine Nat.le_trans hpayload ?_
    obtain hnone | hsome := hkeeps.room
    · rw [hnone]
      exact hroom
    · exact hsome
  rw [shrink_of_fits hfits] at hclose
  rw [hfinish, hclose]
  exact ⟨hfits, horder, hkeeps.selection,
    fun hall => hkeeps.selection.trans (fitting_of_room hall), htotal, hkeeps.returnedMatches,
    by dsimp only; omega, hkeeps.returnedContexts, hcontexts⟩

/-- A search with room for two short lines. -/
def tightSearch : GrepSearch where
  output := .lines
  context := 1
  limit := 2
  backend := .rg
  ignoreApplied := true
  maximumBytes := RESULT_ENVELOPE_BYTES + 100
  allows := fun _ => true
  workspaceRelative := id

/-- A context is kept until a second match needs its room; the third match is over the limit. -/
def tightEvents : List GrepEvent :=
  [.line (js "a") 1 (js "-") .context, .line (js "a") 2 (js "x") .matched,
    .line (js "a") 3 (js "-") .context, .line (js "a") 4 (js "x") .matched,
    .line (js "b") 1 (js "x") .matched]

theorem search_result_tight :
    (encodeUtf8 ((tightSearch.accumulate tightEvents).finish tightSearch)).length ≤ 2148 ∧
      ((tightSearch.accumulate tightEvents).close tightSearch).kept.records =
        [.line ⟨js "a", 2, js "x", .matched⟩, .line ⟨js "a", 4, js "x", .matched⟩] :=
  ⟨(search_result tightSearch tightEvents
    (fun event hevent => by
      unfold tightEvents at hevent
      simp only [List.mem_cons, List.not_mem_nil, or_false] at hevent
      obtain rfl | rfl | rfl | rfl | rfl := hevent <;> trivial)
    (by decide) (by decide)).1, by decide +kernel⟩

end Henji.GrepTool
