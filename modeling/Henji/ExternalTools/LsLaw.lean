import Henji.ExternalTools.LsTool

/-!
# What a listing says

A listing that is not stopped is the whole visible tree, cut at the depth. One that is stopped is a
front of it: the entries before the stop are listed with all that is under them, and of the
directories around the stop only the innermost one is marked.

Results:
1. `nodeBytes_directory`: the size of a directory from the sizes of its children.
2. `listed_loop`, `filled_children`: what the walk adds, and that its sums are right.
3. `directory_listed`: a listing fits, its count is right, and it says how it ended.
-/

namespace Henji.LsTool

open JsonShape

variable {args : LsArguments} {reason : OmissionReason} {below : Nat}
  {entries : List FileTree} {nodes children : List EntryNode}
  {childrenOmitted : Option OmissionReason}

/-! ## Sizes -/

mutual
theorem numbersPrinted_node : (node : EntryNode) → numbersPrinted node.toJson = true
  | .leaf _ _ type => by cases type <;> rfl
  | .directory _ _ type children childrenOmitted => by
    have h := numbersPrinted_entries children
    have hfield : numbersPrintedFields (omittedField childrenOmitted) = true := by
      cases childrenOmitted with
      | none => rfl
      | some reason => cases reason <;> rfl
    rw [EntryNode.toJson]
    cases type <;>
      simp only [EntryType.toJson, numbersPrinted, List.cons_append, List.nil_append,
        numbersPrintedFields, h, hfield, Bool.and_self]

theorem numbersPrinted_entries : (nodes : List EntryNode) →
    numbersPrintedItems (entriesJson nodes) = true
  | [] => rfl
  | node :: nodes => by
    rw [entriesJson, numbersPrintedItems, numbersPrinted_node node, numbersPrinted_entries nodes]
    rfl
end

theorem entriesJson_eq (nodes : List EntryNode) : entriesJson nodes = nodes.map EntryNode.toJson := by
  induction nodes with
  | nil => rfl
  | cons node nodes ih => rw [entriesJson, ih, List.map_cons]

def nodeBytes (node : EntryNode) : Nat := jsonBytes node.toJson

/-- The bytes of nodes in a list, without its brackets. -/
def listBytes (nodes : List EntryNode) : Nat := joinedBytes (nodes.map nodeBytes)

/-- The bytes of the mark of a directory. -/
def markBytes (childrenOmitted : Option OmissionReason) : Nat :=
  childrenOmitted.elim 0 omittedFieldBytes

theorem jsonBytes_entries (nodes : List EntryNode) :
    jsonBytes (.arr (entriesJson nodes)) = 2 + listBytes nodes := by
  rw [jsonBytes_arr (numbersPrinted_entries nodes), entriesJson_eq, List.map_map]
  rfl

/-- A mark takes the bytes that the walk adds for it. -/
theorem omittedFieldBytes_eq (reason : OmissionReason) : omittedFieldBytes reason = 26 ∧
    fieldBytes (js "childrenOmitted", reason.toJson) = 25 := by
  cases reason <;> decide

theorem joinedBytes_marked {parts : List Nat} (h : parts ≠ [])
    (childrenOmitted : Option OmissionReason) :
    joinedBytes (parts ++ (omittedField childrenOmitted).map fieldBytes) =
      joinedBytes parts + markBytes childrenOmitted := by
  cases childrenOmitted with
  | none => rw [omittedField, List.map_nil, List.append_nil]; rfl
  | some reason =>
    have hempty : parts.isEmpty = false := List.isEmpty_eq_false_iff.mpr h
    rw [omittedField, List.map_singleton, joinedBytes_append_singleton, hempty,
      (omittedFieldBytes_eq reason).2, markBytes, Option.elim_some, (omittedFieldBytes_eq reason).1]
    rfl

theorem nodeBytes_directory (name path : JsText) (type : EntryType) (children : List EntryNode)
    (childrenOmitted : Option OmissionReason) :
    nodeBytes (.directory name path type children childrenOmitted) =
      nodeBytes (.directory name path type [] none) + listBytes children +
        markBytes childrenOmitted := by
  have hsize : ∀ children childrenOmitted,
      nodeBytes (.directory name path type children childrenOmitted) =
        2 + (joinedBytes [fieldBytes (js "name", .str name), fieldBytes (js "path", .str path),
          fieldBytes (js "type", type.toJson), fieldBytes (js "children", .arr (entriesJson children))] +
            markBytes childrenOmitted) := by
    intro children childrenOmitted
    have hprinted := numbersPrinted_node (.directory name path type children childrenOmitted)
    rw [nodeBytes]
    rw [EntryNode.toJson] at hprinted ⊢
    rw [jsonBytes_obj (by rw [numbersPrinted] at hprinted; exact hprinted), List.map_append,
      joinedBytes_marked (by simp)]
    rfl
  have hfield : ∀ children, fieldBytes (js "children", .arr (entriesJson children)) =
      jsonBytes (.str (js "children")) + 1 + (2 + listBytes children) := fun children => by
    rw [fieldBytes, jsonBytes_entries]
  rw [hsize, hsize, hfield, hfield]
  have hnil : listBytes [] = 0 := rfl
  have hnone : markBytes none = 0 := rfl
  simp only [joinedBytes, List.sum_cons, List.sum_nil, List.length_cons, List.length_nil, hnil, hnone]
  omega

/-- The bytes of the summary. -/
def summaryBytes (omitted : OmittedSummary) : Nat := jsonBytes omitted.toJson

theorem summaryBytes_eq (omitted : OmittedSummary) : summaryBytes omitted =
    28 + jsonBytes (natural omitted.depth) + jsonBytes (.bool omitted.limit) +
      jsonBytes (.bool omitted.bytes) := by
  have hdepth : jsonBytes (.str (js "depth")) = 7 := by decide
  have hlimit : jsonBytes (.str (js "limit")) = 7 := by decide
  have hbytes : jsonBytes (.str (js "bytes")) = 7 := by decide
  have hprinted : numbersPrinted omitted.toJson = true := by
    simp only [OmittedSummary.toJson, numbersPrinted, numbersPrintedFields,
      numbersPrinted_natural omitted.depth, Bool.and_self]
  unfold summaryBytes OmittedSummary.toJson at *
  rw [jsonBytes_obj (by rw [numbersPrinted] at hprinted; exact hprinted)]
  simp only [List.map_cons, List.map_nil, fieldBytes, joinedBytes, List.sum_cons, List.sum_nil,
    List.length_cons, List.length_nil, hdepth, hlimit, hbytes]
  omega

theorem jsonBytes_true_le : ∀ value : Bool, jsonBytes (.bool true) ≤ jsonBytes (.bool value) := by
  decide

/-! ## The states of the walk -/

namespace LsState

variable (state : LsState)

/-- The size without the summary. -/
def account : Int := state.serializedBytes - summaryBytes state.omitted

theorem account_markChildrenOmitted (reason : OmissionReason) :
    (state.markChildrenOmitted reason).account = state.account + omittedFieldBytes reason := by
  unfold account markChildrenOmitted
  dsimp only
  omega

theorem account_setSummaryFlag (reason : OmissionReason) :
    (state.setSummaryFlag reason).account = state.account := by
  unfold account setSummaryFlag
  split <;> simp only [summaryBytes_eq] <;> omega

theorem account_countDepth : state.countDepth.account = state.account := by
  unfold account countDepth
  simp only [summaryBytes_eq]
  omega

theorem account_stop (reason : OmissionReason) :
    (state.stop reason).account = state.account + omittedFieldBytes reason := by
  have hflag := account_setSummaryFlag (state.markChildrenOmitted reason) reason
  rw [account_markChildrenOmitted] at hflag
  exact hflag

theorem count_stop (reason : OmissionReason) : (state.stop reason).count = state.count := by
  unfold stop setSummaryFlag markChildrenOmitted
  split <;> rfl

theorem serializedBytes_stop_le (reason : OmissionReason) :
    (state.stop reason).serializedBytes ≤ state.serializedBytes + 26 := by
  have hfield := (omittedFieldBytes_eq reason).1
  unfold stop setSummaryFlag markChildrenOmitted
  split
  · have htrue := jsonBytes_true_le state.omitted.limit
    dsimp only
    omega
  · have htrue := jsonBytes_true_le state.omitted.bytes
    dsimp only
    omega

theorem serializedBytes_countDepth_le :
    (state.markChildrenOmitted .depth).countDepth.serializedBytes ≤ state.serializedBytes + 27 := by
  have hfield := (omittedFieldBytes_eq .depth).1
  have hsucc := jsonBytes_natural_succ state.omitted.depth
  unfold countDepth markChildrenOmitted
  dsimp only
  omega

end LsState

/-! ## What is listed -/

/-- The listing of an entry when nothing stops the walk: the tree cut at the depth. -/
def wholeNode (args : LsArguments) : Nat → FileTree → EntryNode
  | 0, entry =>
    if args.tree && entry.type == .directory then
      .directory entry.name entry.path entry.type []
        (if (visibleEntries entry.children).isEmpty then none else some .depth)
    else .leaf entry.name entry.path entry.type
  | below + 1, entry =>
    if args.tree && entry.type == .directory then
      .directory entry.name entry.path entry.type
        ((visibleEntries entry.children).map (wholeNode args below)) none
    else .leaf entry.name entry.path entry.type

/-- The listing of entries where the walk is stopped: in front of one of them, or under it. Only the
directory in which it is stopped gets a mark. -/
inductive Stops (args : LsArguments) (reason : OmissionReason) :
    Nat → List FileTree → List EntryNode → Option OmissionReason → Prop
  | here (below : Nat) (front : List FileTree) (next : FileTree) (rest : List FileTree) :
    Stops args reason below (front ++ next :: rest) (front.map (wholeNode args below)) (some reason)
  | inside {below : Nat} (front : List FileTree) (entry : FileTree) (rest : List FileTree)
    {children : List EntryNode} {childrenOmitted : Option OmissionReason}
    (hdirectory : (args.tree && entry.type == .directory) = true)
    (h : Stops args reason below (visibleEntries entry.children) children childrenOmitted) :
    Stops args reason (below + 1) (front ++ entry :: rest)
      (front.map (wholeNode args (below + 1)) ++
        [.directory entry.name entry.path entry.type children childrenOmitted]) none

mutual
/-- The rows of a tree, a directory before its children. -/
def preorder : EntryNode → List (JsText × EntryType)
  | .leaf _ path type => [(path, type)]
  | .directory _ path type children _ => (path, type) :: preorderAll children

def preorderAll : List EntryNode → List (JsText × EntryType)
  | [] => []
  | node :: nodes => preorder node ++ preorderAll nodes
end

theorem preorderAll_append (first second : List EntryNode) :
    preorderAll (first ++ second) = preorderAll first ++ preorderAll second := by
  induction first with
  | nil => rfl
  | cons node first ih => rw [List.cons_append, preorderAll, ih, preorderAll, List.append_assoc]

theorem preorderAll_singleton (node : EntryNode) : preorderAll [node] = preorder node :=
  List.append_nil _

/-- A stopped listing is a front of the whole one. -/
theorem preorder_of_stops (h : Stops args reason below entries nodes childrenOmitted) :
    preorderAll nodes <+: preorderAll (entries.map (wholeNode args below)) := by
  induction h with
  | here below front next rest =>
    rw [List.map_append, preorderAll_append]
    exact List.prefix_append _ _
  | inside front entry rest hdirectory _ ih =>
    rw [List.map_append, List.map_cons, preorderAll_append, preorderAll_append,
      preorderAll_singleton, List.prefix_append_right_inj, preorderAll]
    refine List.IsPrefix.trans ?_ (List.prefix_append _ _)
    rw [wholeNode, if_pos hdirectory, preorder, preorder]
    exact List.cons_prefix_cons.mpr ⟨rfl, ih⟩

/-! ## The walk -/

/-- The summary after a stop. -/
def flagged (reason : OmissionReason) (omitted : OmittedSummary) : Bool × Bool :=
  (omitted.limit || reason == .limit, omitted.bytes || reason == .bytes)

/-- How far the walk may fill the payload between two insertions, and at its end. -/
def openBytes : Int := RESULT_BYTES - 101

def closedBytes : Int := RESULT_BYTES - 75

/-- What the walk adds to a list of nodes. -/
structure Listed (args : LsArguments) (below : Nat) (entries : List FileTree) (before after : LsState)
    (placed added : List EntryNode) (childrenOmitted : Option OmissionReason) : Prop where
  ends : (after.stopped = false ∧ childrenOmitted = none ∧
      added = entries.map (wholeNode args below) ∧
      (after.omitted.limit, after.omitted.bytes) = (before.omitted.limit, before.omitted.bytes)) ∨
    (after.stopped = true ∧ ∃ reason, Stops args reason below entries added childrenOmitted ∧
      (reason = .limit ∧ after.count = args.limit ∨ reason = .bytes) ∧
      (after.omitted.limit, after.omitted.bytes) = flagged reason before.omitted)
  account : after.account + listBytes placed =
    before.account + listBytes (placed ++ added) + markBytes childrenOmitted
  count : after.count = before.count + (preorderAll added).length
  limit : after.count ≤ args.limit
  room : before.serializedBytes ≤ openBytes →
    after.serializedBytes ≤ if after.stopped then closedBytes else openBytes

/-- What the walk makes of a directory that was inserted. -/
structure Filled (args : LsArguments) (below : Nat) (entry : FileTree) (before after : LsState)
    (node : EntryNode) : Prop where
  ends : (after.stopped = false ∧ node = wholeNode args below entry ∧
      (after.omitted.limit, after.omitted.bytes) = (before.omitted.limit, before.omitted.bytes)) ∨
    (after.stopped = true ∧ ∃ reason under children childrenOmitted, below = under + 1 ∧
      node = .directory entry.name entry.path entry.type children childrenOmitted ∧
      Stops args reason under (visibleEntries entry.children) children childrenOmitted ∧
      (reason = .limit ∧ after.count = args.limit ∨ reason = .bytes) ∧
      (after.omitted.limit, after.omitted.bytes) = flagged reason before.omitted)
  account : after.account + nodeBytes (entryNode args entry) = before.account + nodeBytes node
  count : after.count + 1 = before.count + (preorder node).length
  limit : after.count ≤ args.limit
  room : before.serializedBytes ≤ openBytes - 27 →
    after.serializedBytes ≤ if after.stopped then closedBytes else openBytes

theorem listBytes_insert (placed : List EntryNode) (node : EntryNode) :
    listBytes (placed ++ [node]) =
      listBytes placed + (nodeBytes node + if placed.isEmpty then 0 else 1) := by
  unfold listBytes
  rw [List.map_append, List.map_singleton, joinedBytes_append_singleton, List.isEmpty_map]

/-- The walk is stopped in front of an entry. -/
theorem listed_stop {state : LsState} {entry : FileTree} {placed : List EntryNode}
    (hlimit : state.count ≤ args.limit)
    (hreason : reason = .limit ∧ state.count = args.limit ∨ reason = .bytes) :
    Listed args below (entry :: entries) state (state.stop reason) placed [] (some reason) where
  ends := .inr ⟨rfl, reason, Stops.here below [] entry entries,
    (state.count_stop reason).symm ▸ hreason, by
    obtain ⟨rfl, -⟩ | rfl := hreason
    · simp [LsState.stop, LsState.setSummaryFlag, LsState.markChildrenOmitted, flagged]
    · simp [LsState.stop, LsState.setSummaryFlag, LsState.markChildrenOmitted, flagged]⟩
  account := by
    rw [LsState.account_stop, List.append_nil, markBytes, Option.elim_some]
    omega
  count := state.count_stop reason
  limit := (state.count_stop reason).trans_le hlimit
  room h := by
    have hle := state.serializedBytes_stop_le reason
    have hstopped : (state.stop reason).stopped = true := rfl
    rw [if_pos hstopped]
    unfold openBytes at h
    unfold closedBytes
    omega

/-- The rest of the entries after one that was inserted. -/
theorem listed_cons {state middle after : LsState} {entry : FileTree} {placed added : List EntryNode}
    {node : EntryNode} (hnode : node = wholeNode args below entry)
    (hflags : (middle.omitted.limit, middle.omitted.bytes) =
      (state.omitted.limit, state.omitted.bytes))
    (haccount : middle.account + listBytes placed = state.account + listBytes (placed ++ [node]))
    (hcount : middle.count = state.count + (preorder node).length) (hroom : middle.serializedBytes ≤ openBytes)
    (h : Listed args below entries middle after (placed ++ [node]) added childrenOmitted) :
    Listed args below (entry :: entries) state after placed (node :: added) childrenOmitted where
  ends := by
    subst hnode
    obtain ⟨hopen, hnone, hadded, hsame⟩ | ⟨hstopped, reason, hstops, hreason, hflagged⟩ := h.ends
    · exact .inl ⟨hopen, hnone, hadded ▸ rfl, hsame.trans hflags⟩
    · refine .inr ⟨hstopped, reason, ?_, hreason, ?_⟩
      · cases hstops with
        | here _ front next rest => exact Stops.here below (entry :: front) next rest
        | inside front directory rest hdirectory hinside =>
          exact Stops.inside (entry :: front) directory rest hdirectory hinside
      · rw [hflagged, flagged, flagged]
        rw [Prod.mk.injEq] at hflags
        rw [hflags.1, hflags.2]
  account := by
    have hrest := h.account
    rw [List.append_assoc, List.singleton_append] at hrest
    omega
  count := by
    rw [h.count, hcount, preorderAll, List.length_append, Nat.add_assoc]
  limit := h.limit
  room _ := h.room hroom

/-- A stopped walk adds nothing more. -/
theorem appendLoop_stopped {fill : FileTree → LsState → EntryNode × LsState}
    (entries : List FileTree) (placed : List EntryNode) {state : LsState}
    (h : state.stopped = true) :
    appendLoop args fill entries placed state = (placed, none, state) := by
  cases entries with
  | nil => rfl
  | cons entry entries => rw [appendLoop, if_pos h]

/-- The walk is stopped under a directory that was inserted. -/
theorem listed_inside {state middle after : LsState} {entry : FileTree} {placed : List EntryNode}
    {node : EntryNode} (hdirectory : (args.tree && entry.type == .directory) = true)
    (hflags : (middle.omitted.limit, middle.omitted.bytes) =
      (state.omitted.limit, state.omitted.bytes))
    (haccount : middle.account + listBytes placed =
      state.account + listBytes (placed ++ [entryNode args entry]))
    (hcount : middle.count = state.count + 1)
    (hroom : middle.serializedBytes ≤ openBytes - 27) (hstopped : after.stopped = true)
    (h : Filled args below entry middle after node) :
    Listed args below (entry :: entries) state after placed [node] none where
  ends := by
    obtain ⟨hopen, -⟩ | ⟨-, reason, under, children, omitted, rfl, rfl, hstops, hreason, hflagged⟩ :=
      h.ends
    · exact absurd (hopen.symm.trans hstopped) Bool.false_ne_true
    · refine .inr ⟨hstopped, reason, Stops.inside [] entry entries hdirectory hstops, hreason, ?_⟩
      rw [hflagged, flagged, flagged]
      rw [Prod.mk.injEq] at hflags
      rw [hflags.1, hflags.2]
  account := by
    have hfilled := h.account
    rw [listBytes_insert] at haccount ⊢
    have hnone : markBytes none = 0 := rfl
    rw [hnone]
    omega
  count := by
    have hfilled := h.count
    rw [preorderAll_singleton]
    omega
  limit := h.limit
  room _ := h.room hroom

theorem filled_account {state after : LsState} {entry : FileTree} {node : EntryNode}
    {placed : List EntryNode} {middle : LsState}
    (haccount : middle.account + listBytes placed =
      state.account + listBytes (placed ++ [entryNode args entry]))
    (h : Filled args below entry middle after node) :
    after.account + listBytes placed = state.account + listBytes (placed ++ [node]) := by
  have hfilled := h.account
  rw [listBytes_insert] at haccount ⊢
  omega

/-- The state after an insertion. -/
def inserted (args : LsArguments) (entry : FileTree) (placed : List EntryNode) (state : LsState) :
    LsState :=
  { state with
    serializedBytes := state.serializedBytes +
      (jsonBytes (entryNode args entry).toJson + if placed.isEmpty then 0 else 1 : Nat)
    count := state.count + 1 }

theorem account_inserted (args : LsArguments) (entry : FileTree) (placed : List EntryNode) (state : LsState) :
    (inserted args entry placed state).account + listBytes placed =
      state.account + listBytes (placed ++ [entryNode args entry]) := by
  rw [listBytes_insert]
  unfold LsState.account inserted nodeBytes
  dsimp only
  omega

theorem preorder_entryNode (entry : FileTree) : (preorder (entryNode args entry)).length = 1 := by
  unfold entryNode
  split <;> rfl

/-- A leaf is inserted as it is listed. -/
theorem wholeNode_leaf {entry : FileTree}
    (h : ¬ (args.tree && entry.type == .directory) = true) :
    entryNode args entry = wholeNode args below entry := by
  cases below <;> rw [entryNode, wholeNode, if_neg h, if_neg h]

/-- The loop over the entries of one directory. -/
theorem listed_loop {fill : FileTree → LsState → EntryNode × LsState}
    (hfill : ∀ entry state, (args.tree && entry.type == .directory) = true → state.stopped = false →
      state.count ≤ args.limit → Filled args below entry state (fill entry state).2
        (fill entry state).1)
    (entries : List FileTree) (placed : List EntryNode) (state : LsState)
    (hopen : state.stopped = false) (hlimit : state.count ≤ args.limit) :
    ∃ added childrenOmitted after,
      appendLoop args fill entries placed state = (placed ++ added, childrenOmitted, after) ∧
        Listed args below entries state after placed added childrenOmitted := by
  induction entries generalizing placed state with
  | nil =>
    refine ⟨[], none, state, by rw [appendLoop, List.append_nil], .inl ⟨hopen, rfl, rfl, rfl⟩, ?_,
      rfl, hlimit, fun h => ?_⟩
    · rw [List.append_nil]
      exact (Int.add_zero _).symm
    · rw [hopen]
      exact h
  | cons entry entries ih =>
    rw [appendLoop, if_neg (hopen ▸ Bool.false_ne_true)]
    by_cases hfull : args.limit ≤ state.count
    · rw [if_pos hfull]
      exact ⟨[], _, _, by rw [List.append_nil],
        listed_stop hlimit (.inl ⟨rfl, Nat.le_antisymm hlimit hfull⟩)⟩
    rw [if_neg hfull]
    dsimp only
    by_cases hbytes : (RESULT_BYTES : Int) < state.serializedBytes +
        (jsonBytes (entryNode args entry).toJson + if placed.isEmpty then 0 else 1 : Nat) +
          RESULT_RESERVE_BYTES
    · rw [if_pos hbytes]
      exact ⟨[], _, _, by rw [List.append_nil], listed_stop hlimit (.inr rfl)⟩
    rw [if_neg hbytes]
    have haccount := account_inserted args entry placed state
    have hroom : (inserted args entry placed state).serializedBytes ≤ openBytes - 27 := by
      unfold inserted openBytes
      unfold RESULT_RESERVE_BYTES at hbytes
      dsimp only
      omega
    have hcount : (inserted args entry placed state).count ≤ args.limit := Nat.lt_of_not_le hfull
    have hone : (inserted args entry placed state).count = state.count + 1 := rfl
    have hkept : ((inserted args entry placed state).omitted.limit,
      (inserted args entry placed state).omitted.bytes) =
        (state.omitted.limit, state.omitted.bytes) := rfl
    by_cases hdirectory : (args.tree && entry.type == .directory) = true
    · rw [if_pos hdirectory]
      have hfilled := hfill entry (inserted args entry placed state) hdirectory hopen hcount
      cases hnode : fill entry (inserted args entry placed state) with
      | mk node after =>
      rw [hnode] at hfilled
      dsimp only at hfilled
      have hgo : fill entry { state with
          serializedBytes := state.serializedBytes +
            (jsonBytes (entryNode args entry).toJson + if placed.isEmpty then 0 else 1 : Nat)
          count := state.count + 1 } = (node, after) := hnode
      rw [hgo]
      dsimp only
      cases hstopped : after.stopped with
      | true =>
        rw [appendLoop_stopped entries _ hstopped]
        exact ⟨[node], none, after, rfl,
          listed_inside hdirectory hkept haccount hone hroom hstopped hfilled⟩
      | false =>
        obtain ⟨-, hwhole, hsame⟩ | ⟨htrue, -⟩ := hfilled.ends
        swap
        · exact absurd (hstopped.symm.trans htrue) Bool.false_ne_true
        obtain ⟨added, omitted, last, hloop, hlisted⟩ :=
          ih (placed ++ [node]) after hstopped hfilled.limit
        refine ⟨node :: added, omitted, last, by rw [hloop, List.append_assoc]; rfl, ?_⟩
        have hfilledCount := hfilled.count
        have hfilledRoom := hfilled.room hroom
        rw [hstopped, if_neg Bool.false_ne_true] at hfilledRoom
        refine listed_cons hwhole (hsame.trans hkept) (filled_account haccount hfilled) ?_
          hfilledRoom hlisted
        omega
    · rw [if_neg hdirectory]
      obtain ⟨added, omitted, last, hloop, hlisted⟩ :=
        ih (placed ++ [entryNode args entry]) (inserted args entry placed state) hopen hcount
      refine ⟨entryNode args entry :: added, omitted, last, ?_, ?_⟩
      · refine hloop.trans ?_
        rw [List.append_assoc]
        rfl
      · refine listed_cons (wholeNode_leaf hdirectory) hkept haccount ?_ (by omega) hlisted
        rw [preorder_entryNode]
        exact hone

/-! ## The levels -/

theorem entryNode_directory {entry : FileTree}
    (h : (args.tree && entry.type == .directory) = true) :
    entryNode args entry = .directory entry.name entry.path entry.type [] none := if_pos h

/-- The children of a directory. -/
theorem filled_children (args : LsArguments) (below : Nat) (entry : FileTree) (state : LsState)
    (hdirectory : (args.tree && entry.type == .directory) = true) (hopen : state.stopped = false)
    (hlimit : state.count ≤ args.limit) :
    Filled args below entry state (fillChildren args below entry state).2
      (fillChildren args below entry state).1 := by
  induction below generalizing entry state with
  | zero =>
    rw [fillChildren]
    split
    · next hempty =>
      refine ⟨.inl ⟨hopen, ?_, rfl⟩, ?_, rfl, hlimit, fun h => ?_⟩
      · rw [wholeNode, if_pos hdirectory, if_pos hempty]
      · rw [entryNode_directory hdirectory]
      · rw [hopen]
        exact Int.le_trans h (Int.sub_le_self _ (by decide))
    · next hmore =>
      refine ⟨.inl ⟨hopen, ?_, rfl⟩, ?_, rfl, hlimit, fun h => ?_⟩
      · rw [wholeNode, if_pos hdirectory, if_neg hmore]
      · rw [LsState.account_countDepth, LsState.account_markChildrenOmitted,
          entryNode_directory hdirectory, nodeBytes_directory _ _ _ [] (some _)]
        have hnil : listBytes [] = 0 := rfl
        rw [hnil, markBytes, Option.elim_some]
        omega
      · have hle := state.serializedBytes_countDepth_le
        have hstill : (state.markChildrenOmitted .depth).countDepth.stopped = false := hopen
        dsimp only
        rw [hstill, if_neg Bool.false_ne_true]
        omega
  | succ below ih =>
    obtain ⟨added, omitted, after, hloop, hlisted⟩ := listed_loop
      (fun entry state => ih entry state) (visibleEntries entry.children) [] state hopen hlimit
    rw [fillChildren, hloop]
    dsimp only
    rw [List.nil_append]
    refine ⟨?_, ?_, ?_, hlisted.limit, fun h => hlisted.room ?_⟩
    · obtain ⟨hstill, rfl, rfl, hsame⟩ | ⟨hstopped, reason, hstops, hreason, hflagged⟩ :=
        hlisted.ends
      · refine .inl ⟨hstill, ?_, hsame⟩
        rw [wholeNode, if_pos hdirectory]
      · exact .inr ⟨hstopped, reason, below, added, omitted, rfl, rfl, hstops, hreason, hflagged⟩
    · have haccount := hlisted.account
      have hnil : listBytes [] = 0 := rfl
      rw [List.nil_append, hnil] at haccount
      rw [entryNode_directory hdirectory, nodeBytes_directory _ _ _ added omitted]
      omega
    · rw [preorder, List.length_cons, hlisted.count]
      omega
    · exact Int.le_trans h (Int.sub_le_self _ (by decide))

/-! ## The result -/

/-- The whole visible tree, cut at the depth. -/
def wholeTree (args : LsArguments) (directory : List FileTree) : List EntryNode :=
  if args.tree && args.depth == 0 then []
  else (visibleEntries directory).map (wholeNode args (args.depth - 1))

/-- What a listing says of a directory. -/
structure Lists (args : LsArguments) (directory : List FileTree) (payload : LsPayload) : Prop where
  fits : jsonBytes payload.toJson ≤ RESULT_BYTES
  count : payload.count = (preorderAll payload.entries).length
  limit : payload.count ≤ args.limit
  isPrefix : preorderAll payload.entries <+: preorderAll (wholeTree args directory)
  /-- Without a flag nothing is missing but what is marked with the depth. -/
  whole : payload.omitted.limit = false → payload.omitted.bytes = false →
    payload.entries = wholeTree args directory ∧ payload.childrenOmitted = none
  /-- With a flag the listing was stopped at one place. -/
  stopped : payload.omitted.limit = true ∨ payload.omitted.bytes = true →
    ∃ reason, Stops args reason (args.depth - 1) (visibleEntries directory) payload.entries
        payload.childrenOmitted ∧
      (payload.omitted.limit, payload.omitted.bytes) = (reason == .limit, reason == .bytes) ∧
      (reason = .limit → payload.count = args.limit)

theorem jsonBytes_payload (payload : LsPayload) : jsonBytes payload.toJson =
    68 + jsonBytes (.str payload.path) + jsonBytes (.bool payload.tree) +
      jsonBytes (natural payload.depth) + jsonBytes (natural payload.limit) +
      jsonBytes (natural payload.count) + listBytes payload.entries + summaryBytes payload.omitted +
      markBytes payload.childrenOmitted := by
  have hprinted : numbersPrinted payload.toJson = true := by
    have hfield : numbersPrintedFields (omittedField payload.childrenOmitted) = true := by
      cases payload.childrenOmitted with
      | none => rfl
      | some reason => cases reason <;> rfl
    simp only [LsPayload.toJson, OmittedSummary.toJson, numbersPrinted, List.cons_append,
      List.nil_append, numbersPrintedFields, numbersPrinted_natural, numbersPrinted_entries, hfield,
      Bool.and_self]
  have hkeys : [js "path", js "tree", js "depth", js "limit", js "count", js "entries",
      js "omitted"].map (fun key => jsonBytes (.str key)) = [6, 6, 7, 7, 7, 9, 9] := by decide
  simp only [List.map_cons, List.map_nil, List.cons.injEq, and_true] at hkeys
  obtain ⟨hpath, htree, hdepth, hlimit, hcount, hentries, homitted⟩ := hkeys
  have hsummary : jsonBytes payload.omitted.toJson = summaryBytes payload.omitted := rfl
  unfold LsPayload.toJson at hprinted ⊢
  rw [jsonBytes_obj (by rw [numbersPrinted] at hprinted; exact hprinted), List.map_append,
    joinedBytes_marked (by simp)]
  simp only [List.map_cons, List.map_nil, fieldBytes, joinedBytes, List.sum_cons, List.sum_nil,
    List.length_cons, List.length_nil, hpath, htree, hdepth, hlimit, hcount, hentries, homitted,
    hsummary, jsonBytes_entries]
  omega

/-- The walk over a directory keeps the size of its payload. -/
theorem directory_walked (args : LsArguments) (directory : List FileTree)
    (hroom : (jsonBytes (initialPayload args).toJson : Int) ≤ openBytes) :
    ∃ payload state, walkDirectory args directory = (payload, state) ∧
      state.serializedBytes = jsonBytes payload.toJson ∧ payload.count = args.limit ∧
      Lists args directory { payload with count := state.count } := by
  have hsize : ∀ count entries omitted childrenOmitted,
      jsonBytes { initialPayload args with
        count
        entries
        omitted
        childrenOmitted }.toJson =
      68 + jsonBytes (.str args.path) + jsonBytes (.bool args.tree) +
        jsonBytes (natural (if args.tree then args.depth else 1)) + jsonBytes (natural args.limit) +
        jsonBytes (natural count) + listBytes entries + summaryBytes omitted +
        markBytes childrenOmitted := fun _ _ _ _ => jsonBytes_payload _
  have hinitial : jsonBytes (initialPayload args).toJson = _ :=
    hsize args.limit [] ⟨0, false, false⟩ none
  have hempty : listBytes [] = 0 := rfl
  have hunmarked : markBytes none = 0 := rfl
  unfold walkDirectory
  dsimp only
  split
  · next hcut =>
    have hwhole : wholeTree args directory = [] := if_pos hcut
    have hzero := jsonBytes_natural_le (Nat.zero_le args.limit)
    rw [hinitial] at hroom
    unfold openBytes at hroom
    split
    · refine ⟨_, _, rfl, rfl, rfl, ?_, rfl, Nat.zero_le _, List.nil_prefix,
        fun _ _ => ⟨hwhole.symm, rfl⟩, fun h => ?_⟩
      · refine (hsize 0 [] ⟨0, false, false⟩ none).trans_le ?_
        omega
      · obtain h | h := h <;> cases h
    · have hbytes : ((LsState.mk (jsonBytes (initialPayload args).toJson) 0 false
          (initialPayload args).omitted).countDepth.serializedBytes : Int) =
            jsonBytes { initialPayload args with omitted := ⟨1, false, false⟩ }.toJson := by
        have hone : jsonBytes { initialPayload args with omitted := ⟨1, false, false⟩ }.toJson = _ :=
          hsize args.limit [] ⟨1, false, false⟩ none
        rw [hone]
        unfold LsState.countDepth
        simp only [hinitial, summaryBytes_eq]
        show _ + (jsonBytes (natural 1) - jsonBytes (natural 0) : Int) = _
        omega
      refine ⟨_, _, rfl, hbytes, rfl, ?_, rfl, Nat.zero_le _, List.nil_prefix,
        fun _ _ => ⟨hwhole.symm, rfl⟩, fun h => ?_⟩
      · have hsucc : jsonBytes (natural 1) ≤ jsonBytes (natural 0) + 1 := jsonBytes_natural_succ 0
        refine (hsize 0 [] ⟨1, false, false⟩ none).trans_le ?_
        rw [summaryBytes_eq] at hroom ⊢
        dsimp only at hroom ⊢
        omega
      · obtain h | h := h <;> cases h
  · next hdeep =>
    have hwhole : wholeTree args directory =
        (visibleEntries directory).map (wholeNode args (args.depth - 1)) := if_neg hdeep
    obtain ⟨added, omitted, after, hloop, hlisted⟩ := listed_loop
      (filled_children args (args.depth - 1)) (visibleEntries directory) []
      ⟨jsonBytes (initialPayload args).toJson, 0, false, (initialPayload args).omitted⟩ rfl
      (Nat.zero_le _)
    rw [hloop, List.nil_append]
    have hreserved : jsonBytes { initialPayload args with
        entries := added
        omitted := after.omitted
        childrenOmitted := omitted }.toJson = _ := hsize args.limit added after.omitted omitted
    have hbytes : after.serializedBytes = (jsonBytes { initialPayload args with
        entries := added
        omitted := after.omitted
        childrenOmitted := omitted }.toJson : Int) := by
      have haccount := hlisted.account
      have hsummary : (initialPayload args).omitted = ⟨0, false, false⟩ := rfl
      unfold LsState.account at haccount
      rw [List.nil_append, hempty, hsummary] at haccount
      dsimp only at haccount
      rw [hreserved]
      omega
    have hfits : jsonBytes { initialPayload args with
        count := after.count
        entries := added
        omitted := after.omitted
        childrenOmitted := omitted }.toJson ≤ RESULT_BYTES := by
      -- the count that is returned takes no more bytes than the reserved one
      have hle := hlisted.room hroom
      have hnatural := jsonBytes_natural_le hlisted.limit
      have hfinal := hsize after.count added after.omitted omitted
      unfold openBytes closedBytes at hle
      split at hle <;> omega
    have hnodes := hlisted.count
    rw [Nat.zero_add] at hnodes
    refine ⟨_, _, rfl, hbytes, rfl, hfits, hnodes, hlisted.limit, ?_, ?_, ?_⟩
    · rw [hwhole]
      obtain ⟨-, -, rfl, -⟩ | ⟨-, reason, hstops, -⟩ := hlisted.ends
      · exact List.prefix_rfl
      · exact preorder_of_stops hstops
    · intro hnolimit hnobytes
      obtain ⟨-, hnone, hadded, -⟩ | ⟨-, reason, -, hreason, hflagged⟩ := hlisted.ends
      · exact ⟨hadded.trans hwhole.symm, hnone⟩
      · rw [flagged, Prod.mk.injEq] at hflagged
        dsimp only at hnolimit hnobytes
        rw [hnolimit, hnobytes] at hflagged
        obtain ⟨rfl, -⟩ | rfl := hreason
        · cases hflagged.1
        · cases hflagged.2
    · intro hflag
      obtain ⟨-, -, -, hsame⟩ | ⟨-, reason, hstops, hreason, hflagged⟩ := hlisted.ends
      · rw [Prod.mk.injEq] at hsame
        dsimp only at hflag
        rw [hsame.1, hsame.2] at hflag
        obtain h | h := hflag <;> cases h
      · refine ⟨reason, hstops, hflagged, fun hlimit => ?_⟩
        obtain ⟨-, hcount⟩ | hbytes := hreason
        · exact hcount
        · rw [hlimit] at hbytes
          cases hbytes

/-- Whatever the file system has under a directory, and whatever depth and limit are asked for: where
the arguments leave room in the result, the listing is returned. It is a front of the visible tree
in preorder, cut at the depth, its count is the number of its nodes, and the size that was kept by
addition is that of the payload with the reserved count. Without the flags of the summary it is the
whole tree; with one, the walk was stopped at one place, and the directories of which children are
missing are those around that place, of which only the innermost is marked. -/
theorem directory_listed (args : LsArguments) (directory : List FileTree)
    (hroom : (jsonBytes (initialPayload args).toJson : Int) ≤ openBytes) :
    ∃ payload, listDirectory args directory = .ok payload ∧ Lists args directory payload ∧
      ∃ reserved state, walkDirectory args directory = (reserved, state) ∧
        payload = { reserved with count := state.count } ∧ reserved.count = args.limit ∧
        state.serializedBytes = jsonBytes reserved.toJson := by
  obtain ⟨reserved, state, hwalk, hbytes, hcount, hlists⟩ := directory_walked args directory hroom
  refine ⟨{ reserved with count := state.count }, ?_, hlists, reserved, state, hwalk, rfl, hcount,
    hbytes⟩
  unfold listDirectory
  rw [hwalk]
  dsimp only
  rw [if_neg (Nat.not_lt.mpr hlists.fits)]

/-- A directory with two entries, of which the first has two children. -/
def smallDirectory : List FileTree :=
  [.entry (js "b") (js "b") .file true true [],
    .entry (js "a") (js "a") .directory true true
      [.entry (js "y") (js "a/y") .file true true [], .entry (js "x") (js "a/x") .file true true []]]

def twoEntries : LsArguments where
  path := js "."
  tree := true
  depth := 3
  limit := 2

/-- The condition can be met. Here the walk is stopped in the inner directory, and the outer one
lacks an entry without a mark. -/
theorem directory_listed_stopped : ∃ payload, listDirectory twoEntries smallDirectory = .ok payload ∧
    Lists twoEntries smallDirectory payload ∧ payload.childrenOmitted = none ∧
    (preorderAll payload.entries).length = 2 ∧
      (preorderAll (wholeTree twoEntries smallDirectory)).length = 4 := by
  obtain ⟨payload, hok, hlists, -⟩ := directory_listed twoEntries smallDirectory (by decide +kernel)
  have hcheck : (listDirectory twoEntries smallDirectory).toOption.any (fun payload =>
      payload.childrenOmitted.isNone && (preorderAll payload.entries).length == 2) = true := by
    decide +kernel
  rw [hok, Except.toOption, Option.any_some, Bool.and_eq_true, Option.isNone_iff_eq_none,
    beq_iff_eq] at hcheck
  exact ⟨payload, hok, hlists, hcheck.1, hcheck.2, by decide +kernel⟩

end Henji.LsTool
