import Henji.Library.Saturation

/-!
# Rows with keys and foreign keys

A database is the list of its rows. A statement inserts a row, changes rows or deletes rows together with
what cascades from them. It takes effect only if afterwards the keys are unique and every foreign key
resolves: a foreign key is checked at the end of its statement. A transaction that fails changes nothing.
-/

namespace Henji

namespace Relational

/-- What becomes of a row when the row it refers to is deleted. -/
inductive OnDelete where
  | noAction
  | cascade
deriving DecidableEq, Repr

structure Schema (Row Key : Type) where
  /-- The primary key of a row and its other unique keys. -/
  keys : Row → List Key
  /-- The foreign keys of a row that are not null. -/
  refs : Row → List (Key × OnDelete)

section Statements

variable {Row Key : Type} [DecidableEq Row] [DecidableEq Key] (S : Schema Row Key)

def Schema.refers (parent child : Row) : Bool :=
  (S.refs child).any fun ref => (S.keys parent).contains ref.1

/-- The child goes with its parent. -/
def Schema.cascades (parent child : Row) : Bool :=
  (S.refs child).any fun ref => ref.2 == .cascade && (S.keys parent).contains ref.1

def Schema.Resolves (db : List Row) : Prop :=
  ∀ row ∈ db, ∀ ref ∈ S.refs row, ∃ parent ∈ db, ref.1 ∈ S.keys parent

def Schema.Unique (db : List Row) : Prop :=
  db.Pairwise fun a b => ∀ key ∈ S.keys a, key ∉ S.keys b

structure Schema.Consistent (db : List Row) : Prop where
  unique : S.Unique db
  resolves : S.Resolves db

instance (db : List Row) : Decidable (S.Resolves db) :=
  inferInstanceAs (Decidable (∀ row ∈ db, ∀ ref ∈ S.refs row, ∃ parent ∈ db, ref.1 ∈ S.keys parent))

instance (db : List Row) : Decidable (S.Unique db) :=
  inferInstanceAs (Decidable (db.Pairwise fun a b => ∀ key ∈ S.keys a, key ∉ S.keys b))

instance (db : List Row) : Decidable (S.Consistent db) :=
  decidable_of_iff (S.Unique db ∧ S.Resolves db)
    ⟨fun h => ⟨h.1, h.2⟩, fun h => ⟨h.unique, h.resolves⟩⟩

/-- The end of a statement. -/
def Schema.check (db : List Row) : Option (List Row) :=
  if S.Consistent db then some db else none

def Schema.insert (row : Row) (db : List Row) : Option (List Row) :=
  S.check (db ++ [row])

def Schema.update (f : Row → Row) (db : List Row) : Option (List Row) :=
  S.check (db.map f)

def Schema.delete (p : Row → Bool) (db : List Row) : Option (List Row) :=
  let gone := Saturation.saturate S.cascades db p
  S.check (db.filter fun row => !gone.contains row)

variable {S} {db : List Row}

omit [DecidableEq Row] in
theorem Schema.consistent_of_check {found : List Row} (h : S.check db = some found) :
    found = db ∧ S.Consistent db := by
  obtain ⟨hconsistent, hfound⟩ := Option.ite_none_right_eq_some.mp h
  exact ⟨(Option.some.inj hfound).symm, hconsistent⟩

omit [DecidableEq Row] [DecidableEq Key] in
/-- A key names one row. -/
theorem Schema.Unique.eq_of_key (h : S.Unique db) {a b : Row} (ha : a ∈ db) (hb : b ∈ db) {key : Key}
    (hkeyA : key ∈ S.keys a) (hkeyB : key ∈ S.keys b) : a = b := by
  induction h with
  | nil => cases ha
  | cons hfirst _ ih =>
    rcases List.mem_cons.mp ha with rfl | hrestA
    · rcases List.mem_cons.mp hb with rfl | hrestB
      · rfl
      · exact absurd hkeyB (hfirst b hrestB key hkeyA)
    · rcases List.mem_cons.mp hb with rfl | hrestB
      · exact absurd hkeyA (hfirst a hrestA key hkeyB)
      · exact ih hrestA hrestB

omit [DecidableEq Row] [DecidableEq Key] in
/-- A row can be new only if nothing has had its keys. -/
theorem Schema.Unique.fresh {row : Row} (h : S.Unique (db ++ [row])) {found : Row} (hfound : found ∈ db)
    {key : Key} (hkey : key ∈ S.keys found) : key ∉ S.keys row :=
  (List.pairwise_append.mp h).2.2 found hfound row (List.mem_singleton_self row) key hkey

omit [DecidableEq Row] in
theorem Schema.refers_iff {parent child : Row} :
    S.refers parent child = true ↔ ∃ ref ∈ S.refs child, ref.1 ∈ S.keys parent := by
  simp [Schema.refers]

omit [DecidableEq Row] in
theorem Schema.cascades_iff {parent child : Row} :
    S.cascades parent child = true ↔
      ∃ ref ∈ S.refs child, ref.2 = .cascade ∧ ref.1 ∈ S.keys parent := by
  simp [Schema.cascades]

omit [DecidableEq Row] in
theorem Schema.refers_of_cascades {parent child : Row} (h : S.cascades parent child = true) :
    S.refers parent child = true := by
  obtain ⟨ref, href, _, hkey⟩ := Schema.cascades_iff.mp h
  exact Schema.refers_iff.mpr ⟨ref, href, hkey⟩

omit [DecidableEq Row] in
/-- Rows that no row of the rest refers to can go. -/
theorem Schema.Consistent.filter {q : Row → Bool} (h : S.Consistent db)
    (hclosed : ∀ parent ∈ db, ∀ child ∈ db, q parent = true → S.refers parent child = true →
      q child = true) : S.Consistent (db.filter fun row => !q row) where
  unique := h.unique.sublist List.filter_sublist
  resolves := by
    intro row hrow ref href
    obtain ⟨hmem, hkept⟩ := List.mem_filter.mp hrow
    obtain ⟨parent, hparent, hkey⟩ := h.resolves row hmem ref href
    refine ⟨parent, List.mem_filter.mpr ⟨hparent, ?_⟩, hkey⟩
    -- a parent that goes takes the row with it
    cases hgone : q parent with
    | false => rfl
    | true =>
      have hchild := hclosed parent hparent row hmem hgone (Schema.refers_iff.mpr ⟨ref, href, hkey⟩)
      simp [hchild] at hkept

/-- A statement deletes the rows `q` if these are the rows `p` with what cascades from them, and no other
row refers to them. -/
theorem Schema.delete_eq {p q : Row → Bool} (h : S.Consistent db)
    (hsub : ∀ row ∈ db, p row = true → q row = true)
    (hclosed : ∀ parent ∈ db, ∀ child ∈ db, q parent = true → S.refers parent child = true →
      q child = true)
    (hreached : ∀ row ∈ db, q row = true → Saturation.Reached S.cascades db p row) :
    S.delete p db = some (db.filter fun row => !q row) := by
  have hgone : ∀ row ∈ db, (Saturation.saturate S.cascades db p).contains row = q row := by
    intro row hrow
    rw [Bool.eq_iff_iff, List.contains_iff_mem, Saturation.mem_saturate]
    constructor
    · intro hrow
      induction hrow with
      | seed hmem hseed => exact hsub _ hmem hseed
      | step hparent hmem hstep ih =>
        exact hclosed _ hparent.mem _ hmem (ih hparent.mem) (Schema.refers_of_cascades hstep)
    · exact hreached row hrow
  have hkept : (db.filter fun row => !(Saturation.saturate S.cascades db p).contains row) =
      db.filter fun row => !q row :=
    List.filter_congr fun row hrow => by rw [hgone row hrow]
  rw [Schema.delete, Schema.check, hkept, if_pos (h.filter hclosed)]

end Statements

/-! ## Transactions -/

section Transactions

variable {Db : Type}

/-- The statements from the `index`-th on; some statements fail for reasons of their own. -/
def execute (fails : Nat → Bool) : Nat → List (Db → Option Db) → Db → Option Db
  | _, [], db => some db
  | index, statement :: rest, db =>
    if fails index then none else (statement db).bind (execute fails (index + 1) rest)

/-- Whether the transaction was committed, and the database after it. -/
def transaction (fails : Nat → Bool) (statements : List (Db → Option Db)) (db : Db) : Bool × Db :=
  match execute fails 0 statements db with
  | some written => if fails statements.length then (false, db) else (true, written)
  | none => (false, db)

/-- The statements as one. -/
def compose : List (Db → Option Db) → Db → Option Db
  | [], db => some db
  | statement :: rest, db => (statement db).bind (compose rest)

variable {fails : Nat → Bool} {statements : List (Db → Option Db)} {db written : Db}

theorem compose_append {first rest : List (Db → Option Db)} (hfirst : compose first db = some written) :
    compose (first ++ rest) db = compose rest written := by
  induction first generalizing db with
  | nil => exact congrArg (compose rest) (Option.some.inj hfirst)
  | cons statement first ih =>
    obtain ⟨next, hnext, hgoes⟩ := Option.bind_eq_some_iff.mp hfirst
    rw [List.cons_append, compose, hnext, Option.bind_some]
    exact ih hgoes

/-- Statements that succeed have their effect, unless one fails for a reason of its own. -/
theorem execute_eq (hcomposed : compose statements db = some written) (index : Nat) :
    execute fails index statements db = none ∨ execute fails index statements db = some written := by
  induction statements generalizing db index with
  | nil => exact .inr hcomposed
  | cons statement rest ih =>
    obtain ⟨next, hnext, hgoes⟩ := Option.bind_eq_some_iff.mp hcomposed
    rw [execute]
    split
    · exact .inl rfl
    · rw [hnext, Option.bind_some]
      exact ih hgoes (index + 1)

theorem execute_of_not_fails (hfails : ∀ index, fails index = false)
    (hcomposed : compose statements db = some written) (index : Nat) :
    execute fails index statements db = some written := by
  induction statements generalizing db index with
  | nil => exact hcomposed
  | cons statement rest ih =>
    obtain ⟨next, hnext, hgoes⟩ := Option.bind_eq_some_iff.mp hcomposed
    rw [execute, hfails index, if_neg Bool.false_ne_true, hnext, Option.bind_some]
    exact ih hgoes (index + 1)

theorem transaction_cases (hcomposed : compose statements db = some written) :
    transaction fails statements db = (false, db) ∨ transaction fails statements db = (true, written) := by
  rw [transaction]
  rcases execute_eq hcomposed 0 with hnone | hsome
  · rw [hnone]
    exact .inl rfl
  · rw [hsome]
    dsimp only
    split
    · exact .inl rfl
    · exact .inr rfl

theorem transaction_committed (hfails : ∀ index, fails index = false)
    (hcomposed : compose statements db = some written) :
    transaction fails statements db = (true, written) := by
  rw [transaction, execute_of_not_fails hfails hcomposed]
  dsimp only
  rw [hfails, if_neg Bool.false_ne_true]

end Transactions

end Relational

end Henji
