import Mathlib.Logic.Function.Basic

/-!
# Mutable cells

`Heap α` holds numbered mutable cells. A cell that was never handed out holds the value the heap was
made with. Two references to one cell see each other's writes; a new cell is different from all
cells handed out before.
-/

namespace Henji

structure Heap (α : Type) where
  cells : Nat → α
  next : Nat

namespace Heap

variable {α : Type}

def empty (value : α) : Heap α := ⟨fun _ => value, 0⟩

def read (heap : Heap α) (ref : Nat) : α := heap.cells ref

def write (heap : Heap α) (ref : Nat) (value : α) : Heap α :=
  { heap with cells := Function.update heap.cells ref value }

/-- Replace the value of a cell by a function of it. -/
def modify (heap : Heap α) (ref : Nat) (f : α → α) : Heap α := heap.write ref (f (heap.read ref))

/-- A new cell. -/
def alloc (heap : Heap α) (value : α) : Nat × Heap α :=
  (heap.next, ⟨Function.update heap.cells heap.next value, heap.next + 1⟩)

@[simp] theorem read_empty (value : α) (ref : Nat) : (empty value).read ref = value := rfl

@[simp] theorem next_empty (value : α) : (empty value).next = 0 := rfl

theorem read_write (heap : Heap α) (ref other : Nat) (value : α) :
    (heap.write ref value).read other = if other = ref then value else heap.read other :=
  Function.update_apply _ _ _ _

@[simp] theorem read_write_self (heap : Heap α) (ref : Nat) (value : α) :
    (heap.write ref value).read ref = value := Function.update_self _ _ _

theorem read_write_ne (heap : Heap α) {ref other : Nat} (value : α) (h : other ≠ ref) :
    (heap.write ref value).read other = heap.read other := Function.update_of_ne h _ _

@[simp] theorem write_write (heap : Heap α) (ref : Nat) (first second : α) :
    (heap.write ref first).write ref second = heap.write ref second := by
  simp [write, Function.update_idem]

@[simp] theorem next_write (heap : Heap α) (ref : Nat) (value : α) :
    (heap.write ref value).next = heap.next := rfl

theorem read_modify (heap : Heap α) (ref other : Nat) (f : α → α) :
    (heap.modify ref f).read other = if other = ref then f (heap.read ref) else heap.read other :=
  read_write _ _ _ _

@[simp] theorem read_modify_self (heap : Heap α) (ref : Nat) (f : α → α) :
    (heap.modify ref f).read ref = f (heap.read ref) := read_write_self _ _ _

theorem read_modify_ne (heap : Heap α) {ref other : Nat} (f : α → α) (h : other ≠ ref) :
    (heap.modify ref f).read other = heap.read other := read_write_ne _ _ h

@[simp] theorem modify_modify (heap : Heap α) (ref : Nat) (f g : α → α) :
    (heap.modify ref f).modify ref g = heap.modify ref fun value => g (f value) := by
  simp [modify]

@[simp] theorem next_modify (heap : Heap α) (ref : Nat) (f : α → α) :
    (heap.modify ref f).next = heap.next := rfl

@[simp] theorem alloc_fst (heap : Heap α) (value : α) : (heap.alloc value).1 = heap.next := rfl

@[simp] theorem next_alloc (heap : Heap α) (value : α) :
    (heap.alloc value).2.next = heap.next + 1 := rfl

theorem read_alloc (heap : Heap α) (value : α) (ref : Nat) :
    (heap.alloc value).2.read ref = if ref = heap.next then value else heap.read ref :=
  Function.update_apply _ _ _ _

theorem read_alloc_self (heap : Heap α) (value : α) :
    (heap.alloc value).2.read heap.next = value := by
  rw [read_alloc, if_pos rfl]

theorem read_alloc_lt (heap : Heap α) (value : α) {ref : Nat} (h : ref < heap.next) :
    (heap.alloc value).2.read ref = heap.read ref := by
  rw [read_alloc, if_neg (Nat.ne_of_lt h)]

theorem alloc_modify (heap : Heap α) (value : α) {ref : Nat} (f : α → α) (h : ref < heap.next) :
    ((heap.modify ref f).alloc value).2 = (heap.alloc value).2.modify ref f := by
  have hread : (heap.alloc value).2.read ref = heap.read ref := read_alloc_lt heap value h
  unfold modify
  rw [hread]
  simp only [alloc, write]
  rw [Function.update_comm (Nat.ne_of_lt h)]

end Heap

end Henji
