import Mathlib.Algebra.Ring.Nat
import Mathlib.Logic.Function.Basic
import Mathlib.Data.List.Basic
import Mathlib.Tactic.Common

/-! Intrusive circular doubly linked lists: a heap gives each node a next and a previous node. -/
namespace Links

/-- A store in a table. Unlike `Function.update` it reduces without a cast. -/
def put {ν α : Type} [DecidableEq ν] (f : ν → α) (n : ν) (a : α) : ν → α :=
  fun m => if m = n then a else f m

section
variable {ν α : Type} [DecidableEq ν] {f : ν → α} {n m : ν} {a : α}

theorem put_apply : put f n a m = if m = n then a else f m := rfl

@[simp] theorem put_same : put f n a n = a := by simp [put]

@[simp] theorem put_ne (h : m ≠ n) : put f n a m = f m := by simp [put, h]

@[simp] theorem put_put {b : α} : put (put f n a) n b = put f n b := by
  funext m
  simp only [put]
  split <;> rfl

end

/-- The two link fields of every node. -/
structure Heap (ν : Type) where
  next : ν → ν
  prev : ν → ν

variable {ν : Type} [DecidableEq ν]

def Heap.setNext (h : Heap ν) (n m : ν) : Heap ν := { h with next := put h.next n m }

def Heap.setPrev (h : Heap ν) (n m : ν) : Heap ν := { h with prev := put h.prev n m }

/-- `INIT_LIST_HEAD`: the node becomes its own neighbour. -/
def Heap.init (h : Heap ν) (n : ν) : Heap ν := (h.setNext n n).setPrev n n

theorem Heap.init_next (h : Heap ν) (n m : ν) :
    (h.init n).next m = if m = n then n else h.next m := rfl

theorem Heap.init_prev (h : Heap ν) (n m : ν) :
    (h.init n).prev m = if m = n then n else h.prev m := rfl

/-- `__list_add`: put `new` between `p` and `q`, in the order of the four stores. -/
def Heap.addBetween (h : Heap ν) (new p q : ν) : Heap ν :=
  (((h.setPrev q new).setNext new q).setPrev new p).setNext p new

/-- `list_add`: insert right after the head. -/
def Heap.add (h : Heap ν) (new head : ν) : Heap ν := h.addBetween new head (h.next head)

/-- `list_add_tail`: insert right before the head. -/
def Heap.addTail (h : Heap ν) (new head : ν) : Heap ν := h.addBetween new (h.prev head) head

/-- `list_del`: the neighbours are joined; the removed node keeps its own two links. -/
def Heap.del (h : Heap ν) (n : ν) : Heap ν :=
  (h.setPrev (h.next n) (h.prev n)).setNext (h.prev n) (h.next n)

/-- `list_empty`. -/
def Heap.isEmpty (h : Heap ν) (head : ν) : Bool := h.next head = head

end Links
