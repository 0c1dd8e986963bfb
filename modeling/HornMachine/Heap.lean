import HornMachine.Fault

/-!
This module contains the heap. A variable is a cell that refers to another cell with the same value;
a variable without a value refers to itself and is called free. Following the references from an
address leads to its root, which is a constant or a free cell.
-/

namespace HornMachine

inductive Cell where
  /-- A constant by its id in the symbol table. -/
  | const (id : Nat)
  | ref (addr : Nat)
deriving DecidableEq, Repr

namespace Cell

def text : Cell → String
  | const id => s!"c{id}"
  | ref addr => s!"@{addr}"

end Cell

/--
The position that lies `-offset` places below the top of a stack, where -1 is the top position.
-/
def fromTop? (size : Nat) (offset : Int) : Option Nat :=
  if offset < 0 ∧ 0 ≤ size + offset then some (size + offset).toNat else none

theorem fromTop?_lt {size : Nat} {offset : Int} {i : Nat} (h : fromTop? size offset = some i)
    : i < size := by
  unfold fromTop? at h
  split at h
  . simp only [Option.some.injEq] at h
    omega
  . contradiction

abbrev Heap := Array Cell

namespace Heap

def cell (heap : Heap) (addr : Nat) : Except Fault Cell :=
  match heap[addr]? with
  | some cell => .ok cell
  | none => .error (.heapOutOfRange addr heap.size)

def constantAt (heap : Heap) (addr : Nat) : Except Fault (Option Nat) := do
  match ← heap.cell addr with
  | .const id => return some id
  | .ref _ => return none

def isConstant (heap : Heap) (addr : Nat) : Except Fault Bool := do
  return (← heap.constantAt addr).isSome

def isFree (heap : Heap) (addr : Nat) : Except Fault Bool := do
  return (← heap.cell addr) == .ref addr

def follow (heap : Heap) (addr : Nat) : (steps : Nat) → Except Fault Nat
  | 0 => .error (.cyclicReference addr)
  | steps + 1 =>
    match heap[addr]? with
    | none => .error (.heapOutOfRange addr heap.size)
    | some (.const _) => .ok addr
    | some (.ref target) => if target = addr then .ok addr else follow heap target steps

/--
The root of an address. References that do not run in a circle visit every cell at most once, so
there are fewer of them than cells.
-/
def root (heap : Heap) (addr : Nat) : Except Fault Nat :=
  heap.follow addr (heap.size + 1)

def relative (heap : Heap) (offset : Int) : Except Fault Nat :=
  match fromTop? heap.size offset with
  | some addr => .ok addr
  | none => .error (.invalidHeapOffset offset heap.size)

def write (heap : Heap) (addr : Nat) (cell : Cell) : Except Fault Heap :=
  if h : addr < heap.size then
    .ok (heap.set addr cell h)
  else
    .error (.heapOutOfRange addr heap.size)

def collapse (heap : Heap) (start : Nat) (root : Nat) : Except Fault Heap :=
  if start = root then .ok heap else heap.write start (.ref root)

/--
Gives a free cell a value. The fault for a cell that is not free names the `operation`.
-/
def bindFree (heap : Heap) (addr : Nat) (cell : Cell) (operation : String) : Except Fault Heap := do
  if ← heap.isFree addr then
    heap.write addr cell
  else
    throw (.notFree addr operation)

def text (heap : Heap) : String :=
  " ".intercalate (heap.toList.zipIdx.map fun (cell, i) => if cell = .ref i then "_" else cell.text)

end Heap

end HornMachine
