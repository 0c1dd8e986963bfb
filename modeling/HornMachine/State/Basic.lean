import HornMachine.Heap

/-!
This module contains the state of a running proof: the heap, the registers and the calls that wait
for an answer. States are values, so a state that is kept is a snapshot that no machine can change.
-/

namespace HornMachine

/--
What a call keeps for its return: the sizes of the stacks, where to go on, and the call that was
being answered.
-/
structure Frame where
  heapSize : Nat
  registerCount : Nat
  pc : Nat
  jumpTo : Option String
deriving DecidableEq, Repr

/--
The `pc` is the address of the next instruction; there is none while a call to `jumpTo` waits for its
answer. The newest frame of `calls` comes first. An unset register holds no address.
-/
structure State where
  heap : Heap := #[]
  registers : Array (Option Nat) := #[]
  calls : List Frame := []
  pc : Option Nat := some 0
  jumpTo : Option String := none
  failed : Bool := false
  completed : Bool := false
deriving DecidableEq, Repr

/--
What a count adds to a size modulo 2^64: from 2^63 on it takes away.
-/
def wrapped (count : Nat) : Int :=
  let rest := count % 18446744073709551616
  if rest < 9223372036854775808 then rest else rest - 18446744073709551616

namespace State

def next? (s : State) : Option Nat :=
  if s.failed || s.completed then none else s.pc

def position (s : State) : List Frame × Option Nat :=
  (s.calls, s.pc)

def push (s : State) (cell : Cell) : State :=
  { s with heap := s.heap.push cell }

def pushFree (s : State) : State :=
  s.push (.ref s.heap.size)

def truncateHeap (s : State) (size : Nat) : State :=
  { s with heap := s.heap.take size }

/--
Puts unset registers on top of the register stack. A negative count takes registers away instead.
-/
def grow (s : State) (count : Int) : State :=
  if 0 ≤ count then
    { s with registers := s.registers ++ Array.replicate count.toNat none }
  else
    { s with registers := s.registers.take (s.registers.size + count).toNat }

/--
The new size is taken modulo 2^64, so a count that goes beyond that takes registers away. No register stack
is as large as 2^63.
-/
def addRegisters (s : State) (count : Nat) : State :=
  s.grow (wrapped count)

def truncateRegisters (s : State) (count : Nat) : State :=
  { s with registers := s.registers.take count }

def register (s : State) (reg : Int) : Except Fault Nat :=
  match fromTop? s.registers.size reg with
  | none => .error (.invalidRegister reg)
  | some i =>
    match s.registers[i]?.join with
    | none => .error (.unsetRegister reg)
    | some addr => .ok addr

def setRegister (s : State) (reg : Int) (addr : Nat) : Except Fault State :=
  match h : fromTop? s.registers.size reg with
  | none => .error (.invalidRegister reg)
  | some i => .ok { s with registers := s.registers.set i (some addr) (fromTop?_lt h) }

def pushCall (s : State) (frame : Frame) : State :=
  { s with calls := frame :: s.calls }

def popCall? (s : State) : Option (Frame × State) :=
  match s.calls with
  | [] => none
  | frame :: calls => some (frame, { s with calls := calls })

def clearCalls (s : State) : State :=
  { s with calls := [] }

def advance (s : State) : State :=
  { s with pc := s.pc.map (· + 1) }

/--
Waits for a call to be answered. The answer goes on behind the current instruction.
-/
def enter (s : State) (label : String) : State :=
  let frame : Frame :=
    { heapSize := s.heap.size
      registerCount := s.registers.size
      pc := s.advance.pc.getD 0
      jumpTo := s.jumpTo }
  { s.pushCall frame with jumpTo := some label, pc := none }

/--
Goes back to the newest call and drops what was put on the stacks since. Without a call the state is
completed.
-/
def leave (s : State) : State :=
  match s.calls with
  | [] => { s with completed := true }
  | frame :: calls =>
    { s with
      heap := s.heap.take frame.heapSize
      registers := s.registers.take frame.registerCount
      calls := calls
      pc := some frame.pc
      jumpTo := frame.jumpTo }

@[simp]
theorem grow_natCast (s : State) (count : Nat)
    : s.grow count = { s with registers := s.registers ++ Array.replicate count none } := by
  simp [grow]

theorem grow_eq (s : State) (count : Int)
    : s.grow count = { s with registers := (s.grow count).registers } := by
  unfold grow
  split <;> rfl

theorem position_grow (s : State) (count : Int) : (s.grow count).position = s.position := by
  rw [s.grow_eq]
  rfl

theorem position_setRegister {s s' : State} {reg : Int} {addr : Nat}
    (h : s.setRegister reg addr = .ok s') : s'.position = s.position := by
  unfold setRegister at h
  split at h <;> cases h
  rfl

def status (s : State) : String :=
  if s.completed then "completed" else if s.failed then "failed" else "paused"

def continuation (s : State) : String :=
  match s.pc, s.jumpTo with
  | some pc, _ => s!" pc={pc}"
  | none, some label => s!" calling {label}"
  | none, none => ""

def text (s : State) : String :=
  s.status ++ " heap=[" ++ s.heap.text ++ "] calls=" ++ toString s.calls.length ++ s.continuation

instance : ToString State := ⟨text⟩

end State

end HornMachine
