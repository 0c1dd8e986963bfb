import HornMachine.Proofs.Heap.Acyclic
import HornMachine.Proofs.Machine.Opcode

/-!
This module contains the faults that the operations of a machine may come to. Only an operation that interns
a constant may lack an id, and only references that run in a circle are followed without an end.
-/

namespace HornMachine

def Gives (K : Fault → Prop) (P : α → Prop) (x : Except Fault α) : Prop :=
  match x with
  | .ok a => P a
  | .error fault => K fault

section Gives

variable {K L : Fault → Prop} {P : α → Prop} {x : Except Fault α}

theorem gives_error {fault : Fault} (h : K fault) : Gives K P (.error fault) := h

theorem Gives.bind {Q : β → Prop} {f : α → Except Fault β} (hx : Gives K P x)
    (hf : ∀ a, P a → Gives K Q (f a)) : Gives K Q (x >>= f) := by
  cases x with
  | ok a => exact hf a hx
  | error fault => exact hx

theorem Gives.weaken (hx : Gives K P x) (h : ∀ fault, K fault → L fault) : Gives L P x := by
  cases x with
  | ok a => exact hx
  | error fault => exact h fault hx

theorem Gives.of_error {fault : Fault} (hx : Gives K P x) (h : x = .error fault) : K fault := by
  rw [h] at hx
  exact hx

end Gives

namespace Fault

/--
A fault of a single step, rather than of a search that goes too deep or does not end. With `acyclic`
references every walk along them ends.
-/
def Immediate (acyclic : Prop) : Fault → Prop
  | findallDepthExceeded _ | nestingExceeded | endlessPendingGoals => False
  | cyclicReference _ => ¬acyclic
  | _ => True

def Local (heap : Heap) (fault : Fault) : Prop :=
  fault.Immediate heap.Acyclic ∧ ∀ entries, fault ≠ .poolExhausted entries

theorem Immediate.mono {acyclic acyclic' : Prop} {fault : Fault} (h : fault.Immediate acyclic)
    (himp : acyclic' → acyclic) : fault.Immediate acyclic' := by
  cases fault with
  | cyclicReference _ => exact fun hacyclic => h (himp hacyclic)
  | _ => exact h

end Fault

abbrev Heap.Accesses (heap : Heap) (x : Except Fault α) : Prop :=
  Gives (Fault.Local heap) (fun _ => True) x

theorem Heap.Accesses.bind {heap : Heap} {K : Fault → Prop} {Q : β → Prop} {x : Except Fault α}
    {f : α → Except Fault β} (hx : heap.Accesses x) (hK : ∀ fault, fault.Local heap → K fault)
    (hf : ∀ a, Gives K Q (f a)) : Gives K Q (x >>= f) :=
  Gives.bind (hx.weaken hK) fun a _ => hf a

theorem Heap.Accesses.and_then {heap : Heap} {x : Except Fault α} {f : α → Except Fault β}
    (hx : heap.Accesses x) (hf : ∀ a, heap.Accesses (f a)) : heap.Accesses (x >>= f) :=
  hx.bind (fun _ h => h) hf

namespace Heap

-- an operation that follows no references may be one on another heap
variable {heap heap' : Heap}

theorem accesses_cell (addr : Nat) : heap.Accesses (heap'.cell addr) := by
  unfold cell
  split
  . trivial
  . exact gives_error ⟨trivial, by simp⟩

theorem accesses_constantAt (addr : Nat) : heap.Accesses (heap'.constantAt addr) := by
  apply (accesses_cell addr).and_then
  intro cell
  cases cell with
  | const _ => trivial
  | ref _ => trivial

theorem accesses_isFree (addr : Nat) : heap.Accesses (heap'.isFree addr) :=
  (accesses_cell addr).and_then fun _ => trivial

theorem follow_error {addr steps : Nat} {fault : Fault} (h : heap.follow addr steps = .error fault)
    : (∃ a, fault = .heapOutOfRange a heap.size) ∨ ∃ origin, fault = .cyclicReference origin := by
  induction steps generalizing addr with
  | zero =>
    cases h
    exact .inr ⟨addr, rfl⟩
  | succ steps ih =>
    unfold follow at h
    split at h
    . cases h
      exact .inl ⟨addr, rfl⟩
    . contradiction
    . split at h
      . contradiction
      . exact ih h

theorem accesses_root (heap : Heap) (addr : Nat) : heap.Accesses (heap.root addr) := by
  match h : heap.root addr with
  | .ok root => trivial
  | .error fault =>
    rcases follow_error h with ⟨a, rfl⟩ | ⟨origin, rfl⟩
    . exact gives_error ⟨trivial, by simp⟩
    . exact gives_error ⟨fun hacyclic => hacyclic.root_ne addr origin h, by simp⟩

theorem accesses_relative (offset : Int) : heap.Accesses (heap'.relative offset) := by
  unfold relative
  split
  . trivial
  . exact gives_error ⟨trivial, by simp⟩

theorem accesses_write (addr : Nat) (cell : Cell)
    : heap.Accesses (heap'.write addr cell) := by
  unfold write
  split
  . trivial
  . exact gives_error ⟨trivial, by simp⟩

theorem accesses_collapse (start root : Nat)
    : heap.Accesses (heap'.collapse start root) := by
  unfold collapse
  split
  . trivial
  . apply accesses_write

theorem accesses_bindFree (addr : Nat) (cell : Cell) (operation : String)
    : heap.Accesses (heap'.bindFree addr cell operation) := by
  apply (accesses_isFree addr).and_then
  intro free
  cases free with
  | true => exact accesses_write addr cell
  | false => exact gives_error ⟨trivial, by simp⟩

end Heap

namespace State

variable {heap : Heap}

theorem accesses_register (s : State) (reg : Int) : heap.Accesses (s.register reg) := by
  unfold register
  split
  . exact gives_error ⟨trivial, by simp⟩
  . split
    . exact gives_error ⟨trivial, by simp⟩
    . trivial

theorem accesses_setRegister (s : State) (reg : Int) (addr : Nat)
    : heap.Accesses (s.setRegister reg addr) := by
  unfold setRegister
  split
  . exact gives_error ⟨trivial, by simp⟩
  . trivial

theorem accesses_settle (s : State) (i ri j rj : Nat) : heap.Accesses (s.settle i ri j rj) := by
  unfold settle
  split
  . trivial
  . apply (Heap.accesses_collapse i ri).and_then
    intro heap'
    exact (Heap.accesses_collapse j rj).and_then fun _ => trivial

theorem accesses_unify (s : State) (i j : Nat) : s.heap.Accesses (s.unify i j) := by
  unfold unify
  apply (s.heap.accesses_root i).and_then
  intro ri
  apply (s.heap.accesses_root j).and_then
  intro rj
  apply (Heap.accesses_cell ri).and_then
  intro ci
  apply (Heap.accesses_cell rj).and_then
  intro cj
  cases ci with
  | const a =>
    cases cj with
    | const b => apply accesses_settle
    | ref _ => exact (Heap.accesses_bindFree _ _ _).and_then fun _ => accesses_settle _ _ _ _ _
  | ref _ =>
    cases cj with
    | const b => exact (Heap.accesses_bindFree _ _ _).and_then fun _ => accesses_settle _ _ _ _ _
    | ref _ =>
      show s.heap.Accesses (if ri = rj then _ else _)
      split
      . apply accesses_settle
      . exact (Heap.accesses_bindFree _ _ _).and_then fun _ => accesses_settle _ _ _ _ _

end State

theorem Signature.accesses_ofLabel? {heap : Heap} (label : String)
    : heap.Accesses (Signature.ofLabel? label) := by
  unfold Signature.ofLabel?
  split
  . exact gives_error ⟨trivial, by simp⟩
  . split
    . exact gives_error ⟨trivial, by simp⟩
    . trivial

namespace Machine

section Read

variable (m : Machine)

theorem accesses_argumentAddress (arity index : Nat)
    : m.state.heap.Accesses (m.argumentAddress arity index) := by
  show m.state.heap.Accesses
    (if index = 0 ∨ arity < index ∨ m.state.heap.size < arity then _ else _)
  split
  . exact gives_error ⟨trivial, by simp⟩
  . trivial

theorem accesses_constant (addr : Nat) : m.state.heap.Accesses (m.constant addr) := by
  apply (Heap.accesses_constantAt addr).and_then
  intro constant
  cases constant with
  | none => exact gives_error ⟨trivial, by simp⟩
  | some id =>
    dsimp only
    split
    . exact gives_error ⟨trivial, by simp⟩
    . trivial

theorem accesses_valueAt (addr : Nat) : m.state.heap.Accesses (m.valueAt addr) := by
  apply (m.state.heap.accesses_root addr).and_then
  intro root
  apply (Heap.accesses_isFree root).and_then
  intro free
  cases free with
  | true => trivial
  | false => exact (m.accesses_constant root).and_then fun _ => trivial

theorem accesses_argument (arity index : Nat)
    : m.state.heap.Accesses (m.argument arity index) :=
  (m.accesses_argumentAddress arity index).and_then fun addr => m.accesses_valueAt addr

theorem accesses_constantArgument (arity index : Nat)
    : m.state.heap.Accesses (m.constantArgument arity index) := by
  apply (m.accesses_argument arity index).and_then
  intro arg
  cases arg with
  | const _ => trivial
  | var _ => trivial

theorem accesses_lastArguments (arity count : Nat)
    : m.state.heap.Accesses (m.lastArguments arity count) := by
  induction count with
  | zero => trivial
  | succ count ih =>
    apply (m.accesses_argument arity (arity - count)).and_then
    intro arg
    exact ih.and_then fun _ => trivial

theorem accesses_waitingGoal : m.state.heap.Accesses m.waitingGoal := by
  unfold waitingGoal
  split
  . exact gives_error ⟨trivial, by simp⟩
  . next label _ =>
    apply (Signature.accesses_ofLabel? label).and_then
    intro sig
    exact (m.accesses_lastArguments sig.arity sig.arity).and_then fun _ => trivial

end Read

abbrev GivesTable (K : Fault → Prop) (T : SymbolTable → Prop) (x : Except Fault Machine) : Prop :=
  Gives K (fun m => T m.symbols) x

section Change

variable {K : Fault → Prop} {T : SymbolTable → Prop} {m : Machine}

theorem gives_pushConst {name : String}
    (hintern : Gives K (fun entry => T entry.2) (m.symbols.intern name))
    : GivesTable K T (m.pushConst name) :=
  hintern.bind fun _ h => h

variable (hK : ∀ fault, fault.Local m.state.heap → K fault) (hT : T m.symbols)
include hK hT

theorem gives_setRegister (reg : Int) (addr : Nat) : GivesTable K T (m.setRegister reg addr) :=
  (m.state.accesses_setRegister reg addr).bind hK fun _ => hT

theorem gives_appendArgument (arg : Argument) (operation : String)
    : GivesTable K T (m.appendArgument arg operation) := by
  unfold appendArgument
  split
  . exact gives_error (hK _ ⟨trivial, by simp⟩)
  . exact hT

theorem gives_pushBoundVar (reg : Int) : GivesTable K T (m.pushBoundVar reg) := by
  apply (m.state.accesses_register reg).bind hK
  intro addr
  exact (m.state.heap.accesses_root addr).bind hK fun _ => hT

theorem gives_initFreeVar (reg offset : Int) : GivesTable K T (m.initFreeVar reg offset) :=
  (Heap.accesses_relative offset).bind hK fun addr => gives_setRegister hK hT reg addr

theorem gives_unifyBoundVar (reg offset : Int) : GivesTable K T (m.unifyBoundVar reg offset) := by
  apply (Heap.accesses_relative offset).bind hK
  intro i
  apply (m.state.accesses_register reg).bind hK
  intro j
  exact (m.state.accesses_unify i j).bind hK fun _ => hT

theorem gives_appendRegister (reg : Int) : GivesTable K T (m.appendRegister reg) := by
  apply (m.state.accesses_register reg).bind hK
  intro addr
  apply (m.state.heap.accesses_root addr).bind hK
  intro root
  apply (Heap.accesses_constantAt root).bind hK
  intro constant
  cases constant with
  | none => exact gives_error (hK _ ⟨trivial, by simp⟩)
  | some id =>
    dsimp only
    split
    . exact gives_error (hK _ ⟨trivial, by simp⟩)
    . exact gives_appendArgument hK hT _ _

variable {name : String} (hintern : Gives K (fun entry => T entry.2) (m.symbols.intern name))
include hintern

theorem gives_unifyConst (offset : Int) : GivesTable K T (m.unifyConst name offset) := by
  apply (Heap.accesses_relative offset).bind hK
  intro addr
  apply (m.state.heap.accesses_root addr).bind hK
  intro root
  apply (Heap.accesses_constantAt root).bind hK
  intro constant
  cases constant with
  | some id => exact hT
  | none =>
    apply (Heap.accesses_isFree root).bind hK
    intro free
    cases free with
    | false => exact gives_error (hK _ ⟨trivial, by simp⟩)
    | true =>
      apply hintern.bind
      intro entry hentry
      apply (Heap.accesses_write root _).bind hK
      intro heap
      exact (Heap.accesses_collapse addr root).bind hK fun _ => hentry

omit hT in
theorem gives_setArgument (arity index : Nat)
    : GivesTable K T (m.setArgument arity index name) := by
  apply (m.accesses_argumentAddress arity index).bind hK
  intro addr
  apply (m.state.heap.accesses_root addr).bind hK
  intro root
  apply (Heap.accesses_isFree root).bind hK
  intro free
  cases free with
  | false => exact gives_error (hK _ ⟨trivial, by simp⟩)
  | true =>
    apply hintern.bind
    intro entry hentry
    apply (Heap.accesses_write root _).bind hK
    intro heap
    exact (Heap.accesses_collapse addr root).bind hK fun _ => hentry

end Change

end Machine

end HornMachine
