import HornMachine.Proofs.Machine.Value

/-!
This module contains the binding of an argument. The class of a free argument gets the constant as a whole,
and all other addresses keep their roots and their values.
-/

namespace HornMachine

theorem Heap.root_of_size_le {heap : Heap} {addr : Nat} (h : heap.size ≤ addr)
    : heap.root addr = .error (.heapOutOfRange addr heap.size) := by
  have hcell : heap[addr]? = none := Array.getElem?_eq_none h
  simp [root, follow, hcell]

def Argument.fill (root : Nat) (name : String) (arg : Argument) : Argument :=
  if arg = .var root then .const name else arg

namespace Machine

variable {m m' : Machine} {arity index addr root : Nat} {name : String} {value : Argument}

theorem valueAt_of_size_le (h : m.state.heap.size ≤ addr)
    : m.valueAt addr = .error (.heapOutOfRange addr m.state.heap.size) := by
  unfold valueAt
  rw [Heap.root_of_size_le h]
  rfl

theorem valueAt_eq_ok (hclosed : m.state.heap.Closed m.symbols)
    : m.valueAt addr = .ok value ↔ addr < m.state.heap.size ∧ m.reading addr = value := by
  by_cases haddr : addr < m.state.heap.size
  . rw [valueAt_eq_reading hclosed haddr, Except.ok.injEq]
    simp [haddr]
  . rw [valueAt_of_size_le (Nat.le_of_not_lt haddr)]
    simp [haddr]

theorem argumentAddress_lt (haddress : m.argumentAddress arity index = .ok addr)
    : addr < m.state.heap.size := by
  rw [argumentAddress_eq_ok] at haddress
  omega

theorem argumentAddress_eq_error {fault : Fault} (haddress : m.argumentAddress arity index = .error fault)
    : fault = .invalidArgument arity index := by
  unfold argumentAddress at haddress
  dsimp only at haddress
  split at haddress
  . cases haddress
    rfl
  . contradiction

theorem argument_eq (haddress : m.argumentAddress arity index = .ok addr)
    : m.argument arity index = m.valueAt addr := by
  unfold argument
  rw [haddress]
  rfl

theorem argument_eq_reading (hclosed : m.state.heap.Closed m.symbols)
    (haddress : m.argumentAddress arity index = .ok addr)
    : m.argument arity index = .ok (m.reading addr) := by
  rw [argument_eq haddress, valueAt_eq_reading hclosed (argumentAddress_lt haddress)]

theorem constantArgument_eq_none
    : m.constantArgument arity index = .ok none ↔ ∃ root, m.argument arity index = .ok (.var root) := by
  unfold constantArgument
  cases m.argument arity index with
  | error fault => simp [bind, Except.bind]
  | ok value =>
    cases value with
    | const name => simp [bind, Except.bind, pure, Except.pure]
    | var root => simp [bind, Except.bind, pure, Except.pure]

theorem constantArgument_eq_some
    : m.constantArgument arity index = .ok (some name) ↔ m.argument arity index = .ok (.const name) := by
  unfold constantArgument
  cases m.argument arity index with
  | error fault => simp [bind, Except.bind]
  | ok value =>
    cases value with
    | const name => simp [bind, Except.bind, pure, Except.pure]
    | var root => simp [bind, Except.bind, pure, Except.pure]

/--
What a machine becomes when the class of the free cell `root` gets a constant.
-/
structure Fills (m : Machine) (root : Nat) (name : String) (m' : Machine) : Prop where
  rest_eq : m' = { m with symbols := m'.symbols, state := { m.state with heap := m'.state.heap } }
  symbols_le : m.symbols ≤ m'.symbols
  closed : m'.state.heap.Closed m'.symbols
  size_eq : m'.state.heap.size = m.state.heap.size
  root_eq : ∀ addr, m'.state.heap.root addr = m.state.heap.root addr
  reading_eq : ∀ addr, m'.reading addr = (m.reading addr).fill root name

theorem fills_of_reroots {heap : Heap} {symbols : SymbolTable} {starts : List Nat} {id : Nat}
    (hclosed : m.state.heap.Closed m.symbols) (hle : m.symbols ≤ symbols)
    (hreroots : m.state.heap.Reroots (fun root => root) (some root) starts heap)
    (hconst : heap.IsConst root id) (hname : symbols.get? id = some name)
    : m.Fills root name { m with symbols := symbols, state := { m.state with heap := heap } } := by
  have hfree : m.state.heap.IsFree root := hreroots.taken_free rfl
  have hroot : ∀ addr, heap.root addr = m.state.heap.root addr := by
    intro addr
    by_cases haddr : addr < m.state.heap.size
    . rcases hclosed.grounded.exists_root haddr with ⟨root', hroot', _⟩
      rw [hreroots.root_eq hroot', hroot']
    . have hsize := Nat.le_of_not_lt haddr
      rw [Heap.root_of_size_le hsize, Heap.root_of_size_le (hreroots.size_eq ▸ hsize), hreroots.size_eq]
  refine ⟨rfl, hle, ?_, hreroots.size_eq, hroot, ?_⟩
  . apply hreroots.closed (hclosed.mono hle)
    rintro _ id' ⟨⟩ hconst'
    rw [Heap.IsConst, hconst] at hconst'
    cases hconst'
    exact ⟨name, hname⟩
  . intro addr
    unfold reading Heap.value Argument.fill
    simp only [hroot]
    cases haddr : m.state.heap.root addr with
    | error fault =>
      have hne : addr ≠ root := by
        rintro rfl
        rw [hclosed.grounded.root_eq (.free hfree)] at haddr
        contradiction
      simp [hne]
    | ok root' =>
      by_cases heq : root' = root
      . subst heq
        rw [Heap.IsConst] at hconst
        rw [Heap.IsFree] at hfree
        simp [hconst, hfree, hname, Domain.const]
      . have hself := hclosed.grounded.root_eq (Heap.Leads.of_root haddr).root_self
        have hcell := hreroots.root_cell hself (by simp [Ne.symm heq])
        rcases hold : m.state.heap[root']? with _ | id' | _
        . simp [hcell, hold, heq]
        . rcases hclosed.named hold with ⟨name', hname'⟩
          simp [hcell, hold, hname', hle _ _ hname', Domain.const]
        . simp [hcell, hold, heq]

namespace Fills

variable (hclosed : m.state.heap.Closed m.symbols) (h : m.Fills root name m')
include h

theorem argumentAddress_eq (arity index : Nat)
    : m'.argumentAddress arity index = m.argumentAddress arity index := by
  unfold argumentAddress
  rw [h.size_eq]

include hclosed

theorem valueAt_of_eq (hvalue : m.valueAt addr = .ok (.var root)) : m'.valueAt addr = .ok (.const name) := by
  rw [valueAt_eq_ok hclosed] at hvalue
  rw [valueAt_eq_ok h.closed, h.size_eq, h.reading_eq, Argument.fill, if_pos hvalue.2]
  exact ⟨hvalue.1, rfl⟩

theorem valueAt_of_ne (hvalue : m.valueAt addr ≠ .ok (.var root)) : m'.valueAt addr = m.valueAt addr := by
  by_cases haddr : addr < m.state.heap.size
  . have hne : m.reading addr ≠ .var root := fun heq => hvalue ((valueAt_eq_ok hclosed).mpr ⟨haddr, heq⟩)
    rw [valueAt_eq_reading hclosed haddr, valueAt_eq_reading h.closed (h.size_eq ▸ haddr), h.reading_eq,
      Argument.fill, if_neg hne]
  . have hsize := Nat.le_of_not_lt haddr
    rw [valueAt_of_size_le hsize, valueAt_of_size_le (h.size_eq ▸ hsize), h.size_eq]

theorem argument_of_eq (hvalue : m.argument arity index = .ok (.var root))
    : m'.argument arity index = .ok (.const name) := by
  match haddress : m.argumentAddress arity index with
  | .error fault =>
    unfold argument at hvalue
    rw [haddress] at hvalue
    contradiction
  | .ok addr =>
    rw [argument_eq haddress] at hvalue
    rw [argument_eq (h.argumentAddress_eq arity index ▸ haddress)]
    exact h.valueAt_of_eq hclosed hvalue

theorem argument_of_ne (hvalue : m.argument arity index ≠ .ok (.var root))
    : m'.argument arity index = m.argument arity index := by
  have haddress' := h.argumentAddress_eq arity index
  match haddress : m.argumentAddress arity index with
  | .error fault =>
    unfold argument
    rw [haddress', haddress]
    rfl
  | .ok addr =>
    rw [argument_eq haddress] at hvalue
    rw [argument_eq haddress, argument_eq (haddress'.trans haddress)]
    exact h.valueAt_of_ne hclosed hvalue

end Fills

/--
What may come of binding an argument. Whether it fails is known before anything is written.
-/
inductive Sets (m : Machine) (arity index : Nat) (name : String) : Except Fault Machine → Prop where
  | invalid (haddress : m.argumentAddress arity index = .error (.invalidArgument arity index))
      : Sets m arity index name (.error (.invalidArgument arity index))
  | bound {name' : String} {root : Nat} (hvalue : m.argument arity index = .ok (.const name'))
      : Sets m arity index name (.error (.notFree root "set_arg"))
  | full {root entries : Nat} (hvalue : m.argument arity index = .ok (.var root))
      (hfull : ¬m.symbols.Admits name) : Sets m arity index name (.error (.poolExhausted entries))
  | free {root : Nat} {m' : Machine} (hvalue : m.argument arity index = .ok (.var root))
      (hadmits : m.symbols.Admits name) (h : m.Fills root name m') : Sets m arity index name (.ok m')

theorem setArgument_free (hclosed : m.state.heap.Closed m.symbols)
    (haddress : m.argumentAddress arity index = .ok addr) (hreading : m.reading addr = .var root)
    : m.Sets arity index name (setArgument arity index name m) := by
  have hvalue : m.argument arity index = .ok (.var root) :=
    hreading ▸ argument_eq_reading hclosed haddress
  rcases leads_of_reading hclosed (argumentAddress_lt haddress) hreading with ⟨hleads, hfree⟩
  unfold setArgument
  simp only [haddress, hclosed.grounded.root_eq hleads, Heap.isFree_eq_ok hfree, beq_self_eq_true, if_true,
    bind, Except.bind]
  match hintern : m.symbols.intern name with
  | .error fault =>
    simp only [Interner.intern_eq_error hintern]
    apply Sets.full hvalue
    rw [Interner.admits_iff]
    rintro ⟨id, symbols, hintern'⟩
    rw [hintern] at hintern'
    contradiction
  | .ok (id, symbols) =>
    rcases hclosed.grounded.exists_assign hfree hleads id with
      ⟨heap₁, heap₂, hwrite, hcollapse, hreroots, hconst⟩
    simp only [hwrite, hcollapse]
    exact .free hvalue (Interner.admits_iff.mpr ⟨id, symbols, hintern⟩)
      (fills_of_reroots hclosed (Interner.intern_le hintern) hreroots hconst (Interner.get?_intern hintern))

theorem setArgument_bound {name' : String} (hclosed : m.state.heap.Closed m.symbols)
    (haddress : m.argumentAddress arity index = .ok addr) (hreading : m.reading addr = .const name')
    : m.Sets arity index name (setArgument arity index name m) := by
  have hvalue : m.argument arity index = .ok (.const name') :=
    hreading ▸ argument_eq_reading hclosed haddress
  rcases hclosed.grounded.exists_root (argumentAddress_lt haddress) with ⟨root, hroot, hleads⟩
  unfold setArgument
  rcases hleads.root_cases with hfree | ⟨id, hconst⟩
  . have heq : m.reading addr = .var root :=
      (hclosed.value_eq_root Argument.var hleads).trans (hclosed.value_free Argument.var hfree)
    rw [hreading] at heq
    contradiction
  . simp only [haddress, hroot, Heap.isFree_eq_ok hconst, bind, Except.bind]
    exact .bound hvalue

theorem sets_setArgument (hclosed : m.state.heap.Closed m.symbols) (arity index : Nat) (name : String)
    : m.Sets arity index name (setArgument arity index name m) := by
  match haddress : m.argumentAddress arity index with
  | .error fault =>
    obtain rfl := argumentAddress_eq_error haddress
    unfold setArgument
    simp only [haddress, bind, Except.bind]
    exact .invalid haddress
  | .ok addr =>
    match hreading : m.reading addr with
    | .var root => exact setArgument_free hclosed haddress hreading
    | .const name' => exact setArgument_bound hclosed haddress hreading

section Outcome

variable (hclosed : m.state.heap.Closed m.symbols)
include hclosed

theorem exists_setArgument_iff
    : (∃ m', setArgument arity index name m = .ok m') ↔
      0 < index ∧ index ≤ arity ∧ arity ≤ m.state.heap.size ∧ m.constantArgument arity index = .ok none ∧
        m.symbols.Admits name := by
  have hsets := sets_setArgument hclosed arity index name
  generalize setArgument arity index name m = x at hsets
  rw [constantArgument_eq_none]
  cases hsets with
  | invalid haddress =>
    have hargument : ∀ value, m.argument arity index ≠ .ok value := by
      unfold argument
      simp [haddress, bind, Except.bind]
    simp [hargument]
  | bound hvalue => simp [hvalue]
  | full hvalue hfull => simp [hfull]
  | @free root m' hvalue hadmits _ =>
    have hrange : 0 < index ∧ index ≤ arity ∧ arity ≤ m.state.heap.size := by
      match haddress : m.argumentAddress arity index with
      | .error fault =>
        unfold argument at hvalue
        rw [haddress] at hvalue
        contradiction
      | .ok addr =>
        rw [argumentAddress_eq_ok] at haddress
        exact ⟨haddress.1, haddress.2.1, haddress.2.2.1⟩
    simp [hrange, hvalue, hadmits]

theorem fills_of_setArgument (h : setArgument arity index name m = .ok m')
    : ∃ root, m.argument arity index = .ok (.var root) ∧ m.Fills root name m' := by
  have hsets := sets_setArgument hclosed arity index name
  rw [h] at hsets
  cases hsets with
  | free hvalue _ hfills => exact ⟨_, hvalue, hfills⟩

theorem fault_of_setArgument {fault : Fault} (h : setArgument arity index name m = .error fault)
    : fault = .invalidArgument arity index ∨ (∃ root, fault = .notFree root "set_arg") ∨
      ∃ entries, fault = .poolExhausted entries := by
  have hsets := sets_setArgument hclosed arity index name
  rw [h] at hsets
  cases hsets with
  | invalid _ => exact .inl rfl
  | bound _ => exact .inr (.inl ⟨_, rfl⟩)
  | full _ _ => exact .inr (.inr ⟨_, rfl⟩)

end Outcome

end Machine

end HornMachine
