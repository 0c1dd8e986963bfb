import HornMachine.Machine.Argument
import HornMachine.Proofs.Heap.Unify

/-!
This module contains the values that a machine reads off its heap. What it reads depends on the models of the
heap only, as far as the roots are the lowest ones possible: the numbers of the constants and the way in which
the cells refer to each other do not matter.
-/

namespace HornMachine

namespace Machine

variable {m n n' : Machine} {addr : Nat}

theorem constant_eq {id : Nat} {name : String} (hconst : m.state.heap.IsConst addr id)
    (hname : m.symbols.get? id = some name) : m.constant addr = .ok name := by
  unfold constant
  simp only [Heap.constantAt_const hconst, bind, Except.bind, hname]
  rfl

theorem valueAt_cases (hclosed : m.state.heap.Closed m.symbols) (haddr : addr < m.state.heap.size)
    : ∃ root, m.state.heap.Leads addr root ∧
        ((m.state.heap.IsFree root ∧ m.valueAt addr = .ok (.var root)) ∨
          ∃ id name, m.state.heap.IsConst root id ∧ m.symbols.get? id = some name ∧
            m.valueAt addr = .ok (.const name)) := by
  rcases hclosed.grounded.exists_root haddr with ⟨root, hroot, hleads⟩
  refine ⟨root, hleads, ?_⟩
  unfold valueAt valueOf
  simp only [hroot, bind, Except.bind]
  rcases hleads.root_cases with hfree | ⟨id, hconst⟩
  . left
    refine ⟨hfree, ?_⟩
    simp only [Heap.isFree_eq_ok hfree, beq_self_eq_true, if_true]
    rfl
  . right
    rcases hclosed.named hconst with ⟨name, hname⟩
    refine ⟨id, name, hconst, hname, ?_⟩
    simp only [Heap.isFree_eq_ok hconst, constant_eq hconst hname]
    rfl

theorem argumentAddress_eq_ok {arity index : Nat}
    : m.argumentAddress arity index = .ok addr ↔
      0 < index ∧ index ≤ arity ∧ arity ≤ m.state.heap.size ∧
        addr = m.state.heap.size - arity + index - 1 := by
  unfold argumentAddress
  simp only
  split
  . constructor
    . intro h
      contradiction
    . omega
  . rw [Except.ok.injEq]
    omega

/--
The value of every address in the model in which each free cell is a variable of its own.
-/
def reading (m : Machine) : Nat → Argument :=
  m.state.heap.value m.symbols Argument.var

theorem models_reading (hclosed : m.state.heap.Closed m.symbols)
    : m.state.heap.Models m.symbols m.reading :=
  hclosed.models_value Argument.var

theorem valueAt_eq_reading (hclosed : m.state.heap.Closed m.symbols)
    (haddr : addr < m.state.heap.size) : m.valueAt addr = .ok (m.reading addr) := by
  have hmodels := models_reading hclosed
  rcases valueAt_cases hclosed haddr with
    ⟨root, hleads, ⟨hfree, heq⟩ | ⟨id, name, hconst, hname, heq⟩⟩
  . rw [heq, hleads.eq_of_models hmodels]
    exact congrArg Except.ok (hclosed.value_free Argument.var hfree).symm
  . rw [heq, hleads.eq_of_models hmodels, hmodels.eq_const hconst hname]
    rfl

theorem leads_of_reading {root : Nat} (hclosed : m.state.heap.Closed m.symbols)
    (haddr : addr < m.state.heap.size) (h : m.reading addr = .var root)
    : m.state.heap.Leads addr root ∧ m.state.heap.IsFree root := by
  have hvalue := valueAt_eq_reading hclosed haddr
  rcases valueAt_cases hclosed haddr with ⟨root', hleads, ⟨hfree, heq⟩ | ⟨_, _, _, _, heq⟩⟩
  . rw [heq, h] at hvalue
    cases hvalue
    exact ⟨hleads, hfree⟩
  . rw [heq, h] at hvalue
    cases hvalue

theorem eq_const_of_reading [Domain D] {v : Nat → D} {name : String}
    (hclosed : m.state.heap.Closed m.symbols) (haddr : addr < m.state.heap.size)
    (h : m.reading addr = .const name) (hv : m.state.heap.Models m.symbols v)
    : v addr = Domain.const name := by
  have hvalue := valueAt_eq_reading hclosed haddr
  rcases valueAt_cases hclosed haddr with
    ⟨root, hleads, ⟨_, heq⟩ | ⟨id, name', hconst, hname, heq⟩⟩
  . rw [heq, h] at hvalue
    cases hvalue
  . rw [heq, h] at hvalue
    cases hvalue
    rw [hleads.eq_of_models hv, hv.eq_const hconst hname]

structure Solves (m : Machine) (c : Constraint) (n : Machine) : Prop where
  symbols_le : m.symbols ≤ n.symbols
  registers_eq : n.state.registers = m.state.registers
  failed_eq : n.state.failed = false
  meets : m.state.heap.Meets n.symbols c n.state.heap

namespace Solves

variable {c c' : Constraint} (hclosed : m.state.heap.Closed m.symbols) (h : m.Solves c n)
include hclosed h

theorem models_iff [Domain D] {v : Nat → D}
    : n.state.heap.Models n.symbols v ↔ m.state.heap.Models m.symbols v ∧ c D v := by
  rw [h.meets.models_iff, hclosed.models_iff h.symbols_le]

theorem trans (h' : n.Solves c' n') : m.Solves (fun D _ v => c D v ∧ c' D v) n' where
  symbols_le := Interner.le_trans h.symbols_le h'.symbols_le
  registers_eq := h'.registers_eq.trans h.registers_eq
  failed_eq := h'.failed_eq
  meets := {
    size_eq := h'.meets.size_eq.trans h.meets.size_eq
    closed := h'.meets.closed
    valid := by
      intro hvalid
      have hvalid' : m.state.heap.Valid n.symbols :=
        ⟨hvalid.le_of_ref, (hclosed.mono h.symbols_le).named⟩
      exact h'.meets.valid ((h.meets.valid hvalid').mono h'.symbols_le)
    lowers := h.meets.lowers.trans h'.meets.lowers
    models_iff := by
      intro D _ v
      rw [h'.models_iff h.meets.closed, h.models_iff hclosed,
        hclosed.models_iff (Interner.le_trans h.symbols_le h'.symbols_le), and_assoc] }

omit hclosed in
theorem congr (hc : ∀ (D : Type) [Domain D] (v : Nat → D), c D v ↔ c' D v) : m.Solves c' n :=
  { h with meets := h.meets.congr fun D _ v _ => hc D v }

omit hclosed in
theorem le_of_reading {root : Nat} (hfree : m.state.heap.IsFree addr)
    (hreading : n.reading addr = .var root) : root ≤ addr := by
  rcases h.meets.lowers.leads (.free hfree) with ⟨root', hle, hleads⟩
  have hleads' := (leads_of_reading h.meets.closed hleads.lt_size hreading).1
  rw [hleads'.unique hleads]
  exact hle

theorem exists_model
    : ¬∀ (D : Type) [Domain D] (v : Nat → D), m.state.heap.Models m.symbols v → ¬c D v := by
  intro hnone
  -- what the machine reads off its heap is a solution
  have hmodels := (h.models_iff hclosed).mp (models_reading h.meets.closed)
  exact hnone Argument n.reading hmodels.1 hmodels.2

variable (h' : m.Solves c n')
include h'

theorem models_other : n.state.heap.Models n.symbols n'.reading :=
  (h.models_iff hclosed).mpr ((h'.models_iff hclosed).mp (models_reading h'.meets.closed))

theorem reading_le {root : Nat} (haddr : addr < m.state.heap.size)
    (hreading : n.reading addr = .var root) : ∃ root' ≤ root, n'.reading addr = .var root' := by
  match hreading' : n'.reading addr with
  | .const name =>
    have hconst := eq_const_of_reading h'.meets.closed (h'.meets.size_eq ▸ haddr) hreading'
      (h'.models_other hclosed h)
    rw [hreading] at hconst
    cases hconst
  | .var root' =>
    rcases leads_of_reading h.meets.closed (h.meets.size_eq ▸ haddr) hreading with ⟨hleads, hfree⟩
    rw [hleads.eq_of_models (h.models_other hclosed h')] at hreading'
    exact ⟨root', h'.le_of_reading (h.meets.lowers.free hfree) hreading', rfl⟩

theorem reading_eq (haddr : addr < m.state.heap.size) : n.reading addr = n'.reading addr := by
  match hreading : n.reading addr with
  | .const name =>
    have hconst := eq_const_of_reading h.meets.closed (h.meets.size_eq ▸ haddr) hreading
      (h.models_other hclosed h')
    exact hconst.symm
  | .var root =>
    rcases h.reading_le hclosed h' haddr hreading with ⟨root', hle, hreading'⟩
    rcases h'.reading_le hclosed h haddr hreading' with ⟨root'', hle', hreading''⟩
    rw [hreading] at hreading''
    cases hreading''
    rw [hreading', Nat.le_antisymm hle hle']

end Solves

end Machine

end HornMachine
