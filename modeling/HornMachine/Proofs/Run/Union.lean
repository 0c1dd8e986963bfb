import HornMachine.Environment.Gather
import HornMachine.Proofs.Heap.Unify
import HornMachine.Proofs.Run.Step

/-!
This module contains the instructions that unify, as operations on the classes of a heap. They come to no
fault on a heap on which every chain ends, unless a constant is refused for lack of an id.
-/

namespace HornMachine

namespace Machine

variable {m m' : Machine} {name : String} {offset reg : Int} {i j ri : Nat}

inductive Assigned (m : Machine) (name : String) (i ri : Nat) : Machine → Prop where
  | clash {id : Nat} (hci : m.state.heap.IsConst ri id) (hne : m.symbols.get? id ≠ some name)
      : Assigned m name i ri { m with state := { m.state with failed := true } }
  | same {id : Nat} (hci : m.state.heap.IsConst ri id) (hid : m.symbols.get? id = some name)
      : Assigned m name i ri m
  | bound {id : Nat} {symbols : SymbolTable} {heap : Heap} (hci : m.state.heap.IsFree ri)
      (hid : m.symbols.intern name = .ok (id, symbols))
      (h : m.state.heap.Reroots (fun root => root) (some ri) [i] heap) (hconst : heap.IsConst ri id)
      : Assigned m name i ri { m with symbols, state := { m.state with heap } }

theorem Assigned.meets (h : m.Assigned name i ri m') (hclosed : m.state.heap.Closed m.symbols)
    (hi : m.state.heap.Leads i ri)
    : (m' = { m with state := { m.state with failed := true } } ∧
        ∀ (D : Type) [Domain D] (v : Nat → D), m.state.heap.Models m.symbols v →
          v i ≠ Domain.const name) ∨
      ∃ symbols heap, m' = { m with symbols, state := { m.state with heap } } ∧
        m.symbols ≤ symbols ∧
        m.state.heap.Meets symbols (fun _ _ v => v i = Domain.const name) heap := by
  cases h with
  | clash hci hne =>
    refine .inl ⟨rfl, ?_⟩
    rcases hclosed.named hci with ⟨name', hname'⟩
    intro D _ v hv heq
    rw [hi.eq_of_models hv, hv.eq_const hci hname'] at heq
    exact hne (Domain.const_inj heq ▸ hname')
  | same hci hid =>
    refine .inr ⟨m.symbols, m.state.heap, rfl, Interner.le_refl _, (Heap.Meets.refl hclosed).congr ?_⟩
    intro D _ v hv
    simp [hi.eq_of_models hv, hv.eq_const hci hid]
  | bound _ hid h hconst =>
    have hle := Interner.intern_le hid
    refine .inr ⟨_, _, rfl, hle,
      (h.meets_const (hclosed.mono hle) hconst (Interner.get?_intern hid)).congr ?_⟩
    intro D _ v hv
    rw [hi.eq_of_models hv]

variable (hfailed : m.state.failed = false) (hgrounded : m.state.heap.Grounded)
  (hoffset : m.state.heap.relative offset = .ok i) (hi : m.state.heap.Leads i ri)
include hfailed hgrounded hoffset hi

theorem unifyConst_assigned (name : String)
    : (∃ m', m.unifyConst name offset = .ok m' ∧ m.Assigned name i ri m') ∨
      m.state.heap.IsFree ri ∧ m.symbols.lookup? name = none ∧ 2 ^ 32 ≤ m.symbols.size ∧
        m.unifyConst name offset = .error (.poolExhausted m.symbols.size) := by
  have hroot := hgrounded.root_eq hi
  rcases hi.root_cases with hci | ⟨id, hci⟩
  . have hbind : ∀ {id : Nat} {symbols : SymbolTable},
        m.symbols.intern name = .ok (id, symbols) →
        ∃ m', m.unifyConst name offset = .ok m' ∧ m.Assigned name i ri m' := by
      intro id symbols hid
      rcases hgrounded.exists_assign hci hi id with
        ⟨heap₁, heap, hwrite, hcollapse, hreroots, hconst⟩
      refine ⟨_, ?_, .bound hci hid hreroots hconst⟩
      simp [unifyConst, hoffset, hroot, Heap.constantAt_free hci, Heap.isFree_eq_ok hci, hid, hwrite,
        hcollapse, bind, Except.bind, pure, Except.pure]
    rcases Interner.intern_cases m.symbols name with
      ⟨id, _, hid⟩ | ⟨hnew, _, hid⟩ | ⟨hnew, hfull, hid⟩
    . exact .inl (hbind hid)
    . exact .inl (hbind hid)
    . refine .inr ⟨hci, hnew, hfull, ?_⟩
      simp [unifyConst, hoffset, hroot, Heap.constantAt_free hci, Heap.isFree_eq_ok hci, hid,
        bind, Except.bind]
  . left
    have hunify : m.unifyConst name offset =
        .ok { m with state := { m.state with failed := m.symbols.lookup? name != some id } } := by
      simp [unifyConst, hoffset, hroot, Heap.constantAt_const hci, bind, Except.bind, pure, Except.pure]
    by_cases hid : m.symbols.get? id = some name
    . refine ⟨m, ?_, .same hci hid⟩
      rw [hunify, Interner.lookup?_eq_some.mpr hid, bne_self_eq_false, ← hfailed]
    . refine ⟨_, ?_, .clash hci hid⟩
      have hlookup : m.symbols.lookup? name ≠ some id := mt Interner.lookup?_eq_some.mp hid
      rw [hunify, bne_iff_ne.mpr hlookup]

theorem exists_unifyBoundVar (hreg : m.state.register reg = .ok j) (hj : j < m.state.heap.size)
    : ∃ rj s, m.state.heap.root j = .ok rj ∧ m.state.Unified i j ri rj s ∧
        m.unifyBoundVar reg offset = .ok { m with state := s } := by
  rcases hgrounded.exists_root hj with ⟨rj, hrj, hleads⟩
  rcases State.exists_unified hgrounded hfailed hi hleads with ⟨s, hunify, hunified⟩
  refine ⟨rj, s, hrj, hunified, ?_⟩
  simp [unifyBoundVar, hoffset, hreg, hunify, bind, Except.bind, pure, Except.pure]

end Machine

/--
Unification is union by the lowest address. With a register it joins two classes, unless their roots are
different constants; with a constant it gives a free root that constant, unless the table refuses it.
-/
theorem Environment.execute_unify {env : Environment} {computeFeatures : Bool} {m : Machine}
    {offset : Int} {i : Nat} (hfailed : m.state.failed = false) (hgrounded : m.state.heap.Grounded)
    (hoffset : m.state.heap.relative offset = .ok i)
    : ∃ ri, m.state.heap.root i = .ok ri ∧
      (∀ (reg : Int) (j : Nat), m.state.register reg = .ok j → j < m.state.heap.size →
        ∃ rj s, m.state.heap.root j = .ok rj ∧ m.state.Unified i j ri rj s ∧
          env.execute (.unifyBoundVar reg offset) computeFeatures m =
            .ok ∅ { m with state := s.advance }) ∧
      ∀ name : String,
        (∃ m', m.Assigned name i ri m' ∧
          env.execute (.unifyConst name offset) computeFeatures m =
            .ok ∅ { m' with state := m'.state.advance }) ∨
        m.state.heap.IsFree ri ∧ m.symbols.lookup? name = none ∧ 2 ^ 32 ≤ m.symbols.size ∧
          env.execute (.unifyConst name offset) computeFeatures m =
            .error (.poolExhausted m.symbols.size) m := by
  rcases hgrounded.exists_root (Heap.lt_size_of_relative hoffset) with ⟨ri, hri, hleads⟩
  refine ⟨ri, hri, ?_, ?_⟩
  . intro reg j hreg hj
    rcases Machine.exists_unifyBoundVar hfailed hgrounded hoffset hleads hreg hj with
      ⟨rj, s, hrj, hunified, hunify⟩
    refine ⟨rj, s, hrj, hunified, ?_⟩
    unfold Environment.execute
    rw [execute_eq_whole]
    exact execute.stepping_update hunify
  . intro name
    unfold Environment.execute
    rw [execute_eq_whole]
    rcases Machine.unifyConst_assigned hfailed hgrounded hoffset hleads name with
      ⟨m', hunify, hassigned⟩ | ⟨hci, hnew, hfull, hunify⟩
    . exact .inl ⟨m', hassigned, execute.stepping_update hunify⟩
    . exact .inr ⟨hci, hnew, hfull, execute.stepping_update_fault hunify⟩

namespace Sample

def upward : Machine where
  state := {
    heap := #[.ref 2, .ref 1, .ref 3, .ref 3, .const 0]
    registers := #[some 1] }

def joined : State :=
  { upward.state with heap := #[.ref 1, .ref 1, .ref 3, .ref 1, .const 0], pc := some 1 }

end Sample

theorem Environment.execute_unify_sample
    : Sample.upward.state.heap.Grounded ∧
      ({} : Environment).execute (.unifyBoundVar (-1) (-5)) false Sample.upward =
        .ok ∅ { Sample.upward with state := Sample.joined } ∧
      (∀ a ≤ 3, Sample.joined.heap.root a = .ok 1) ∧
      Sample.joined.heap[2]? = Sample.upward.state.heap[2]? ∧
      ∃ m, ({} : Environment).execute (.unifyConst "a" (-5)) false Sample.upward = .ok ∅ m ∧
        m.state.heap.root 2 = .ok 3 ∧ m.state.heap.IsConst 3 0 := by
  have hgrounded : Sample.upward.state.heap.Grounded := by decide
  have hexec : ({} : Environment).execute (.unifyBoundVar (-1) (-5)) false Sample.upward =
      .ok ∅ { Sample.upward with state := Sample.joined } := rfl
  rcases @execute_unify {} false Sample.upward (-5) 0 rfl hgrounded rfl with
    ⟨ri, hri, hbound, hconst⟩
  cases hri
  rcases hbound (-1) 1 rfl (by decide) with ⟨rj, s, hrj, hunified, hunify⟩
  cases hrj
  have hjoins : Sample.upward.state.heap.Joins 0 1 3 1 Sample.joined.heap := by
    rw [hexec] at hunify
    cases hunified with
    | clash hci _ _ => exact absurd hci (by simp [Heap.IsConst, Sample.upward])
    | joined _ h =>
      injection hunify with _ hstate
      have hheap : Sample.joined.heap = _ := congrArg (·.state.heap) hstate
      rw [hheap]
      exact h
  refine ⟨hgrounded, hexec, ?_, hjoins.cell_eq (by decide) (by decide), ?_⟩
  . intro a ha
    have hroot : Sample.upward.state.heap.root a = .ok 1 ∨
        Sample.upward.state.heap.root a = .ok 3 := by
      revert a
      decide
    rcases hroot with hroot | hroot
    . exact hjoins.root_eq hroot
    . exact hjoins.root_eq hroot
  . rcases hconst "a" with ⟨m', hassigned, hunify'⟩ | ⟨_, _, hfull, _⟩
    . refine ⟨_, hunify', ?_⟩
      cases hassigned with
      | clash hci _ => exact absurd hci (by simp [Heap.IsConst, Sample.upward])
      | same hci _ => exact absurd hci (by simp [Heap.IsConst, Sample.upward])
      | bound hci hid hreroots hconst =>
        cases hid
        exact ⟨hreroots.root_eq rfl, hconst⟩
    . exact absurd hfull (by decide)

end HornMachine
