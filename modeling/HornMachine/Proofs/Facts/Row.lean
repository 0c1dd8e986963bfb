import HornMachine.Facts
import HornMachine.Proofs.Machine.Value
import HornMachine.Proofs.Run.Scope

/-!
This module contains the reading of arguments and their binding to the row of a table. The binding keeps
those models of the heap in which the arguments have the values of the row, and it fails if there is none.
-/

namespace HornMachine

namespace Machine

variable {m : Machine} {arity index addr : Nat}

theorem argumentAddress_eq (hpos : 0 < index) (hle : index ≤ arity)
    (harity : arity ≤ m.state.heap.size)
    : m.argumentAddress arity index = .ok (m.state.heap.size - arity + index - 1) :=
  argumentAddress_eq_ok.mpr ⟨hpos, hle, harity, rfl⟩

section Argument

variable (hvalid : m.state.heap.Valid m.symbols) (hpos : 0 < index) (hle : index ≤ arity)
  (harity : arity ≤ m.state.heap.size)
include hvalid hpos hle harity

theorem constantArgument_cases
    : (∃ name, m.constantArgument arity index = .ok (some name) ∧
        ∀ (D : Type) [Domain D] (v : Nat → D), m.state.heap.Models m.symbols v →
          v (m.state.heap.size - arity + index - 1) = Domain.const name) ∨
      (m.constantArgument arity index = .ok none ∧
        ∃ root, m.state.heap.Leads (m.state.heap.size - arity + index - 1) root ∧
          m.state.heap.IsFree root) := by
  have haddr : m.state.heap.size - arity + index - 1 < m.state.heap.size := by omega
  unfold constantArgument argument
  simp only [argumentAddress_eq hpos hle harity, bind, Except.bind]
  rcases valueAt_cases hvalid.closed haddr with ⟨root, hleads, ⟨hfree, heq⟩ | ⟨id, name, hconst, hname, heq⟩⟩
  . right
    rw [heq]
    exact ⟨rfl, root, hleads, hfree⟩
  . left
    rw [heq]
    refine ⟨name, rfl, ?_⟩
    intro D _ v hv
    rw [hleads.eq_of_models hv, hv.eq_const hconst hname]

theorem setArgument_cases {root : Nat} (name : String)
    (hleads : m.state.heap.Leads (m.state.heap.size - arity + index - 1) root)
    (hfree : m.state.heap.IsFree root)
    : (∃ entries, setArgument arity index name m = .error (.poolExhausted entries)) ∨
      ∃ symbols heap, setArgument arity index name m =
          .ok { m with symbols := symbols, state := { m.state with heap := heap } } ∧
        m.symbols ≤ symbols ∧
        m.state.heap.Adds symbols
          (fun _ _ v => v (m.state.heap.size - arity + index - 1) = Domain.const name) heap := by
  unfold setArgument
  simp only [argumentAddress_eq hpos hle harity, hvalid.root_eq hleads, Heap.isFree_eq_ok hfree,
    beq_self_eq_true, if_true, bind, Except.bind]
  rcases hfree.intern_cases hvalid hleads name with
    ⟨entries, hintern⟩ | ⟨id, symbols, heap₁, heap₂, hintern, hle, hwrite, hcollapse, hadds⟩
  . left
    simp only [hintern]
    exact ⟨entries, rfl⟩
  . right
    refine ⟨symbols, heap₂, ?_, hle, hadds⟩
    simp only [hintern, hwrite, hcollapse]
    rfl

end Argument

end Machine

namespace FactTable

structure Binds (arity index : Nat) (row : List String) (m m' : Machine) : Prop where
  symbols_le : m.symbols ≤ m'.symbols
  state_eq : m'.state = { m.state with heap := m'.state.heap }
  features_eq : m'.features = m.features
  adds : m.state.heap.Adds m'.symbols
    (fun _ _ v => cells v (m.state.heap.size - arity + index - 1) row.length = row.map Domain.const)
    m'.state.heap

variable {m m₁ m' : Machine} {arity index : Nat} {value : String} {row : List String}

theorem Binds.nil (hvalid : m.state.heap.Valid m.symbols) : Binds arity index [] m m where
  symbols_le := Interner.le_refl _
  state_eq := rfl
  features_eq := rfl
  adds := (Heap.Adds.refl hvalid).congr fun _ _ _ _ => by simp [cells]

theorem cells_row [Domain D] {v : Nat → D} {base : Nat}
    : cells v base (value :: row).length = (value :: row).map Domain.const ↔
      v base = Domain.const value ∧ cells v (base + 1) row.length = row.map Domain.const := by
  rw [List.length_cons, cells_succ, List.map_cons, List.cons.injEq]

/--
A row agrees with the arguments, which are bound to it, or it agrees with no model of the heap.
-/
def RowOutcome (arity index : Nat) (row : List String) (m : Machine) : Prop :=
  (∃ m', bindRow arity index row m = .ok true m' ∧ Binds arity index row m m') ∨
  ∃ m', bindRow arity index row m = .ok false m' ∧ m.symbols ≤ m'.symbols ∧
    ∀ (D : Type) [Domain D] (v : Nat → D), m.state.heap.Models m.symbols v →
      cells v (m.state.heap.size - arity + index - 1) row.length ≠ row.map Domain.const

section Cons

variable (hpos : 0 < index) (hvalid : m.state.heap.Valid m.symbols) (hle : m.symbols ≤ m₁.symbols)
  (hstate : m₁.state = { m.state with heap := m₁.state.heap }) (hfeatures : m₁.features = m.features)
  (hadds : m.state.heap.Adds m₁.symbols
    (fun _ _ v => v (m.state.heap.size - arity + index - 1) = Domain.const value) m₁.state.heap)
include hpos hvalid hle hstate hfeatures hadds

theorem Binds.cons (h : Binds arity (index + 1) row m₁ m') : Binds arity index (value :: row) m m' where
  symbols_le := Interner.le_trans hle h.symbols_le
  state_eq := by
    rw [h.state_eq, hstate]
  features_eq := by rw [h.features_eq, hfeatures]
  adds := by
    refine ⟨by rw [h.adds.size_eq, hadds.size_eq], h.adds.valid, ?_⟩
    intro D _ v
    have hbase : m₁.state.heap.size - arity + (index + 1) - 1 =
        m.state.heap.size - arity + index - 1 + 1 := by
      rw [hadds.size_eq]
      omega
    rw [h.adds.models_iff, hadds.valid.closed.models_iff h.symbols_le, hadds.models_iff,
      hvalid.closed.models_iff hle, hvalid.closed.models_iff (Interner.le_trans hle h.symbols_le), cells_row, hbase,
      and_assoc]

theorem RowOutcome.cons
    (hbind : bindRow arity index (value :: row) m = bindRow arity (index + 1) row m₁)
    (h : RowOutcome arity (index + 1) row m₁) : RowOutcome arity index (value :: row) m := by
  rcases h with ⟨m', heq, hbinds⟩ | ⟨m', heq, hle', hno⟩
  . left
    exact ⟨m', hbind.trans heq, hbinds.cons hpos hvalid hle hstate hfeatures hadds⟩
  . right
    have hbase : m₁.state.heap.size - arity + (index + 1) - 1 =
        m.state.heap.size - arity + index - 1 + 1 := by
      rw [hadds.size_eq]
      omega
    refine ⟨m', hbind.trans heq, Interner.le_trans hle hle', ?_⟩
    intro D _ v hv hcells
    rw [cells_row] at hcells
    rw [hbase] at hno
    apply hno D v _ hcells.2
    rw [hadds.models_iff, hvalid.closed.models_iff hle]
    exact ⟨hv, hcells.1⟩

end Cons

variable (value row) in
theorem bindRow_const {name : String} (heq : m.constantArgument arity index = .ok (some name))
    : bindRow arity index (value :: row) m =
      (if name = value then bindRow arity (index + 1) row else return false) m := by
  rw [bindRow, Exec.bind_of_ok (Exec.read_of_ok heq)]

variable (value row) in
theorem bindRow_free (heq : m.constantArgument arity index = .ok none)
    : bindRow arity index (value :: row) m =
      (Exec.update (Machine.setArgument arity index value) >>= fun _ =>
        bindRow arity (index + 1) row) m := by
  rw [bindRow, Exec.bind_of_ok (Exec.read_of_ok heq), ← Exec.setArgument_eq]

theorem bindRow_cases (hvalid : m.state.heap.Valid m.symbols) (hpos : 0 < index)
    (hindex : index + row.length = arity + 1) (harity : arity ≤ m.state.heap.size)
    (hrun : Unexhausted (bindRow arity index row m)) : RowOutcome arity index row m := by
  -- each value is compared with a constant argument or bound to a free one before the next is read
  induction row generalizing m index with
  | nil => exact .inl ⟨m, rfl, .nil hvalid⟩
  | cons value row ih =>
    rw [List.length_cons] at hindex
    have hle : index ≤ arity := by omega
    rcases Machine.constantArgument_cases hvalid hpos hle harity with
      ⟨name, heq, hname⟩ | ⟨heq, root, hleads, hfree⟩
    . have hread := bindRow_const value row heq
      by_cases hvalue : name = value
      . subst hvalue
        rw [if_pos rfl] at hread
        rw [hread] at hrun
        apply RowOutcome.cons hpos hvalid (Interner.le_refl _) rfl rfl _ hread
        . exact ih hvalid (by omega) (by omega) harity hrun
        . apply (Heap.Adds.refl hvalid).congr
          intro D _ v hv
          simp [hname D v hv]
      . right
        rw [if_neg hvalue] at hread
        refine ⟨m, hread, Interner.le_refl _, ?_⟩
        intro D _ v hv hcells
        rw [cells_row, hname D v hv] at hcells
        exact hvalue (Domain.const_inj hcells.1)
    . have hread := bindRow_free value row heq
      rw [hread] at hrun
      rcases Machine.setArgument_cases hvalid hpos hle harity value hleads hfree with
        ⟨entries, hset⟩ | ⟨symbols, heap, hset, hsymbols, hadds⟩
      . exact absurd (Exec.update_of_error hset) (hrun.of_bind entries m)
      . have hupdate := Exec.update_eq_ok.mpr hset
        have hrun' := hrun.of_bind_ok hupdate
        rw [Exec.bind_of_ok hupdate] at hread
        rw [← hadds.size_eq] at harity
        refine RowOutcome.cons hpos hvalid hsymbols ?_ ?_ hadds hread ?_
        . rfl
        . rfl
        . exact ih hadds.valid (by omega) (by omega) harity hrun'

end FactTable

end HornMachine
