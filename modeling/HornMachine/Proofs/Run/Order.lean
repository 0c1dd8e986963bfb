import HornMachine.Proofs.Machine.Value
import HornMachine.Proofs.Run.Union

/-!
This module contains unifications that are executed one after another. Each of them demands that some
addresses have the same value, so what the machine reads afterwards depends on the demands and not on the order
in which they came.
-/

namespace HornMachine

namespace State

inductive InRange (s : State) : Instruction → Prop where
  | const {name : String} {offset : Int} {i : Nat} (hoffset : s.heap.relative offset = .ok i)
      : InRange s (.unifyConst name offset)
  | register {reg offset : Int} {i j : Nat} (hoffset : s.heap.relative offset = .ok i)
      (hreg : s.register reg = .ok j) (hj : j < s.heap.size) : InRange s (.unifyBoundVar reg offset)

def Demands (s : State) (instr : Instruction) : Constraint := fun _ _ v =>
  match instr with
  | .unifyConst name offset => ∀ i, s.heap.relative offset = .ok i → v i = Domain.const name
  | .unifyBoundVar reg offset =>
    ∀ i j, s.heap.relative offset = .ok i → s.register reg = .ok j → v i = v j
  | _ => True

section Congr

variable {s s' : State} {instr : Instruction}

theorem relative_congr (hsize : s'.heap.size = s.heap.size) (offset : Int)
    : s'.heap.relative offset = s.heap.relative offset := by
  unfold Heap.relative
  rw [hsize]

theorem register_congr (hregs : s'.registers = s.registers) (reg : Int)
    : s'.register reg = s.register reg := by
  unfold register
  rw [hregs]

variable (hsize : s'.heap.size = s.heap.size) (hregs : s'.registers = s.registers)
include hsize hregs

theorem InRange.congr (h : s.InRange instr) : s'.InRange instr := by
  cases h with
  | const hoffset =>
    rw [← relative_congr hsize] at hoffset
    exact .const hoffset
  | register hoffset hreg hj =>
    rw [← relative_congr hsize] at hoffset
    rw [← register_congr hregs] at hreg
    rw [← hsize] at hj
    exact .register hoffset hreg hj

theorem demands_congr : s'.Demands instr = s.Demands instr := by
  unfold Demands
  simp only [relative_congr hsize, register_congr hregs]

end Congr

end State

/--
Either the machine failed and no model of its heap satisfied the constraint, or it went on and meets the
constraint now.
-/
def Machine.Settles (m : Machine) (c : Constraint) (n : Machine) : Prop :=
  (n.state.failed = true ∧
    ∀ (D : Type) [Domain D] (v : Nat → D), m.state.heap.Models m.symbols v → ¬c D v) ∨
  m.Solves c n

namespace Environment

variable {env : Environment} {computeFeatures : Bool} {m n : Machine} {instr : Instruction}
  {instrs instrs' : List Instruction}

def executeAll (env : Environment) (computeFeatures : Bool) : List Instruction → Exec Unit
  | [] => return ()
  | instr :: instrs => do
    let _ ← env.execute instr computeFeatures
    if (← Exec.save).failed then return () else env.executeAll computeFeatures instrs

theorem executeAll_cons {report : Features} (h : env.execute instr computeFeatures m = .ok report n)
    : env.executeAll computeFeatures (instr :: instrs) m =
      if n.state.failed then .ok () n else env.executeAll computeFeatures instrs n := by
  rw [executeAll, Exec.bind_of_ok h]
  show (if n.state.failed then _ else _ : Exec Unit) n = _
  split
  . rfl
  . rfl

theorem execute_settles (hfailed : m.state.failed = false)
    (hclosed : m.state.heap.Closed m.symbols) (hrange : m.state.InRange instr)
    (hrun : Unexhausted (env.execute instr computeFeatures m))
    : ∃ n, env.execute instr computeFeatures m = .ok ∅ n ∧ m.Settles (m.state.Demands instr) n := by
  have hgrounded := hclosed.grounded
  have heq : ∀ instr, env.execute instr computeFeatures m =
      execute.whole (env.gather env.nesting) computeFeatures instr m :=
    fun instr => congrFun (execute_eq_whole _ _ instr) m
  cases hrange with
  | @const name offset i hoffset =>
    rcases hgrounded i (Heap.lt_size_of_relative hoffset) with ⟨ri, hi⟩
    have hdemands : ∀ (D : Type) [Domain D] (v : Nat → D),
        v i = Domain.const name ↔ m.state.Demands (.unifyConst name offset) D v := by
      intro D _ v
      simp [State.Demands, hoffset]
    rcases Machine.unifyConst_assigned hfailed hgrounded hoffset hi name with
      ⟨m', hunify, hassigned⟩ | ⟨_, _, _, hfull⟩
    . refine ⟨_, (heq _).trans (execute.stepping_update hunify), ?_⟩
      rcases hassigned.meets hclosed hi with ⟨rfl, hne⟩ | ⟨symbols, heap, rfl, hle, hmeets⟩
      . exact .inl ⟨rfl, fun D _ v hv hd => hne D v hv ((hdemands D v).mpr hd)⟩
      . exact .inr ⟨hle, rfl, hfailed, hmeets.congr fun D _ v _ => hdemands D v⟩
    . exact absurd ((heq (.unifyConst name offset)).trans (execute.stepping_update_fault hfull)) (hrun _ _)
  | @register reg offset i j hoffset hreg hj =>
    rcases hgrounded i (Heap.lt_size_of_relative hoffset) with ⟨ri, hi⟩
    have hdemands : ∀ (D : Type) [Domain D] (v : Nat → D),
        v i = v j ↔ m.state.Demands (.unifyBoundVar reg offset) D v := by
      intro D _ v
      simp [State.Demands, hoffset, hreg]
    rcases Machine.exists_unifyBoundVar hfailed hgrounded hoffset hi hreg hj with
      ⟨rj, s, hrj, hunified, hunify⟩
    refine ⟨_, (heq _).trans (execute.stepping_update hunify), ?_⟩
    rcases hunified.meets hclosed hi (.of_root hrj) with ⟨rfl, hne⟩ | ⟨heap, rfl, hmeets⟩
    . exact .inl ⟨rfl, fun D _ v hv hd => hne D v hv ((hdemands D v).mpr hd)⟩
    . exact .inr ⟨Interner.le_refl _, rfl, hfailed, hmeets.congr fun D _ v _ => hdemands D v⟩

theorem executeAll_settles (hfailed : m.state.failed = false)
    (hclosed : m.state.heap.Closed m.symbols) (hrange : ∀ instr ∈ instrs, m.state.InRange instr)
    (hrun : Unexhausted (env.executeAll computeFeatures instrs m))
    : ∃ n, env.executeAll computeFeatures instrs m = .ok () n ∧
        m.Settles (fun D _ v => ∀ instr ∈ instrs, m.state.Demands instr D v) n := by
  induction instrs generalizing m with
  | nil =>
    refine ⟨m, rfl, .inr ⟨Interner.le_refl _, rfl, hfailed, (Heap.Meets.refl hclosed).congr ?_⟩⟩
    simp
  | cons instr instrs ih =>
    rw [List.forall_mem_cons] at hrange
    rcases execute_settles hfailed hclosed hrange.1 hrun.of_bind with ⟨n, hexec, hfail | hsolves⟩
    . refine ⟨n, by rw [executeAll_cons hexec, if_pos hfail.1], .inl ⟨hfail.1, ?_⟩⟩
      intro D _ v hv hdemands
      exact hfail.2 D v hv (hdemands instr List.mem_cons_self)
    . have heq : env.executeAll computeFeatures (instr :: instrs) m =
          env.executeAll computeFeatures instrs n := by
        rw [executeAll_cons hexec, hsolves.failed_eq]
        rfl
      rw [heq] at hrun ⊢
      -- the operands mean the same after the first unification as before
      have hsame := hsolves.meets.size_eq
      rcases ih hsolves.failed_eq hsolves.meets.closed
        (fun instr hinstr => (hrange.2 instr hinstr).congr hsame hsolves.registers_eq) hrun with
        ⟨n', hall, hsettles⟩
      simp only [State.demands_congr hsame hsolves.registers_eq] at hsettles
      refine ⟨n', hall, ?_⟩
      rcases hsettles with ⟨hfail, hnone⟩ | hsolves'
      . refine .inl ⟨hfail, ?_⟩
        intro D _ v hv hdemands
        rw [List.forall_mem_cons] at hdemands
        exact hnone D v ((hsolves.models_iff hclosed).mpr ⟨hv, hdemands.1⟩) hdemands.2
      . refine .inr ((hsolves.trans hclosed hsolves').congr ?_)
        intro D _ v
        rw [List.forall_mem_cons]

/--
The order of unifications does not matter. They fail in all orders or in none, and if they do not fail, every
address is read as the same constant or as the same variable.
-/
theorem executeAll_perm (hfailed : m.state.failed = false)
    (hclosed : m.state.heap.Closed m.symbols) (hrange : ∀ instr ∈ instrs, m.state.InRange instr)
    (hperm : instrs.Perm instrs') (hrun : Unexhausted (env.executeAll computeFeatures instrs m))
    (hrun' : Unexhausted (env.executeAll computeFeatures instrs' m))
    : ∃ n n', env.executeAll computeFeatures instrs m = .ok () n ∧
        env.executeAll computeFeatures instrs' m = .ok () n' ∧
        n.state.failed = n'.state.failed ∧
        (n.state.failed = false →
          n.state.heap.size = m.state.heap.size ∧ n'.state.heap.size = m.state.heap.size ∧
          ∀ addr < m.state.heap.size, ∃ arg, n.valueAt addr = .ok arg ∧ n'.valueAt addr = .ok arg) := by
  have hrange' : ∀ instr ∈ instrs', m.state.InRange instr :=
    fun instr hinstr => hrange instr (hperm.mem_iff.mpr hinstr)
  rcases executeAll_settles hfailed hclosed hrange hrun with ⟨n, hall, hsettles⟩
  rcases executeAll_settles hfailed hclosed hrange' hrun' with ⟨n', hall', hsettles'⟩
  refine ⟨n, n', hall, hall', ?_⟩
  simp only [← hperm.mem_iff] at hsettles'
  rcases hsettles with ⟨hfail, hnone⟩ | hsolves
  . rcases hsettles' with ⟨hfail', _⟩ | hsolves'
    . simp [hfail, hfail']
    . exact absurd hnone (hsolves'.exists_model hclosed)
  . rcases hsettles' with ⟨_, hnone'⟩ | hsolves'
    . exact absurd hnone' (hsolves.exists_model hclosed)
    . refine ⟨hsolves.failed_eq.trans hsolves'.failed_eq.symm, fun _ =>
        ⟨hsolves.meets.size_eq, hsolves'.meets.size_eq, ?_⟩⟩
      intro addr haddr
      refine ⟨n.reading addr, ?_, ?_⟩
      . exact Machine.valueAt_eq_reading hsolves.meets.closed (hsolves.meets.size_eq ▸ haddr)
      . rw [hsolves.reading_eq hclosed hsolves' haddr]
        exact Machine.valueAt_eq_reading hsolves'.meets.closed (hsolves'.meets.size_eq ▸ haddr)

end Environment

namespace Sample

def unbound : Machine where
  state := {
    heap := #[.ref 1, .ref 1, .ref 2, .ref 3, .ref 4]
    registers := #[some 3, some 2] }

def demands : List Instruction :=
  [.unifyConst "b" (-1), .unifyBoundVar (-1) (-5), .unifyBoundVar (-2) (-3)]

def letterB : SymbolTable :=
  .single "b"

def solved : Machine where
  state := { unbound.state with
    heap := #[.ref 1, .ref 1, .ref 1, .ref 1, .const 0]
    pc := some 3 }
  symbols := letterB

def solvedBack : Machine where
  state := { unbound.state with
    heap := #[.ref 1, .ref 1, .ref 1, .ref 2, .const 0]
    pc := some 3 }
  symbols := letterB

end Sample

theorem Environment.executeAll_perm_sample
    : ({} : Environment).executeAll false Sample.demands Sample.unbound = .ok () Sample.solved ∧
      ({} : Environment).executeAll false Sample.demands.reverse Sample.unbound =
        .ok () Sample.solvedBack ∧
      ∀ addr < 5, ∃ arg, Sample.solved.valueAt addr = .ok arg ∧
        Sample.solvedBack.valueAt addr = .ok arg := by
  have hclosed : Sample.unbound.state.heap.Closed Sample.unbound.symbols := by
    refine ⟨by decide, ?_⟩
    intro addr id hconst
    have hfree : ∀ addr < 5, Sample.unbound.state.heap[addr]? = some (.ref (max addr 1)) := by decide
    rw [hfree addr (Array.getElem?_eq_some_iff.mp hconst).1] at hconst
    cases hconst
  have hrange : ∀ instr ∈ Sample.demands, Sample.unbound.state.InRange instr := by
    simp only [Sample.demands, List.forall_mem_cons]
    exact ⟨.const rfl, .register rfl rfl (by decide), .register rfl rfl (by decide), nofun⟩
  have hall : ({} : Environment).executeAll false Sample.demands Sample.unbound =
      .ok () Sample.solved := rfl
  have hall' : ({} : Environment).executeAll false Sample.demands.reverse Sample.unbound =
      .ok () Sample.solvedBack := rfl
  have hrun := unexhausted_ok () Sample.solved
  have hrun' := unexhausted_ok () Sample.solvedBack
  rw [← hall] at hrun
  rw [← hall'] at hrun'
  rcases executeAll_perm rfl hclosed hrange (List.reverse_perm _).symm hrun hrun' with
    ⟨n, n', hn, hn', _, hread⟩
  rw [hall] at hn
  rw [hall'] at hn'
  cases hn
  cases hn'
  exact ⟨hall, hall', (hread rfl).2.2⟩

end HornMachine
