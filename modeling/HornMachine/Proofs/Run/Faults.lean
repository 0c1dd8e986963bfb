import HornMachine.Proofs.Machine.Faults
import HornMachine.Proofs.Run.Trace

/-!
This module contains the faults of runs that collect no features from other runs. Such a run comes to no
fault but those of its instructions, and it never makes references run in a circle.
-/

namespace HornMachine

namespace State

variable {symbols : SymbolTable} {instr : Instruction} {s s' : State}

theorem Change.acyclic (h : s.Change symbols instr s') (hacyclic : s.heap.Acyclic)
    : s'.heap.Acyclic := by
  cases h with
  | push href _ => exact hacyclic.push href
  | narrow _ hnarrows => exact hnarrows.acyclic hacyclic
  | assign => exact hacyclic

theorem Changes.acyclic (h : s.Changes symbols instr s') (hacyclic : s.heap.Acyclic)
    : s'.heap.Acyclic := by
  induction h with
  | refl => exact hacyclic
  | tail _ hchange ih => exact hchange.acyclic ih

theorem acyclic_leave (hacyclic : s.heap.Acyclic) : s.leave.heap.Acyclic := by
  cases hcalls : s.calls with
  | nil =>
    rw [leave_nil hcalls]
    exact hacyclic
  | cons frame calls =>
    rw [leave_cons hcalls]
    exact hacyclic.take frame.heapSize

theorem Moves.acyclic (h : s.Moves symbols instr s') (hacyclic : s.heap.Acyclic)
    : s'.heap.Acyclic := by
  cases h with
  | enter => exact hacyclic
  | leave => exact acyclic_leave hacyclic
  | grow count =>
    rw [s.grow_eq]
    exact hacyclic
  | advance _ hchanges => exact hchanges.acyclic hacyclic

end State

section Execute

variable {gather : Nat → Exec (List Goal)} {computeFeatures : Bool} {instr : Instruction}
  {m m' : Machine} {fault : Fault}

theorem execute.stepping_update_eq_error {f : Machine → Except Fault Machine}
    (h : stepping (Exec.update f) m = .error fault m') : f m = .error fault := by
  cases hf : f m with
  | ok m₁ =>
    rw [stepping_update hf] at h
    contradiction
  | error fault' =>
    rw [stepping_update_fault hf] at h
    cases h
    rfl

theorem Interner.intern_immediate (table : SymbolTable) (name : String) (acyclic : Prop)
    : Gives (Fault.Immediate acyclic) (fun _ => True) (table.intern name) := by
  unfold intern add
  split
  . trivial
  . next heq =>
    split at heq
    . contradiction
    . split at heq
      . contradiction
      . cases heq
        exact gives_error trivial

theorem execute_immediate (hfindall : ∀ addr, instr ≠ .ffindall addr)
    (h : execute gather computeFeatures instr m = .error fault m')
    : fault.Immediate m.state.heap.Acyclic := by
  have hlocal : ∀ fault : Fault, fault.Local m.state.heap → fault.Immediate m.state.heap.Acyclic :=
    fun _ hlocal => hlocal.1
  have hupdate : ∀ {f : Machine → Except Fault Machine},
      Machine.GivesTable (Fault.Immediate m.state.heap.Acyclic) (fun _ => True) (f m) →
        execute.stepping (Exec.update f) m = .error fault m' →
          fault.Immediate m.state.heap.Acyclic :=
    fun hgives herror => hgives.of_error (execute.stepping_update_eq_error herror)
  have hintern : ∀ name : String,
      Gives (Fault.Immediate m.state.heap.Acyclic) (fun _ => True) (m.symbols.intern name) :=
    fun name => m.symbols.intern_immediate name _
  rw [execute_eq_whole] at h
  unfold execute.whole at h
  split at h
  . contradiction
  cases instr with
  | grow _ => contradiction
  | callp _ => contradiction
  | returnp => contradiction
  | pushConst name => exact hupdate (Machine.gives_pushConst (hintern name)) h
  | pushFreeVar reg =>
    let pushed : Machine := { m with state := m.state.pushFree }
    have hset : execute.stepping (Exec.update (·.setRegister reg m.state.heap.size)) pushed =
        .error fault m' := h
    have hgives : Machine.GivesTable (Fault.Local m.state.heap) (fun _ => True)
        (pushed.setRegister reg m.state.heap.size) :=
      (pushed.state.accesses_setRegister reg _).and_then fun _ => trivial
    exact hlocal _ (hgives.of_error (execute.stepping_update_eq_error hset))
  | pushBoundVar reg => exact hupdate (Machine.gives_pushBoundVar hlocal trivial reg) h
  | unifyConst name offset =>
    exact hupdate (Machine.gives_unifyConst hlocal trivial (hintern name) offset) h
  | initFreeVar reg offset => exact hupdate (Machine.gives_initFreeVar hlocal trivial reg offset) h
  | unifyBoundVar reg offset =>
    exact hupdate (Machine.gives_unifyBoundVar hlocal trivial reg offset) h
  | fclear => contradiction
  | fpushStart _ _ => contradiction
  | fpushConst name => exact hupdate (Machine.gives_appendArgument hlocal trivial _ _) h
  | fpushBoundVar reg => exact hupdate (Machine.gives_appendRegister hlocal trivial reg) h
  | freport => contradiction
  | ffindall addr => exact absurd rfl (hfindall addr)

end Execute

namespace Program

variable {program : Program} {gather : Nat → Exec (List Goal)} {computeFeatures : Bool}
  {m m' : Machine}

theorem Runs.acyclic {n : Machine} {report : Features}
    (h : program.Runs gather computeFeatures m report n) (hacyclic : m.state.heap.Acyclic)
    : n.state.heap.Acyclic := by
  induction h with
  | pause => exact hacyclic
  | step _ _ hexec _ _ ih => exact ih ((moves_of_execute hexec).acyclic hacyclic)
  | report _ _ hexec _ => exact (moves_of_execute hexec).acyclic hacyclic

theorem Executes.immediate {acyclic : Prop} {fault : Fault} {trace : List (State × Instruction)}
    (h : program.Executes gather computeFeatures m trace (.error fault m'))
    (hskip : computeFeatures = true → ∀ (s : State) (addr : Nat), (s, .ffindall addr) ∉ trace)
    (hacyclic : acyclic → m.state.heap.Acyclic) : fault.Immediate acyclic := by
  generalize hresult : EStateM.Result.error fault m' = result at h
  induction h with
  | pause => contradiction
  | astray _ hinstr =>
    cases hresult
    unfold instruction at hinstr
    split at hinstr
    . contradiction
    . cases hinstr
      trivial
  | @fault _ _ _ instr _ _ _ hexec =>
    cases hresult
    refine (execute_immediate ?_ hexec).mono hacyclic
    rintro addr rfl
    cases computeFeatures with
    | true => exact hskip rfl _ addr List.mem_cons_self
    | false => contradiction
  | report => contradiction
  | step _ _ hexec _ _ ih =>
    apply ih _ _ hresult
    . intro hfeatures s addr hmem
      exact hskip hfeatures s addr (List.mem_cons_of_mem _ hmem)
    . exact fun ha => (moves_of_execute hexec).acyclic (hacyclic ha)

theorem runOn_immediate {acyclic : Prop} {fault : Fault}
    (hfindall : ∀ (pc addr : Nat), program.code[pc]? ≠ some (.ffindall addr))
    (hacyclic : acyclic → m.state.heap.Acyclic)
    (h : program.runOn gather computeFeatures m = .error fault m') : fault.Immediate acyclic := by
  rcases program.exists_executes gather computeFeatures m with ⟨trace, htrace⟩
  rw [h] at htrace
  apply htrace.immediate _ hacyclic
  intro _ s addr hmem
  rcases htrace.getElem?_of_mem hmem with ⟨pc, hinstr⟩
  exact hfindall pc addr hinstr

end Program

end HornMachine
