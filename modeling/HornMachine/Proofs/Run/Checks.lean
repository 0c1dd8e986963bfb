import HornMachine.Environment.Gather
import HornMachine.Proofs.Run.Faults

/-!
This module contains what the instructions check. All checks come before the first change, so that an
instruction that comes to a fault leaves the machine as it was. The only exception is the instruction that
puts a free cell on the heap and then finds no register for it.
-/

namespace HornMachine

theorem discard_eq_error {x : Except Fault α} {fault : Fault}
    : discard x = .error fault ↔ x = .error fault := by
  cases x with
  | ok a =>
    constructor
    . intro h
      contradiction
    . intro h
      contradiction
  | error fault' =>
    constructor
    . rintro ⟨⟩
      rfl
    . rintro ⟨⟩
      rfl

namespace Heap

theorem collapse_total {heap : Heap} {start : Nat} (root : Nat) (h : start < heap.size)
    : ∃ heap', heap.collapse start root = .ok heap' ∧ heap'.size = heap.size := by
  unfold collapse
  split
  . exact ⟨heap, rfl, rfl⟩
  . rcases exists_write (.ref root) h with ⟨heap', hwrite, hwritten⟩
    exact ⟨heap', hwrite, hwritten.size_eq⟩

end Heap

namespace State

variable {s : State} {i ri j rj : Nat}

theorem settle_total (ri rj : Nat) (hi : i < s.heap.size) (hj : j < s.heap.size)
    : ∃ s', s.settle i ri j rj = .ok s' := by
  unfold settle
  split
  . exact ⟨s, rfl⟩
  . rcases Heap.collapse_total ri hi with ⟨heap₁, hcollapse₁, hsize₁⟩
    rcases Heap.collapse_total rj (hsize₁ ▸ hj) with ⟨heap₂, hcollapse₂, _⟩
    refine ⟨{ s with heap := heap₂ }, ?_⟩
    simp only [hcollapse₁, hcollapse₂, bind, Except.bind]
    rfl

theorem unify_total (hri : s.heap.root i = .ok ri) (hrj : s.heap.root j = .ok rj)
    : ∃ s', s.unify i j = .ok s' := by
  have hi := Heap.Leads.of_root hri
  have hj := Heap.Leads.of_root hrj
  have hbind : ∀ (addr ri' rj' : Nat) (cell : Cell), s.heap.IsFree addr →
      ∃ heap s', s.heap.bindFree addr cell "unifyboundvar" = .ok heap ∧
        settle { s with heap } i ri' j rj' = .ok s' := by
    intro addr ri' rj' cell hfree
    rcases Heap.exists_bindFree cell "unifyboundvar" hfree with ⟨heap, hbind, hwritten⟩
    have hsize := hwritten.size_eq
    rcases settle_total (s := { s with heap }) ri' rj' (hsize ▸ hi.lt_size) (hsize ▸ hj.lt_size) with
      ⟨s', hsettle⟩
    exact ⟨heap, s', hbind, hsettle⟩
  unfold unify
  simp only [hri, hrj, bind, Except.bind]
  rcases hi.root_cases with hci | ⟨a, hci⟩ <;> rcases hj.root_cases with hcj | ⟨b, hcj⟩
  . simp only [Heap.cell_eq_ok hci, Heap.cell_eq_ok hcj]
    split
    . exact settle_total ri rj hi.lt_size hj.lt_size
    . have hmax : s.heap.IsFree (max ri rj) := by
        rcases Nat.le_total ri rj with hle | hle
        . exact (Nat.max_eq_right hle).symm ▸ hcj
        . exact (Nat.max_eq_left hle).symm ▸ hci
      rcases hbind (max ri rj) (min ri rj) (min ri rj) (.ref (min ri rj)) hmax with
        ⟨heap, s', hbound, hsettle⟩
      exact ⟨s', by simp only [hbound, hsettle]⟩
  . simp only [Heap.cell_eq_ok hci, Heap.cell_eq_ok hcj]
    rcases hbind ri ri rj (.const b) hci with ⟨heap, s', hbound, hsettle⟩
    exact ⟨s', by simp only [hbound, hsettle]⟩
  . simp only [Heap.cell_eq_ok hci, Heap.cell_eq_ok hcj]
    rcases hbind rj ri rj (.const a) hcj with ⟨heap, s', hbound, hsettle⟩
    exact ⟨s', by simp only [hbound, hsettle]⟩
  . simp only [Heap.cell_eq_ok hci, Heap.cell_eq_ok hcj]
    exact settle_total _ _ hi.lt_size hj.lt_size

end State

/--
What an instruction checks before it changes anything.
-/
def Instruction.check (m : Machine) : Instruction → Except Fault Unit
  | .pushConst name => discard (m.symbols.intern name)
  | .pushFreeVar reg => target reg
  | .pushBoundVar reg => do
    discard (m.state.heap.root (← m.state.register reg))
  | .unifyConst name offset => do
    let root ← m.state.heap.root (← m.state.heap.relative offset)
    if m.state.heap.IsFree root then
      discard (m.symbols.intern name)
  | .initFreeVar reg offset => do
    discard (m.state.heap.relative offset)
    target reg
  | .unifyBoundVar reg offset => do
    let i ← m.state.heap.relative offset
    let j ← m.state.register reg
    discard (m.state.heap.root i)
    discard (m.state.heap.root j)
  | .fpushConst _ => feature "fpushconst"
  | .fpushBoundVar reg => do
    let root ← m.state.heap.root (← m.state.register reg)
    match ← m.state.heap.constantAt root with
    | none => throw (.notConstant root "fpushboundvar")
    | some id =>
      if m.symbols.get? id = none then
        throw (.unknownSymbol id)
      feature "fpushboundvar"
  | _ => pure ()
where
  target (reg : Int) : Except Fault Unit :=
    if fromTop? m.state.registers.size reg = none then throw (.invalidRegister reg) else pure ()
  feature (operation : String) : Except Fault Unit :=
    if m.features = [] then throw (.emptyFeatureStack operation) else pure ()

namespace Machine

variable {m : Machine} {name : String} {reg offset : Int}

theorem check_setRegister (addr : Nat)
    : discard (m.setRegister reg addr) = Instruction.check.target m reg := by
  unfold setRegister State.setRegister Instruction.check.target
  split
  . next hreg =>
    rw [hreg]
    rfl
  . next i hreg =>
    rw [if_neg (by simp [hreg])]
    rfl

theorem check_pushConst : discard (m.pushConst name) = (Instruction.pushConst name).check m := by
  simp only [pushConst, Instruction.check]
  cases m.symbols.intern name with
  | error fault => rfl
  | ok entry => rfl

theorem check_pushBoundVar : discard (m.pushBoundVar reg) = (Instruction.pushBoundVar reg).check m := by
  simp only [pushBoundVar, Instruction.check]
  cases m.state.register reg with
  | error fault => rfl
  | ok addr =>
    simp only [bind, Except.bind]
    cases m.state.heap.root addr with
    | error fault => rfl
    | ok root => rfl

theorem check_unifyConst
    : discard (m.unifyConst name offset) = (Instruction.unifyConst name offset).check m := by
  simp only [unifyConst, Instruction.check]
  cases m.state.heap.relative offset with
  | error fault => rfl
  | ok addr =>
    simp only [bind, Except.bind]
    cases hroot : m.state.heap.root addr with
    | error fault => rfl
    | ok root =>
      have hleads := Heap.Leads.of_root hroot
      rcases hleads.root_cases with hfree | ⟨id, hconst⟩
      . simp only [Heap.constantAt_free hfree, Heap.isFree_eq_ok hfree, beq_self_eq_true, if_pos hfree, if_true]
        cases m.symbols.intern name with
        | error fault => rfl
        | ok entry =>
          rcases Heap.exists_write (.const entry.1) hleads.root_lt_size with ⟨heap, hwrite, hwritten⟩
          have haddr : addr < heap.size := hwritten.size_eq ▸ hleads.lt_size
          rcases Heap.collapse_total root haddr with ⟨heap', hcollapse, _⟩
          simp only [hwrite, hcollapse]
          rfl
      . simp only [Heap.constantAt_const hconst, if_neg hconst.not_isFree]
        rfl

theorem check_initFreeVar
    : discard (m.initFreeVar reg offset) = (Instruction.initFreeVar reg offset).check m := by
  simp only [initFreeVar, Instruction.check]
  cases m.state.heap.relative offset with
  | error fault => rfl
  | ok addr => exact check_setRegister addr

theorem check_unifyBoundVar
    : discard (m.unifyBoundVar reg offset) = (Instruction.unifyBoundVar reg offset).check m := by
  simp only [unifyBoundVar, Instruction.check]
  cases m.state.heap.relative offset with
  | error fault => rfl
  | ok i =>
    cases m.state.register reg with
    | error fault => rfl
    | ok j =>
      simp only [bind, Except.bind]
      cases hri : m.state.heap.root i with
      | error fault =>
        simp only [State.unify, hri, bind, Except.bind]
        rfl
      | ok ri =>
        cases hrj : m.state.heap.root j with
        | error fault =>
          simp only [State.unify, hri, hrj, bind, Except.bind]
          rfl
        | ok rj =>
          rcases State.unify_total hri hrj with ⟨s, hs⟩
          rw [hs]
          rfl

theorem check_appendArgument (arg : Argument) (operation : String)
    : discard (m.appendArgument arg operation) = Instruction.check.feature m operation := by
  unfold appendArgument Instruction.check.feature
  split
  . next hfeatures =>
    rw [if_pos hfeatures]
    rfl
  . next hfeatures =>
    rw [if_neg (by simp [hfeatures])]
    rfl

theorem check_appendRegister
    : discard (m.appendRegister reg) = (Instruction.fpushBoundVar reg).check m := by
  simp only [appendRegister, Instruction.check]
  cases m.state.register reg with
  | error fault => rfl
  | ok addr =>
    simp only [bind, Except.bind]
    cases m.state.heap.root addr with
    | error fault => rfl
    | ok root =>
      match hconst : m.state.heap.constantAt root with
      | .error fault =>
        simp only [hconst]
        rfl
      | .ok none =>
        simp only [hconst]
        rfl
      | .ok (some id) =>
        match hname : m.symbols.get? id with
        | none =>
          simp only [hconst, hname]
          rfl
        | some name =>
          simp only [hconst, hname]
          exact check_appendArgument (.const name) "fpushboundvar"

end Machine

section Execute

variable {gather : Nat → Exec (List Goal)} {computeFeatures : Bool} {instr : Instruction}
  {m n : Machine} {fault : Fault} {report : Features}

theorem execute.stepping_update_iff {f : Machine → Except Fault Machine} {check : Except Fault Unit}
    (hcheck : discard (f m) = check)
    : stepping (Exec.update f) m = .error fault n ↔ check = .error fault ∧ n = m := by
  rw [← hcheck, discard_eq_error]
  match hf : f m with
  | .ok m' => simp [stepping_update hf]
  | .error fault' =>
    simp only [stepping_update_fault hf, EStateM.Result.error.injEq, Except.error.injEq]
    exact and_congr_right fun _ => eq_comm

/--
What an instruction leaves of a machine on which its checks fail.
-/
def Instruction.abandoned (m : Machine) : Instruction → Machine
  | .pushFreeVar _ => { m with state := m.state.pushFree }
  | _ => m

theorem execute.fault_iff (hfindall : ∀ addr, instr ≠ .ffindall addr)
    (hrun : (instr.isFeature && !computeFeatures) = false)
    : execute gather computeFeatures instr m = .error fault n ↔
      instr.check m = .error fault ∧ n = instr.abandoned m := by
  rw [execute_eq_whole]
  unfold execute.whole
  rw [hrun, if_neg Bool.false_ne_true]
  cases instr with
  | grow _ => exact ⟨nofun, nofun⟩
  | callp _ => exact ⟨nofun, nofun⟩
  | returnp => exact ⟨nofun, nofun⟩
  | pushConst _ => exact stepping_update_iff Machine.check_pushConst
  | pushFreeVar reg =>
    let pushed : Machine := { m with state := m.state.pushFree }
    have hcheck : discard (pushed.setRegister reg m.state.heap.size) =
        Instruction.check.target pushed reg :=
      Machine.check_setRegister _
    exact stepping_update_iff hcheck
  | pushBoundVar _ => exact stepping_update_iff Machine.check_pushBoundVar
  | unifyConst _ _ => exact stepping_update_iff Machine.check_unifyConst
  | initFreeVar _ _ => exact stepping_update_iff Machine.check_initFreeVar
  | unifyBoundVar _ _ => exact stepping_update_iff Machine.check_unifyBoundVar
  | fclear => exact ⟨nofun, nofun⟩
  | fpushStart _ _ => exact ⟨nofun, nofun⟩
  | fpushConst _ => exact stepping_update_iff (Machine.check_appendArgument _ _)
  | fpushBoundVar _ => exact stepping_update_iff Machine.check_appendRegister
  | freport => exact ⟨nofun, nofun⟩
  | ffindall addr => exact absurd rfl (hfindall addr)

theorem execute_eq_error (hfindall : ∀ addr, instr ≠ .ffindall addr)
    : execute gather computeFeatures instr m = .error fault n ↔
      (instr.isFeature && !computeFeatures) = false ∧ instr.check m = .error fault ∧
        n = instr.abandoned m := by
  match hrun : instr.isFeature && !computeFeatures with
  | false => simp [execute.fault_iff hfindall hrun]
  | true =>
    rw [execute_eq_whole]
    unfold execute.whole
    rw [hrun, if_pos rfl]
    exact ⟨nofun, nofun⟩

theorem execute_total (hfindall : ∀ addr, instr ≠ .ffindall addr) (hcheck : instr.check m = .ok ())
    : ∃ report n, execute gather computeFeatures instr m = .ok report n := by
  match hexec : execute gather computeFeatures instr m with
  | .ok report n => exact ⟨report, n, rfl⟩
  | .error fault n =>
    have hfault := ((execute_eq_error hfindall).mp hexec).2.1
    rw [hcheck] at hfault
    contradiction

theorem execute_next (hcallp : ∀ label, instr ≠ .callp label) (hreturnp : instr ≠ .returnp)
    (h : execute gather computeFeatures instr m = .ok report n)
    : n.state.pc = m.state.pc.map (· + 1) ∧ n.state.calls = m.state.calls ∧
        n.state.jumpTo = m.state.jumpTo := by
  have hmoves := moves_of_execute h
  generalize n.state = s at hmoves
  cases hmoves with
  | enter label => exact absurd rfl (hcallp label)
  | leave => exact absurd rfl hreturnp
  | grow count =>
    rw [State.grow_eq]
    exact ⟨rfl, rfl, rfl⟩
  | advance _ hchanges =>
    exact ⟨congrArg (Option.map (· + 1)) hchanges.pc_eq, hchanges.calls_eq, hchanges.jumpTo_eq⟩

end Execute

namespace Environment

variable {env : Environment} {m : Machine}

theorem execute_fails (hacyclic : m.state.heap.Acyclic) (computeFeatures : Bool)
    : (∀ instr fault n, (∀ addr, instr ≠ .ffindall addr) →
        env.execute instr computeFeatures m = .error fault n →
          instr.check m = .error fault ∧ (∀ addr, fault ≠ .cyclicReference addr) ∧
            (((∀ reg, instr ≠ .pushFreeVar reg) ∧ n = m) ∨
              ∃ reg, instr = .pushFreeVar reg ∧ fault = .invalidRegister reg ∧
                n = { m with
                  state := { m.state with heap := m.state.heap.push (.ref m.state.heap.size) } })) ∧
      (∀ label count functor arity,
        ∀ instr ∈ [.callp label, .returnp, .grow count, .fclear, .fpushStart functor arity, .freport],
          ∃ report n, env.execute instr computeFeatures m = .ok report n) ∧
      (∀ name, m.symbols.Admits name →
        ∃ report n, env.execute (.pushConst name) computeFeatures m = .ok report n) ∧
      ∀ instr report n, env.execute instr computeFeatures m = .ok report n →
        (∀ label, instr ≠ .callp label) → instr ≠ .returnp →
          n.state.pc = m.state.pc.map (· + 1) ∧ n.state.calls = m.state.calls ∧
            n.state.jumpTo = m.state.jumpTo := by
  refine ⟨?_, ?_, ?_, ?_⟩
  . intro instr fault n hfindall hexec
    rcases (execute_eq_error hfindall).mp hexec with ⟨_, hcheck, hleft⟩
    refine ⟨hcheck, ?_, ?_⟩
    . rintro addr rfl
      exact execute_immediate hfindall hexec hacyclic
    . cases instr with
      | pushFreeVar reg =>
        right
        refine ⟨reg, rfl, ?_, hleft⟩
        simp only [Instruction.check, Instruction.check.target] at hcheck
        split at hcheck
        . cases hcheck
          rfl
        . contradiction
      | _ => exact .inl ⟨nofun, hleft⟩
  . intro label count functor arity instr hmem
    simp only [List.mem_cons, List.not_mem_nil, or_false] at hmem
    rcases hmem with rfl | rfl | rfl | rfl | rfl | rfl
    all_goals exact execute_total nofun rfl
  . intro name hadmits
    rcases Interner.admits_iff.mp hadmits with ⟨id, symbols, hintern⟩
    have hfindall : ∀ addr, Instruction.pushConst name ≠ .ffindall addr := nofun
    apply execute_total hfindall
    simp only [Instruction.check, hintern]
    rfl
  . intro instr report n hexec hcallp hreturnp
    exact execute_next hcallp hreturnp hexec

end Environment

namespace Sample

def unsetRegister : Machine where
  state := { heap := #[.ref 1, .ref 1], registers := #[none] }

end Sample

theorem Environment.execute_fails_sample
    : Sample.unsetRegister.state.heap.Acyclic ∧
      (∃ n, ({} : Environment).execute (.pushFreeVar 0) true Sample.unsetRegister =
        .error (.invalidRegister 0) n ∧ n.state.heap = #[.ref 1, .ref 1, .ref 2]) ∧
      (∃ n, ({} : Environment).execute (.unifyBoundVar (-1) (-2)) true Sample.unsetRegister =
        .error (.unsetRegister (-1)) n ∧ n = Sample.unsetRegister) ∧
      ∃ report n, ({} : Environment).execute (.initFreeVar (-1) (-2)) true Sample.unsetRegister =
        .ok report n ∧ n.state.pc = some 1 := by
  have hacyclic : Sample.unsetRegister.state.heap.Acyclic := Heap.Grounded.acyclic (by decide)
  rcases @execute_fails {} _ hacyclic true with ⟨hfails, _, _, hnext⟩
  refine ⟨hacyclic, ?_, ?_, ?_⟩
  . have hexec : ∃ n, ({} : Environment).execute (.pushFreeVar 0) true Sample.unsetRegister =
        .error (.invalidRegister 0) n := ⟨_, rfl⟩
    rcases hexec with ⟨n, hexec⟩
    rcases hfails (.pushFreeVar 0) _ n nofun hexec with ⟨_, _, ⟨hne, _⟩ | ⟨_, _, _, rfl⟩⟩
    . exact absurd rfl (hne 0)
    . exact ⟨_, hexec, rfl⟩
  . have hexec : ∃ n, ({} : Environment).execute (.unifyBoundVar (-1) (-2)) true Sample.unsetRegister =
        .error (.unsetRegister (-1)) n := ⟨_, rfl⟩
    rcases hexec with ⟨n, hexec⟩
    rcases hfails (.unifyBoundVar (-1) (-2)) _ n nofun hexec with ⟨_, _, ⟨_, hn⟩ | ⟨_, hreg, _⟩⟩
    . exact ⟨n, hexec, hn⟩
    . contradiction
  . have hexec : ∃ n, ({} : Environment).execute (.initFreeVar (-1) (-2)) true Sample.unsetRegister =
        .ok ∅ n := ⟨_, rfl⟩
    rcases hexec with ⟨n, hexec⟩
    exact ⟨∅, n, hexec, (hnext _ _ _ hexec nofun nofun).1⟩

end HornMachine
