import HornMachine.Machine.Argument
import HornMachine.Machine.Execute
import HornMachine.Proofs.Heap.Chain

/-!
This module contains the operations of the machine as functions from one machine to the next. An operation
makes its checks before its first write, so it is the change of a machine by such a function, which is made as
a whole or, if it fails, not at all.
-/

namespace HornMachine

namespace State

def settle (s : State) (i ri j rj : Nat) : Except Fault State := do
  if s.failed then
    return s
  else
    let heap ← s.heap.collapse i ri
    let heap ← heap.collapse j rj
    return { s with heap }

def unify (s : State) (i j : Nat) : Except Fault State := do
  let ri ← s.heap.root i
  let rj ← s.heap.root j
  match ← s.heap.cell ri, ← s.heap.cell rj with
  | .const a, .const b =>
    settle { s with failed := if ri = rj then s.failed else a != b } i ri j rj
  | .const a, .ref _ =>
    let heap ← s.heap.bindFree rj (.const a) "unifyboundvar"
    settle { s with heap } i ri j rj
  | .ref _, .const b =>
    let heap ← s.heap.bindFree ri (.const b) "unifyboundvar"
    settle { s with heap } i ri j rj
  | .ref _, .ref _ =>
    if ri = rj then
      settle s i ri j rj
    else
      let low := min ri rj
      let heap ← s.heap.bindFree (max ri rj) (.ref low) "unifyboundvar"
      settle { s with heap } i low j low

def unifyRoots (s : State) (i ri j rj : Nat) : (ci cj : Cell) → Except Fault State
  | .const a, .const b =>
    settle { s with failed := if ri = rj then s.failed else a != b } i ri j rj
  | .const a, .ref _ =>
    s.heap.bindFree rj (.const a) "unifyboundvar" >>= fun heap =>
      settle { s with heap } i ri j rj
  | .ref _, .const b =>
    s.heap.bindFree ri (.const b) "unifyboundvar" >>= fun heap =>
      settle { s with heap } i ri j rj
  | .ref _, .ref _ =>
    if ri = rj then
      settle s i ri j rj
    else
      s.heap.bindFree (max ri rj) (.ref (min ri rj)) "unifyboundvar" >>= fun heap =>
        settle { s with heap } i (min ri rj) j (min ri rj)

theorem unify_eq_unifyRoots {s : State} {i j ri rj : Nat} {ci cj : Cell}
    (hi : s.heap.root i = .ok ri) (hj : s.heap.root j = .ok rj) (hci : s.heap[ri]? = some ci)
    (hcj : s.heap[rj]? = some cj) : s.unify i j = s.unifyRoots i ri j rj ci cj := by
  unfold unify
  rw [hi, hj]
  simp only [bind, Except.bind, Heap.cell_eq_ok hci, Heap.cell_eq_ok hcj]
  cases ci
  all_goals cases cj
  all_goals rfl

end State

namespace Machine

def pushConst (name : String) (m : Machine) : Except Fault Machine := do
  let (id, symbols) ← m.symbols.intern name
  return { m with symbols, state := m.state.push (.const id) }

def setRegister (reg : Int) (addr : Nat) (m : Machine) : Except Fault Machine := do
  let state ← m.state.setRegister reg addr
  return { m with state }

def pushBoundVar (reg : Int) (m : Machine) : Except Fault Machine := do
  let root ← m.state.heap.root (← m.state.register reg)
  return { m with state := m.state.push (.ref root) }

def unifyConst (name : String) (offset : Int) (m : Machine) : Except Fault Machine := do
  let addr ← m.state.heap.relative offset
  let root ← m.state.heap.root addr
  match ← m.state.heap.constantAt root with
  | some id => return { m with state := { m.state with failed := m.symbols.lookup? name != some id } }
  | none =>
    if ← m.state.heap.isFree root then
      let (id, symbols) ← m.symbols.intern name
      let heap ← m.state.heap.write root (.const id)
      let heap ← heap.collapse addr root
      return { m with symbols, state := { m.state with heap } }
    else
      throw (.neitherFreeNorConstant root "unifyconst")

def initFreeVar (reg offset : Int) (m : Machine) : Except Fault Machine := do
  m.setRegister reg (← m.state.heap.relative offset)

def unifyBoundVar (reg offset : Int) (m : Machine) : Except Fault Machine := do
  let i ← m.state.heap.relative offset
  let j ← m.state.register reg
  let state ← m.state.unify i j
  return { m with state }

def appendArgument (arg : Argument) (operation : String) (m : Machine) : Except Fault Machine :=
  match m.features with
  | [] => .error (.emptyFeatureStack operation)
  | feature :: features => .ok { m with features := feature.append arg :: features }

def appendRegister (reg : Int) (m : Machine) : Except Fault Machine := do
  let root ← m.state.heap.root (← m.state.register reg)
  match ← m.state.heap.constantAt root with
  | none => throw (.notConstant root "fpushboundvar")
  | some id =>
    match m.symbols.get? id with
    | none => throw (.unknownSymbol id)
    | some name => m.appendArgument (.const name) "fpushboundvar"

end Machine

namespace Heap

variable {heap : Heap} {start : Nat}

theorem exists_collapse (root : Nat) (h : start < heap.size)
    : ∃ heap', heap.collapse start root = .ok heap' ∧ heap'.size = heap.size := by
  unfold collapse
  split
  . exact ⟨heap, rfl, rfl⟩
  . rcases exists_write (.ref root) h with ⟨heap', hwrite, hwritten⟩
    exact ⟨heap', hwrite, hwritten.size_eq⟩

end Heap

namespace Exec

variable {m : Machine} {addr root : Nat}

theorem update_congr {f g : Machine → Except Fault Machine} (h : f m = g m) : update f m = update g m := by
  rw [update, update, h]

theorem read_bind {f : Machine → Except Fault α} {next : α → Exec Unit}
    {g : α → Machine → Except Fault Machine} (h : ∀ a, f m = .ok a → next a m = update (g a) m)
    : (read f >>= next) m = update (fun m => f m >>= fun a => g a m) m := by
  match hf : f m with
  | .ok a =>
    rw [bind_of_ok (read_of_ok hf), h a hf]
    apply update_congr
    show g a m = f m >>= fun a => g a m
    rw [hf]
    rfl
  | .error fault =>
    rw [bind_apply, read, update, hf]
    rfl

theorem write_of_ok {heap : Heap} {cell : Cell} (h : m.state.heap.write addr cell = .ok heap)
    : write addr cell m = .ok () { m with state := { m.state with heap } } := by
  unfold write
  rw [update_eq_ok, h]
  rfl

theorem collapse_of_ok {heap : Heap} (h : m.state.heap.collapse addr root = .ok heap)
    : collapse addr root m = .ok () { m with state := { m.state with heap } } := by
  unfold collapse
  unfold Heap.collapse at h
  split at h
  . next heq =>
    cases h
    rw [if_neg (by simp [heq])]
    rfl
  . next hne =>
    rw [if_pos hne]
    exact write_of_ok h

/--
The cells that are written are on the heap because a walk has been there, so no write fails.
-/
theorem bindConstant_eq {name : String} (haddr : m.state.heap.Leads addr root)
    : bindConstant name addr root m = update (fun m => do
        let (id, symbols) ← m.symbols.intern name
        let heap ← m.state.heap.write root (.const id)
        let heap ← heap.collapse addr root
        return { m with symbols, state := { m.state with heap } }) m := by
  unfold bindConstant
  match hintern : m.symbols.intern name with
  | .error fault =>
    rw [bind_apply, intern, update, hintern]
    rfl
  | .ok (id, symbols) =>
    rcases Heap.exists_write (.const id) haddr.root_lt_size with ⟨heap₁, hwrite, hwritten⟩
    have hlt : addr < heap₁.size := by
      rw [hwritten.size_eq]
      exact haddr.lt_size
    rcases Heap.exists_collapse root hlt with ⟨heap₂, hcollapse, -⟩
    have hid : intern name m = .ok id { m with symbols } := by
      rw [intern, hintern]
    have hset : write root (.const id) { m with symbols } =
        .ok () { m with symbols, state := { m.state with heap := heap₁ } } :=
      write_of_ok hwrite
    have hshort : collapse addr root { m with symbols, state := { m.state with heap := heap₁ } } =
        .ok () { m with symbols, state := { m.state with heap := heap₂ } } :=
      collapse_of_ok hcollapse
    rw [bind_of_ok hid, bind_of_ok hset, hshort]
    symm
    rw [update_eq_ok, hintern]
    show m.state.heap.write root (.const id) >>= _ = _
    rw [hwrite]
    show heap₁.collapse addr root >>= _ = _
    rw [hcollapse]
    rfl

theorem pushConst_eq (name : String) : pushConst name = update (·.pushConst name) := by
  funext m
  unfold pushConst
  match hintern : m.symbols.intern name with
  | .error fault =>
    rw [bind_apply, intern, update, Machine.pushConst, hintern]
    rfl
  | .ok (id, symbols) =>
    rw [bind_apply, intern, update, Machine.pushConst, hintern]
    rfl

theorem pushBoundVar_eq (reg : Int) : pushBoundVar reg = update (·.pushBoundVar reg) := by
  funext m
  exact read_bind fun addr _ => read_bind fun root _ => rfl

theorem unifyConst_eq (name : String) (offset : Int)
    : unifyConst name offset = update (·.unifyConst name offset) := by
  funext m
  refine read_bind fun addr _ => read_bind fun root hroot => read_bind fun value _ => ?_
  cases value with
  | some id => rfl
  | none =>
    refine read_bind fun free _ => ?_
    cases free with
    | true => exact bindConstant_eq (.of_root hroot)
    | false => rfl

theorem initFreeVar_eq (reg offset : Int) : initFreeVar reg offset = update (·.initFreeVar reg offset) := by
  funext m
  exact read_bind fun addr _ => rfl

theorem bindFree_of_isFree (cell : Cell) (h : m.state.heap.IsFree addr)
    : ∃ heap, m.state.heap.bindFree addr cell "unifyboundvar" = .ok heap ∧
        bindFree addr cell m = .ok () { m with state := { m.state with heap } } ∧
        heap.size = m.state.heap.size := by
  rcases Heap.exists_write cell h.lt_size with ⟨heap, hwrite, hwritten⟩
  have hfree : m.state.heap.isFree addr = .ok true := by
    rw [Heap.isFree_eq_ok h, beq_self_eq_true]
  refine ⟨heap, ?_, ?_, hwritten.size_eq⟩
  . unfold Heap.bindFree
    rw [hfree]
    exact hwrite
  . have hread : isFree addr m = .ok true m := read_of_ok hfree
    unfold bindFree
    rw [bind_of_ok hread]
    exact write_of_ok hwrite

theorem settle_of_lt (ri rj : Nat) {i j : Nat} (hi : i < m.state.heap.size)
    (hj : j < m.state.heap.size)
    : ∃ s, m.state.settle i ri j rj = .ok s ∧ settle i ri j rj m = .ok () { m with state := s } := by
  unfold State.settle settle
  rw [bind_of_ok (get_apply m)]
  by_cases hfailed : m.state.failed
  . refine ⟨m.state, ?_, ?_⟩
    . rw [if_pos hfailed]
      rfl
    . rw [if_neg (by simp [hfailed])]
      rfl
  . rcases Heap.exists_collapse ri hi with ⟨heap₁, hcollapse₁, hsize⟩
    rcases Heap.exists_collapse rj (hsize ▸ hj) with ⟨heap₂, hcollapse₂, -⟩
    have hshort₁ : collapse i ri m = .ok () { m with state := { m.state with heap := heap₁ } } :=
      collapse_of_ok hcollapse₁
    have hshort₂ : collapse j rj { m with state := { m.state with heap := heap₁ } } =
        .ok () { m with state := { m.state with heap := heap₂ } } :=
      collapse_of_ok hcollapse₂
    refine ⟨{ m.state with heap := heap₂ }, ?_, ?_⟩
    . rw [if_neg hfailed, hcollapse₁]
      show heap₁.collapse j rj >>= _ = _
      rw [hcollapse₂]
      rfl
    . rw [if_pos (by simp [hfailed]), bind_of_ok hshort₁, hshort₂]

theorem unite_free {ri rj : Nat} (hri : m.state.heap.IsFree ri) (hrj : m.state.heap.IsFree rj) (i j : Nat)
    : ∃ s ri' rj', unite ri rj none none m = .ok (ri', rj') { m with state := s } ∧
        s.heap.size = m.state.heap.size ∧
        m.state.unifyRoots i ri j rj (.ref ri) (.ref rj) = s.settle i ri' j rj' := by
  unfold State.unifyRoots unite
  rcases Nat.lt_trichotomy ri rj with hlt | rfl | hlt
  . rcases bindFree_of_isFree (.ref ri) hrj with ⟨heap, hheap, hbind, hsize⟩
    have hle := Nat.le_of_lt hlt
    refine ⟨{ m.state with heap }, ri, ri, ?_, hsize, ?_⟩
    . simp only [if_neg (Nat.ne_of_lt hlt), if_pos hlt, bind_of_ok hbind, pure_apply]
    . rw [if_neg (Nat.ne_of_lt hlt), Nat.max_eq_right hle, Nat.min_eq_left hle, hheap]
      rfl
  . exact ⟨m.state, ri, ri, by simp only [if_pos, pure_apply], rfl, by simp only [if_pos]⟩
  . rcases bindFree_of_isFree (.ref rj) hri with ⟨heap, hheap, hbind, hsize⟩
    have hle := Nat.le_of_lt hlt
    refine ⟨{ m.state with heap }, rj, rj, ?_, hsize, ?_⟩
    . simp only [if_neg (Nat.ne_of_gt hlt), if_neg (Nat.lt_asymm hlt), bind_of_ok hbind, pure_apply]
    . rw [if_neg (Nat.ne_of_gt hlt), Nat.max_eq_left hle, Nat.min_eq_right hle, hheap]
      rfl

theorem unite_of_roots {i j ri rj : Nat} (hi : m.state.heap.root i = .ok ri)
    (hj : m.state.heap.root j = .ok rj)
    : ∃ ci cj, m.state.heap.constantAt ri = .ok ci ∧ m.state.heap.constantAt rj = .ok cj ∧
        ∃ s ri' rj', unite ri rj ci cj m = .ok (ri', rj') { m with state := s } ∧
          s.heap.size = m.state.heap.size ∧ m.state.unify i j = s.settle i ri' j rj' := by
  -- a case for each branch of the instruction: either side is free or a constant
  rcases (Heap.Leads.of_root hi).root_cases with hri | ⟨a, hri⟩
  all_goals rcases (Heap.Leads.of_root hj).root_cases with hrj | ⟨b, hrj⟩
  all_goals rw [State.unify_eq_unifyRoots hi hj hri hrj]
  . exact ⟨none, none, Heap.constantAt_free hri, Heap.constantAt_free hrj, unite_free hri hrj i j⟩
  . refine ⟨none, some b, Heap.constantAt_free hri, Heap.constantAt_const hrj, ?_⟩
    have hne : ri ≠ rj := (hrj.ne_of_isFree hri).symm
    rcases bindFree_of_isFree (.const b) hri with ⟨heap, hheap, hbind, hsize⟩
    unfold State.unifyRoots unite
    refine ⟨{ m.state with heap }, ri, rj, ?_, hsize, by simp only [hheap]; rfl⟩
    simp only [if_neg hne, bind_of_ok hbind, pure_apply]
  . refine ⟨some a, none, Heap.constantAt_const hri, Heap.constantAt_free hrj, ?_⟩
    have hne : ri ≠ rj := hri.ne_of_isFree hrj
    rcases bindFree_of_isFree (.const a) hrj with ⟨heap, hheap, hbind, hsize⟩
    unfold State.unifyRoots unite
    refine ⟨{ m.state with heap }, ri, rj, ?_, hsize, by simp only [hheap]; rfl⟩
    simp only [if_neg hne, bind_of_ok hbind, pure_apply]
  . refine ⟨some a, some b, Heap.constantAt_const hri, Heap.constantAt_const hrj, ?_⟩
    unfold State.unifyRoots unite
    by_cases heq : ri = rj
    . exact ⟨m.state, ri, rj, by simp only [if_pos heq, pure_apply], rfl, by simp only [if_pos heq]⟩
    . refine ⟨{ m.state with failed := a != b }, ri, rj, ?_, rfl, by simp only [if_neg heq]⟩
      simp only [if_neg heq]
      rfl

theorem unifyBoundVar_eq (reg offset : Int)
    : unifyBoundVar reg offset = update (·.unifyBoundVar reg offset) := by
  funext m
  refine read_bind fun i _ => read_bind fun j _ => ?_
  show (read (·.state.heap.root i) >>= _) m = _
  match hi : m.state.heap.root i with
  | .error fault =>
    rw [bind_apply, read, hi, update, State.unify, hi]
    rfl
  | .ok ri =>
    rw [bind_of_ok (read_of_ok hi)]
    show (read (·.state.heap.root j) >>= _) m = _
    match hj : m.state.heap.root j with
    | .error fault =>
      rw [bind_apply, read, hj, update, State.unify, hi, hj]
      rfl
    | .ok rj =>
      rcases unite_of_roots hi hj with ⟨ci, cj, hci, hcj, s, ri', rj', hunite, hsize, hunify⟩
      have hli : i < s.heap.size := hsize ▸ (Heap.Leads.of_root hi).lt_size
      have hlj : j < s.heap.size := hsize ▸ (Heap.Leads.of_root hj).lt_size
      rcases settle_of_lt (m := { m with state := s }) ri' rj' hli hlj with
        ⟨s', hsettled, hsettle⟩
      have hri : constantAt ri m = .ok ci m := read_of_ok hci
      have hrj : constantAt rj m = .ok cj m := read_of_ok hcj
      rw [bind_of_ok (read_of_ok hj), bind_of_ok hri, bind_of_ok hrj, bind_of_ok hunite]
      show settle i ri' j rj' { m with state := s } = _
      rw [hsettle]
      symm
      rw [update_eq_ok, hunify, hsettled]
      rfl

theorem appendRegister_eq (reg : Int) : appendRegister reg = update (·.appendRegister reg) := by
  funext m
  refine read_bind fun addr _ => read_bind fun root _ => read_bind fun value _ => ?_
  cases value with
  | none => rfl
  | some id =>
    simp only [bind_of_ok (get_apply m), update]
    cases m.symbols.get? id with
    | none => rfl
    | some name => rfl

theorem setArgument_eq (arity index : Nat) (name : String)
    : setArgument arity index name = update (Machine.setArgument arity index name) := by
  funext m
  refine read_bind fun addr _ => read_bind fun root hroot => read_bind fun free _ => ?_
  cases free with
  | true => exact bindConstant_eq (.of_root hroot)
  | false => rfl

end Exec

/--
What an instruction does, with every operation made as a whole.
-/
def execute.whole (gather : Nat → Exec (List Goal)) (computeFeatures : Bool) (instr : Instruction)
    : Exec Features := do
  if instr.isFeature && !computeFeatures then
    Exec.advance
    return ∅
  match instr with
  | .callp label =>
    Exec.onState (·.enter label)
    return ∅
  | .returnp =>
    Exec.onState State.leave
    return ∅
  | .grow count => stepping (Exec.onState (·.grow count))
  | .pushConst name => stepping (Exec.update (·.pushConst name))
  | .pushFreeVar reg =>
    let addr := (← get).state.heap.size
    stepping do
      Exec.onState State.pushFree
      Exec.update (·.setRegister reg addr)
  | .pushBoundVar reg => stepping (Exec.update (·.pushBoundVar reg))
  | .unifyConst name offset => stepping (Exec.update (·.unifyConst name offset))
  | .initFreeVar reg offset => stepping (Exec.update (·.initFreeVar reg offset))
  | .unifyBoundVar reg offset => stepping (Exec.update (·.unifyBoundVar reg offset))
  | .fclear => stepping (modify ({ · with features := [] }))
  | .fpushStart functor arity =>
    stepping (modify fun m => { m with features := ⟨functor, arity, []⟩ :: m.features })
  | .fpushConst name => stepping (Exec.update (·.appendArgument (.const name) "fpushconst"))
  | .fpushBoundVar reg => stepping (Exec.update (·.appendRegister reg))
  | .freport =>
    let report := Features.report (← get).features
    Exec.advance
    return report
  | .ffindall addr =>
    let m ← get
    let goals ← gather addr
    stepping (modify ({ · with
      state := m.state
      features := goals.reverse.map Feature.ofGoal ++ m.features }))

theorem execute_eq_whole (gather : Nat → Exec (List Goal)) (computeFeatures : Bool) (instr : Instruction)
    : execute gather computeFeatures instr = execute.whole gather computeFeatures instr := by
  unfold execute
  simp only [Exec.pushConst_eq, Exec.pushBoundVar_eq, Exec.unifyConst_eq, Exec.initFreeVar_eq,
    Exec.unifyBoundVar_eq, Exec.appendRegister_eq]
  cases instr
  all_goals rfl

end HornMachine
