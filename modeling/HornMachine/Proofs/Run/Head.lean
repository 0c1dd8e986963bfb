import HornMachine.Proofs.Run.Advance

/-!
This module contains the run through the head of a clause. The arguments of the call are on top of the
heap, and the run either keeps the models in which they are an instance of the arguments of the head, or
fails because there is none.
-/

namespace HornMachine

def Machine.refused (m : Machine) : Machine :=
  { m with state := { m.state with failed := true }.advance }

def Machine.revived (m : Machine) : Machine :=
  { m with state := { m.state with failed := false } }

structure Stopped (program : Program) (vars seen' : List String) (pc' : Nat) (args : List Term)
    (seen : List String) (pc : Nat) (m m' : Machine) : Prop where
  failed_eq : m'.state.failed = true
  advances : Advances vars seen pc m m'.revived
  size_eq : m'.state.heap.size = m.state.heap.size
  code : program.Has pc (Code.head vars (-(args.length : Int)) seen args)
  pc_eq : pc + args.length = pc'
  length_le : args.length ≤ m.state.heap.size
  mem_vars : ∀ name, .var name ∈ args → name ∈ vars
  seen_iff : ∀ name ∈ vars, name ∈ args.filterMap Term.var? ++ seen ↔ name ∈ seen'

def Refused (program : Program) (gather : Nat → Exec (List Goal)) (computeFeatures : Bool)
    (vars seen' : List String) (pc' : Nat) (m : Machine) : Prop :=
  ∃ args seen pc m', program.runOn gather computeFeatures m = .ok ∅ m' ∧
    Stopped program vars seen' pc' args seen pc m m'

/--
Values for the addresses and the variables that are possible in a machine.
-/
def Fits [Domain D] (vars : List String) (m : Machine) (v : Nat → D) (assign : String → D) : Prop :=
  m.state.heap.Models m.symbols v ∧ Agrees vars m v assign

def Matches [Domain D] (args : List Term) (m : Machine) (v : Nat → D) (assign : String → D) : Prop :=
  cells v (m.state.heap.size - args.length) args.length = args.map (Term.eval assign)

def Rejects (vars : List String) (args : List Term) (m : Machine) : Prop :=
  ∀ (D : Type) [Domain D] (v : Nat → D) (assign : String → D),
    Fits vars m v assign → ¬Matches args m v assign

/--
What is possible in the new machine are the values that make the cells on top of the heap match `args`.
-/
structure Accepts (vars : List String) (args : List Term) (m m' : Machine) : Prop where
  size_eq : m'.state.heap.size = m.state.heap.size
  fits_iff : ∀ (D : Type) [Domain D] (v : Nat → D) (assign : String → D),
    Fits vars m' v assign ↔ Fits vars m v assign ∧ Matches args m v assign

variable {program : Program} {gather : Nat → Exec (List Goal)} {computeFeatures : Bool}
  {vars seen : List String} {m : Machine} {pc : Nat}

theorem Refused.of_eq {m₁ : Machine} {seen₁ seen' : List String} {pc₁ pc' : Nat}
    (hrun : program.runOn gather computeFeatures m = program.runOn gather computeFeatures m₁)
    (hadv : Advances vars seen₁ pc₁ m m₁) (hsize : m₁.state.heap.size = m.state.heap.size)
    (h : Refused program gather computeFeatures vars seen' pc' m₁)
    : Refused program gather computeFeatures vars seen' pc' m := by
  rcases h with ⟨args, seen, pc, m', hrun', hstopped⟩
  refine ⟨args, seen, pc, m', hrun.trans hrun', ?_⟩
  exact { hstopped with
    advances := hadv.trans hstopped.advances
    size_eq := hstopped.size_eq.trans hsize
    length_le := hsize ▸ hstopped.length_le }

theorem advances_refused (hat : m.state.RunsAt pc) (hvalid : m.state.heap.Valid m.symbols)
    (hscope : Scope vars seen m.state.registers m.state.registers.size m.state.heap.size)
    : Advances vars seen (pc + 1) m m.refused.revived := by
  have hrevived : m.refused.revived = { m with state := m.state.advance } := by
    rw [Machine.refused, Machine.revived, ← hat.failed_eq]
    rfl
  rw [hrevived]
  exact .of_heap hat hscope (Nat.le_refl _) (Interner.le_refl _) hvalid

section Instructions

variable {instr : Instruction} {f : Machine → Except Fault Machine} {addr : Nat}
  (hat : m.state.RunsAt pc) (hinstr : program.code[pc]? = some instr)
  (hexec : execute gather computeFeatures instr m = execute.stepping (Exec.update f) m)
  (hvalid : m.state.heap.Valid m.symbols)
  (hscope : Scope vars seen m.state.registers m.state.registers.size m.state.heap.size)
include hat hinstr hexec

theorem runOn_refused (hf : f m = .ok { m with state := { m.state with failed := true } })
    : program.runOn gather computeFeatures m = .ok ∅ m.refused := by
  rw [Program.runOn_update hat hinstr hexec hf]
  apply Program.runOn_pause
  simp [State.next?, State.advance]

include hvalid hscope in
theorem advances_of_update {symbols : SymbolTable} {heap : Heap} {c : Constraint}
    (hf : f m = .ok { m with symbols := symbols, state := { m.state with heap := heap } })
    (hle : m.symbols ≤ symbols) (hadds : m.state.heap.Adds symbols c heap)
    : ∃ m', program.runOn gather computeFeatures m = program.runOn gather computeFeatures m' ∧
        Advances vars seen (pc + 1) m m' ∧ m'.state.heap.size = m.state.heap.size ∧
        ∀ (D : Type) [Domain D] (v : Nat → D) (assign : String → D),
          Fits vars m' v assign ↔ Fits vars m v assign ∧ c D v := by
  refine ⟨_, Program.runOn_update hat hinstr hexec hf, ?_, hadds.size_eq, ?_⟩
  . exact .of_heap hat hscope (Nat.le_of_eq hadds.size_eq.symm) hle hadds.valid
  . intro D _ v assign
    have hmodels : heap.Models symbols v ↔ m.state.heap.Models m.symbols v ∧ c D v := by
      rw [hadds.models_iff, hvalid.closed.models_iff hle]
    rw [Fits, Fits, and_right_comm, ← hmodels]
    rfl

end Instructions

theorem matches_cons [Domain D] {m₁ : Machine} {arg : Term} {args : List Term} {v : Nat → D}
    {assign : String → D} (hsize : m₁.state.heap.size = m.state.heap.size)
    (hlen : args.length < m.state.heap.size)
    : Matches (arg :: args) m v assign ↔
      v (m.state.heap.size - (args.length + 1)) = arg.eval assign ∧ Matches args m₁ v assign := by
  have hnext : m.state.heap.size - (args.length + 1) + 1 = m.state.heap.size - args.length := by
    omega
  rw [Matches, Matches, List.length_cons, cells_succ, hnext, List.map_cons, List.cons.injEq, hsize]

def CellOutcome (program : Program) (gather : Nat → Exec (List Goal)) (computeFeatures : Bool)
    (vars seen' : List String) (pc' addr : Nat) (arg : Term) (m : Machine) : Prop :=
  (program.runOn gather computeFeatures m = .ok ∅ m.refused ∧
    Advances vars seen' pc' m m.refused.revived ∧
    ∀ (D : Type) [Domain D] (v : Nat → D) (assign : String → D),
      Fits vars m v assign → v addr ≠ arg.eval assign) ∨
  ∃ m', program.runOn gather computeFeatures m = program.runOn gather computeFeatures m' ∧
    Advances vars seen' pc' m m' ∧ m'.state.heap.size = m.state.heap.size ∧
    ∀ (D : Type) [Domain D] (v : Nat → D) (assign : String → D),
      Fits vars m' v assign ↔ Fits vars m v assign ∧ v addr = arg.eval assign

section Cell

variable {offset : Int} {addr : Nat} {name : String}
  (hat : m.state.RunsAt pc) (hvalid : m.state.heap.Valid m.symbols)
  (hscope : Scope vars seen m.state.registers m.state.registers.size m.state.heap.size)
  (haddr : m.state.heap.relative offset = .ok addr) (hlt : addr < m.state.heap.size)
include hat hvalid hscope haddr hlt

theorem runOn_unifyConst (hinstr : program.code[pc]? = some (.unifyConst name offset))
    (hrun : Unexhausted (program.runOn gather computeFeatures m))
    : CellOutcome program gather computeFeatures vars seen (pc + 1) addr (.const name) m := by
  have hexec : execute gather computeFeatures (.unifyConst name offset) m =
      execute.stepping (Exec.update (·.unifyConst name offset)) m := by
    rw [execute_eq_whole]
    rfl
  rcases Machine.unifyConst_cases name hvalid hat.failed_eq haddr hlt with
    ⟨entries, hf⟩ | ⟨hf, hne⟩ | ⟨symbols, heap, hf, hle, hadds⟩
  . exfalso
    apply hrun entries m
    apply Program.runOn_fault hat hinstr
    rw [hexec, execute.stepping_update_fault hf]
  . left
    refine ⟨runOn_refused hat hinstr hexec hf, advances_refused hat hvalid hscope, ?_⟩
    intro D _ v assign hv
    exact hne D v hv.1
  . right
    exact advances_of_update hat hinstr hexec hvalid hscope hf hle hadds

variable (gather computeFeatures) in
theorem runOn_unifyBoundVar
    (hinstr : program.code[pc]? = some (.unifyBoundVar (Code.register vars name) offset))
    (hname : name ∈ vars) (hseen : name ∈ seen)
    : CellOutcome program gather computeFeatures vars seen (pc + 1) addr (.var name) m := by
  have hexec : execute gather computeFeatures (.unifyBoundVar (Code.register vars name) offset) m =
      execute.stepping (Exec.update (·.unifyBoundVar (Code.register vars name) offset)) m := by
    rw [execute_eq_whole]
    rfl
  rcases hscope.set name hname hseen with ⟨addr', hlt', hreg⟩
  have hunify : ∀ s, m.state.unify addr addr' = .ok s →
      m.unifyBoundVar (Code.register vars name) offset = .ok { m with state := s } := by
    intro s hs
    unfold Machine.unifyBoundVar
    rw [haddr, hscope.register_eq hname hreg]
    simp only [bind, Except.bind, hs]
    rfl
  rcases State.unifies hvalid hat.failed_eq hlt hlt' with ⟨hs, hne⟩ | ⟨heap, hs, hadds⟩
  . left
    refine ⟨runOn_refused hat hinstr hexec (hunify _ hs), advances_refused hat hvalid hscope, ?_⟩
    intro D _ v assign hv
    rw [Term.eval, hv.2 name hname addr' hreg]
    exact hne D v hv.1
  . right
    rcases advances_of_update hat hinstr hexec hvalid hscope (hunify _ hs) (Interner.le_refl _)
      hadds with ⟨m', hrun, hadv, hsize, hfits⟩
    refine ⟨m', hrun, hadv, hsize, ?_⟩
    intro D _ v assign
    rw [hfits]
    apply and_congr_right
    intro hv
    rw [Term.eval, hv.2 name hname addr' hreg]

variable (gather computeFeatures) in
theorem runOn_initFreeVar
    (hinstr : program.code[pc]? = some (.initFreeVar (Code.register vars name) offset))
    (hname : name ∈ vars) (hseen : name ∉ seen)
    : CellOutcome program gather computeFeatures vars (name :: seen) (pc + 1) addr (.var name) m := by
  have hexec : execute gather computeFeatures (.initFreeVar (Code.register vars name) offset) m =
      execute.stepping (Exec.update (·.initFreeVar (Code.register vars name) offset)) m := by
    rw [execute_eq_whole]
    rfl
  rcases hscope.exists_setRegister hname addr with ⟨registers', hset, hregs⟩
  have hf : m.initFreeVar (Code.register vars name) offset =
      .ok { m with state := { m.state with registers := registers' } } := by
    unfold Machine.initFreeVar Machine.setRegister
    rw [haddr]
    simp only [bind, Except.bind, hset]
    rfl
  have hadv : Advances vars (name :: seen) (pc + 1) m
      { m with state := { m.state with registers := registers' }.advance } :=
    .of_register hat hscope (Nat.le_refl _) hname hseen hvalid hlt hregs
  right
  refine ⟨_, Program.runOn_update hat hinstr hexec hf, hadv, rfl, ?_⟩
  intro D _ v assign
  rw [Fits, Fits, and_assoc]
  apply and_congr_right
  intro _
  -- the variable had no address before, so its value was not restricted
  constructor
  . intro h
    refine ⟨hadv.agrees h, (h name hname addr ?_).symm⟩
    show registers'[slotOf vars registers'.size name]? = _
    rw [hregs.size_eq, hregs.getElem?_eq, if_pos rfl]
  . intro h
    exact h.1.setRegister hname hscope.length_le hregs h.2.symm

theorem runOn_head_cons {arg : Term} {args : List Term}
    (hcode : program.Has pc (Code.head vars offset seen (arg :: args)))
    (hvars : ∀ name, .var name ∈ arg :: args → name ∈ vars)
    (hrun : Unexhausted (program.runOn gather computeFeatures m))
    : ∃ seen', CellOutcome program gather computeFeatures vars seen' (pc + 1) addr arg m ∧
        program.Has (pc + 1) (Code.head vars (offset + 1) seen' args) ∧
        ∀ name ∈ vars, name ∈ args.filterMap Term.var? ++ seen' ↔
          name ∈ (arg :: args).filterMap Term.var? ++ seen := by
  cases arg with
  | const name =>
    exact ⟨seen, runOn_unifyConst hat hvalid hscope haddr hlt hcode.head hrun, hcode.tail,
      fun _ _ => Iff.rfl⟩
  | var name =>
    have hname : name ∈ vars := hvars name List.mem_cons_self
    by_cases hseen : name ∈ seen
    . simp only [Code.head, hseen, if_true] at hcode
      refine ⟨seen, ?_, hcode.tail, fun _ _ => mem_seen_of_seen args hseen⟩
      exact runOn_unifyBoundVar gather computeFeatures hat hvalid hscope haddr hlt hcode.head hname
        hseen
    . simp only [Code.head, hseen, if_false] at hcode
      refine ⟨name :: seen, ?_, hcode.tail, fun _ _ => mem_seen_cons args⟩
      exact runOn_initFreeVar gather computeFeatures hat hvalid hscope haddr hlt hcode.head hname
        hseen

end Cell

def HeadOutcome (program : Program) (gather : Nat → Exec (List Goal)) (computeFeatures : Bool)
    (vars seen' : List String) (pc' : Nat) (args : List Term) (m : Machine) : Prop :=
  (Refused program gather computeFeatures vars seen' pc' m ∧ Rejects vars args m) ∨
  ∃ m', program.runOn gather computeFeatures m = program.runOn gather computeFeatures m' ∧
    Advances vars seen' pc' m m' ∧ Accepts vars args m m'

theorem HeadOutcome.cons {m₁ : Machine} {seen₁ seen' : List String} {pc₁ pc' : Nat} {arg : Term}
    {args : List Term}
    (hrun : program.runOn gather computeFeatures m = program.runOn gather computeFeatures m₁)
    (hadv : Advances vars seen₁ pc₁ m m₁) (hsize : m₁.state.heap.size = m.state.heap.size)
    (hlen : args.length < m.state.heap.size)
    (hfits : ∀ (D : Type) [Domain D] (v : Nat → D) (assign : String → D),
      Fits vars m₁ v assign ↔ Fits vars m v assign ∧
        v (m.state.heap.size - (args.length + 1)) = arg.eval assign)
    (h : HeadOutcome program gather computeFeatures vars seen' pc' args m₁)
    : HeadOutcome program gather computeFeatures vars seen' pc' (arg :: args) m := by
  rcases h with ⟨hrefused, hrejects⟩ | ⟨m', hrun', hadv', haccepts⟩
  . left
    refine ⟨hrefused.of_eq hrun hadv hsize, ?_⟩
    intro D _ v assign hv hmatches
    rw [matches_cons hsize hlen] at hmatches
    exact hrejects D v assign ((hfits D v assign).mpr ⟨hv, hmatches.1⟩) hmatches.2
  . right
    refine ⟨m', hrun.trans hrun', hadv.trans hadv', haccepts.size_eq.trans hsize, ?_⟩
    intro D _ v assign
    rw [haccepts.fits_iff, hfits, matches_cons hsize hlen, and_assoc]

theorem HeadOutcome.refuse {seen' : List String} {pc' : Nat} {arg : Term} {args : List Term}
    (hlen : args.length < m.state.heap.size)
    (hrefused : Refused program gather computeFeatures vars seen' pc' m)
    (hne : ∀ (D : Type) [Domain D] (v : Nat → D) (assign : String → D), Fits vars m v assign →
      v (m.state.heap.size - (args.length + 1)) ≠ arg.eval assign)
    : HeadOutcome program gather computeFeatures vars seen' pc' (arg :: args) m := by
  left
  refine ⟨hrefused, ?_⟩
  intro D _ v assign hv hmatches
  rw [matches_cons rfl hlen] at hmatches
  exact hne D v assign hv hmatches.1

theorem HeadOutcome.congr {seen' seen'' : List String} {pc' pc'' : Nat} {args : List Term}
    (h : HeadOutcome program gather computeFeatures vars seen' pc' args m)
    (hseen : ∀ name ∈ vars, name ∈ seen' ↔ name ∈ seen'') (hpc : pc' = pc'')
    : HeadOutcome program gather computeFeatures vars seen'' pc'' args m := by
  rcases h with ⟨⟨args', seen, pc, m', hrun, hstopped⟩, hrejects⟩ | ⟨m', hrun, hadv, haccepts⟩
  . left
    refine ⟨⟨args', seen, pc, m', hrun, ?_⟩, hrejects⟩
    exact { hstopped with
      pc_eq := hstopped.pc_eq.trans hpc
      seen_iff := fun name hname => (hstopped.seen_iff name hname).trans (hseen name hname) }
  . exact .inr ⟨m', hrun, hadv.congr hseen hpc, haccepts⟩

theorem length_head (vars : List String) (offset : Int) (seen : List String) (args : List Term)
    : (Code.head vars offset seen args).length = args.length := by
  induction args generalizing offset seen with
  | nil => rfl
  | cons arg args ih =>
    cases arg with
    | const _ => simp [Code.head, ih]
    | var _ =>
      unfold Code.head
      split
      . simp [ih]
      . simp [ih]

theorem runOn_head {args : List Term} {offset : Int} (hat : m.state.RunsAt pc)
    (hcode : program.Has pc (Code.head vars offset seen args))
    (hoffset : offset = -(args.length : Int)) (hlen : args.length ≤ m.state.heap.size)
    (hvalid : m.state.heap.Valid m.symbols)
    (hscope : Scope vars seen m.state.registers m.state.registers.size m.state.heap.size)
    (hvars : ∀ name, .var name ∈ args → name ∈ vars)
    (hrun : Unexhausted (program.runOn gather computeFeatures m))
    : HeadOutcome program gather computeFeatures vars (args.filterMap Term.var? ++ seen)
        (pc + args.length) args m := by
  -- the offset says how far the current cell is from the top, which no instruction moves
  induction args generalizing m pc seen offset with
  | nil =>
    right
    exact ⟨m, rfl, .refl hat hvalid hscope, rfl, by simp [Matches, cells_zero]⟩
  | cons arg args ih =>
    rw [List.length_cons] at hlen hoffset
    have haddr : m.state.heap.relative offset = .ok (m.state.heap.size - (args.length + 1)) := by
      rw [hoffset]
      exact Machine.relative_eq (by omega) hlen
    have hlt : m.state.heap.size - (args.length + 1) < m.state.heap.size := by omega
    have hpc : pc + 1 + args.length = pc + (arg :: args).length := by
      rw [List.length_cons]
      omega
    rcases runOn_head_cons hat hvalid hscope haddr hlt hcode hvars hrun with
      ⟨seen₁, ⟨hrun₁, hadv, hne⟩ | ⟨m₁, hrun₁, hadv, hsize, hfits⟩, hcode₁, hmem⟩
    . have hstopped : Stopped program vars ((arg :: args).filterMap Term.var? ++ seen)
          (pc + (arg :: args).length) args seen₁ (pc + 1) m m.refused := by
        refine ⟨rfl, hadv, rfl, ?_, hpc, by omega, ?_, hmem⟩
        . rw [show -(args.length : Int) = offset + 1 by omega]
          exact hcode₁
        . exact fun name hname => hvars name (List.mem_cons_of_mem arg hname)
      exact .refuse (by omega) ⟨args, seen₁, pc + 1, m.refused, hrun₁, hstopped⟩ hne
    . have hrest := ih (hadv.runsAt hat) hcode₁ (by omega) (by omega) hadv.valid hadv.scope
        (fun name hname => hvars name (List.mem_cons_of_mem arg hname)) (hrun₁ ▸ hrun)
      exact (hrest.cons hrun₁ hadv hsize (by omega) hfits).congr hmem hpc

end HornMachine
