import HornMachine.Proofs.Heap.Narrow
import HornMachine.Proofs.Run.Step

/-!
This module contains what an instruction can make of a state. Whatever the code looks like, an instruction
makes a call, returns from one, makes room for registers, or makes some changes that are harmless each. An
instruction that comes to a fault has made such changes only.
-/

namespace HornMachine

def Instruction.target? : Instruction → Option Int
  | .pushFreeVar reg => some reg
  | .initFreeVar reg _ => some reg
  | _ => none

def Instruction.isPlain : Instruction → Bool
  | .callp _ | .returnp | .grow _ => false
  | _ => true

theorem Instruction.isPlain_of_isFeature {instr : Instruction} (h : instr.isFeature = true)
    : instr.isPlain = true := by
  cases instr with
  | grow _ => contradiction
  | callp _ => contradiction
  | returnp => contradiction
  | _ => rfl

def Instruction.keepsRegisters : Instruction → Bool
  | .grow count => 0 ≤ count
  | _ => true

theorem Instruction.keepsRegisters_of_isPlain {instr : Instruction} (h : instr.isPlain = true)
    : instr.keepsRegisters = true := by
  cases instr with
  | grow _ => contradiction
  | _ => rfl

theorem Instruction.keepsRegisters_allocate (count : Nat)
    : (allocate count).keepsRegisters = true ↔ count % 18446744073709551616 < 9223372036854775808 := by
  simp only [allocate, keepsRegisters, wrapped, decide_eq_true_eq]
  split <;> omega

def Program.KeepsRegisters (program : Program) : Prop :=
  ∀ instr ∈ program.code, instr.keepsRegisters = true

namespace State

/--
A single change that an instruction makes on the stacks. None of them makes a stack smaller.
-/
inductive Change (symbols : SymbolTable) (instr : Instruction) (s : State) : State → Prop where
  | push {cell : Cell}
      (href : ∀ target, cell = .ref target → target = s.heap.size ∨ s.heap.Leads target target)
      (hconst : ∀ id, cell = .const id → ∃ name, symbols.get? id = some name)
      : Change symbols instr s (s.push cell)
  | narrow {heap : Heap} (failed : Bool) (h : s.heap.Narrows symbols heap)
      : Change symbols instr s { s with heap := heap, failed := failed }
  | assign {reg : Int} {i addr : Nat} (hreg : instr.target? = some reg)
      (hi : fromTop? s.registers.size reg = some i) (haddr : addr < s.heap.size)
      : Change symbols instr s { s with registers := s.registers.setIfInBounds i (some addr) }

abbrev Changes (symbols : SymbolTable) (instr : Instruction) : State → State → Prop :=
  Relation.ReflTransGen (Change symbols instr)

inductive Moves (symbols : SymbolTable) (s : State) : Instruction → State → Prop where
  | enter (label : String) : Moves symbols s (.callp label) (s.enter label)
  | leave : Moves symbols s .returnp s.leave
  | grow (count : Int) : Moves symbols s (.grow count) (s.grow count).advance
  | advance {instr : Instruction} {s' : State} (hplain : instr.isPlain = true)
      (h : s.Changes symbols instr s') : Moves symbols s instr s'.advance

variable {symbols : SymbolTable} {instr : Instruction} {s s' : State}

theorem Change.position_eq (h : s.Change symbols instr s') : s'.position = s.position := by
  cases h <;> rfl

theorem Changes.position_eq (h : s.Changes symbols instr s') : s'.position = s.position := by
  induction h with
  | refl => rfl
  | tail _ hchange ih => rw [hchange.position_eq, ih]

theorem Changes.calls_eq (h : s.Changes symbols instr s') : s'.calls = s.calls :=
  congrArg Prod.fst h.position_eq

theorem Changes.pc_eq (h : s.Changes symbols instr s') : s'.pc = s.pc :=
  congrArg Prod.snd h.position_eq

theorem Change.jumpTo_eq (h : s.Change symbols instr s') : s'.jumpTo = s.jumpTo := by
  cases h <;> rfl

theorem Changes.jumpTo_eq (h : s.Changes symbols instr s') : s'.jumpTo = s.jumpTo := by
  induction h with
  | refl => rfl
  | tail _ hchange ih => rw [hchange.jumpTo_eq, ih]

theorem setRegister_eq_ok {reg : Int} {addr : Nat} (h : s.setRegister reg addr = .ok s')
    : ∃ i, fromTop? s.registers.size reg = some i ∧
        s' = { s with registers := s.registers.setIfInBounds i (some addr) } := by
  unfold setRegister at h
  split at h
  . contradiction
  . next i hi =>
    cases h
    refine ⟨i, hi, ?_⟩
    rw [Array.setIfInBounds_def, dif_pos (fromTop?_lt hi)]

end State

namespace Machine

variable {m m' : Machine} {instr : Instruction}

structure Updates (instr : Instruction) (m m' : Machine) : Prop where
  le : m.symbols ≤ m'.symbols
  changes : m.state.Changes m'.symbols instr m'.state

theorem Updates.of_state (hsymbols : m'.symbols = m.symbols) (hstate : m'.state = m.state)
    : Updates instr m m' where
  le := by
    rw [hsymbols]
    exact Interner.le_refl _
  changes := by
    rw [hstate]

theorem updates_pushConst {name : String} (h : m.pushConst name = .ok m')
    : Updates instr m m' := by
  simp only [pushConst, Except.bind_eq_ok] at h
  rcases h with ⟨⟨id, symbols⟩, hid, ⟨⟩⟩
  refine ⟨Interner.intern_le hid, .single (.push (by simp) ?_)⟩
  rintro _ ⟨⟩
  exact ⟨name, Interner.get?_intern hid⟩

theorem updates_setRegister {reg : Int} {addr : Nat} (h : m.setRegister reg addr = .ok m')
    (hreg : instr.target? = some reg) (haddr : addr < m.state.heap.size) : Updates instr m m' := by
  simp only [setRegister, Except.bind_eq_ok] at h
  rcases h with ⟨s, hs, ⟨⟩⟩
  rcases State.setRegister_eq_ok hs with ⟨i, hi, rfl⟩
  exact ⟨Interner.le_refl _, .single (.assign hreg hi haddr)⟩

theorem updates_pushBoundVar {reg : Int} (h : m.pushBoundVar reg = .ok m') : Updates instr m m' := by
  simp only [pushBoundVar, Except.bind_eq_ok] at h
  rcases h with ⟨addr, _, root, hroot, ⟨⟩⟩
  refine ⟨Interner.le_refl _, .single (.push ?_ (by simp))⟩
  rintro _ ⟨⟩
  exact .inr (Heap.Leads.of_root hroot).root_self

theorem updates_unifyConst {name : String} {offset : Int} (h : m.unifyConst name offset = .ok m')
    : Updates instr m m' := by
  rcases narrows_of_unifyConst h with ⟨hle, _, heap, failed, hheap, hstate⟩
  refine ⟨hle, ?_⟩
  rw [hstate]
  exact .single (.narrow failed hheap)

theorem updates_initFreeVar {reg offset : Int} (h : m.initFreeVar reg offset = .ok m')
    : Updates (.initFreeVar reg offset) m m' := by
  simp only [initFreeVar, Except.bind_eq_ok] at h
  rcases h with ⟨addr, haddr, h⟩
  exact updates_setRegister h rfl (Heap.lt_size_of_relative haddr)

theorem updates_unifyBoundVar {reg offset : Int} (h : m.unifyBoundVar reg offset = .ok m')
    : Updates instr m m' := by
  simp only [unifyBoundVar, Except.bind_eq_ok] at h
  rcases h with ⟨i, _, j, _, s, hs, ⟨⟩⟩
  rcases State.narrows_of_unify m.symbols hs with ⟨heap, failed, hheap, rfl⟩
  exact ⟨Interner.le_refl _, .single (.narrow failed hheap)⟩

theorem updates_appendArgument {arg : Argument} {operation : String}
    (h : m.appendArgument arg operation = .ok m') : Updates instr m m' := by
  unfold appendArgument at h
  split at h
  . contradiction
  . cases h
    exact .of_state rfl rfl

theorem updates_appendRegister {reg : Int} (h : m.appendRegister reg = .ok m')
    : Updates instr m m' := by
  simp only [appendRegister, Except.bind_eq_ok] at h
  rcases h with ⟨_, _, _, _, _, _, h⟩
  split at h
  . contradiction
  . split at h
    . contradiction
    . exact updates_appendArgument h

end Machine

def Steps (instr : Instruction) (m : Machine) : EStateM.Result Fault Machine Features → Prop
  | .ok _ m' => m.symbols ≤ m'.symbols ∧ m.state.Moves m'.symbols instr m'.state
  | .error _ m' => m.symbols ≤ m'.symbols ∧ m.state.Changes m'.symbols instr m'.state

section Execute

variable {gather : Nat → Exec (List Goal)} {computeFeatures : Bool} {instr : Instruction} {m : Machine}

theorem steps_update {f : Machine → Except Fault Machine} (hplain : instr.isPlain = true)
    (h : ∀ {m'}, f m = .ok m' → Machine.Updates instr m m')
    : Steps instr m (execute.stepping (Exec.update f) m) := by
  cases hf : f m with
  | error fault =>
    rw [execute.stepping_update_fault hf]
    exact ⟨Interner.le_refl _, .refl⟩
  | ok m' =>
    rw [execute.stepping_update hf]
    exact ⟨(h hf).le, .advance hplain (h hf).changes⟩

theorem steps_modify {f : Machine → Machine} (hplain : instr.isPlain = true)
    (h : Machine.Updates instr m (f m)) : Steps instr m (execute.stepping (modify f) m) :=
  ⟨h.le, .advance hplain h.changes⟩

theorem steps_pushFreeVar {reg : Int}
    : Steps (.pushFreeVar reg) m (execute gather computeFeatures (.pushFreeVar reg) m) := by
  have hpush : ∀ symbols : SymbolTable,
      m.state.Change symbols (.pushFreeVar reg) m.state.pushFree := by
    intro symbols
    apply State.Change.push _ (by simp)
    rintro _ ⟨⟩
    exact .inl rfl
  let pushed : Machine := { m with state := m.state.pushFree }
  have heq : execute gather computeFeatures (.pushFreeVar reg) m =
      execute.stepping (Exec.update (·.setRegister reg m.state.heap.size)) pushed := rfl
  rw [heq]
  cases hreg : pushed.setRegister reg m.state.heap.size with
  | error fault =>
    rw [execute.stepping_update_fault hreg]
    exact ⟨Interner.le_refl _, .single (hpush _)⟩
  | ok m' =>
    have haddr : m.state.heap.size < pushed.state.heap.size := by
      simp [pushed, State.pushFree, State.push]
    have htarget : (Instruction.pushFreeVar reg).target? = some reg := rfl
    have hupdates := Machine.updates_setRegister hreg htarget haddr
    rw [execute.stepping_update hreg]
    exact ⟨hupdates.le, .advance rfl (.head (hpush _) hupdates.changes)⟩

theorem steps_feature (hfeature : instr.isFeature = true)
    (h : Steps instr m (execute gather true instr m))
    : Steps instr m (execute gather computeFeatures instr m) := by
  cases computeFeatures with
  | true => exact h
  | false =>
    have heq : execute gather false instr m = .ok ∅ { m with state := m.state.advance } := by
      rw [execute_eq_whole]
      unfold execute.whole
      rw [hfeature]
      rfl
    rw [heq]
    exact ⟨Interner.le_refl _, .advance (Instruction.isPlain_of_isFeature hfeature) .refl⟩

theorem steps_execute (hfindall : ∀ addr, instr ≠ .ffindall addr)
    : Steps instr m (execute gather computeFeatures instr m) := by
  have hkept : ∀ features : List Feature, Machine.Updates instr m { m with features := features } :=
    fun _ => .of_state rfl rfl
  cases instr with
  | grow count => exact ⟨Interner.le_refl _, .grow count⟩
  | callp label => exact ⟨Interner.le_refl _, .enter label⟩
  | returnp => exact ⟨Interner.le_refl _, .leave⟩
  | pushConst name =>
    rw [execute_eq_whole]
    exact steps_update rfl Machine.updates_pushConst
  | pushFreeVar reg => exact steps_pushFreeVar
  | pushBoundVar reg =>
    rw [execute_eq_whole]
    exact steps_update rfl Machine.updates_pushBoundVar
  | unifyConst name offset =>
    rw [execute_eq_whole]
    exact steps_update rfl Machine.updates_unifyConst
  | initFreeVar reg offset =>
    rw [execute_eq_whole]
    exact steps_update rfl Machine.updates_initFreeVar
  | unifyBoundVar reg offset =>
    rw [execute_eq_whole]
    exact steps_update rfl Machine.updates_unifyBoundVar
  | fclear => exact steps_feature rfl (steps_modify rfl (hkept _))
  | fpushStart functor arity => exact steps_feature rfl (steps_modify rfl (hkept _))
  | fpushConst name => exact steps_feature rfl (steps_update rfl Machine.updates_appendArgument)
  | fpushBoundVar reg =>
    apply steps_feature rfl
    rw [execute_eq_whole]
    exact steps_update rfl Machine.updates_appendRegister
  | freport => exact steps_feature rfl ⟨Interner.le_refl _, .advance rfl .refl⟩
  | ffindall addr => exact absurd rfl (hfindall addr)

variable {n : Machine} {report : Features}

theorem execute_ffindall_state {addr : Nat}
    (h : execute gather computeFeatures (.ffindall addr) m = .ok report n)
    : n.state = m.state.advance := by
  rw [execute_eq_whole] at h
  unfold execute.whole at h
  split at h
  . cases h
    rfl
  . simp only [Exec.bind_eq_ok] at h
    rcases h with ⟨_, _, ⟨⟩, _, _, _, h⟩
    simp only [execute.stepping, Exec.bind_eq_ok] at h
    rcases h with ⟨_, _, ⟨⟩, _, _, ⟨⟩, ⟨⟩⟩
    rfl

theorem moves_of_execute (h : execute gather computeFeatures instr m = .ok report n)
    : m.state.Moves n.symbols instr n.state := by
  by_cases hfindall : ∃ addr, instr = .ffindall addr
  . rcases hfindall with ⟨addr, rfl⟩
    rw [execute_ffindall_state h]
    exact .advance rfl .refl
  . have hsteps : Steps instr m (execute gather computeFeatures instr m) :=
      steps_execute fun addr heq => hfindall ⟨addr, heq⟩
    rw [h] at hsteps
    exact hsteps.2

end Execute

def Exec.left : EStateM.Result Fault Machine α → Machine
  | .ok _ m => m
  | .error _ m => m

theorem Steps.left {instr : Instruction} {m : Machine} {r : EStateM.Result Fault Machine Features}
    (h : Steps instr m r)
    : m.symbols ≤ (Exec.left r).symbols ∧
      (m.state.Moves (Exec.left r).symbols instr (Exec.left r).state ∨
        m.state.Changes (Exec.left r).symbols instr (Exec.left r).state) := by
  cases r with
  | ok _ m' => exact ⟨h.1, .inl h.2⟩
  | error _ m' => exact ⟨h.1, .inr h.2⟩

theorem Program.steps_of_getElem? {program : Program} {gather : Nat → Exec (List Goal)}
    {computeFeatures : Bool} {m : Machine} {pc : Nat} {instr : Instruction}
    (hfindall : ∀ (pc addr : Nat), program.code[pc]? ≠ some (.ffindall addr))
    (hinstr : program.code[pc]? = some instr)
    : Steps instr m (execute gather computeFeatures instr m) :=
  steps_execute fun addr heq => hfindall pc addr (heq ▸ hinstr)

theorem Program.runOn_left {program : Program} {gather : Nat → Exec (List Goal)}
    {computeFeatures : Bool} {P : Machine → Prop} {m : Machine}
    (hstep : ∀ {m : Machine} {pc : Nat} {instr : Instruction}, m.state.RunsAt pc →
      program.code[pc]? = some instr → P m →
        P (Exec.left (execute gather computeFeatures instr m)))
    (h : P m) : P (Exec.left (program.runOn gather computeFeatures m)) := by
  induction m using Program.runOn.induct program gather computeFeatures with
  | case1 m hnext =>
    rw [runOn_eq, hnext]
    exact h
  | case2 m pc hnext fault hinstr =>
    rw [runOn_eq, hnext]
    simp only [hinstr]
    exact h
  | case3 m pc hnext instr hinstr fault m' hexec =>
    have h' := hstep (State.runsAt_of_next? hnext) (instruction_eq_ok hinstr) h
    rw [hexec] at h'
    rw [runOn_eq, hnext]
    simp only [hinstr, hexec]
    exact h'
  | case4 m pc hnext instr hinstr report m' hexec hempty ih =>
    have h' := hstep (State.runsAt_of_next? hnext) (instruction_eq_ok hinstr) h
    rw [hexec] at h'
    rw [runOn_eq, hnext]
    simp only [hinstr, hexec, hempty, if_true]
    exact ih h'
  | case5 m pc hnext instr hinstr report m' hexec hempty =>
    have h' := hstep (State.runsAt_of_next? hnext) (instruction_eq_ok hinstr) h
    rw [hexec] at h'
    rw [runOn_eq, hnext]
    simp only [hinstr, hexec, hempty]
    exact h'

end HornMachine
