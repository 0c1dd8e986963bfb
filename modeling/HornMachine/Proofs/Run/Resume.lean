import HornMachine.Proofs.Run.Arguments
import HornMachine.Proofs.Run.Level

/-!
This module contains the run from the middle of a block to the next pause: it makes the next call of the
block, or goes back to the levels below until one of them has a call left, or completes the query.
-/

namespace HornMachine

open Level

/--
What a state stands for: the goals that are left together with the arguments of the query, in every
domain.
-/
abbrev Denotation : Type 1 := ∀ (D : Type) [Domain D], List (Atom D) → List D → Prop

def leaves (symbols : SymbolTable) (s : State) (ls : List Level) : Denotation :=
  fun D _ goals answers => ∃ val : Valuation D,
    s.heap.Models symbols val.cell ∧ goals = allGoals val s.registers ls ∧
      answers = answer val s.registers ls

structure Ready (program : Program) (symbols : SymbolTable) (s : State) (l : Level)
    (ls : List Level) : Prop where
  runsAt : s.RunsAt l.frame.pc
  valid : s.heap.Valid symbols
  stack : Stack program s.registers (l :: ls)
  calls_eq : s.calls = ls.map Level.frame
  registers_size : s.registers.size = l.frame.registerCount
  heap_size : s.heap.size = l.frame.heapSize

/--
The state waits for a call to the predicate `sig`, whose arguments are on top of the heap. The level `l`
goes on after the call.
-/
structure Waiting (program : Program) (symbols : SymbolTable) (s : State) (sig : Signature)
    (l : Level) (ls : List Level) : Prop where
  pc_eq : s.pc = none
  failed_eq : s.failed = false
  completed_eq : s.completed = false
  jumpTo_eq : s.jumpTo = some sig.label
  valid : s.heap.Valid symbols
  stack : Stack program s.registers (l :: ls)
  calls_eq : s.calls = (l :: ls).map Level.frame
  registers_size : s.registers.size = l.frame.registerCount
  heap_size : s.heap.size = l.frame.heapSize
  arity_le : sig.arity ≤ s.heap.size
  arity_le_size : sig.arity ≤ program.size

def awaited [Domain D] (s : State) (sig : Signature) (v : Nat → D) : Atom D :=
  ⟨sig.functor, cells v (s.heap.size - sig.arity) sig.arity⟩

def awaits (symbols : SymbolTable) (s : State) (sig : Signature) (ls : List Level) : Denotation :=
  fun D _ goals answers => ∃ val : Valuation D,
    s.heap.Models symbols val.cell ∧
      goals = awaited s sig val.cell :: allGoals val s.registers ls ∧
      answers = answer val s.registers ls

structure Completed (program : Program) (symbols : SymbolTable) (s : State) : Prop where
  returnp : ∃ pc, s.pc = some pc ∧ program.code[pc]? = some .returnp
  failed_eq : s.failed = false
  completed_eq : s.completed = true
  valid : s.heap.Valid symbols
  calls_eq : s.calls = []

def answers (symbols : SymbolTable) (s : State) : Denotation :=
  fun D _ goals answers => ∃ v : Nat → D,
    s.heap.Models symbols v ∧ goals = [] ∧ answers = cells v 0 s.heap.size

/--
A run came to its end with a state that stands for `d`.
-/
inductive Paused (program : Program) (symbols : SymbolTable) (s : State) (d : Denotation) : Prop
    where
  | waiting {sig : Signature} {l : Level} {ls : List Level}
      (h : Waiting program symbols s sig l ls)
      (hd : ∀ (D : Type) [Domain D] (goals : List (Atom D)) (as : List D),
        d D goals as ↔ awaits symbols s sig (l :: ls) D goals as)
  | completed (h : Completed program symbols s)
      (hd : ∀ (D : Type) [Domain D] (goals : List (Atom D)) (as : List D),
        d D goals as ↔ answers symbols s D goals as)

theorem Paused.congr {program : Program} {symbols : SymbolTable} {s : State} {d d' : Denotation}
    (h : Paused program symbols s d)
    (hd : ∀ (D : Type) [Domain D] (goals : List (Atom D)) (as : List D),
      d' D goals as ↔ d D goals as) : Paused program symbols s d' := by
  cases h with
  | waiting h hd' =>
    apply Paused.waiting h
    intro D _ goals as
    rw [hd, hd']
  | completed h hd' =>
    apply Paused.completed h
    intro D _ goals as
    rw [hd, hd']

theorem Paused.failed_eq {program : Program} {symbols : SymbolTable} {s : State} {d : Denotation}
    (h : Paused program symbols s d) : s.failed = false := by
  cases h with
  | waiting h _ => exact h.failed_eq
  | completed h _ => exact h.failed_eq

section Mono

variable {program : Program} {symbols symbols' : SymbolTable} {s : State}

theorem Waiting.mono {sig : Signature} {l : Level} {ls : List Level}
    (h : Waiting program symbols s sig l ls) (hle : symbols ≤ symbols')
    : Waiting program symbols' s sig l ls :=
  { h with valid := h.valid.mono hle }

theorem Completed.mono (h : Completed program symbols s) (hle : symbols ≤ symbols')
    : Completed program symbols' s :=
  { h with valid := h.valid.mono hle }

theorem awaits_mono {sig : Signature} {ls : List Level} (hvalid : s.heap.Valid symbols)
    (hle : symbols ≤ symbols') (D : Type) [Domain D] (goals : List (Atom D)) (as : List D)
    : awaits symbols s sig ls D goals as ↔ awaits symbols' s sig ls D goals as := by
  simp only [awaits, hvalid.closed.models_iff hle]

theorem Paused.mono {d : Denotation} (h : Paused program symbols s d) (hle : symbols ≤ symbols')
    : Paused program symbols' s d := by
  cases h with
  | waiting h hd =>
    apply Paused.waiting (h.mono hle)
    intro D _ goals as
    rw [hd, awaits_mono h.valid hle]
  | completed h hd =>
    apply Paused.completed (h.mono hle)
    intro D _ goals as
    rw [hd]
    simp only [answers, h.valid.closed.models_iff hle]

end Mono

section Leave

variable {program : Program} {symbols : SymbolTable} {s : State} {l : Level} {ls : List Level}

theorem leave_eq (hcalls : s.calls = (l :: ls).map Level.frame)
    : s.leave = { s with
        heap := s.heap.take l.frame.heapSize
        registers := s.registers.take l.frame.registerCount
        calls := ls.map Level.frame
        pc := some l.frame.pc
        jumpTo := l.frame.jumpTo } :=
  State.leave_cons hcalls

theorem getElem?_take_registers {registers : Array (Option Nat)} {i count : Nat} (h : i < count)
    : (registers.take count)[i]? = registers[i]? := by
  simp only [Array.take_eq_extract, Array.getElem?_extract, Nat.zero_add]
  split
  . rfl
  . rw [Array.getElem?_eq_none]
    omega

theorem leaves_leave (hvalid : s.heap.Valid symbols) (hstack : Stack program s.registers (l :: ls))
    (hcalls : s.calls = (l :: ls).map Level.frame) (hheap : l.frame.heapSize ≤ s.heap.size)
    (D : Type) [Domain D] (goals : List (Atom D)) (as : List D)
    : leaves symbols s.leave (l :: ls) D goals as ↔ leaves symbols s (l :: ls) D goals as := by
  have hregs : ∀ i < registerTop (l :: ls),
      (s.registers.take l.frame.registerCount)[i]? = s.registers[i]? :=
    fun i hi => getElem?_take_registers hi
  rw [leave_eq hcalls]
  constructor
  . intro h
    rcases h with ⟨val, hv, hgoals, has⟩
    -- the cells that are dropped refer to those that stay, never the other way round
    rcases hvalid.exists_models_of_take hv with ⟨v', hv', hcell⟩
    have hcell' : ∀ addr < heapTop (l :: ls), val.cell addr = v' addr := by
      intro addr haddr
      rw [heapTop] at haddr
      rw [hcell addr (by omega) haddr]
    have hassign := hstack.assign_eq { val with cell := v' } val hregs hcell' (fun _ _ => rfl)
    refine ⟨{ val with cell := v' }, hv', ?_, ?_⟩
    . rw [hgoals, hstack.allGoals_congr hassign]
    . rw [has, hstack.answer_congr hassign hcell']
  . intro h
    rcases h with ⟨val, hv, hgoals, has⟩
    have hassign := hstack.assign_eq val val hregs (fun _ _ => rfl) (fun _ _ => rfl)
    refine ⟨val, hv.take _, ?_, ?_⟩
    . rw [hgoals, hstack.allGoals_congr hassign]
    . rw [has, hstack.answer_congr hassign (fun _ _ => rfl)]

theorem ready_leave (hfailed : s.failed = false) (hcompleted : s.completed = false)
    (hvalid : s.heap.Valid symbols) (hstack : Stack program s.registers (l :: ls))
    (hcalls : s.calls = (l :: ls).map Level.frame) (hheap : l.frame.heapSize ≤ s.heap.size)
    : Ready program symbols s.leave l ls := by
  have htop : l.frame.registerCount ≤ s.registers.size := (hstack.ok List.mem_cons_self).scope.top_le
  rw [leave_eq hcalls]
  constructor
  . exact ⟨rfl, hfailed, hcompleted⟩
  . exact hvalid.take _
  . apply hstack.of_registers
    . simp only [registerTop, Array.take_eq_extract, Array.size_extract]
      omega
    . exact fun i hi => getElem?_take_registers hi
  . rfl
  . simp only [Array.take_eq_extract, Array.size_extract]
    omega
  . simp only [Array.take_eq_extract, Array.size_extract]
    omega

end Leave

section Run

variable {program : Program} {gather : Nat → Exec (List Goal)} {computeFeatures : Bool}
  {m : Machine} {l : Level} {ls : List Level}

theorem Ready.runOn_return (h : Ready program m.symbols m.state l ls) (htodo : l.todo = [])
    : program.runOn gather computeFeatures m =
      program.runOn gather computeFeatures { m with state := m.state.leave } := by
  have hcode := (h.stack.ok List.mem_cons_self).code
  rw [htodo] at hcode
  exact Program.runOn_step h.runsAt hcode.head rfl

theorem Ready.leaves_tail {l' : Level} (htodo : l.todo = [])
    (D : Type) [Domain D] (goals : List (Atom D)) (as : List D)
    : leaves m.symbols m.state (l :: l' :: ls) D goals as ↔
      leaves m.symbols m.state (l' :: ls) D goals as := by
  simp [leaves, allGoals, Level.goals, htodo, answer]

theorem Ready.completes (h : Ready program m.symbols m.state l []) (htodo : l.todo = [])
    : program.runOn gather computeFeatures m =
        .ok ∅ { m with state := { m.state with completed := true } } ∧
      Paused program m.symbols { m.state with completed := true }
        (leaves m.symbols m.state [l]) := by
  have hcalls : m.state.calls = [] := h.calls_eq
  have hleave : m.state.leave = { m.state with completed := true } := State.leave_nil hcalls
  have hcode := (h.stack.ok List.mem_cons_self).code
  rw [htodo] at hcode
  constructor
  . rw [h.runOn_return htodo, hleave]
    apply Program.runOn_pause
    simp [State.next?]
  . apply Paused.completed
    . exact ⟨⟨_, h.runsAt.pc_eq, hcode.head⟩, h.runsAt.failed_eq, rfl, h.valid, hcalls⟩
    . intro D _ goals as
      constructor
      . intro h'
        rcases h' with ⟨val, hv, hgoals, has⟩
        refine ⟨val.cell, hv, ?_, ?_⟩
        . simp [hgoals, allGoals, Level.goals, htodo]
        . simp [has, answer, Level.goals, htodo, h.heap_size]
      . intro h'
        rcases h' with ⟨v, hv, hgoals, has⟩
        refine ⟨⟨v, v⟩, hv, ?_, ?_⟩
        . simp [hgoals, allGoals, Level.goals, htodo]
        . simp [has, answer, Level.goals, htodo, h.heap_size]

def calledLevel (l : Level) (lit : Literal) (todo : List Literal) (s : State) (pc : Nat) : Level where
  frame := ⟨s.heap.size, s.registers.size, pc + 1, s.jumpTo⟩
  vars := l.vars
  seen := lit.vars ++ l.seen
  todo := todo

section Call

variable {lit : Literal} {todo : List Literal} {m₁ : Machine} {pc : Nat}
  (h : Ready program m.symbols m.state l ls) (htodo : l.todo = lit :: todo)
  (hadv : Advances l.vars (lit.vars ++ l.seen) pc m m₁) (hpushes : Pushes l.vars lit.args m m₁)
include h htodo

include hadv in
theorem Ready.stack_called
    (hcode : program.Has (pc + 1) (Code.calls l.vars (lit.vars ++ l.seen) todo ++ [.returnp]))
    (hsize : m.state.heap.size ≤ m₁.state.heap.size)
    : Stack program m₁.state.registers (calledLevel l lit todo m₁.state pc :: ls) := by
  rcases h.stack with _ | ⟨hlevel, hcount, hheap, hrest⟩
  have htop := h.registers_size
  have hbottom := h.heap_size
  apply Stack.cons
  . constructor
    . exact hcode
    . intro lit' hlit'
      apply hlevel.mem_vars
      rw [htodo]
      exact List.mem_cons_of_mem lit hlit'
    . exact hadv.scope
  . show m₁.state.registers.size = registerTop ls + l.vars.length
    rw [hadv.registers_size, htop, hcount]
  . show heapTop ls ≤ m₁.state.heap.size
    omega
  . apply hrest.of_registers
    . rw [hadv.registers_size]
      omega
    . intro i hi
      exact hadv.below i (by omega)

omit h in
theorem goals_of_todo [Domain D] (val : Valuation D) (registers : Array (Option Nat))
    : l.goals val registers =
      lit.inst (l.assign val registers) :: todo.map (Literal.inst (l.assign val registers)) := by
  rw [Level.goals, htodo, List.map_cons]

section Called

variable [Domain D] {val val' : Valuation D}
  (hassign : ∀ name ∈ l.vars,
    val'.assign m₁.state.registers l.vars m₁.state.registers.size name =
      l.assign val m.state.registers name)
include hassign

theorem Ready.inst_called {lit' : Literal} (hlit' : lit' ∈ lit :: todo)
    : lit'.inst (val'.assign m₁.state.registers l.vars m₁.state.registers.size) =
      lit'.inst (l.assign val m.state.registers) := by
  rcases h.stack with _ | ⟨hlevel, _, _, _⟩
  apply Literal.inst_congr
  intro name hname
  apply hassign
  apply hlevel.mem_vars lit' _ name hname
  rw [htodo]
  exact hlit'

theorem Ready.goals_called
    : (calledLevel l lit todo m₁.state pc).goals val' m₁.state.registers =
      todo.map (Literal.inst (l.assign val m.state.registers)) := by
  apply List.map_congr_left
  intro lit' hlit'
  exact h.inst_called htodo hassign (List.mem_cons_of_mem lit hlit')

variable (hv' : m₁.state.heap.Models m₁.symbols val'.cell)
include hpushes hv'

theorem Ready.awaited_called
    : awaited m₁.state lit.signature val'.cell = lit.inst (l.assign val m.state.registers) := by
  have hargs := hpushes.cells_eq D val'.cell _ hv' Agrees.of_read
  rw [← h.inst_called htodo hassign List.mem_cons_self, Literal.inst, awaited, hpushes.size_eq]
  simp only [Literal.signature, Nat.add_sub_cancel, hargs]

theorem Ready.called_eq
    (hcell : ∀ addr < m.state.heap.size, val'.cell addr = val.cell addr)
    (hassigns : ∀ l' ∈ ls, ∀ name ∈ l'.vars,
      l'.assign val' m₁.state.registers name = l'.assign val m.state.registers name)
    : awaited m₁.state lit.signature val'.cell ::
          allGoals val' m₁.state.registers (calledLevel l lit todo m₁.state pc :: ls) =
        allGoals val m.state.registers (l :: ls) ∧
      answer val' m₁.state.registers (calledLevel l lit todo m₁.state pc :: ls) =
        answer val m.state.registers (l :: ls) := by
  rcases h.stack with _ | ⟨_, _, hheap, hrest⟩
  have hsize := h.heap_size
  have hlit := h.awaited_called htodo hpushes hassign hv'
  have hgoals : (calledLevel l lit todo m₁.state pc).goals val' m₁.state.registers =
      todo.map (Literal.inst (l.assign val m.state.registers)) := h.goals_called htodo hassign
  have hlevelGoals := goals_of_todo htodo val m.state.registers
  constructor
  . rw [allGoals, allGoals, List.flatMap_cons, List.flatMap_cons, hlit, hgoals, hlevelGoals]
    simp only [List.cons_append]
    congr 2
    exact hrest.allGoals_congr hassigns
  . cases hrest with
    | nil =>
      rw [answer, answer, hgoals, hlevelGoals, List.flatMap_cons, ← hlit]
      show cells val'.cell 0 m₁.state.heap.size ++ _ = _
      rw [hpushes.size_eq, cells_append, List.append_assoc, ← hsize]
      congr 1
      . apply cells_congr
        intro addr haddr
        exact hcell addr (by omega)
      . congr 1
        simp [awaited, hpushes.size_eq, Literal.signature]
    | cons hlevel' hcount' hheap' hrest' =>
      rw [answer, answer]
      apply (hrest'.cons hlevel' hcount' hheap').answer_congr hassigns
      intro addr haddr
      exact hcell addr (by omega)

end Called

include hadv hpushes in
theorem Ready.leaves_called (D : Type) [Domain D] (goals : List (Atom D)) (as : List D)
    : leaves m.symbols m.state (l :: ls) D goals as ↔
      awaits m₁.symbols m₁.state lit.signature (calledLevel l lit todo m₁.state pc :: ls) D goals as := by
  rcases h.stack with _ | ⟨hlevel, hcount, hheap, hrest⟩
  have htop := h.registers_size
  have hbottom := h.heap_size
  constructor
  . intro h'
    rcases h' with ⟨val, hv, hgoals, has⟩
    rcases hpushes.exists_models D val hv with ⟨val', hv', hslot, hcell, hassign⟩
    rw [htop] at hassign
    have hassigns := hrest.assign_eq val val' (fun i hi => hadv.below i (by omega))
      (fun addr haddr => hcell addr (by omega)) (fun i _ => congrFun hslot i)
    rcases h.called_eq htodo hpushes hassign hv' hcell hassigns with ⟨hgoals', has'⟩
    exact ⟨val', hv', by rw [hgoals, hgoals'], by rw [has, has']⟩
  . intro h'
    rcases h' with ⟨val', hv', hgoals, has⟩
    -- registers that got an address in between had the value that they have now
    have hread : ∀ i, Valuation.read ⟨val'.cell, val'.read m₁.state.registers⟩ m.state.registers i =
        val'.read m₁.state.registers i := by
      intro i
      match hi : m.state.registers[i]?.join with
      | none => simp [Valuation.read, hi]
      | some addr =>
        rw [Option.join_eq_some_iff] at hi
        rw [Valuation.read_set hi, Valuation.read_set (hadv.keeps i addr hi)]
    have hv := hpushes.below.models hadv.symbols_le hv'
    have hassign : ∀ name ∈ l.vars,
        val'.assign m₁.state.registers l.vars m₁.state.registers.size name =
          l.assign ⟨val'.cell, val'.read m₁.state.registers⟩ m.state.registers name := by
      intro name _
      rw [Level.assign, Valuation.assign, Valuation.assign, hread, hadv.registers_size, htop]
    have hassigns : ∀ l' ∈ ls, ∀ name ∈ l'.vars,
        l'.assign val' m₁.state.registers name =
          l'.assign ⟨val'.cell, val'.read m₁.state.registers⟩ m.state.registers name := by
      intro l' _ name _
      rw [Level.assign, Level.assign, Valuation.assign, Valuation.assign, hread]
    have hcell : ∀ addr < m.state.heap.size,
        val'.cell addr = Valuation.cell ⟨val'.cell, val'.read m₁.state.registers⟩ addr :=
      fun _ _ => rfl
    rcases h.called_eq htodo hpushes hassign hv' hcell hassigns with ⟨hgoals', has'⟩
    exact ⟨⟨val'.cell, val'.read m₁.state.registers⟩, hv, by rw [hgoals, hgoals'], by rw [has, has']⟩

end Call

theorem runOn_calls_cons {vars seen : List String} {pc : Nat} {lit : Literal} {lits : List Literal}
    (hat : m.state.RunsAt pc)
    (hcode : program.Has pc (Code.calls vars seen (lit :: lits) ++ [.returnp]))
    (hvars : ∀ name ∈ lit.vars, name ∈ vars) (hvalid : m.state.heap.Valid m.symbols)
    (hscope : Scope vars seen m.state.registers m.state.registers.size m.state.heap.size)
    (hrun : Unexhausted (program.runOn gather computeFeatures m))
    : ∃ m₁, program.runOn gather computeFeatures m =
          .ok ∅ { m₁ with state := m₁.state.enter lit.signature.label } ∧
        Advances vars (lit.vars ++ seen) (pc + lit.args.length) m m₁ ∧ Pushes vars lit.args m m₁ ∧
        Places vars lit.args m m₁ ∧
        program.Has (pc + lit.args.length + 1)
          (Code.calls vars (lit.vars ++ seen) lits ++ [.returnp]) := by
  rw [Code.calls, List.append_assoc] at hcode
  rcases runOn_arguments hat hcode.left hvalid hscope
      (fun name hname => hvars name (Literal.mem_vars.mpr hname)) hrun
    with ⟨m₁, hrun₁, hadv, hpushes, hplaces⟩
  have hcode' := hcode.right
  rw [length_arguments] at hcode'
  refine ⟨m₁, hrun₁.trans ?_, hadv, hpushes, hplaces, hcode'.tail⟩
  rw [Program.runOn_step (hadv.runsAt hat) hcode'.head rfl]
  apply Program.runOn_pause
  simp [State.next?, State.enter]

theorem Ready.runOn_literal {lit : Literal} {todo : List Literal}
    (h : Ready program m.symbols m.state l ls) (htodo : l.todo = lit :: todo)
    (hrun : Unexhausted (program.runOn gather computeFeatures m))
    : ∃ m₁ pc, program.runOn gather computeFeatures m =
          .ok ∅ { m₁ with state := m₁.state.enter lit.signature.label } ∧
        Advances l.vars (lit.vars ++ l.seen) pc m m₁ ∧ Pushes l.vars lit.args m m₁ ∧
        Places l.vars lit.args m m₁ ∧
        Waiting program m₁.symbols (m₁.state.enter lit.signature.label) lit.signature
          (calledLevel l lit todo m₁.state pc) ls := by
  have hlevel := h.stack.ok List.mem_cons_self
  have hcode := hlevel.code
  rw [htodo] at hcode
  have hscope := hlevel.scope
  rw [← h.registers_size, ← h.heap_size] at hscope
  rcases runOn_calls_cons h.runsAt hcode (hlevel.mem_vars lit (by simp [htodo])) h.valid hscope hrun
    with ⟨m₁, hrun₁, hadv, hpushes, hplaces, hcode'⟩
  have harity : lit.args.length ≤ program.size := by
    rw [Code.calls, List.append_assoc] at hcode
    rw [← length_arguments l.vars l.seen lit.args]
    exact hcode.left.length_le
  have hat := hadv.runsAt h.runsAt
  have hsize := hpushes.size_eq
  have hcalls : m₁.state.calls = ls.map Level.frame := by
    rw [hadv.state_eq]
    exact h.calls_eq
  refine ⟨m₁, _, hrun₁, hadv, hpushes, hplaces, ?_⟩
  constructor
  . rfl
  . exact hat.failed_eq
  . exact hat.completed_eq
  . rfl
  . exact hadv.valid
  . exact h.stack_called htodo hadv hcode' (by omega)
  . simp [State.enter, State.pushCall, State.advance, hat.pc_eq, hcalls, calledLevel]
  . rfl
  . rfl
  . show lit.args.length ≤ m₁.state.heap.size
    omega
  . exact harity

theorem Ready.runOn_call {lit : Literal} {todo : List Literal}
    (h : Ready program m.symbols m.state l ls) (htodo : l.todo = lit :: todo)
    (hrun : Unexhausted (program.runOn gather computeFeatures m))
    : ∃ m', program.runOn gather computeFeatures m = .ok ∅ m' ∧ m.symbols ≤ m'.symbols ∧
        m'.features = m.features ∧
        Paused program m'.symbols m'.state (leaves m.symbols m.state (l :: ls)) := by
  rcases h.runOn_literal htodo hrun with ⟨m₁, pc, heq, hadv, hpushes, _, hwaiting⟩
  refine ⟨_, heq, hadv.symbols_le, hadv.features_eq, .waiting hwaiting ?_⟩
  exact h.leaves_called htodo hadv hpushes

end Run

theorem Ready.resume {program : Program} {gather : Nat → Exec (List Goal)} {computeFeatures : Bool}
    {m : Machine} {l : Level} {ls : List Level} (h : Ready program m.symbols m.state l ls)
    (hrun : Unexhausted (program.runOn gather computeFeatures m))
    : ∃ m', program.runOn gather computeFeatures m = .ok ∅ m' ∧ m.symbols ≤ m'.symbols ∧
        m'.features = m.features ∧
        Paused program m'.symbols m'.state (leaves m.symbols m.state (l :: ls)) := by
  -- a level without calls left is dropped, so the induction is on the levels below it
  induction ls generalizing m l with
  | nil =>
    match htodo : l.todo with
    | [] =>
      rcases h.completes htodo with ⟨hrun', hpaused⟩
      exact ⟨_, hrun', Interner.le_refl _, rfl, hpaused⟩
    | lit :: todo => exact h.runOn_call htodo hrun
  | cons l' ls ih =>
    match htodo : l.todo with
    | [] =>
      rcases h.stack with _ | ⟨_, _, hheap, hrest⟩
      have hle : l'.frame.heapSize ≤ m.state.heap.size := by
        rw [h.heap_size]
        exact hheap
      have hrun' : program.runOn gather computeFeatures m =
          program.runOn gather computeFeatures { m with state := m.state.leave } := h.runOn_return htodo
      rw [hrun'] at hrun
      have hready := ready_leave h.runsAt.failed_eq h.runsAt.completed_eq h.valid hrest h.calls_eq hle
      rcases ih (m := { m with state := m.state.leave }) hready hrun with
        ⟨m', hrun'', hsymbols, hfeatures, hpaused⟩
      refine ⟨m', hrun'.trans hrun'', hsymbols, hfeatures, hpaused.congr ?_⟩
      intro D _ goals as
      rw [Ready.leaves_tail htodo, leaves_leave h.valid hrest h.calls_eq hle]
    | lit :: todo => exact h.runOn_call htodo hrun

end HornMachine
