import HornMachine.Proofs.Run.Features
import HornMachine.Proofs.Run.Head
import HornMachine.Proofs.Run.Resume

/-!
This module contains the run of a clause on a state that waits for a call to its predicate. The clause
fails if no instance of its head is the call, and otherwise replaces the call by its body.
-/

namespace HornMachine

open Level

/--
The call is an instance of the head of the clause, and the same instance of its body takes its place.
-/
def resolvent (clause : Clause) (d : Denotation) : Denotation :=
  fun D _ goals as => ∃ (θ : String → D) (rest : List (Atom D)),
    goals = clause.body.map (Literal.inst θ) ++ rest ∧ d D (clause.head.inst θ :: rest) as

def Mismatch (clause : Clause) (d : Denotation) : Prop :=
  ∀ (D : Type) [Domain D] (θ : String → D) (rest : List (Atom D)) (as : List D),
    ¬d D (clause.head.inst θ :: rest) as

theorem resolvent_congr {clause : Clause} {d d' : Denotation}
    (hd : ∀ (D : Type) [Domain D] (goals : List (Atom D)) (as : List D),
      d' D goals as ↔ d D goals as)
    (D : Type) [Domain D] (goals : List (Atom D)) (as : List D)
    : resolvent clause d' D goals as ↔ resolvent clause d D goals as := by
  simp only [resolvent, hd]

theorem Mismatch.congr {clause : Clause} {d d' : Denotation} (h : Mismatch clause d)
    (hd : ∀ (D : Type) [Domain D] (goals : List (Atom D)) (as : List D),
      d' D goals as ↔ d D goals as) : Mismatch clause d' := by
  intro D _ θ rest as
  rw [hd]
  exact h D θ rest as

namespace Clause

theorem mem_vars {clause : Clause} {name : String}
    : name ∈ clause.vars ↔ ∃ lit ∈ clause.head :: clause.features ++ clause.body, name ∈ lit.vars := by
  rw [vars, List.mem_eraseDups, List.mem_flatMap]

theorem mem_vars_of_head {clause : Clause} {name : String} (hname : .var name ∈ clause.head.args)
    : name ∈ clause.vars := by
  rw [mem_vars]
  exact ⟨clause.head, by simp, Literal.mem_vars.mpr hname⟩

theorem mem_vars_of_body {clause : Clause} {lit : Literal} {name : String} (hlit : lit ∈ clause.body)
    (hname : name ∈ lit.vars) : name ∈ clause.vars := by
  rw [mem_vars]
  exact ⟨lit, by simp [hlit], hname⟩

theorem mem_vars_of_feature {clause : Clause} {name : String}
    (hname : name ∈ clause.features.flatMap Literal.vars) : name ∈ clause.vars := by
  rcases List.mem_flatMap.mp hname with ⟨lit, hlit, hmem⟩
  rw [mem_vars]
  exact ⟨lit, by simp [hlit], hmem⟩

theorem mem_head_of_feature {clause : Clause} {name : String}
    (hfeatures : clause.unboundFeatureVariable? = none)
    (hname : name ∈ clause.features.flatMap Literal.vars) : name ∈ clause.head.vars := by
  rw [unboundFeatureVariable?, List.find?_eq_none] at hfeatures
  simpa using hfeatures name hname

theorem mem_of_feature {clause : Clause} (hfeatures : clause.unboundFeatureVariable? = none)
    : ∀ name ∈ clause.features.flatMap Literal.vars, name ∈ clause.vars ∧ name ∈ clause.head.vars :=
  fun _ hname => ⟨mem_vars_of_feature hname, mem_head_of_feature hfeatures hname⟩

def bodyLevel (clause : Clause) (s : State) (pc : Nat) : Level where
  frame := ⟨s.heap.size, s.registers.size, pc, s.jumpTo⟩
  vars := clause.vars
  seen := clause.head.vars
  todo := clause.body

end Clause

def Machine.allocated (m : Machine) (pc count : Nat) : Machine :=
  { m with state := { m.state with
      registers := m.state.registers ++ Array.replicate count none
      pc := some pc
      failed := false
      completed := false } }

variable {program : Program} {gather : Nat → Exec (List Goal)} {computeFeatures : Bool} {m : Machine}

theorem run_allocate {addr count : Nat} {block : List Instruction}
    (hcode : program.Has addr (.grow count :: block))
    : program.run gather (some addr) computeFeatures m =
      program.runOn gather computeFeatures (m.allocated (addr + 1) count) := by
  rw [Program.run_apply]
  have hat : State.RunsAt { m.state with pc := some addr, failed := false, completed := false } addr :=
    ⟨rfl, rfl, rfl⟩
  exact Program.runOn_step hat hcode.head rfl

theorem runsAt_allocated (pc count : Nat) : (m.allocated pc count).state.RunsAt pc :=
  ⟨rfl, rfl, rfl⟩

/--
The head of a clause was matched with the call, and the machine `m'` goes on with the features at `pc`.
-/
structure Entered (program : Program) (clause : Clause) (pc : Nat) (l : Level) (ls : List Level)
    (m m' : Machine) : Prop where
  symbols_le : m.symbols ≤ m'.symbols
  runsAt : m'.state.RunsAt pc
  code : program.Has pc (Code.features clause.vars clause.features ++
    (Code.calls clause.vars clause.head.vars clause.body ++ [.returnp]))
  valid : m'.state.heap.Valid m'.symbols
  scope : Scope clause.vars clause.head.vars m'.state.registers m'.state.registers.size
    m'.state.heap.size
  stack : Stack program m'.state.registers (l :: ls)
  calls_eq : m'.state.calls = (l :: ls).map Level.frame
  registers_size : m'.state.registers.size = l.frame.registerCount + clause.vars.length
  heap_size : m'.state.heap.size = l.frame.heapSize
  allGoals_eq : ∀ (D : Type) [Domain D] (val : Valuation D),
    allGoals val m'.state.registers (l :: ls) = allGoals val m.state.registers (l :: ls) ∧
      answer val m'.state.registers (l :: ls) = answer val m.state.registers (l :: ls)
  fits_iff : ∀ (D : Type) [Domain D] (v : Nat → D) (θ : String → D),
    Fits clause.vars m' v θ ↔
      m.state.heap.Models m.symbols v ∧
        awaited m.state clause.head.signature v = clause.head.inst θ

/--
The level `l` goes on behind the call that the state answers. Only the `count` registers on top are in use
for it, and between them and those of the level there may be others.
-/
structure Held (program : Program) (symbols : SymbolTable) (s : State) (count : Nat) (l : Level)
    (ls : List Level) : Prop where
  valid : s.heap.Valid symbols
  stack : Stack program s.registers (l :: ls)
  calls_eq : s.calls = (l :: ls).map Level.frame
  registers_le : l.frame.registerCount + count ≤ s.registers.size
  heap_le : l.frame.heapSize ≤ s.heap.size

/--
The state answers a call by a clause, and `args` of the head are still to be matched by the code at `pc`.
-/
structure Matching (program : Program) (symbols : SymbolTable) (s : State) (clause : Clause)
    (args : List Term) (seen : List String) (pc : Nat) (l : Level) (ls : List Level) : Prop where
  held : Held program symbols s clause.vars.length l ls
  code : program.Has pc (Code.head clause.vars (-(args.length : Int)) seen args)
  rest : program.Has (pc + args.length) (Code.features clause.vars clause.features ++
    (Code.calls clause.vars clause.head.vars clause.body ++ [.returnp]))
  length_le : args.length ≤ s.heap.size
  mem_vars : ∀ name, .var name ∈ args → name ∈ clause.vars
  seen_iff : ∀ name ∈ clause.vars, name ∈ args.filterMap Term.var? ++ seen ↔ name ∈ clause.head.vars
  scope : Scope clause.vars seen s.registers s.registers.size s.heap.size

/--
The head of the clause does not match the call, and the run stopped where this was found out.
-/
structure Stalled (program : Program) (symbols : SymbolTable) (clause : Clause) (s : State) : Prop where
  failed_eq : s.failed = true
  completed_eq : s.completed = false
  jumpTo_eq : s.jumpTo = some clause.head.signature.label
  arity_le : clause.head.args.length ≤ s.heap.size
  matching : ∃ args seen pc l ls, s.pc = some pc ∧
    Matching program symbols s clause args seen pc l ls

section Held

variable {symbols symbols' : SymbolTable} {s : State} {clause : Clause} {count : Nat} {l : Level}
  {ls : List Level}

theorem Held.mono (h : Held program symbols s count l ls) (hle : symbols ≤ symbols')
    : Held program symbols' s count l ls :=
  { h with valid := h.valid.mono hle }

theorem Stalled.mono (h : Stalled program symbols clause s) (hle : symbols ≤ symbols')
    : Stalled program symbols' clause s := by
  rcases h.matching with ⟨args, seen, pc, l, ls, hpc, hmatching⟩
  have hmatching' : Matching program symbols' s clause args seen pc l ls :=
    { hmatching with held := hmatching.held.mono hle }
  exact { h with matching := ⟨args, seen, pc, l, ls, hpc, hmatching'⟩ }

theorem Held.allocated (h : Held program m.symbols m.state 0 l ls) (pc count : Nat)
    : Held program (m.allocated pc count).symbols (m.allocated pc count).state count l ls := by
  have hle := h.registers_le
  constructor
  . exact h.valid
  . apply h.stack.of_registers
    . simp only [registerTop, Machine.allocated, Array.size_append]
      omega
    . intro i hi
      rw [registerTop] at hi
      exact Array.getElem?_append_left (by omega)
  . exact h.calls_eq
  . simp only [Machine.allocated, Array.size_append, Array.size_replicate]
    omega
  . exact h.heap_le

theorem Held.advances {vars seen : List String} {pc : Nat} {m' : Machine}
    (h : Held program m.symbols m.state vars.length l ls) (hadv : Advances vars seen pc m m')
    (hsize : m.state.heap.size ≤ m'.state.heap.size)
    : Held program m'.symbols m'.state vars.length l ls := by
  have hle := h.registers_le
  have hregs := hadv.registers_size
  constructor
  . exact hadv.valid
  . apply h.stack.of_registers
    . rw [registerTop]
      omega
    . intro i hi
      rw [registerTop] at hi
      exact hadv.below i (by omega)
  . rw [hadv.state_eq]
    exact h.calls_eq
  . omega
  . exact Nat.le_trans h.heap_le hsize

theorem Waiting.held {sig : Signature} (h : Waiting program symbols s sig l ls)
    : Held program symbols s 0 l ls where
  valid := h.valid
  stack := h.stack
  calls_eq := h.calls_eq
  registers_le := Nat.le_of_eq h.registers_size.symm
  heap_le := Nat.le_of_eq h.heap_size.symm

theorem Held.matching (h : Held program m.symbols m.state 0 l ls) {addr : Nat}
    (hcode : program.Has addr clause.code) (harity : clause.head.args.length ≤ m.state.heap.size)
    : Matching program (m.allocated (addr + 1) clause.vars.length).symbols
        (m.allocated (addr + 1) clause.vars.length).state clause clause.head.args [] (addr + 1) l ls := by
  have hcode' := hcode.tail
  simp only [List.append_assoc] at hcode'
  have hrest := hcode'.right
  rw [length_head] at hrest
  constructor
  . exact h.allocated (addr + 1) clause.vars.length
  . exact hcode'.left
  . exact hrest
  . exact harity
  . exact fun _ => Clause.mem_vars_of_head
  . intro name _
    rw [List.append_nil]
    rfl
  . exact Scope.allocated clause.vars _

theorem Matching.stalled {args args' : List Term} {seen seen' : List String} {pc pc' : Nat}
    {m' : Machine} (h : Matching program m.symbols m.state clause args seen pc l ls)
    (hat : m.state.RunsAt pc)
    (hlabel : m.state.jumpTo = some clause.head.signature.label)
    (harity : clause.head.args.length ≤ m.state.heap.size)
    (hstopped : Stopped program clause.vars (args.filterMap Term.var? ++ seen) (pc + args.length) args'
      seen' pc' m m')
    : Stalled program m'.symbols clause m'.state := by
  have hadv := hstopped.advances
  have hstate := hadv.state_eq
  have hsize := hstopped.size_eq
  have hmatching : Matching program m'.symbols m'.state clause args' seen' pc' l ls := by
    have hheld := h.held.advances hadv (Nat.le_of_eq hsize.symm)
    constructor
    . exact ⟨hheld.valid, hheld.stack, hheld.calls_eq, hheld.registers_le, hheld.heap_le⟩
    . exact hstopped.code
    . rw [hstopped.pc_eq]
      exact h.rest
    . rw [hsize]
      exact hstopped.length_le
    . exact hstopped.mem_vars
    . exact fun name hname => (hstopped.seen_iff name hname).trans (h.seen_iff name hname)
    . exact hadv.scope
  constructor
  . exact hstopped.failed_eq
  . show m'.revived.state.completed = false
    rw [hstate]
    exact hat.completed_eq
  . show m'.revived.state.jumpTo = _
    rw [hstate]
    exact hlabel
  . rw [hsize]
    exact harity
  . refine ⟨args', seen', pc', l, ls, ?_, hmatching⟩
    show m'.revived.state.pc = _
    rw [hstate]

end Held

section Enter

variable {clause : Clause} {sig : Signature} {l : Level} {ls : List Level}

theorem scope_allocated (pc : Nat) (vars : List String) (bound : Nat)
    : Scope vars [] (m.allocated pc vars.length).state.registers
        (m.allocated pc vars.length).state.registers.size bound :=
  Scope.allocated vars bound

theorem fits_allocated [Domain D] {pc : Nat} {vars : List String} {v : Nat → D} {θ : String → D}
    : Fits vars (m.allocated pc vars.length) v θ ↔ m.state.heap.Models m.symbols v := by
  constructor
  . intro hv
    exact hv.1
  . intro hv
    refine ⟨hv, ?_⟩
    intro name hname addr hreg
    rw [(scope_allocated pc vars 0).unset name hname List.not_mem_nil] at hreg
    simp at hreg

theorem matches_allocated [Domain D] {pc count : Nat} {v : Nat → D} {θ : String → D}
    : Matches clause.head.args (m.allocated pc count) v θ ↔
      awaited m.state clause.head.signature v = clause.head.inst θ := by
  simp only [Matches, awaited, Literal.inst, Literal.signature, Atom.mk.injEq, true_and]
  rfl

theorem getElem?_allocated {pc count i : Nat} (h : i < m.state.registers.size)
    : (m.allocated pc count).state.registers[i]? = m.state.registers[i]? :=
  Array.getElem?_append_left h

theorem Waiting.entered {pc : Nat} {m' : Machine}
    (h : Waiting program m.symbols m.state clause.head.signature l ls)
    (hcode : program.Has (pc + clause.head.args.length) (Code.features clause.vars clause.features ++
      (Code.calls clause.vars clause.head.vars clause.body ++ [.returnp])))
    (hadv : Advances clause.vars clause.head.vars (pc + clause.head.args.length)
      (m.allocated pc clause.vars.length) m')
    (haccepts : Accepts clause.vars clause.head.args (m.allocated pc clause.vars.length) m')
    : Entered program clause (pc + clause.head.args.length) l ls m m' := by
  have htop := h.registers_size
  -- the registers of the clause lie on top of those of the levels below
  have hregs : ∀ i < registerTop (l :: ls), m'.state.registers[i]? = m.state.registers[i]? := by
    intro i hi
    rw [registerTop, ← htop] at hi
    rw [hadv.below i _, getElem?_allocated hi]
    simp only [Machine.allocated, Array.size_append, Array.size_replicate]
    omega
  have hsize : m'.state.registers.size = m.state.registers.size + clause.vars.length := by
    rw [hadv.registers_size]
    simp [Machine.allocated]
  constructor
  . exact hadv.symbols_le
  . exact hadv.runsAt (runsAt_allocated _ _)
  . exact hcode
  . exact hadv.valid
  . exact hadv.scope
  . apply h.stack.of_registers _ hregs
    rw [registerTop]
    omega
  . rw [hadv.state_eq]
    exact h.calls_eq
  . rw [hsize, htop]
  . rw [haccepts.size_eq]
    exact h.heap_size
  . intro D _ val
    have hassign := h.stack.assign_eq val val hregs (fun _ _ => rfl) (fun _ _ => rfl)
    exact ⟨h.stack.allGoals_congr hassign, h.stack.answer_congr hassign (fun _ _ => rfl)⟩
  . intro D _ v θ
    rw [haccepts.fits_iff, fits_allocated, matches_allocated]

theorem Waiting.enter {addr : Nat} (h : Waiting program m.symbols m.state sig l ls)
    (hsig : clause.head.signature = sig) (hcode : program.Has addr clause.code)
    (hrun : Unexhausted (program.run gather (some addr) computeFeatures m))
    : (∃ m', program.run gather (some addr) computeFeatures m = .ok ∅ m' ∧ m.symbols ≤ m'.symbols ∧
          Stalled program m'.symbols clause m'.state ∧
          Mismatch clause (awaits m.symbols m.state sig (l :: ls))) ∨
      ∃ m', program.run gather (some addr) computeFeatures m =
          program.runOn gather computeFeatures m' ∧
        Entered program clause (addr + 1 + clause.head.args.length) l ls m m' := by
  subst hsig
  have hrun₁ : program.run gather (some addr) computeFeatures m =
      program.runOn gather computeFeatures (m.allocated (addr + 1) clause.vars.length) :=
    run_allocate hcode
  have hmatching := h.held.matching hcode h.arity_le
  rw [hrun₁] at hrun
  rcases runOn_head (runsAt_allocated _ _) hmatching.code rfl h.arity_le h.valid
    (scope_allocated _ _ _) hmatching.mem_vars hrun with
    ⟨⟨args, seen, pc, m', hrun', hstopped⟩, hrejects⟩ | ⟨m', hrun', hadv, haccepts⟩
  . left
    have hstalled := hmatching.stalled (runsAt_allocated _ _) h.jumpTo_eq h.arity_le hstopped
    refine ⟨m', hrun₁.trans hrun', hstopped.advances.symbols_le, hstalled, ?_⟩
    intro D _ θ rest as hd
    rcases hd with ⟨val, hv, hgoals, _⟩
    rw [List.cons.injEq] at hgoals
    apply hrejects D val.cell θ (fits_allocated.mpr hv)
    exact matches_allocated.mpr hgoals.1.symm
  . right
    rw [List.append_nil] at hadv
    exact ⟨m', hrun₁.trans hrun', h.entered hmatching.rest hadv haccepts⟩

end Enter

namespace Entered

variable {clause : Clause} {pc : Nat} {l : Level} {ls : List Level} {m' : Machine}

theorem leaves_iff (h : Entered program clause pc l ls m m') (pc' : Nat) (D : Type) [Domain D]
    (goals : List (Atom D)) (as : List D)
    : leaves m'.symbols m'.state (clause.bodyLevel m'.state pc' :: l :: ls) D goals as ↔
      resolvent clause (awaits m.symbols m.state clause.head.signature (l :: ls)) D goals as := by
  constructor
  . intro h'
    rcases h' with ⟨val, hv, hgoals, has⟩
    rcases h.allGoals_eq D val with ⟨hrest, hanswer⟩
    -- the values of the variables are those that the registers of the clause have now
    have hfits := (h.fits_iff D val.cell _).mp ⟨hv, Agrees.of_read⟩
    refine ⟨val.assign m'.state.registers clause.vars m'.state.registers.size,
      allGoals val m.state.registers (l :: ls), ?_, val, hfits.1, ?_, ?_⟩
    . rw [hgoals, ← hrest]
      rfl
    . rw [hfits.2]
    . rw [has, answer, hanswer]
  . intro h'
    rcases h' with ⟨θ, rest, hgoals, val, hv, hcall, has⟩
    rw [List.cons.injEq] at hcall
    have hfits := (h.fits_iff D val.cell θ).mpr ⟨hv, hcall.1.symm⟩
    -- variables that do not occur in the head have no address yet and take any value
    rcases h.scope.exists_valuation hfits.2 val.slot with ⟨val', hcell, hassign, hslot⟩
    have hcount := h.registers_size
    have hassigns := h.stack.assign_eq val val' (fun _ _ => rfl)
      (fun _ _ => congrFun hcell _) (fun i hi => hslot i (by rw [registerTop] at hi; omega))
    have hcells : ∀ addr < heapTop (l :: ls), val'.cell addr = val.cell addr :=
      fun _ _ => congrFun hcell _
    have hbody : (clause.bodyLevel m'.state pc').goals val' m'.state.registers =
        clause.body.map (Literal.inst θ) := by
      apply List.map_congr_left
      intro lit hlit
      apply Literal.inst_congr
      intro name hname
      exact hassign name (Clause.mem_vars_of_body hlit hname)
    rcases h.allGoals_eq D val with ⟨hrest, hanswer⟩
    refine ⟨val', ?_, ?_, ?_⟩
    . rw [hcell]
      exact hfits.1
    . rw [allGoals, List.flatMap_cons, hbody, hgoals, hcall.2, ← hrest]
      congr 1
      exact (h.stack.allGoals_congr hassigns).symm
    . rw [answer, h.stack.answer_congr hassigns hcells, hanswer, has]

theorem ready (h : Entered program clause pc l ls m m') (stack : List Feature)
    : Ready program m'.symbols
        (m'.fed stack (pc + (Code.features clause.vars clause.features).length)).state
        (clause.bodyLevel m'.state (pc + (Code.features clause.vars clause.features).length))
        (l :: ls) := by
  have hcount := h.registers_size
  constructor
  . exact Machine.runsAt_fed h.runsAt stack _
  . exact h.valid
  . apply Stack.cons _ hcount _ h.stack
    . exact ⟨h.code.right, fun _ hlit _ hname => Clause.mem_vars_of_body hlit hname, h.scope⟩
    . exact Nat.le_of_eq h.heap_size.symm
  . exact h.calls_eq
  . rfl
  . rfl

end Entered

/--
A clause reported its features, and `ρ` has the constants of their variables.
-/
structure Reported (program : Program) (gather : Nat → Exec (List Goal)) (clause : Clause)
    (d : Denotation) (ρ : String → String) (m m₁ : Machine) : Prop where
  failed_eq : m₁.state.failed = false
  symbols_le : m.symbols ≤ m₁.symbols
  ground : ∀ (D : Type) [Domain D] (θ : String → D) (rest : List (Atom D)) (as : List D),
    d D (clause.head.inst θ :: rest) as →
      ∀ name ∈ clause.features.flatMap Literal.vars, θ name = Domain.const (ρ name)
  resume : Unexhausted (program.run gather none true m₁) →
    ∃ m', program.run gather none true m₁ = .ok ∅ m' ∧ m₁.symbols ≤ m'.symbols ∧
      Paused program m'.symbols m'.state (resolvent clause d)

/--
The head of a clause was matched with the call, but not all variables of its features got constants: the
chain of the first one without ends at the free cell `root`.
-/
def Halts (program : Program) (clause : Clause) (l : Level) (ls : List Level) (m : Machine) (root : Nat)
    : Prop :=
  ∃ pc m₁ before name after, Entered program clause pc l ls m m₁ ∧
    clause.features.flatMap Literal.vars = before ++ name :: after ∧
    (∀ name' ∈ before, m₁.IsGround clause.vars name') ∧ m₁.IsOpen clause.vars name root

section Run

variable {clause : Clause} {sig : Signature} {l : Level} {ls : List Level} {addr : Nat}
  (h : Waiting program m.symbols m.state sig l ls) (hsig : clause.head.signature = sig)
  (hcode : program.Has addr clause.code)
include h hsig hcode

theorem Waiting.run_clause (hrun : Unexhausted (program.run gather (some addr) false m))
    : ∃ m', program.run gather (some addr) false m = .ok ∅ m' ∧ m.symbols ≤ m'.symbols ∧
        ((Stalled program m'.symbols clause m'.state ∧
            Mismatch clause (awaits m.symbols m.state sig (l :: ls))) ∨
          Paused program m'.symbols m'.state
            (resolvent clause (awaits m.symbols m.state sig (l :: ls)))) := by
  rcases h.enter hsig hcode hrun with
    ⟨m', hrun', hle, hstalled, hmismatch⟩ | ⟨m₁, hrun₁, hentered⟩
  . exact ⟨m', hrun', hle, .inl ⟨hstalled, hmismatch⟩⟩
  . have hskip := runOn_skip gather hentered.runsAt hentered.code.left
      (fun _ => Code.isFeature_of_mem_features)
    have hready := hentered.ready m₁.features
    rw [hrun₁, hskip] at hrun
    rcases Ready.resume (m := m₁.fed _ _) hready hrun with ⟨m', hrun', hle, _, hpaused⟩
    refine ⟨m', ?_, Interner.le_trans hentered.symbols_le hle, .inr (hpaused.congr ?_)⟩
    . rw [hrun₁, hskip, hrun']
    . intro D _ goals as
      rw [← hsig]
      exact (hentered.leaves_iff _ D goals as).symm

theorem Waiting.run_features (hfeatures : clause.unboundFeatureVariable? = none)
    (hrun : Unexhausted (program.run gather (some addr) true m))
    : (∃ m', program.run gather (some addr) true m = .ok ∅ m' ∧ m'.state.failed = true ∧
          m.symbols ≤ m'.symbols ∧ Mismatch clause (awaits m.symbols m.state sig (l :: ls))) ∨
      (∃ root m', program.run gather (some addr) true m =
        .error (.notConstant root "fpushboundvar") m' ∧ Halts program clause l ls m root) ∨
      ∃ ρ m₁, program.run gather (some addr) true m = .ok (clause.report ρ) m₁ ∧
        Reported program gather clause (awaits m.symbols m.state sig (l :: ls)) ρ m m₁ := by
  rcases h.enter hsig hcode hrun with
    ⟨m', hrun', hle, hstalled, hmismatch⟩ | ⟨m₁, hrun₁, hentered⟩
  . exact .inl ⟨m', hrun', hstalled.failed_eq, hle, hmismatch⟩
  . right
    have hmem := Clause.mem_of_feature hfeatures
    rcases runOn_features gather hentered.runsAt hentered.code.left hentered.valid
        hentered.scope hmem with
      ⟨hground, stack, hreport⟩ | ⟨before, after, name, root, m', heq, hbefore, hopen, hfault⟩
    . right
      refine ⟨m₁.groundAssign clause.vars, m₁.fed stack _, hrun₁.trans hreport, ?_⟩
      have hready := hentered.ready stack
      constructor
      . exact hready.runsAt.failed_eq
      . exact hentered.symbols_le
      . intro D _ θ rest as hd name hname
        rcases hd with ⟨val, hv, hgoals, _⟩
        rw [List.cons.injEq, ← hsig] at hgoals
        have hfits := (hentered.fits_iff D val.cell θ).mpr ⟨hv, hgoals.1.symm⟩
        exact (hground name hname).eq_const hentered.valid (hmem name hname).1 hfits.1 hfits.2
      . intro hrun'
        rw [Program.run_none hready.runsAt] at hrun' ⊢
        rcases Ready.resume (m := m₁.fed stack _) hready hrun' with ⟨m', hrun', hle, _, hpaused⟩
        refine ⟨m', hrun', hle, hpaused.congr ?_⟩
        intro D _ goals as
        rw [← hsig]
        exact (hentered.leaves_iff _ D goals as).symm
    . left
      exact ⟨root, m', hrun₁.trans hfault, _, m₁, before, name, after, hentered, heq, hbefore, hopen⟩

end Run

end HornMachine
