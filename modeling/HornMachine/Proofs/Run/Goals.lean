import HornMachine.Proofs.Logic.Pattern
import HornMachine.Proofs.Program.Label
import HornMachine.Proofs.Run.Resume

/-!
This module contains the goals that a waiting state denotes. They are read off the heap, the registers,
the frames and the code, with variables for the free cells and for the registers that hold no address.
-/

namespace HornMachine

/--
A variable of a state: the address of a free cell or the place of a register without address.
-/
inductive Place where
  | cell (addr : Nat)
  | slot (i : Nat)
deriving DecidableEq

instance : Inhabited Place := ⟨.slot 0⟩

def Signature.functorOf (label : String) : String :=
  match splitLast '/' label.toList with
  | some (functor, _) => String.ofList functor
  | none => label

theorem Signature.functorOf_label (sig : Signature) : functorOf sig.label = sig.functor := by
  rw [functorOf, splitLast_label]
  exact String.ofList_toList

/--
The literals that some code calls before the next return, behind the arguments that were pushed already.
-/
def Code.literals (read : Int → Pattern V)
    : (args : List (Pattern V)) → List Instruction → List (Atom (Pattern V))
  | _, [] => []
  | _, .returnp :: _ => []
  | args, .callp label :: code => ⟨Signature.functorOf label, args⟩ :: literals read [] code
  | args, .pushConst name :: code => literals read (args ++ [.const name]) code
  | args, .pushFreeVar reg :: code => literals read (args ++ [read reg]) code
  | args, .pushBoundVar reg :: code => literals read (args ++ [read reg]) code
  | args, _ :: code => literals read args code

namespace State

/--
The values of addresses and registers if free cells and registers without address have those of `g`.
-/
def valuation [Domain D] (symbols : SymbolTable) (s : State) (g : Place → D) : Valuation D where
  cell := s.heap.value symbols fun addr => g (.cell addr)
  slot i := g (.slot i)

def pattern (symbols : SymbolTable) (s : State) : Valuation (Pattern Place) :=
  s.valuation symbols Pattern.var

theorem cell_pattern (symbols : SymbolTable) (s : State) (addr : Nat)
    : (s.pattern symbols).cell addr =
      s.heap.value symbols (fun addr => Pattern.var (Place.cell addr)) addr := rfl

theorem pattern_mono {symbols symbols' : SymbolTable} {s : State}
    (hvalid : s.heap.Valid symbols) (hle : symbols ≤ symbols')
    : s.pattern symbols' = s.pattern symbols := by
  have hcell : (s.pattern symbols').cell = (s.pattern symbols).cell :=
    funext (hvalid.closed.value_mono hle _)
  rw [State.pattern, State.valuation, Valuation.mk.injEq]
  exact ⟨hcell, rfl⟩

def frameGoals (program : Program) (symbols : SymbolTable) (s : State) (frame : Frame)
    : List (Atom (Pattern Place)) :=
  Code.literals
    (fun reg => (s.pattern symbols).read s.registers (frame.registerCount + reg).toNat) []
    (program.code.toList.drop frame.pc)

structure Denotes (program : Program) (symbols : SymbolTable) (s : State)
    (goal : Atom (Pattern Place)) (rest : List (Atom (Pattern Place))) : Prop where
  pc_eq : s.pc = none
  failed_eq : s.failed = false
  completed_eq : s.completed = false
  jumpTo_eq : s.jumpTo = some goal.signature.label
  arity_le : goal.args.length ≤ s.heap.size
  args_eq : goal.args =
    cells (s.pattern symbols).cell (s.heap.size - goal.args.length) goal.args.length
  rest_eq : rest = s.calls.flatMap (s.frameGoals program symbols)

theorem Denotes.unique {program : Program} {symbols : SymbolTable} {s : State}
    {goal goal' : Atom (Pattern Place)} {rest rest' : List (Atom (Pattern Place))}
    (h : s.Denotes program symbols goal rest) (h' : s.Denotes program symbols goal' rest')
    : goal' = goal ∧ rest' = rest := by
  have hlabel : goal'.signature.label = goal.signature.label := by
    simpa [h.jumpTo_eq] using h'.jumpTo_eq.symm
  have hsig := Signature.label_injective hlabel
  simp only [Atom.signature, Signature.mk.injEq] at hsig
  have hargs := h'.args_eq
  rw [hsig.2, ← h.args_eq] at hargs
  rcases goal with ⟨functor, args⟩
  rcases goal' with ⟨functor', args'⟩
  rw [Atom.mk.injEq]
  exact ⟨⟨hsig.1, hargs⟩, by rw [h.rest_eq, h'.rest_eq]⟩

end State

namespace Code

variable {read : Int → Pattern V} {vars : List String}

theorem literals_arguments (seen : List String) (terms : List Term) (args : List (Pattern V))
    (code : List Instruction)
    : literals read args (arguments vars seen terms ++ code) =
      literals read (args ++ terms.map (Term.eval fun name => read (register vars name))) code := by
  induction terms generalizing seen args with
  | nil => rw [arguments, List.map_nil, List.append_nil, List.nil_append]
  | cons term terms ih =>
    rw [List.map_cons, List.append_cons]
    cases term with
    | const name =>
      rw [arguments, List.cons_append, literals, ih]
      rfl
    | var name =>
      rw [arguments]
      split
      . rw [List.cons_append, literals, ih]
        rfl
      . rw [List.cons_append, literals, ih]
        rfl

theorem literals_calls (seen : List String) (lits : List Literal) (code : List Instruction)
    : literals read [] (calls vars seen lits ++ .returnp :: code) =
      lits.map (Literal.inst fun name => read (register vars name)) := by
  induction lits generalizing seen with
  | nil => rfl
  | cons lit lits ih =>
    rw [calls, List.append_assoc, literals_arguments, List.nil_append, List.cons_append, literals, ih,
      Signature.functorOf_label, List.map_cons]
    rfl

end Code

open Level

theorem Heap.eval_value [Domain D] {symbols : SymbolTable} {heap : Heap} (free : Nat → Pattern V)
    (g : V → D) (addr : Nat)
    : (heap.value symbols free addr).eval g =
      heap.value symbols (fun addr => (free addr).eval g) addr := by
  unfold value
  split
  . rfl
  . split
    . split
      . rfl
      . rfl
    . rfl

def Valuation.place (val : Valuation D) : Place → D
  | .cell addr => val.cell addr
  | .slot i => val.slot i

section Eval

variable {program : Program} {symbols : SymbolTable} {s : State} {ls : List Level} {sig : Signature}

theorem Level.frameGoals_eq {l : Level} (h : l.Ok program s.registers)
    : s.frameGoals program symbols l.frame = l.goals (s.pattern symbols) s.registers := by
  rcases h.code with ⟨code, hcode⟩
  rw [State.frameGoals, ← hcode, List.append_assoc, List.singleton_append, Code.literals_calls,
    Level.goals]
  apply List.map_congr_left
  intro lit hlit
  apply Literal.inst_congr
  intro name hname
  have hmem := h.mem_vars lit hlit name hname
  have hlt := List.idxOf_lt_length_of_mem hmem
  have hlen := h.scope.length_le
  rw [Level.assign, Valuation.assign, Code.register, slotOf]
  congr 1
  omega

theorem Level.Stack.frameGoals_eq (h : Stack program s.registers ls)
    : (ls.map Level.frame).flatMap (s.frameGoals program symbols) =
      allGoals (s.pattern symbols) s.registers ls := by
  rw [allGoals, List.flatMap_map]
  apply List.flatMap_congr
  intro l hl
  exact Level.frameGoals_eq (h.ok hl)

theorem State.eval_cell [Domain D] (g : Place → D) (addr : Nat)
    : ((s.pattern symbols).cell addr).eval g = (s.valuation symbols g).cell addr := by
  rw [State.cell_pattern, Heap.eval_value]
  rfl

theorem State.eval_read [Domain D] (g : Place → D) (i : Nat)
    : ((s.pattern symbols).read s.registers i).eval g =
      (s.valuation symbols g).read s.registers i := by
  unfold Valuation.read
  split
  . exact State.eval_cell g _
  . rfl

theorem Level.eval_allGoals [Domain D] (g : Place → D) (ls : List Level)
    : (allGoals (s.pattern symbols) s.registers ls).map (Atom.eval g) =
      allGoals (s.valuation symbols g) s.registers ls := by
  rw [allGoals, allGoals, List.map_flatMap]
  congr 1
  funext l
  rw [Level.goals, Level.goals, List.map_map]
  apply List.map_congr_left
  intro lit _
  rw [Function.comp_apply, Literal.eval_inst]
  apply Literal.inst_congr
  intro name _
  exact State.eval_read g _

theorem eval_awaited [Domain D] (g : Place → D)
    : (awaited s sig (s.pattern symbols).cell).eval g = awaited s sig (s.valuation symbols g).cell := by
  simp only [awaited, Atom.eval, Atom.map, Atom.mk.injEq, true_and, cells, List.map_map]
  apply List.map_congr_left
  intro addr _
  exact State.eval_cell g addr

end Eval

section Waiting

variable {program : Program} {symbols : SymbolTable} {s : State} {sig : Signature} {l : Level}
  {ls : List Level} (h : Waiting program symbols s sig l ls)
include h

theorem Waiting.denotes
    : s.Denotes program symbols (awaited s sig (s.pattern symbols).cell)
        (allGoals (s.pattern symbols) s.registers (l :: ls)) := by
  have hlength : (awaited s sig (s.pattern symbols).cell).args.length = sig.arity := length_cells ..
  constructor
  . exact h.pc_eq
  . exact h.failed_eq
  . exact h.completed_eq
  . rw [h.jumpTo_eq, Atom.signature, hlength]
    rfl
  . rw [hlength]
    exact h.arity_le
  . rw [hlength]
    rfl
  . rw [h.calls_eq]
    exact h.stack.frameGoals_eq.symm

theorem Waiting.valuation_eq [Domain D] {val : Valuation D} (hv : s.heap.Models symbols val.cell)
    : awaited s sig (s.valuation symbols val.place).cell = awaited s sig val.cell ∧
      allGoals (s.valuation symbols val.place) s.registers (l :: ls) =
        allGoals val s.registers (l :: ls) := by
  have hcell : ∀ addr < s.heap.size, (s.valuation symbols val.place).cell addr = val.cell addr :=
    fun addr haddr => h.valid.closed.value_eq_of_models hv haddr
  constructor
  . have harity := h.arity_le
    rw [awaited, awaited]
    congr 1
    apply cells_congr
    intro addr haddr
    exact hcell addr (by omega)
  . apply h.stack.allGoals_congr
    apply h.stack.assign_eq val (s.valuation symbols val.place) (fun _ _ => rfl) _ (fun _ _ => rfl)
    intro addr haddr
    apply hcell
    rw [h.heap_size]
    exact haddr

theorem Waiting.awaits_iff (D : Type) [Domain D] (goals : List (Atom D))
    : (∃ as, awaits symbols s sig (l :: ls) D goals as) ↔
      ∃ g : Place → D, goals = (awaited s sig (s.pattern symbols).cell ::
        allGoals (s.pattern symbols) s.registers (l :: ls)).map (Atom.eval g) := by
  constructor
  . intro h'
    rcases h' with ⟨as, val, hv, hgoals, _⟩
    rcases h.valuation_eq hv with ⟨hawaited, hrest⟩
    refine ⟨val.place, ?_⟩
    rw [List.map_cons, eval_awaited, Level.eval_allGoals, hawaited, hrest, hgoals]
  . intro h'
    rcases h' with ⟨g, hgoals⟩
    refine ⟨_, s.valuation symbols g, h.valid.closed.models_value _, ?_, rfl⟩
    rw [hgoals, List.map_cons, eval_awaited, Level.eval_allGoals]

end Waiting

end HornMachine
