import HornMachine.Proofs.Environment.Contract

/-!
This module contains the listing of the goals that are left in a waiting state. It has every goal that the
state denotes, in order, and within the goals of one frame different variables have different names.
-/

namespace HornMachine

open Level

namespace Atom

def listed (name : Place → Nat) (atom : Atom (Pattern Place)) : Goal :=
  (atom.eval fun place => Argument.var (name place)).goal

end Atom

def Place.addr : Place → Nat
  | cell addr => addr
  | slot _ => 0

def placesOf (atoms : List (Atom (Pattern Place))) : Set Place :=
  {place | .var place ∈ atoms.flatMap Atom.args}

namespace State

/--
The names of variables in the goals of a frame. A variable without address has that of the first cell which
is pushed for it if the goals of the frame are called one after another.
-/
def names (program : Program) (symbols : SymbolTable) (s : State) (frame : Frame) : Place → Nat
  | .cell addr => addr
  | .slot i =>
    frame.heapSize + ((s.frameGoals program symbols frame).flatMap Atom.args).idxOf (.var (.slot i))

def listedGoals (program : Program) (symbols : SymbolTable) (s : State) (frame : Frame) : List Goal :=
  (s.frameGoals program symbols frame).map (Atom.listed (s.names program symbols frame))

theorem cell_cases (symbols : SymbolTable) (s : State) (addr : Nat)
    : (∃ name, (s.pattern symbols).cell addr = .const name) ∨
      ∃ root, (s.pattern symbols).cell addr = .var (.cell root) := by
  rw [cell_pattern]
  unfold Heap.value
  split
  . exact .inr ⟨_, rfl⟩
  . split
    . split
      . exact .inl ⟨_, rfl⟩
      . exact .inr ⟨_, rfl⟩
    . exact .inr ⟨_, rfl⟩

theorem le_of_cell_eq {symbols : SymbolTable} {s : State} {addr root : Nat}
    (hvalid : s.heap.Valid symbols) (haddr : addr < s.heap.size)
    (h : (s.pattern symbols).cell addr = .var (.cell root)) : root ≤ addr := by
  rcases hvalid.exists_root haddr with ⟨root', _, hleads⟩
  rw [cell_pattern, hvalid.closed.value_eq_root _ hleads] at h
  rcases hleads.root_cases with hfree | ⟨id, hconst⟩
  . rw [hvalid.closed.value_free _ hfree] at h
    cases h
    exact hvalid.root_le hleads
  . rcases hvalid.named hconst with ⟨name, hname⟩
    rw [(hvalid.closed.models_value _).eq_const hconst hname] at h
    contradiction

end State

section Level

variable {program : Program} {symbols : SymbolTable} {s : State} {l : Level} {name : String}
  (h : l.Ok program s.registers)
include h

theorem Level.Ok.args_frameGoals
    : (s.frameGoals program symbols l.frame).flatMap Atom.args =
      (l.todo.flatMap Literal.args).map (Term.eval (l.assign (s.pattern symbols) s.registers)) := by
  rw [Level.frameGoals_eq h, Level.goals, List.flatMap_map, List.map_flatMap]
  rfl

theorem Level.Ok.mem_vars_of_arg (hname : .var name ∈ l.todo.flatMap Literal.args) : name ∈ l.vars := by
  rcases List.mem_flatMap.mp hname with ⟨lit, hlit, hmem⟩
  exact h.mem_vars lit hlit name (Literal.mem_vars.mpr hmem)

variable (symbols) in
theorem Level.Ok.assign_cases (hname : name ∈ l.vars)
    : (∃ addr < l.frame.heapSize,
        s.registers[slotOf l.vars l.frame.registerCount name]? = some (some addr) ∧
        l.assign (s.pattern symbols) s.registers name = (s.pattern symbols).cell addr) ∨
      s.registers[slotOf l.vars l.frame.registerCount name]? = some none ∧
        l.assign (s.pattern symbols) s.registers name =
          .var (.slot (slotOf l.vars l.frame.registerCount name)) := by
  by_cases hseen : name ∈ l.seen
  . rcases h.scope.set name hname hseen with ⟨addr, hlt, hreg⟩
    exact .inl ⟨addr, hlt, hreg, Valuation.read_set hreg⟩
  . have hunset := h.scope.unset name hname hseen
    exact .inr ⟨hunset, Valuation.read_unset hunset⟩

variable (symbols) in
theorem Level.Ok.idxOf_slot (hname : name ∈ l.vars)
    (hunset : s.registers[slotOf l.vars l.frame.registerCount name]? = some none)
    : ((s.frameGoals program symbols l.frame).flatMap Atom.args).idxOf
          (.var (.slot (slotOf l.vars l.frame.registerCount name))) =
        (l.todo.flatMap Literal.args).idxOf (.var name) := by
  have heval : Term.eval (l.assign (s.pattern symbols) s.registers) (.var name) =
      .var (.slot (slotOf l.vars l.frame.registerCount name)) := Valuation.read_unset hunset
  rw [h.args_frameGoals, ← heval]
  apply idxOf_map_of_iff
  intro term hterm
  refine ⟨?_, fun heq => by rw [heq]⟩
  rw [heval]
  intro heq
  cases term with
  | const _ => contradiction
  | var name' =>
    have hname' := h.mem_vars_of_arg hterm
    rcases h.assign_cases symbols hname' with ⟨addr, _, _, hassign⟩ | ⟨_, hassign⟩
    . rw [Term.eval, hassign] at heq
      rcases s.cell_cases symbols addr with ⟨_, hcell⟩ | ⟨_, hcell⟩
      . rw [hcell] at heq
        contradiction
      . rw [hcell] at heq
        simp at heq
    . rw [Term.eval, hassign] at heq
      simp only [Pattern.var.injEq, Place.slot.injEq] at heq
      rw [slotOf_inj h.scope.length_le hname' hname heq]

theorem Level.Ok.eval_assign (hname : name ∈ l.vars)
    : (l.assign (s.pattern symbols) s.registers name).eval
          (fun place => Argument.var (s.names program symbols l.frame place)) =
        l.argument symbols s name := by
  rcases h.assign_cases symbols hname with ⟨addr, _, hreg, hassign⟩ | ⟨hunset, hassign⟩
  . rw [hassign, argument_set hreg, State.eval_cell]
    rfl
  . rw [hassign, argument_unset hunset, place, ← h.idxOf_slot symbols hname hunset]
    rfl

theorem Level.Ok.listing_eq : l.listing symbols s = s.listedGoals program symbols l.frame := by
  rw [State.listedGoals, Level.frameGoals_eq h, Level.goals, List.map_map]
  apply List.map_congr_left
  intro lit hlit
  rw [Function.comp_apply, Atom.listed, Literal.eval_inst]
  congr 1
  apply Literal.inst_congr
  intro name hname
  exact (h.eval_assign (h.mem_vars lit hlit name hname)).symm

theorem Level.Ok.placesOf_cases (hvalid : s.heap.Valid symbols) (hheap : l.frame.heapSize ≤ s.heap.size)
    {place : Place} (hplace : place ∈ placesOf (s.frameGoals program symbols l.frame))
    : (∃ addr < l.frame.heapSize, place = .cell addr) ∨
      ∃ name ∈ l.vars, place = .slot (slotOf l.vars l.frame.registerCount name) := by
  have hmem : .var place ∈ (s.frameGoals program symbols l.frame).flatMap Atom.args := hplace
  rw [h.args_frameGoals] at hmem
  rcases List.mem_map.mp hmem with ⟨term, hterm, heq⟩
  cases term with
  | const _ => contradiction
  | var name =>
    have hname := h.mem_vars_of_arg hterm
    rw [Term.eval] at heq
    rcases h.assign_cases symbols hname with ⟨addr, hlt, _, hassign⟩ | ⟨_, hassign⟩
    . rw [hassign] at heq
      rcases s.cell_cases symbols addr with ⟨_, hcell⟩ | ⟨root, hcell⟩
      . rw [hcell] at heq
        contradiction
      . have hle := State.le_of_cell_eq hvalid (by omega) hcell
        rw [hcell] at heq
        cases heq
        exact .inl ⟨root, by omega, rfl⟩
    . rw [hassign] at heq
      cases heq
      exact .inr ⟨name, hname, rfl⟩

theorem Level.Ok.names_injOn (hvalid : s.heap.Valid symbols) (hheap : l.frame.heapSize ≤ s.heap.size)
    : Set.InjOn (s.names program symbols l.frame) (placesOf (s.frameGoals program symbols l.frame)) := by
  -- the names of registers are those of cells above the frame, so they are apart from all others
  intro p hp q hq heq
  rcases h.placesOf_cases hvalid hheap hp with ⟨addr, hlt, hcell⟩ | ⟨name, _, hslot⟩
  . rcases h.placesOf_cases hvalid hheap hq with ⟨addr', hlt', hcell'⟩ | ⟨name', _, hslot'⟩
    . rw [hcell, hcell'] at heq ⊢
      rw [show addr = addr' from heq]
    . rw [hcell, hslot'] at heq
      simp only [State.names] at heq
      omega
  . rcases h.placesOf_cases hvalid hheap hq with ⟨addr', hlt', hcell'⟩ | ⟨name', _, hslot'⟩
    . rw [hslot, hcell'] at heq
      simp only [State.names] at heq
      omega
    . have hmem : .var p ∈ (s.frameGoals program symbols l.frame).flatMap Atom.args := hp
      rw [hslot] at hmem
      rw [hslot, hslot'] at heq ⊢
      simp only [State.names, Nat.add_left_cancel_iff, List.idxOf_inj hmem, Pattern.var.injEq] at heq
      exact heq

end Level

theorem Level.Stack.listings_eq_listed {program : Program} {symbols : SymbolTable} {s : State}
    {ls : List Level} (h : Stack program s.registers ls)
    : listings symbols s ls = (ls.map Level.frame).flatMap (s.listedGoals program symbols) := by
  rw [listings, List.flatMap_map]
  apply List.flatMap_congr
  intro l hl
  exact (h.ok hl).listing_eq

/--
The goal has the functor and the constants of the atom, and names for its variables that tell them apart. A
variable on the heap has its address as name.
-/
def Lists (atom : Atom (Pattern Place)) (goal : Goal) : Prop :=
  ∃ name : Place → Nat, (∀ addr, name (.cell addr) = addr) ∧ Set.InjOn name (placesOf [atom]) ∧
    goal = atom.listed name

/--
A variable of some goals and of those of an older frame has the same name in both, and two variables share
a name only if the one in the older frame has no address.
-/
structure NamedApart (name name' : Place → Nat) (newer older : List (Atom (Pattern Place))) : Prop where
  same : ∀ p ∈ placesOf newer, p ∈ placesOf older → name p = name' p
  apart : ∀ p ∈ placesOf newer, ∀ q ∈ placesOf older, name p = name' q → p = q ∨ ∃ i, q = .slot i

section Stack

variable {program : Program} {symbols : SymbolTable} {s : State} {l l' : Level} {ls : List Level}
  (h : Stack program s.registers (l :: ls)) (hvalid : s.heap.Valid symbols)
  (hheap : l.frame.heapSize ≤ s.heap.size)
include h hvalid hheap

theorem Level.Stack.namedApart (hl' : l' ∈ ls)
    : NamedApart (s.names program symbols l.frame) (s.names program symbols l'.frame)
        (s.frameGoals program symbols l.frame) (s.frameGoals program symbols l'.frame) := by
  rcases h with _ | ⟨hlevel, hcount, hbelow, hrest⟩
  have hok := hrest.ok hl'
  have hregs := hrest.registerCount_le hl'
  have hcells := hrest.heapSize_le hl'
  have hcases {p : Place} (hp : p ∈ placesOf (s.frameGoals program symbols l.frame)) :=
    hlevel.placesOf_cases hvalid hheap hp
  have hcases' {q : Place} (hq : q ∈ placesOf (s.frameGoals program symbols l'.frame)) :=
    hok.placesOf_cases hvalid (by omega) hq
  constructor
  . intro p hp hp'
    rcases hcases hp with ⟨addr, _, hcell⟩ | ⟨name, hname, hslot⟩
    . rw [hcell]
      rfl
    . -- the registers of the two blocks are apart
      rcases hcases' hp' with ⟨_, _, hcell'⟩ | ⟨name', hname', hslot'⟩
      . rw [hslot] at hcell'
        contradiction
      . have hle := le_slotOf hlevel.scope.length_le hname
        have hlt := slotOf_lt hok.scope.length_le hname'
        rw [hslot, Place.slot.injEq] at hslot'
        omega
  . intro p hp q hq heq
    rcases hcases' hq with ⟨addr', hlt', hcell'⟩ | ⟨_, _, hslot'⟩
    . rcases hcases hp with ⟨addr, _, hcell⟩ | ⟨_, _, hslot⟩
      . rw [hcell, hcell'] at heq ⊢
        exact .inl (congrArg Place.cell heq)
      . rw [hslot, hcell'] at heq
        simp only [State.names] at heq
        omega
    . exact .inr ⟨_, hslot'⟩

end Stack

theorem Level.Stack.pairwise_namedApart {program : Program} {symbols : SymbolTable} {s : State}
    {ls : List Level} (h : Stack program s.registers ls) (hvalid : s.heap.Valid symbols)
    (hheap : heapTop ls ≤ s.heap.size)
    : (ls.map Level.frame).Pairwise fun newer older =>
        NamedApart (s.names program symbols newer) (s.names program symbols older)
          (s.frameGoals program symbols newer) (s.frameGoals program symbols older) := by
  rw [List.pairwise_map]
  induction h with
  | nil => exact .nil
  | cons hlevel hcount hbelow hrest ih =>
    rw [heapTop] at hheap
    apply List.Pairwise.cons
    . intro l' hl'
      exact (Stack.cons hlevel hcount hbelow hrest).namedApart hvalid hheap hl'
    . exact ih (by omega)

theorem placesOf_awaited {symbols : SymbolTable} {s : State} {sig : Signature} {place : Place}
    (hplace : place ∈ placesOf [awaited s sig (s.pattern symbols).cell])
    : ∃ addr, place = .cell addr := by
  have hmem : .var place ∈ (awaited s sig (s.pattern symbols).cell).args := by
    simpa [placesOf] using hplace
  rcases List.mem_map.mp hmem with ⟨addr, _, heq⟩
  rcases s.cell_cases symbols addr with ⟨_, hcell⟩ | ⟨root, hcell⟩
  . rw [hcell] at heq
    contradiction
  . rw [hcell] at heq
    cases heq
    exact ⟨root, rfl⟩

theorem injOn_awaited {symbols : SymbolTable} {s : State} {sig : Signature}
    : Set.InjOn Place.addr (placesOf [awaited s sig (s.pattern symbols).cell]) := by
  intro p hp q hq heq
  rcases placesOf_awaited hp with ⟨addr, hcell⟩
  rcases placesOf_awaited hq with ⟨addr', hcell'⟩
  rw [hcell, hcell'] at heq ⊢
  exact congrArg Place.cell heq

theorem namedApart_awaited {program : Program} {symbols : SymbolTable} {s : State} {sig : Signature}
    (frame : Frame)
    : NamedApart Place.addr (s.names program symbols frame) [awaited s sig (s.pattern symbols).cell]
        (s.frameGoals program symbols frame) := by
  constructor
  . intro p hp _
    rcases placesOf_awaited hp with ⟨addr, hcell⟩
    rw [hcell]
    rfl
  . intro p hp q _ heq
    rcases placesOf_awaited hp with ⟨addr, hcell⟩
    cases q with
    | cell addr' =>
      rw [hcell] at heq ⊢
      exact .inl (congrArg Place.cell heq)
    | slot i => exact .inr ⟨i, rfl⟩

section Waiting

variable {env : Environment} {symbols : SymbolTable} {s : State} {sig : Signature} {l : Level}
  {ls : List Level} (h : Waiting env.program symbols s sig l ls)
include h

theorem Waiting.heapSize_le {l' : Level} (hl' : l' ∈ l :: ls) : l'.frame.heapSize ≤ s.heap.size := by
  have hle := h.stack.heapSize_le hl'
  rw [heapTop] at hle
  rw [h.heap_size]
  exact hle

theorem Waiting.pendingGoals_eq {names : List String} {m : Machine} (hinterns : env.Interns names)
    (hsize : env.program.size < Signature.arityBound) (hle : symbols ≤ m.symbols)
    (hroom : m.HasRoom names)
    : ∃ m', env.pendingGoals s m =
          .ok ((awaited s sig (s.pattern symbols).cell).listed Place.addr ::
            s.calls.flatMap (s.listedGoals env.program symbols)) m' ∧
        m'.state = m.state ∧ m'.features = m.features ∧ m.symbols ≤ m'.symbols := by
  have hawaited : (awaited s sig (s.pattern symbols).cell).listed Place.addr =
      (awaited s sig (s.heap.value symbols Argument.var)).goal := by
    rw [Atom.listed, eval_awaited]
    rfl
  rw [hawaited, h.calls_eq, ← h.stack.listings_eq_listed]
  exact env.pendingGoals_listing hinterns hsize h hle hroom

theorem Waiting.lists
    : List.Forall₂ Lists
        (awaited s sig (s.pattern symbols).cell :: s.calls.flatMap (s.frameGoals env.program symbols))
        ((awaited s sig (s.pattern symbols).cell).listed Place.addr ::
          s.calls.flatMap (s.listedGoals env.program symbols)) := by
  have hframes {frames : List Frame} (hsub : frames ⊆ s.calls)
      : List.Forall₂ Lists (frames.flatMap (s.frameGoals env.program symbols))
          (frames.flatMap (s.listedGoals env.program symbols)) := by
    induction frames with
    | nil => exact .nil
    | cons frame frames ih =>
      rw [List.flatMap_cons, List.flatMap_cons]
      apply List.rel_append _ (ih fun _ hmem => hsub (List.mem_cons_of_mem _ hmem))
      have hmem := hsub List.mem_cons_self
      rw [h.calls_eq] at hmem
      rcases List.mem_map.mp hmem with ⟨l', hl', hframe⟩
      have hinj := (h.stack.ok hl').names_injOn h.valid (h.heapSize_le hl')
      rw [State.listedGoals, List.forall₂_map_right_iff, List.forall₂_same, ← hframe]
      intro atom hatom
      refine ⟨_, fun _ => rfl, hinj.mono ?_, rfl⟩
      intro place hplace
      have harg : .var place ∈ atom.args := by simpa [placesOf] using hplace
      exact List.mem_flatMap.mpr ⟨atom, hatom, harg⟩
  apply List.Forall₂.cons _ (hframes (List.Subset.refl _))
  exact ⟨Place.addr, fun _ => rfl, injOn_awaited, rfl⟩

end Waiting

section Reached

variable {env : Environment} {tables : List FactTable} {items : List Item} {i start : Nat}
  {goals : List Literal} {symbols : SymbolTable} {s : State}

theorem Reached.exists_waiting (hprogram : env.program = (({} : Program).compile items).2)
    (hplugins : env.plugins = tables.map FactTable.plugin) (hitem : items[i]? = some (.query goals))
    (hstart : (({} : Program).compile items).1[i]? = some (.ok (some start)))
    (hsize : env.program.size < Signature.arityBound) (h : Reached env start symbols s)
    (hfailed : s.failed = false) (hcompleted : s.completed = false)
    : ∃ sig l ls, Waiting env.program symbols s sig l ls := by
  rcases Program.compile_query hprogram hitem hstart with ⟨hrules, hquery⟩
  exact (h.rested hrules hquery hplugins fun _ => hsize).waiting hfailed hcompleted

/--
The listing has the goals that a state denotes, in order, and nothing else. The machine keeps its state and
its features under construction.
-/
theorem Reached.pendingGoals_lists (hprogram : env.program = (({} : Program).compile items).2)
    (hplugins : env.plugins = tables.map FactTable.plugin) (hitem : items[i]? = some (.query goals))
    (hstart : (({} : Program).compile items).1[i]? = some (.ok (some start)))
    (hsize : env.program.size < Signature.arityBound) (h : Reached env start symbols s)
    (hfailed : s.failed = false) (hcompleted : s.completed = false)
    : ∃ goal rest, s.Denotes env.program symbols goal rest ∧
        ∀ m : Machine, symbols ≤ m.symbols → m.HasRoom (env.constants tables) →
          ∃ listed m', env.pendingGoals s m = .ok listed m' ∧
            List.Forall₂ Lists (goal :: rest) listed ∧
            m'.state = m.state ∧ m'.features = m.features ∧ m.symbols ≤ m'.symbols := by
  rcases h.exists_waiting hprogram hplugins hitem hstart hsize hfailed hcompleted with
    ⟨sig, l, ls, hwaiting⟩
  refine ⟨_, _, hwaiting.denotes, ?_⟩
  intro m hle hroom
  rcases hwaiting.pendingGoals_eq (env.interns_constants hplugins) hsize hle hroom with
    ⟨m', heq, hkept⟩
  refine ⟨_, m', heq, ?_, hkept⟩
  rw [hwaiting.denotes.rest_eq]
  exact hwaiting.lists

theorem Reached.pendingGoals_lists_sample
    : Reached Sample.tableEnv 21 .empty Sample.stepping ∧
      ∃ goal rest, Sample.stepping.Denotes Sample.tableEnv.program .empty goal rest ∧
        List.Forall₂ Lists (goal :: rest)
          [⟨"edge", [.var 0, .var 3]⟩, ⟨"reach", [.var 3, .var 1]⟩] := by
  have hrun : Sample.tableEnv.run (some 21) false {} = .ok ∅ { state := Sample.searching } := by decide +kernel
  have hlinks : Sample.tableEnv.outlinks Sample.searching false {} =
      .ok [⟨none, Sample.linking⟩, ⟨none, Sample.stepping⟩] { state := Sample.stepping } := by decide +kernel
  have hlink : (⟨none, Sample.stepping⟩ : Outlink) ∈
      [⟨none, Sample.linking⟩, ⟨none, Sample.stepping⟩] := by simp
  have hpending : Sample.tableEnv.pendingGoals Sample.stepping {} =
      .ok [⟨"edge", [.var 0, .var 3]⟩, ⟨"reach", [.var 3, .var 1]⟩] {} := by decide +kernel
  have hstarted : Reached Sample.tableEnv 21 .empty Sample.searching := .start rfl hrun
  have hreached := hstarted.step rfl rfl (Interner.le_refl _) hlinks hlink
  have hplugins : Sample.tableEnv.plugins = [Sample.edges].map FactTable.plugin := rfl
  have hstart : (({} : Program).compile Sample.ways).1[2]? = some (.ok (some 21)) := by decide
  have hroom : ({} : Machine).HasRoom (Sample.tableEnv.constants [Sample.edges]) := by
    apply Interner.room_of_length
    decide
  rcases pendingGoals_lists (i := 2) rfl hplugins rfl hstart (by decide) hreached rfl rfl with
    ⟨goal, rest, hdenotes, hlists⟩
  rcases hlists {} (Interner.le_refl _) hroom with ⟨listed, m', heq, hlists, _⟩
  rw [hpending] at heq
  cases heq
  exact ⟨hreached, goal, rest, hdenotes, hlists⟩

/--
The listing names the variables of each frame apart. A name can stand for two variables only in goals of
different frames, and then it is that of a variable without address in the older one.
-/
theorem Reached.pendingGoals_names (hprogram : env.program = (({} : Program).compile items).2)
    (hplugins : env.plugins = tables.map FactTable.plugin) (hitem : items[i]? = some (.query goals))
    (hstart : (({} : Program).compile items).1[i]? = some (.ok (some start)))
    (hsize : env.program.size < Signature.arityBound) (h : Reached env start symbols s)
    (hfailed : s.failed = false) (hcompleted : s.completed = false)
    : ∃ goal, s.Denotes env.program symbols goal (s.calls.flatMap (s.frameGoals env.program symbols)) ∧
        (∀ m : Machine, symbols ≤ m.symbols → m.HasRoom (env.constants tables) →
          ∃ m', env.pendingGoals s m =
            .ok (goal.listed Place.addr :: s.calls.flatMap (s.listedGoals env.program symbols)) m') ∧
        Set.InjOn Place.addr (placesOf [goal]) ∧
        (∀ frame ∈ s.calls,
          Set.InjOn (s.names env.program symbols frame)
              (placesOf (s.frameGoals env.program symbols frame)) ∧
            NamedApart Place.addr (s.names env.program symbols frame) [goal]
              (s.frameGoals env.program symbols frame)) ∧
        s.calls.Pairwise fun newer older =>
          NamedApart (s.names env.program symbols newer) (s.names env.program symbols older)
            (s.frameGoals env.program symbols newer) (s.frameGoals env.program symbols older) := by
  rcases h.exists_waiting hprogram hplugins hitem hstart hsize hfailed hcompleted with
    ⟨sig, l, ls, hwaiting⟩
  have hdenotes := hwaiting.denotes
  rw [hdenotes.rest_eq] at hdenotes
  refine ⟨_, hdenotes, ?_, injOn_awaited, ?_, ?_⟩
  . intro m hle hroom
    rcases hwaiting.pendingGoals_eq (env.interns_constants hplugins) hsize hle hroom with ⟨m', heq, _⟩
    exact ⟨m', heq⟩
  . intro frame hframe
    rw [hwaiting.calls_eq] at hframe
    rcases List.mem_map.mp hframe with ⟨l', hl', heq⟩
    rw [← heq]
    exact ⟨(hwaiting.stack.ok hl').names_injOn hwaiting.valid (hwaiting.heapSize_le hl'),
      namedApart_awaited _⟩
  . rw [hwaiting.calls_eq]
    exact hwaiting.stack.pairwise_namedApart hwaiting.valid (hwaiting.heapSize_le List.mem_cons_self)

end Reached

namespace Sample

def twoGoals : List Item :=
  [.clause ⟨⟨"p", []⟩, [⟨"q", []⟩, ⟨"r", [.var "Z"]⟩], []⟩,
    .query [⟨"p", []⟩, ⟨"s", [.var "Y"]⟩]]

def twoGoalsEnv : Environment where
  program := (({} : Program).compile twoGoals).2

def before : State where
  registers := #[none]
  calls := [⟨0, 1, 9, none⟩]
  pc := none
  jumpTo := some "p/0"

def between : State where
  registers := #[none, none]
  calls := [⟨0, 2, 4, some "p/0"⟩, ⟨0, 1, 9, none⟩]
  pc := none
  jumpTo := some "q/0"

theorem reached_between : Reached twoGoalsEnv 7 .empty between := by
  have hrun : twoGoalsEnv.run (some 7) false {} = .ok ∅ { state := before } := by decide +kernel
  have hlinks : twoGoalsEnv.outlinks before false {} =
      .ok [⟨none, between⟩] { state := between } := by decide +kernel
  have hlink : (⟨none, between⟩ : Outlink) ∈ [⟨none, between⟩] := List.mem_singleton_self _
  have hstarted : Reached twoGoalsEnv 7 .empty before := .start rfl hrun
  exact hstarted.step rfl rfl (Interner.le_refl _) hlinks hlink

theorem denotes_between
    : between.Denotes twoGoalsEnv.program .empty ⟨"q", []⟩
        [⟨"r", [.var (.slot 1)]⟩, ⟨"s", [.var (.slot 0)]⟩] := by
  constructor
  . rfl
  . rfl
  . rfl
  . decide
  . decide
  . decide
  . decide

end Sample

theorem Reached.pendingGoals_names_sample
    : Reached Sample.twoGoalsEnv 7 .empty Sample.between ∧
      (∃ m', Sample.twoGoalsEnv.pendingGoals Sample.between {} =
        .ok (⟨"q", []⟩ :: Sample.between.calls.flatMap
          (Sample.between.listedGoals Sample.twoGoalsEnv.program .empty)) m') ∧
      Sample.between.calls.Pairwise fun newer older =>
        NamedApart (Sample.between.names Sample.twoGoalsEnv.program .empty newer)
          (Sample.between.names Sample.twoGoalsEnv.program .empty older)
          (Sample.between.frameGoals Sample.twoGoalsEnv.program .empty newer)
          (Sample.between.frameGoals Sample.twoGoalsEnv.program .empty older) := by
  have hstart : (({} : Program).compile Sample.twoGoals).1[1]? = some (.ok (some 7)) := by decide
  have hroom : ({} : Machine).HasRoom (Sample.twoGoalsEnv.constants []) := by
    apply Interner.room_of_length
    decide
  have hplugins : Sample.twoGoalsEnv.plugins = ([] : List FactTable).map FactTable.plugin := rfl
  rcases pendingGoals_names (i := 1) rfl hplugins rfl hstart (by decide)
    Sample.reached_between rfl rfl with ⟨goal, hdenotes, hlisted, _, _, hapart⟩
  have hgoal := (Sample.denotes_between.unique hdenotes).1
  rw [hgoal] at hlisted
  exact ⟨Sample.reached_between, hlisted {} (Interner.le_refl _) hroom, hapart⟩

/--
The variables of the clause and of the query are different, and both get the name of the cell on which
either would be pushed.
-/
theorem pendingGoals_clash
    : Reached Sample.twoGoalsEnv 7 .empty Sample.between ∧
      Sample.between.Denotes Sample.twoGoalsEnv.program .empty ⟨"q", []⟩
        [⟨"r", [.var (.slot 1)]⟩, ⟨"s", [.var (.slot 0)]⟩] ∧
      Sample.twoGoalsEnv.pendingGoals Sample.between {} =
        .ok [⟨"q", []⟩, ⟨"r", [.var 0]⟩, ⟨"s", [.var 0]⟩] {} :=
  ⟨Sample.reached_between, Sample.denotes_between, by decide +kernel⟩

end HornMachine
