import HornMachine.Proofs.Run.Resume

/-!
This module contains the names under which the variables of a call stack are listed, call after call, if no
answer binds any of them. A variable on the heap has its canonical address as name, and a variable without
address that of the cell which is going to be pushed for it.
-/

namespace HornMachine

def Atom.goal (atom : Atom Argument) : Goal :=
  ⟨atom.functor, atom.args⟩

namespace Level

/--
The cell that is going to be pushed for a variable without address. The arguments of a call that is answered
stay on the heap, so those of all literals that a level has left come to lie one behind the other.
-/
def place (l : Level) (name : String) : Nat :=
  l.frame.heapSize + (l.todo.flatMap Literal.args).idxOf (.var name)

def argument (symbols : SymbolTable) (s : State) (l : Level) : String → Argument :=
  fun name => l.assign ⟨s.heap.value symbols Argument.var, fun _ => .var (l.place name)⟩ s.registers name

def listing (symbols : SymbolTable) (s : State) (l : Level) : List Goal :=
  l.todo.map fun lit => (lit.inst (l.argument symbols s)).goal

def listings (symbols : SymbolTable) (s : State) (ls : List Level) : List Goal :=
  ls.flatMap (listing symbols s)

section Argument

variable {program : Program} {symbols symbols' : SymbolTable} {s s' : State} {l : Level}
  {ls : List Level} {name : String}

theorem argument_set {addr : Nat}
    (h : s.registers[slotOf l.vars l.frame.registerCount name]? = some (some addr))
    : l.argument symbols s name = s.heap.value symbols Argument.var addr :=
  Valuation.read_set h

theorem argument_unset (h : s.registers[slotOf l.vars l.frame.registerCount name]? = some none)
    : l.argument symbols s name = .var (l.place name) :=
  Valuation.read_unset h

theorem listing_congr (hok : l.Ok program s.registers)
    (h : ∀ name ∈ l.vars, l.argument symbols' s' name = l.argument symbols s name)
    : l.listing symbols' s' = l.listing symbols s := by
  apply List.map_congr_left
  intro lit hlit
  congr 1
  apply Literal.inst_congr
  intro name hname
  exact h name (hok.mem_vars lit hlit name hname)

theorem Stack.listings_eq (h : Stack program s.registers ls)
    (hregs : ∀ i < registerTop ls, s'.registers[i]? = s.registers[i]?)
    (hcell : ∀ addr < heapTop ls,
      s'.heap.value symbols' Argument.var addr = s.heap.value symbols Argument.var addr)
    : listings symbols' s' ls = listings symbols s ls := by
  apply List.flatMap_congr
  intro l hl
  apply listing_congr (h.ok hl)
  intro name hname
  exact h.assign_eq ⟨_, fun _ => .var (l.place name)⟩ ⟨_, fun _ => .var (l.place name)⟩ hregs hcell
    (fun _ _ => rfl) l hl name hname

end Argument

end Level

open Level

section Called

variable {program : Program} {m m₁ : Machine} {l : Level} {ls : List Level} {lit : Literal}
  {todo : List Literal} {pc : Nat} (h : Ready program m.symbols m.state l ls)
  (htodo : l.todo = lit :: todo) (hadv : Advances l.vars (lit.vars ++ l.seen) pc m m₁)
  (hpushes : Pushes l.vars lit.args m m₁)
include h htodo hadv hpushes

theorem Ready.argument_called (hplaces : Places l.vars lit.args m m₁) {name : String}
    (hname : name ∈ l.vars)
    : (calledLevel l lit todo m₁.state pc).argument m₁.symbols m₁.state name =
      l.argument m.symbols m.state name := by
  have hscope := (h.stack.ok List.mem_cons_self).scope
  rw [← h.registers_size, ← h.heap_size] at hscope
  have hargument (addr : Nat)
      (hreg : m₁.state.registers[slotOf l.vars m.state.registers.size name]? = some (some addr))
      : (calledLevel l lit todo m₁.state pc).argument m₁.symbols m₁.state name =
        m₁.state.heap.value m₁.symbols Argument.var addr := by
    rw [← hadv.registers_size] at hreg
    exact argument_set hreg
  -- a variable without address is listed under the cell that the call pushes for it
  by_cases hseen : name ∈ l.seen
  . rcases hscope.set name hname hseen with ⟨addr, hlt, hreg⟩
    rw [hargument addr (hadv.keeps _ _ hreg),
      hpushes.below.value_eq h.valid hadv.valid hadv.symbols_le Argument.var hlt]
    rw [h.registers_size] at hreg
    exact (argument_set hreg).symm
  . have hunset := hscope.unset name hname hseen
    have hplace : l.argument m.symbols m.state name = .var (l.place name) := by
      rw [h.registers_size] at hunset
      exact argument_unset hunset
    rw [hplace, place, htodo, List.flatMap_cons, ← h.heap_size]
    by_cases hmem : .var name ∈ lit.args
    . rcases hplaces.placed name hname hmem hunset with ⟨hreg, hfree⟩
      rw [hargument _ hreg, hadv.valid.closed.value_free _ hfree, List.idxOf_append_of_mem hmem]
    . have hkept := (hplaces.kept name hname hmem).trans hunset
      rw [← hadv.registers_size] at hkept
      have hargument' : (calledLevel l lit todo m₁.state pc).argument m₁.symbols m₁.state name =
          .var (m₁.state.heap.size + (todo.flatMap Literal.args).idxOf (.var name)) :=
        argument_unset hkept
      rw [hargument', hpushes.size_eq, List.idxOf_append_of_notMem hmem, Nat.add_assoc]

theorem Ready.listings_called (hplaces : Places l.vars lit.args m m₁)
    : listings m.symbols m.state (l :: ls) =
      (awaited m₁.state lit.signature (m₁.state.heap.value m₁.symbols Argument.var)).goal ::
        listings m₁.symbols m₁.state (calledLevel l lit todo m₁.state pc :: ls) := by
  have hargument : ∀ name ∈ l.vars,
      (calledLevel l lit todo m₁.state pc).argument m₁.symbols m₁.state name =
        l.argument m.symbols m.state name :=
    fun name hname => h.argument_called htodo hadv hpushes hplaces hname
  rcases h.stack with _ | ⟨hlevel, hcount, hheap, hrest⟩
  have hinst : ∀ lit' ∈ l.todo,
      lit'.inst ((calledLevel l lit todo m₁.state pc).argument m₁.symbols m₁.state) =
        lit'.inst (l.argument m.symbols m.state) := by
    intro lit' hlit'
    apply Literal.inst_congr
    intro name hname
    exact hargument name (hlevel.mem_vars lit' hlit' name hname)
  have hagrees : Agrees l.vars m₁ (m₁.state.heap.value m₁.symbols Argument.var)
      ((calledLevel l lit todo m₁.state pc).argument m₁.symbols m₁.state) :=
    fun name _ addr hreg => argument_set hreg
  have hargs := hpushes.cells_eq Argument _ _ (hadv.valid.closed.models_value Argument.var) hagrees
  have hawaited : awaited m₁.state lit.signature (m₁.state.heap.value m₁.symbols Argument.var) =
      lit.inst (l.argument m.symbols m.state) := by
    rw [← hinst lit (by simp [htodo]), Literal.inst, awaited, hpushes.size_eq]
    simp only [Literal.signature, Nat.add_sub_cancel, hargs]
  have hrest' : listings m₁.symbols m₁.state ls = listings m.symbols m.state ls := by
    have htop := h.registers_size
    have hbottom := h.heap_size
    apply hrest.listings_eq
    . intro i hi
      exact hadv.below i (by omega)
    . intro addr haddr
      exact hpushes.below.value_eq h.valid hadv.valid hadv.symbols_le Argument.var (by omega)
  have hcalled : (calledLevel l lit todo m₁.state pc).listing m₁.symbols m₁.state =
      todo.map fun lit => (lit.inst (l.argument m.symbols m.state)).goal := by
    apply List.map_congr_left
    intro lit' hlit'
    rw [hinst lit' (by simp [htodo, show lit' ∈ todo from hlit'])]
  rw [listings, listings, List.flatMap_cons, List.flatMap_cons, listing, htodo, List.map_cons, hawaited,
    hcalled]
  show _ :: _ ++ listings m.symbols m.state ls = _ :: (_ ++ listings m₁.symbols m₁.state ls)
  rw [hrest', List.cons_append]

end Called

theorem listings_leave {program : Program} {symbols : SymbolTable} {s : State} {l : Level}
    {ls : List Level} (hvalid : s.heap.Valid symbols) (hstack : Stack program s.registers (l :: ls))
    (hcalls : s.calls = (l :: ls).map Level.frame) (hheap : l.frame.heapSize ≤ s.heap.size)
    : listings symbols s.leave (l :: ls) = listings symbols s (l :: ls) := by
  rw [leave_eq hcalls]
  apply hstack.listings_eq
  . exact fun i hi => getElem?_take_registers hi
  . intro addr haddr
    have hbelow : Heap.Below (s.heap.take l.frame.heapSize) s.heap := by
      intro addr' haddr'
      rw [Heap.getElem?_take, if_pos]
      simp only [Array.take_eq_extract, Array.size_extract] at haddr'
      omega
    rw [heapTop] at haddr
    apply (hbelow.value_eq (hvalid.take _) hvalid (Interner.le_refl _) Argument.var _).symm
    simp only [Array.take_eq_extract, Array.size_extract]
    omega

def ListsNext (program : Program) (symbols : SymbolTable) (s : State) (goals : List Goal) : Prop :=
  ∃ sig l ls, Waiting program symbols s sig l ls ∧
    goals = (awaited s sig (s.heap.value symbols Argument.var)).goal :: listings symbols s (l :: ls)

section Resume

variable {program : Program} {gather : Nat → Exec (List Goal)} {computeFeatures : Bool} {m : Machine}
  {l : Level} {ls : List Level}

theorem Ready.listsNext {lit : Literal} {todo : List Literal}
    (h : Ready program m.symbols m.state l ls) (htodo : l.todo = lit :: todo)
    (hrun : Unexhausted (program.runOn gather computeFeatures m))
    : ∃ m', program.runOn gather computeFeatures m = .ok ∅ m' ∧ m.symbols ≤ m'.symbols ∧
        ListsNext program m'.symbols m'.state (listings m.symbols m.state (l :: ls)) := by
  rcases h.runOn_literal htodo hrun with ⟨m₁, pc, heq, hadv, hpushes, hplaces, hwaiting⟩
  have hlistings := h.listings_called htodo hadv hpushes hplaces
  exact ⟨_, heq, hadv.symbols_le, _, _, _, hwaiting, hlistings⟩

theorem Ready.resume_listings (h : Ready program m.symbols m.state l ls)
    (hrun : Unexhausted (program.runOn gather computeFeatures m))
    : ∃ m', program.runOn gather computeFeatures m = .ok ∅ m' ∧ m.symbols ≤ m'.symbols ∧
        ((m'.state.completed = true ∧ listings m.symbols m.state (l :: ls) = []) ∨
          ListsNext program m'.symbols m'.state (listings m.symbols m.state (l :: ls))) := by
  induction ls generalizing m l with
  | nil =>
    match htodo : l.todo with
    | [] =>
      refine ⟨_, (h.completes htodo).1, Interner.le_refl _, .inl ⟨rfl, ?_⟩⟩
      simp [listings, listing, htodo]
    | lit :: todo =>
      rcases h.listsNext htodo hrun with ⟨m', heq, hle, hnext⟩
      exact ⟨m', heq, hle, .inr hnext⟩
  | cons l' ls ih =>
    match htodo : l.todo with
    | [] =>
      rcases h.stack with _ | ⟨_, _, hheap, hrest⟩
      have hle : l'.frame.heapSize ≤ m.state.heap.size := by
        rw [h.heap_size]
        exact hheap
      have hrun' : program.runOn gather computeFeatures m =
          program.runOn gather computeFeatures { m with state := m.state.leave } := h.runOn_return htodo
      have hlistings : listings m.symbols m.state (l :: l' :: ls) =
          listings m.symbols m.state.leave (l' :: ls) := by
        rw [listings_leave h.valid hrest h.calls_eq hle]
        simp [listings, listing, htodo]
      rw [hrun'] at hrun ⊢
      rw [hlistings]
      have hready := ready_leave h.runsAt.failed_eq h.runsAt.completed_eq h.valid hrest h.calls_eq hle
      exact ih (m := { m with state := m.state.leave }) hready hrun
    | lit :: todo =>
      rcases h.listsNext htodo hrun with ⟨m', heq, hle, hnext⟩
      exact ⟨m', heq, hle, .inr hnext⟩

end Resume

end HornMachine
