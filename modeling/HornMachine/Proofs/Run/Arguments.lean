import HornMachine.Proofs.Run.Advance

/-!
This module contains the run through the arguments of a call. It puts cells with the values of the
arguments on top of the heap and leaves the cells below alone. A variable that has no address yet gets that
of the first cell that is pushed for it.
-/

namespace HornMachine

namespace Heap

def Below (heap heap' : Heap) : Prop :=
  ∀ addr < heap.size, heap'[addr]? = heap[addr]?

theorem below_push (heap : Heap) (cell : Cell) : heap.Below (heap.push cell) := by
  intro addr haddr
  rw [Array.getElem?_push, if_neg (by omega)]

theorem Below.models [Domain D] {symbols symbols' : SymbolTable} {heap heap' : Heap} {v : Nat → D}
    (hbelow : heap.Below heap') (hle : symbols ≤ symbols') (hv : heap'.Models symbols' v)
    : heap.Models symbols v := by
  apply Models.mono hle
  intro addr cell hcell
  apply hv
  rw [hbelow addr (Array.getElem?_eq_some_iff.mp hcell).1]
  exact hcell

theorem Below.leads {heap heap' : Heap} {addr root : Nat} (hbelow : heap.Below heap')
    (h : heap.Leads addr root) : heap'.Leads addr root := by
  induction h with
  | free h => exact (Leads.free h).self_congr (hbelow _ (Leads.free h).lt_size)
  | const h => exact (Leads.const h).self_congr (hbelow _ (Leads.const h).lt_size)
  | step hcell hne h ih =>
    apply Leads.step _ hne ih
    rw [hbelow _ (Leads.step hcell hne h).lt_size]
    exact hcell

theorem Below.value_eq [Domain D] {symbols symbols' : SymbolTable} {heap heap' : Heap} {addr : Nat}
    (hbelow : heap.Below heap') (hvalid : heap.Valid symbols) (hvalid' : heap'.Valid symbols')
    (hle : symbols ≤ symbols') (free : Nat → D) (haddr : addr < heap.size)
    : heap'.value symbols' free addr = heap.value symbols free addr := by
  rcases hvalid.exists_root haddr with ⟨root, hroot, hleads⟩
  rw [← hvalid.closed.value_mono hle]
  simp only [value, hvalid'.root_eq (hbelow.leads hleads), hroot, hbelow root hleads.root_lt_size]

end Heap

/--
Cells with the values of `args` are put on the heap. Each model of the earlier heap extends to the later
one without a change of what is read from the registers.
-/
structure Pushes (vars : List String) (args : List Term) (m m' : Machine) : Prop where
  size_eq : m'.state.heap.size = m.state.heap.size + args.length
  below : m.state.heap.Below m'.state.heap
  cells_eq : ∀ (D : Type) [Domain D] (v : Nat → D) (assign : String → D),
    m'.state.heap.Models m'.symbols v → Agrees vars m' v assign →
      cells v m.state.heap.size args.length = args.map (Term.eval assign)
  exists_models : ∀ (D : Type) [Domain D] (val : Valuation D),
    m.state.heap.Models m.symbols val.cell →
      ∃ val' : Valuation D, m'.state.heap.Models m'.symbols val'.cell ∧ val'.slot = val.slot ∧
        (∀ addr < m.state.heap.size, val'.cell addr = val.cell addr) ∧
        ∀ name ∈ vars, val'.assign m'.state.registers vars m'.state.registers.size name =
          val.assign m.state.registers vars m.state.registers.size name

namespace Pushes

variable {vars : List String} {m m' m'' : Machine} {arg : Term} {args : List Term}

theorem refl : Pushes vars [] m m where
  size_eq := rfl
  below _ _ := rfl
  cells_eq _ _ _ _ _ _ := rfl
  exists_models _ _ val hv := ⟨val, hv, rfl, fun _ _ => rfl, fun _ _ => rfl⟩

theorem cons {seen : List String} {pc : Nat} (h : Pushes vars [arg] m m')
    (hadv : Advances vars seen pc m' m'') (h' : Pushes vars args m' m'')
    : Pushes vars (arg :: args) m m'' where
  size_eq := by
    rw [h'.size_eq, h.size_eq, List.length_singleton, List.length_cons]
    omega
  below := by
    intro addr haddr
    rw [h'.below addr (by rw [h.size_eq]; omega), h.below addr haddr]
  cells_eq := by
    -- what is pushed later leaves the first cell and the registers with an address alone
    intro D _ v assign hv hagrees
    have hcell := h.cells_eq D v assign (h'.below.models hadv.symbols_le hv) (hadv.agrees hagrees)
    have hcells := h'.cells_eq D v assign hv hagrees
    rw [h.size_eq, List.length_singleton] at hcells
    rw [List.length_singleton, cells_succ, cells_zero, List.map_cons, List.map_nil,
      List.cons.injEq] at hcell
    rw [List.length_cons, cells_succ, List.map_cons, hcell.1, hcells]
  exists_models := by
    intro D _ val hv
    rcases h.exists_models D val hv with ⟨val', hv', hslot', hcell', hassign'⟩
    rcases h'.exists_models D val' hv' with ⟨val'', hv'', hslot'', hcell'', hassign''⟩
    refine ⟨val'', hv'', hslot''.trans hslot', ?_, ?_⟩
    . intro addr haddr
      rw [hcell'' addr (by rw [h.size_eq]; omega), hcell' addr haddr]
    . intro name hname
      rw [hassign'' name hname, hassign' name hname]

theorem of_push {cell : Cell} (hvalid : m.state.heap.Valid m.symbols)
    (hle : m.symbols ≤ m'.symbols) (hheap : m'.state.heap = m.state.heap.push cell)
    (heval : ∀ (D : Type) [Domain D] (v : Nat → D) (assign : String → D),
      m.state.heap.Models m'.symbols v → Agrees vars m' v assign →
        cell.Holds m'.symbols v m.state.heap.size → v m.state.heap.size = arg.eval assign)
    (hexists : ∀ (D : Type) [Domain D] (val : Valuation D), m.state.heap.Models m.symbols val.cell →
      ∃ x, cell.Holds m'.symbols (val.extend m.state.heap.size x).cell m.state.heap.size ∧
        ∀ name ∈ vars,
          (val.extend m.state.heap.size x).assign m'.state.registers vars m'.state.registers.size name =
            val.assign m.state.registers vars m.state.registers.size name)
    : Pushes vars [arg] m m' where
  size_eq := by simp [hheap]
  below := by
    rw [hheap]
    exact Heap.below_push _ _
  cells_eq := by
    intro D _ v assign hv hagrees
    rw [hheap, Heap.models_push] at hv
    rw [List.length_singleton, cells_succ, cells_zero, List.map_singleton,
      heval D v assign hv.1 hagrees hv.2]
  exists_models := by
    intro D _ val hv
    rcases hexists D val hv with ⟨x, hx, hassign⟩
    refine ⟨val.extend m.state.heap.size x, ?_, rfl, fun _ => Valuation.extend_lt x, hassign⟩
    rw [hheap, Heap.models_push]
    refine ⟨hvalid.closed.models_mono hle (hvalid.models_congr ?_ hv), hx⟩
    intro addr haddr
    exact Valuation.extend_lt x haddr

end Pushes

/--
A variable without an address gets that of a free cell, the one that is pushed for the first of `args` that
it is. The registers of variables that are not in `args` are left alone.
-/
structure Places (vars : List String) (args : List Term) (m m' : Machine) : Prop where
  kept : ∀ name ∈ vars, .var name ∉ args →
    m'.state.registers[slotOf vars m.state.registers.size name]? =
      m.state.registers[slotOf vars m.state.registers.size name]?
  placed : ∀ name ∈ vars, .var name ∈ args →
    m.state.registers[slotOf vars m.state.registers.size name]? = some none →
      m'.state.registers[slotOf vars m.state.registers.size name]? =
          some (some (m.state.heap.size + args.idxOf (.var name))) ∧
        m'.state.heap.IsFree (m.state.heap.size + args.idxOf (.var name))

namespace Places

variable {vars : List String} {m m' m'' : Machine} {arg : Term} {args : List Term}

theorem refl : Places vars [] m m where
  kept _ _ _ := rfl
  placed _ _ hmem := by contradiction

theorem cons {seen seen' : List String} {pc pc' : Nat} (h : Places vars [arg] m m')
    (hadv : Advances vars seen pc m m') (hpushes : Pushes vars [arg] m m') (h' : Places vars args m' m'')
    (hadv' : Advances vars seen' pc' m' m'') (hpushes' : Pushes vars args m' m'')
    : Places vars (arg :: args) m m'' where
  kept := by
    intro name hname hmem
    simp only [List.mem_cons, not_or] at hmem
    have hlater := h'.kept name hname hmem.2
    rw [hadv.registers_size] at hlater
    rw [hlater, h.kept name hname (by simpa using hmem.1)]
  placed := by
    intro name hname hmem hunset
    by_cases heq : arg = .var name
    . rcases h.placed name hname (by simp [heq]) hunset with ⟨hset, hfree⟩
      rw [heq, List.idxOf_cons_self, Nat.add_zero] at hset hfree ⊢
      refine ⟨hadv'.keeps _ _ hset, ?_⟩
      rw [Heap.IsFree, hpushes'.below]
      . exact hfree
      . rw [hpushes.size_eq, List.length_singleton]
        omega
    . have hmem' : .var name ∈ args := (List.mem_cons.mp hmem).resolve_left (Ne.symm heq)
      have hkept := h.kept name hname (by simpa using Ne.symm heq)
      have hindex : m'.state.heap.size + args.idxOf (.var name) =
          m.state.heap.size + (arg :: args).idxOf (.var name) := by
        rw [hpushes.size_eq, List.length_singleton, List.idxOf_cons_ne args heq]
        omega
      have hplaced := h'.placed name hname hmem'
      rw [hadv.registers_size, hindex] at hplaced
      exact hplaced (hkept.trans hunset)

theorem of_registers (hregs : m'.state.registers = m.state.registers)
    (hset : ∀ name ∈ vars, .var name ∈ args →
      m.state.registers[slotOf vars m.state.registers.size name]? ≠ some none)
    : Places vars args m m' where
  kept _ _ _ := by rw [hregs]
  placed name hname hmem hunset := absurd hunset (hset name hname hmem)

theorem of_register {name : String} (hname : name ∈ vars)
    (hlen : vars.length ≤ m.state.registers.size)
    (hset : RegisterSet m.state.registers (slotOf vars m.state.registers.size name) m.state.heap.size
      m'.state.registers)
    (hfree : m'.state.heap.IsFree m.state.heap.size) : Places vars [.var name] m m' where
  kept := by
    intro name' hname' hmem
    rw [hset.getElem?_eq, if_neg]
    intro hslot
    apply hmem
    rw [slotOf_inj hlen hname' hname hslot]
    exact List.mem_singleton_self _
  placed := by
    intro name' _ hmem _
    have heq : name' = name := by simpa using hmem
    rw [heq, List.idxOf_cons_self, Nat.add_zero, hset.getElem?_eq, if_pos rfl]
    exact ⟨rfl, hfree⟩

end Places

section First

variable {program : Program} {gather : Nat → Exec (List Goal)} {computeFeatures : Bool}
  {vars seen : List String} {m : Machine} {pc : Nat} {name : String}
  (hat : m.state.RunsAt pc) (hvalid : m.state.heap.Valid m.symbols)
  (hscope : Scope vars seen m.state.registers m.state.registers.size m.state.heap.size)
include hat hvalid hscope

theorem runOn_pushConst (hinstr : program.code[pc]? = some (.pushConst name))
    (hrun : Unexhausted (program.runOn gather computeFeatures m))
    : ∃ m', program.runOn gather computeFeatures m = program.runOn gather computeFeatures m' ∧
        Advances vars seen (pc + 1) m m' ∧ Pushes vars [.const name] m m' ∧
        Places vars [.const name] m m' := by
  have hexec : execute gather computeFeatures (.pushConst name) m =
      execute.stepping (Exec.update (·.pushConst name)) m := by
    rw [execute_eq_whole]
    rfl
  match hintern : m.symbols.intern name with
  | .error fault =>
    exfalso
    have hf : m.pushConst name = .error fault := by
      simp only [Machine.pushConst, hintern, bind, Except.bind]
    apply hrun m.symbols.size m
    apply Program.runOn_fault hat hinstr
    rw [hexec, execute.stepping_update_fault hf, Interner.intern_eq_error hintern]
  | .ok (id, symbols) =>
    have hle := Interner.intern_le hintern
    have hid := Interner.get?_intern hintern
    have hf : m.pushConst name =
        .ok { m with symbols := symbols, state := m.state.push (.const id) } := by
      simp only [Machine.pushConst, hintern, bind, Except.bind]
      rfl
    refine ⟨_, Program.runOn_update hat hinstr hexec hf, ?_, ?_, .of_registers rfl (by simp)⟩
    . apply Advances.of_heap hat hscope (by simp) hle
      apply (hvalid.mono hle).push
      . simp
      . intro id' heq
        cases heq
        exact ⟨name, hid⟩
    . refine Pushes.of_push hvalid hle rfl ?_ ?_
      . intro D _ v assign _ _ hlast
        exact hlast name hid
      . intro D _ val hv
        refine ⟨Domain.const name, ?_, ?_⟩
        . intro name' hid'
          rw [hid] at hid'
          cases hid'
          exact Valuation.extend_self _
        . intro name' hname'
          exact hscope.assign_congr hname' rfl (fun _ => Valuation.extend_lt _) rfl

variable (gather computeFeatures) in
theorem runOn_pushBoundVar (hinstr : program.code[pc]? = some (.pushBoundVar (Code.register vars name)))
    (hname : name ∈ vars) (hseen : name ∈ seen)
    : ∃ m', program.runOn gather computeFeatures m = program.runOn gather computeFeatures m' ∧
        Advances vars seen (pc + 1) m m' ∧ Pushes vars [.var name] m m' ∧
        Places vars [.var name] m m' := by
  have hexec : execute gather computeFeatures (.pushBoundVar (Code.register vars name)) m =
      execute.stepping (Exec.update (·.pushBoundVar (Code.register vars name))) m := by
    rw [execute_eq_whole]
    rfl
  rcases hscope.set name hname hseen with ⟨addr, hlt, hreg⟩
  rcases hvalid.exists_root hlt with ⟨root, hroot, hleads⟩
  have hle := hvalid.root_le hleads
  have hf : m.pushBoundVar (Code.register vars name) =
      .ok { m with state := m.state.push (.ref root) } := by
    simp only [Machine.pushBoundVar, hscope.register_eq hname hreg, hroot, bind, Except.bind]
    rfl
  refine ⟨_, Program.runOn_update hat hinstr hexec hf, ?_, ?_, .of_registers rfl ?_⟩
  . apply Advances.of_heap hat hscope (by simp) (Interner.le_refl _)
    apply hvalid.push
    . intro target heq
      cases heq
      omega
    . simp
  . refine Pushes.of_push hvalid (Interner.le_refl _) rfl ?_ ?_
    . intro D _ v assign hv hagrees hlast
      rw [Term.eval, hagrees name hname addr hreg, hleads.eq_of_models hv]
      exact hlast
    . intro D _ val hv
      refine ⟨val.cell root, ?_, ?_⟩
      . show (val.extend _ _).cell _ = (val.extend _ _).cell _
        rw [Valuation.extend_self, Valuation.extend_lt _ hleads.root_lt_size]
      . intro name' hname'
        exact hscope.assign_congr hname' rfl (fun _ => Valuation.extend_lt _) rfl
  . intro name' _ hmem
    have heq : name' = name := by simpa using hmem
    rw [heq, hreg]
    simp

variable (gather computeFeatures) in
theorem runOn_pushFreeVar (hinstr : program.code[pc]? = some (.pushFreeVar (Code.register vars name)))
    (hname : name ∈ vars) (hseen : name ∉ seen)
    : ∃ m', program.runOn gather computeFeatures m = program.runOn gather computeFeatures m' ∧
        Advances vars (name :: seen) (pc + 1) m m' ∧ Pushes vars [.var name] m m' ∧
        Places vars [.var name] m m' := by
  have hgrown := hscope.mono (Nat.le_succ m.state.heap.size)
  rcases hgrown.exists_setRegister (s := m.state.pushFree) hname m.state.heap.size with
    ⟨registers', hset, hregs⟩
  replace hregs : RegisterSet m.state.registers (slotOf vars m.state.registers.size name)
      m.state.heap.size registers' := hregs
  have hlt : m.state.heap.size < (m.state.heap.push (.ref m.state.heap.size)).size := by simp
  have hpush : Heap.Valid m.symbols (m.state.heap.push (.ref m.state.heap.size)) := by
    apply hvalid.push
    . intro target heq
      cases heq
      exact Nat.le_refl _
    . simp
  have hexec : execute gather computeFeatures (.pushFreeVar (Code.register vars name)) m =
      .ok ∅ { m with state := { m.state.pushFree with registers := registers' }.advance } := by
    show execute.stepping (Exec.pushFreeVar _) m = _
    simp only [execute.stepping, Exec.pushFreeVar, Exec.setRegister, bind, EStateM.bind,
      Exec.onState_apply, Exec.get_apply, Exec.update, Except.bind, hset]
    rfl
  refine ⟨_, Program.runOn_step hat hinstr hexec, ?_, ?_,
    .of_register hname hscope.length_le hregs Array.getElem?_push_size⟩
  . exact .of_register hat hscope (Nat.le_of_lt hlt) hname hseen hpush hlt hregs
  . refine Pushes.of_push hvalid (Interner.le_refl _) rfl ?_ ?_
    . intro D _ v assign _ hagrees _
      rw [Term.eval, hagrees name hname m.state.heap.size]
      show registers'[slotOf vars registers'.size name]? = _
      rw [hregs.size_eq, hregs.getElem?_eq, if_pos rfl]
    . intro D _ val _
      -- the new cell is free, so it can have the value that the variable had without an address
      refine ⟨val.slot (slotOf vars m.state.registers.size name), rfl, ?_⟩
      intro name' hname'
      show (val.extend _ _).assign registers' vars registers'.size name' = _
      rw [hregs.size_eq]
      exact hscope.assign_extend hname hseen hname' hregs

theorem runOn_arguments_cons {arg : Term} {args : List Term}
    (hcode : program.Has pc (Code.arguments vars seen (arg :: args)))
    (hvars : ∀ name, .var name ∈ arg :: args → name ∈ vars)
    (hrun : Unexhausted (program.runOn gather computeFeatures m))
    : ∃ seen' m', program.runOn gather computeFeatures m = program.runOn gather computeFeatures m' ∧
        Advances vars seen' (pc + 1) m m' ∧ Pushes vars [arg] m m' ∧ Places vars [arg] m m' ∧
        program.Has (pc + 1) (Code.arguments vars seen' args) ∧
        ∀ name ∈ vars, name ∈ args.filterMap Term.var? ++ seen' ↔
          name ∈ (arg :: args).filterMap Term.var? ++ seen := by
  cases arg with
  | const name =>
    rcases runOn_pushConst hat hvalid hscope hcode.head hrun with ⟨m', hrun', hadv, hpushes, hplaces⟩
    exact ⟨seen, m', hrun', hadv, hpushes, hplaces, hcode.tail, fun _ _ => Iff.rfl⟩
  | var name =>
    have hname : name ∈ vars := hvars name List.mem_cons_self
    by_cases hseen : name ∈ seen
    . simp only [Code.arguments, hseen, if_true] at hcode
      rcases runOn_pushBoundVar gather computeFeatures hat hvalid hscope hcode.head hname hseen with
        ⟨m', hrun', hadv, hpushes, hplaces⟩
      exact ⟨seen, m', hrun', hadv, hpushes, hplaces, hcode.tail, fun _ _ => mem_seen_of_seen args hseen⟩
    . simp only [Code.arguments, hseen, if_false] at hcode
      rcases runOn_pushFreeVar gather computeFeatures hat hvalid hscope hcode.head hname hseen with
        ⟨m', hrun', hadv, hpushes, hplaces⟩
      exact ⟨name :: seen, m', hrun', hadv, hpushes, hplaces, hcode.tail, fun _ _ => mem_seen_cons args⟩

end First

theorem length_arguments (vars seen : List String) (args : List Term)
    : (Code.arguments vars seen args).length = args.length := by
  induction args generalizing seen with
  | nil => rfl
  | cons arg args ih =>
    cases arg with
    | const _ => simp [Code.arguments, ih]
    | var _ =>
      unfold Code.arguments
      split
      . simp [ih]
      . simp [ih]

theorem runOn_arguments {program : Program} {gather : Nat → Exec (List Goal)} {computeFeatures : Bool}
    {vars seen : List String} {m : Machine} {pc : Nat} {args : List Term} (hat : m.state.RunsAt pc)
    (hcode : program.Has pc (Code.arguments vars seen args)) (hvalid : m.state.heap.Valid m.symbols)
    (hscope : Scope vars seen m.state.registers m.state.registers.size m.state.heap.size)
    (hvars : ∀ name, .var name ∈ args → name ∈ vars)
    (hrun : Unexhausted (program.runOn gather computeFeatures m))
    : ∃ m', program.runOn gather computeFeatures m = program.runOn gather computeFeatures m' ∧
        Advances vars (args.filterMap Term.var? ++ seen) (pc + args.length) m m' ∧
        Pushes vars args m m' ∧ Places vars args m m' := by
  induction args generalizing m pc seen with
  | nil => exact ⟨m, rfl, .refl hat hvalid hscope, .refl, .refl⟩
  | cons arg args ih =>
    have hpc : pc + 1 + args.length = pc + (arg :: args).length := by
      rw [List.length_cons]
      omega
    rcases runOn_arguments_cons hat hvalid hscope hcode hvars hrun with
      ⟨seen₁, m₁, hrun₁, hadv, hpushes, hplaces, hcode₁, hmem⟩
    rcases ih (hadv.runsAt hat) hcode₁ hadv.valid hadv.scope
      (fun name hname => hvars name (List.mem_cons_of_mem arg hname)) (hrun₁ ▸ hrun) with
      ⟨m', hrun', hadv', hpushes', hplaces'⟩
    refine ⟨m', ?_, (hadv.trans hadv').congr hmem hpc, hpushes.cons hadv' hpushes',
      hplaces.cons hadv hpushes hplaces' hadv' hpushes'⟩
    rw [hrun₁, hrun']

end HornMachine
