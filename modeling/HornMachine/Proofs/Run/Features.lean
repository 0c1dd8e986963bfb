import HornMachine.Proofs.Logic.Report
import HornMachine.Proofs.Run.Advance

/-!
This module contains the run through the features of a clause. It reports their instances, or stops with
a fault at the first variable without a value. Without features computed all of it is passed over.
-/

namespace HornMachine

namespace Machine

def groundAssign (m : Machine) (vars : List String) : String → String :=
  Valuation.assign ⟨m.state.heap.value m.symbols fun _ => "", fun _ => ""⟩ m.state.registers vars
    m.state.registers.size

def IsGround (m : Machine) (vars : List String) (name : String) : Prop :=
  ∃ addr root id : Nat,
    m.state.registers[slotOf vars m.state.registers.size name]? = some (some addr) ∧
      m.state.heap.Leads addr root ∧ m.state.heap.IsConst root id

def IsOpen (m : Machine) (vars : List String) (name : String) (root : Nat) : Prop :=
  ∃ addr : Nat,
    m.state.registers[slotOf vars m.state.registers.size name]? = some (some addr) ∧
      m.state.heap.Leads addr root ∧ m.state.heap.IsFree root

def fed (m : Machine) (stack : List Feature) (pc : Nat) : Machine :=
  { m with features := stack, state := { m.state with pc := some pc } }

variable {m : Machine} {vars seen : List String} {pc : Nat} {name : String}

theorem runsAt_fed (hat : m.state.RunsAt pc) (stack : List Feature) (pc' : Nat)
    : (m.fed stack pc').state.RunsAt pc' where
  pc_eq := rfl
  failed_eq := hat.failed_eq
  completed_eq := hat.completed_eq

theorem isGround_or_isOpen (hvalid : m.state.heap.Valid m.symbols)
    (hscope : Scope vars seen m.state.registers m.state.registers.size m.state.heap.size)
    (hname : name ∈ vars) (hseen : name ∈ seen)
    : m.IsGround vars name ∨ ∃ root, m.IsOpen vars name root := by
  rcases hscope.set name hname hseen with ⟨addr, hlt, hreg⟩
  rcases hvalid.exists_root hlt with ⟨root, _, hleads⟩
  rcases hleads.root_cases with hfree | ⟨id, hconst⟩
  . exact .inr ⟨root, addr, hreg, hleads, hfree⟩
  . exact .inl ⟨addr, root, id, hreg, hleads, hconst⟩

theorem IsGround.exists_const (h : m.IsGround vars name) (hvalid : m.state.heap.Valid m.symbols)
    : ∃ addr root id : Nat,
        m.state.registers[slotOf vars m.state.registers.size name]? = some (some addr) ∧
          m.state.heap.Leads addr root ∧ m.state.heap.IsConst root id ∧
          m.symbols.get? id = some (m.groundAssign vars name) := by
  rcases h with ⟨addr, root, id, hreg, hleads, hconst⟩
  rcases hvalid.named hconst with ⟨value, hid⟩
  have hv := hvalid.closed.models_value (D := String) fun _ => ""
  have hvalue : m.groundAssign vars name = value := by
    rw [groundAssign, Valuation.assign, Valuation.read_set hreg]
    show m.state.heap.value m.symbols (fun _ => "") addr = value
    rw [hleads.eq_of_models hv, hv.eq_const hconst hid]
    rfl
  rw [hvalue]
  exact ⟨addr, root, id, hreg, hleads, hconst, hid⟩

theorem IsGround.eq_const [Domain D] {v : Nat → D} {assign : String → D} (h : m.IsGround vars name)
    (hvalid : m.state.heap.Valid m.symbols) (hname : name ∈ vars)
    (hv : m.state.heap.Models m.symbols v) (hagrees : Agrees vars m v assign)
    : assign name = Domain.const (m.groundAssign vars name) := by
  rcases h.exists_const hvalid with ⟨addr, root, id, hreg, hleads, hconst, hid⟩
  rw [hagrees name hname addr hreg, hleads.eq_of_models hv, hv.eq_const hconst hid]

section Append

variable {feature : Feature} {stack : List Feature}
  (hscope : Scope vars seen m.state.registers m.state.registers.size m.state.heap.size)
  (hvalid : m.state.heap.Valid m.symbols) (hname : name ∈ vars)
include hscope hvalid hname

theorem appendRegister_fed_open {root : Nat} (h : m.IsOpen vars name root)
    : (m.fed (feature :: stack) pc).appendRegister (Code.register vars name) =
      .error (.notConstant root "fpushboundvar") := by
  rcases h with ⟨addr, hreg, hleads, hfree⟩
  have hreg := hscope.register_eq hname hreg
  unfold appendRegister
  show (m.state.register _ >>= fun addr => m.state.heap.root addr >>= fun root => _) = _
  simp only [hreg, bind, Except.bind, hvalid.root_eq hleads]
  show (m.state.heap.constantAt root >>= _) = _
  rw [Heap.constantAt_free hfree]
  rfl

theorem appendRegister_fed (h : m.IsGround vars name)
    : (m.fed (feature :: stack) pc).appendRegister (Code.register vars name) =
      .ok (m.fed (feature.append (.const (m.groundAssign vars name)) :: stack) pc) := by
  rcases h.exists_const hvalid with ⟨addr, root, id, hreg, hleads, hconst, hid⟩
  have hreg := hscope.register_eq hname hreg
  unfold appendRegister
  show (m.state.register _ >>= fun addr => m.state.heap.root addr >>= fun root => _) = _
  simp only [hreg, bind, Except.bind, hvalid.root_eq hleads]
  show (m.state.heap.constantAt root >>= _) = _
  rw [Heap.constantAt_const hconst]
  have hid : (m.fed (feature :: stack) pc).symbols.get? id = some (m.groundAssign vars name) := hid
  dsimp only [bind, Except.bind]
  rw [hid]
  rfl

end Append

end Machine

def Stuck (program : Program) (gather : Nat → Exec (List Goal)) (vars names : List String)
    (m m₀ : Machine) : Prop :=
  ∃ (before after : List String) (name : String) (root : Nat) (m' : Machine),
    names = before ++ name :: after ∧ (∀ name' ∈ before, m.IsGround vars name') ∧
      m.IsOpen vars name root ∧
      program.runOn gather true m₀ = .error (.notConstant root "fpushboundvar") m'

def Feeds (program : Program) (gather : Nat → Exec (List Goal)) (vars names : List String)
    (m m₀ m₁ : Machine) : Prop :=
  ((∀ name ∈ names, m.IsGround vars name) ∧
      program.runOn gather true m₀ = program.runOn gather true m₁) ∨
    Stuck program gather vars names m m₀

namespace Feeds

variable {program : Program} {gather : Nat → Exec (List Goal)} {vars names names' : List String}
  {m m₀ m₁ m₂ : Machine}

theorem of_eq (h : program.runOn gather true m₀ = program.runOn gather true m₁)
    : Feeds program gather vars [] m m₀ m₁ := by
  left
  exact ⟨by simp, h⟩

theorem trans (h : Feeds program gather vars names m m₀ m₁)
    (h' : Feeds program gather vars names' m m₁ m₂)
    : Feeds program gather vars (names ++ names') m m₀ m₂ := by
  rcases h with ⟨hground, hrun⟩ | ⟨before, after, name, root, m', heq, hground, hopen, hrun⟩
  . rcases h' with ⟨hground', hrun'⟩ | ⟨before, after, name, root, m', heq, hground', hopen, hrun'⟩
    . left
      constructor
      . intro name hname
        rcases List.mem_append.mp hname with hname | hname
        . exact hground name hname
        . exact hground' name hname
      . rw [hrun, hrun']
    . right
      refine ⟨names ++ before, after, name, root, m', ?_, ?_, hopen, ?_⟩
      . rw [heq, List.append_assoc]
      . intro name' hname'
        rcases List.mem_append.mp hname' with hname' | hname'
        . exact hground name' hname'
        . exact hground' name' hname'
      . rw [hrun, hrun']
  . right
    refine ⟨before, after ++ names', name, root, m', ?_, hground, hopen, hrun⟩
    rw [heq, List.append_assoc, List.cons_append]

theorem congr (h : Feeds program gather vars names m m₀ m₁) (hnames : names = names')
    (hm : m₁ = m₂) : Feeds program gather vars names' m m₀ m₂ := by
  rw [← hnames, ← hm]
  exact h

end Feeds

def Literal.feature (assign : String → String) (lit : Literal) : Feature :=
  ⟨lit.functor, lit.args.length, lit.args.map fun term => .const (term.eval assign)⟩

section Build

variable {program : Program} (gather : Nat → Exec (List Goal)) {vars seen : List String}
  {m : Machine} {pc : Nat} (stack : List Feature) (feature : Feature)
  (hat : m.state.RunsAt pc) (hvalid : m.state.heap.Valid m.symbols)
  (hscope : Scope vars seen m.state.registers m.state.registers.size m.state.heap.size)

include hat hvalid hscope in
theorem feeds_argument {pc' : Nat} {term : Term}
    (hinstr : program.code[pc']? = some (match term with
      | .const name => .fpushConst name
      | .var name => .fpushBoundVar (Code.register vars name)))
    (hvars : ∀ name, term = .var name → name ∈ vars ∧ name ∈ seen)
    : Feeds program gather vars term.var?.toList m (m.fed (feature :: stack) pc')
        (m.fed (feature.append (.const (term.eval (m.groundAssign vars))) :: stack) (pc' + 1)) := by
  have hat' := Machine.runsAt_fed hat (feature :: stack) pc'
  cases term with
  | const name =>
    have hexec : execute gather true (.fpushConst name) (m.fed (feature :: stack) pc') =
        execute.stepping (Exec.update (·.appendArgument (.const name) "fpushconst"))
          (m.fed (feature :: stack) pc') := by
      rw [execute_eq_whole]
      rfl
    apply Feeds.of_eq
    exact Program.runOn_update hat' hinstr hexec rfl
  | var name =>
    rcases hvars name rfl with ⟨hname, hseen⟩
    have hexec : execute gather true (.fpushBoundVar (Code.register vars name))
        (m.fed (feature :: stack) pc') = execute.stepping
          (Exec.update (·.appendRegister (Code.register vars name))) (m.fed (feature :: stack) pc') := by
      rw [execute_eq_whole]
      rfl
    rcases Machine.isGround_or_isOpen hvalid hscope hname hseen with hground | ⟨root, hopen⟩
    . left
      constructor
      . simpa [Term.var?] using hground
      . exact Program.runOn_update hat' hinstr hexec
          (Machine.appendRegister_fed hscope hvalid hname hground)
    . right
      refine ⟨[], [], name, root, m.fed (feature :: stack) pc', rfl, by simp, hopen, ?_⟩
      apply Program.runOn_fault hat' hinstr
      rw [hexec, execute.stepping_update_fault
        (Machine.appendRegister_fed_open hscope hvalid hname hopen)]

include hat hvalid hscope in
theorem feeds_arguments {pc' : Nat} {args : List Term}
    (hcode : program.Has pc' (args.map fun
      | .const name => .fpushConst name
      | .var name => .fpushBoundVar (Code.register vars name)))
    (hvars : ∀ name ∈ args.filterMap Term.var?, name ∈ vars ∧ name ∈ seen)
    : Feeds program gather vars (args.filterMap Term.var?) m (m.fed (feature :: stack) pc')
        (m.fed ({ feature with
            args := feature.args ++ args.map fun term => .const (term.eval (m.groundAssign vars)) }
          :: stack) (pc' + args.length)) := by
  induction args generalizing feature pc' with
  | nil =>
    apply Feeds.of_eq
    simp
  | cons term args ih =>
    have hhead := feeds_argument gather stack feature hat hvalid hscope hcode.head
      (by
        intro name heq
        apply hvars
        simp [heq, Term.var?])
    have htail := ih (feature.append (.const (term.eval (m.groundAssign vars)))) hcode.tail
      (by
        intro name hname
        apply hvars
        simp only [List.mem_filterMap] at hname ⊢
        rcases hname with ⟨term', hmem, hterm⟩
        exact ⟨term', List.mem_cons_of_mem _ hmem, hterm⟩)
    apply (hhead.trans htail).congr
    . cases term <;> rfl
    . have hpc : pc' + 1 + args.length = pc' + (term :: args).length := by
        rw [List.length_cons]
        omega
      simp [hpc, Feature.append]

include hat hvalid hscope in
theorem feeds_feature {pc' : Nat} {lit : Literal}
    (hcode : program.Has pc' (Code.feature vars lit))
    (hvars : ∀ name ∈ lit.vars, name ∈ vars ∧ name ∈ seen)
    : Feeds program gather vars lit.vars m (m.fed stack pc')
        (m.fed (lit.feature (m.groundAssign vars) :: stack)
          (pc' + (Code.feature vars lit).length)) := by
  have hstart : program.runOn gather true (m.fed stack pc') =
      program.runOn gather true (m.fed (⟨lit.functor, lit.args.length, []⟩ :: stack) (pc' + 1)) := by
    apply Program.runOn_step (Machine.runsAt_fed hat stack pc') hcode.head
    rfl
  apply ((Feeds.of_eq hstart).trans (feeds_arguments gather stack _ hat hvalid hscope hcode.tail hvars)).congr
  . rfl
  . have hpc : pc' + 1 + lit.args.length = pc' + (Code.feature vars lit).length := by
      simp only [Code.feature, List.length_cons, List.length_map]
      omega
    simp [hpc, Literal.feature]

include hat hvalid hscope in
theorem feeds_features {pc' : Nat} {lits : List Literal}
    (hcode : program.Has pc' (lits.flatMap (Code.feature vars)))
    (hvars : ∀ name ∈ lits.flatMap Literal.vars, name ∈ vars ∧ name ∈ seen)
    : Feeds program gather vars (lits.flatMap Literal.vars) m (m.fed stack pc')
        (m.fed ((lits.map (Literal.feature (m.groundAssign vars))).reverse ++ stack)
          (pc' + (lits.flatMap (Code.feature vars)).length)) := by
  induction lits generalizing stack pc' with
  | nil =>
    apply Feeds.of_eq
    simp
  | cons lit lits ih =>
    rw [List.flatMap_cons] at hcode hvars
    have hhead := feeds_feature gather stack hat hvalid hscope hcode.left
      (fun name hname => hvars name (List.mem_append_left _ hname))
    have htail := ih (lit.feature (m.groundAssign vars) :: stack) hcode.right
      (fun name hname => hvars name (List.mem_append_right _ hname))
    apply (hhead.trans htail).congr
    . rfl
    . simp [Nat.add_assoc]

end Build

theorem runOn_features {program : Program} (gather : Nat → Exec (List Goal)) {m : Machine} {pc : Nat}
    {clause : Clause} {seen : List String} (hat : m.state.RunsAt pc)
    (hcode : program.Has pc (Code.features clause.vars clause.features))
    (hvalid : m.state.heap.Valid m.symbols)
    (hscope : Scope clause.vars seen m.state.registers m.state.registers.size m.state.heap.size)
    (hvars : ∀ name ∈ clause.features.flatMap Literal.vars, name ∈ clause.vars ∧ name ∈ seen)
    : ((∀ name ∈ clause.features.flatMap Literal.vars, m.IsGround clause.vars name) ∧
        ∃ stack, program.runOn gather true m = .ok (clause.report (m.groundAssign clause.vars))
          (m.fed stack (pc + (Code.features clause.vars clause.features).length))) ∨
      Stuck program gather clause.vars (clause.features.flatMap Literal.vars) m m := by
  have hcode' := hcode
  unfold Code.features at hcode'
  have hclear : program.runOn gather true m = program.runOn gather true (m.fed [] (pc + 1)) := by
    apply Program.runOn_step hat hcode'.left.head
    show execute.stepping _ m = _
    rw [Machine.fed, ← hat.advance_eq]
    rfl
  have hfeeds := feeds_features gather [] hat hvalid hscope hcode'.left.tail hvars
  rcases hfeeds with ⟨hground, hrun⟩ | ⟨before, after, name, root, m', heq, hground, hopen, hrun⟩
  . left
    have hlen : pc + (Code.features clause.vars clause.features).length =
        pc + 1 + (clause.features.flatMap (Code.feature clause.vars)).length + 1 := by
      simp only [Code.features, List.length_append, List.length_cons, List.length_nil]
      omega
    have hreport : Features.report
        (clause.features.map (Literal.feature (m.groundAssign clause.vars))).reverse =
          clause.report (m.groundAssign clause.vars) := by
      apply Clause.report_eq
      rw [List.map_reverse, List.map_map]
      rfl
    have hinstr := hcode'.right.head
    rw [List.length_cons, Nat.add_comm (List.length _), ← Nat.add_assoc] at hinstr
    refine ⟨hground, (clause.features.map (Literal.feature (m.groundAssign clause.vars))).reverse, ?_⟩
    rw [hclear, hrun, List.append_nil, hlen]
    apply Program.runOn_report (Machine.runsAt_fed hat _ _) hinstr
    . rw [← hreport]
      rfl
    . apply Clause.isEmpty_report
  . right
    exact ⟨before, after, name, root, m', heq, hground, hopen, hclear.trans hrun⟩

theorem Code.isFeature_of_mem_features {vars : List String} {lits : List Literal} {instr : Instruction}
    (h : instr ∈ Code.features vars lits) : instr.isFeature = true := by
  simp only [Code.features, List.mem_append, List.mem_cons, List.mem_flatMap, Code.feature,
    List.mem_map, List.not_mem_nil, or_false] at h
  rcases h with (heq | ⟨lit, _, heq | ⟨term, _, heq⟩⟩) | heq
  . rw [heq]
    rfl
  . rw [heq]
    rfl
  . rw [← heq]
    cases term with
    | const _ => rfl
    | var _ => rfl
  . rw [heq]
    rfl

theorem runOn_skip {program : Program} (gather : Nat → Exec (List Goal)) {m : Machine} {pc : Nat}
    {block : List Instruction} (hat : m.state.RunsAt pc) (hcode : program.Has pc block)
    (hblock : ∀ instr ∈ block, instr.isFeature = true)
    : program.runOn gather false m =
      program.runOn gather false (m.fed m.features (pc + block.length)) := by
  induction block generalizing m pc with
  | nil =>
    rw [List.length_nil, Nat.add_zero, Machine.fed, ← hat.pc_eq]
  | cons instr block ih =>
    have hstep : program.runOn gather false m =
        program.runOn gather false (m.fed m.features (pc + 1)) := by
      apply Program.runOn_step hat hcode.head
      rw [Machine.fed, ← hat.advance_eq]
      rw [execute_eq_whole]
      unfold execute.whole
      rw [hblock instr List.mem_cons_self]
      rfl
    rw [hstep, ih (Machine.runsAt_fed hat m.features (pc + 1)) hcode.tail
      (fun instr hinstr => hblock instr (List.mem_cons_of_mem _ hinstr))]
    congr 1
    rw [List.length_cons, Nat.add_comm block.length, ← Nat.add_assoc]
    rfl

end HornMachine
