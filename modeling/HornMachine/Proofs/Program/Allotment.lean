import HornMachine.Program.Compiler
import HornMachine.Proofs.Interner.History
import HornMachine.Proofs.Program.Compile

/-!
This module contains how the compiler uses its table of variables. Whatever an item finds in the table, it is
compiled to the block that it has without any table.
-/

namespace HornMachine

namespace Program

theorem push_eq_append (program : Program) (instr : Instruction)
    : program.push instr = program.append [instr] := by
  simp [push, append]

theorem append_nil (program : Program) : program.append [] = program := by
  simp [append]

theorem append_append (program : Program) (block block' : List Instruction)
    : (program.append block).append block' = program.append (block ++ block') := by
  rw [append, append, append, mk.injEq]
  refine ⟨?_, rfl⟩
  apply Array.toList_inj.mp
  simp

end Program

namespace Compile

theorem bind_apply {ε σ α β : Type} (action : EStateM ε σ α) (next : α → EStateM ε σ β) (s : σ)
    : (action >>= next) s = match action s with
      | .ok a s => next a s
      | .error e s => .error e s := by
  show EStateM.bind action next s = _
  rw [EStateM.bind]
  cases action s with
  | ok a s => rfl
  | error e s => rfl

theorem emit_apply (instr : Instruction) (c : Compiler)
    : emit instr c = .ok c.program.size { c with program := c.program.append [instr] } := by
  rw [← Program.push_eq_append]
  rfl

def Allots (allotments : Std.ExtTreeMap String Allotment) (vars seen : List String) : Prop :=
  ∀ name : String, allotments[name]? =
    if name ∈ vars then some ⟨Code.register vars name, name ∈ seen⟩ else none

def Emits (action : Compile Unit) (vars seen : List String) (block : List Instruction) (seen' : List String) :
    Prop :=
  ∀ c : Compiler, Allots c.allotments vars seen → ∃ allotments',
    action c = .ok () ⟨allotments', c.program.append block⟩ ∧ Allots allotments' vars seen'

def Yields (action : Compile Instruction) (vars seen : List String) (instr : Instruction)
    (seen' : List String) : Prop :=
  ∀ c : Compiler, Allots c.allotments vars seen → ∃ allotments',
    action c = .ok instr ⟨allotments', c.program⟩ ∧ Allots allotments' vars seen'

variable {allotments : Std.ExtTreeMap String Allotment} {vars seen seen' seen'' : List String}
  {name : String} {block block' : List Instruction} {instr : Instruction} {c : Compiler}

namespace Allots

theorem congr (h : Allots allotments vars seen) (hseen : ∀ name, name ∈ seen ↔ name ∈ seen')
    : Allots allotments vars seen' := by
  intro name
  rw [h name]
  simp only [hseen]

theorem mark (h : Allots allotments vars seen) (hname : name ∈ vars)
    : Allots (allotments.insert name ⟨Code.register vars name, true⟩) vars (name :: seen) := by
  intro other
  rw [Std.ExtTreeMap.getElem?_insert, h other]
  by_cases heq : name = other
  . subst heq
    simp [hname]
  . simp [heq, Ne.symm heq]

theorem register_apply (h : Allots c.allotments vars seen) (hname : name ∈ vars)
    : register name c = .ok (Code.register vars name) c := by
  have hget := h name
  rw [if_pos hname] at hget
  have hstate : (get : Compile Compiler) c = .ok c c := rfl
  rw [register, bind_apply, hstate]
  simp only [hget]
  rfl

theorem markSeen_apply (h : Allots c.allotments vars seen) (hname : name ∈ vars)
    : ∃ allotments', markSeen name c = .ok (name ∈ seen) ⟨allotments', c.program⟩ ∧
        Allots allotments' vars (name :: seen) := by
  have hget := h name
  rw [if_pos hname] at hget
  refine ⟨_, ?_, h.mark hname⟩
  show EStateM.Result.ok _ _ = _
  rw [hget]

end Allots

namespace Emits

theorem congr {action : Compile Unit} (h : Emits action vars seen block seen')
    (hseen : ∀ name, name ∈ seen' ↔ name ∈ seen'') : Emits action vars seen block seen'' := by
  intro c hallots
  rcases h c hallots with ⟨allotments', hrun, hallots'⟩
  exact ⟨allotments', hrun, hallots'.congr hseen⟩

theorem nil : Emits (pure ()) vars seen [] seen := by
  intro c hallots
  refine ⟨c.allotments, ?_, hallots⟩
  rw [Program.append_nil]
  rfl

theorem single (instr : Instruction) : Emits (do let _ ← emit instr) vars seen [instr] seen := by
  intro c hallots
  refine ⟨c.allotments, ?_, hallots⟩
  rw [bind_apply, emit_apply]
  rfl

theorem bind {action : Compile Unit} {next : Unit → Compile Unit} (h : Emits action vars seen block seen')
    (h' : Emits (next ()) vars seen' block' seen'')
    : Emits (action >>= next) vars seen (block ++ block') seen'' := by
  intro c hallots
  rcases h c hallots with ⟨allotments', hrun, hallots'⟩
  rcases h' ⟨allotments', c.program.append block⟩ hallots' with ⟨allotments'', hrun', hallots''⟩
  refine ⟨allotments'', ?_, hallots''⟩
  rw [bind_apply, hrun, ← Program.append_append]
  exact hrun'

theorem cons {next : Nat → Compile Unit} (instr : Instruction)
    (h : ∀ addr, Emits (next addr) vars seen block seen')
    : Emits (emit instr >>= next) vars seen (instr :: block) seen' := by
  intro c hallots
  rcases h c.program.size ⟨c.allotments, c.program.append [instr]⟩ hallots with ⟨allotments', hrun, hallots'⟩
  refine ⟨allotments', ?_, hallots'⟩
  rw [bind_apply, emit_apply]
  rw [Program.append_append] at hrun
  exact hrun

theorem each_cons {α : Type} {instruction : α → Compile Instruction} {a : α} {as : List α}
    (h : Yields (instruction a) vars seen instr seen')
    (has : Emits (emitEach instruction as) vars seen' block seen'')
    : Emits (emitEach instruction (a :: as)) vars seen (instr :: block) seen'' := by
  have hfirst : Emits (do let _ ← emit (← instruction a)) vars seen [instr] seen' := by
    intro c hallots
    rcases h c hallots with ⟨allotments', hrun, hallots'⟩
    refine ⟨allotments', ?_, hallots'⟩
    rw [bind_apply, hrun]
    rfl
  exact hfirst.bind has

end Emits

theorem yields_pure (instr : Instruction) : Yields (pure instr) vars seen instr seen := by
  intro c hallots
  exact ⟨c.allotments, rfl, hallots⟩

def marked (first later : Int → Instruction) (name : String) : Compile Instruction := do
  let reg ← register name
  return if ← markSeen name then later reg else first reg

theorem marked_apply (first later : Int → Instruction) (h : Allots c.allotments vars seen)
    (hname : name ∈ vars)
    : ∃ allotments', marked first later name c =
        .ok (if name ∈ seen then later (Code.register vars name) else first (Code.register vars name))
          ⟨allotments', c.program⟩ ∧ Allots allotments' vars (name :: seen) := by
  rcases h.markSeen_apply hname with ⟨allotments', hmark, hallots'⟩
  refine ⟨allotments', ?_, hallots'⟩
  rw [marked, bind_apply, h.register_apply hname]
  simp only [bind_apply, hmark, decide_eq_true_eq]
  rfl

theorem yields_first (first later : Int → Instruction) (hname : name ∈ vars) (hseen : name ∉ seen)
    : Yields (marked first later name) vars seen (first (Code.register vars name)) (name :: seen) := by
  intro c hallots
  have := marked_apply first later hallots hname
  rwa [if_neg hseen] at this

theorem yields_later (first later : Int → Instruction) (hname : name ∈ vars) (hseen : name ∈ seen)
    : Yields (marked first later name) vars seen (later (Code.register vars name)) seen := by
  intro c hallots
  rcases marked_apply first later hallots hname with ⟨allotments', hrun, hallots'⟩
  rw [if_pos hseen] at hrun
  refine ⟨allotments', hrun, hallots'.congr fun other => ?_⟩
  simp only [List.mem_cons, or_iff_right_iff_imp]
  rintro rfl
  exact hseen

theorem Emits.each_var {α : Type} {instruction : α → Compile Instruction} {a : α} {as : List α}
    {names : List String} {rest : List String → List Instruction} (first later : Int → Instruction)
    (ha : instruction a = marked first later name) (hname : name ∈ vars)
    (hrest : ∀ seen, Emits (emitEach instruction as) vars seen (rest seen) (names ++ seen))
    : Emits (emitEach instruction (a :: as)) vars seen
        (if name ∈ seen then later (Code.register vars name) :: rest seen
          else first (Code.register vars name) :: rest (name :: seen))
        (name :: names ++ seen) := by
  split
  . next hseen =>
    apply (Emits.each_cons (ha ▸ yields_later first later hname hseen) (hrest seen)).congr
    intro other
    simp only [List.cons_append, List.mem_cons, List.mem_append, iff_or_self]
    rintro rfl
    exact .inr hseen
  . next hseen =>
    apply (Emits.each_cons (ha ▸ yields_first first later hname hseen) (hrest (name :: seen))).congr
    intro other
    simp only [List.cons_append, List.mem_cons, List.mem_append]
    tauto

def Names (args : List Term) (vars : List String) : Prop :=
  ∀ name ∈ args.filterMap Term.var?, name ∈ vars

theorem Names.tail {term : Term} {args : List Term} (h : Names (term :: args) vars) : Names args vars := by
  intro name hname
  apply h
  rw [List.mem_filterMap] at hname ⊢
  rcases hname with ⟨term, hterm, hname⟩
  exact ⟨term, List.mem_cons_of_mem _ hterm, hname⟩

theorem Names.var {args : List Term} (h : Names (.var name :: args) vars) : name ∈ vars :=
  h name (by simp [Term.var?])

theorem emits_headFrom {args : List Term} (h : Names args vars) (seen : List String) (k arity : Nat)
    : Emits (emitEach (fun (term, i) => headInstruction ((i : Int) - arity) term) (args.zipIdx k)) vars seen
        (Code.head vars ((k : Int) - arity) seen args) (args.filterMap Term.var? ++ seen) := by
  -- the offset of an argument rises with its place, so the place of the first one is arbitrary
  induction args generalizing seen k with
  | nil => exact Emits.nil
  | cons term args ih =>
    have hoffset : (k : Int) - arity + 1 = ((k + 1 : Nat) : Int) - arity := by
      omega
    have hrest := fun seen => ih h.tail seen (k + 1)
    rw [← hoffset] at hrest
    rw [List.zipIdx_cons]
    cases term with
    | const name => exact Emits.each_cons (yields_pure _) (hrest seen)
    | var name =>
      exact Emits.each_var (.initFreeVar · (k - arity)) (.unifyBoundVar · (k - arity)) (by rfl) h.var hrest

theorem emits_head {lit : Literal} (h : Names lit.args vars)
    : Emits (head lit.args) vars [] (Code.head vars (-lit.args.length) [] lit.args) lit.vars := by
  have hfrom := emits_headFrom h [] 0 lit.args.length
  have hoffset : ((0 : Nat) : Int) - lit.args.length = -lit.args.length := by
    omega
  rw [List.append_nil, hoffset] at hfrom
  exact hfrom

theorem emits_arguments {args : List Term} (h : Names args vars) (seen : List String)
    : Emits (emitEach callInstruction args) vars seen (Code.arguments vars seen args)
        (args.filterMap Term.var? ++ seen) := by
  induction args generalizing seen with
  | nil => exact Emits.nil
  | cons term args ih =>
    cases term with
    | const name => exact Emits.each_cons (yields_pure _) (ih h.tail seen)
    | var name => exact Emits.each_var .pushFreeVar .pushBoundVar (by rfl) h.var (ih h.tail)

theorem yields_register (f : Int → Instruction) (hname : name ∈ vars)
    : Yields (do return f (← register name)) vars seen (f (Code.register vars name)) seen := by
  intro c hallots
  refine ⟨c.allotments, ?_, hallots⟩
  rw [bind_apply, hallots.register_apply hname]
  rfl

theorem emits_feature {lit : Literal} (h : Names lit.args vars)
    : Emits (feature lit) vars seen (Code.feature vars lit) seen := by
  apply Emits.cons
  intro _
  generalize lit.args = args at h
  induction args with
  | nil => exact Emits.nil
  | cons term args ih =>
    cases term with
    | const name => exact Emits.each_cons (yields_pure _) (ih h.tail)
    | var name => exact Emits.each_cons (yields_register .fpushBoundVar h.var) (ih h.tail)

theorem emits_features {lits : List Literal} (h : ∀ lit ∈ lits, Names lit.args vars)
    : Emits (features lits) vars seen (Code.features vars lits) seen := by
  have heach : Emits (lits.forM feature) vars seen (lits.flatMap (Code.feature vars)) seen := by
    induction lits with
    | nil => exact Emits.nil
    | cons lit lits ih =>
      have hlits := ih fun lit hlit => h lit (List.mem_cons_of_mem _ hlit)
      rw [List.flatMap_cons]
      exact (emits_feature (h lit List.mem_cons_self)).bind hlits
  apply Emits.cons
  intro _
  exact heach.bind (Emits.single _)

theorem emits_calls {goals : List Literal} (h : ∀ lit ∈ goals, Names lit.args vars) (seen : List String)
    : Emits (goals.forM call) vars seen (Code.calls vars seen goals) (goals.flatMap Literal.vars ++ seen) := by
  induction goals generalizing seen with
  | nil => exact Emits.nil
  | cons lit goals ih =>
    have hlit : Emits (call lit) vars seen
        (Code.arguments vars seen lit.args ++ [.callp lit.signature.label]) (lit.vars ++ seen) :=
      (emits_arguments (h lit List.mem_cons_self) seen).bind (Emits.single _)
    have hgoals := ih (fun lit hlit => h lit (List.mem_cons_of_mem _ hlit)) (lit.vars ++ seen)
    have hblock : Code.calls vars seen (lit :: goals) =
        Code.arguments vars seen lit.args ++ [.callp lit.signature.label] ++
          Code.calls vars (lit.vars ++ seen) goals := by
      rw [Code.calls, List.append_assoc, List.singleton_append]
    rw [hblock]
    apply (hlit.bind hgoals).congr
    intro name
    simp only [List.flatMap_cons, List.mem_append]
    tauto

structure Allotted (c : Compiler) (names : List String) : Prop where
  allots : Allots c.allotments names.eraseDups []
  size_eq : c.allotments.size = names.eraseDups.length

theorem Allotted.allot {names : List String} (h : Allotted c names) (name : String)
    : ∃ allotments', Compile.allot name c = .ok () ⟨allotments', c.program⟩ ∧
        Allotted ⟨allotments', c.program⟩ (names ++ [name]) := by
  have hget := h.allots name
  have happly : Compile.allot name c = .ok () (if name ∈ c.allotments then c
      else { c with allotments := c.allotments.insert name ⟨-(c.allotments.size : Int) - 1, false⟩ }) := rfl
  have hmem : name ∈ c.allotments ↔ name ∈ names := by
    rw [Std.ExtTreeMap.mem_iff_isSome_getElem?, hget]
    simp [List.mem_eraseDups]
  rw [happly]
  -- a new name gets the register below all that are taken, so its place among the distinct names
  by_cases hname : name ∈ names
  . rw [if_pos (hmem.mpr hname)]
    refine ⟨c.allotments, rfl, ?_, ?_⟩
    . rw [Interner.eraseDups_concat, if_pos hname]
      exact h.allots
    . rw [Interner.eraseDups_concat, if_pos hname]
      exact h.size_eq
  . have hnew : name ∉ names.eraseDups := fun hdup => hname (List.mem_eraseDups.mp hdup)
    rw [if_neg (mt hmem.mp hname)]
    refine ⟨_, rfl, ?_, ?_⟩
    . rw [Interner.eraseDups_concat, if_neg hname]
      intro other
      rw [Std.ExtTreeMap.getElem?_insert, h.allots other, h.size_eq]
      by_cases heq : name = other
      . subst heq
        simp [Code.register, List.idxOf_append_of_notMem hnew]
      . by_cases hother : other ∈ names.eraseDups
        . simp [heq, hother, Code.register, List.idxOf_append_of_mem hother]
        . simp [heq, hother, Ne.symm heq]
    . rw [Interner.eraseDups_concat, if_neg hname]
      show (c.allotments.insert _ _).size = _
      have hcontains : ¬c.allotments.contains name = true := mt hmem.mp hname
      rw [Std.ExtTreeMap.size_insert, if_neg hcontains, h.size_eq]
      simp

theorem Allotted.forM {names : List String} (h : Allotted c names) (more : List String)
    : ∃ allotments', more.forM Compile.allot c = .ok () ⟨allotments', c.program⟩ ∧
        Allotted ⟨allotments', c.program⟩ (names ++ more) := by
  induction more generalizing c names with
  | nil => exact ⟨c.allotments, rfl, by simpa using h⟩
  | cons name more ih =>
    rcases h.allot name with ⟨allotments', hrun, h'⟩
    rcases ih h' with ⟨allotments'', hrun', h''⟩
    refine ⟨allotments'', ?_, by simpa using h''⟩
    show (Compile.allot name >>= fun _ => more.forM Compile.allot) c = _
    rw [bind_apply, hrun]
    exact hrun'

theorem block_apply {lits : List Literal} {body : Compile Unit}
    (hbody : Emits body (lits.flatMap Literal.vars).eraseDups [] block seen) (c : Compiler)
    : ∃ allotments', Compile.block lits body c = .ok c.program.size
        ⟨allotments', c.program.append
          (.grow (lits.flatMap Literal.vars).eraseDups.length :: block ++ [.returnp])⟩ := by
  have hempty : Allotted ⟨∅, c.program⟩ [] := by
    constructor
    . intro name
      simp
    . rfl
  have hreset : reset c = .ok () ⟨∅, c.program⟩ := rfl
  rcases hempty.forM (lits.flatMap Literal.vars) with ⟨allotments, hrun, hallotted⟩
  have hcount : allotAll lits ⟨∅, c.program⟩ =
      .ok (lits.flatMap Literal.vars).eraseDups.length ⟨allotments, c.program⟩ := by
    rw [allotAll, bind_apply, hrun]
    show EStateM.Result.ok allotments.size _ = _
    rw [hallotted.size_eq]
    rfl
  rcases hbody ⟨allotments, c.program.append [.grow (lits.flatMap Literal.vars).eraseDups.length]⟩
    hallotted.allots with ⟨allotments', hrun', _⟩
  refine ⟨allotments', ?_⟩
  simp only [Compile.block, bind_apply, hreset, hcount, emit_apply, hrun', Program.append_append]
  rfl

theorem names_of_mem {lits : List Literal} {lit : Literal} (h : lit ∈ lits)
    : Names lit.args (lits.flatMap Literal.vars).eraseDups := by
  intro name hname
  rw [List.mem_eraseDups, List.mem_flatMap]
  exact ⟨lit, h, hname⟩

theorem clause_apply (clause : Clause) (c : Compiler)
    : match clause.unboundFeatureVariable? with
      | some name => Compile.clause clause c = .error (.refused (.unboundFeatureVariable name)) c
      | none => ∃ allotments', Compile.clause clause c =
          .ok c.program.size ⟨allotments', c.program.addedClause clause⟩ := by
  unfold Compile.clause
  cases clause.unboundFeatureVariable? with
  | some name => rfl
  | none =>
    have hnames : ∀ lit ∈ clause.head :: clause.features ++ clause.body, Names lit.args clause.vars :=
      fun lit hlit => names_of_mem hlit
    have hhead := emits_head (hnames clause.head (by simp))
    have hfeatures : Emits (features clause.features) clause.vars clause.head.vars
        (Code.features clause.vars clause.features) clause.head.vars :=
      emits_features fun lit hlit => hnames lit (by simp [hlit])
    have hcalls : Emits (clause.body.forM call) clause.vars clause.head.vars
        (Code.calls clause.vars clause.head.vars clause.body)
        (clause.body.flatMap Literal.vars ++ clause.head.vars) :=
      emits_calls (fun lit hlit => hnames lit (by simp [hlit])) clause.head.vars
    have hbody : Emits (do head clause.head.args; features clause.features; clause.body.forM call)
        clause.vars []
        (Code.head clause.vars (-clause.head.args.length) [] clause.head.args ++
          (Code.features clause.vars clause.features ++ Code.calls clause.vars clause.head.vars clause.body))
        (clause.body.flatMap Literal.vars ++ clause.head.vars) :=
      hhead.bind (hfeatures.bind hcalls)
    rcases block_apply hbody c with ⟨allotments', hblock⟩
    refine ⟨allotments', ?_⟩
    simp only [bind_apply, hblock]
    show EStateM.Result.ok _ _ = _
    rw [Program.addedClause, Clause.code, List.append_assoc (Code.head _ _ _ _)]
    rfl

theorem query_apply (goals : List Literal) (c : Compiler)
    : ∃ allotments', Compile.query goals c =
        .ok c.program.size ⟨allotments', c.program.append (queryCode goals)⟩ :=
  block_apply (emits_calls (fun _ hlit => names_of_mem hlit) []) c

end Compile

end HornMachine
