import HornMachine.Proofs.Program.Compile
import HornMachine.Proofs.Run.Change
import HornMachine.Proofs.Run.Query

/-!
This module contains the registers that compiled code writes to. A block makes room for its variables
first, and up to its return it writes to no register but those.
-/

namespace HornMachine

namespace Instruction

def room : Instruction → Nat
  | grow count => count.toNat
  | _ => 0

theorem room_of_isPlain {instr : Instruction} (h : instr.isPlain = true) : instr.room = 0 := by
  cases instr with
  | grow _ => contradiction
  | _ => rfl

structure Within (count : Nat) (instr : Instruction) : Prop where
  keeps : instr.keepsRegisters = true
  target : ∀ reg ∈ instr.target?, -(count : Int) ≤ reg

theorem keepsRegisters_grow (count : Nat) : (grow count).keepsRegisters = true := by
  simp [keepsRegisters]

theorem within_of_target? {count : Nat} {instr : Instruction} (hkeeps : instr.keepsRegisters = true)
    (h : instr.target? = none) : instr.Within count := by
  refine ⟨hkeeps, fun reg hreg => ?_⟩
  rw [h] at hreg
  contradiction

end Instruction

namespace Code

/--
The code up to the next return writes to the `count` registers on top and to those that it puts there.
-/
def Confined (count : Nat) : List Instruction → Prop
  | [] => True
  | instr :: block =>
    instr.Within count ∧ (instr = .returnp ∨ Confined (count + instr.room) block)

variable {vars : List String} {count : Nat} {instr : Instruction} {block : List Instruction}

theorem confined_append {rest : List Instruction}
    (hblock : ∀ instr ∈ block, instr.room = 0 ∧ instr.Within count) (hrest : Confined count rest)
    : Confined count (block ++ rest) := by
  induction block with
  | nil => exact hrest
  | cons instr block ih =>
    rcases hblock instr List.mem_cons_self with ⟨hroom, hwithin⟩
    refine ⟨hwithin, .inr ?_⟩
    rw [hroom]
    exact ih fun instr' hinstr => hblock instr' (List.mem_cons_of_mem instr hinstr)

theorem confined_returnp (count : Nat) (block : List Instruction)
    : Confined count (.returnp :: block) :=
  ⟨Instruction.within_of_target? rfl rfl, .inl rfl⟩

theorem neg_length_le_register {name : String} (hname : name ∈ vars)
    : -(vars.length : Int) ≤ register vars name := by
  have hlt := List.idxOf_lt_length_of_mem hname
  unfold register
  omega

theorem within_of_target?_register {name : String} (hname : name ∈ vars)
    (hkeeps : instr.keepsRegisters = true) (h : instr.target? = some (register vars name))
    : instr.Within vars.length := by
  refine ⟨hkeeps, fun reg hreg => ?_⟩
  rw [h] at hreg
  cases hreg
  exact neg_length_le_register hname

theorem within_head {offset : Int} {seen : List String} {args : List Term}
    (hvars : ∀ name, .var name ∈ args → name ∈ vars)
    : ∀ instr ∈ head vars offset seen args, instr.room = 0 ∧ instr.Within vars.length := by
  fun_induction head vars offset seen args with
  | case1 => simp
  | case2 offset seen name args ih =>
    have hargs := ih fun name' hname' => hvars name' (List.mem_cons_of_mem _ hname')
    exact List.forall_mem_cons.mpr ⟨⟨rfl, Instruction.within_of_target? rfl rfl⟩, hargs⟩
  | case3 offset seen name args reg hseen ih =>
    have hargs := ih fun name' hname' => hvars name' (List.mem_cons_of_mem _ hname')
    exact List.forall_mem_cons.mpr ⟨⟨rfl, Instruction.within_of_target? rfl rfl⟩, hargs⟩
  | case4 offset seen name args reg hseen ih =>
    have hargs := ih fun name' hname' => hvars name' (List.mem_cons_of_mem _ hname')
    have hname := hvars name List.mem_cons_self
    exact List.forall_mem_cons.mpr ⟨⟨rfl, within_of_target?_register hname rfl rfl⟩, hargs⟩

theorem within_features (vars : List String) (lits : List Literal)
    : ∀ instr ∈ features vars lits, instr.room = 0 ∧ instr.Within count := by
  intro instr hinstr
  have hfeature := isFeature_of_mem_features hinstr
  have hplain := Instruction.isPlain_of_isFeature hfeature
  refine ⟨Instruction.room_of_isPlain hplain, ?_⟩
  apply Instruction.within_of_target? (Instruction.keepsRegisters_of_isPlain hplain)
  cases instr with
  | pushFreeVar _ => contradiction
  | initFreeVar _ _ => contradiction
  | _ => rfl

theorem within_arguments {seen : List String} {args : List Term}
    (hvars : ∀ name, .var name ∈ args → name ∈ vars)
    : ∀ instr ∈ arguments vars seen args, instr.room = 0 ∧ instr.Within vars.length := by
  fun_induction arguments vars seen args with
  | case1 => simp
  | case2 seen name args ih =>
    have hargs := ih fun name' hname' => hvars name' (List.mem_cons_of_mem _ hname')
    exact List.forall_mem_cons.mpr ⟨⟨rfl, Instruction.within_of_target? rfl rfl⟩, hargs⟩
  | case3 seen name args reg hseen ih =>
    have hargs := ih fun name' hname' => hvars name' (List.mem_cons_of_mem _ hname')
    exact List.forall_mem_cons.mpr ⟨⟨rfl, Instruction.within_of_target? rfl rfl⟩, hargs⟩
  | case4 seen name args reg hseen ih =>
    have hargs := ih fun name' hname' => hvars name' (List.mem_cons_of_mem _ hname')
    have hname := hvars name List.mem_cons_self
    exact List.forall_mem_cons.mpr ⟨⟨rfl, within_of_target?_register hname rfl rfl⟩, hargs⟩

theorem within_calls {seen : List String} {lits : List Literal}
    (hvars : ∀ lit ∈ lits, ∀ name ∈ lit.vars, name ∈ vars)
    : ∀ instr ∈ calls vars seen lits, instr.room = 0 ∧ instr.Within vars.length := by
  fun_induction calls vars seen lits with
  | case1 => simp
  | case2 seen lit lits ih =>
    have hlits := ih fun lit' hlit' => hvars lit' (List.mem_cons_of_mem lit hlit')
    rw [List.forall_mem_append, List.forall_mem_cons]
    refine ⟨within_arguments ?_, ⟨rfl, Instruction.within_of_target? rfl rfl⟩, hlits⟩
    intro name hname
    exact hvars lit List.mem_cons_self name (Literal.mem_vars.mpr hname)

theorem confined_grow (h : Confined vars.length block)
    : Confined 0 (.grow vars.length :: block) := by
  refine ⟨Instruction.within_of_target? (Instruction.keepsRegisters_grow _) rfl, .inr ?_⟩
  rw [Nat.zero_add]
  exact h

theorem confined_queryCode (goals : List Literal) (rest : List Instruction)
    : Confined 0 (queryCode goals ++ rest) := by
  have hvars : ∀ lit ∈ goals, ∀ name ∈ lit.vars, name ∈ queryVars goals :=
    fun lit hlit name hname => mem_queryVars.mpr ⟨lit, hlit, hname⟩
  simp only [queryCode, List.cons_append, List.append_assoc]
  exact confined_grow (confined_append (within_calls hvars) (confined_returnp _ _))

theorem confined_clause (clause : Clause) (rest : List Instruction)
    : Confined 0 (clause.code ++ rest) := by
  have hbody : ∀ lit ∈ clause.body, ∀ name ∈ lit.vars, name ∈ clause.vars :=
    fun lit hlit name hname => Clause.mem_vars_of_body hlit hname
  simp only [Clause.code, List.cons_append, List.append_assoc]
  apply confined_grow
  apply confined_append (within_head fun _ => Clause.mem_vars_of_head)
  apply confined_append (within_features _ _)
  exact confined_append (within_calls hbody) (confined_returnp _ _)

theorem keepsRegisters_queryCode (goals : List Literal)
    : ∀ instr ∈ queryCode goals, instr.keepsRegisters = true := by
  have hvars : ∀ lit ∈ goals, ∀ name ∈ lit.vars, name ∈ queryVars goals :=
    fun lit hlit name hname => mem_queryVars.mpr ⟨lit, hlit, hname⟩
  intro instr hinstr
  simp only [queryCode, List.mem_append, List.mem_cons, List.not_mem_nil, or_false] at hinstr
  rcases hinstr with (rfl | hinstr) | rfl
  . exact Instruction.keepsRegisters_grow _
  . exact (within_calls hvars instr hinstr).2.keeps
  . rfl

theorem keepsRegisters_clause (clause : Clause)
    : ∀ instr ∈ clause.code, instr.keepsRegisters = true := by
  have hbody : ∀ lit ∈ clause.body, ∀ name ∈ lit.vars, name ∈ clause.vars :=
    fun lit hlit name hname => Clause.mem_vars_of_body hlit hname
  intro instr hinstr
  simp only [Clause.code, List.mem_append, List.mem_cons, List.not_mem_nil, or_false] at hinstr
  rcases hinstr with rfl | ((hinstr | hinstr) | hinstr) | rfl
  . exact Instruction.keepsRegisters_grow _
  . exact (within_head (fun _ => Clause.mem_vars_of_head) instr hinstr).2.keeps
  . have hplain := Instruction.isPlain_of_isFeature (isFeature_of_mem_features hinstr)
    exact Instruction.keepsRegisters_of_isPlain hplain
  . exact (within_calls hbody instr hinstr).2.keeps
  . rfl

end Code

namespace Program

def Confined (program : Program) (count pc : Nat) : Prop :=
  Code.Confined count (program.code.toList.drop pc)

variable {program : Program}

theorem Confined.step {count pc : Nat} {instr : Instruction} (h : program.Confined count pc)
    (hinstr : program.code[pc]? = some instr)
    : instr.Within count ∧ (instr = .returnp ∨ program.Confined (count + instr.room) (pc + 1)) := by
  rw [Confined, drop_code hinstr] at h
  exact h

theorem Has.confined_query {addr : Nat} {goals : List Literal}
    (h : program.Has addr (queryCode goals)) : program.Confined 0 addr := by
  rcases h with ⟨rest, hrest⟩
  rw [Confined, ← hrest]
  exact Code.confined_queryCode goals rest

theorem Has.confined_clause {addr : Nat} {clause : Clause} (h : program.Has addr clause.code)
    : program.Confined 0 addr := by
  rcases h with ⟨rest, hrest⟩
  rw [Confined, ← hrest]
  exact Code.confined_clause clause rest

theorem keepsRegisters_compile (items : List Item)
    : (({} : Program).compile items).2.KeepsRegisters := by
  apply compile_keeps (P := KeepsRegisters)
  . intro program c h instr hinstr
    rw [addedClause, addClause, append, Array.mem_def, Array.toList_appendList, List.mem_append,
      ← Array.mem_def] at hinstr
    exact hinstr.elim (h instr) (Code.keepsRegisters_clause c instr)
  . intro program goals h instr hinstr
    rw [append, Array.mem_def, Array.toList_appendList, List.mem_append, ← Array.mem_def] at hinstr
    exact hinstr.elim (h instr) (Code.keepsRegisters_queryCode goals instr)
  . simp [KeepsRegisters]

end Program

end HornMachine
