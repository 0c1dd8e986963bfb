import HornMachine.Proofs.Run.Confined
import HornMachine.Proofs.Run.Goals

/-!
This module contains how blocks use registers. Each variable has a register of its own among those that the
block allocates, and no instruction reads a register that no instruction before it has set.
-/

namespace HornMachine

theorem nodup_eraseDups (names : List String) : names.eraseDups.Nodup := by
  match names with
  | [] => simp
  | name :: names =>
    have hlt : (names.filter (!· == name)).length < names.length + 1 :=
      Nat.lt_succ_of_le (List.length_filter_le _ names)
    rw [List.eraseDups_cons, List.nodup_cons, List.mem_eraseDups]
    exact ⟨by simp, nodup_eraseDups _⟩
termination_by names.length

namespace Instruction

def source? : Instruction → Option Int
  | .pushBoundVar reg => some reg
  | .unifyBoundVar reg _ => some reg
  | .fpushBoundVar reg => some reg
  | _ => none

def operand? : Instruction → Option (Pattern Int)
  | .pushConst name => some (.const name)
  | .unifyConst name _ => some (.const name)
  | .fpushConst name => some (.const name)
  | .pushFreeVar reg => some (.var reg)
  | .pushBoundVar reg => some (.var reg)
  | .initFreeVar reg _ => some (.var reg)
  | .unifyBoundVar reg _ => some (.var reg)
  | .fpushBoundVar reg => some (.var reg)
  | _ => none

end Instruction

namespace Code

variable {vars seen : List String} {set : List Int} {block rest : List Instruction}

def numbered (vars : List String) (name : String) : Pattern Int :=
  .var (register vars name)

theorem operands_head (vars : List String) (offset : Int) (seen : List String) (args : List Term)
    : (head vars offset seen args).filterMap Instruction.operand? = args.map (Term.eval (numbered vars)) := by
  fun_induction head vars offset seen args with
  | case1 => rfl
  | case2 offset seen name args ih => exact congrArg (Pattern.const name :: ·) ih
  | case3 offset seen name args reg hseen ih => exact congrArg (Pattern.var reg :: ·) ih
  | case4 offset seen name args reg hseen ih => exact congrArg (Pattern.var reg :: ·) ih

theorem operands_arguments (vars seen : List String) (args : List Term)
    : (arguments vars seen args).filterMap Instruction.operand? = args.map (Term.eval (numbered vars)) := by
  fun_induction arguments vars seen args with
  | case1 => rfl
  | case2 seen name args ih => exact congrArg (Pattern.const name :: ·) ih
  | case3 seen name args reg hseen ih => exact congrArg (Pattern.var reg :: ·) ih
  | case4 seen name args reg hseen ih => exact congrArg (Pattern.var reg :: ·) ih

theorem operands_feature (vars : List String) (lit : Literal)
    : (feature vars lit).filterMap Instruction.operand? = lit.args.map (Term.eval (numbered vars)) := by
  rw [feature, List.filterMap_cons_none rfl, List.filterMap_map, ← List.filterMap_eq_map]
  apply List.filterMap_congr
  intro term _
  cases term with
  | const name => rfl
  | var name => rfl

theorem operands_features (vars : List String) (lits : List Literal)
    : (features vars lits).filterMap Instruction.operand? =
      (lits.flatMap Literal.args).map (Term.eval (numbered vars)) := by
  rw [features, List.cons_append, List.filterMap_cons_none rfl, List.filterMap_append, List.filterMap_flatMap,
    List.map_flatMap]
  simp only [operands_feature]
  exact List.append_nil _

theorem operands_calls (vars seen : List String) (lits : List Literal)
    : (calls vars seen lits).filterMap Instruction.operand? =
      (lits.flatMap Literal.args).map (Term.eval (numbered vars)) := by
  induction lits generalizing seen with
  | nil => rfl
  | cons lit lits ih =>
    rw [calls, List.filterMap_append, operands_arguments, List.filterMap_cons_none rfl, ih, List.flatMap_cons,
      List.map_append]

theorem operands_clause (clause : Clause)
    : clause.code.filterMap Instruction.operand? =
      ((clause.head :: clause.features ++ clause.body).flatMap Literal.args).map
        (Term.eval (numbered clause.vars)) := by
  rw [Clause.code, List.filterMap_cons_none rfl]
  simp only [List.filterMap_append, operands_head, operands_features, operands_calls, List.cons_append,
    List.flatMap_cons, List.flatMap_append, List.map_append, List.append_assoc]
  exact congrArg _ (congrArg _ (List.append_nil _))

theorem operands_queryCode (goals : List Literal)
    : (queryCode goals).filterMap Instruction.operand? =
      (goals.flatMap Literal.args).map (Term.eval (numbered (queryVars goals))) := by
  rw [queryCode, List.cons_append, List.filterMap_cons_none rfl, List.filterMap_append, operands_calls]
  exact List.append_nil _

def ReadsSet (set : List Int) : List Instruction → Prop
  | [] => True
  | instr :: block => (∀ reg ∈ instr.source?, reg ∈ set) ∧ ReadsSet (instr.target?.toList ++ set) block

theorem ReadsSet.exists_before {i : Nat} {reg : Int} (h : ReadsSet set block)
    (hread : block[i]?.bind Instruction.source? = some reg)
    : reg ∈ set ∨ ∃ j < i, block[j]?.bind Instruction.target? = some reg := by
  induction block generalizing set i with
  | nil => simp at hread
  | cons instr block ih =>
    cases i with
    | zero => exact .inl (h.1 reg hread)
    | succ i =>
      rcases ih h.2 hread with hmem | ⟨j, hj, hset⟩
      . rcases List.mem_append.mp hmem with htarget | hmem
        . exact .inr ⟨0, by omega, Option.mem_toList.mp htarget⟩
        . exact .inl hmem
      . exact .inr ⟨j + 1, by omega, hset⟩

theorem readsSet_plain {instr : Instruction} (hsource : instr.source? = none) (htarget : instr.target? = none)
    (h : ReadsSet set block) : ReadsSet set (instr :: block) := by
  refine ⟨?_, ?_⟩
  . simp [hsource]
  . rw [htarget]
    exact h

theorem readsSet_reads {instr : Instruction} {reg : Int} (hsource : instr.source? = some reg)
    (htarget : instr.target? = none) (hmem : reg ∈ set) (h : ReadsSet set block)
    : ReadsSet set (instr :: block) := by
  refine ⟨?_, ?_⟩
  . simpa [hsource] using hmem
  . rw [htarget]
    exact h

theorem readsSet_sets {instr : Instruction} {reg : Int} (hsource : instr.source? = none)
    (htarget : instr.target? = some reg) (h : ReadsSet (reg :: set) block)
    : ReadsSet set (instr :: block) := by
  refine ⟨?_, ?_⟩
  . simp [hsource]
  . rw [htarget]
    exact h

def Covers (vars seen : List String) (set : List Int) : Prop :=
  ∀ name ∈ seen, register vars name ∈ set

theorem covers_nil (vars : List String) (set : List Int) : Covers vars [] set := by
  intro name hname
  contradiction

theorem Covers.cons {name : String} (h : Covers vars seen set)
    : Covers vars (name :: seen) (register vars name :: set) := by
  intro name' hname'
  rcases List.mem_cons.mp hname' with rfl | hmem
  . exact List.mem_cons_self
  . exact List.mem_cons_of_mem _ (h name' hmem)

theorem Covers.subset {seen' : List String} (h : Covers vars seen set) (hle : ∀ name ∈ seen', name ∈ seen)
    : Covers vars seen' set :=
  fun name hname => h name (hle name hname)

theorem readsSet_head {offset : Int} {args : List Term} (hset : Covers vars seen set)
    (hrest : ∀ set', Covers vars (args.filterMap Term.var? ++ seen) set' → ReadsSet set' rest)
    : ReadsSet set (head vars offset seen args ++ rest) := by
  induction args generalizing offset seen set with
  | nil => exact hrest set hset
  | cons term args ih =>
    cases term with
    | const name => exact readsSet_plain rfl rfl (ih hset hrest)
    | var name =>
      have hvars : (Term.var name :: args).filterMap Term.var? = name :: args.filterMap Term.var? := rfl
      rw [hvars] at hrest
      rw [head]
      split
      . next hseen =>
        apply readsSet_reads rfl rfl (hset name hseen)
        apply ih hset
        intro set' hset'
        exact hrest set' (hset'.subset (by grind))
      . next hseen =>
        apply readsSet_sets rfl rfl
        apply ih hset.cons
        intro set' hset'
        exact hrest set' (hset'.subset (by grind))

theorem readsSet_arguments {args : List Term} (hset : Covers vars seen set)
    (hrest : ∀ set', Covers vars (args.filterMap Term.var? ++ seen) set' → ReadsSet set' rest)
    : ReadsSet set (arguments vars seen args ++ rest) := by
  induction args generalizing seen set with
  | nil => exact hrest set hset
  | cons term args ih =>
    cases term with
    | const name => exact readsSet_plain rfl rfl (ih hset hrest)
    | var name =>
      have hvars : (Term.var name :: args).filterMap Term.var? = name :: args.filterMap Term.var? := rfl
      rw [hvars] at hrest
      rw [arguments]
      split
      . next hseen =>
        apply readsSet_reads rfl rfl (hset name hseen)
        apply ih hset
        intro set' hset'
        exact hrest set' (hset'.subset (by grind))
      . next hseen =>
        apply readsSet_sets rfl rfl
        apply ih hset.cons
        intro set' hset'
        exact hrest set' (hset'.subset (by grind))

theorem readsSet_calls {lits : List Literal} (hset : Covers vars seen set) (hrest : ∀ set', ReadsSet set' rest)
    : ReadsSet set (calls vars seen lits ++ rest) := by
  induction lits generalizing seen set with
  | nil => exact hrest set
  | cons lit lits ih =>
    rw [calls, List.append_assoc, List.cons_append]
    apply readsSet_arguments hset
    intro set' hset'
    exact readsSet_plain rfl rfl (ih hset')

theorem readsSet_append
    (hblock : ∀ instr ∈ block, instr.target? = none ∧ ∀ reg ∈ instr.source?, reg ∈ set)
    (hrest : ReadsSet set rest) : ReadsSet set (block ++ rest) := by
  induction block with
  | nil => exact hrest
  | cons instr block ih =>
    rcases hblock instr List.mem_cons_self with ⟨htarget, hsource⟩
    refine ⟨hsource, ?_⟩
    rw [htarget]
    exact ih fun instr' hinstr => hblock instr' (List.mem_cons_of_mem instr hinstr)

theorem readsSet_features {lits : List Literal} (hset : Covers vars seen set)
    (hvars : ∀ name ∈ lits.flatMap Literal.vars, name ∈ seen) (hrest : ReadsSet set rest)
    : ReadsSet set (features vars lits ++ rest) := by
  apply readsSet_append _ hrest
  simp only [features, List.cons_append, List.forall_mem_cons, List.forall_mem_append, List.mem_flatMap]
  refine ⟨⟨rfl, by simp [Instruction.source?]⟩, ?_, ⟨rfl, by simp [Instruction.source?]⟩, by simp⟩
  rintro instr ⟨lit, hlit, hinstr⟩
  rw [feature, List.mem_cons, List.mem_map] at hinstr
  rcases hinstr with rfl | ⟨term, hterm, rfl⟩
  . simp [Instruction.source?, Instruction.target?]
  . cases term with
    | const name => simp [Instruction.source?, Instruction.target?]
    | var name =>
      have hseen : register vars name ∈ set :=
        hset name (hvars name (List.mem_flatMap.mpr ⟨lit, hlit, Literal.mem_vars.mpr hterm⟩))
      simpa [Instruction.source?, Instruction.target?] using hseen

theorem readsSet_clause {clause : Clause} (hfeatures : clause.unboundFeatureVariable? = none)
    : ReadsSet [] clause.code := by
  rw [Clause.code, List.append_assoc, List.append_assoc]
  apply readsSet_plain rfl rfl
  apply readsSet_head (covers_nil _ _)
  intro set hset
  have hhead : Covers clause.vars clause.head.vars set := by simpa [Literal.vars] using hset
  apply readsSet_features hhead fun name => Clause.mem_head_of_feature hfeatures
  exact readsSet_calls hhead fun _ => readsSet_plain rfl rfl trivial

theorem readsSet_queryCode (goals : List Literal) : ReadsSet [] (queryCode goals) := by
  rw [queryCode, List.cons_append]
  apply readsSet_plain rfl rfl
  exact readsSet_calls (covers_nil _ _) fun _ => readsSet_plain rfl rfl trivial

/--
How the block of some literals uses the registers: it allocates one for each of their distinct variables.
-/
structure Seats (lits : List Literal) (block : List Instruction) : Prop where
  nodup : (queryVars lits).Nodup
  mem_vars : ∀ name : String, name ∈ queryVars lits ↔ .var name ∈ lits.flatMap Literal.args
  allocates : block.head? = some (.grow (queryVars lits).length)
  register_inj : Set.InjOn (register (queryVars lits)) {name | name ∈ queryVars lits}
  register_range : ∀ name ∈ queryVars lits,
    -((queryVars lits).length : Int) ≤ register (queryVars lits) name ∧ register (queryVars lits) name ≤ -1
  operands_eq : block.filterMap Instruction.operand? =
    (lits.flatMap Literal.args).map (Term.eval (numbered (queryVars lits)))
  set_before : ∀ (i : Nat) (reg : Int), block[i]?.bind Instruction.source? = some reg →
    ∃ j < i, block[j]?.bind Instruction.target? = some reg

theorem register_injOn (vars : List String) : Set.InjOn (register vars) {name | name ∈ vars} := by
  intro name hname name' _ heq
  unfold register at heq
  rw [← List.idxOf_inj hname]
  omega

theorem seats_of_readsSet {lits : List Literal} (hset : ReadsSet [] block)
    (hallocates : block.head? = some (.grow (queryVars lits).length))
    (hoperands : block.filterMap Instruction.operand? =
      (lits.flatMap Literal.args).map (Term.eval (numbered (queryVars lits))))
    : Seats lits block where
  nodup := nodup_eraseDups _
  mem_vars name := by
    rw [mem_queryVars, List.mem_flatMap]
    exact exists_congr fun lit => and_congr_right fun _ => Literal.mem_vars
  allocates := hallocates
  register_inj := register_injOn _
  register_range name hname := by
    refine ⟨neg_length_le_register hname, ?_⟩
    unfold register
    omega
  operands_eq := hoperands
  set_before i reg hread := (hset.exists_before hread).resolve_left List.not_mem_nil

theorem seats_clause {clause : Clause} (hfeatures : clause.unboundFeatureVariable? = none)
    : Seats (clause.head :: clause.features ++ clause.body) clause.code :=
  seats_of_readsSet (readsSet_clause hfeatures) rfl (operands_clause clause)

theorem seats_queryCode (goals : List Literal) : Seats goals (queryCode goals) :=
  seats_of_readsSet (readsSet_queryCode goals) rfl (operands_queryCode goals)

end Code

end HornMachine
