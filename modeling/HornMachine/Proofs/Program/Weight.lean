import HornMachine.Proofs.Program.Compile
import Mathlib.Algebra.GroupWithZero.Nat
import Mathlib.Data.List.MinMax
import Mathlib.Order.WellFoundedSet

/-!
This module contains the weights of the predicates of rules that are not recursive. The weight of a
predicate bounds the number of calls in a proof of it, and the code of a block has the weight of the calls
that are left to make in it.
-/

namespace HornMachine

def LabelCalls (rules : List Clause) (caller callee : String) : Prop :=
  ∃ rule ∈ rules, rule.head.signature.label = caller ∧
    ∃ lit ∈ rule.body, lit.signature.label = callee

def NonRecursive (rules : List Clause) : Prop :=
  ∀ label, ¬Relation.TransGen (LabelCalls rules) label label

def weightOf (weight : String → Nat) (goals : List Literal) : Nat :=
  (goals.map fun goal => weight goal.signature.label).sum

namespace NonRecursive

variable {rules : List Clause}

theorem of_rank (rank : String → Nat)
    (hrank : ∀ rule ∈ rules, ∀ lit ∈ rule.body,
      rank lit.signature.label < rank rule.head.signature.label) : NonRecursive rules := by
  have hcalls : ∀ {caller callee : String}, LabelCalls rules caller callee →
      rank callee < rank caller := by
    rintro _ _ ⟨rule, hrule, rfl, lit, hlit, rfl⟩
    exact hrank rule hrule lit hlit
  have hchain : ∀ {caller callee : String}, Relation.TransGen (LabelCalls rules) caller callee →
      rank callee < rank caller := by
    intro caller callee hchain
    induction hchain with
    | single hcall => exact hcalls hcall
    | tail _ hcall ih => exact (hcalls hcall).trans ih
  intro label hcycle
  exact Nat.lt_irrefl _ (hchain hcycle)

def labels (rules : List Clause) : List String :=
  rules.flatMap fun rule => (rule.head :: rule.body).map fun lit => lit.signature.label

theorem mem_labels {caller callee : String} (h : LabelCalls rules caller callee)
    : caller ∈ labels rules ∧ callee ∈ labels rules := by
  rcases h with ⟨rule, hrule, rfl, lit, hlit, rfl⟩
  have hmem : ∀ lit ∈ rule.head :: rule.body, lit.signature.label ∈ labels rules := by
    intro lit hlit
    exact List.mem_flatMap.mpr ⟨rule, hrule, List.mem_map_of_mem hlit⟩
  exact ⟨hmem _ List.mem_cons_self, hmem lit (List.mem_cons_of_mem _ hlit)⟩

/--
There are finitely many predicates, so calls that never come back to one of them end.
-/
theorem wellFounded (h : NonRecursive rules)
    : WellFounded fun callee caller => LabelCalls rules caller callee := by
  let below (callee caller : String) : Prop := Relation.TransGen (LabelCalls rules) caller callee
  have hstrict : IsStrictOrder String below :=
    { irrefl := h, trans := fun _ _ _ hab hbc => hbc.trans hab }
  have hfinite : {label | label ∈ labels rules}.Finite := List.finite_toSet _
  have hbelow := Set.wellFoundedOn_iff.mp (hfinite.wellFoundedOn (r := below))
  apply Subrelation.wf _ hbelow
  intro callee caller hcalls
  rcases mem_labels hcalls with ⟨hcaller, hcallee⟩
  exact ⟨.single hcalls, hcallee, hcaller⟩

/--
One more than the greatest weight of a body among the rules for a predicate.
-/
def weight (h : NonRecursive rules) (label : String) : Nat :=
  let bodies := (rules.filter fun rule => rule.head.signature.label = label).attach.map fun rule =>
    (rule.1.body.attach.map fun lit => weight h lit.1.signature.label).sum
  1 + bodies.foldr max 0
termination_by h.wellFounded.wrap label
decreasing_by
  have hrule := List.mem_filter.mp rule.2
  exact ⟨rule.1, hrule.1, of_decide_eq_true hrule.2, lit.1, lit.2, rfl⟩

theorem weight_eq (h : NonRecursive rules) (label : String)
    : h.weight label =
      1 + ((rules.filter fun rule => rule.head.signature.label = label).map fun rule =>
        weightOf h.weight rule.body).foldr max 0 := by
  rw [weight]
  simp only [List.attach_map_val (f := fun lit : Literal => h.weight lit.signature.label)]
  exact congrArg (fun bodies => 1 + bodies.foldr max 0)
    (List.attach_map_val (f := fun rule : Clause => weightOf h.weight rule.body))

theorem one_le_weight (h : NonRecursive rules) (label : String) : 1 ≤ h.weight label := by
  rw [weight_eq]
  exact Nat.le_add_right 1 _

theorem weightOf_body_lt (h : NonRecursive rules) {rule : Clause} (hrule : rule ∈ rules)
    : weightOf h.weight rule.body < h.weight rule.head.signature.label := by
  rw [weight_eq, Nat.add_comm, Nat.lt_succ_iff]
  have hmem : rule ∈ rules.filter fun rule' =>
      rule'.head.signature.label = rule.head.signature.label :=
    List.mem_filter.mpr ⟨hrule, by simp⟩
  exact List.le_max_of_le' 0 (List.mem_map_of_mem hmem) (Nat.le_refl _)

end NonRecursive

theorem weightOf_nil (weight : String → Nat) : weightOf weight [] = 0 := rfl

theorem weightOf_cons (weight : String → Nat) (goal : Literal) (goals : List Literal)
    : weightOf weight (goal :: goals) = weight goal.signature.label + weightOf weight goals := by
  simp [weightOf]

namespace Instruction

def isSilent : Instruction → Bool
  | callp _ | returnp | freport => false
  | _ => true

end Instruction

namespace Code

/--
The weight of the calls up to the next return.
-/
def weight (w : String → Nat) : List Instruction → Nat
  | [] => 0
  | .callp label :: block => w label + weight w block
  | .returnp :: _ => 0
  | _ :: block => weight w block

def Calm : List Instruction → Prop
  | [] => True
  | .returnp :: _ => True
  | .freport :: _ => False
  | _ :: block => Calm block

/--
A report comes before any call, and nothing more is reported up to the next return.
-/
def Opens : List Instruction → Prop
  | [] => False
  | .callp _ :: _ => False
  | .returnp :: _ => False
  | .freport :: block => Calm block
  | _ :: block => Opens block

section Silent

variable {instr : Instruction} (h : instr.isSilent = true) (block : List Instruction)
include h

theorem weight_silent (w : String → Nat) : weight w (instr :: block) = weight w block := by
  cases instr with
  | callp _ => contradiction
  | returnp => contradiction
  | _ => rfl

theorem calm_silent : Calm (instr :: block) = Calm block := by
  cases instr with
  | returnp => contradiction
  | freport => contradiction
  | _ => rfl

theorem opens_silent : Opens (instr :: block) = Opens block := by
  cases instr with
  | callp _ => contradiction
  | returnp => contradiction
  | freport => contradiction
  | _ => rfl

end Silent

theorem skip_silent {β : Sort*} {f : List Instruction → β} {block : List Instruction}
    (hf : ∀ {instr : Instruction}, instr.isSilent = true → ∀ rest, f (instr :: rest) = f rest)
    (h : ∀ instr ∈ block, instr.isSilent = true) (rest : List Instruction)
    : f (block ++ rest) = f rest := by
  induction block with
  | nil => rfl
  | cons instr block ih =>
    rw [List.cons_append, hf (h instr List.mem_cons_self)]
    exact ih fun instr' hmem => h instr' (List.mem_cons_of_mem _ hmem)

section SilentBlock

variable {block : List Instruction} (h : ∀ instr ∈ block, instr.isSilent = true)
  (rest : List Instruction)
include h

theorem weight_silent_append (w : String → Nat) : weight w (block ++ rest) = weight w rest :=
  skip_silent (fun h rest => weight_silent h rest w) h rest

theorem calm_silent_append : Calm (block ++ rest) = Calm rest :=
  skip_silent calm_silent h rest

theorem opens_silent_append : Opens (block ++ rest) = Opens rest :=
  skip_silent opens_silent h rest

end SilentBlock

theorem isSilent_head (vars : List String) (offset : Int) (seen : List String) (args : List Term)
    : ∀ instr ∈ head vars offset seen args, instr.isSilent = true := by
  fun_induction head vars offset seen args with
  | case1 => simp
  | case2 => simp_all [Instruction.isSilent]
  | case3 => simp_all [Instruction.isSilent]
  | case4 => simp_all [Instruction.isSilent]

theorem isSilent_arguments (vars seen : List String) (args : List Term)
    : ∀ instr ∈ arguments vars seen args, instr.isSilent = true := by
  fun_induction arguments vars seen args with
  | case1 => simp
  | case2 => simp_all [Instruction.isSilent]
  | case3 => simp_all [Instruction.isSilent]
  | case4 => simp_all [Instruction.isSilent]

theorem isSilent_of_mem_feature {vars : List String} {lit : Literal} {instr : Instruction}
    (h : instr ∈ feature vars lit) : instr.isSilent = true := by
  rcases List.mem_cons.mp h with rfl | h
  . rfl
  . rcases List.mem_map.mp h with ⟨term, _, rfl⟩
    cases term with
    | const _ => rfl
    | var _ => rfl

theorem exists_features (vars : List String) (lits : List Literal)
    : ∃ block, features vars lits = block ++ [.freport] ∧ ∀ instr ∈ block, instr.isSilent = true := by
  refine ⟨.fclear :: lits.flatMap (feature vars), rfl, ?_⟩
  intro instr hinstr
  rcases List.mem_cons.mp hinstr with rfl | hinstr
  . rfl
  . rcases List.mem_flatMap.mp hinstr with ⟨lit, _, hmem⟩
    exact isSilent_of_mem_feature hmem

theorem weight_calls (w : String → Nat) (vars seen : List String) (lits : List Literal)
    (rest : List Instruction)
    : weight w (calls vars seen lits ++ rest) = weightOf w lits + weight w rest := by
  fun_induction calls vars seen lits with
  | case1 => rw [List.nil_append, weightOf_nil, Nat.zero_add]
  | case2 seen lit lits ih =>
    rw [List.append_assoc, List.cons_append, weight_silent_append (isSilent_arguments _ _ _)]
    rw [weight, ih, weightOf_cons, Nat.add_assoc]

theorem calm_calls (vars seen : List String) (lits : List Literal) {rest : List Instruction}
    (h : Calm rest) : Calm (calls vars seen lits ++ rest) := by
  fun_induction calls vars seen lits with
  | case1 => exact h
  | case2 seen lit lits ih =>
    rw [List.append_assoc, List.cons_append, calm_silent_append (isSilent_arguments _ _ _)]
    exact ih

section Blocks

variable (rest : List Instruction)

theorem weight_queryCode (w : String → Nat) (goals : List Literal)
    : weight w (queryCode goals ++ rest) = weightOf w goals := by
  have hcode : queryCode goals ++ rest =
      [.grow (queryVars goals).length] ++ (calls (queryVars goals) [] goals ++ .returnp :: rest) := by
    simp [queryCode]
  rw [hcode, weight_silent_append (by simp [Instruction.isSilent]), weight_calls]
  rfl

theorem calm_queryCode (goals : List Literal) : Calm (queryCode goals ++ rest) := by
  have hcalls : Calm (calls (queryVars goals) [] goals ++ .returnp :: rest) := calm_calls _ _ _ trivial
  simp only [queryCode, List.cons_append, List.append_assoc, List.nil_append]
  exact hcalls

theorem exists_clause (clause : Clause)
    : ∃ block, (∀ instr ∈ block, instr.isSilent = true) ∧
        clause.code ++ rest = block ++ .freport ::
          (calls clause.vars clause.head.vars clause.body ++ .returnp :: rest) := by
  rcases exists_features clause.vars clause.features with ⟨block, hfeatures, hsilent⟩
  refine ⟨.grow clause.vars.length ::
    (head clause.vars (-clause.head.args.length) [] clause.head.args ++ block), ?_, ?_⟩
  . intro instr hinstr
    rw [List.mem_cons, List.mem_append] at hinstr
    rcases hinstr with rfl | hinstr | hinstr
    . rfl
    . exact isSilent_head _ _ _ _ instr hinstr
    . exact hsilent instr hinstr
  . simp [Clause.code, hfeatures]

theorem weight_clause (w : String → Nat) (clause : Clause)
    : weight w (clause.code ++ rest) = weightOf w clause.body := by
  rcases exists_clause rest clause with ⟨block, hsilent, heq⟩
  rw [heq, weight_silent_append hsilent, weight, weight_calls]
  . rfl
  . simp
  . simp

theorem opens_clause (clause : Clause) : Opens (clause.code ++ rest) := by
  rcases exists_clause rest clause with ⟨block, hsilent, heq⟩
  rw [heq, opens_silent_append hsilent]
  exact calm_calls _ _ _ trivial

end Blocks

end Code

end HornMachine
