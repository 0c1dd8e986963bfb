import HornMachine.Clause.Basic
import HornMachine.Goal.Feature

/-!
This module contains the values that terms can take and the instances of literals. The values may be
constants only, or constants and variables, in which case an assignment of values is a substitution.
-/

namespace HornMachine

/--
A set of values among which the constants are and stay apart.
-/
class Domain (D : Type) where
  const : String → D
  const_inj : ∀ {a b : String}, const a = const b → a = b

instance : Domain String where
  const := id
  const_inj := id

instance : Domain Argument where
  const := .const
  const_inj h := by
    cases h
    rfl

structure Atom (D : Type) where
  functor : String
  args : List D
deriving DecidableEq

namespace Atom

def signature (atom : Atom D) : Signature :=
  ⟨atom.functor, atom.args.length⟩

def map (f : D → E) (atom : Atom D) : Atom E :=
  ⟨atom.functor, atom.args.map f⟩

end Atom

namespace Term

variable [Domain D]

def eval (assign : String → D) : Term → D
  | .const name => Domain.const name
  | .var name => assign name

end Term

namespace Literal

variable [Domain D]

def inst (assign : String → D) (lit : Literal) : Atom D :=
  ⟨lit.functor, lit.args.map (Term.eval assign)⟩

@[simp]
theorem functor_inst (assign : String → D) (lit : Literal)
    : (lit.inst assign).functor = lit.functor := rfl

@[simp]
theorem args_inst (assign : String → D) (lit : Literal)
    : (lit.inst assign).args = lit.args.map (Term.eval assign) := rfl

@[simp]
theorem signature_inst (assign : String → D) (lit : Literal)
    : (lit.inst assign).signature = lit.signature := by
  simp [Atom.signature, Literal.signature]

theorem mem_vars {lit : Literal} {name : String} : name ∈ lit.vars ↔ .var name ∈ lit.args := by
  simp only [vars, List.mem_filterMap]
  constructor
  . intro h
    rcases h with ⟨term, hmem, hterm⟩
    cases term with
    | const _ => simp [Term.var?] at hterm
    | var _ =>
      simp only [Term.var?, Option.some.injEq] at hterm
      rw [← hterm]
      exact hmem
  . intro h
    exact ⟨_, h, rfl⟩

theorem inst_congr {assign assign' : String → D} {lit : Literal}
    (h : ∀ name ∈ lit.vars, assign name = assign' name) : lit.inst assign = lit.inst assign' := by
  simp only [inst, Atom.mk.injEq, true_and]
  apply List.map_congr_left
  intro term hterm
  cases term with
  | const _ => rfl
  | var name => exact h name (mem_vars.mpr hterm)

def goal (assign : String → String) (lit : Literal) : Goal :=
  ⟨lit.functor, lit.args.map fun term => .const (term.eval assign)⟩

theorem goal_congr {assign assign' : String → String} {lit : Literal}
    (h : ∀ name ∈ lit.vars, assign name = assign' name) : lit.goal assign = lit.goal assign' := by
  simp only [goal, Goal.mk.injEq, true_and]
  apply List.map_congr_left
  intro term hterm
  cases term with
  | const _ => rfl
  | var name => rw [Term.eval, Term.eval, h name (mem_vars.mpr hterm)]

end Literal

namespace Clause

def report (clause : Clause) (assign : String → String) : Features :=
  match clause.features with
  | [] => Features.ofGoals [.noFeatures]
  | features => Features.ofGoals (features.map (Literal.goal assign))

theorem report_congr {clause : Clause} {assign assign' : String → String}
    (h : ∀ lit ∈ clause.features, ∀ name ∈ lit.vars, assign name = assign' name)
    : clause.report assign = clause.report assign' := by
  unfold report
  split
  . rfl
  . next features heq =>
    congr 1
    apply List.map_congr_left
    intro lit hlit
    apply Literal.goal_congr
    exact h lit hlit

end Clause

end HornMachine
