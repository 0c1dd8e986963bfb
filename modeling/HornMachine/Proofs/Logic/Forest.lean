import HornMachine.Proofs.Logic.Atom

/-!
This module contains proofs from the ground instances of some rules. A proof is an ordered forest with a
tree for each goal, or equivalently a leftmost derivation, which uses the rules in the preorder of the
forest.
-/

namespace HornMachine

def clausesOf (rules : List Clause) (sig : Signature) : List Clause :=
  rules.filter (·.head.signature = sig)

theorem signature_of_getElem?_clausesOf {rules : List Clause} {sig : Signature} {i : Nat}
    {clause : Clause} (h : (clausesOf rules sig)[i]? = some clause) : clause.head.signature = sig := by
  have hmem := List.mem_of_getElem? h
  simpa [clausesOf] using (List.mem_filter.mp hmem).2

/--
A ground instance of a rule: `choice` is the place of the clause among those of its predicate.
-/
structure RuleUse where
  clause : Clause
  choice : Nat
  assign : String → String

namespace RuleUse

def From (rules : List Clause) (use : RuleUse) : Prop :=
  (clausesOf rules use.clause.head.signature)[use.choice]? = some use.clause

instance (rules : List Clause) (use : RuleUse) : Decidable (use.From rules) :=
  inferInstanceAs (Decidable (_ = _))

def head (use : RuleUse) : Atom String :=
  use.clause.head.inst use.assign

def body (use : RuleUse) : List (Atom String) :=
  use.clause.body.map (Literal.inst use.assign)

end RuleUse

/--
An ordered forest: its first tree, with `use` at the root and the forest `children` below it, and the
other trees.
-/
inductive Forest where
  | nil
  | node (use : RuleUse) (children rest : Forest)

namespace Forest

/--
Each tree proves the goal in its place: the goal is the head of the instance at the root, and the
children prove the body.
-/
def Proves (rules : List Clause) : Forest → List (Atom String) → Prop
  | nil, goals => goals = []
  | node use children rest, goals =>
    ∃ goals', goals = use.head :: goals' ∧ use.From rules ∧ children.Proves rules use.body ∧
      rest.Proves rules goals'

def preorder : Forest → List RuleUse
  | nil => []
  | node use children rest => use :: (children.preorder ++ rest.preorder)

def size : Forest → Nat
  | nil => 0
  | node _ children rest => children.size + rest.size + 1

theorem length_preorder (forest : Forest) : forest.preorder.length = forest.size := by
  induction forest with
  | nil => rfl
  | node use children rest ihc ihr => simp [preorder, size, ihc, ihr]

theorem proves_append {rules : List Clause} {forest : Forest} {xs ys : List (Atom String)}
    (h : forest.Proves rules (xs ++ ys))
    : ∃ left right : Forest, left.Proves rules xs ∧ right.Proves rules ys ∧
        forest.preorder = left.preorder ++ right.preorder := by
  induction forest generalizing xs with
  | nil =>
    simp only [Proves, List.append_eq_nil_iff] at h
    exact ⟨nil, nil, h.1, h.2, rfl⟩
  | node use children rest _ ih =>
    cases xs with
    | nil => exact ⟨nil, node use children rest, rfl, h, rfl⟩
    | cons x xs =>
      rcases h with ⟨goals', heq, hfrom, hchildren, hrest⟩
      simp only [List.cons_append, List.cons.injEq] at heq
      rw [← heq.2] at hrest
      rcases ih hrest with ⟨left, right, hleft, hright, hpre⟩
      refine ⟨node use children left, right, ⟨xs, ?_, hfrom, hchildren, hleft⟩, hright, ?_⟩
      . rw [heq.1]
      . simp [preorder, hpre]

end Forest

/--
Leftmost resolution by ground instances: each use replaces the first goal by its body.
-/
inductive Derives (rules : List Clause)
    : List (Atom String) → List RuleUse → List (Atom String) → Prop where
  | done (goals : List (Atom String)) : Derives rules goals [] goals
  | resolve {use : RuleUse} {uses : List RuleUse} {goals goals' : List (Atom String)}
      (hfrom : use.From rules) (h : Derives rules (use.body ++ goals) uses goals')
      : Derives rules (use.head :: goals) (use :: uses) goals'

namespace Derives

theorem append {rules : List Clause} {goals goals' goals'' : List (Atom String)}
    {uses uses' : List RuleUse} (h : Derives rules goals uses goals')
    (h' : Derives rules goals' uses' goals'') : Derives rules goals (uses ++ uses') goals'' := by
  induction h with
  | done _ => exact h'
  | resolve hfrom _ ih => exact .resolve hfrom (ih h')

theorem of_forest {rules : List Clause} {forest : Forest} {goals : List (Atom String)}
    (h : forest.Proves rules goals) (rest : List (Atom String))
    : Derives rules (goals ++ rest) forest.preorder rest := by
  induction forest generalizing goals rest with
  | nil =>
    rw [Forest.Proves] at h
    rw [h]
    exact .done rest
  | node use children siblings ihc ihs =>
    rcases h with ⟨goals', heq, hfrom, hchildren, hsiblings⟩
    rw [heq]
    exact .resolve hfrom ((ihc hchildren (goals' ++ rest)).append (ihs hsiblings rest))

theorem exists_forest {rules : List Clause} {goals goals' : List (Atom String)}
    {uses : List RuleUse} (h : Derives rules goals uses goals') (hdone : goals' = [])
    : ∃ forest : Forest, forest.Proves rules goals ∧ forest.preorder = uses := by
  induction h with
  | done _ => exact ⟨.nil, hdone, rfl⟩
  | resolve hfrom _ ih =>
    rcases ih hdone with ⟨forest, hforest, hpre⟩
    -- the forest for body and rest falls into the children of the new node and its siblings
    rcases Forest.proves_append hforest with ⟨children, siblings, hchildren, hsiblings, happ⟩
    refine ⟨.node _ children siblings, ⟨_, rfl, hfrom, hchildren, hsiblings⟩, ?_⟩
    rw [Forest.preorder, ← happ, hpre]

end Derives

theorem derives_nil_iff {rules : List Clause} {goals : List (Atom String)} {uses : List RuleUse}
    : Derives rules goals uses [] ↔
      ∃ forest : Forest, forest.Proves rules goals ∧ forest.preorder = uses := by
  constructor
  . intro h
    exact h.exists_forest rfl
  . intro h
    rcases h with ⟨forest, hforest, hpre⟩
    have := Derives.of_forest hforest []
    rwa [List.append_nil, hpre] at this

end HornMachine
