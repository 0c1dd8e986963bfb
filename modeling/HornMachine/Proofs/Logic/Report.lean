import HornMachine.Proofs.Logic.Atom

/-!
This module contains what a report says: the set of goals that it was made from.
-/

namespace HornMachine

namespace Features

theorem getElem?_foldl_insert (goals : List Goal) (features : Features) (goal : Goal)
    : (goals.foldl (fun features goal => features.insert goal 1) features)[goal]? =
      if goal ∈ goals then some 1 else features[goal]? := by
  induction goals generalizing features with
  | nil => rfl
  | cons g goals ih =>
    rw [List.foldl_cons, ih, Std.ExtTreeMap.getElem?_insert]
    by_cases hmem : goal ∈ goals
    . simp [hmem]
    . by_cases heq : g = goal
      . simp [heq]
      . simp [hmem, heq, Ne.symm heq]

theorem getElem?_ofGoals (goals : List Goal) (goal : Goal)
    : (ofGoals goals)[goal]? = if goal ∈ goals then some 1 else none := by
  unfold ofGoals
  rw [getElem?_foldl_insert]
  rfl

theorem ofGoals_congr {goals goals' : List Goal} (h : ∀ goal, goal ∈ goals ↔ goal ∈ goals')
    : ofGoals goals = ofGoals goals' := by
  apply Std.ExtTreeMap.ext_getElem?
  intro goal
  rw [getElem?_ofGoals, getElem?_ofGoals]
  simp only [h goal]

theorem isEmpty_ofGoals {goals : List Goal} (h : goals ≠ []) : (ofGoals goals).isEmpty = false := by
  rcases List.exists_mem_of_ne_nil goals h with ⟨goal, hmem⟩
  rw [Std.ExtTreeMap.isEmpty_eq_false_iff]
  intro hempty
  have hgoal := getElem?_ofGoals goals goal
  rw [hempty, if_pos hmem] at hgoal
  simp at hgoal

end Features

namespace Clause

theorem isEmpty_report (clause : Clause) (assign : String → String)
    : (clause.report assign).isEmpty = false := by
  unfold report
  split
  . exact Features.isEmpty_ofGoals (by simp)
  . next hne =>
    apply Features.isEmpty_ofGoals
    simpa using hne

theorem report_eq {clause : Clause} {assign : String → String} {stack : List Feature}
    (h : stack.map Feature.goal = (clause.features.map (Literal.goal assign)).reverse)
    : Features.report stack = clause.report assign := by
  cases stack with
  | nil =>
    have hnil : clause.features = [] := by
      simpa using h.symm
    simp [Features.report, report, hnil]
  | cons feature stack =>
    have hcons : clause.features ≠ [] := by
      intro hnil
      simp [hnil] at h
    unfold Features.report report
    split
    . contradiction
    . split
      . next hnil => exact absurd hnil hcons
      . rw [h]
        apply Features.ofGoals_congr
        simp

end Clause

end HornMachine
