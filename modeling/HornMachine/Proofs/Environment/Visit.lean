import HornMachine.Environment.Gather
import HornMachine.Proofs.Run.Step

/-!
This module contains the order in which a collection of features visits states: the worklist, on which the
states behind a step come in front of the others, makes the visit of a state a recursion over the levels
below it.
-/

namespace HornMachine

namespace Environment

/--
Visits a state and the states that steps lead to from it, in depth and from left to right, and puts the
features of the steps behind the goals `found` before. A state with no levels left must have come to its
end; if it has not, the fault names the `limit`.
-/
def visit (successors : State → Exec (List Outlink)) (limit : Nat)
    : (levels : Nat) → State → (found : List Goal) → Exec (List Goal)
  | 0, s, found => do
    if s.completed || s.failed then
      return found
    else
      throw (.findallDepthExceeded limit)
  | levels + 1, s, found => do
    if s.completed || s.failed then
      return found
    else
      let links ← successors s
      links.foldlM (fun found link => visit successors limit levels link.state found)
        (gatherLinks found links)

variable {successors : State → Exec (List Outlink)} {limit : Nat}

theorem visit_ended {s : State} (hended : (s.completed || s.failed) = true) (levels : Nat)
    (found : List Goal) : visit successors limit levels s found = pure found := by
  cases levels with
  | zero => rw [visit, if_pos hended]
  | succ levels => rw [visit, if_pos hended]

theorem visit_zero {s : State} (hended : ¬(s.completed || s.failed) = true) (found : List Goal)
    : visit successors limit 0 s found = throw (.findallDepthExceeded limit) := by
  rw [visit, if_neg hended]

theorem visit_succ {s : State} (hended : ¬(s.completed || s.failed) = true) (levels : Nat)
    (found : List Goal)
    : visit successors limit (levels + 1) s found =
      successors s >>= fun links =>
        links.foldlM (fun found link => visit successors limit levels link.state found)
          (gatherLinks found links) := by
  rw [visit, if_neg hended]

def visitEach (successors : State → Exec (List Outlink)) (limit : Nat) (work : List (State × Nat))
    (found : List Goal) : Exec (List Goal) :=
  work.foldlM (fun found entry => visit successors limit (limit - entry.2) entry.1 found) found

theorem visitEach_cons (s : State) (depth : Nat) (work : List (State × Nat)) (found : List Goal)
    : visitEach successors limit ((s, depth) :: work) found =
      visit successors limit (limit - depth) s found >>= visitEach successors limit work :=
  List.foldlM_cons

theorem visitEach_append (children work : List (State × Nat)) (found : List Goal)
    : visitEach successors limit (children ++ work) found =
      visitEach successors limit children found >>= visitEach successors limit work :=
  List.foldlM_append

theorem visitAll_eq_visitEach (work : List (State × Nat)) (found : List Goal) (m : Machine)
    : visitAll successors limit work found m = visitEach successors limit work found m := by
  induction work, found, m using visitAll.induct successors limit with
  | case1 found m =>
    rw [visitAll]
    rfl
  | case2 found m s depth work hended ih =>
    rw [visitAll, if_pos hended, ih, visitEach_cons, visit_ended hended, pure_bind]
  | case3 found m s depth work hended hdepth =>
    have hleft : limit - depth = 0 := by omega
    rw [visitAll, if_neg hended, dif_pos hdepth, visitEach_cons, hleft, visit_zero hended]
    rfl
  | case4 found m s depth work hended hdepth fault m' hlinks =>
    have hleft : limit - depth = limit - (depth + 1) + 1 := by omega
    rw [visitAll, if_neg hended, dif_neg hdepth, hlinks, visitEach_cons, hleft, visit_succ hended,
      bind_assoc, Exec.bind_of_error hlinks]
  | case5 found m s depth work hended hdepth links m' hlinks children ih =>
    have hleft : limit - depth = limit - (depth + 1) + 1 := by omega
    -- the states that come in front of the worklist are visited before the others
    have hchildren (found : List Goal)
        : visitEach successors limit children found =
          links.foldlM (fun found link => visit successors limit (limit - (depth + 1)) link.state found)
            found :=
      List.foldlM_map
    rw [visitAll, if_neg hended, dif_neg hdepth, hlinks, visitEach_cons, hleft, visit_succ hended,
      bind_assoc, Exec.bind_of_ok hlinks, ← hchildren, ← visitEach_append]
    exact ih

theorem gatherWith_eq_visit (env : Environment) (run : Runner) (addr : Nat)
    : env.gatherWith run addr =
      (do
        let m ← get
        modify fun m => { m with state := m.state.clearCalls, features := [] }
        let report ← run (some addr) true
        let start ← Exec.save
        let limit := env.config.maxFindallDepth
        Exec.resetTo m (visit (env.expand run) limit limit start (Features.gather [] report))) := by
  have hvisit (limit : Nat) (start : State) (found : List Goal)
      : visitAll (env.expand run) limit [(start, 0)] found =
        visit (env.expand run) limit limit start found := by
    funext m
    rw [visitAll_eq_visitEach, visitEach_cons, Nat.sub_zero]
    exact congrFun (bind_pure _) m
  unfold gatherWith
  simp only [hvisit]

end Environment

end HornMachine
