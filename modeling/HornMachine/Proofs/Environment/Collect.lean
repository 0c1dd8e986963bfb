import HornMachine.Proofs.Environment.Visit
import HornMachine.Proofs.Logic.Report

/-!
This module contains what a collection of features finds: the report of its first run and the features of
the steps that the search behind it makes, and nothing else. A step has the features of its first report
only, so a report that comes later in the same step is lost.
-/

namespace HornMachine

namespace Features

theorem mem_goals {features : Features} {goal : Goal} : goal ∈ features.goals ↔ goal ∈ features := by
  exact Std.ExtTreeMap.mem_keys

theorem mem_foldl_gather {goals found : List Goal} {goal : Goal}
    : goal ∈ goals.foldl (fun found goal => if goal ∈ found then found else found ++ [goal]) found ↔
      goal ∈ found ∨ goal ∈ goals := by
  induction goals generalizing found with
  | nil => simp
  | cons goal' goals ih =>
    rw [List.foldl_cons, ih, List.mem_cons]
    split
    . grind
    . grind

theorem nodup_foldl_gather {goals found : List Goal} (h : found.Nodup)
    : (goals.foldl (fun found goal => if goal ∈ found then found else found ++ [goal]) found).Nodup := by
  induction goals generalizing found with
  | nil => exact h
  | cons goal goals ih =>
    rw [List.foldl_cons]
    apply ih
    split
    . exact h
    . next hnew => exact List.nodup_append.mpr ⟨h, List.nodup_singleton goal, by grind⟩

theorem mem_gather {found : List Goal} {features : Features} {goal : Goal}
    : goal ∈ gather found features ↔ goal ∈ found ∨ goal ∈ features := by
  rw [gather, mem_foldl_gather, mem_goals]

theorem nodup_gather {found : List Goal} (features : Features) (h : found.Nodup)
    : (gather found features).Nodup :=
  nodup_foldl_gather h

end Features

namespace Environment

theorem gatherLinks_append (found : List Goal) (links links' : List Outlink)
    : gatherLinks found (links ++ links') = gatherLinks (gatherLinks found links) links' := by
  rw [gatherLinks, List.filterMap_append, List.foldl_append, gatherLinks, gatherLinks]

theorem mem_gatherLinks {found : List Goal} {links : List Outlink} {goal : Goal}
    : goal ∈ gatherLinks found links ↔
      goal ∈ found ∨ ∃ link ∈ links, ∃ features, link.features = some features ∧ goal ∈ features := by
  unfold gatherLinks
  induction links generalizing found with
  | nil => simp
  | cons link links ih =>
    cases hfeatures : link.features with
    | none =>
      rw [List.filterMap_cons_none hfeatures, ih]
      simp [hfeatures]
    | some features =>
      rw [List.filterMap_cons_some hfeatures, List.foldl_cons, ih, Features.mem_gather]
      simp [hfeatures, or_assoc]

theorem nodup_gatherLinks {found : List Goal} (links : List Outlink) (h : found.Nodup)
    : (gatherLinks found links).Nodup := by
  unfold gatherLinks
  generalize links.filterMap Outlink.features = reports
  induction reports generalizing found with
  | nil => exact h
  | cons features reports ih => exact ih (Features.nodup_gather features h)

def steps (successors : State → Exec (List Outlink)) (limit : Nat)
    : (levels : Nat) → State → Exec (List Outlink)
  | 0, s => do
    if s.completed || s.failed then
      return []
    else
      throw (.findallDepthExceeded limit)
  | levels + 1, s => do
    if s.completed || s.failed then
      return []
    else
      let links ← successors s
      let below ← links.mapM fun link => steps successors limit levels link.state
      return links ++ below.flatten

theorem foldlM_gatherLinks (f : Outlink → Exec (List Outlink)) (found : List Goal) (links : List Outlink)
    : links.foldlM (fun found link => gatherLinks found <$> f link) found =
      (fun below => gatherLinks found below.flatten) <$> links.mapM f := by
  induction links generalizing found with
  | nil => simp [gatherLinks]
  | cons link links ih =>
    rw [List.foldlM_cons, List.mapM_cons]
    simp only [ih, bind_map_left]
    simp only [map_eq_pure_bind, bind_assoc, pure_bind, List.flatten_cons, gatherLinks_append]

theorem visit_eq (successors : State → Exec (List Outlink)) (limit levels : Nat) (s : State)
    (found : List Goal)
    : visit successors limit levels s found =
      gatherLinks found <$> steps successors limit levels s := by
  induction levels generalizing s found with
  | zero =>
    unfold visit steps
    split
    . simp [gatherLinks]
    . rfl
  | succ levels ih =>
    unfold visit steps
    split
    . simp [gatherLinks]
    . have hfold (links : List Outlink) (found : List Goal)
          : links.foldlM (fun found link => visit successors limit levels link.state found) found =
            (fun below => gatherLinks found below.flatten) <$>
              links.mapM fun link => steps successors limit levels link.state := by
        simp only [ih]
        exact foldlM_gatherLinks _ found links
      simp only [hfold]
      simp only [map_eq_pure_bind, bind_assoc, pure_bind, gatherLinks_append]

section

variable {env : Environment} {run : Runner} {addr : Nat} {m m' : Machine}

theorem gatherWith_eq_ok {goals : List Goal} (h : env.gatherWith run addr m = .ok goals m')
    : ∃ report m₁ links m₂,
        run (some addr) true { m with state := m.state.clearCalls, features := [] } = .ok report m₁ ∧
        steps (env.expand run) env.config.maxFindallDepth env.config.maxFindallDepth m₁.state m₁ =
          .ok links m₂ ∧
        goals = gatherLinks (Features.gather [] report) links ∧
        m' = { m₂ with state := m.state, features := m.features } := by
  rw [gatherWith_eq_visit] at h
  simp only [Exec.bind_eq_ok] at h
  rcases h with ⟨_, _, ⟨⟩, _, _, ⟨⟩, report, m₁, hrun, _, _, ⟨⟩, h⟩
  unfold Exec.resetTo at h
  split at h
  . next found m₂ hvisit =>
      cases h
      rw [visit_eq, Exec.map_apply] at hvisit
      split at hvisit
      . next links _ hlinks =>
          cases hvisit
          exact ⟨report, m₁, links, m₂, hrun, hlinks, rfl, rfl⟩
      . contradiction
  . contradiction

/--
A collection finds each goal once, and it finds what the run from `addr` reports first and what the steps
behind that run have as features.
-/
theorem execute_ffindall {report : Features} (h : env.execute (.ffindall addr) true m = .ok report m')
    : ∃ nesting first m₁ links m₂, ∃ goals : List Goal,
        env.nesting = nesting + 1 ∧
        env.program.run (env.gather nesting) (some addr) true
          { m with state := m.state.clearCalls, features := [] } = .ok first m₁ ∧
        steps (env.expand (env.program.run (env.gather nesting))) env.config.maxFindallDepth
          env.config.maxFindallDepth m₁.state m₁ = .ok links m₂ ∧
        m' = { m₂ with
          state := m.state.advance
          features := goals.reverse.map Feature.ofGoal ++ m.features } ∧
        goals.Nodup ∧
        ∀ goal, goal ∈ goals ↔
          goal ∈ first ∨ ∃ link ∈ links, ∃ features, link.features = some features ∧ goal ∈ features := by
  unfold execute HornMachine.execute at h
  simp only [Bool.not_true, Bool.and_false, Bool.false_eq_true, if_false, Exec.bind_eq_ok] at h
  rcases h with ⟨_, _, ⟨⟩, goals, m₃, hgather, h⟩
  cases hnesting : env.nesting with
  | zero =>
    rw [hnesting] at hgather
    cases hgather
  | succ nesting =>
    rw [hnesting] at hgather
    rcases gatherWith_eq_ok hgather with ⟨first, m₁, links, m₂, hrun, hsteps, hgoals, hm₃⟩
    cases h
    refine ⟨nesting, first, m₁, links, m₂, goals, rfl, hrun, hsteps, ?_, ?_, ?_⟩
    . simp [hm₃]
    . rw [hgoals]
      exact nodup_gatherLinks links (Features.nodup_gather first List.nodup_nil)
    . intro goal
      rw [hgoals, mem_gatherLinks, Features.mem_gather]
      simp

end

namespace Sample

def twice : Environment where
  program := {
    code := #[.callp "p/0", .returnp, .fclear, .fpushStart "one" 0, .freport,
      .fclear, .fpushStart "two" 0, .freport, .returnp]
    clauses := #[("p/0", 2)] }

def calling : State where
  calls := [⟨0, 0, 1, none⟩]
  pc := none
  jumpTo := some "p/0"

def reported : State where
  calls := [⟨0, 0, 1, none⟩]
  pc := some 8
  jumpTo := some "p/0"

theorem execute_twice
    : twice.execute (.ffindall 0) true {} =
      .ok ∅ { state := ({} : State).advance, features := [⟨"one", 0, []⟩] } := by
  have hgather : twice.gather twice.nesting 0 {} = .ok [⟨"one", []⟩] {} := by
    show twice.gatherWith (twice.program.run (twice.gather 999)) 0 {} = _
    rw [gatherWith_eq_visit]
    decide +kernel
  show (twice.gather twice.nesting 0 >>= _) {} = _
  rw [Exec.bind_of_ok hgather]
  rfl

end Sample

/--
The step of the call is kept, but the report of the run behind the first report of its clause is lost.
-/
theorem ffindall_drops_report
    : Sample.twice.outlinks Sample.calling true {} =
        .ok [⟨some (.ofGoals [⟨"one", []⟩]), Sample.reported⟩]
          { state := Sample.reported, features := [⟨"two", 0, []⟩] } ∧
      Sample.twice.run (some 2) true { state := Sample.calling } =
        .ok (.ofGoals [⟨"one", []⟩])
          { state := { Sample.calling with pc := some 5 }, features := [⟨"one", 0, []⟩] } ∧
      Sample.twice.run none true
          { state := { Sample.calling with pc := some 5 }, features := [⟨"one", 0, []⟩] } =
        .ok (.ofGoals [⟨"two", []⟩]) { state := Sample.reported, features := [⟨"two", 0, []⟩] } ∧
      Sample.twice.execute (.ffindall 0) true {} =
        .ok ∅ { state := ({} : State).advance, features := [⟨"one", 0, []⟩] } := by
  refine ⟨?_, ?_, ?_, Sample.execute_twice⟩ <;> decide +kernel

theorem execute_ffindall_sample
    : ∃ nesting first m₁ links m₂,
        Sample.twice.nesting = nesting + 1 ∧
        Sample.twice.program.run (Sample.twice.gather nesting) (some 0) true {} = .ok first m₁ ∧
        steps (Sample.twice.expand (Sample.twice.program.run (Sample.twice.gather nesting)))
          8 8 m₁.state m₁ = .ok links m₂ ∧
        ∀ goal, goal = ⟨"one", []⟩ ↔
          goal ∈ first ∨ ∃ link ∈ links, ∃ features, link.features = some features ∧ goal ∈ features := by
  rcases execute_ffindall Sample.execute_twice with
    ⟨nesting, first, m₁, links, m₂, goals, hnesting, hrun, hsteps, hm', -, hgoals⟩
  refine ⟨nesting, first, m₁, links, m₂, hnesting, hrun, hsteps, ?_⟩
  have hone : goals = [⟨"one", []⟩] := by
    have h := congrArg (fun m => m.features.map Feature.goal) hm'
    have hmap : Feature.goal ∘ Feature.ofGoal = id := rfl
    simpa [hmap, Feature.goal, eq_comm, List.reverse_eq_iff] using h
  intro goal
  rw [← hgoals, hone, List.mem_singleton]

end Environment

end HornMachine
