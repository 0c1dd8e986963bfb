import HornMachine.Proofs.Environment.Collect
import HornMachine.Proofs.Environment.Runner

/-!
This module contains the order in which a collection finds features. It is that of a search in depth, where
the features of all steps from a state come before those of the steps further down.
-/

namespace HornMachine

namespace Features

theorem foldl_gather_eq (goals found : List Goal)
    : goals.foldl (fun found goal => if goal ∈ found then found else found ++ [goal]) found =
      found ++ (goals.filter (· ∉ found)).eraseDups := by
  induction goals generalizing found with
  | nil => simp
  | cons goal goals ih =>
    rw [List.foldl_cons, ih]
    by_cases hgoal : goal ∈ found
    . simp [hgoal]
    . have hfilter : goals.filter (· ∉ found ++ [goal]) =
          (goals.filter (· ∉ found)).filter (fun goal' => !goal' == goal) := by
        rw [List.filter_filter]
        apply List.filter_congr
        intro goal' _
        simp [Bool.beq_eq_decide_eq, and_comm]
      rw [if_neg hgoal, hfilter, List.filter_cons_of_pos (by simpa using hgoal), List.eraseDups_cons]
      simp

end Features

namespace Environment

def linkGoals (links : List Outlink) : List Goal :=
  (links.filterMap Outlink.features).flatMap Features.goals

theorem linkGoals_append (links links' : List Outlink)
    : linkGoals (links ++ links') = linkGoals links ++ linkGoals links' := by
  simp [linkGoals]

theorem linkGoals_report (features : Features) (s : State)
    : linkGoals [⟨some features, s⟩] = features.goals := by
  simp [linkGoals]

theorem linkGoals_flatten (lists : List (List Outlink))
    : linkGoals lists.flatten = (lists.map linkGoals).flatten := by
  induction lists with
  | nil => rfl
  | cons links lists ih => rw [List.flatten_cons, linkGoals_append, ih, List.map_cons, List.flatten_cons]

theorem gatherLinks_eq_eraseDups (report : Features) (links : List Outlink)
    : gatherLinks (Features.gather [] report) links = (report.goals ++ linkGoals links).eraseDups := by
  have hfold := Features.foldl_gather_eq (report.goals ++ linkGoals links) []
  rw [List.foldl_append, linkGoals, List.foldl_flatMap] at hfold
  simp only [List.not_mem_nil, not_false_eq_true, decide_true, List.filter_true, List.nil_append] at hfold
  exact hfold

/--
The goals that a search in depth from a state reports. A state that stopped at a report goes on from there:
first come the goals of that run, and then those of the search behind it. Of any other state the successors
are asked for, with features computed: first come the goals of all of them, one after another, and then for
each of them those of the search behind it. A state at the greatest depth must have come to its end.
-/
def emitted (env : Environment) (s : State) (depth : Nat) : Exec (List Goal) := do
  let limit := env.config.maxFindallDepth
  if s.completed || s.failed then
    return []
  else if _hdepth : limit ≤ depth then
    throw (.findallDepthExceeded limit)
  else if s.pc.isSome then
    Exec.restore s
    let features ← env.run none true
    let below ← emitted env (← Exec.save) (depth + 1)
    return features.goals ++ below
  else
    let links ← env.outlinks s true
    let below ← links.mapM fun link => emitted env link.state (depth + 1)
    return linkGoals links ++ below.flatten
termination_by env.config.maxFindallDepth - depth

theorem mapM_linkGoals (f : Outlink → Exec (List Outlink)) (links : List Outlink)
    : (links.mapM fun link => linkGoals <$> f link) = List.map linkGoals <$> links.mapM f := by
  induction links with
  | nil => simp
  | cons link links ih =>
    rw [List.mapM_cons, List.mapM_cons, ih]
    simp only [map_eq_pure_bind, bind_assoc, pure_bind, List.map_cons]

theorem emitted_eq_steps (env : Environment) (s : State) (depth : Nat)
    : env.emitted s depth =
      linkGoals <$> steps (env.expand env.run) env.config.maxFindallDepth
        (env.config.maxFindallDepth - depth) s := by
  generalize hlevels : env.config.maxFindallDepth - depth = levels
  induction levels generalizing s depth with
  | zero =>
    have hdepth : env.config.maxFindallDepth ≤ depth := by omega
    rw [emitted, steps]
    split
    . rw [map_pure]
      rfl
    . rfl
  | succ levels ih =>
    have hdepth : ¬env.config.maxFindallDepth ≤ depth := by omega
    rw [emitted, steps, expand]
    split
    . rw [map_pure]
      rfl
    cases s.pc with
    | some pc =>
      have hbelow (after : State)
          : env.emitted after (depth + 1) =
            linkGoals <$> steps (env.expand env.run) env.config.maxFindallDepth levels after :=
        ih after (depth + 1) (by omega)
      simp only [Option.isSome_some, if_true, hbelow, map_eq_pure_bind, bind_assoc, pure_bind,
        List.mapM_cons, List.mapM_nil, List.flatten_singleton, linkGoals_append, linkGoals_report]
    | none =>
      have hbelow (links : List Outlink)
          : (links.mapM fun link => env.emitted link.state (depth + 1)) =
            List.map linkGoals <$> links.mapM fun link =>
              steps (env.expand env.run) env.config.maxFindallDepth levels link.state := by
        simp only [ih _ (depth + 1) (by omega)]
        exact mapM_linkGoals _ links
      simp only [Option.isSome_none, Bool.false_eq_true, if_false, hbelow]
      simp only [outlinks, map_eq_pure_bind, bind_assoc, pure_bind, linkGoals_append, linkGoals_flatten]

section Collection

variable {env : Environment} {addr : Nat} {m m₁ : Machine}

theorem execute_ffindall_apply
    : env.execute (.ffindall addr) true m =
      match env.gather env.nesting addr m with
      | .ok goals m₂ => .ok ∅ { m₂ with
          state := m.state.advance
          features := goals.reverse.map Feature.ofGoal ++ m.features }
      | .error fault m₂ => .error fault m₂ := by
  show ((env.gather env.nesting addr >>= _) m) = _
  rw [Exec.bind_apply]
  cases env.gather env.nesting addr m with
  | ok goals m₂ => rfl
  | error fault m₂ => rfl

theorem gatherWith_run_apply {report : Features}
    (hrun : env.run (some addr) true { m with state := m.state.clearCalls, features := [] } =
      .ok report m₁)
    : env.gatherWith env.run addr m =
      match env.emitted m₁.state 0 m₁ with
      | .ok goals m₂ => .ok (report.goals ++ goals).eraseDups
          { m₂ with state := m.state, features := m.features }
      | .error fault m₂ => .error fault { m₂ with state := m.state, features := m.features } := by
  rw [gatherWith_eq_visit]
  show (env.run (some addr) true >>= _) { m with state := m.state.clearCalls, features := [] } = _
  rw [Exec.bind_of_ok hrun]
  show Exec.resetTo m (visit _ _ _ m₁.state _) m₁ = _
  rw [Exec.resetTo, visit_eq, emitted_eq_steps, Nat.sub_zero, Exec.map_apply, Exec.map_apply]
  cases steps (env.expand env.run) env.config.maxFindallDepth env.config.maxFindallDepth m₁.state m₁ with
  | ok links m₂ => simp only [gatherLinks_eq_eraseDups]
  | error fault m₂ => rfl

/--
A collection that does not use up the allowance for collections inside one another finds, after the report
of its first run, what a search in depth reports behind it, each goal where it comes first. It comes to a
fault if that search does. In either case the state and the features under construction are put back.
-/
theorem ffindall_eq_emitted {tables : List FactTable} {report : Features}
    (hplugins : env.plugins = tables.map FactTable.plugin)
    (hnesting : ∀ m', env.execute (.ffindall addr) true m ≠ .error .nestingExceeded m')
    (hrun : env.run (some addr) true { m with state := m.state.clearCalls, features := [] } =
      .ok report m₁)
    : env.execute (.ffindall addr) true m =
      match env.emitted m₁.state 0 m₁ with
      | .ok goals m₂ => .ok ∅ { m₂ with
          state := m.state.advance
          features := ((report.goals ++ goals).eraseDups.map Feature.ofGoal).reverse ++ m.features }
      | .error fault m₂ => .error fault { m₂ with state := m.state, features := m.features } := by
  have hgather : env.gather env.nesting addr m = env.gatherWith env.run addr m := by
    apply gather_eq_gatherWith_run hplugins
    intro m' heq
    apply hnesting m'
    rw [execute_ffindall_apply, heq]
  rw [execute_ffindall_apply, hgather, gatherWith_run_apply hrun]
  cases env.emitted m₁.state 0 m₁ with
  | ok goals m₂ => simp only [List.map_reverse]
  | error fault m₂ => rfl

end Collection

namespace Sample

def fork : Environment where
  program := {
    code := #[.callp "p/0", .returnp,
      .fclear, .fpushStart "one" 0, .freport, .callp "q/0", .returnp,
      .fclear, .fpushStart "two" 0, .freport, .returnp,
      .fclear, .fpushStart "two" 0, .fpushStart "three" 0, .freport, .returnp,
      .fclear, .fpushStart "zero" 0, .freport, .callp "p/0", .returnp]
    clauses := #[("p/0", 2), ("p/0", 7), ("q/0", 11)] }

def announced : Machine where
  state := { pc := some 19 }
  features := [⟨"zero", 0, []⟩]

end Sample

theorem ffindall_eq_emitted_sample
    : Sample.fork.run (some 16) true {} = .ok (.ofGoals [⟨"zero", []⟩]) Sample.announced ∧
      ∃ m₂, Sample.fork.emitted Sample.announced.state 0 Sample.announced =
          .ok [⟨"one", []⟩, ⟨"two", []⟩, ⟨"three", []⟩, ⟨"two", []⟩] m₂ ∧
        Sample.fork.execute (.ffindall 16) true {} = .ok ∅ { m₂ with
          state := ({} : State).advance
          features := [⟨"three", 0, []⟩, ⟨"two", 0, []⟩, ⟨"one", 0, []⟩, ⟨"zero", 0, []⟩] } := by
  have hrun : Sample.fork.run (some 16) true {} =
      .ok (.ofGoals [⟨"zero", []⟩]) Sample.announced := by decide +kernel
  have hemitted : Sample.fork.emitted Sample.announced.state 0 Sample.announced =
      .ok [⟨"one", []⟩, ⟨"two", []⟩, ⟨"three", []⟩, ⟨"two", []⟩]
        { state := { pc := some 20, completed := true }, features := [⟨"three", 0, []⟩, ⟨"two", 0, []⟩] } := by
    decide +kernel
  have hgather : Sample.fork.gather Sample.fork.nesting 16 {} =
      .ok [⟨"zero", []⟩, ⟨"one", []⟩, ⟨"two", []⟩, ⟨"three", []⟩] {} := by
    show Sample.fork.gatherWith (Sample.fork.program.run (Sample.fork.gather 999)) 16 {} = _
    rw [gatherWith_eq_visit]
    decide +kernel
  have hnesting (m' : Machine) : Sample.fork.execute (.ffindall 16) true {} ≠ .error .nestingExceeded m' := by
    rw [execute_ffindall_apply, hgather]
    nofun
  have hplugins : Sample.fork.plugins = ([] : List FactTable).map FactTable.plugin := rfl
  have heq := ffindall_eq_emitted hplugins hnesting hrun
  rw [hemitted] at heq
  exact ⟨hrun, _, hemitted, heq⟩

end Environment

end HornMachine
