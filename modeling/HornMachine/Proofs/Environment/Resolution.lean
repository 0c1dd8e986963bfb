import HornMachine.Proofs.Environment.Follow
import HornMachine.Proofs.Environment.Reach
import HornMachine.Proofs.Run.Goals

/-!
This module contains the step from a waiting state to its successors as resolution: a clause whose head
unifies with the first goal replaces this goal by its body, under a most general unifier.
-/

namespace HornMachine

open Level

def resolved (clause : Clause) (rest : List (Atom (Pattern Place)))
    (t : Place ⊕ String → Pattern (Place ⊕ String)) : List (Atom (Pattern (Place ⊕ String))) :=
  (clause.body.map Literal.apart ++ rest.map Atom.left).map (Atom.eval t)

/--
The successor `s` comes from `goal` and the goals `rest` behind it by resolution with a clause.
-/
structure Resolves (program : Program) (symbols : SymbolTable) (goal : Atom (Pattern Place))
    (rest : List (Atom (Pattern Place))) (clause : Clause) (s : State) : Prop where
  failed_iff : s.failed = true ↔ ¬∃ t, Unifies goal.left clause.head.apart t
  unifier : s.failed = false → ∃ t, MostGeneral (Unifies goal.left clause.head.apart) t
  completed_iff : s.failed = false → (s.completed = true ↔ clause.body = [] ∧ rest = [])
  denotes : s.failed = false → s.completed = false →
    ∃ goal' rest', s.Denotes program symbols goal' rest' ∧
      ∀ t, MostGeneral (Unifies goal.left clause.head.apart) t →
        Renames (goal' :: rest') (resolved clause rest t)

theorem resolved_eq (clause : Clause) (rest : List (Atom (Pattern Place)))
    (t : Place ⊕ String → Pattern (Place ⊕ String))
    : resolved clause rest t = clause.body.map (Literal.inst fun name => t (.inr name)) ++
        rest.map (Atom.eval fun v => t (.inl v)) := by
  simp only [resolved, List.map_append, List.map_map, Function.comp_def, Atom.eval_left,
    Literal.eval_apart]

section Resolution

variable {program : Program} {symbols symbols' : SymbolTable} {s : State} {sig : Signature}
  {l : Level} {ls : List Level} {clause : Clause} {d : Denotation}

theorem Paused.exists_goals (h : Paused program symbols s d) (D : Type) [Domain D]
    : ∃ goals as, d D goals as := by
  cases h with
  | waiting h hd =>
    have hv := h.valid.closed.models_value fun _ => (Domain.const "" : D)
    exact ⟨_, _, (hd D _ _).mpr ⟨⟨_, fun _ => Domain.const ""⟩, hv, rfl, rfl⟩⟩
  | completed h hd =>
    have hv := h.valid.closed.models_value fun _ => (Domain.const "" : D)
    exact ⟨_, _, (hd D _ _).mpr ⟨_, hv, rfl, rfl⟩⟩

variable (h : Waiting program symbols s sig l ls)
include h

theorem Waiting.resolvent_iff (D : Type) [Domain D] (goals : List (Atom D))
    : (∃ as, resolvent clause (awaits symbols s sig (l :: ls)) D goals as) ↔
      ∃ (θ : String → D) (g : Place → D),
        (awaited s sig (s.pattern symbols).cell).eval g = clause.head.inst θ ∧
        goals = clause.body.map (Literal.inst θ) ++
          (allGoals (s.pattern symbols) s.registers (l :: ls)).map (Atom.eval g) := by
  constructor
  . intro h'
    rcases h' with ⟨as, θ, rest, hgoals, hd⟩
    rcases (h.awaits_iff D _).mp ⟨as, hd⟩ with ⟨g, hg⟩
    rw [List.map_cons, List.cons.injEq] at hg
    exact ⟨θ, g, hg.1.symm, by rw [hgoals, hg.2]⟩
  . intro h'
    rcases h' with ⟨θ, g, hhead, hgoals⟩
    rcases (h.awaits_iff D _).mpr ⟨g, rfl⟩ with ⟨as, hd⟩
    rw [List.map_cons, hhead] at hd
    exact ⟨as, θ, _, hgoals, hd⟩

theorem Mismatch.not_unifies (hmismatch : Mismatch clause (awaits symbols s sig (l :: ls)))
    (t : Place ⊕ String → Pattern (Place ⊕ String))
    : ¬Unifies (awaited s sig (s.pattern symbols).cell).left clause.head.apart t := by
  intro ht
  rw [unifies_apart_iff] at ht
  rcases (h.awaits_iff _ _).mpr ⟨fun v => t (.inl v), rfl⟩ with ⟨as, hd⟩
  rw [List.map_cons, ht] at hd
  exact hmismatch _ _ _ as hd

theorem Paused.exists_unifier {s' : State}
    (hpaused : Paused program symbols' s' (resolvent clause (awaits symbols s sig (l :: ls))))
    : ∃ t, Unifies (awaited s sig (s.pattern symbols).cell).left clause.head.apart t := by
  rcases hpaused.exists_goals (Pattern (Place ⊕ String)) with ⟨goals, as, hd⟩
  rcases (h.resolvent_iff _ goals).mp ⟨as, hd⟩ with ⟨θ, g, hhead, _⟩
  exact ⟨Sum.elim g θ, unifies_apart_iff.mpr hhead⟩

theorem Waiting.renames_resolved {s' : State} {sig' : Signature} {l' : Level} {ls' : List Level}
    (h' : Waiting program symbols' s' sig' l' ls')
    (hd : ∀ (D : Type) [Domain D] (goals : List (Atom D)) (as : List D),
      resolvent clause (awaits symbols s sig (l :: ls)) D goals as ↔
        awaits symbols' s' sig' (l' :: ls') D goals as)
    {t : Place ⊕ String → Pattern (Place ⊕ String)}
    (ht : MostGeneral
      (Unifies (awaited s sig (s.pattern symbols).cell).left clause.head.apart) t)
    : Renames (awaited s' sig' (s'.pattern symbols').cell ::
          allGoals (s'.pattern symbols') s'.registers (l' :: ls'))
        (resolved clause (allGoals (s.pattern symbols) s.registers (l :: ls)) t) := by
  have hiff : ∀ (D : Type) [Domain D] (goals : List (Atom D)),
      (∃ as, resolvent clause (awaits symbols s sig (l :: ls)) D goals as) ↔
        ∃ as, awaits symbols' s' sig' (l' :: ls') D goals as :=
    fun D _ goals => exists_congr fun as => hd D goals as
  -- the resolved goals are an instance of what the successor denotes
  have hresolved := (h.resolvent_iff _ _).mpr
    ⟨_, _, unifies_apart_iff.mp ht.self, resolved_eq clause _ t⟩
  rw [hiff, h'.awaits_iff] at hresolved
  rcases hresolved with ⟨u, hu⟩
  -- what the successor denotes comes from some unifier, hence is an instance of the resolved goals
  have hself := (h'.awaits_iff (Pattern Place) _).mpr ⟨Pattern.var, rfl⟩
  rw [← hiff, h.resolvent_iff] at hself
  rcases hself with ⟨θ, g, hhead, hgoals⟩
  rcases ht.factor_apart hhead with ⟨w, hw, hwθ⟩
  apply renames_of_instances hu
  rw [funext Atom.eval_var, List.map_id'] at hgoals
  rw [hgoals, resolved_eq, List.map_append, List.map_map, List.map_map]
  congr 1
  . apply List.map_congr_left
    intro lit _
    rw [Function.comp_apply, Literal.eval_inst, funext hwθ]
  . apply List.map_congr_left
    intro atom _
    rw [Function.comp_apply, Atom.eval_eval, funext hw]

theorem Paused.resolves {s' : State}
    (hpaused : Paused program symbols' s' (resolvent clause (awaits symbols s sig (l :: ls))))
    : Resolves program symbols' (awaited s sig (s.pattern symbols).cell)
        (allGoals (s.pattern symbols) s.registers (l :: ls)) clause s' := by
  rcases hpaused.exists_unifier h with ⟨t, ht⟩
  rcases hpaused.exists_goals (Pattern Place) with ⟨goals, as, hgoals⟩
  rcases (h.resolvent_iff _ goals).mp ⟨as, hgoals⟩ with ⟨θ, g, _, heq⟩
  have hnil : goals = [] ↔ clause.body = [] ∧
      allGoals (s.pattern symbols) s.registers (l :: ls) = [] := by
    simp only [heq, List.append_eq_nil_iff, List.map_eq_nil_iff]
  constructor
  . rw [hpaused.failed_eq]
    exact iff_of_false (by simp) fun hno => hno ⟨t, ht⟩
  . intro _
    exact exists_mostGeneral_unifier ht
  . intro _
    rw [← hnil]
    cases hpaused with
    | waiting h' hd =>
      rcases (hd _ _ _).mp hgoals with ⟨_, _, hcons, _⟩
      simp [h'.completed_eq, hcons]
    | completed h' hd =>
      rcases (hd _ _ _).mp hgoals with ⟨_, _, hnil, _⟩
      simp [h'.completed_eq, hnil]
  . intro _ hcompleted
    cases hpaused with
    | waiting h' hd => exact ⟨_, _, h'.denotes, fun t ht => h.renames_resolved h' hd ht⟩
    | completed h' _ =>
      rw [h'.completed_eq] at hcompleted
      contradiction

theorem Outcome.resolves {link : Outlink}
    (houtcome : Outcome program symbols' clause (awaits symbols s sig (l :: ls)) false (some link))
    : Resolves program symbols' (awaited s sig (s.pattern symbols).cell)
        (allGoals (s.pattern symbols) s.registers (l :: ls)) clause link.state := by
  cases houtcome with
  | failed hstalled hmismatch =>
    have hfailed := hstalled.failed_eq
    have hno : ¬∃ t, Unifies (awaited s sig (s.pattern symbols).cell).left clause.head.apart t :=
      fun ht => ht.elim (hmismatch.not_unifies h)
    exact ⟨iff_of_true hfailed hno, by simp [hfailed], by simp [hfailed], by simp [hfailed]⟩
  | next hpaused _ => exact hpaused.resolves h

end Resolution

/--
A state that waits denotes some goals, and its successors are those of a resolution step: one for each
clause of the first goal, in the order of the clauses.
-/
theorem Reached.outlinks_resolve {env : Environment} {items : List Item} {i start : Nat}
    {goals : List Literal} {symbols : SymbolTable} {s : State}
    (hprogram : env.program = (({} : Program).compile items).2) (hplugins : env.plugins = [])
    (hitem : items[i]? = some (.query goals))
    (hstart : (({} : Program).compile items).1[i]? = some (.ok (some start)))
    (h : Reached env start symbols s) (hfailed : s.failed = false) (hcompleted : s.completed = false)
    : (∃ goal rest, s.Denotes env.program symbols goal rest) ∧
      ∀ goal rest, s.Denotes env.program symbols goal rest →
        clausesOf (rulesOf items) goal.signature ≠ [] →
        ∀ m : Machine, symbols ≤ m.symbols → m.HasRoom env.program.constants →
          ∃ links m', env.outlinks s false m = .ok links m' ∧ m.symbols ≤ m'.symbols ∧
            List.Forall₂ (fun clause (link : Outlink) =>
              Resolves env.program m'.symbols goal rest clause link.state)
              (clausesOf (rulesOf items) goal.signature) links := by
  rcases Program.compile_query hprogram hitem hstart with ⟨hrules, hquery⟩
  have htables : env.plugins = [].map FactTable.plugin := hplugins
  rcases h.rested hrules hquery htables (by simp) with ⟨hfailed', _⟩ | ⟨d, hpaused⟩
  . rw [hfailed] at hfailed'
    contradiction
  rcases hpaused.waiting_of_not_completed hcompleted with ⟨sig, l, ls, hwaiting, _⟩
  have hdenotes := hwaiting.denotes
  refine ⟨⟨_, _, hdenotes⟩, ?_⟩
  intro goal rest hgoal hne m hle hroom
  rcases hdenotes.unique hgoal with ⟨hgoal, hrest⟩
  have hsig : goal.signature = sig := by
    rw [hgoal, awaited, Atom.signature, length_cells]
  rw [hsig] at hne ⊢
  have hroomy := env.roomy_outlinks ⟨fun _ hname => hname, by simp [hplugins]⟩ s false
  rcases hwaiting.outlinks_false hrules (by simp [hplugins]) hle hne (hroomy.unexhausted hroom) with
    ⟨links, m', heq, hle', houtcomes⟩
  refine ⟨links, m', heq, hle', houtcomes.imp ?_⟩
  intro clause link houtcome
  rw [hgoal, hrest]
  exact houtcome.resolves hwaiting

namespace Sample

def letters : SymbolTable :=
  .single "a"

def reaching : State where
  heap := #[.const 0, .ref 1]
  registers := #[some 1]
  calls := [⟨2, 1, 37, none⟩]
  pc := none
  jumpTo := some "reach/2"

end Sample

theorem Reached.outlinks_resolve_sample
    : Reached Sample.graphEnv 33 Sample.letters Sample.reaching ∧
      Sample.reaching.Denotes Sample.graphEnv.program Sample.letters
        ⟨"reach", [.const "a", .var (.cell 1)]⟩ [] ∧
      ∃ links m', Sample.graphEnv.outlinks Sample.reaching false { symbols := Sample.letters } =
          .ok links m' ∧
        List.Forall₂ (fun clause (link : Outlink) => Resolves Sample.graphEnv.program m'.symbols
          ⟨"reach", [.const "a", .var (.cell 1)]⟩ [] clause link.state)
          [Sample.direct, Sample.indirect] links := by
  have hrun : Sample.graphEnv.run (some 33) false {} =
      .ok ∅ { state := Sample.reaching, symbols := Sample.letters } := by decide +kernel
  have hreached : Reached Sample.graphEnv 33 Sample.letters Sample.reaching := .start rfl hrun
  have hdenotes : Sample.reaching.Denotes Sample.graphEnv.program Sample.letters
      ⟨"reach", [.const "a", .var (.cell 1)]⟩ [] := by
    refine ⟨rfl, rfl, rfl, ?_, ?_, ?_, ?_⟩
    . decide
    . decide
    . decide +kernel
    . decide +kernel
  have hstart : (({} : Program).compile Sample.graph).1[3]? = some (.ok (some 33)) := by decide
  have hclauses : clausesOf (rulesOf Sample.graph) ⟨"reach", 2⟩ = [Sample.direct, Sample.indirect] := by
    decide
  have hroom : Machine.HasRoom Sample.graphEnv.program.constants { symbols := Sample.letters } := by
    apply Interner.room_of_length
    decide
  rcases (outlinks_resolve (i := 3) rfl rfl rfl hstart hreached rfl rfl).2 _ _ hdenotes (by decide) _
    (Interner.le_refl _) hroom with ⟨links, m', hlinks, _, hresolves⟩
  have hsig : Atom.signature (⟨"reach", [.const "a", .var (.cell 1)]⟩ : Atom (Pattern Place)) =
      ⟨"reach", 2⟩ := rfl
  rw [hsig, hclauses] at hresolves
  exact ⟨hreached, hdenotes, links, m', hlinks, hresolves⟩

end HornMachine
