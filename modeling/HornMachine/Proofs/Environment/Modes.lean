import HornMachine.Proofs.Environment.Reach
import HornMachine.Proofs.Program.Fence
import HornMachine.Proofs.Run.Modes

/-!
This module contains the successors of a state in the two modes. With features computed a clause is run in
two pieces, up to its report and from there on. What comes out is the same, except that failed successors
are only kept without features.
-/

namespace HornMachine

inductive SameBranch : Option Outlink → Option Outlink → Prop where
  | refused : SameBranch none none
  | failed {s : State} (hfailed : s.failed = true) : SameBranch none (some ⟨none, s⟩)
  | next {s : State} (features : Option Features) (hfailed : s.failed = false)
      : SameBranch (some ⟨features, s⟩) (some ⟨none, s⟩)

theorem SameBranch.states_eq {tried tried' : List (Option Outlink)}
    (h : List.Forall₂ SameBranch tried tried')
    : tried.reduceOption.map Outlink.state =
        (tried'.reduceOption.map Outlink.state).filter (!·.failed) := by
  induction h with
  | nil => rfl
  | cons hlink _ ih =>
    cases hlink with
    | refused => exact ih
    | failed hfailed =>
      rw [List.reduceOption_cons_of_none, List.reduceOption_cons_of_some, List.map_cons,
        List.filter_cons_of_neg (by simp [hfailed]), ih]
    | next features hfailed =>
      rw [List.reduceOption_cons_of_some, List.reduceOption_cons_of_some, List.map_cons,
        List.map_cons, List.filter_cons_of_pos (by simp [hfailed]), ih]

theorem FactTable.bindRow_withFeatures {m n : Machine} {arity index : Nat} {row : List String}
    {b : Bool} (h : bindRow arity index row m = .ok b n) (features : List Feature)
    : bindRow arity index row (m.withFeatures features) = .ok b (n.withFeatures features) := by
  induction row generalizing m index with
  | nil =>
    cases h
    rfl
  | cons value row ih =>
    unfold bindRow at h ⊢
    cases hbound : m.constantArgument arity index with
    | error fault =>
      rw [Exec.bind_apply, Exec.read, hbound] at h
      contradiction
    | ok bound =>
      have hbound' : (m.withFeatures features).constantArgument arity index = .ok bound := hbound
      rw [Exec.bind_of_ok (Exec.read_of_ok hbound)] at h
      rw [Exec.bind_of_ok (Exec.read_of_ok hbound')]
      cases bound with
      | some bound =>
        simp only at h ⊢
        split at h
        . next heq =>
          rw [if_pos heq]
          exact ih h
        . next hne =>
          rw [if_neg hne]
          cases h
          rfl
      | none =>
        simp only [Exec.bind_eq_ok] at h
        rcases h with ⟨_, m₁, hm₁, h⟩
        have hupdate : Exec.setArgument arity index value (m.withFeatures features) =
            .ok () (m₁.withFeatures features) := by
          rw [Exec.setArgument_eq, Exec.update_eq_ok] at hm₁ ⊢
          rw [Machine.blind_setArgument, hm₁]
          rfl
        simp only
        rw [Exec.bind_of_ok hupdate]
        exact ih h

section Branch

variable {program : Program} {gather : Nat → Exec (List Goal)} {symbols : SymbolTable} {s : State}
  {sig : Signature} {l : Level} {ls : List Level} {m n m' : Machine} {link : Option Outlink}
  (h : Waiting program symbols s sig l ls) (hfenced : program.Fenced) (hle : symbols ≤ m.symbols)
  (hsame : m'.symbols = m.symbols)
include h hfenced hle hsame

theorem Waiting.clauseOutlink_modes {addr : Nat} {clause : Clause}
    (hoffers : program.Offers sig addr clause)
    (hok : Environment.clauseOutlink (program.run gather) s true addr m = .ok link n)
    : m.symbols ≤ n.symbols ∧
      ∃ link' n', Environment.clauseOutlink (program.run gather) s false addr m' = .ok link' n' ∧
        n'.symbols = n.symbols ∧ SameBranch link link' := by
  have hfindall := hfenced.getElem?_ne_ffindall
  have hmachine : { m' with state := s } = Machine.withFeatures { m with state := s } m'.features := by
    simp [Machine.withFeatures, hsame]
  rw [Environment.clauseOutlink_true_apply] at hok
  rw [Environment.clauseOutlink_false_apply, hmachine]
  have hrun : Unexhausted (program.run gather (some addr) true { m with state := s }) := by
    intro entries m₁ heq
    rw [heq] at hok
    contradiction
  have hwaiting : Waiting program m.symbols s sig l ls := h.mono hle
  rcases Waiting.run_features (m := { m with state := s }) hwaiting hoffers.signature_eq hoffers.code
      hoffers.features hrun with
    ⟨m₁, heq, hfailed, hle', _⟩ | ⟨root, m₁, heq, _⟩ | ⟨ρ, m₁, heq, hreported⟩
  . rw [heq] at hok
    cases hok
    rw [Program.run_silent hfindall heq rfl]
    exact ⟨hle', _, _, rfl, rfl, .failed hfailed⟩
  . rw [heq] at hok
    contradiction
  . have hreport := clause.isEmpty_report ρ
    have hstop : ((clause.report ρ).isEmpty || m₁.state.failed) = false := by
      rw [hreport, hreported.failed_eq]
      rfl
    rw [heq] at hok
    simp only [hstop, Bool.false_eq_true, if_false] at hok
    have hrun₁ : Unexhausted (program.run gather none true m₁) := by
      intro entries m₂ heq'
      rw [heq'] at hok
      contradiction
    rcases hreported.resume hrun₁ with ⟨m₂, heq', hle', hpaused⟩
    rw [heq'] at hok
    simp only [hpaused.failed_eq, Bool.false_eq_true, if_false] at hok
    cases hok
    -- the run without features goes straight on from where the other one reported
    rw [Program.run_report hfindall heq hreport, Program.run_silent hfindall heq' rfl]
    exact ⟨Interner.le_trans hreported.symbols_le hle', _, _, rfl, rfl, .next _ hpaused.failed_eq⟩

theorem Waiting.answer_modes {row : List String} (hrow : row.length = sig.arity)
    (hok : FactTable.answer (program.run gather) s sig.label true row m = .ok link n)
    : m.symbols ≤ n.symbols ∧
      ∃ link' n', FactTable.answer (program.run gather) s sig.label false row m' = .ok link' n' ∧
        n'.symbols = n.symbols ∧ SameBranch link link' := by
  have hfindall := hfenced.getElem?_ne_ffindall
  have hmachine : { m' with state := s } = Machine.withFeatures { m with state := s } m'.features := by
    simp [Machine.withFeatures, hsame]
  rw [FactTable.answer_apply] at hok ⊢
  have harity : row.length ≤ s.heap.size := by
    rw [hrow]
    exact h.arity_le
  have hbind : Unexhausted (FactTable.bindRow row.length 1 row { m with state := s }) := by
    intro entries m₁ heq
    rw [heq] at hok
    contradiction
  rcases FactTable.bindRow_cases (h.valid.mono hle) Nat.one_pos (Nat.add_comm 1 _) harity hbind with
    ⟨m₁, heq, hbinds⟩ | ⟨m₁, heq, hle', _⟩
  . let left : Machine := { m₁ with state := m₁.state.leave }
    have hready : Ready program left.symbols left.state l ls := (FactTable.ready_answer h hbinds).1
    have hrun : Unexhausted (program.runOn gather true left) := by
      intro entries m₂ heq'
      simp only [heq] at hok
      rw [← Program.run_none hready.runsAt] at heq'
      rw [heq'] at hok
      contradiction
    rcases hready.resume hrun with ⟨m₂, heq', hle', _, hpaused⟩
    rw [← Program.run_none hready.runsAt] at heq'
    simp only [heq, heq', left] at hok
    simp only [hpaused.failed_eq, Bool.false_eq_true, and_false, if_false, if_true] at hok
    cases hok
    have hplain : program.run gather none false
          { m₁.withFeatures m'.features with state := m₁.state.leave } =
        .ok ∅ (n.withFeatures m'.features) := Program.run_silent hfindall heq' rfl m'.features
    rw [hmachine, FactTable.bindRow_withFeatures heq]
    simp only [Machine.withFeatures_state, hplain]
    exact ⟨Interner.le_trans hbinds.symbols_le hle', _, _, rfl, rfl, .next _ hpaused.failed_eq⟩
  . simp only [heq] at hok
    cases hok
    rw [hmachine, FactTable.bindRow_withFeatures heq]
    exact ⟨hle', _, _, rfl, rfl, .refused⟩

end Branch

section Outlinks

variable {env : Environment} {tables : List FactTable} {rules : List Clause} {symbols : SymbolTable}
  {s : State} {sig : Signature} {l : Level} {ls : List Level} {m n m' : Machine} {links : List Outlink}

theorem outlinks_of_sameBranch {f g : α → Exec (Option Outlink)} {as : List α}
    (hstep : ∀ a ∈ as, ∀ {m n m' : Machine} {link : Option Outlink}, symbols ≤ m.symbols →
      f a m = .ok link n → m'.symbols = m.symbols → m.symbols ≤ n.symbols ∧
        ∃ link' n', g a m' = .ok link' n' ∧ n'.symbols = n.symbols ∧ SameBranch link link')
    (hle : symbols ≤ m.symbols) (hok : (List.reduceOption <$> as.mapM f) m = .ok links n)
    (hsame : m'.symbols = m.symbols)
    : ∃ links' n', (List.reduceOption <$> as.mapM g) m' = .ok links' n' ∧ n'.symbols = n.symbols ∧
        links.map Outlink.state = (links'.map Outlink.state).filter (!·.failed) := by
  rw [Exec.map_apply] at hok
  cases htried : as.mapM f m with
  | error fault n' =>
    rw [htried] at hok
    contradiction
  | ok tried n' =>
    rw [htried] at hok
    cases hok
    rcases Exec.mapM_follow hstep hle htried hsame with ⟨tried', n', htried', hsame', hbranches⟩
    refine ⟨tried'.reduceOption, n', ?_, hsame', SameBranch.states_eq hbranches⟩
    rw [Exec.map_apply, htried']

theorem Waiting.outlinks_sameBranch (h : Waiting env.program symbols s sig l ls)
    (hrules : env.program.Implements rules) (hfenced : env.program.Fenced)
    (hplugins : env.plugins = tables.map FactTable.plugin)
    (hsize : env.program.size < Signature.arityBound) (hle : symbols ≤ m.symbols)
    (hok : env.outlinks s true m = .ok links n) (hsame : m'.symbols = m.symbols)
    : ∃ links' n', env.outlinks s false m' = .ok links' n' ∧ n'.symbols = n.symbols ∧
        links.map Outlink.state = (links'.map Outlink.state).filter (!·.failed) := by
  cases htable : tables.find? (·.claims sig.label) with
  | some table =>
    have hplugin : env.plugins.find? (·.claims sig.label) = some table.plugin := by
      rw [Environment.find?_tables hplugins, htable]
      rfl
    have harity : sig.arity < Signature.arityBound := Nat.lt_of_le_of_lt h.arity_le_size hsize
    have heq : ∀ (computeFeatures : Bool) (m : Machine), env.outlinks s computeFeatures m =
        (List.reduceOption <$> (table.answering sig).mapM
          (FactTable.answer env.run s sig.label computeFeatures)) { m with state := s } := by
      intro computeFeatures m
      rw [Environment.outlinks_plugin h.completed_eq h.jumpTo_eq hplugin]
      exact table.outlinks_eq h.jumpTo_eq harity
    rw [heq] at hok ⊢
    refine outlinks_of_sameBranch (m := { m with state := s }) ?_ hle hok hsame
    intro row hrow m₁ n₁ m₁' link hle₁ hok₁ hsame₁
    have hlength : row.length = sig.arity := by
      simpa using (List.mem_filter.mp hrow).2
    exact h.answer_modes hfenced hle₁ hsame₁ hlength hok₁
  | none =>
    have hplugin : env.plugins.find? (·.claims sig.label) = none := by
      rw [Environment.find?_tables hplugins, htable]
      rfl
    rcases hrules.addresses_cases sig with ⟨haddrs, _⟩ | ⟨addrs, haddrs, _, hoffers⟩
    . rw [Environment.outlinks_unknown h.completed_eq h.jumpTo_eq hplugin haddrs] at hok
      contradiction
    . have heq : ∀ computeFeatures : Bool, env.outlinks s computeFeatures = List.reduceOption <$>
          addrs.mapM (Environment.clauseOutlink env.run s computeFeatures) := by
        intro computeFeatures
        exact Environment.outlinks_eq_mapM h.completed_eq h.jumpTo_eq hplugin haddrs
      rw [heq] at hok ⊢
      refine outlinks_of_sameBranch ?_ hle hok hsame
      intro addr haddr m₁ n₁ m₁' link hle₁ hok₁ hsame₁
      rcases List.forall₂_iff_get.mp hoffers with ⟨hlength, hoffers⟩
      rcases List.mem_iff_get.mp haddr with ⟨i, rfl⟩
      exact h.clauseOutlink_modes hfenced hle₁ hsame₁ (hoffers i i.2 (hlength ▸ i.2)) hok₁

end Outlinks

/--
Where a step leaves a state: at an end, or at a call that nobody has answered yet.
-/
def State.Settled (s : State) : Prop :=
  s.completed = true ∨ s.failed = true ∨ (s.pc = none ∧ ∃ label, s.jumpTo = some label)

theorem Rested.settled {program : Program} {symbols : SymbolTable} {s : State}
    (h : Rested program symbols s) : s.Settled := by
  rcases h with ⟨hfailed, _⟩ | ⟨_, hpaused⟩
  . exact .inr (.inl hfailed)
  . cases hpaused with
    | waiting h _ => exact .inr (.inr ⟨h.pc_eq, _, h.jumpTo_eq⟩)
    | completed h _ => exact .inl h.completed_eq

/--
The successors with features computed are those without that have not failed, in the same order and with
the same constants. No successor in either list stops at a report.
-/
theorem Reached.outlinks_modes {env : Environment} {tables : List FactTable} {items : List Item}
    {i start : Nat} {goals : List Literal} {symbols : SymbolTable} {s : State} {m n m' : Machine}
    {links : List Outlink} (hprogram : env.program = (({} : Program).compile items).2)
    (hplugins : env.plugins = tables.map FactTable.plugin)
    (hitem : items[i]? = some (.query goals))
    (hstart : (({} : Program).compile items).1[i]? = some (.ok (some start)))
    (hsize : env.program.size < Signature.arityBound) (h : Reached env start symbols s)
    (hfailed : s.failed = false) (hcompleted : s.completed = false) (hle : symbols ≤ m.symbols)
    (hok : env.outlinks s true m = .ok links n) (hsame : m'.symbols = m.symbols)
    : ∃ links' n', env.outlinks s false m' = .ok links' n' ∧ n'.symbols = n.symbols ∧
        links.map Outlink.state = (links'.map Outlink.state).filter (!·.failed) ∧
        (∀ link ∈ links, link.state.Settled) ∧ ∀ link ∈ links', link.state.Settled := by
  rcases Program.compile_query hprogram hitem hstart with ⟨hrules, hquery⟩
  have hfenced : env.program.Fenced := by
    rw [hprogram]
    exact Program.fenced_compile items
  have hrested := h.rested hrules hquery hplugins fun _ => hsize
  rcases hrested.waiting hfailed hcompleted with ⟨sig, l, ls, hwaiting⟩
  rcases hwaiting.outlinks_sameBranch hrules hfenced hplugins hsize hle hok hsame with
    ⟨links', n', hok', hsame', hstates⟩
  have hle' : symbols ≤ m'.symbols := by
    rw [hsame]
    exact hle
  refine ⟨links', n', hok', hsame', hstates, ?_, ?_⟩
  . intro link hlink
    exact (hwaiting.rested_of_outlinks hrules hplugins (fun _ => hsize) hle hok hlink).settled
  . intro link hlink
    exact (hwaiting.rested_of_outlinks hrules hplugins (fun _ => hsize) hle' hok' hlink).settled

namespace Sample

def small : Clause where
  head := ⟨"size", [.const "small"]⟩
  features := [⟨"fast", []⟩]

def large : Clause where
  head := ⟨"size", [.const "large"]⟩

def sizes : List Item :=
  [.clause small, .clause large, .query [⟨"size", [.const "small"]⟩]]

def colors : FactTable :=
  .ofList [("color", ["red"])]

def sizeEnv : Environment where
  program := (({} : Program).compile sizes).2
  plugins := [colors.plugin]

def sizeWords : SymbolTable :=
  .single "small"

def sizing : State where
  heap := #[.const 0]
  calls := [⟨1, 0, 14, none⟩]
  pc := none
  jumpTo := some "size/1"

def sized : State where
  heap := #[.const 0]
  pc := some 14
  completed := true

def unsized : Machine where
  state := { sizing with pc := some 8, failed := true }
  symbols := sizeWords
  features := [⟨"fast", 0, []⟩]

end Sample

theorem Reached.outlinks_modes_sample
    : Sample.sizeEnv.outlinks Sample.sizing true { symbols := Sample.sizeWords } =
        .ok [⟨some (.ofGoals [⟨"fast", []⟩]), Sample.sized⟩] Sample.unsized ∧
      ∃ links' n', Sample.sizeEnv.outlinks Sample.sizing false { symbols := Sample.sizeWords } =
          .ok links' n' ∧
        n'.symbols = Sample.sizeWords ∧
        [Sample.sized] = (links'.map Outlink.state).filter (!·.failed) ∧
        ∀ link ∈ links', link.state.Settled := by
  have hrun : Sample.sizeEnv.run (some 11) false {} =
      .ok ∅ { state := Sample.sizing, symbols := Sample.sizeWords } := by decide +kernel
  have hreached : Reached Sample.sizeEnv 11 Sample.sizeWords Sample.sizing := .start rfl hrun
  have hok : Sample.sizeEnv.outlinks Sample.sizing true { symbols := Sample.sizeWords } =
      .ok [⟨some (.ofGoals [⟨"fast", []⟩]), Sample.sized⟩] Sample.unsized := by decide +kernel
  have hplugins : Sample.sizeEnv.plugins = [Sample.colors].map FactTable.plugin := rfl
  have hstart : (({} : Program).compile Sample.sizes).1[2]? = some (.ok (some 11)) := by decide
  have hsame : ({ symbols := Sample.sizeWords } : Machine).symbols = Sample.sizeWords := rfl
  rcases outlinks_modes (i := 2) rfl hplugins rfl hstart (by decide) hreached rfl rfl
    (Interner.le_refl _) hok hsame with ⟨links', n', hok', hsame', hstates, _, hsettled⟩
  exact ⟨hok, links', n', hok', hsame', hstates, hsettled⟩

end HornMachine
