import HornMachine.Proofs.Environment.Reach
import HornMachine.Proofs.Environment.WellFormed
import HornMachine.Proofs.Program.Fence
import HornMachine.Proofs.Run.Return

/-!
This module contains what returns do to the states of a search. No register of theirs leads to a cell that
a return takes away, and a step to a successor undoes no binding of a cell that stays.
-/

namespace HornMachine

theorem FactTable.narrows_of_bindRow {arity index : Nat} {row : List String} {agrees : Bool}
    {m m' : Machine} (h : bindRow arity index row m = .ok agrees m')
    : m.symbols ≤ m'.symbols ∧
      ∃ heap, m.state.heap.Narrows m'.symbols heap ∧ m'.state = { m.state with heap := heap } := by
  induction row generalizing index m with
  | nil =>
    cases h
    exact ⟨Interner.le_refl _, _, .refl, rfl⟩
  | cons value row ih =>
    simp only [bindRow, Exec.bind_eq_ok] at h
    rcases h with ⟨bound, m₁, hread, h⟩
    rcases Exec.read_eq_ok.mp hread with ⟨_, rfl⟩
    cases bound with
    | some bound =>
      simp only at h
      split at h
      . exact ih h
      . cases h
        exact ⟨Interner.le_refl _, _, .refl, rfl⟩
    | none =>
      simp only [Exec.bind_eq_ok] at h
      rcases h with ⟨_, m₂, hset, h⟩
      rw [Exec.setArgument_eq, Exec.update_eq_ok] at hset
      rcases Machine.narrows_of_setArgument hset with ⟨hle, heap, hheap, hstate⟩
      rcases ih h with ⟨hle', heap', hheap', hstate'⟩
      rw [hstate] at hheap' hstate'
      exact ⟨Interner.le_trans hle hle', heap', (hheap.mono hle').trans hheap', hstate'⟩

section Outlinks

variable {env : Environment} {tables : List FactTable} {rules : List Clause} {symbols : SymbolTable}
  {s : State} {computeFeatures : Bool}
  (hplugins : env.plugins = tables.map FactTable.plugin) (hfenced : env.program.Fenced)
  (hkeeps : env.program.KeepsRegisters) (hs : s.WellFormed True symbols)
  (hseated : s.Seated env.program)
include hplugins hfenced hkeeps hs hseated

theorem descends_clauseOutlink {addr : Nat} (haddr : env.program.Confined 0 addr)
    : Exec.Safe True symbols (LinkIn (s.Descends env.program))
        (Environment.clauseOutlink env.run s computeFeatures addr) := by
  have hfindall := hfenced.getElem?_ne_ffindall
  have hsafe := Environment.safe_clauseOutlink (Environment.safe_run (safe_tables hplugins) fun _ => hkeeps) hs
    computeFeatures addr
  apply hsafe.answers
  intro m m' link hle hok link' hlink
  have hs := hs.mono hle
  cases computeFeatures with
  | false =>
    rw [Environment.clauseOutlink_false_apply] at hok
    split at hok
    . next heq =>
      cases hok
      cases hlink
      exact .clause hfindall hs hseated haddr heq
    . contradiction
  | true =>
    rw [Environment.clauseOutlink_true_apply] at hok
    split at hok
    . contradiction
    . next features m₁ heq =>
      have hreported := State.Descends.clause hfindall hs hseated haddr heq
      split at hok
      . cases hok
        contradiction
      . split at hok
        . contradiction
        . next heq' =>
          split at hok
          . cases hok
            contradiction
          . cases hok
            cases hlink
            exact hreported.resume hfindall heq'

theorem descends_answer {frame : Frame} {rest : List Frame} (hcalls : s.calls = frame :: rest)
    (label : String) (row : List String)
    : Exec.Safe True symbols (LinkIn (s.Descends env.program))
        (FactTable.answer env.run s label computeFeatures row) := by
  have hfindall := hfenced.getElem?_ne_ffindall
  have hsafe := FactTable.safe_answer (Environment.safe_run (safe_tables hplugins) fun _ => hkeeps) hs label
    computeFeatures row
  apply hsafe.answers
  intro m m' link hle hok link' hlink
  rw [FactTable.answer_apply] at hok
  split at hok
  . contradiction
  . cases hok
    contradiction
  . next m₁ hbind =>
    rcases FactTable.narrows_of_bindRow hbind with ⟨hle', heap, hheap, hstate⟩
    have hs' := hs.mono (Interner.le_trans hle hle')
    have hanswered : s.Descends env.program m₁.symbols m₁.state.leave := by
      rw [hstate]
      exact .answered hs' hseated hcalls hheap
    split at hok
    . contradiction
    . next m₂ hrun =>
      split at hok
      . cases hok
        contradiction
      . cases hok
        cases hlink
        exact State.Descends.resume (m := { m₁ with state := m₁.state.leave }) hfindall hanswered hrun

theorem descends_outlinks {frame : Frame} {rest : List Frame} (hcalls : s.calls = frame :: rest)
    (hrules : env.program.Implements rules)
    : Exec.Safe True symbols (LinksIn (s.Descends env.program)) (env.outlinks s computeFeatures) := by
  apply Environment.safe_outlinksWith_of hs fun h hle => h.mono hle
  . intro plugin hplugin
    rw [hplugins, List.mem_map] at hplugin
    rcases hplugin with ⟨table, _, rfl⟩
    exact FactTable.safe_outlinks_of (fun h hle => h.mono hle)
      (descends_answer hplugins hfenced hkeeps hs hseated hcalls) table
  . intro label addrs haddrs addr haddr
    rcases hrules.exists_clause (Program.mem_clauses_of_addresses? haddrs haddr) with
      ⟨clause, _, hclause⟩
    exact descends_clauseOutlink hplugins hfenced hkeeps hs hseated hclause.code.confined_clause

end Outlinks

theorem Environment.outlinks_restore {env : Environment} {s : State} {label : String}
    {computeFeatures : Bool} {m n : Machine} {links : List Outlink} (hcompleted : s.completed = false)
    (hlabel : s.jumpTo = some label) (hok : env.outlinks s computeFeatures m = .ok links n)
    : env.outlinks s computeFeatures { m with state := s } = .ok links n := by
  cases hplugin : env.plugins.find? (·.claims label) with
  | some plugin =>
    rw [outlinks_plugin hcompleted hlabel hplugin] at hok ⊢
    exact hok
  | none =>
    cases haddrs : env.program.addresses? label with
    | none =>
      rw [outlinks_unknown hcompleted hlabel hplugin haddrs] at hok
      contradiction
    | some addrs =>
      have hclause : ∀ addr, clauseOutlink env.run s computeFeatures addr { m with state := s } =
          clauseOutlink env.run s computeFeatures addr m := by
        intro addr
        rfl
      rw [outlinks_eq_mapM hcompleted hlabel hplugin haddrs] at hok ⊢
      cases addrs with
      | nil =>
        unfold Program.addresses? at haddrs
        split at haddrs
        . contradiction
        . next hne => exact absurd (Option.some.inj haddrs) hne
      | cons addr addrs =>
        rw [List.mapM_cons, Exec.map_apply, Exec.bind_apply] at hok ⊢
        rw [hclause]
        exact hok

theorem Waiting.descends_of_outlinks {env : Environment} {tables : List FactTable}
    {rules : List Clause} {symbols : SymbolTable} {s : State} {sig : Signature} {l : Level}
    {ls : List Level} {computeFeatures : Bool} {m n : Machine} {links : List Outlink} {link : Outlink}
    (h : Waiting env.program symbols s sig l ls) (hrules : env.program.Implements rules)
    (hfenced : env.program.Fenced) (hplugins : env.plugins = tables.map FactTable.plugin)
    (hkeeps : env.program.KeepsRegisters) (hs : s.WellFormed True symbols)
    (hseated : s.Seated env.program) (hle : symbols ≤ m.symbols)
    (hok : env.outlinks s computeFeatures m = .ok links n) (hlink : link ∈ links)
    : s.Descends env.program n.symbols link.state := by
  have hsafe : Exec.Safe True symbols (LinksIn (s.Descends env.program)) (env.outlinks s computeFeatures) :=
    descends_outlinks hplugins hfenced hkeeps hs hseated h.calls_eq hrules
  have hok' := Environment.outlinks_restore h.completed_eq h.jumpTo_eq hok
  exact (hsafe { m with state := s } hle (hs.mono hle)).answer hok' link hlink

theorem Reached.seated {env : Environment} {tables : List FactTable} {rules : List Clause}
    {goals : List Literal} {start : Nat} {symbols : SymbolTable} {s : State}
    (hrules : env.program.Implements rules) (hquery : env.program.Has start (queryCode goals))
    (hfenced : env.program.Fenced) (hplugins : env.plugins = tables.map FactTable.plugin)
    (hkeeps : env.program.KeepsRegisters) (hsize : env.program.size < Signature.arityBound)
    (h : Reached env start symbols s) : s.WellFormed True symbols ∧ s.Seated env.program := by
  have hfindall := hfenced.getElem?_ne_ffindall
  induction h with
  | start hm hrun =>
    have hdescends := State.Descends.query hfindall hm hquery.confined_query hrun
    exact ⟨hdescends.formed, hdescends.seated⟩
  | step h hfailed hcompleted hle hlinks hlink ih =>
    have hrested := h.rested hrules hquery hplugins fun _ => hsize
    rcases hrested.waiting hfailed hcompleted with ⟨sig, l, ls, hwaiting⟩
    have hdescends := hwaiting.descends_of_outlinks hrules hfenced hplugins hkeeps ih.1 ih.2 hle hlinks hlink
    exact ⟨hdescends.formed, hdescends.seated⟩

theorem State.Descends.returned {program : Program} {symbols : SymbolTable} {s x : State}
    {d : Denotation} (h : s.Descends program symbols x) (hpaused : Paused program symbols x d)
    : ∃ popped rest, s.Returned popped rest x ∧
        ((x.completed = true ∧ x.calls = [] ∧ rest = []) ∨
          (x.completed = false ∧ ∃ frame, x.calls = frame :: rest)) := by
  cases hpaused with
  | waiting hwaiting _ =>
    cases h.continues with
    | running hpc _ =>
      rw [hwaiting.pc_eq] at hpc
      contradiction
    | calling _ hcalls hreturned =>
      exact ⟨_, _, hreturned, .inr ⟨hwaiting.completed_eq, _, hcalls⟩⟩
  | completed hcompleted _ =>
    cases h.continues with
    | running _ hreturned =>
      exact ⟨_, _, hreturned, .inl ⟨hcompleted.completed_eq, hcompleted.calls_eq, hcompleted.calls_eq⟩⟩
    | calling _ hcalls _ =>
      rw [hcompleted.calls_eq] at hcalls
      contradiction

/--
A return leaves no register without its cell, and no binding is undone by it: below the heap of the oldest
frame that is gone in a successor, everything leads to where it led before.
-/
theorem Reached.outlinks_preserve {env : Environment} {tables : List FactTable} {items : List Item}
    {i start : Nat} {goals : List Literal} {symbols : SymbolTable} {s : State}
    (hprogram : env.program = (({} : Program).compile items).2)
    (hplugins : env.plugins = tables.map FactTable.plugin)
    (hitem : items[i]? = some (.query goals))
    (hstart : (({} : Program).compile items).1[i]? = some (.ok (some start)))
    (hsize : env.program.size < Signature.arityBound) (h : Reached env start symbols s)
    : (Bounded s.registers s.registers.size s.heap.size ∧
        ∀ frame ∈ s.calls, Bounded s.registers frame.registerCount frame.heapSize) ∧
      ∀ {computeFeatures : Bool} {m n : Machine} {links : List Outlink} {link : Outlink},
        s.failed = false → s.completed = false → symbols ≤ m.symbols →
        env.outlinks s computeFeatures m = .ok links n → link ∈ links → link.state.failed = false →
        ∃ popped rest, s.calls = popped ++ rest ∧
          ((link.state.completed = true ∧ link.state.calls = [] ∧ rest = []) ∨
            (link.state.completed = false ∧ ∃ frame, link.state.calls = frame :: rest)) ∧
          s.heap.Preserves (s.floor popped) link.state.heap := by
  rcases Program.compile_query hprogram hitem hstart with ⟨hrules, hquery⟩
  have hfenced : env.program.Fenced := by
    rw [hprogram]
    exact Program.fenced_compile items
  have hkeeps : env.program.KeepsRegisters := by
    rw [hprogram]
    exact Program.keepsRegisters_compile items
  rcases h.seated hrules hquery hfenced hplugins hkeeps hsize with ⟨hs, hseated⟩
  refine ⟨⟨hseated.live, hseated.kept⟩, ?_⟩
  intro computeFeatures m n links link hfailed hcompleted hle hok hlink hfailed'
  have hrested := h.rested hrules hquery hplugins fun _ => hsize
  rcases hrested.waiting hfailed hcompleted with ⟨sig, l, ls, hwaiting⟩
  have hdescends := hwaiting.descends_of_outlinks hrules hfenced hplugins hkeeps hs hseated hle hok hlink
  rcases hwaiting.rested_of_outlinks hrules hplugins (fun _ => hsize) hle hok hlink with
    ⟨hfailed'', _⟩ | ⟨d, hpaused⟩
  . rw [hfailed'] at hfailed''
    contradiction
  . rcases hdescends.returned hpaused with ⟨popped, rest, hreturned, hcalls⟩
    exact ⟨popped, rest, hreturned.calls_eq, hcalls, hreturned.keeps.preserves hs.valid
      hdescends.formed.valid (hs.floor_le hreturned.calls_eq) hreturned.floor_le⟩

namespace Sample

def going : Clause where
  head := ⟨"go", [.var "X", .var "Y", .var "Z"]⟩
  body := [⟨"pair", [.var "X", .var "Z"]⟩]

def pairing : Clause where
  head := ⟨"pair", [.const "red", .var "Y"]⟩

def trip : List Item :=
  [.clause going, .clause pairing, .query [⟨"go", [.var "A", .var "A", .const "blue"]⟩]]

def tripEnv : Environment where
  program := (({} : Program).compile trip).2
  plugins := []

def tripWords : SymbolTable :=
  .single "blue"

def leaving : State where
  heap := #[.ref 0, .ref 0, .const 0]
  registers := #[some 0]
  calls := [⟨3, 1, 21, none⟩]
  pc := none
  jumpTo := some "go/3"

def traveling : State where
  heap := #[.ref 0, .ref 0, .const 0, .ref 0, .ref 2]
  registers := #[some 0, some 2, some 1, some 0]
  calls := [⟨5, 4, 9, some "go/3"⟩, ⟨3, 1, 21, none⟩]
  pc := none
  jumpTo := some "pair/2"

def arrived : State where
  heap := #[.const 1, .ref 0, .const 0]
  registers := #[some 0]
  pc := some 21
  completed := true

def arrival : Machine where
  state := arrived
  symbols := tripWords.push "red" (by
    simp [tripWords, Interner.single, Interner.push, Interner.lookup?, Interner.empty])

end Sample

theorem Reached.outlinks_preserve_sample
    : Sample.tripEnv.outlinks Sample.traveling false { symbols := Sample.tripWords } =
        .ok [⟨none, Sample.arrived⟩] Sample.arrival ∧
      (∀ frame ∈ Sample.traveling.calls,
        Bounded Sample.traveling.registers frame.registerCount frame.heapSize) ∧
      Sample.traveling.heap.Preserves 3 Sample.arrived.heap := by
  have hrun : Sample.tripEnv.run (some 16) false {} =
      .ok ∅ { state := Sample.leaving, symbols := Sample.tripWords } := by decide +kernel
  have hlinks : Sample.tripEnv.outlinks Sample.leaving false { symbols := Sample.tripWords } =
      .ok [⟨none, Sample.traveling⟩]
        { state := Sample.traveling, symbols := Sample.tripWords } := by decide +kernel
  have hok : Sample.tripEnv.outlinks Sample.traveling false { symbols := Sample.tripWords } =
      .ok [⟨none, Sample.arrived⟩] Sample.arrival := by decide +kernel
  have hmem : (⟨none, Sample.traveling⟩ : Outlink) ∈ [(⟨none, Sample.traveling⟩ : Outlink)] := by simp
  have hmem' : (⟨none, Sample.arrived⟩ : Outlink) ∈ [(⟨none, Sample.arrived⟩ : Outlink)] := by simp
  have hleaving : Reached Sample.tripEnv 16 Sample.tripWords Sample.leaving := .start rfl hrun
  have hreached : Reached Sample.tripEnv 16 Sample.tripWords Sample.traveling :=
    .step hleaving rfl rfl (Interner.le_refl _) hlinks hmem
  have hplugins : Sample.tripEnv.plugins = ([] : List FactTable).map FactTable.plugin := rfl
  have hstart : (({} : Program).compile Sample.trip).1[2]? = some (.ok (some 16)) := by decide
  have hkept := outlinks_preserve (i := 2) rfl hplugins rfl hstart (by decide) hreached
  rcases hkept.2 rfl rfl (Interner.le_refl _) hok hmem' rfl with ⟨popped, rest, hcalls, hends, hkeeps⟩
  have hrest : rest = [] := by
    rcases hends with ⟨_, _, hrest⟩ | ⟨hfalse, _⟩
    . exact hrest
    . cases hfalse
  rw [hrest, List.append_nil] at hcalls
  rw [← hcalls] at hkeeps
  exact ⟨hok, hkept.1.2, hkeeps⟩

end HornMachine
