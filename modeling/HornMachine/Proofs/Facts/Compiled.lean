import HornMachine.Proofs.Environment.Room
import HornMachine.Proofs.Facts.Code
import HornMachine.Proofs.Program.Extend

/-!
This module contains a table next to a program that has its rows as facts. Both answer the calls to the
predicate with the same states, from the same symbol table and with the same one left behind.
-/

namespace HornMachine

namespace FactTable

section Items

variable {sig : Signature} {rows : List (List String)}

theorem rulesOf_facts : rulesOf (rows.map fun row => .clause (fact sig row)) = rows.map (fact sig) := by
  have haccepted : ∀ row, Item.accepted (.clause (fact sig row)) = [fact sig row] := by
    intro row
    rfl
  rw [rulesOf, List.flatMap_map, List.map_eq_flatMap]
  simp only [haccepted]

theorem clausesOf_facts (hlength : ∀ row ∈ rows, row.length = sig.arity)
    : clausesOf (rows.map (fact sig)) sig = rows.map (fact sig) := by
  rw [clausesOf, List.filter_eq_self]
  simp only [List.mem_map, decide_eq_true_eq]
  rintro _ ⟨row, hrow, rfl⟩
  rw [signature_fact, hlength row hrow]

theorem mem_constants_of_mem_head {row : List String} {name : String} (hname : name ∈ row)
    (vars seen : List String) (offset : Int)
    : name ∈ (Code.head vars offset seen (row.map .const)).filterMap Instruction.constant? := by
  induction row generalizing offset with
  | nil => contradiction
  | cons value row ih =>
    have hvalue : Instruction.constant? (.unifyConst value offset) = some value := rfl
    rw [List.map_cons, Code.head, List.filterMap_cons_some hvalue]
    rcases List.mem_cons.mp hname with rfl | hmem
    . exact List.mem_cons_self
    . exact List.mem_cons_of_mem _ (ih hmem _)

theorem constants_of_offers {program : Program} {addr : Nat} {row : List String}
    (h : program.Offers sig addr (fact sig row)) : row ⊆ program.constants := by
  intro name hname
  have hmem : name ∈ (fact sig row).code.filterMap Instruction.constant? := by
    rw [code_fact, List.filterMap_cons_none rfl, List.filterMap_append]
    exact List.mem_append_left _ (mem_constants_of_mem_head hname _ _ _)
  have hsub : (fact sig row).code ⊆ program.code.toList :=
    fun _ hinstr => List.mem_of_mem_drop (h.code.subset hinstr)
  exact List.filterMap_subset _ hsub hmem

end Items

section Table

variable {sig : Signature} {rows : List (List String)}

theorem rows_ofList (facts : List (String × List String))
    : (ofList facts).rows.toList =
      facts.map fun (functor, args) => (Signature.label ⟨functor, args.length⟩, args) := by
  have hfoldl : ∀ table : FactTable,
      (facts.foldl (fun table (functor, args) => table.add functor args) table).rows.toList =
        table.rows.toList ++
          facts.map fun (functor, args) => (Signature.label ⟨functor, args.length⟩, args) := by
    induction facts with
    | nil => simp
    | cons fact facts ih =>
      intro table
      rw [List.foldl_cons, ih]
      simp [add]
  rw [ofList, hfoldl]
  rfl

def ofRows (sig : Signature) (rows : List (List String)) : FactTable :=
  ofList (rows.map fun row => (sig.functor, row))

variable (hlength : ∀ row ∈ rows, row.length = sig.arity)
include hlength

theorem rows_ofRows : (ofRows sig rows).rows.toList = rows.map fun row => (sig.label, row) := by
  rw [ofRows, rows_ofList, List.map_map]
  apply List.map_congr_left
  intro row hrow
  simp [hlength row hrow]

theorem answering_ofRows : (ofRows sig rows).answering sig = rows := by
  have hrows : (ofRows sig rows).rowsOf sig.label = rows := by
    rw [rowsOf, rows_ofRows hlength, List.filterMap_map]
    simp
  rw [answering, hrows, List.filter_eq_self]
  simpa using hlength

theorem claims_ofRows (hne : rows ≠ []) (label : String)
    : (ofRows sig rows).claims label = true ↔ label = sig.label := by
  rw [claims, ← Array.any_toList, rows_ofRows hlength, List.any_map, List.any_eq_true]
  constructor
  . intro hclaims
    rcases hclaims with ⟨_, _, heq⟩
    exact (beq_iff_eq.mp heq).symm
  . intro hlabel
    rcases List.exists_mem_of_ne_nil rows hne with ⟨row, hrow⟩
    exact ⟨row, hrow, beq_iff_eq.mpr hlabel.symm⟩

theorem constants_ofRows : (ofRows sig rows).constants = rows.flatten := by
  rw [constants, rows_ofRows hlength, List.flatMap_map]
  simp

end Table

end FactTable

/--
The calls to `sig` are answered in `tabled` by a table. In `compiled` the rows of the table are facts
behind the other clauses, of which none is about `sig`.
-/
structure SameFacts (items : List Item) (sig : Signature) (rows : List (List String))
    (tabled compiled : Environment) : Prop where
  tabled_program : tabled.program = (({} : Program).compile items).2
  tabled_plugins : tabled.plugins = [(FactTable.ofRows sig rows).plugin]
  compiled_program : compiled.program =
    (({} : Program).compile (items ++ rows.map fun row => .clause (FactTable.fact sig row))).2
  compiled_plugins : compiled.plugins = []
  clausesOf_eq : clausesOf (rulesOf items) sig = []
  rows_ne : rows ≠ []
  length_eq : ∀ row ∈ rows, row.length = sig.arity

namespace SameFacts

variable {items : List Item} {sig : Signature} {rows : List (List String)} {tabled compiled : Environment}
  (h : SameFacts items sig rows tabled compiled)
include h

theorem implements : tabled.program.Implements (rulesOf items) := by
  have hrules := (Program.compile_implements Program.implements_nil items).2
  rw [List.nil_append] at hrules
  rw [h.tabled_program]
  exact hrules

theorem fenced : tabled.program.Fenced := by
  rw [h.tabled_program]
  exact Program.fenced_compile items

theorem extension : tabled.program.Extension (rows.map (FactTable.fact sig)) compiled.program := by
  have hextension := Program.extension_compile h.implements
    (rows.map fun row => .clause (FactTable.fact sig row))
  rw [FactTable.rulesOf_facts] at hextension
  rw [h.compiled_program, Program.compile_append, ← h.tabled_program]
  exact hextension

theorem exists_addresses
    : ∃ addrs, compiled.program.addresses? sig.label = some addrs ∧
        List.Forall₂ (compiled.program.Offers sig) addrs (rows.map (FactTable.fact sig)) := by
  have hrules := (Program.compile_implements Program.implements_nil
    (items ++ rows.map fun row => .clause (FactTable.fact sig row))).2
  rw [← h.compiled_program, List.nil_append] at hrules
  have hclauses : clausesOf (rulesOf (items ++ rows.map fun row => .clause (FactTable.fact sig row))) sig =
      rows.map (FactTable.fact sig) := by
    rw [rulesOf, List.flatMap_append, clausesOf, List.filter_append]
    show clausesOf (rulesOf items) sig ++ clausesOf (rulesOf (rows.map _)) sig = _
    rw [h.clausesOf_eq, FactTable.rulesOf_facts, FactTable.clausesOf_facts h.length_eq, List.nil_append]
  rcases hrules.addresses_cases sig with ⟨_, hnil⟩ | ⟨addrs, haddrs, _, hoffers⟩
  . rw [hclauses, List.map_eq_nil_iff] at hnil
    exact absurd hnil h.rows_ne
  . rw [hclauses] at hoffers
    exact ⟨addrs, haddrs, hoffers⟩

theorem addresses?_of_ne {sig' : Signature} (hne : sig' ≠ sig)
    : compiled.program.addresses? sig'.label = tabled.program.addresses? sig'.label := by
  apply h.extension.addresses?_of_ne
  intro clause hclause
  rcases List.mem_map.mp hclause with ⟨row, hrow, rfl⟩
  rw [FactTable.signature_fact, h.length_eq row hrow]
  exact hne.symm

theorem compiled_interns : compiled.Interns compiled.program.constants :=
  ⟨fun _ hname => hname, by simp [h.compiled_plugins]⟩

theorem tabled_interns : tabled.Interns compiled.program.constants where
  constants := by
    have hprefix : tabled.program.code.toList <+: compiled.program.code.toList := h.extension.le
    exact List.filterMap_subset _ hprefix.subset
  plugins := by
    intro plugin hplugin
    rw [h.tabled_plugins, List.mem_singleton] at hplugin
    rw [hplugin]
    apply FactTable.roomy_plugin
    rw [FactTable.constants_ofRows h.length_eq]
    intro name hname
    rcases List.mem_flatten.mp hname with ⟨row, hrow, hmem⟩
    rcases h.exists_addresses with ⟨addrs, _, hoffers⟩
    rcases List.getElem?_of_mem (List.mem_map_of_mem (f := FactTable.fact sig) hrow) with ⟨i, hi⟩
    rcases exists_of_forall₂ hoffers hi with ⟨addr, _, hoffer⟩
    exact FactTable.constants_of_offers hoffer hmem

section Waiting

variable {symbols : SymbolTable} {s : State} {l : Level} {ls : List Level} {computeFeatures : Bool}
  {m m' : Machine}

theorem outlinks (hwaiting : Waiting tabled.program symbols s sig l ls)
    (harity : sig.arity < Signature.arityBound) (hsymbols : symbols ≤ m.symbols)
    (hsame : m'.symbols = m.symbols) (hrun : Unexhausted (tabled.outlinks s computeFeatures m))
    (hrun' : Unexhausted (compiled.outlinks s computeFeatures m'))
    : ∃ tried n tried' n', tabled.outlinks s computeFeatures m = .ok tried.reduceOption n ∧
        compiled.outlinks s computeFeatures m' = .ok tried'.reduceOption n' ∧
        n'.symbols = n.symbols ∧
        List.Forall₂ (FactTable.Compiled sig.label computeFeatures) tried tried' := by
  have hplugin : tabled.plugins.find? (·.claims sig.label) = some (FactTable.ofRows sig rows).plugin := by
    rw [h.tabled_plugins, List.find?_singleton]
    apply if_pos
    exact (FactTable.claims_ofRows h.length_eq h.rows_ne _).mpr rfl
  rcases h.exists_addresses with ⟨addrs, haddrs, hoffers⟩
  have htabled : tabled.outlinks s computeFeatures m = (List.reduceOption <$>
      rows.mapM (FactTable.answer tabled.run s sig.label computeFeatures)) { m with state := s } := by
    rw [Environment.outlinks_plugin hwaiting.completed_eq hwaiting.jumpTo_eq hplugin]
    show (FactTable.ofRows sig rows).outlinks tabled.run s computeFeatures { m with state := s } = _
    rw [FactTable.outlinks_eq _ hwaiting.jumpTo_eq harity, FactTable.answering_ofRows h.length_eq]
  have hcompiled : compiled.outlinks s computeFeatures = List.reduceOption <$>
      addrs.mapM (Environment.clauseOutlink compiled.run s computeFeatures) :=
    Environment.outlinks_eq_mapM hwaiting.completed_eq hwaiting.jumpTo_eq (by simp [h.compiled_plugins])
      haddrs
  rw [htabled] at hrun ⊢
  rw [hcompiled] at hrun' ⊢
  rcases FactTable.mapM_answer_compiled (m := { m with state := s }) hwaiting hsymbols hsame h.extension.le
    h.fenced hoffers hrun.of_map hrun'.of_map with ⟨tried, n, tried', n', hok, hok', hsymbols', hlinks⟩
  refine ⟨tried, n, tried', n', ?_, ?_, hsymbols', hlinks⟩
  . rw [Exec.map_apply, Environment.run, hok]
  . rw [Exec.map_apply, Environment.run, hok']

theorem rested_of_facts (hwaiting : Waiting tabled.program symbols s sig l ls)
    (hsymbols : symbols ≤ m.symbols) {links : List Outlink} {link : Outlink}
    (hlinks : compiled.outlinks s computeFeatures m = .ok links m') (hlink : link ∈ links)
    : Rested tabled.program m'.symbols link.state := by
  rcases h.exists_addresses with ⟨addrs, haddrs, hoffers⟩
  have hrun : Unexhausted (compiled.outlinks s computeFeatures m) := by
    rw [hlinks]
    exact unexhausted_ok _ _
  rw [compiled.outlinks_eq_mapM hwaiting.completed_eq hwaiting.jumpTo_eq (by simp [h.compiled_plugins])
    haddrs] at hrun hlinks
  rcases FactTable.mapM_clauseOutlink_rested hwaiting hsymbols h.extension.le h.fenced hoffers
    hrun.of_map with ⟨tried, n, hok, hrested⟩
  rw [Exec.map_apply, Environment.run, hok] at hlinks
  cases hlinks
  exact hrested link hlink

theorem rested_of_ne {sig' : Signature} (hwaiting : Waiting tabled.program symbols s sig' l ls)
    (hne : sig' ≠ sig) (hsymbols : symbols ≤ m.symbols) {links : List Outlink} {link : Outlink}
    (hlinks : compiled.outlinks s computeFeatures m = .ok links m') (hlink : link ∈ links)
    : Rested tabled.program m'.symbols link.state := by
  have haddrs := h.addresses?_of_ne hne
  have hnone : compiled.plugins.find? (·.claims sig'.label) = none := by simp [h.compiled_plugins]
  rcases h.implements.addresses_cases sig' with ⟨hunknown, _⟩ | ⟨addrs, hsome, _, hoffers⟩
  . rw [hunknown] at haddrs
    rw [Environment.outlinks_unknown hwaiting.completed_eq hwaiting.jumpTo_eq hnone haddrs] at hlinks
    contradiction
  . rw [hsome] at haddrs
    have hrun : Unexhausted (compiled.outlinks s computeFeatures m) := by
      rw [hlinks]
      exact unexhausted_ok _ _
    -- the clauses lie in front of the facts, and their runs do not get there
    have hextend : addrs.mapM (Environment.clauseOutlink compiled.run s computeFeatures) m =
        addrs.mapM (Environment.clauseOutlink
          (tabled.program.run (compiled.gather compiled.nesting)) s computeFeatures) m :=
      hwaiting.mapM_clauseOutlink_extend h.extension.le h.fenced hoffers hsymbols
    rw [compiled.outlinks_eq_mapM hwaiting.completed_eq hwaiting.jumpTo_eq hnone haddrs] at hrun hlinks
    have htrials := hrun.of_map
    rw [hextend] at htrials
    rw [Exec.map_apply, hextend] at hlinks
    rcases hwaiting.mapM_clauseOutlink hoffers hsymbols htrials with
      ⟨_, _, hfault, _⟩ | ⟨tried, n, hok, _, houtcomes⟩
    . rw [hfault] at hlinks
      contradiction
    . rw [hok] at hlinks
      cases hlinks
      rcases exists_of_mem_reduceOption houtcomes hlink with ⟨clause, _, houtcome⟩
      exact houtcome.rested

end Waiting

theorem rested {goals : List Literal} {start : Nat} {symbols : SymbolTable} {s : State}
    (hquery : tabled.program.Has start (queryCode goals)) (hreached : Reached compiled start symbols s)
    : Rested tabled.program symbols s := by
  induction hreached with
  | @start computeFeatures m m' report hm hrun =>
    have hextends : Exec.Extends
        (tabled.program.run (compiled.gather compiled.nesting) (some start) computeFeatures m)
        (compiled.program.run (compiled.gather compiled.nesting) (some start) computeFeatures m) :=
      Program.run_extends h.extension.le h.fenced (some start)
    rw [Environment.run] at hrun
    rw [hrun] at hextends
    rcases run_query hquery hm (hextends.unexhausted (unexhausted_ok _ _)) with ⟨n, heq, _, hpaused⟩
    cases hextends.eq_of_ok heq
    exact .inr ⟨_, hpaused⟩
  | step _ hfailed hcompleted hle hlinks hlink ih =>
    rcases ih with ⟨hfailed', _⟩ | ⟨d, hpaused⟩
    . rw [hfailed] at hfailed'
      contradiction
    . rcases hpaused.waiting_of_not_completed hcompleted with ⟨sig', l, ls, hwaiting, _⟩
      by_cases hsig : sig' = sig
      . subst hsig
        exact h.rested_of_facts hwaiting hle hlinks hlink
      . exact h.rested_of_ne hwaiting hsig hle hlinks hlink

end SameFacts

namespace Sample

def edgeSig : Signature := ⟨"edge", 2⟩

/--
A call with the same variable twice finds out at its second argument that the first row does not agree.
-/
def loops : List (List String) :=
  [["a", "b"], ["c", "c"]]

def circling : List Item :=
  [.query [⟨"edge", [.var "V", .var "V"]⟩, ⟨"edge", [.var "V", .var "W"]⟩]]

def tabledEnv : Environment where
  program := (({} : Program).compile circling).2
  plugins := [(FactTable.ofRows edgeSig loops).plugin]

def compiledEnv : Environment where
  program := (({} : Program).compile
    (circling ++ loops.map fun row => .clause (FactTable.fact edgeSig row))).2

def looping : State where
  heap := #[.ref 0, .ref 0]
  registers := #[none, some 0]
  calls := [⟨2, 2, 4, none⟩]
  pc := none
  jumpTo := some "edge/2"

def strayed : State where
  heap := #[.const 0, .ref 0]
  registers := #[none, some 0]
  calls := [⟨2, 2, 4, none⟩]
  pc := some 11
  jumpTo := some "edge/2"
  failed := true

def looped : State where
  heap := #[.const 1, .ref 0, .ref 0, .ref 3]
  registers := #[some 3, some 0]
  calls := [⟨4, 2, 7, none⟩]
  pc := none
  jumpTo := some "edge/2"

def firstWord : SymbolTable :=
  .single "a"

/--
What is asked of a row but not written down is not interned: `b` stays unknown.
-/
def loopWords : SymbolTable :=
  firstWord.push "c" (by simp [firstWord, Interner.single, Interner.push, Interner.lookup?, Interner.empty])

theorem sameFacts_loops : SameFacts circling edgeSig loops tabledEnv compiledEnv where
  tabled_program := rfl
  tabled_plugins := rfl
  compiled_program := rfl
  compiled_plugins := rfl
  clausesOf_eq := by decide
  rows_ne := by decide
  length_eq := by decide

end Sample

end HornMachine
