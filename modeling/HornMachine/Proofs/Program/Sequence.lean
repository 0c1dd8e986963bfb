import HornMachine.Proofs.Program.Allotment
import Mathlib.Data.List.TakeWhile

/-!
This module contains what a compiler makes of a sequence of items. Each clause and each query gives the block
that it gives in a new compiler, and what is refused leaves nothing behind.
-/

namespace HornMachine

namespace Clause

def Bound (clause : Clause) : Prop :=
  ∀ name ∈ clause.features.flatMap Literal.vars, name ∈ clause.head.vars

instance (clause : Clause) : Decidable clause.Bound :=
  inferInstanceAs (Decidable (∀ name ∈ clause.features.flatMap Literal.vars, name ∈ clause.head.vars))

def FirstUnbound (clause : Clause) (name : String) : Prop :=
  ∃ before after, clause.features.flatMap Literal.vars = before ++ name :: after ∧
    (∀ other ∈ before, other ∈ clause.head.vars) ∧ name ∉ clause.head.vars

theorem bound_iff {clause : Clause} : clause.Bound ↔ clause.unboundFeatureVariable? = none := by
  rw [Bound, unboundFeatureVariable?, List.find?_eq_none]
  simp only [decide_not, Bool.not_eq_true', decide_eq_false_iff_not, not_not]

theorem firstUnbound_iff {clause : Clause} {name : String}
    : clause.FirstUnbound name ↔ clause.unboundFeatureVariable? = some name := by
  rw [FirstUnbound, unboundFeatureVariable?, List.find?_eq_some_iff_append]
  simp only [decide_not, Bool.not_eq_true', decide_eq_false_iff_not, Bool.not_not, decide_eq_true_eq]
  tauto

theorem Bound.not_firstUnbound {clause : Clause} {name : String} (h : clause.Bound)
    : ¬clause.FirstUnbound name := by
  rintro ⟨before, after, hvars, _, hname⟩
  exact hname (h name (by simp [hvars]))

end Clause

namespace Item

def pieces : Item → List Item
  | .clause c => if c.Bound then [.clause c] else []
  | .clauses cs => (cs.takeWhile fun c => c.Bound).map .clause
  | .query goals => [.query goals]

inductive Answers (start : Nat) : Item → Except Compiler.Stop (Option Nat) → Prop
  | clause {c : Clause} : c.Bound → Answers start (.clause c) (.ok (some start))
  | refused {c : Clause} {name : String} : c.FirstUnbound name →
    Answers start (.clause c) (.error (.refused (.unboundFeatureVariable name)))
  | clauses {cs : List Clause} : (∀ c ∈ cs, c.Bound) → Answers start (.clauses cs) (.ok none)
  | refusedAmong {before after : List Clause} {c : Clause} {name : String} : (∀ c ∈ before, c.Bound) →
    c.FirstUnbound name →
    Answers start (.clauses (before ++ c :: after)) (.error (.refused (.unboundFeatureVariable name)))
  | query (goals : List Literal) : Answers start (.query goals) (.ok (some start))

end Item

namespace Program

def addPiece (program : Program) : Item → Program
  | .clause c => program.addedClause c
  | .clauses _ => program
  | .query goals => program.append (queryCode goals)

end Program

namespace Build

theorem after_clauses_pieces (cs : List Clause) (program : Program)
    : after (clauses cs) program = (Item.clauses cs).pieces.foldl Program.addPiece program := by
  induction cs generalizing program with
  | nil => rfl
  | cons c cs ih =>
    rw [after, clauses_apply, Item.pieces]
    cases hc : c.unboundFeatureVariable? with
    | some name =>
      have hbound : ¬c.Bound := by
        rw [Clause.bound_iff, hc]
        simp
      rw [List.takeWhile_cons_of_neg (by simpa using hbound)]
      rfl
    | none =>
      rw [List.takeWhile_cons_of_pos (by simpa using Clause.bound_iff.mpr hc)]
      exact ih (program.addedClause c)

theorem after_item_pieces (item : Item) (program : Program)
    : after (Build.item item) program = item.pieces.foldl Program.addPiece program := by
  cases item with
  | clause c =>
    rw [after_item_clause, after_clauses_pieces, Item.pieces, Item.pieces]
    by_cases hc : c.Bound
    . simp [hc]
    . simp [hc]
  | clauses cs => rw [after_item_clauses, after_clauses_pieces]
  | query goals => rw [after_item_query, Item.pieces, List.foldl_cons, List.foldl_nil, Program.addPiece]

theorem clauses_cases (cs : List Clause) (program : Program)
    : (∃ program', clauses cs program = .ok () program' ∧ ∀ c ∈ cs, c.Bound) ∨
      ∃ program' before c after name, clauses cs program = .error (.unboundFeatureVariable name) program' ∧
        cs = before ++ c :: after ∧ (∀ c ∈ before, c.Bound) ∧ c.FirstUnbound name := by
  induction cs generalizing program with
  | nil => exact .inl ⟨program, rfl, by simp⟩
  | cons c cs ih =>
    rw [clauses_apply]
    cases hc : c.unboundFeatureVariable? with
    | some name => exact .inr ⟨program, [], c, cs, name, rfl, rfl, by simp, Clause.firstUnbound_iff.mpr hc⟩
    | none =>
      have hbound := Clause.bound_iff.mpr hc
      rcases ih (program.addedClause c) with ⟨program', hrun, hcs⟩ |
        ⟨program', before, c', after, name, hrun, rfl, hbefore, hname⟩
      . exact .inl ⟨program', hrun, List.forall_mem_cons.mpr ⟨hbound, hcs⟩⟩
      . exact .inr ⟨program', c :: before, c', after, name, hrun, rfl,
          List.forall_mem_cons.mpr ⟨hbound, hbefore⟩, hname⟩

theorem answers_item (item : Item) (program : Program)
    : item.Answers program.size ((answer (Build.item item) program).mapError .refused) := by
  rw [answer]
  cases item with
  | clause c =>
    have hmap : Build.item (.clause c) = EStateM.map some (Build.clause c) := rfl
    rw [hmap, EStateM.map, clause_apply]
    cases hc : c.unboundFeatureVariable? with
    | none => exact .clause (Clause.bound_iff.mpr hc)
    | some name => exact .refused (Clause.firstUnbound_iff.mpr hc)
  | clauses cs =>
    rw [item_clauses_apply]
    rcases clauses_cases cs program with ⟨program', hok, hcs⟩ |
      ⟨program', before, c, after, name, herror, rfl, hbefore, hname⟩
    . rw [hok]
      exact .clauses hcs
    . rw [herror]
      exact .refusedAmong hbefore hname
  | query goals => exact .query goals

end Build

namespace Program

theorem compile_pieces (program : Program) (items : List Item)
    : (program.compile items).2 = (items.flatMap Item.pieces).foldl addPiece program := by
  induction items generalizing program with
  | nil => rfl
  | cons item items ih =>
    rw [compile_cons, List.flatMap_cons, List.foldl_append, ← Build.after_item_pieces]
    exact ih _

theorem length_compile (program : Program) (items : List Item)
    : (program.compile items).1.length = items.length := by
  induction items generalizing program with
  | nil => rfl
  | cons item items ih => rw [compile_cons, List.length_cons, List.length_cons, ih]

theorem answers_compile {items : List Item} {i : Nat} {item : Item} (program : Program)
    (hitem : items[i]? = some item)
    : ∃ answer, (program.compile items).1[i]? = some answer ∧
        item.Answers (((items.take i).flatMap Item.pieces).foldl addPiece program).size
          (answer.mapError .refused) := by
  induction items generalizing program i with
  | nil => simp at hitem
  | cons first items ih =>
    rw [compile_cons]
    cases i with
    | zero =>
      rw [List.getElem?_cons_zero, Option.some.injEq] at hitem
      subst hitem
      exact ⟨_, rfl, Build.answers_item first program⟩
    | succ i =>
      rw [List.getElem?_cons_succ] at hitem ⊢
      rw [List.take_succ_cons, List.flatMap_cons, List.foldl_append, ← Build.after_item_pieces]
      exact ih _ hitem

def pieceCode : Item → List Instruction
  | .clause c => c.code
  | .clauses _ => []
  | .query goals => queryCode goals

theorem code_addPiece (program : Program) (piece : Item)
    : (program.addPiece piece).code.toList = program.code.toList ++ pieceCode piece := by
  cases piece with
  | clause c => simp [addPiece, addedClause, addClause, append, pieceCode]
  | clauses cs => simp [addPiece, pieceCode]
  | query goals => simp [addPiece, append, pieceCode]

theorem code_foldl (program : Program) (pieces : List Item)
    : (pieces.foldl addPiece program).code.toList = program.code.toList ++ pieces.flatMap pieceCode := by
  induction pieces generalizing program with
  | nil => simp
  | cons piece pieces ih =>
    rw [List.foldl_cons, ih, code_addPiece, List.flatMap_cons, List.append_assoc]

theorem size_foldl (program : Program) (pieces : List Item)
    : (pieces.foldl addPiece program).size = program.size + (pieces.flatMap pieceCode).length := by
  rw [size, ← Array.length_toList, code_foldl, List.length_append, Array.length_toList, size]

end Program

namespace Compile

def Agrees (action : Compile α) (build : Build α) : Prop :=
  ∀ c : Compiler, ∃ allotments', action c = match build c.program with
    | .ok a program => .ok a ⟨allotments', program⟩
    | .error fault program => .error (.refused fault) ⟨allotments', program⟩

theorem agrees_pure (a : α) : Agrees (pure a) (pure a) :=
  fun c => ⟨c.allotments, rfl⟩

theorem Agrees.bind {action : Compile α} {build : Build α} {next : α → Compile β} {next' : α → Build β}
    (h : Agrees action build) (hnext : ∀ a, Agrees (next a) (next' a))
    : Agrees (action >>= next) (build >>= next') := by
  intro c
  rcases h c with ⟨allotments', hrun⟩
  rw [bind_apply, bind_apply, hrun]
  cases build c.program with
  | ok a program => exact hnext a ⟨allotments', program⟩
  | error fault program => exact ⟨allotments', rfl⟩

theorem agrees_clause (clause : Clause) : Agrees (Compile.clause clause) (Build.clause clause) := by
  intro c
  have happly := clause_apply clause c
  rw [Build.clause_apply]
  cases hc : clause.unboundFeatureVariable? with
  | some name =>
    rw [hc] at happly
    exact ⟨c.allotments, happly⟩
  | none =>
    rw [hc] at happly
    exact happly

theorem agrees_clauses (cs : List Clause) : Agrees (Compile.clauses cs) (Build.clauses cs) := by
  induction cs with
  | nil => exact agrees_pure ()
  | cons c cs ih => exact (agrees_clause c).bind fun _ => ih

theorem agrees_item (item : Item) : Agrees (Compile.item item) (Build.item item) := by
  cases item with
  | clause c => exact (agrees_clause c).bind fun addr => agrees_pure (some addr)
  | clauses cs => exact (agrees_clauses cs).bind fun _ => agrees_pure none
  | query goals =>
    have hquery : Agrees (Compile.query goals) (Build.query goals) := query_apply goals
    exact hquery.bind fun addr => agrees_pure (some addr)

end Compile

namespace Compiler

theorem compile_agrees (items : List Item) (c : Compiler)
    : (compile items c).1 = (c.program.compile items).1.map (Except.mapError .refused) ∧
      (compile items c).2.program = (c.program.compile items).2 := by
  induction items generalizing c with
  | nil => exact ⟨rfl, rfl⟩
  | cons item items ih =>
    rcases Compile.agrees_item item c with ⟨allotments', hrun⟩
    rw [compile, hrun, Program.compile]
    cases Build.item item c.program with
    | ok addr program =>
      rcases ih ⟨allotments', program⟩ with ⟨hanswers, hprogram⟩
      exact ⟨congrArg (Except.ok addr :: ·) hanswers, hprogram⟩
    | error fault program =>
      rcases ih ⟨allotments', program⟩ with ⟨hanswers, hprogram⟩
      exact ⟨congrArg (Except.error (Stop.refused fault) :: ·) hanswers, hprogram⟩

def alone (item : Item) : List Instruction :=
  (compile [item] {}).2.program.code.toList

theorem alone_eq (item : Item) : alone item = item.pieces.flatMap Program.pieceCode := by
  rw [alone, (compile_agrees [item] {}).2, Program.compile_pieces, Program.code_foldl]
  simp

/--
The addresses at which the clauses for a label begin, if the first of the pieces begins at `start`.
-/
def startsOf (label : String) : Nat → List Item → List Nat
  | _, [] => []
  | start, piece :: pieces =>
    let rest := startsOf label (start + (alone piece).length) pieces
    match piece with
    | .clause c => if c.head.signature.label = label then start :: rest else rest
    | _ => rest

theorem pieces_of_mem {item piece : Item} (h : piece ∈ item.pieces) : piece.pieces = [piece] := by
  cases item with
  | clause c =>
    rw [Item.pieces] at h
    split at h
    . next hc =>
      rw [List.mem_singleton.mp h, Item.pieces, if_pos hc]
    . contradiction
  | clauses cs =>
    rcases List.mem_map.mp h with ⟨c, hc, rfl⟩
    have hbound := List.mem_takeWhile_imp hc
    rw [Item.pieces, if_pos (of_decide_eq_true hbound)]
  | query goals => rw [List.mem_singleton.mp h, Item.pieces]

theorem alone_of_mem {items : List Item} {piece : Item} (h : piece ∈ items.flatMap Item.pieces)
    : alone piece = Program.pieceCode piece := by
  rcases List.mem_flatMap.mp h with ⟨item, _, hpiece⟩
  rw [alone_eq, pieces_of_mem hpiece, List.flatMap_singleton]

theorem flatMap_alone (items : List Item)
    : (items.flatMap Item.pieces).flatMap alone = (items.flatMap Item.pieces).flatMap Program.pieceCode := by
  rw [List.flatMap_congr]
  intro piece hpiece
  exact alone_of_mem hpiece

def addressesIn (label : String) (program : Program) : List Nat :=
  program.clauses.toList.filterMap fun (l, addr) => if l = label then some addr else none

theorem addresses?_eq (label : String) (program : Program)
    : program.addresses? label = match addressesIn label program with
      | [] => none
      | addrs => some addrs := by
  rfl

theorem hasLabel_iff (label : String) (program : Program)
    : program.hasLabel label = true ↔ addressesIn label program ≠ [] := by
  rw [Program.hasLabel, addressesIn, Ne, List.filterMap_eq_nil_iff, Array.any_eq_true']
  simp [Array.mem_toList_iff]

theorem clauses_addPiece (c : Clause) (program : Program)
    : (program.addPiece (.clause c)).clauses.toList =
      program.clauses.toList ++ [(c.head.signature.label, program.size)] := by
  simp [Program.addPiece, Program.addedClause, Program.addClause, Program.append]

theorem addressesIn_foldl (label : String) {pieces : List Item} (program : Program)
    (h : ∀ piece ∈ pieces, alone piece = Program.pieceCode piece)
    : addressesIn label (pieces.foldl Program.addPiece program) =
      addressesIn label program ++ startsOf label program.size pieces := by
  induction pieces generalizing program with
  | nil => simp [startsOf]
  | cons piece pieces ih =>
    have hsize : (program.addPiece piece).size = program.size + (alone piece).length := by
      rw [h piece List.mem_cons_self]
      simpa using Program.size_foldl program [piece]
    rw [List.foldl_cons, ih _ fun piece hpiece => h piece (List.mem_cons_of_mem _ hpiece), hsize]
    cases piece with
    | clause c =>
      have hfirst : addressesIn label (program.addPiece (.clause c)) = addressesIn label program ++
          if c.head.signature.label = label then [program.size] else [] := by
        unfold addressesIn
        rw [clauses_addPiece, List.filterMap_append]
        split
        . next hlabel => simp [hlabel]
        . next hlabel => simp [hlabel]
      rw [startsOf, hfirst, List.append_assoc]
      split
      . rfl
      . rfl
    | clauses cs => rfl
    | query goals => rfl

/--
The code of a sequence of items consists of the blocks that its clauses and queries give on their own, each of
which begins where its item is answered to begin and, if it is a clause, is registered for its predicate.
-/
theorem compile_blocks (items : List Item)
    : (compile items {}).2.program.code.toList = (items.flatMap Item.pieces).flatMap alone ∧
      (compile items {}).1.length = items.length ∧
      (∀ (i : Nat) (item : Item), items[i]? = some item → ∃ answer, (compile items {}).1[i]? = some answer ∧
        item.Answers (((items.take i).flatMap Item.pieces).flatMap alone).length answer) ∧
      (∀ label, (compile items {}).2.program.addresses? label =
        match startsOf label 0 (items.flatMap Item.pieces) with
        | [] => none
        | starts => some starts) ∧
      (∀ label, (compile items {}).2.program.hasLabel label = true ↔
        startsOf label 0 (items.flatMap Item.pieces) ≠ []) ∧
      (∀ (rule : Clause) (c : Compiler), ¬rule.Bound → ∃ name, rule.FirstUnbound name ∧
        Compile.clause rule c = .error (.refused (.unboundFeatureVariable name)) c) ∧
      (compile items {}).1 = (({} : Program).compile items).1.map (Except.mapError .refused) ∧
      (compile items {}).2.program = (({} : Program).compile items).2 := by
  rcases compile_agrees items {} with ⟨hanswers, hprogram⟩
  have hpieces := Program.compile_pieces {} items
  have haddresses : ∀ label, addressesIn label (({} : Program).compile items).2 =
      startsOf label 0 (items.flatMap Item.pieces) := by
    intro label
    rw [hpieces, addressesIn_foldl label {} fun piece hpiece => alone_of_mem hpiece]
    rfl
  refine ⟨?_, ?_, ?_, ?_, ?_, ?_, hanswers, hprogram⟩
  . rw [hprogram, hpieces, Program.code_foldl, flatMap_alone]
    rfl
  . rw [hanswers, List.length_map, Program.length_compile]
  . intro i item hitem
    rcases Program.answers_compile {} hitem with ⟨answer, hanswer, hitem⟩
    refine ⟨answer.mapError .refused, ?_, ?_⟩
    . rw [hanswers, List.getElem?_map, hanswer]
      rfl
    . rw [Program.size_foldl, ← flatMap_alone] at hitem
      simpa [Program.size] using hitem
  . intro label
    rw [hprogram, addresses?_eq, haddresses]
  . intro label
    rw [hprogram, hasLabel_iff, haddresses]
  . intro rule c hbound
    have happly := Compile.clause_apply rule c
    cases hrule : rule.unboundFeatureVariable? with
    | some name =>
      rw [hrule] at happly
      exact ⟨name, Clause.firstUnbound_iff.mpr hrule, happly⟩
    | none => exact absurd (Clause.bound_iff.mpr hrule) hbound

theorem compile_blocks_sample
    : let good : Clause := ⟨⟨"p", [.var "X"]⟩, [], [⟨"f", [.var "X"]⟩]⟩
      let bad : Clause := ⟨⟨"p", [.var "X"]⟩, [], [⟨"f", [.var "Y"]⟩]⟩
      let items : List Item :=
        [.clause bad, .clauses [good, bad, good], .query [⟨"p", [.var "Z"]⟩], .clause good]
      (compile items {}).1[0]? = some (.error (.refused (.unboundFeatureVariable "Y"))) ∧
        (compile items {}).1[3]? = some (.ok (some 11)) ∧
        (compile items {}).2.program.addresses? "p/1" = some [0, 11] ∧
        Compile.clause bad (compile items {}).2 =
          .error (.refused (.unboundFeatureVariable "Y")) (compile items {}).2 := by
  intro good bad items
  have hunbound : ∀ {name : String}, bad.FirstUnbound name → name = "Y" := by
    intro name hname
    have hfirst : bad.unboundFeatureVariable? = some "Y" := by decide
    simpa [hfirst, eq_comm] using Clause.firstUnbound_iff.mp hname
  rcases compile_blocks items with ⟨_, _, hanswers, haddresses, _, hrefused, _⟩
  refine ⟨?_, ?_, ?_, ?_⟩
  . rcases hanswers 0 (.clause bad) rfl with ⟨answer, hanswer, hitem⟩
    cases hitem with
    | clause hbound => exact absurd hbound (by decide)
    | refused hname => rwa [hunbound hname] at hanswer
  . rcases hanswers 3 (.clause good) rfl with ⟨answer, hanswer, hitem⟩
    have hstart : (((items.take 3).flatMap Item.pieces).flatMap alone).length = 11 := by
      rw [flatMap_alone]
      decide
    rw [hstart] at hitem
    cases hitem with
    | clause => exact hanswer
    | refused hname =>
      have hbound : good.Bound := by
        decide
      exact absurd hname hbound.not_firstUnbound
  . have hpieces : items.flatMap Item.pieces = [.clause good, .query [⟨"p", [.var "Z"]⟩], .clause good] := by
      decide
    rw [haddresses, hpieces]
    have hlabel : good.head.signature.label = "p/1" := by
      decide
    simp only [startsOf, alone_eq, hlabel, if_true]
    rfl
  . rcases hrefused bad (compile items {}).2 (by decide) with ⟨name, hname, hrun⟩
    rwa [hunbound hname] at hrun

end Compiler

end HornMachine
