import HornMachine.Proofs.Environment.Alike
import HornMachine.Proofs.Environment.Extend

/-!
This module contains rows as clauses. The code of a fact does to a call what a table does with the row,
cell by cell and constant by constant.
-/

namespace HornMachine

open Level

namespace Machine

section Cell

variable {b : Machine} {arity index count : Nat} (stack : List Feature) (pc : Nat) (value : String)
  (hvalid : b.state.heap.Valid b.symbols) (hpos : 0 < index) (hle : index ≤ arity)
  (harity : arity ≤ b.state.heap.size) (hcount : index + count = arity + 1)
include hpos hle harity hcount

theorem relative_argument
    : b.state.heap.relative (-(count : Int)) = .ok (b.state.heap.size - arity + index - 1) := by
  rw [relative_eq (by omega) (by omega)]
  congr 1
  omega

include hvalid

theorem unifyConst_of_const {name : String} (h : b.constantArgument arity index = .ok (some name))
    : (b.fed stack pc).unifyConst value (-(count : Int)) =
      .ok { b.fed stack pc with state := { (b.fed stack pc).state with failed := name != value } } := by
  have hrelative := relative_argument hpos hle harity hcount
  rw [constantArgument, argument, argumentAddress_eq hpos hle harity] at h
  have haddr : b.state.heap.size - arity + index - 1 < b.state.heap.size := by omega
  rcases valueAt_cases hvalid.closed haddr with
    ⟨root, hleads, ⟨_, heq⟩ | ⟨id, name', hconst, hname, heq⟩⟩
  . simp only [bind, Except.bind, heq] at h
    cases h
  . simp only [bind, Except.bind, heq] at h
    cases h
    have hlookup : (b.symbols.lookup? value != some id) = (name != value) := by
      rw [Bool.eq_iff_iff, bne_iff_ne, bne_iff_ne, not_iff_not, Interner.lookup?_eq_some, hname,
        Option.some.injEq]
    unfold unifyConst fed
    simp only [hrelative, bind, Except.bind, hvalid.root_eq hleads, Heap.constantAt_const hconst, hlookup]
    rfl

theorem unifyConst_of_free (h : b.constantArgument arity index = .ok none)
    : (b.fed stack pc).unifyConst value (-(count : Int)) =
      (fun b' => b'.fed stack pc) <$> b.setArgument arity index value := by
  have hrelative := relative_argument hpos hle harity hcount
  rcases constantArgument_cases hvalid hpos hle harity with ⟨name, heq, _⟩ | ⟨_, root, hleads, hfree⟩
  . rw [h] at heq
    cases heq
  . unfold unifyConst setArgument fed
    simp only [argumentAddress_eq hpos hle harity, hrelative, bind, Except.bind, hvalid.root_eq hleads,
      Heap.constantAt_free hfree, Heap.isFree_eq_ok hfree, beq_self_eq_true, if_true]
    match b.symbols.intern value with
    | .error fault => rfl
    | .ok interned =>
      simp only
      match b.state.heap.write root (.const interned.1) with
      | .error fault => rfl
      | .ok heap =>
        simp only
        match heap.collapse (b.state.heap.size - arity + index - 1) root with
        | .error fault => rfl
        | .ok heap' => rfl

end Cell

end Machine

theorem Ready.resume_same {program program' : Program} {gather gather' : Nat → Exec (List Goal)}
    {computeFeatures : Bool} {stack : List Feature} {l : Level} {ls : List Level} {m : Machine}
    (h : Ready program m.symbols m.state l ls) (hle : program ≤ program') (hfenced : program.Fenced)
    (hrun : Unexhausted (program.run gather none computeFeatures m))
    (hrun' : Unexhausted (program'.runOn gather' computeFeatures { m with features := stack }))
    : ∃ n n', program.run gather none computeFeatures m = .ok ∅ n ∧
        program'.runOn gather' computeFeatures { m with features := stack } = .ok ∅ n' ∧
        m.symbols ≤ n.symbols ∧ n'.symbols = n.symbols ∧ n'.state = n.state ∧ n.state.failed = false := by
  have hextend : program'.runOn gather' computeFeatures { m with features := stack } =
      program.runOn gather' computeFeatures { m with features := stack } :=
    Ready.runOn_extend (m := { m with features := stack }) hle hfenced h
  rw [hextend] at hrun' ⊢
  rw [Program.run_none h.runsAt] at hrun ⊢
  rcases h.resume hrun with ⟨n, hok, hle', _, hpaused⟩
  rcases h.runOn_features hfenced hrun hrun' with ⟨n₁, n', hok₁, hok', hsymbols, hstate⟩
  rw [hok] at hok₁
  cases hok₁
  exact ⟨n, n', hok, hok', hle', hsymbols, hstate, hpaused.failed_eq⟩

namespace FactTable

/--
The binding of a row and the run through the head of the fact come to the same end. After the head the
run goes on at `pc`, where nothing but the features under construction tells the machines apart.
-/
inductive RowRun (program : Program) (gather : Nat → Exec (List Goal)) (computeFeatures : Bool)
    (stack : List Feature) (pc : Nat)
    : EStateM.Result Fault Machine Bool → EStateM.Result Fault Machine Features → Prop where
  | bound (b : Machine)
      : RowRun program gather computeFeatures stack pc (.ok true b)
          (program.runOn gather computeFeatures (b.fed stack pc))
  | refused {b c : Machine} (hsymbols : c.symbols = b.symbols) (hfailed : c.state.failed = true)
      (hcompleted : c.state.completed = false)
      : RowRun program gather computeFeatures stack pc (.ok false b) (.ok ∅ c)
  | fault (fault : Fault) (b c : Machine)
      : RowRun program gather computeFeatures stack pc (.error fault b) (.error fault c)

variable {program : Program} {gather : Nat → Exec (List Goal)} {computeFeatures : Bool}
  {stack : List Feature} {vars seen : List String} {row : List String} {arity index pc : Nat} {b : Machine}

theorem bindRow_cell {value : String}
    (hinstr : program.code[pc]? = some (.unifyConst value (-((row.length + 1 : Nat) : Int))))
    (hat : (b.fed stack pc).state.RunsAt pc) (hvalid : b.state.heap.Valid b.symbols) (hpos : 0 < index)
    (hindex : index + (row.length + 1) = arity + 1) (harity : arity ≤ b.state.heap.size)
    : (∃ b', bindRow arity index (value :: row) b = bindRow arity (index + 1) row b' ∧
        program.runOn gather computeFeatures (b.fed stack pc) =
          program.runOn gather computeFeatures (b'.fed stack (pc + 1)) ∧
        (b'.fed stack (pc + 1)).state.RunsAt (pc + 1) ∧ b'.state.heap.Valid b'.symbols ∧
        b'.state.heap.size = b.state.heap.size) ∨
      ∀ pc', RowRun program gather computeFeatures stack pc' (bindRow arity index (value :: row) b)
        (program.runOn gather computeFeatures (b.fed stack pc)) := by
  have hle : index ≤ arity := by omega
  have hexec : execute gather computeFeatures (.unifyConst value (-((row.length + 1 : Nat) : Int)))
      (b.fed stack pc) =
      execute.stepping (Exec.update (·.unifyConst value (-((row.length + 1 : Nat) : Int))))
        (b.fed stack pc) := by
    rw [execute_eq_whole]
    rfl
  -- both compare an argument that has a constant, and bind one that has none
  rcases Machine.constantArgument_cases hvalid hpos hle harity with
    ⟨name, heq, _⟩ | ⟨heq, root, hleads, hfree⟩
  . have hunify := Machine.unifyConst_of_const stack pc value hvalid hpos hle harity hindex heq
    rw [bindRow_const value row heq, Program.runOn_update hat hinstr hexec hunify]
    by_cases hvalue : name = value
    . left
      have hfailed : (name != value) = b.state.failed := by
        rw [show b.state.failed = false from hat.failed_eq]
        simp [hvalue]
      rw [if_pos hvalue, hfailed]
      exact ⟨b, rfl, rfl, hat.advance, hvalid, rfl⟩
    . right
      intro pc'
      rw [if_neg hvalue, Program.runOn_pause (by simp [State.next?, State.advance, hvalue])]
      exact .refused rfl (by simp [State.advance, hvalue]) hat.completed_eq
  . have hunify := Machine.unifyConst_of_free stack pc value hvalid hpos hle harity hindex heq
    rw [bindRow_free value row heq]
    rcases Machine.setArgument_cases hvalid hpos hle harity value hleads hfree with
      ⟨entries, hset⟩ | ⟨symbols, heap, hset, _, hadds⟩
    . right
      intro pc'
      rw [hset] at hunify
      have hfault := execute.stepping_update_fault hunify
      rw [Exec.bind_of_error (Exec.update_of_error hset),
        Program.runOn_fault hat hinstr (hexec.trans hfault)]
      exact .fault _ _ _
    . left
      rw [hset] at hunify
      rw [Exec.bind_of_ok (Exec.update_eq_ok.mpr hset), Program.runOn_update hat hinstr hexec hunify]
      exact ⟨_, rfl, rfl, ⟨rfl, hat.failed_eq, hat.completed_eq⟩, hadds.valid, hadds.size_eq⟩

theorem bindRow_run (hcode : program.Has pc (Code.head vars (-(row.length : Int)) seen (row.map .const)))
    (hat : (b.fed stack pc).state.RunsAt pc) (hvalid : b.state.heap.Valid b.symbols) (hpos : 0 < index)
    (hindex : index + row.length = arity + 1) (harity : arity ≤ b.state.heap.size)
    : RowRun program gather computeFeatures stack (pc + row.length) (bindRow arity index row b)
        (program.runOn gather computeFeatures (b.fed stack pc)) := by
  induction row generalizing b index pc with
  | nil => exact .bound b
  | cons value row ih =>
    rw [List.map_cons, Code.head, List.length_cons] at hcode
    rw [List.length_cons] at hindex
    rcases bindRow_cell hcode.head hat hvalid hpos hindex harity with
      ⟨b', hbind, hrun, hat', hvalid', hsize⟩ | hend
    . have hoffset : (-((row.length + 1 : Nat) : Int)) + 1 = -(row.length : Int) := by omega
      have htail := hcode.tail
      rw [hoffset] at htail
      rw [← hsize] at harity
      rw [hbind, hrun, List.length_cons, Nat.add_comm row.length 1, ← Nat.add_assoc]
      exact ih htail hat' hvalid' (Nat.succ_pos index) (by omega) harity
    . exact hend _

section Fact

variable (sig : Signature) (row : List String)

theorem vars_fact : (fact sig row).vars = [] := by
  have hargs : ∀ row : List String, (row.map Term.const).filterMap Term.var? = [] := by
    simp [Term.var?]
  simp [Clause.vars, fact, Literal.vars, hargs]

theorem signature_fact : (fact sig row).head.signature = ⟨sig.functor, row.length⟩ := by
  simp [fact, Literal.signature]

theorem code_fact
    : (fact sig row).code = .grow 0 :: (Code.head [] (-(row.length : Int)) [] (row.map .const) ++
        ([.fclear, .freport] ++ [.returnp])) := by
  unfold Clause.code
  simp only [vars_fact]
  simp [fact, Code.features, Code.calls]

variable {sig row} in
theorem length_of_offers {addr : Nat} (h : program.Offers sig addr (fact sig row))
    : row.length = sig.arity := by
  have hsig := h.signature_eq
  rw [signature_fact] at hsig
  rw [← hsig]

end Fact

section Tail

theorem runOn_returnp (hinstr : program.code[pc]? = some .returnp)
    (hat : (b.fed stack pc).state.RunsAt pc) (hcalls : b.state.calls ≠ [])
    : program.runOn gather computeFeatures (b.fed stack pc) =
      program.runOn gather computeFeatures { b with state := b.state.leave, features := stack } := by
  have hleave : (b.fed stack pc).state.leave = b.state.leave := by
    unfold State.leave Machine.fed
    simp only
    match h : b.state.calls with
    | [] => contradiction
    | frame :: calls => rfl
  rw [← hleave]
  exact Program.runOn_step hat hinstr rfl

variable (hcode : program.Has pc ([.fclear, .freport] ++ [.returnp]))
  (hat : (b.fed stack pc).state.RunsAt pc) (hcalls : b.state.calls ≠ [])
include hcode hat hcalls

theorem runOn_tail_false
    : program.runOn gather false (b.fed stack pc) =
      program.runOn gather false { b with state := b.state.leave, features := stack } := by
  have hskip : program.runOn gather false (b.fed stack pc) =
      program.runOn gather false (b.fed stack (pc + 2)) := by
    apply runOn_skip gather hat hcode.left
    simp [Instruction.isFeature]
  rw [hskip]
  exact runOn_returnp hcode.right.head ⟨rfl, hat.failed_eq, hat.completed_eq⟩ hcalls

variable (gather) in
theorem runOn_tail_true
    : program.runOn gather true (b.fed stack pc) = .ok (Features.report []) (b.fed [] (pc + 2)) ∧
      program.run gather none true (b.fed [] (pc + 2)) =
        program.runOn gather true { b with state := b.state.leave, features := [] } := by
  have hat' : ∀ pc', (b.fed [] pc').state.RunsAt pc' := fun _ => ⟨rfl, hat.failed_eq, hat.completed_eq⟩
  constructor
  . have hclear : program.runOn gather true (b.fed stack pc) =
        program.runOn gather true (b.fed [] (pc + 1)) := Program.runOn_step hat hcode.head rfl
    rw [hclear]
    apply Program.runOn_report (hat' _) hcode.tail.head rfl
    decide
  . rw [Program.run_none (hat' _)]
    exact runOn_returnp hcode.right.head (hat' _) hcalls

end Tail

def resumed (computeFeatures : Bool) (features : Features)
    : EStateM.Result Fault Machine Features → EStateM.Result Fault Machine (Option Outlink)
  | .error fault m => .error fault m
  | .ok _ m =>
    if computeFeatures = true ∧ m.state.failed = true then
      .ok none m
    else
      .ok (some ⟨if computeFeatures then some features else none, m.state⟩) m

theorem resumed_ok {features report : Features} {n : Machine} (hfailed : n.state.failed = false)
    : resumed computeFeatures features (.ok report n) =
      .ok (some ⟨if computeFeatures then some features else none, n.state⟩) n := by
  simp [resumed, hfailed]

theorem unexhausted_of_resumed {features : Features} {r : EStateM.Result Fault Machine Features}
    (h : Unexhausted (resumed computeFeatures features r)) : Unexhausted r := by
  apply h.of_error
  intro fault m heq
  rw [heq]
  rfl

theorem answer_of_bound {run : Runner} {s : State} {label : String} {m : Machine}
    (hbind : bindRow row.length 1 row { m with state := s } = .ok true b)
    : answer run s label computeFeatures row m =
      resumed computeFeatures (answerFeatures label)
        (run none computeFeatures { b with state := b.state.leave }) := by
  rw [answer_apply, hbind]
  rfl

/--
What a row gives for a call, and what the fact in it gives as a clause: the states are the same, and a
clause that does not agree with the call gives a failed one if no features are computed.
-/
inductive Compiled (label : String) : (computeFeatures : Bool) → Option Outlink → Option Outlink → Prop where
  | dropped : Compiled label true none none
  | failed {s : State} (hfailed : s.failed = true) (hcompleted : s.completed = false)
      : Compiled label false none (some ⟨none, s⟩)
  | next {s : State} (computeFeatures : Bool) (hfailed : s.failed = false)
      : Compiled label computeFeatures
          (some ⟨if computeFeatures then some (answerFeatures label) else none, s⟩)
          (some ⟨if computeFeatures then some (Features.report []) else none, s⟩)

section Outlink

variable {s : State} {addr : Nat} {m c : Machine}

theorem clauseOutlink_of_bound
    (hrun : program.run gather (some addr) computeFeatures { m with state := s } =
      program.runOn gather computeFeatures (b.fed stack pc))
    (hcode : program.Has pc ([.fclear, .freport] ++ [.returnp])) (hat : (b.fed stack pc).state.RunsAt pc)
    (hcalls : b.state.calls ≠ [])
    : ∃ stack', Environment.clauseOutlink (program.run gather) s computeFeatures addr m =
        resumed computeFeatures (Features.report []) (program.runOn gather computeFeatures
          { b with state := b.state.leave, features := stack' }) := by
  cases computeFeatures with
  | false =>
    refine ⟨stack, ?_⟩
    rw [Environment.clauseOutlink_false_apply, hrun, runOn_tail_false hcode hat hcalls]
    match program.runOn gather false { b with state := b.state.leave, features := stack } with
    | .error fault m' => rfl
    | .ok _ m' => rfl
  | true =>
    refine ⟨[], ?_⟩
    rcases runOn_tail_true gather hcode hat hcalls with ⟨hreport, hrest⟩
    have hstop : ((Features.report []).isEmpty || (b.fed [] (pc + 2)).state.failed) = false := by
      have hreports : (Features.report []).isEmpty = false := by decide
      rw [hreports]
      exact hat.failed_eq
    rw [Environment.clauseOutlink_true_apply, hrun, hreport]
    match hrun' : program.runOn gather true { b with state := b.state.leave, features := [] } with
    | .error fault m' => simp [hstop, hrest, hrun', resumed]
    | .ok _ m' => simp [hstop, hrest, hrun', resumed]

theorem clauseOutlink_of_refused (label : String)
    (hrun : program.run gather (some addr) computeFeatures { m with state := s } = .ok ∅ c)
    (hfailed : c.state.failed = true) (hcompleted : c.state.completed = false)
    : ∃ link, Environment.clauseOutlink (program.run gather) s computeFeatures addr m = .ok link c ∧
        Compiled label computeFeatures none link := by
  cases computeFeatures with
  | false =>
    rw [Environment.clauseOutlink_false_apply, hrun]
    exact ⟨_, rfl, .failed hfailed hcompleted⟩
  | true =>
    rw [Environment.clauseOutlink_true_apply, hrun]
    exact ⟨none, by simp [hfailed], .dropped⟩

theorem clauseOutlink_of_fault {fault : Fault}
    (hrun : program.run gather (some addr) computeFeatures { m with state := s } = .error fault c)
    : Environment.clauseOutlink (program.run gather) s computeFeatures addr m = .error fault c := by
  cases computeFeatures with
  | false => rw [Environment.clauseOutlink_false_apply, hrun]
  | true => rw [Environment.clauseOutlink_true_apply, hrun]

end Outlink

section Answer

variable {program' : Program} {gather' : Nat → Exec (List Goal)} {symbols : SymbolTable} {s : State}
  {sig : Signature} {l : Level} {ls : List Level} {addr : Nat} {m m' : Machine}
  (h : Waiting program symbols s sig l ls) (hsymbols : symbols ≤ m.symbols)
  (hsame : m'.symbols = m.symbols)
include h hsymbols hsame

section Row

variable (hoffers : program'.Offers sig addr (fact sig row))
include hoffers

omit hsymbols hsame in
theorem length_le_of_offers : row.length ≤ s.heap.size := by
  rw [length_of_offers hoffers]
  exact h.arity_le

variable (computeFeatures gather') in
theorem rowRun_fact
    : RowRun program' gather' computeFeatures m'.features (addr + 1 + row.length)
        (bindRow row.length 1 row { m with state := s })
        (program'.run gather' (some addr) computeFeatures { m' with state := s }) := by
  have harity := length_le_of_offers h hoffers
  have hcode := hoffers.code
  rw [code_fact] at hcode
  have hstart : program'.run gather' (some addr) computeFeatures { m' with state := s } =
      program'.runOn gather' computeFeatures
        (Machine.fed { m with state := s } m'.features (addr + 1)) := by
    rw [run_allocate hcode]
    congr 1
    unfold Machine.allocated Machine.fed
    simp [hsame, h.failed_eq, h.completed_eq]
  rw [hstart]
  apply bindRow_run hcode.tail.left _ (h.valid.mono hsymbols) Nat.one_pos (Nat.add_comm 1 _) harity
  exact ⟨rfl, h.failed_eq, h.completed_eq⟩

theorem unexhausted_bindRow
    (hrun : Unexhausted (Environment.clauseOutlink (program'.run gather') s computeFeatures addr m'))
    : Unexhausted (bindRow row.length 1 row { m with state := s }) := by
  intro entries b heq
  have hrow := rowRun_fact computeFeatures gather' h hsymbols hsame hoffers
  rw [heq] at hrow
  generalize hr : program'.run gather' (some addr) computeFeatures { m' with state := s } = r at hrow
  rcases hrow with _ | _ | ⟨_, _, c⟩
  exact hrun entries c (clauseOutlink_of_fault hr)

variable (computeFeatures gather') in
theorem clauseOutlink_fact (hbind : Unexhausted (bindRow row.length 1 row { m with state := s }))
    : (∃ b stack, bindRow row.length 1 row { m with state := s } = .ok true b ∧
        Binds row.length 1 row { m with state := s } b ∧
        Environment.clauseOutlink (program'.run gather') s computeFeatures addr m' =
          resumed computeFeatures (Features.report []) (program'.runOn gather' computeFeatures
            { b with state := b.state.leave, features := stack })) ∨
      ∃ b link c, bindRow row.length 1 row { m with state := s } = .ok false b ∧
        Environment.clauseOutlink (program'.run gather') s computeFeatures addr m' = .ok link c ∧
        m.symbols ≤ b.symbols ∧ c.symbols = b.symbols ∧ Compiled sig.label computeFeatures none link := by
  have harity := length_le_of_offers h hoffers
  have hrow := rowRun_fact computeFeatures gather' h hsymbols hsame hoffers
  generalize hr : program'.run gather' (some addr) computeFeatures { m' with state := s } = r at hrow
  rcases bindRow_cases (h.valid.mono hsymbols) Nat.one_pos (Nat.add_comm 1 _) harity hbind with
    ⟨b, heq, hbinds⟩ | ⟨b, heq, hle', _⟩
  . left
    rw [heq] at hrow
    cases hrow
    have hcode := hoffers.code
    rw [code_fact] at hcode
    have hcode' := hcode.tail.right
    rw [length_head, List.length_map] at hcode'
    have hat : (b.fed m'.features (addr + 1 + row.length)).state.RunsAt (addr + 1 + row.length) := by
      unfold Machine.fed
      rw [hbinds.state_eq]
      exact ⟨rfl, h.failed_eq, h.completed_eq⟩
    have hcalls : b.state.calls ≠ [] := by
      rw [hbinds.state_eq]
      simp [h.calls_eq]
    rcases clauseOutlink_of_bound hr hcode' hat hcalls with ⟨stack, houtlink⟩
    exact ⟨b, stack, heq, hbinds, houtlink⟩
  . right
    rw [heq] at hrow
    rcases hrow with _ | ⟨hsymbols', hfailed, hcompleted⟩
    rcases clauseOutlink_of_refused sig.label hr hfailed hcompleted with ⟨link, houtlink, hlink⟩
    exact ⟨b, link, _, heq, houtlink, hle', hsymbols', hlink⟩

end Row

variable (hle : program ≤ program') (hfenced : program.Fenced)
include hle hfenced

theorem answer_compiled (hoffers : program'.Offers sig addr (fact sig row))
    (hrun : Unexhausted (answer (program.run gather) s sig.label computeFeatures row m))
    (hrun' : Unexhausted
      (Environment.clauseOutlink (program'.run gather') s computeFeatures addr m'))
    : ∃ link n link' n', answer (program.run gather) s sig.label computeFeatures row m = .ok link n ∧
        Environment.clauseOutlink (program'.run gather') s computeFeatures addr m' = .ok link' n' ∧
        m.symbols ≤ n.symbols ∧ n'.symbols = n.symbols ∧
        Compiled sig.label computeFeatures link link' := by
  have hbind := unexhausted_bindRow h hsymbols hsame hoffers hrun'
  rcases clauseOutlink_fact computeFeatures gather' h hsymbols hsame hoffers hbind with
    ⟨b, stack, heq, hbinds, houtlink⟩ | ⟨b, link, c, heq, houtlink, hle', hsymbols', hlink⟩
  . rcases ready_answer h hbinds with ⟨hready, _⟩
    rw [houtlink] at hrun' ⊢
    rw [answer_of_bound heq] at hrun ⊢
    rcases Ready.resume_same (m := { b with state := b.state.leave }) hready hle hfenced
        (unexhausted_of_resumed hrun) (unexhausted_of_resumed hrun') with
      ⟨n, n', hok, hok', hle', hsymbols', hstate, hfailed⟩
    have hfailed' : n'.state.failed = false := by rw [hstate, hfailed]
    rw [hok, hok', resumed_ok hfailed, resumed_ok hfailed', hstate]
    exact ⟨_, n, _, n', rfl, rfl, Interner.le_trans hbinds.symbols_le hle', hsymbols', .next _ hfailed⟩
  . rw [answer_apply, heq]
    exact ⟨none, b, link, c, rfl, houtlink, hle', hsymbols', hlink⟩

theorem clauseOutlink_rested (hoffers : program'.Offers sig addr (fact sig row))
    (hrun : Unexhausted (Environment.clauseOutlink (program'.run gather') s computeFeatures addr m'))
    : ∃ link n, Environment.clauseOutlink (program'.run gather') s computeFeatures addr m' = .ok link n ∧
        m.symbols ≤ n.symbols ∧ ∀ link' ∈ link, Rested program n.symbols link'.state := by
  have hbind := unexhausted_bindRow h hsymbols hsame hoffers hrun
  rcases clauseOutlink_fact computeFeatures gather' h hsymbols hsame hoffers hbind with
    ⟨b, stack, heq, hbinds, houtlink⟩ | ⟨b, link, c, heq, houtlink, hle', hsymbols', hlink⟩
  . rcases ready_answer h hbinds with ⟨hready, _⟩
    have hextend : program'.runOn gather' computeFeatures
          { b with state := b.state.leave, features := stack } =
        program.runOn gather' computeFeatures { b with state := b.state.leave, features := stack } :=
      Ready.runOn_extend (m := { b with state := b.state.leave, features := stack }) hle hfenced hready
    rw [houtlink, hextend] at hrun ⊢
    rcases Ready.resume (m := { b with state := b.state.leave, features := stack }) hready
        (unexhausted_of_resumed hrun) with ⟨n, hok, hle', _, hpaused⟩
    rw [hok, resumed_ok hpaused.failed_eq]
    refine ⟨_, n, rfl, Interner.le_trans hbinds.symbols_le hle', ?_⟩
    rintro link' ⟨⟩
    exact .inr ⟨_, hpaused⟩
  . rw [← hsymbols'] at hle'
    refine ⟨link, c, houtlink, hle', ?_⟩
    intro link' hmem
    cases hlink with
    | dropped => contradiction
    | failed hfailed hcompleted =>
      cases hmem
      exact .inl ⟨hfailed, hcompleted⟩

theorem mapM_answer_compiled {rows : List (List String)} {addrs : List Nat}
    (hoffers : List.Forall₂ (program'.Offers sig) addrs (rows.map (fact sig)))
    (hrun : Unexhausted (rows.mapM (answer (program.run gather) s sig.label computeFeatures) m))
    (hrun' : Unexhausted
      (addrs.mapM (Environment.clauseOutlink (program'.run gather') s computeFeatures) m'))
    : ∃ tried n tried' n',
        rows.mapM (answer (program.run gather) s sig.label computeFeatures) m = .ok tried n ∧
        addrs.mapM (Environment.clauseOutlink (program'.run gather') s computeFeatures) m' =
          .ok tried' n' ∧
        n'.symbols = n.symbols ∧ List.Forall₂ (Compiled sig.label computeFeatures) tried tried' := by
  induction rows generalizing addrs m m' with
  | nil =>
    rcases hoffers with _ | _
    exact ⟨[], m, [], m', rfl, rfl, hsame, .nil⟩
  | cons row rows ih =>
    rcases hoffers with _ | ⟨hoffer, hoffers⟩
    rw [List.mapM_cons] at hrun hrun' ⊢
    rw [List.mapM_cons]
    rcases answer_compiled h hsymbols hsame hle hfenced hoffer hrun.of_bind hrun'.of_bind with
      ⟨link, n, link', n', heq, heq', hle₁, hsame₁, hlink⟩
    have hrun₁ := hrun.of_bind_ok heq
    have hrun₁' := hrun'.of_bind_ok heq'
    rw [Exec.bind_of_ok heq, Exec.bind_of_ok heq']
    rcases ih (Interner.le_trans hsymbols hle₁) hsame₁ hoffers hrun₁.of_bind hrun₁'.of_bind with
      ⟨tried, p, tried', p', hok, hok', hsame₂, hlinks⟩
    rw [Exec.bind_of_ok hok, Exec.bind_of_ok hok']
    exact ⟨_, p, _, p', rfl, rfl, hsame₂, .cons hlink hlinks⟩

omit hsame in
theorem mapM_clauseOutlink_rested {rows : List (List String)} {addrs : List Nat}
    (hoffers : List.Forall₂ (program'.Offers sig) addrs (rows.map (fact sig)))
    (hrun : Unexhausted
      (addrs.mapM (Environment.clauseOutlink (program'.run gather') s computeFeatures) m))
    : ∃ tried n, addrs.mapM (Environment.clauseOutlink (program'.run gather') s computeFeatures) m =
          .ok tried n ∧ ∀ link ∈ tried.reduceOption, Rested program n.symbols link.state := by
  have hcases := Exec.mapM_cases (Q := fun _ => False)
    (R := fun symbols' (_ : List String) (link : Option Outlink) =>
      ∀ link' ∈ link, Rested program symbols' link'.state)
    (fun hR hle link' hmem => (hR link' hmem).mono hle) ?_ (List.forall₂_map_right_iff.mp hoffers)
    hsymbols hrun
  . rcases hcases with ⟨_, _, _, hfalse⟩ | ⟨tried, n, hok, _, hrested⟩
    . contradiction
    . refine ⟨tried, n, hok, ?_⟩
      intro link hlink
      rcases exists_of_mem_reduceOption hrested hlink with ⟨row, _, hrow⟩
      exact hrow link rfl
  . intro addr row m hoffer hsymbols hrun
    exact .inr (clauseOutlink_rested h hsymbols rfl hle hfenced hoffer hrun)

end Answer

section Links

variable {label : String} {tried tried' : List (Option Outlink)}

theorem reduceOption_true (h : List.Forall₂ (Compiled label true) tried tried')
    : ∃ states : List State,
        tried.reduceOption = states.map (⟨some (answerFeatures label), ·⟩) ∧
        tried'.reduceOption = states.map (⟨some (.ofGoals [.noFeatures]), ·⟩) := by
  induction h with
  | nil => exact ⟨[], rfl, rfl⟩
  | cons hlink _ ih =>
    rcases ih with ⟨states, heq, heq'⟩
    cases hlink with
    | dropped => exact ⟨states, heq, heq'⟩
    | @next s _ _ =>
      refine ⟨s :: states, ?_, ?_⟩
      . rw [List.reduceOption_cons_of_some, heq]
        rfl
      . rw [List.reduceOption_cons_of_some, heq']
        rfl

theorem reduceOption_false (h : List.Forall₂ (Compiled label false) tried tried')
    : tried.reduceOption = tried'.reduceOption.filter (!·.state.failed) := by
  induction h with
  | nil => rfl
  | cons hlink _ ih =>
    cases hlink with
    | failed hfailed _ =>
      rw [List.reduceOption_cons_of_none, List.reduceOption_cons_of_some,
        List.filter_cons_of_neg (by simp [hfailed]), ih]
    | next _ hfailed =>
      rw [List.reduceOption_cons_of_some, List.reduceOption_cons_of_some,
        List.filter_cons_of_pos (by simp [hfailed]), ih]
      rfl

end Links

end FactTable

end HornMachine
