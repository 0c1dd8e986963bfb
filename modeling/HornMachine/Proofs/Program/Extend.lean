import HornMachine.Proofs.Program.Compile

/-!
This module contains programs that were extended by more clauses. The new clauses come behind those that
their predicates have, and other predicates keep theirs.
-/

namespace HornMachine

namespace Program

theorem compile_append (program : Program) (items items' : List Item)
    : (program.compile (items ++ items')).2 = ((program.compile items).2.compile items').2 := by
  induction items generalizing program with
  | nil => rfl
  | cons item items ih => rw [List.cons_append, compile_cons, compile_cons, ih]

theorem compile_clauses_prefix (program : Program) (items : List Item)
    : program.clauses.toList <+: (program.compile items).2.clauses.toList := by
  apply compile_keeps (P := fun program' => program.clauses.toList <+: program'.clauses.toList)
  . intro program' c h
    apply h.trans
    simp [addedClause, addClause, append]
  . intro program' goals h
    exact h
  . exact List.prefix_refl _

/--
The later program has the code of the earlier one and, behind its clauses, those in `cs`.
-/
structure Extension (program : Program) (cs : List Clause) (program' : Program) : Prop where
  le : program ≤ program'
  entries : ∃ entries, program'.clauses.toList = program.clauses.toList ++ entries ∧
    List.Forall₂ program'.HasClause entries cs

theorem extension_compile {program : Program} {rules : List Clause} (h : program.Implements rules)
    (items : List Item) : program.Extension (rulesOf items) (program.compile items).2 := by
  rcases compile_implements h items with ⟨hle, hrules⟩
  rcases compile_clauses_prefix program items with ⟨entries, hentries⟩
  refine ⟨hle, entries, hentries.symm, ?_⟩
  rw [Implements, ← hentries] at hrules
  have hdrop := List.forall₂_drop_append _ _ _ hrules
  rwa [← h.length_eq, List.drop_left] at hdrop

namespace Extension

variable {program program' : Program} {cs : List Clause} {sig : Signature}

theorem addresses?_of_ne (h : program.Extension cs program') (hne : ∀ c ∈ cs, c.head.signature ≠ sig)
    : program'.addresses? sig.label = program.addresses? sig.label := by
  rcases h.entries with ⟨entries, heq, hentries⟩
  have hnone : ∀ entry ∈ entries, entry.1 ≠ sig.label := by
    intro entry hentry hlabel
    rcases List.getElem?_of_mem hentry with ⟨i, hi⟩
    rcases exists_of_forall₂_left hentries hi with ⟨c, hc, hclause⟩
    apply hne c (List.mem_of_getElem? hc)
    apply Signature.label_injective
    rw [← hclause.label_eq, hlabel]
  have hdropped : ∀ f : String × Nat → Option Nat, (∀ entry ∈ entries, f entry = none) →
      (program.clauses.toList ++ entries).filterMap f = program.clauses.toList.filterMap f := by
    intro f hf
    rw [List.filterMap_append, List.filterMap_eq_nil_iff.mpr hf, List.append_nil]
  unfold addresses?
  rw [heq, hdropped]
  intro entry hentry
  simp [hnone entry hentry]

end Extension

end Program

end HornMachine
