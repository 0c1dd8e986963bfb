import HornMachine.Signature

/-!
This module contains the labels of predicates: different predicates have different labels, and a label
is read back as the predicate that it stands for.
-/

namespace HornMachine

namespace Signature

theorem toList_label (sig : Signature)
    : sig.label.toList = sig.functor.toList ++ '/' :: Nat.toDigits 10 sig.arity := by
  simp [label, toString, Nat.toList_repr]

theorem slash_not_mem_toDigits (n : Nat) : '/' ∉ Nat.toDigits 10 n := by
  intro hmem
  have := Nat.isDigit_of_mem_toDigits (by decide) (by decide) hmem
  contradiction

theorem splitLast_label (sig : Signature)
    : splitLast '/' sig.label.toList = some (sig.functor.toList, Nat.toDigits 10 sig.arity) := by
  rw [toList_label]
  apply splitLast_append
  apply slash_not_mem_toDigits

theorem label_injective {sig sig' : Signature} (h : sig.label = sig'.label) : sig = sig' := by
  have hsplit := splitLast_label sig
  rw [h, splitLast_label sig'] at hsplit
  simp only [Option.some.injEq, Prod.mk.injEq] at hsplit
  rcases hsplit with ⟨hfunctor, hdigits⟩
  have harity : sig'.arity = sig.arity := by
    rw [← Nat.ofDigitChars_ten_toDigits (n := sig'.arity), hdigits, Nat.ofDigitChars_ten_toDigits]
  rcases sig with ⟨functor, arity⟩
  rcases sig' with ⟨functor', arity'⟩
  simp only [mk.injEq]
  exact ⟨(String.toList_injective hfunctor).symm, harity.symm⟩

theorem readArity_toDigits {n : Nat} (h : n < arityBound) : readArity (Nat.toDigits 10 n) = some n := by
  have hdigit : ∀ c ∈ Nat.toDigits 10 n, c.isDigit = true :=
    fun c hc => Nat.isDigit_of_mem_toDigits (by decide) (by decide) hc
  have hplus : (Nat.toDigits 10 n).head? ≠ some '+' := by
    intro hhead
    have := hdigit '+' (List.mem_of_mem_head? hhead)
    contradiction
  unfold readArity
  simp only [if_neg hplus]
  rw [if_pos ⟨Nat.toDigits_ne_nil, List.all_eq_true.mpr hdigit⟩, Nat.ofDigitChars_ten_toDigits,
    if_pos h]

theorem ofLabel?_label {sig : Signature} (h : sig.arity < arityBound)
    : ofLabel? sig.label = .ok sig := by
  unfold ofLabel?
  rw [splitLast_label]
  simp only [readArity_toDigits h, String.ofList_toList]

end Signature

end HornMachine
