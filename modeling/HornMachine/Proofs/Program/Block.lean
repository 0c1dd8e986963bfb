import HornMachine.Program.Basic

/-!
This module contains blocks of instructions and their places in a program.
-/

namespace HornMachine

namespace Program

def Has (program : Program) (addr : Nat) (block : List Instruction) : Prop :=
  block <+: program.code.toList.drop addr

namespace Has

variable {program : Program} {addr : Nat} {instr : Instruction} {block block' : List Instruction}

theorem left (h : program.Has addr (block ++ block')) : program.Has addr block :=
  (List.prefix_append block block').trans h

theorem right (h : program.Has addr (block ++ block')) : program.Has (addr + block.length) block' := by
  rcases h with ⟨rest, hrest⟩
  refine ⟨rest, ?_⟩
  rw [← List.drop_drop, ← hrest, List.append_assoc, List.drop_left]

theorem head (h : program.Has addr (instr :: block)) : program.code[addr]? = some instr := by
  rcases h with ⟨rest, hrest⟩
  rw [← Array.getElem?_toList]
  have : (program.code.toList.drop addr)[0]? = some instr := by
    rw [← hrest]
    rfl
  rwa [List.getElem?_drop, Nat.add_zero] at this

theorem tail (h : program.Has addr (instr :: block)) : program.Has (addr + 1) block :=
  have h' : program.Has addr ([instr] ++ block) := h
  h'.right

theorem length_le (h : program.Has addr block) : block.length ≤ program.size := by
  apply Nat.le_trans (List.IsPrefix.length_le h)
  rw [List.length_drop, Array.length_toList]
  apply Nat.sub_le

theorem mono {program' : Program} (h : program.Has addr block)
    (hcode : program.code.toList <+: program'.code.toList) : program'.Has addr block := by
  rcases h with ⟨rest, hrest⟩
  rcases hcode with ⟨more, hmore⟩
  by_cases haddr : addr ≤ program.code.toList.length
  . refine ⟨rest ++ more, ?_⟩
    rw [← hmore, List.drop_append_of_le_length haddr, ← hrest, List.append_assoc]
  . rw [List.drop_eq_nil_of_le (by omega), List.append_eq_nil_iff] at hrest
    rw [hrest.1]
    exact List.nil_prefix

end Has

theorem drop_code {program : Program} {addr : Nat} {instr : Instruction}
    (h : program.code[addr]? = some instr)
    : program.code.toList.drop addr = instr :: program.code.toList.drop (addr + 1) := by
  rw [← Array.getElem?_toList, List.getElem?_eq_some_iff] at h
  rcases h with ⟨hlt, rfl⟩
  exact List.drop_eq_getElem_cons hlt

theorem instruction_eq_ok_of_getElem? {program : Program} {addr : Nat} {instr : Instruction}
    (h : program.code[addr]? = some instr) : program.instruction addr = .ok instr := by
  unfold instruction
  rw [h]

end Program

end HornMachine
