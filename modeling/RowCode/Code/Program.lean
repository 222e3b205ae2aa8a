import RowCode.Code.Instr

/-!
# Programs in code

A program is read instruction by instruction up to the stop byte, which belongs to it, or to the
end of the code. What stands behind the stop byte is left for the caller.
-/

namespace RowCode.Code

/-- Reads a program; gives the bytes behind it. -/
def readProgram (code : Bytes) : Except Fault (Program × Bytes) :=
  match code with
  | [] => .ok ([], [])
  | opcode :: rest =>
    if opcode = Opcode.stop then .ok ([], rest)
    else
      match _h : readInstr opcode rest with
      | .error e => .error e
      | .ok (i, rest') =>
        match readProgram rest' with
        | .error e => .error e
        | .ok (p, rest'') => .ok (i.toList ++ p, rest'')
termination_by code.length
decreasing_by
  have := readInstr_length _h
  simp only [List.length_cons]
  omega

theorem readProgram_length {code rest : Bytes} {p : Program}
    (h : readProgram code = .ok (p, rest)) : rest.length ≤ code.length := by
  fun_induction readProgram code generalizing p rest with
  | case1 =>
    cases h
    exact Nat.le_refl _
  | case2 =>
    cases h
    simp
  | case3 => cases h
  | case4 => cases h
  | case5 opcode rest' _ i r hi p' r' hp ih =>
    cases h
    have := readInstr_length hi
    have := ih hp
    simp only [List.length_cons]
    omega

end RowCode.Code
