import HexMachine.Proofs.Instruction.Spelling
import Mathlib.Data.List.Basic

/-!
# What decides how tokens are read

Any list of tokens is read as an instruction or has a fault, and the first three of them decide it.
Main statement `first_tokens_decide`: a marker in second place makes a declaration, whatever stands
first; else a mnemonic in first place takes the operands after it; else the line is not recognised.
In each of these cases it is said what the result is, and they leave no room for the fault of an
operation that is not supported.

The reader takes lists apart. `ofTokens?` asks for tokens by place instead, which can go wrong if
there is no such place, and is shown to be the same reader: it never asks for a place that is not
there.
-/
namespace HexMachine

theorem Mnemonic.ofKeyword?_eq_none_iff {token : String} :
    Mnemonic.ofKeyword? token = none ↔ ∀ mnemonic : Mnemonic, token ≠ mnemonic.keyword := by
  constructor
  · rintro h mnemonic rfl
    rw [mnemonic.ofKeyword?_keyword] at h
    cases h
  · intro h
    cases hfound : Mnemonic.ofKeyword? token with
    | none => rfl
    | some mnemonic => exact absurd (Mnemonic.keyword_of_ofKeyword? hfound).symm (h mnemonic)

theorem Mnemonic.arity_bounds (mnemonic : Mnemonic) : 1 ≤ mnemonic.arity ∧ mnemonic.arity ≤ 2 := by
  cases mnemonic <;> simp [arity]

/-- As many operands as a mnemonic takes form an operation: that of the mnemonic, on these operands,
the first of which is the destination. -/
theorem Mnemonic.exists_instruction {mnemonic : Mnemonic} {operands : List String}
    (h : operands.length = mnemonic.arity) :
    ∃ operation, mnemonic.instruction? operands = some operation ∧
      operation.keyword = mnemonic.keyword ∧ operation.arguments = operands ∧
      operation.destination? = operands.head? := by
  cases mnemonic with
  | increment | decrement =>
    obtain ⟨dest, rfl⟩ := List.length_eq_one_iff.1 h
    exact ⟨_, rfl, rfl, rfl, rfl⟩
  | _ =>
    obtain ⟨dest, src, rfl⟩ := List.length_eq_two.1 h
    exact ⟨_, rfl, rfl, rfl, rfl⟩

theorem Mnemonic.mem_all (mnemonic : Mnemonic) : mnemonic ∈ all := by
  cases mnemonic <;> decide

namespace Instruction

/-! ## One case after the other -/

/-- The tokens after the first do not start with a marker. -/
def NoMarker (rest : List String) : Prop := ∀ width : Width, rest.head? ≠ some width.keyword

theorem noMarker_iff {rest : List String} :
    NoMarker rest ↔ rest.head?.bind Width.ofKeyword? = none := by
  cases rest with
  | nil => simp [NoMarker]
  | cons token more =>
    simp only [NoMarker, List.head?_cons, Option.bind_some, Width.ofKeyword?_eq_none_iff, ne_eq,
      Option.some.injEq]

theorem marker_or_noMarker (rest : List String) :
    (∃ (width : Width) (more : List String), rest = width.keyword :: more) ∨ NoMarker rest := by
  cases hfound : rest.head?.bind Width.ofKeyword? with
  | none => exact .inr (noMarker_iff.2 hfound)
  | some width =>
    obtain ⟨token, htoken, hwidth⟩ := Option.bind_eq_some_iff.1 hfound
    obtain ⟨more, rfl⟩ := List.head?_eq_some_iff.1 htoken
    exact .inl ⟨width, more, by rw [Width.keyword_of_ofKeyword? hwidth]⟩

theorem takeOperands_of_le {keyword : String} {arity : Nat} {operands : List String}
    (h : arity ≤ operands.length) : takeOperands keyword arity operands = .ok (operands.take arity) :=
  if_neg (Nat.not_lt.2 h)

theorem ofTokens_marker (name : String) (width : Width) (rest : List String) (line : String) :
    ofTokens (name :: width.keyword :: rest) line =
      match rest with
      | literal :: _ => .ok (.declare name width literal)
      | [] => .error (.missingArguments width.keyword 2 1) := by
  simp only [ofTokens, List.head?_cons, Option.bind_some, Width.ofKeyword?_keyword]
  cases rest <;> rfl

section

variable {rest : List String} (line : String)

theorem ofTokens_of_noMarker (h : NoMarker rest) (first : String) :
    ofTokens (first :: rest) line = ofOperation first rest line := by
  simp only [ofTokens, noMarker_iff.1 h]

theorem ofOperation_of_take {mnemonic : Mnemonic} {operation : Instruction}
    (h : mnemonic.arity ≤ rest.length)
    (hforms : mnemonic.instruction? (rest.take mnemonic.arity) = some operation) :
    ofOperation mnemonic.keyword rest line = .ok operation := by
  have hread := ofOperation_of_instruction? hforms (List.length_take_of_le h)
    (rest.drop mnemonic.arity) line
  rwa [List.take_append_drop] at hread

theorem ofOperation_of_enough {mnemonic : Mnemonic} (h : mnemonic.arity ≤ rest.length) :
    ∃ operation, ofOperation mnemonic.keyword rest line = .ok operation ∧
      mnemonic.instruction? (rest.take mnemonic.arity) = some operation ∧
      operation.keyword = mnemonic.keyword ∧ operation.arguments = rest.take mnemonic.arity ∧
      operation.destination? = rest.head? := by
  obtain ⟨operation, hforms, hkeyword, harguments, hdest⟩ :=
    Mnemonic.exists_instruction (List.length_take_of_le h)
  have hhead : (rest.take mnemonic.arity).head? = rest.head? := by
    have hone := mnemonic.arity_bounds.1
    rw [List.head?_take, if_neg (by omega)]
  exact ⟨operation, ofOperation_of_take line h hforms, hforms, hkeyword, harguments,
    hdest.trans hhead⟩

theorem ofOperation_of_few {mnemonic : Mnemonic} (h : rest.length < mnemonic.arity) :
    ofOperation mnemonic.keyword rest line =
      .error (.missingArguments mnemonic.keyword mnemonic.arity rest.length) := by
  simp only [ofOperation, Mnemonic.ofKeyword?_keyword, takeOperands, if_pos h]

theorem ofOperation_of_unknown {first : String} (h : ∀ mnemonic : Mnemonic, first ≠ mnemonic.keyword) :
    ofOperation first rest line = .error (.unrecognizedLine line) := by
  simp only [ofOperation, Mnemonic.ofKeyword?_eq_none_iff.2 h]

end

/-! ## What can be wrong -/

theorem fault_of_ofOperation {first line : String} {rest : List String} {fault : Fault}
    (h : ofOperation first rest line = .error fault) :
    (∃ keyword expected got, fault = .missingArguments keyword expected got) ∨
      fault = .unrecognizedLine line := by
  cases hfound : Mnemonic.ofKeyword? first with
  | none =>
    rw [ofOperation_of_unknown line (Mnemonic.ofKeyword?_eq_none_iff.1 hfound)] at h
    cases h
    exact .inr rfl
  | some mnemonic =>
    rw [← Mnemonic.keyword_of_ofKeyword? hfound] at h
    rcases Nat.lt_or_ge rest.length mnemonic.arity with hfew | henough
    · rw [ofOperation_of_few line hfew] at h
      cases h
      exact .inl ⟨_, _, _, rfl⟩
    · obtain ⟨operation, hread, -⟩ := ofOperation_of_enough line henough
      rw [hread] at h
      cases h

/-- There are no tokens, or too few of them, or the line is not recognised. -/
theorem fault_of_ofTokens {tokens : List String} {line : String} {fault : Fault}
    (h : ofTokens tokens line = .error fault) :
    (tokens = [] ∧ fault = .emptyLine) ∨
      (∃ keyword expected got, fault = .missingArguments keyword expected got) ∨
      fault = .unrecognizedLine line := by
  cases tokens with
  | nil =>
    cases h
    exact .inl ⟨rfl, rfl⟩
  | cons first rest =>
    rcases marker_or_noMarker rest with ⟨width, more, rfl⟩ | hnone
    · rw [ofTokens_marker] at h
      cases more with
      | nil =>
        cases h
        exact .inr (.inl ⟨_, _, _, rfl⟩)
      | cons literal surplus => cases h
    · rw [ofTokens_of_noMarker line hnone] at h
      exact .inr (fault_of_ofOperation h)

theorem ofTokens_eq_emptyLine_iff {tokens : List String} {line : String} :
    ofTokens tokens line = .error .emptyLine ↔ tokens = [] := by
  constructor
  · intro h
    rcases fault_of_ofTokens h with ⟨hnil, -⟩ | ⟨_, _, _, hfault⟩ | hfault
    · exact hnil
    · cases hfault
    · cases hfault
  · rintro rfl
    rfl

theorem ofTokens_ne_unsupported (tokens : List String) (line token : String) :
    ofTokens tokens line ≠ .error (.unsupportedOperation token) := by
  intro h
  rcases fault_of_ofTokens h with ⟨-, hfault⟩ | ⟨_, _, _, hfault⟩ | hfault <;> cases hfault

/-! ## Three tokens are enough -/

theorem ofOperation_surplus (first dest src : String) (surplus : List String) (line : String) :
    ofOperation first (dest :: src :: surplus) line = ofOperation first [dest, src] line := by
  have htake : ∀ mnemonic : Mnemonic,
      takeOperands mnemonic.keyword mnemonic.arity (dest :: src :: surplus) =
        takeOperands mnemonic.keyword mnemonic.arity [dest, src] := by
    intro mnemonic
    have htwo : mnemonic.arity ≤ [dest, src].length := mnemonic.arity_bounds.2
    have hmore : mnemonic.arity ≤ ([dest, src] ++ surplus).length := by
      rw [List.length_append]
      omega
    have hfront : ([dest, src] ++ surplus).take mnemonic.arity = [dest, src].take mnemonic.arity :=
      List.take_append_of_le_length htwo
    rw [takeOperands_of_le htwo, ← hfront]
    exact takeOperands_of_le hmore
  simp only [ofOperation, htake]

theorem ofTokens_take_three (tokens : List String) (line : String) :
    ofTokens (tokens.take 3) line = ofTokens tokens line := by
  match tokens with
  | [] | [_] | [_, _] => rfl
  | first :: second :: third :: surplus =>
    simp only [ofTokens, List.take_succ_cons, List.take_zero, List.head?_cons, ofDeclaration,
      ofOperation_surplus first second third surplus]

/-- The line is for the fault that it is not recognised, and for nothing else. -/
theorem ofTokens_line (tokens : List String) (line other : String) :
    ofTokens tokens other = ofTokens tokens line ∨
      ofTokens tokens line = .error (.unrecognizedLine line) ∧
        ofTokens tokens other = .error (.unrecognizedLine other) := by
  cases tokens with
  | nil => exact .inl rfl
  | cons first rest =>
    rcases marker_or_noMarker rest with ⟨width, more, rfl⟩ | hnone
    · rw [ofTokens_marker, ofTokens_marker]
      exact .inl rfl
    · rw [ofTokens_of_noMarker line hnone, ofTokens_of_noMarker other hnone]
      cases hfound : Mnemonic.ofKeyword? first with
      | none => exact .inr ⟨by simp [ofOperation, hfound], by simp [ofOperation, hfound]⟩
      | some mnemonic => exact .inl (by simp only [ofOperation, hfound])

/-! ## Tokens by place -/

/-- The tokens from one place on and before another; absent if they are not all there. -/
def slice? (tokens : List String) (start stop : Nat) : Option (List String) :=
  if start ≤ stop ∧ stop ≤ tokens.length then some ((tokens.take stop).drop start) else none

/-- The first `expected` operands by place, or the fault that there are too few. Operands beyond
these are looked at and passed over. -/
def operands? (tokens : List String) (keyword : String) (expected : Nat) :
    Option (Except Fault (List String)) :=
  let got := tokens.length - 1
  if got < expected then some (.error (.missingArguments keyword expected got))
  else
    (if expected < got then slice? tokens (expected + 1) tokens.length else some []).bind fun _ =>
      (slice? tokens 1 (expected + 1)).map .ok

/-- The operation of a mnemonic, with operands by place, or the fault that there is none. -/
def operation? (first : String) (operands : List String) :
    Mnemonic → Option (Except Fault Instruction)
  | .move => do return .ok (.move (← operands[0]?) (← operands[1]?))
  | .exchange => do return .ok (.exchange (← operands[0]?) (← operands[1]?))
  | .increment => do return .ok (.increment (← operands[0]?))
  | .decrement => do return .ok (.decrement (← operands[0]?))
  | mnemonic =>
    match mnemonic.binaryOp? with
    | some op => do return .ok (.binary op (← operands[0]?) (← operands[1]?))
    | none => some (.error (.unsupportedOperation first))

/-- Reads an instruction by asking for tokens at their places; absent if there is no token at a place
that is asked for. -/
def ofTokens? (tokens : List String) (line : String) : Option (Except Fault Instruction) :=
  match tokens[0]? with
  | none => some (.error .emptyLine)
  | some first =>
    match tokens[1]?.bind Width.ofKeyword? with
    | some width =>
      (operands? tokens width.keyword 2).bind fun
        | .error fault => some (.error fault)
        | .ok arguments => arguments[1]?.map fun literal => .ok (.declare first width literal)
    | none =>
      match Mnemonic.ofKeyword? first with
      | none => some (.error (.unrecognizedLine line))
      | some mnemonic =>
        (operands? tokens mnemonic.keyword mnemonic.arity).bind fun
          | .error fault => some (.error fault)
          | .ok operands => operation? first operands mnemonic

theorem operands?_cons (first : String) (rest : List String) (keyword : String) (expected : Nat) :
    operands? (first :: rest) keyword expected = some (takeOperands keyword expected rest) := by
  by_cases hfew : rest.length < expected
  · simp [operands?, takeOperands, hfew]
  · have hfits : expected ≤ rest.length := by omega
    by_cases hmore : expected < rest.length <;>
      simp [operands?, takeOperands, slice?, hfits, hmore, hfew]

theorem operation?_eq_instruction? {mnemonic : Mnemonic} {operands : List String}
    (h : operands.length = mnemonic.arity) (first : String) :
    operation? first operands mnemonic = (mnemonic.instruction? operands).map .ok := by
  cases mnemonic with
  | increment | decrement =>
    obtain ⟨dest, rfl⟩ := List.length_eq_one_iff.1 h
    rfl
  | _ =>
    obtain ⟨dest, src, rfl⟩ := List.length_eq_two.1 h
    rfl

/-- The operands of a mnemonic are taken only when all of them are there. -/
theorem bind_operands?_eq_some (mnemonic : Mnemonic) (rest : List String) (line : String) :
    ((operands? (mnemonic.keyword :: rest) mnemonic.keyword mnemonic.arity).bind fun
      | .error fault => some (.error fault)
      | .ok operands => operation? mnemonic.keyword operands mnemonic) =
      some (ofOperation mnemonic.keyword rest line) := by
  rw [operands?_cons]
  rcases Nat.lt_or_ge rest.length mnemonic.arity with hfew | henough
  · rw [ofOperation_of_few line hfew, takeOperands, if_pos hfew]
    rfl
  · obtain ⟨operation, hread, hforms, -⟩ := ofOperation_of_enough line henough
    simp only [hread, takeOperands_of_le henough, Option.bind_some,
      operation?_eq_instruction? (List.length_take_of_le henough), hforms, Option.map_some]

/-- **`ofTokens?_eq_some`**: the reader never asks for a token that is not there. -/
theorem ofTokens?_eq_some (tokens : List String) (line : String) :
    ofTokens? tokens line = some (ofTokens tokens line) := by
  cases tokens with
  | nil => rfl
  | cons first rest =>
    rcases marker_or_noMarker rest with ⟨width, more, rfl⟩ | hnone
    · rw [ofTokens_marker]
      simp only [ofTokens?, List.getElem?_cons_zero, List.getElem?_cons_succ, Option.bind_some,
        Width.ofKeyword?_keyword, operands?_cons]
      cases more with
      | nil => rfl
      | cons literal surplus =>
        have htwo : 2 ≤ (width.keyword :: literal :: surplus).length := by simp
        rw [takeOperands_of_le htwo]
        rfl
    · have hsecond : (first :: rest)[1]?.bind Width.ofKeyword? = none := by
        rw [List.getElem?_cons_succ, ← List.head?_eq_getElem?]
        exact noMarker_iff.1 hnone
      rw [ofTokens_of_noMarker line hnone]
      simp only [ofTokens?, List.getElem?_cons_zero, hsecond]
      cases hfound : Mnemonic.ofKeyword? first with
      | none => rw [ofOperation_of_unknown line (Mnemonic.ofKeyword?_eq_none_iff.1 hfound)]
      | some mnemonic =>
        obtain rfl := Mnemonic.keyword_of_ofKeyword? hfound
        exact bind_operands?_eq_some mnemonic rest line

/-! ## The decision -/

/-- **`first_tokens_decide`**: how any tokens are read, case by case. No operation is reported as not
supported, none has a destination that is called like a marker, and the tokens asked for are all
there. None after the third has any influence, and the line is quoted where it is not recognised but
makes no difference otherwise. -/
theorem first_tokens_decide (tokens : List String) (line : String) :
    (ofTokens tokens line = .error .emptyLine ↔ tokens = []) ∧
    (∀ (name : String) (width : Width) (rest : List String),
      tokens = name :: width.keyword :: rest →
      ofTokens tokens line =
        match rest with
        | literal :: _ => .ok (.declare name width literal)
        | [] => .error (.missingArguments width.keyword 2 1)) ∧
    (∀ (mnemonic : Mnemonic) (rest : List String),
      tokens = mnemonic.keyword :: rest → NoMarker rest →
      (mnemonic.arity ≤ rest.length → ∃ operation, ofTokens tokens line = .ok operation ∧
        mnemonic.instruction? (rest.take mnemonic.arity) = some operation ∧
        operation.keyword = mnemonic.keyword ∧ operation.arguments = rest.take mnemonic.arity ∧
        operation.destination? = rest.head?) ∧
      (rest.length < mnemonic.arity → ofTokens tokens line =
        .error (.missingArguments mnemonic.keyword mnemonic.arity rest.length))) ∧
    [Width.byte, .word, .doubleWord].map Width.keyword = ["DB", "DW", "DD"] ∧
    (∀ dest src, Mnemonic.all.map (fun mnemonic =>
        (mnemonic.keyword, mnemonic.instruction? ([dest, src].take mnemonic.arity))) =
      [("MOV", some (.move dest src)), ("XCHG", some (.exchange dest src)),
        ("ADD", some (.binary .add dest src)), ("SUB", some (.binary .sub dest src)),
        ("DIV", some (.binary .div dest src)), ("MUL", some (.binary .mul dest src)),
        ("AND", some (.binary .and dest src)), ("OR", some (.binary .or dest src)),
        ("XOR", some (.binary .xor dest src)), ("INC", some (.increment dest)),
        ("DEC", some (.decrement dest))]) ∧
    (∀ (first : String) (rest : List String), tokens = first :: rest → NoMarker rest →
      (∀ mnemonic ∈ Mnemonic.all, first ≠ mnemonic.keyword) →
      ofTokens tokens line = .error (.unrecognizedLine line)) ∧
    (∀ token, ofTokens tokens line ≠ .error (.unsupportedOperation token)) ∧
    (∀ instruction, ofTokens tokens line = .ok instruction → instruction.IsDistinct) ∧
    ofTokens? tokens line = some (ofTokens tokens line) ∧
    (∀ (others : List String) (otherLine : String), others.take 3 = tokens.take 3 →
      ofTokens others otherLine = ofTokens tokens line ∨
      ofTokens tokens line = .error (.unrecognizedLine line) ∧
        ofTokens others otherLine = .error (.unrecognizedLine otherLine)) := by
  refine ⟨ofTokens_eq_emptyLine_iff, ?_, ?_, rfl, fun _ _ => rfl, ?_,
    ofTokens_ne_unsupported tokens line, fun _ h => (ofTokens_eq_ok_iff.1 h).1,
    ofTokens?_eq_some tokens line, ?_⟩
  · rintro name width rest rfl
    exact ofTokens_marker name width rest line
  · rintro mnemonic rest rfl hnone
    rw [ofTokens_of_noMarker line hnone]
    exact ⟨ofOperation_of_enough line, ofOperation_of_few line⟩
  · rintro first rest rfl hnone hunknown
    rw [ofTokens_of_noMarker line hnone]
    exact ofOperation_of_unknown line fun mnemonic => hunknown mnemonic mnemonic.mem_all
  · intro others otherLine hsame
    rw [← ofTokens_take_three others, hsame, ofTokens_take_three]
    exact ofTokens_line tokens line otherLine

/-- A declaration of `MOV`, a division with a token too many and its three first tokens, an increment
without an operand, and a mnemonic in small letters. -/
theorem first_tokens_decide_division :
    ofTokens ["MOV", "DB", "5", "x"] "" = .ok (.declare "MOV" .byte "5") ∧
    ofTokens ["DIV", "A", "", "C"] "" = .ok (.binary .div "A" "") ∧
    ofTokens ["INC"] "" = .error (.missingArguments "INC" 1 0) ∧
    ofTokens ["div", "A"] "div A" = .error (.unrecognizedLine "div A") ∧
    ofTokens ["DIV", "A", "", "C"] "" = ofTokens ["DIV", "A", ""] "A" := by
  have hoperand : NoMarker ["A", "", "C"] := noMarker_iff.2 (by decide)
  obtain ⟨-, hdeclaration, -⟩ := first_tokens_decide ["MOV", "DB", "5", "x"] ""
  obtain ⟨-, -, hdivision, -, -, -, -, -, -, hthree⟩ := first_tokens_decide ["DIV", "A", "", "C"] ""
  obtain ⟨-, -, hincrement, -⟩ := first_tokens_decide ["INC"] ""
  obtain ⟨-, -, -, -, -, hunknown, -⟩ := first_tokens_decide ["div", "A"] "div A"
  refine ⟨hdeclaration "MOV" .byte ["5", "x"] rfl, ?_, ?_, ?_, ?_⟩
  · obtain ⟨operation, hread, hforms, -⟩ := (hdivision .div ["A", "", "C"] rfl hoperand).1 (by decide)
    cases hforms
    exact hread
  · exact (hincrement .increment [] rfl (noMarker_iff.2 (by decide))).2 (by decide)
  · exact hunknown "div" ["A"] rfl (noMarker_iff.2 (by decide)) (by decide)
  · rcases hthree ["DIV", "A", ""] "A" rfl with hsame | ⟨hfault, -⟩
    · exact hsame.symm
    · exact absurd hfault (by decide)

end Instruction

end HexMachine
