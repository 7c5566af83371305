import HexMachine.Instruction.Reader
import HexMachine.Proofs.Token

/-!
# How instructions are written

An instruction is written as its tokens, with gaps around and between them and with anything after
them. Main statement `line_reads_as_what_it_spells`: a line is read as an instruction if and only if
it is written in this way and the instruction can be written. All of them can whose names and literals
are clean, with one exception: an operation on a destination that is called like a width marker. Its
second token makes the line a declaration. So what was read can be written, and reads back.

The step is `ofTokens_eq_ok_iff`, about tokens alone, where every text is as good as any other.
-/
namespace HexMachine

/-- The mnemonic of a binary operation. -/
def BinaryOp.mnemonic : BinaryOp → Mnemonic
  | .add => .add
  | .sub => .sub
  | .div => .div
  | .mul => .mul
  | .and => .and
  | .or => .or
  | .xor => .xor

namespace Instruction

/-- The tokens of an instruction: name, marker and literal, or mnemonic and operands. -/
def tokens : Instruction → List String
  | .declare name width literal => [name, width.keyword, literal]
  | .binary op dest src => [op.mnemonic.keyword, dest, src]
  | .move dest src => [Mnemonic.move.keyword, dest, src]
  | .exchange dest src => [Mnemonic.exchange.keyword, dest, src]
  | .increment dest => [Mnemonic.increment.keyword, dest]
  | .decrement dest => [Mnemonic.decrement.keyword, dest]

/-- The place of the marker or mnemonic among the tokens. -/
def keywordPlace : Instruction → Nat
  | .declare _ _ _ => 1
  | _ => 0

/-- What is not part of the vocabulary: name and literal, or operands. -/
def arguments : Instruction → List String
  | .declare name _ literal => [name, literal]
  | .binary _ dest src => [dest, src]
  | .move dest src => [dest, src]
  | .exchange dest src => [dest, src]
  | .increment dest => [dest]
  | .decrement dest => [dest]

/-- The destination of an operation. -/
def destination? : Instruction → Option String
  | .declare _ _ _ => none
  | .binary _ dest _ => some dest
  | .move dest _ => some dest
  | .exchange dest _ => some dest
  | .increment dest => some dest
  | .decrement dest => some dest

/-- No operation has a destination that is called like a width marker. -/
def IsDistinct (instruction : Instruction) : Prop :=
  ∀ dest, instruction.destination? = some dest → ∀ width : Width, dest ≠ width.keyword

/-- The instruction can be written on a line. -/
structure Writable (instruction : Instruction) : Prop where
  clean : ∀ argument ∈ instruction.arguments, Token.IsClean argument
  distinct : instruction.IsDistinct

/-- The instruction as a line, with single spaces between its tokens. -/
def text (instruction : Instruction) : String := " ".intercalate instruction.tokens

end Instruction

/-! ## Vocabulary -/

theorem Width.ofKeyword?_eq_none_iff {token : String} :
    Width.ofKeyword? token = none ↔ ∀ width : Width, token ≠ width.keyword := by
  constructor
  · rintro h width rfl
    rw [width.ofKeyword?_keyword] at h
    cases h
  · intro h
    cases hfound : Width.ofKeyword? token with
    | none => rfl
    | some width => exact absurd (Width.keyword_of_ofKeyword? hfound).symm (h width)

theorem BinaryOp.mnemonic_of_binaryOp? {mnemonic : Mnemonic} {op : BinaryOp}
    (h : mnemonic.binaryOp? = some op) : op.mnemonic = mnemonic := by
  cases mnemonic <;> cases h <;> rfl

/-- An instruction that a mnemonic forms has the mnemonic and the operands for its tokens, and the
first operand for its destination. -/
theorem Mnemonic.tokens_of_instruction? {mnemonic : Mnemonic} {operands : List String}
    {instruction : Instruction} (h : mnemonic.instruction? operands = some instruction) :
    instruction.tokens = mnemonic.keyword :: operands ∧
      ∃ dest, instruction.destination? = some dest ∧ operands.head? = some dest := by
  unfold Mnemonic.instruction? at h
  split at h
  case h_5 =>
    -- the binary operations, by way of the operation behind the mnemonic
    obtain ⟨op, hop, rfl⟩ := Option.map_eq_some_iff.1 h
    rw [← BinaryOp.mnemonic_of_binaryOp? hop]
    exact ⟨rfl, _, rfl, rfl⟩
  all_goals cases h <;> exact ⟨rfl, _, rfl, rfl⟩

namespace Instruction

/-- The mnemonics and the instructions have the same words for the operations. -/
theorem getElem?_tokens_keywordPlace (instruction : Instruction) :
    instruction.tokens[instruction.keywordPlace]? = some instruction.keyword := by
  cases instruction with
  | binary op dest src => cases op <;> rfl
  | _ => rfl

/-! ## Tokens -/

theorem tokens_of_ofDeclaration {name : String} {width : Width} {rest : List String}
    {instruction : Instruction} (hmarker : rest.head? = some width.keyword)
    (h : ofDeclaration name width rest = .ok instruction) :
    instruction.tokens <+: name :: rest ∧ instruction.destination? = none := by
  unfold ofDeclaration at h
  split at h
  · rename_i marker literal surplus
    cases h
    cases hmarker
    exact ⟨⟨surplus, rfl⟩, rfl⟩
  · cases h

theorem tokens_of_ofOperation {first line : String} {rest : List String} {instruction : Instruction}
    (h : ofOperation first rest line = .ok instruction) :
    instruction.tokens <+: first :: rest ∧
      ∃ dest, instruction.destination? = some dest ∧ rest.head? = some dest := by
  unfold ofOperation takeOperands at h
  split at h
  · cases h
  · rename_i mnemonic hmnemonic
    have hfirst := Mnemonic.keyword_of_ofKeyword? hmnemonic
    by_cases hfew : rest.length < mnemonic.arity
    · simp [hfew] at h
    · simp only [hfew, if_false] at h
      split at h
      · rename_i formed hformed
        cases h
        obtain ⟨htokens, dest, hdest, hhead⟩ := Mnemonic.tokens_of_instruction? hformed
        refine ⟨⟨rest.drop mnemonic.arity, ?_⟩, dest, hdest, ?_⟩
        · rw [htokens, hfirst, List.cons_append, List.take_append_drop]
        · rw [← List.take_append_drop mnemonic.arity rest, List.head?_append, hhead]
          rfl
      · cases h

/-- A mnemonic with its operands is read as the instruction that they form, whatever follows. -/
theorem ofOperation_of_instruction? {mnemonic : Mnemonic} {operands : List String}
    {instruction : Instruction} (h : mnemonic.instruction? operands = some instruction)
    (hlength : operands.length = mnemonic.arity) (surplus : List String) (line : String) :
    ofOperation mnemonic.keyword (operands ++ surplus) line = .ok instruction := by
  have henough : ¬ (operands ++ surplus).length < mnemonic.arity := by
    simp only [List.length_append]
    omega
  have htake : (operands ++ surplus).take mnemonic.arity = operands := List.take_left' hlength
  simp only [ofOperation, Mnemonic.ofKeyword?_keyword, takeOperands, if_neg henough, htake, h]

/-- An operation is read off its tokens unless its destination is called like a marker. -/
theorem ofTokens_of_instruction? (mnemonic : Mnemonic) (operands : List String)
    {instruction : Instruction} (h : mnemonic.instruction? operands = some instruction)
    (hlength : operands.length = mnemonic.arity) (hdistinct : instruction.IsDistinct)
    (surplus : List String) (line : String) :
    ofTokens (mnemonic.keyword :: (operands ++ surplus)) line = .ok instruction := by
  obtain ⟨-, dest, hdest, hhead⟩ := Mnemonic.tokens_of_instruction? h
  have hnone : ((operands ++ surplus).head?.bind Width.ofKeyword?) = none := by
    rw [List.head?_append, hhead]
    exact Width.ofKeyword?_eq_none_iff.2 (hdistinct dest hdest)
  simp only [ofTokens, hnone]
  exact ofOperation_of_instruction? h hlength surplus line

/-- **`ofTokens_eq_ok_iff`**: tokens are read as an instruction if and only if they start with its
tokens, and it is no operation on a destination that is called like a marker. -/
theorem ofTokens_eq_ok_iff {tokens : List String} {line : String} {instruction : Instruction} :
    ofTokens tokens line = .ok instruction ↔
      instruction.IsDistinct ∧ instruction.tokens <+: tokens := by
  constructor
  · intro h
    unfold ofTokens at h
    split at h
    · cases h
    · rename_i first rest
      split at h
      · rename_i width hwidth
        obtain ⟨marker, hmarker, hfound⟩ := Option.bind_eq_some_iff.1 hwidth
        rw [← Width.keyword_of_ofKeyword? hfound] at hmarker
        obtain ⟨htokens, hnone⟩ := tokens_of_ofDeclaration hmarker h
        refine ⟨fun dest hdest => ?_, htokens⟩
        rw [hnone] at hdest
        cases hdest
      · rename_i hwidth
        obtain ⟨htokens, dest, hdest, hhead⟩ := tokens_of_ofOperation h
        refine ⟨fun other hother => ?_, htokens⟩
        rw [hdest] at hother
        cases hother
        rw [hhead] at hwidth
        exact Width.ofKeyword?_eq_none_iff.1 hwidth
  · rintro ⟨hdistinct, surplus, rfl⟩
    cases instruction with
    | declare name width literal =>
      simp [Instruction.tokens, ofTokens, Width.ofKeyword?_keyword, ofDeclaration]
    | binary op dest src =>
      have hforms : op.mnemonic.instruction? [dest, src] = some (.binary op dest src) := by
        cases op <;> rfl
      have hlength : [dest, src].length = op.mnemonic.arity := by cases op <;> rfl
      exact ofTokens_of_instruction? op.mnemonic [dest, src] hforms hlength hdistinct surplus line
    | move dest src =>
      exact ofTokens_of_instruction? .move [dest, src] rfl rfl hdistinct surplus line
    | exchange dest src =>
      exact ofTokens_of_instruction? .exchange [dest, src] rfl rfl hdistinct surplus line
    | increment dest =>
      exact ofTokens_of_instruction? .increment [dest] rfl rfl hdistinct surplus line
    | decrement dest =>
      exact ofTokens_of_instruction? .decrement [dest] rfl rfl hdistinct surplus line

/-! ## Lines -/

theorem isClean_width (width : Width) : Token.IsClean width.keyword := by
  refine Token.isClean_of_isValid ?_
  cases width <;> decide

theorem isClean_mnemonic (mnemonic : Mnemonic) : Token.IsClean mnemonic.keyword := by
  refine Token.isClean_of_isValid ?_
  cases mnemonic <;> decide

/-- The vocabulary is clean, so the tokens of an instruction are clean if its arguments are. -/
theorem isClean_tokens_iff {instruction : Instruction} :
    (∀ token ∈ instruction.tokens, Token.IsClean token) ↔
      ∀ argument ∈ instruction.arguments, Token.IsClean argument := by
  cases instruction <;> simp [Instruction.tokens, arguments, isClean_width, isClean_mnemonic]

/-- What is read off a line can be written, and the line spells it. -/
theorem ofLine_eq_ok_iff {line : String} {instruction : Instruction} :
    ofLine line = .ok instruction ↔
      instruction.Writable ∧ ∃ surplus, Token.Spells line (instruction.tokens ++ surplus) := by
  rw [ofLine, ofTokens_eq_ok_iff]
  constructor
  · rintro ⟨hdistinct, surplus, hsurplus⟩
    have hclean : ∀ token ∈ instruction.tokens, Token.IsClean token := by
      intro token htoken
      have hmem : token ∈ Token.ofLine line := by
        rw [← hsurplus]
        exact List.mem_append_left surplus htoken
      exact Token.isClean_of_mem_ofLine hmem
    exact ⟨⟨isClean_tokens_iff.1 hclean, hdistinct⟩, surplus, Token.ofLine_eq_iff.1 hsurplus.symm⟩
  · rintro ⟨hwritable, surplus, hspells⟩
    refine ⟨hwritable.distinct, surplus, ?_⟩
    rw [hspells.ofLine_eq]

theorem ofLine_text {instruction : Instruction} (h : instruction.Writable) :
    ofLine instruction.text = .ok instruction := by
  have hspaced := Token.spaced_intercalate (isClean_tokens_iff.2 h.clean)
  refine ofLine_eq_ok_iff.2 ⟨h, [], ?_⟩
  rw [List.append_nil]
  exact ⟨"", instruction.text, String.empty_append.symm, Token.isGap_empty, hspaced⟩

/-- **`line_reads_as_what_it_spells`**: a line is read as an instruction if and only if the
instruction can be written and the line spells its tokens, with any clean tokens after them. One of
its tokens is the marker or mnemonic by which the instruction is known. And an instruction that was
read off some line reads back when it is written with single spaces. -/
theorem line_reads_as_what_it_spells (instruction : Instruction) :
    (∀ line, ofLine line = .ok instruction ↔
      instruction.Writable ∧ ∃ surplus, Token.Spells line (instruction.tokens ++ surplus)) ∧
    instruction.tokens[instruction.keywordPlace]? = some instruction.keyword ∧
    ∀ line, ofLine line = .ok instruction → ofLine instruction.text = .ok instruction :=
  ⟨fun _ => ofLine_eq_ok_iff, instruction.getElem?_tokens_keywordPlace,
    fun _ h => ofLine_text (ofLine_eq_ok_iff.1 h).1⟩

/-- A copy from a variable that is called like a marker, with gaps of all kinds and a token too many;
and an increment that no line can hold, since `INC DB` declares a variable `INC`. -/
theorem line_reads_as_what_it_spells_marker :
    let line := " ,MOV,,DX  DB, 5"
    let copy := Instruction.move "DX" "DB"
    Token.Spells line (copy.tokens ++ ["5"]) ∧ ofLine line = .ok copy ∧
    ofLine copy.text = .ok copy ∧ copy.tokens[0]? = some copy.keyword ∧
    ¬ ∃ line, ofLine line = .ok (.increment "DB") := by
  intro line copy
  have hspells : Token.Spells line (copy.tokens ++ ["5"]) := Token.ofLine_eq_iff.1 (by decide)
  have hclean : ∀ argument ∈ copy.arguments, Token.IsClean argument := by
    simp only [copy, arguments, List.forall_mem_cons]
    exact ⟨Token.isClean_of_isValid rfl, Token.isClean_of_isValid rfl, by simp⟩
  have hdistinct : copy.IsDistinct := by
    intro dest hdest width
    cases hdest
    cases width <;> decide
  obtain ⟨hread, hkeyword, hback⟩ := line_reads_as_what_it_spells copy
  have hcopy := (hread line).2 ⟨⟨hclean, hdistinct⟩, ["5"], hspells⟩
  refine ⟨hspells, hcopy, hback line hcopy, hkeyword, ?_⟩
  rintro ⟨other, hother⟩
  obtain ⟨hwritable, -⟩ := ((line_reads_as_what_it_spells (.increment "DB")).1 other).1 hother
  exact hwritable.distinct "DB" rfl .byte rfl

end Instruction

end HexMachine
