import HexMachine.Proofs.Program.Loading

/-!
# Writing program texts

A program can be laid out in many ways: with blank lines in front, white space before the count, zeros
at the head of it, an instruction after it, any number of lines, and a newline at the end or none.
Main statement `load_layout`: a well-formed layout loads as the instruction on the count's line, if
there is one, and the lines that the count reaches, all of them unchanged.

The lines of a written text are those that were joined, less a carriage return where one ends a line.
In a well-formed layout that can be a blank line in front only, and it stays blank.
-/
namespace HexMachine.Program

/-! ## Lines that are joined -/

/-- A line is cut off at its newline, with a carriage return that it ends in. -/
theorem rawLines_bytes_line {line : String} (h : '\n' ∉ line.toList) (rest : String) :
    rawLines (Text.bytes (line ++ "\n" ++ rest)) =
      Text.bytes (withoutReturn line) :: rawLines (Text.bytes rest) := by
  have hnewline : Text.bytes "\n" = [newline] := by decide +kernel
  have hreturn : Text.dropTrailing carriageReturn (Text.bytes line) =
      Text.bytes (withoutReturn line) :=
    Text.dropTrailing_bytes (show '\r'.toNat < 128 by decide) line
  rw [Text.bytes_append, Text.bytes_append, hnewline, List.append_assoc, List.singleton_append,
    rawLines_cons (newline_mem_bytes_iff.not.2 h), hreturn]

/-- Lines that are joined are cut again, if the last of them can be seen without a newline after it. -/
theorem rawLines_bytes_intercalate {lines : List String} (hne : lines ≠ [])
    (hlines : ∀ line ∈ lines, '\n' ∉ line.toList)
    (hlast : ∀ line ∈ lines.getLast?, line ≠ "" ∧ line.toList.getLast? ≠ some '\r')
    (finalNewline : Bool) :
    rawLines (Text.bytes ("\n".intercalate lines ++ if finalNewline then "\n" else "")) =
      lines.map fun line => Text.bytes (withoutReturn line) := by
  induction lines with
  | nil => exact absurd rfl hne
  | cons first rest ih =>
    rw [List.forall_mem_cons] at hlines
    cases rest with
    | nil =>
      obtain ⟨hfirst, hend⟩ := hlast first rfl
      rw [String.intercalate_singleton, List.map_singleton]
      cases finalNewline with
      | true =>
        have hcut := rawLines_bytes_line hlines.1 ""
        rw [String.append_empty] at hcut
        exact hcut
      | false =>
        have hbytes : Text.bytes first ≠ [] := by
          intro hnil
          exact hfirst (Text.bytes_inj.1 hnil)
        rw [if_neg (by simp), String.append_empty,
          rawLines_of_not_mem hbytes (newline_mem_bytes_iff.not.2 hlines.1), withoutReturn_of_ne hend]
    | cons next more =>
      have hrest := ih (by simp) hlines.2 (by simpa using hlast)
      rw [String.intercalate_cons_cons, String.append_assoc, rawLines_bytes_line hlines.1, hrest]
      rfl

/-! ## Layouts -/

/-- How a program is written. -/
structure Layout where
  /-- Blank lines before the header. -/
  blanks : List String
  /-- White space before the count. -/
  indent : String
  /-- The number of zeros before the count. -/
  zeros : Nat
  count : Nat
  /-- What follows the count on its line. -/
  rest : String
  lines : List String
  finalNewline : Bool

namespace Layout

/-- The digits of the count. -/
def digits (layout : Layout) : List Char :=
  List.replicate layout.zeros '0' ++ Nat.toDigits 10 layout.count

/-- The line of the count. -/
def header (layout : Layout) : String :=
  layout.indent ++ String.ofList layout.digits ++ layout.rest

/-- The text of the program. -/
def text (layout : Layout) : String :=
  "\n".intercalate (layout.blanks ++ layout.header :: layout.lines) ++
    if layout.finalNewline then "\n" else ""

/-- What can be told apart again: blank lines and white space are blank, the rest does not go on with
the count, a line is not empty, and there is no newline in a line and no carriage return at its end. The
rest may be empty. -/
structure IsWellFormed (layout : Layout) : Prop where
  blanks : ∀ blank ∈ layout.blanks, ∀ c ∈ blank.toList, Text.isBlank c = true ∧ c ≠ '\n'
  indent : ∀ c ∈ layout.indent.toList, Text.isBlank c = true ∧ c ≠ '\n'
  count : layout.count < 2 ^ 64 - 1
  rest : '\n' ∉ layout.rest.toList ∧ (∀ c ∈ layout.rest.toList.head?, c.isDigit = false) ∧
    layout.rest.toList.getLast? ≠ some '\r'
  lines : ∀ line ∈ layout.lines,
    line ≠ "" ∧ '\n' ∉ line.toList ∧ line.toList.getLast? ≠ some '\r'

/-! ## The header of a layout -/

theorem digits_ne_nil (layout : Layout) : layout.digits ≠ [] := by
  simp [digits, Nat.toDigits_ne_nil]

theorem isDigit_of_mem_digits {layout : Layout} {c : Char} (h : c ∈ layout.digits) :
    c.isDigit = true := by
  rcases List.mem_append.1 h with hzero | hdigit
  · rw [List.eq_of_mem_replicate hzero]
    rfl
  · exact Nat.isDigit_of_mem_toDigits (by decide) (by decide) hdigit

theorem ofDigitChars_digits (layout : Layout) :
    Nat.ofDigitChars 10 layout.digits 0 = layout.count := by
  rw [digits, Nat.ofDigitChars_append, Nat.ofDigitChars_replicate_zero, Nat.mul_zero,
    Nat.ofDigitChars_ten_toDigits]

theorem toList_header (layout : Layout) :
    layout.header.toList = layout.indent.toList ++ layout.digits ++ layout.rest.toList := by
  simp [header]

/-- A header holds a digit, so it is no blank line. -/
theorem header_not_blank (layout : Layout) : ¬ IsBlankLine (Text.bytes layout.header) := by
  obtain ⟨digit, more, hdigits⟩ := List.exists_cons_of_ne_nil layout.digits_ne_nil
  have hdigit : digit ∈ layout.digits := by simp [hdigits]
  rw [isBlankLine_bytes_iff, Text.isBlankText, List.all_eq_true]
  intro hall
  have hblank := hall digit (by simp [toList_header, hdigit])
  rw [isBlank_of_isDigit (isDigit_of_mem_digits hdigit)] at hblank
  cases hblank

namespace IsWellFormed

variable {layout : Layout} (h : layout.IsWellFormed)
include h

theorem newline_not_mem_header : '\n' ∉ layout.header.toList := by
  rw [toList_header, List.mem_append, List.mem_append]
  rintro ((hindent | hdigit) | hrest)
  · exact (h.indent _ hindent).2 rfl
  · exact absurd (isDigit_of_mem_digits hdigit) (by decide)
  · exact h.rest.1 hrest

/-- The last character of a header is that of the rest or a digit. -/
theorem getLast?_header : layout.header.toList.getLast? ≠ some '\r' := by
  rw [toList_header, List.append_assoc, List.getLast?_append, List.getLast?_append]
  cases hrest : layout.rest.toList.getLast? with
  | some c =>
    rw [Option.some_or, Option.some_or, ← hrest]
    exact h.rest.2.2
  | none =>
    rw [List.getLast?_eq_some_getLast layout.digits_ne_nil, Option.none_or, Option.some_or]
    intro hlast
    have hdigit := isDigit_of_mem_digits (List.getLast_mem layout.digits_ne_nil)
    rw [Option.some.inj hlast] at hdigit
    cases hdigit

theorem hasCount : HasCount layout.header layout.count layout.rest := by
  refine ⟨layout.indent.toList, layout.digits, ?_, fun c hc => (h.indent c hc).1,
    layout.digits_ne_nil, fun c hc => isDigit_of_mem_digits hc, h.rest.2.1,
    layout.ofDigitChars_digits, ?_⟩
  · rw [withoutReturn_of_ne h.getLast?_header, toList_header]
  · have := h.count
    omega

/-! ## The lines of a layout -/

theorem rawLines_text : rawLines (Text.bytes layout.text) =
    (layout.blanks.map fun blank => Text.bytes (withoutReturn blank)) ++
      Text.bytes layout.header :: layout.lines.map Text.bytes := by
  have hlines : ∀ line ∈ layout.blanks ++ layout.header :: layout.lines, '\n' ∉ line.toList := by
    simp only [List.forall_mem_append, List.forall_mem_cons]
    refine ⟨fun blank hblank hmem => ?_, h.newline_not_mem_header, fun line hline => ?_⟩
    · exact (h.blanks blank hblank _ hmem).2 rfl
    · exact (h.lines line hline).2.1
  have hlast : ∀ line ∈ (layout.blanks ++ layout.header :: layout.lines).getLast?,
      line ≠ "" ∧ line.toList.getLast? ≠ some '\r' := by
    intro line hline
    have hmem : line ∈ layout.header :: layout.lines := by
      apply List.mem_of_getLast?
      simpa [List.getLast?_append] using hline
    rcases List.mem_cons.1 hmem with rfl | hmem
    · refine ⟨?_, h.getLast?_header⟩
      intro hempty
      have hchars := layout.toList_header
      simp [hempty, layout.digits_ne_nil] at hchars
    · exact ⟨(h.lines line hmem).1, (h.lines line hmem).2.2⟩
  have hkept : layout.lines.map (fun line => Text.bytes (withoutReturn line)) =
      layout.lines.map Text.bytes := by
    apply List.map_congr_left
    intro line hline
    rw [withoutReturn_of_ne (h.lines line hline).2.2]
  rw [text, rawLines_bytes_intercalate (by simp) hlines hlast, List.map_append, List.map_cons, hkept,
    withoutReturn_of_ne h.getLast?_header]

theorem hasHeader : HasHeader (rawLines (Text.bytes layout.text)) (Text.bytes layout.header)
    (layout.lines.map Text.bytes) := by
  refine ⟨_, h.rawLines_text, ?_, layout.header_not_blank⟩
  intro line hline
  obtain ⟨blank, hblank, rfl⟩ := List.mem_map.1 hline
  refine ⟨_, rfl, fun c hc => ?_⟩
  exact (h.blanks blank hblank c (mem_toList_of_mem_withoutReturn hc)).1

end IsWellFormed

end Layout

/-- **`load_layout`**: a program that is written in a well-formed layout is loaded as it is: the rest of
the count's line, if there is any, and as many of the lines as the count says, or all of them if there
are fewer. -/
theorem load_layout (layout : Layout) (h : layout.IsWellFormed) :
    load (Text.bytes layout.text) =
      .ok ((if layout.rest = "" then [] else [layout.rest]) ++
        layout.lines.take (min layout.count layout.lines.length)) := by
  have hcounted : (layout.lines.map Text.bytes).take layout.count =
      (layout.lines.take layout.count).map Text.bytes := List.map_take.symm
  have hkept : ((layout.lines.take layout.count).map withoutReturn).filter (· ≠ "") =
      layout.lines.take (min layout.count layout.lines.length) := by
    have hline : ∀ line ∈ layout.lines.take layout.count, withoutReturn line = line ∧ line ≠ "" := by
      intro line hmem
      obtain ⟨hne, -, hend⟩ := h.lines line (List.mem_of_mem_take hmem)
      exact ⟨withoutReturn_of_ne hend, hne⟩
    rw [List.map_congr_left fun line hmem => (hline line hmem).1, List.map_id',
      List.filter_eq_self.2 fun line hmem => by simpa using (hline line hmem).2, List.take_eq_take_min]
  have hloads := LoadsAs.program h.hasHeader h.hasCount hcounted
  rw [hkept] at hloads
  exact hloads.load_eq

/-- A count that is larger than the number of lines, with a zero before it and a form feed before that.
The rest and the line start with blanks, and the blank line in front ends with a carriage return. -/
theorem load_layout_indented :
    let layout : Layout := ⟨[" \r"], "\x0c", 1, 9, " A DB 1", ["\tINC A", "é"], false⟩
    layout.IsWellFormed ∧ layout.text = " \r\n\x0c09 A DB 1\n\tINC A\né" ∧
    load (Text.bytes layout.text) = .ok [" A DB 1", "\tINC A", "é"] := by
  intro layout
  have hformed : layout.IsWellFormed := by
    constructor
    case blanks =>
      simp [layout]
      decide
    case indent =>
      simp [layout]
      decide
    case count => decide
    case rest => simp [layout]
    case lines => simp [layout]
  exact ⟨hformed, by decide +kernel, load_layout layout hformed⟩

end HexMachine.Program
