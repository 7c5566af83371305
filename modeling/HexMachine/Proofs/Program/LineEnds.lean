import HexMachine.Proofs.Program.Loading

/-!
# Line ends

A newline may be written with a carriage return before it. Main statement `line_ends_do_not_matter`: if
some newlines of a byte sequence without carriage returns are written so, whichever they are, it loads
as before, as the same program or with the same error. The same is true if a carriage return is put at
the very end, after a counted line that has no newline.

A carriage return before a newline is gone once the bytes are cut into lines, so the lines are the same.
One at the very end is left on its line; it is removed when the line is counted off, and it makes no
text of bytes that are none.
-/
namespace HexMachine.Program

/-- The second sequence is the first with carriage returns before some of its newlines. -/
inductive Respelled : List UInt8 → List UInt8 → Prop where
  | nil : Respelled [] []
  | keep (byte : UInt8) {bytes changed : List UInt8} :
    Respelled bytes changed → Respelled (byte :: bytes) (byte :: changed)
  | mark {bytes changed : List UInt8} :
    Respelled bytes changed → Respelled (newline :: bytes) (carriageReturn :: newline :: changed)

/-- The last line has no newline, and it is one of those that the count reaches. -/
def LastLineCounted (bytes : List UInt8) : Prop :=
  bytes.getLast? ≠ some newline ∧ ∃ lines header following count rest, Lines bytes lines ∧
    HasHeader lines (Text.bytes header) following ∧ HasCount header count rest ∧
    following ≠ [] ∧ following.length ≤ count

/-! ## Carriage returns before newlines -/

namespace Respelled

theorem refl (bytes : List UInt8) : Respelled bytes bytes := by
  induction bytes with
  | nil => exact .nil
  | cons byte _ ih => exact .keep byte ih

theorem append_left (line : List UInt8) {rest other : List UInt8} (h : Respelled rest other) :
    Respelled (line ++ rest) (line ++ other) := by
  induction line with
  | nil => exact h
  | cons byte _ ih => exact .keep byte ih

/-- Only newlines are written in another way. -/
theorem of_append {line rest changed : List UInt8} (hline : newline ∉ line)
    (h : Respelled (line ++ rest) changed) :
    ∃ other, changed = line ++ other ∧ Respelled rest other := by
  induction line generalizing changed with
  | nil => exact ⟨changed, rfl, h⟩
  | cons byte more ih =>
    rw [List.mem_cons, not_or] at hline
    cases h with
    | keep _ hmore =>
      obtain ⟨other, rfl, hrest⟩ := ih hline.2 hmore
      exact ⟨other, rfl, hrest⟩
    | mark _ => exact absurd rfl hline.1

theorem getLast?_eq {bytes changed : List UInt8} (h : Respelled bytes changed) :
    changed.getLast? = bytes.getLast? := by
  induction h with
  | nil => rfl
  | keep byte _ ih => simp [List.getLast?_cons, ih]
  | mark _ ih => simp [List.getLast?_cons, ih]

end Respelled

/-- The lines do not depend on how the newlines are written. -/
theorem Lines.respelled {bytes changed : List UInt8} {lines : List (List UInt8)}
    (h : Lines bytes lines) (hplain : carriageReturn ∉ bytes) (hchanged : Respelled bytes changed) :
    Lines changed lines := by
  induction h generalizing changed with
  | nil =>
    cases hchanged
    exact .nil
  | @last line hne hline =>
    rw [← List.append_nil line] at hchanged
    obtain ⟨other, rfl, hother⟩ := hchanged.of_append hline
    cases hother
    rw [List.append_nil]
    exact .last hne hline
  | feed hline hend _ ih =>
    obtain ⟨other, rfl, hother⟩ := hchanged.of_append hline
    simp only [List.mem_append, List.mem_cons, not_or] at hplain
    cases hother with
    | keep _ hrest => exact .feed hline hend (ih hplain.2.2 hrest)
    | mark hrest => exact .returnFeed hline (ih hplain.2.2 hrest)
  | returnFeed _ _ _ => simp at hplain

/-! ## A carriage return at the very end -/

/-- What follows a newline ends as the whole does, if the whole does not end with that newline. -/
theorem getLast?_after_newline {front rest : List UInt8}
    (h : (front ++ newline :: rest).getLast? ≠ some newline) :
    rest ≠ [] ∧ rest.getLast? ≠ some newline := by
  cases rest with
  | nil => simp at h
  | cons byte more => simpa [List.getLast?_append] using h

/-- A carriage return after a last line that has no newline becomes part of it. -/
theorem Lines.append_return {bytes last : List UInt8} {front : List (List UInt8)}
    (h : Lines bytes (front ++ [last])) (hend : bytes.getLast? ≠ some newline) :
    Lines (bytes ++ [carriageReturn]) (front ++ [last ++ [carriageReturn]]) := by
  induction front generalizing bytes with
  | nil =>
    rw [List.nil_append] at h ⊢
    cases h with
    | last _ hline =>
      refine .last (by simp) ?_
      simp [hline, newline_ne_carriageReturn]
    | feed _ _ hrest =>
      cases hrest
      exact absurd rfl (getLast?_after_newline hend).1
    | returnFeed _ hrest =>
      cases hrest
      rw [List.append_cons] at hend
      exact absurd rfl (getLast?_after_newline hend).1
  | cons line front ih =>
    rw [List.cons_append] at h ⊢
    generalize hlines : front ++ [last] = lines at h
    cases h with
    | last _ _ => simp at hlines
    | feed hline hreturn hrest =>
      subst hlines
      rw [List.append_assoc]
      exact .feed hline hreturn (ih hrest (getLast?_after_newline hend).2)
    | returnFeed hline hrest =>
      subst hlines
      rw [List.append_assoc]
      rw [List.append_cons] at hend
      exact .returnFeed hline (ih hrest (getLast?_after_newline hend).2)

/-- A line has the bytes that it stands in. -/
theorem Lines.mem_of_mem {bytes line : List UInt8} {lines : List (List UInt8)} {byte : UInt8}
    (h : Lines bytes lines) (hline : line ∈ lines) (hbyte : byte ∈ line) : byte ∈ bytes := by
  induction h with
  | nil => simp at hline
  | last _ _ => rwa [← List.mem_singleton.1 hline]
  | feed _ _ _ ih =>
    rcases List.mem_cons.1 hline with rfl | hrest
    · exact List.mem_append_left _ hbyte
    · simp [ih hrest]
  | returnFeed _ _ ih =>
    rcases List.mem_cons.1 hline with rfl | hrest
    · exact List.mem_append_left _ hbyte
    · simp [ih hrest]

/-- A carriage return at the end of a counted line makes no difference. -/
theorem instructionLine_return {line : List UInt8} (h : carriageReturn ∉ line) :
    instructionLine (line ++ [carriageReturn]) = instructionLine line := by
  by_cases hline : Text.IsText line
  · obtain ⟨text, rfl⟩ := hline
    have hmarked : Text.bytes (text ++ "\r") = Text.bytes text ++ [carriageReturn] :=
      bytes_eq_concat_carriageReturn_iff.2 ⟨text, rfl, rfl⟩
    have hplain : text.toList.getLast? ≠ some '\r' := by
      intro hlast
      exact h (carriageReturn_mem_bytes_iff.2 (List.mem_of_getLast? hlast))
    have hremoved : withoutReturn (text ++ "\r") = text := by
      rw [withoutReturn, String.toList_append]
      exact (congrArg String.ofList (Text.dropTrailing_concat '\r' text.toList)).trans
        String.ofList_toList
    rw [← hmarked, instructionLine_bytes, instructionLine_bytes, hremoved, withoutReturn_of_ne hplain]
  · have hmarked : ¬ Text.IsText (line ++ [carriageReturn]) := by
      rintro ⟨text, htext⟩
      obtain ⟨body, -, hbody⟩ := bytes_eq_concat_carriageReturn_iff.1 htext
      exact hline ⟨body, hbody⟩
    rw [instructionLine, instructionLine, decode_of_not_isText hline, decode_of_not_isText hmarked]

/-! ## Loading -/

/-- **`line_ends_do_not_matter`**: a byte sequence without carriage returns loads as before, as the same
program or with the same error, if any of its newlines get a carriage return before them, and also if a
counted line without a newline at the very end gets one after it. -/
theorem line_ends_do_not_matter (bytes changed : List UInt8)
    (hplain : carriageReturn ∉ bytes) (h : Respelled bytes changed) :
    load changed = load bytes ∧
    (LastLineCounted bytes → load (changed ++ [carriageReturn]) = load bytes) := by
  have hrawLines : rawLines changed = rawLines bytes :=
    ((lines_rawLines bytes).respelled hplain h).rawLines_eq
  have hload : load changed = load bytes := by rw [load, load, hrawLines]
  refine ⟨hload, ?_⟩
  rintro ⟨hend, lines, header, following, count, rest, hlines, hheader, hcount, hne, hreach⟩
  obtain ⟨more, last, hfollowing⟩ := (List.eq_nil_or_concat following).resolve_left hne
  rw [List.concat_eq_append] at hfollowing
  subst hfollowing
  have hbefore : HasHeader (rawLines bytes) (Text.bytes header) (more ++ [last]) := by
    rwa [hlines.rawLines_eq]
  obtain ⟨blanks, rfl, hblanks, hnotBlank⟩ := hheader
  -- the last of the lines has the carriage return, and the header is where it was
  have hmarked : Lines (changed ++ [carriageReturn])
      (blanks ++ Text.bytes header :: (more ++ [last ++ [carriageReturn]])) := by
    have hchanged := hlines.respelled hplain h
    rw [← List.cons_append, ← List.append_assoc] at hchanged ⊢
    exact hchanged.append_return (by rwa [h.getLast?_eq])
  have hafter : HasHeader (rawLines (changed ++ [carriageReturn])) (Text.bytes header)
      (more ++ [last ++ [carriageReturn]]) := by
    rw [hmarked.rawLines_eq]
    exact ⟨blanks, rfl, hblanks, hnotBlank⟩
  have hlast : instructionLine (last ++ [carriageReturn]) = instructionLine last := by
    apply instructionLine_return
    exact fun hmem => hplain (hlines.mem_of_mem (by simp) hmem)
  rw [load_of_hasCount hbefore hcount, load_of_hasCount hafter hcount,
    List.take_of_length_le hreach, List.take_of_length_le (by simpa using hreach),
    List.mapM_append, List.mapM_append]
  simp only [List.mapM_cons, hlast]

/-- The first of three newlines and the end get carriage returns. The line at the end is counted, and the
line before it is empty. -/
theorem line_ends_do_not_matter_mixed :
    let bytes := Text.bytes "3 A DB 1\nINC A\n\nDEC A"
    let changed := Text.bytes "3 A DB 1\r\nINC A\n\nDEC A"
    carriageReturn ∉ bytes ∧ Respelled bytes changed ∧ LastLineCounted bytes ∧
    load bytes = .ok [" A DB 1", "INC A", "DEC A"] ∧
    load (changed ++ [carriageReturn]) = .ok [" A DB 1", "INC A", "DEC A"] := by
  intro bytes changed
  have hplain : carriageReturn ∉ bytes := by decide +kernel
  have hchanged : Respelled bytes changed := by
    have hbefore : bytes = Text.bytes "3 A DB 1" ++ newline :: Text.bytes "INC A\n\nDEC A" := by
      decide +kernel
    have hafter : changed =
        Text.bytes "3 A DB 1" ++ carriageReturn :: newline :: Text.bytes "INC A\n\nDEC A" := by
      decide +kernel
    rw [hbefore, hafter]
    exact .append_left _ (.mark (.refl _))
  have hcounted : LastLineCounted bytes := by
    refine ⟨by decide +kernel, _, "3 A DB 1", [Text.bytes "INC A", [], Text.bytes "DEC A"], 3, " A DB 1",
      lines_rawLines bytes, ⟨[], by decide +kernel, by simp, ?_⟩, ?_, by simp, by simp⟩
    · rw [isBlankLine_bytes_iff]
      decide
    · exact splitCount?_eq_some_iff.1 (by decide +kernel)
  have hload : load bytes = .ok [" A DB 1", "INC A", "DEC A"] := by decide +kernel
  refine ⟨hplain, hchanged, hcounted, hload, ?_⟩
  rw [(line_ends_do_not_matter bytes changed hplain hchanged).2 hcounted, hload]

end HexMachine.Program
