import HexMachine.Program
import HexMachine.Proofs.Text

/-!
# Lines of bytes

A byte sequence is cut into lines at its newlines. Main statement `rawLines_eq_iff`: the lines of a
byte sequence are those that it is made of, each followed by a newline or by a carriage return and a
newline, the last one perhaps by nothing. A carriage return before a newline always belongs to it, so
there is one way to cut.

Whether a line is a text is a question about its bytes alone, `decode_eq_ok_iff`.
-/
namespace HexMachine.Program

/-- `Lines bytes lines`: the bytes are the lines in order with their ends. An end is a newline, with a
carriage return before it or not. Only the last line may have no end, and then it is not empty. -/
inductive Lines : List UInt8 → List (List UInt8) → Prop where
  | nil : Lines [] []
  | last {line : List UInt8} : line ≠ [] → newline ∉ line → Lines line [line]
  | feed {line rest : List UInt8} {lines : List (List UInt8)} :
    newline ∉ line → line.getLast? ≠ some carriageReturn → Lines rest lines →
      Lines (line ++ newline :: rest) (line :: lines)
  | returnFeed {line rest : List UInt8} {lines : List (List UInt8)} :
    newline ∉ line → Lines rest lines →
      Lines (line ++ carriageReturn :: newline :: rest) (line :: lines)

/-! ## Cutting -/

theorem newline_ne_carriageReturn : newline ≠ carriageReturn := by decide

theorem rawLines_nil : rawLines [] = [] := by simp [rawLines]

/-- Bytes without a newline are one line, if there are any. -/
theorem rawLines_of_not_mem {line : List UInt8} (hne : line ≠ []) (h : newline ∉ line) :
    rawLines line = [line] := by
  simp [rawLines, List.splitOn_eq_singleton h, hne]

/-- What follows a newline is cut by itself. -/
theorem rawLines_append_newline (front rest : List UInt8) :
    rawLines (front ++ newline :: rest) =
      (front.splitOn newline).map (Text.dropTrailing carriageReturn) ++ rawLines rest := by
  have hne := List.splitOn_ne_nil newline rest
  have hlast : (front.splitOn newline ++ rest.splitOn newline).getLast? =
      (rest.splitOn newline).getLast? := by
    rw [List.getLast?_append, List.getLast?_eq_some_getLast hne, Option.some_or]
  simp only [rawLines, List.splitOn_append_cons_self, List.dropLast_append_of_ne_nil hne, hlast,
    List.map_append, List.append_assoc]

/-- The first line ends at the first newline. -/
theorem rawLines_cons {line : List UInt8} (h : newline ∉ line) (rest : List UInt8) :
    rawLines (line ++ newline :: rest) =
      Text.dropTrailing carriageReturn line :: rawLines rest := by
  rw [rawLines_append_newline, List.splitOn_eq_singleton h, List.map_singleton, List.singleton_append]

/-- Bytes that end with a newline keep their lines, whatever comes after them. -/
theorem rawLines_append {front : List UInt8} (h : front.getLast? = some newline)
    (rest : List UInt8) : rawLines (front ++ rest) = rawLines front ++ rawLines rest := by
  obtain ⟨body, rfl⟩ := List.getLast?_eq_some_iff.1 h
  rw [List.append_assoc, List.singleton_append, rawLines_append_newline, rawLines_append_newline,
    rawLines_nil, List.append_nil]

theorem Lines.rawLines_eq {bytes : List UInt8} {lines : List (List UInt8)} (h : Lines bytes lines) :
    rawLines bytes = lines := by
  induction h with
  | nil => exact rawLines_nil
  | last hne hline => exact rawLines_of_not_mem hne hline
  | feed hline hend _ ih => rw [rawLines_cons hline, Text.dropTrailing_of_ne hend, ih]
  | @returnFeed line rest lines hline _ ih =>
    have hmarked : newline ∉ line ++ [carriageReturn] := by simp [hline, newline_ne_carriageReturn]
    have hcut := rawLines_cons hmarked rest
    rw [List.append_assoc, List.singleton_append, Text.dropTrailing_concat, ih] at hcut
    exact hcut

theorem lines_rawLines (bytes : List UInt8) : Lines bytes (rawLines bytes) := by
  induction hlength : bytes.length using Nat.strongRecOn generalizing bytes with
  | ind length ih =>
    by_cases h : newline ∈ bytes
    · obtain ⟨line, rest, rfl, hline⟩ := List.eq_append_cons_of_mem h
      have hrest := ih rest.length (by simp [← hlength]; omega) rest rfl
      rw [rawLines_cons hline]
      by_cases hend : line.getLast? = some carriageReturn
      · -- the carriage return at the end of what stands before the newline is part of the line's end
        obtain ⟨body, rfl⟩ := List.getLast?_eq_some_iff.1 hend
        have hbody : newline ∉ body := fun hmem => hline (List.mem_append_left _ hmem)
        rw [Text.dropTrailing_concat, List.append_assoc, List.singleton_append]
        exact .returnFeed hbody hrest
      · rw [Text.dropTrailing_of_ne hend]
        exact .feed hline hend hrest
    · by_cases hne : bytes = []
      · subst hne
        rw [rawLines_nil]
        exact .nil
      · rw [rawLines_of_not_mem hne h]
        exact .last hne h

/-- **`rawLines_eq_iff`**: a byte sequence is cut into the lines that it is made of. -/
theorem rawLines_eq_iff {bytes : List UInt8} {lines : List (List UInt8)} :
    rawLines bytes = lines ↔ Lines bytes lines := by
  constructor
  · rintro rfl
    exact lines_rawLines bytes
  · exact Lines.rawLines_eq

theorem Lines.newline_not_mem {bytes : List UInt8} {lines : List (List UInt8)}
    (h : Lines bytes lines) : ∀ line ∈ lines, newline ∉ line := by
  induction h with
  | nil => simp
  | last _ hline => simpa using hline
  | feed hline _ _ ih => exact List.forall_mem_cons.2 ⟨hline, ih⟩
  | returnFeed hline _ ih => exact List.forall_mem_cons.2 ⟨hline, ih⟩

/-! ## Texts of lines -/

theorem newline_mem_bytes_iff {text : String} : newline ∈ Text.bytes text ↔ '\n' ∈ text.toList :=
  Text.mem_bytes_iff (show '\n'.toNat < 128 by decide)

theorem carriageReturn_mem_bytes_iff {text : String} :
    carriageReturn ∈ Text.bytes text ↔ '\r' ∈ text.toList :=
  Text.mem_bytes_iff (show '\r'.toNat < 128 by decide)

theorem bytes_eq_concat_carriageReturn_iff {text : String} {line : List UInt8} :
    Text.bytes text = line ++ [carriageReturn] ↔
      ∃ body, text = body ++ "\r" ∧ Text.bytes body = line :=
  Text.bytes_eq_concat_iff (show '\r'.toNat < 128 by decide)

theorem decode_bytes (text : String) : decode (Text.bytes text) = .ok text := by
  have hvalid : String.fromUTF8? text.toUTF8 = some text := by
    unfold String.fromUTF8?
    rw [String.toUTF8_eq_toByteArray, dif_pos text.isValidUTF8]
    rfl
  simp only [decode, Text.bytes, Array.toArray_toList, hvalid]

theorem decode_eq_ok_iff {line : List UInt8} {text : String} :
    decode line = .ok text ↔ Text.bytes text = line := by
  constructor
  · intro h
    unfold decode String.fromUTF8? at h
    split at h
    · rename_i decoded hdecoded
      split at hdecoded
      · cases h
        cases hdecoded
        rfl
      · cases hdecoded
    · cases h
  · rintro rfl
    exact decode_bytes text

theorem decode_of_not_isText {line : List UInt8} (h : ¬ Text.IsText line) :
    decode line = .error (.unreadable .notUtf8) := by
  cases hline : decode line with
  | ok text => exact absurd ⟨text, decode_eq_ok_iff.1 hline⟩ h
  | error failure =>
    unfold decode at hline
    split at hline
    · cases hline
    · exact hline.symm

end HexMachine.Program
