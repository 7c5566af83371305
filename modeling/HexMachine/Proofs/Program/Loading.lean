import HexMachine.Proofs.Program.Lines
import Mathlib.Algebra.Group.Nat.Defs
import Mathlib.Data.List.TakeWhile

/-!
# Loading

What loading comes to is said by the lines of a program text: by its header, which is the first line
that is not blank, by the count at the front of the header, and by the lines that are counted off.
Main statement `load_reads_counted_lines`: the result of loading is the one that is said in this way,
for every byte sequence. Hence a program has at most one line more than its count, none of them empty
and none with a newline in it, and bytes that come after the newline of the last counted line do not
matter.

The lines are described by decompositions, which say what is in front of a header and of a count. That
the loader finds them is shown for each, and that there is no other result follows from
`exists_loadsAs`: every text has one.
-/
namespace HexMachine.Program

/-! ## What a program text says -/

/-- A line of blank characters. -/
def IsBlankLine (line : List UInt8) : Prop :=
  ∃ text, Text.bytes text = line ∧ ∀ c ∈ text.toList, Text.isBlank c = true

/-- The header is the first line that is not blank. -/
def HasHeader (lines : List (List UInt8)) (header : List UInt8)
    (following : List (List UInt8)) : Prop :=
  ∃ blanks, lines = blanks ++ header :: following ∧ (∀ line ∈ blanks, IsBlankLine line) ∧
    ¬ IsBlankLine header

/-- The text without one carriage return at its end. -/
def withoutReturn (text : String) : String := String.ofList (Text.dropTrailing '\r' text.toList)

/-- The header, without a carriage return at its end, is white space, the digits of the count and the
rest. There is a digit, all digits are taken, and the count is below 2^64. -/
def HasCount (header : String) (count : Nat) (rest : String) : Prop :=
  ∃ white digits, (withoutReturn header).toList = white ++ digits ++ rest.toList ∧
    (∀ c ∈ white, Text.isBlank c = true) ∧
    digits ≠ [] ∧ (∀ c ∈ digits, c.isDigit = true) ∧
    (∀ c ∈ rest.toList.head?, c.isDigit = false) ∧
    Nat.ofDigitChars 10 digits 0 = count ∧ count < 2 ^ 64

/-- What the lines of a program text load as. -/
inductive LoadsAs (lines : List (List UInt8)) : Except LoadError (List String) → Prop where
  | noHeader : (∀ line ∈ lines, IsBlankLine line) → LoadsAs lines (.error .missingCount)
  | unreadableHeader {header : List UInt8} {following : List (List UInt8)} :
    HasHeader lines header following → ¬ Text.IsText header →
      LoadsAs lines (.error (.unreadable .notUtf8))
  | noCount {header : String} {following : List (List UInt8)} :
    HasHeader lines (Text.bytes header) following → (∀ count rest, ¬ HasCount header count rest) →
      LoadsAs lines (.error (.invalidCount header))
  | unreadableLine {header rest : String} {count : Nat} {following : List (List UInt8)}
    {line : List UInt8} :
    HasHeader lines (Text.bytes header) following → HasCount header count rest →
      line ∈ following.take count → ¬ Text.IsText line →
      LoadsAs lines (.error (.unreadable .notUtf8))
  | program {header rest : String} {count : Nat} {following : List (List UInt8)}
    {counted : List String} :
    HasHeader lines (Text.bytes header) following → HasCount header count rest →
      following.take count = counted.map Text.bytes →
      LoadsAs lines (.ok ((if rest = "" then [] else [rest]) ++
        (counted.map withoutReturn).filter (· ≠ "")))

/-! ## The header -/

theorem isBlankLine_bytes_iff {text : String} :
    IsBlankLine (Text.bytes text) ↔ Text.isBlankText text = true := by
  simp [IsBlankLine, Text.isBlankText, Text.bytes_inj]

theorem header_append {blanks : List (List UInt8)} (h : ∀ line ∈ blanks, IsBlankLine line)
    (lines : List (List UInt8)) : header (blanks ++ lines) = header lines := by
  induction blanks with
  | nil => rfl
  | cons line rest ih =>
    rw [List.forall_mem_cons] at h
    obtain ⟨⟨text, rfl, hblank⟩, hrest⟩ := h
    have hskip : Text.isBlankText text = true := by simpa [Text.isBlankText] using hblank
    simp only [List.cons_append, header, decode_bytes, hskip, if_true, ih hrest]

theorem header_of_blank {lines : List (List UInt8)} (h : ∀ line ∈ lines, IsBlankLine line) :
    header lines = .error .missingCount := by
  have hnone := header_append h []
  rwa [List.append_nil] at hnone

theorem HasHeader.header_eq {lines following : List (List UInt8)} {text : String}
    (h : HasHeader lines (Text.bytes text) following) : header lines = .ok (text, following) := by
  obtain ⟨blanks, rfl, hblanks, hheader⟩ := h
  rw [isBlankLine_bytes_iff] at hheader
  simp [header_append hblanks, header, decode_bytes, hheader]

theorem HasHeader.header_of_not_isText {lines following : List (List UInt8)} {line : List UInt8}
    (h : HasHeader lines line following) (hline : ¬ Text.IsText line) :
    header lines = .error (.unreadable .notUtf8) := by
  obtain ⟨blanks, rfl, hblanks, -⟩ := h
  simp [header_append hblanks, header, decode_of_not_isText hline]

theorem blank_or_hasHeader (lines : List (List UInt8)) :
    (∀ line ∈ lines, IsBlankLine line) ∨ ∃ header following, HasHeader lines header following := by
  induction lines with
  | nil => simp
  | cons line rest ih =>
    by_cases hline : IsBlankLine line
    · rcases ih with hblank | ⟨header, following, blanks, rfl, hblanks, hheader⟩
      · exact .inl (List.forall_mem_cons.2 ⟨hline, hblank⟩)
      · exact .inr ⟨header, following, line :: blanks, rfl,
          List.forall_mem_cons.2 ⟨hline, hblanks⟩, hheader⟩
    · exact .inr ⟨line, rest, [], rfl, by simp, hline⟩

/-! ## The count -/

theorem isBlank_of_isDigit {c : Char} (h : c.isDigit = true) : Text.isBlank c = false := by
  simp only [Char.isDigit, ge_iff_le, Bool.and_eq_true, decide_eq_true_eq,
    UInt32.le_iff_toNat_le] at h
  change 48 ≤ c.toNat ∧ c.toNat ≤ 57 at h
  simp [Text.isBlank, Text.blankRanges]
  omega

theorem decimalValue_eq (digits : List Char) :
    decimalValue digits = Nat.ofDigitChars 10 digits 0 := by
  simp only [decimalValue, Nat.ofDigitChars_eq_foldl, Nat.mul_comm 10]

/-- The count is found where it stands. -/
theorem HasCount.splitCount?_eq {header rest : String} {count : Nat}
    (h : HasCount header count rest) : splitCount? header = some (count, rest) := by
  obtain ⟨white, digits, hheader, hwhite, hne, hdigits, hstop, hcount, hlt⟩ := h
  have hskip : (Text.dropTrailing '\r' header.toList).dropWhile Text.isBlank =
      digits ++ rest.toList := by
    rw [withoutReturn, String.toList_ofList, List.append_assoc] at hheader
    rw [hheader]
    refine (Text.span_run hwhite fun c hc => ?_).2
    -- the first character after the white space is a digit
    obtain ⟨first, more, rfl⟩ := List.exists_cons_of_ne_nil hne
    obtain rfl : first = c := by simpa using hc
    exact isBlank_of_isDigit (hdigits first (by simp))
  obtain ⟨htake, hdrop⟩ := Text.span_run hdigits hstop
  have hvalue : count? digits = some count := by
    rw [count?, decimalValue_eq, hcount, if_pos ⟨hne, hlt⟩]
  simp [splitCount?, hskip, htake, hdrop, hvalue]

/-- What is found is a count. -/
theorem hasCount_of_splitCount? {header rest : String} {count : Nat}
    (h : splitCount? header = some (count, rest)) : HasCount header count rest := by
  have hwhite : ∀ text : List Char, text.takeWhile Text.isBlank ++ text.dropWhile Text.isBlank = text :=
    fun _ => List.takeWhile_append_dropWhile
  have hdigits : ∀ text : List Char, text.takeWhile Char.isDigit ++ text.dropWhile Char.isDigit = text :=
    fun _ => List.takeWhile_append_dropWhile
  simp only [splitCount?, Option.map_eq_some_iff, Prod.mk.injEq] at h
  obtain ⟨_, hcount, rfl, rfl⟩ := h
  simp only [count?] at hcount
  split at hcount
  · rename_i hrange
    cases hcount
    refine ⟨(Text.dropTrailing '\r' header.toList).takeWhile Text.isBlank, _, ?_,
      fun c hc => List.mem_takeWhile_imp hc, hrange.1, fun c hc => List.mem_takeWhile_imp hc, ?_,
      (decimalValue_eq _).symm, hrange.2⟩
    · rw [withoutReturn, String.toList_ofList, String.toList_ofList, List.append_assoc, hdigits, hwhite]
    · rw [String.toList_ofList]
      exact fun c hc => Text.head?_dropWhile hc
  · cases hcount

theorem splitCount?_eq_some_iff {header rest : String} {count : Nat} :
    splitCount? header = some (count, rest) ↔ HasCount header count rest :=
  ⟨hasCount_of_splitCount?, HasCount.splitCount?_eq⟩

/-! ## The counted lines -/

theorem withoutReturn_of_ne {text : String} (h : text.toList.getLast? ≠ some '\r') :
    withoutReturn text = text := by
  rw [withoutReturn, Text.dropTrailing_of_ne h, String.ofList_toList]

theorem mem_toList_of_mem_withoutReturn {text : String} {c : Char}
    (h : c ∈ (withoutReturn text).toList) : c ∈ text.toList := by
  rw [withoutReturn, String.toList_ofList] at h
  exact Text.mem_of_mem_dropTrailing h

theorem instructionLine_bytes (text : String) :
    instructionLine (Text.bytes text) = .ok (withoutReturn text) := by
  simp [instructionLine, decode_bytes, Except.map, withoutReturn]

theorem mapM_instructionLine_bytes (counted : List String) :
    (counted.map Text.bytes).mapM instructionLine = .ok (counted.map withoutReturn) := by
  induction counted with
  | nil => rfl
  | cons text rest ih =>
    rw [List.map_cons, List.mapM_cons, instructionLine_bytes, ih]
    rfl

theorem mapM_instructionLine_of_not_isText {lines : List (List UInt8)} {line : List UInt8}
    (h : line ∈ lines) (hline : ¬ Text.IsText line) :
    lines.mapM instructionLine = .error (.unreadable .notUtf8) := by
  induction lines with
  | nil => simp at h
  | cons first rest ih =>
    rw [List.mapM_cons]
    by_cases hfirst : Text.IsText first
    · obtain ⟨text, rfl⟩ := hfirst
      have hrest : line ∈ rest := by
        rcases List.mem_cons.1 h with rfl | hrest
        · exact absurd ⟨text, rfl⟩ hline
        · exact hrest
      rw [instructionLine_bytes, ih hrest]
      rfl
    · rw [instructionLine, decode_of_not_isText hfirst]
      rfl

theorem texts_or_not_isText (lines : List (List UInt8)) :
    (∃ texts : List String, lines = texts.map Text.bytes) ∨ ∃ line ∈ lines, ¬ Text.IsText line := by
  induction lines with
  | nil => exact .inl ⟨[], rfl⟩
  | cons line rest ih =>
    by_cases hline : Text.IsText line
    · obtain ⟨text, rfl⟩ := hline
      rcases ih with ⟨texts, rfl⟩ | ⟨other, hmem, hother⟩
      · exact .inl ⟨text :: texts, rfl⟩
      · exact .inr ⟨other, List.mem_cons_of_mem _ hmem, hother⟩
    · exact .inr ⟨line, by simp, hline⟩

/-! ## The result -/

/-- A text with a count loads as what becomes of its counted lines. -/
theorem load_of_hasCount {bytes : List UInt8} {following : List (List UInt8)} {text rest : String}
    {count : Nat} (hheader : HasHeader (rawLines bytes) (Text.bytes text) following)
    (hcount : HasCount text count rest) :
    load bytes = ((following.take count).mapM instructionLine).map
      fun counted => (if rest = "" then [] else [rest]) ++ counted.filter (· ≠ "") := by
  have hloaded : load bytes = (following.take count).mapM instructionLine >>=
      fun counted => .ok ((rest :: counted).filter (· ≠ "")) := by
    simp only [load, hheader.header_eq, bind, Except.bind, hcount.splitCount?_eq]
    rfl
  rw [hloaded]
  cases (following.take count).mapM instructionLine with
  | error failure => rfl
  | ok counted => by_cases hrest : rest = "" <;> simp [bind, Except.bind, Except.map, hrest]

theorem LoadsAs.load_eq {bytes : List UInt8} {result : Except LoadError (List String)}
    (h : LoadsAs (rawLines bytes) result) : load bytes = result := by
  cases h with
  | noHeader hblank => simp [load, header_of_blank hblank, bind, Except.bind]
  | unreadableHeader hheader hline =>
    simp [load, hheader.header_of_not_isText hline, bind, Except.bind]
  | @noCount header following hheader hnone =>
    have hsplit : splitCount? header = none := by
      cases hcount : splitCount? header with
      | none => rfl
      | some found => exact absurd (hasCount_of_splitCount? hcount) (hnone found.1 found.2)
    simp [load, hheader.header_eq, bind, Except.bind, hsplit]
  | unreadableLine hheader hcount hmem hline =>
    rw [load_of_hasCount hheader hcount, mapM_instructionLine_of_not_isText hmem hline]
    rfl
  | program hheader hcount hcounted =>
    rw [load_of_hasCount hheader hcount, hcounted, mapM_instructionLine_bytes]
    rfl

/-- The result depends on the header and on the lines that its count reaches, and on nothing else. -/
theorem exists_loadsAs_of_header (header : List UInt8) (counted : List (List UInt8)) :
    ∃ result, ∀ lines following, HasHeader lines header following →
      (∀ text count rest, Text.bytes text = header → HasCount text count rest →
        following.take count = counted.take count) → LoadsAs lines result := by
  by_cases htext : Text.IsText header
  · obtain ⟨text, rfl⟩ := htext
    by_cases hcount : ∃ count rest, HasCount text count rest
    · obtain ⟨count, rest, hcount⟩ := hcount
      rcases texts_or_not_isText (counted.take count) with ⟨texts, htexts⟩ | ⟨line, hmem, hline⟩
      · refine ⟨_, fun lines following hheader hsame => .program hheader hcount
          ((hsame text count rest rfl hcount).trans htexts)⟩
      · refine ⟨_, fun lines following hheader hsame => .unreadableLine hheader hcount ?_ hline⟩
        rwa [hsame text count rest rfl hcount]
    · refine ⟨_, fun lines following hheader _ => .noCount hheader fun count rest hfound => ?_⟩
      exact hcount ⟨count, rest, hfound⟩
  · exact ⟨_, fun lines following hheader _ => .unreadableHeader hheader htext⟩

theorem exists_loadsAs (lines : List (List UInt8)) : ∃ result, LoadsAs lines result := by
  rcases blank_or_hasHeader lines with hblank | ⟨header, following, hheader⟩
  · exact ⟨_, .noHeader hblank⟩
  · obtain ⟨result, hresult⟩ := exists_loadsAs_of_header header following
    exact ⟨result, hresult lines following hheader fun _ _ _ _ _ => rfl⟩

/-- **`load_eq_iff`**: loading gives what the lines of the text load as, and nothing else. -/
theorem load_eq_iff {bytes : List UInt8} {result : Except LoadError (List String)} :
    load bytes = result ↔ ∃ lines, Lines bytes lines ∧ LoadsAs lines result := by
  have hcut : load bytes = result ↔ LoadsAs (rawLines bytes) result := by
    constructor
    · rintro rfl
      obtain ⟨result, hresult⟩ := exists_loadsAs (rawLines bytes)
      rwa [hresult.load_eq]
    · exact LoadsAs.load_eq
  simp only [hcut, ← rawLines_eq_iff, exists_eq_left']

/-! ## What follows for programs -/

/-- The rest of a header is part of it. -/
theorem HasCount.mem_header {header rest : String} {count : Nat} (h : HasCount header count rest)
    {c : Char} (hc : c ∈ rest.toList) : c ∈ header.toList := by
  obtain ⟨white, digits, hheader, -⟩ := h
  apply mem_toList_of_mem_withoutReturn
  rw [hheader]
  exact List.mem_append_right _ hc

/-- A program has at most one line more than its count, none of them empty and none with a newline. -/
theorem LoadsAs.program_shape {lines : List (List UInt8)} {program : List String}
    (h : LoadsAs lines (.ok program)) (hlines : ∀ line ∈ lines, newline ∉ line) :
    ∃ header following count rest, HasHeader lines (Text.bytes header) following ∧
      HasCount header count rest ∧ program.length ≤ count + 1 ∧
      ∀ line ∈ program, line ≠ "" ∧ '\n' ∉ line.toList := by
  cases h with
  | @program header rest count following counted hheader hcount hcounted =>
    refine ⟨header, following, count, rest, hheader, hcount, ?_, ?_⟩
    · have hlength : counted.length ≤ count := by
        have := congrArg List.length hcounted
        simp only [List.length_take, List.length_map] at this
        omega
      have hfilter := List.length_filter_le (· ≠ "") (counted.map withoutReturn)
      rw [List.length_map] at hfilter
      rw [List.length_append]
      split <;> simp only [List.length_nil, List.length_singleton] <;> omega
    · obtain ⟨blanks, rfl, -⟩ := hheader
      simp only [List.forall_mem_append, List.forall_mem_cons] at hlines
      obtain ⟨-, hheader, hfollowing⟩ := hlines
      intro line hline
      rcases List.mem_append.1 hline with hrest | hkept
      · split at hrest
        · simp at hrest
        · obtain rfl := List.mem_singleton.1 hrest
          refine ⟨by assumption, fun hmem => hheader ?_⟩
          rw [newline_mem_bytes_iff]
          exact hcount.mem_header hmem
      · obtain ⟨hkept, hne⟩ := List.mem_filter.1 hkept
        obtain ⟨text, htext, rfl⟩ := List.mem_map.1 hkept
        refine ⟨by simpa using hne, fun hmem => ?_⟩
        have htaken : Text.bytes text ∈ following.take count := by
          rw [hcounted]
          exact List.mem_map_of_mem htext
        refine hfollowing _ (List.mem_of_mem_take htaken) ?_
        rw [newline_mem_bytes_iff]
        exact mem_toList_of_mem_withoutReturn hmem

/-- The bytes end with a newline and hold every line that the count of their header reaches. -/
def HoldsCounted (bytes : List UInt8) : Prop :=
  bytes.getLast? = some newline ∧ ∃ lines header following, Lines bytes lines ∧
    HasHeader lines header following ∧
    ∀ text count rest, Text.bytes text = header → HasCount text count rest →
      count ≤ following.length

/-- What comes after the counted lines does not matter. -/
theorem HoldsCounted.load_append {bytes : List UInt8} (h : HoldsCounted bytes)
    (more : List UInt8) : load (bytes ++ more) = load bytes := by
  obtain ⟨hend, lines, header, following, hlines, hheader, hreach⟩ := h
  obtain ⟨result, hresult⟩ := exists_loadsAs_of_header header following
  have hloaded : load bytes = result :=
    load_eq_iff.2 ⟨lines, hlines, hresult lines following hheader fun _ _ _ _ _ => rfl⟩
  rw [hloaded]
  refine LoadsAs.load_eq (hresult _ (following ++ rawLines more) ?_ ?_)
  · obtain ⟨blanks, rfl, hblanks, hheader⟩ := hheader
    refine ⟨blanks, ?_, hblanks, hheader⟩
    rw [rawLines_append hend, hlines.rawLines_eq, List.append_assoc, List.cons_append]
  · intro text count rest htext hcount
    exact List.take_append_of_le_length (hreach text count rest htext hcount)

/-- **`load_reads_counted_lines`**: loading gives what the lines of the text load as, whatever the
bytes are. A program that is loaded has a header with a count; it has at most one line more than the
count, and none of its lines is empty or has a newline in it. And bytes that hold all counted lines,
up to the newline of the last one, load as the same with anything after them, text or not. -/
theorem load_reads_counted_lines (bytes : List UInt8) :
    (∀ result, load bytes = result ↔ ∃ lines, Lines bytes lines ∧ LoadsAs lines result) ∧
    (∀ program, load bytes = .ok program →
      ∃ lines header following count rest, Lines bytes lines ∧
        HasHeader lines (Text.bytes header) following ∧ HasCount header count rest ∧
        program.length ≤ count + 1 ∧ ∀ line ∈ program, line ≠ "" ∧ '\n' ∉ line.toList) ∧
    (HoldsCounted bytes → ∀ more, load (bytes ++ more) = load bytes) := by
  refine ⟨fun result => load_eq_iff, fun program hload => ?_, HoldsCounted.load_append⟩
  obtain ⟨lines, hlines, hloads⟩ := load_eq_iff.1 hload
  obtain ⟨header, following, count, rest, hshape⟩ := hloads.program_shape hlines.newline_not_mem
  exact ⟨lines, header, following, count, rest, hlines, hshape⟩

/-- A blank line, a header with a rest, two counted lines of which the second is empty, and then a byte
that is no text. -/
theorem load_reads_counted_lines_cut :
    let bytes := Text.bytes " \r\n2 A DB 1\r\nINC A\n\r\n"
    HoldsCounted bytes ∧ load (bytes ++ [0xff]) = .ok [" A DB 1", "INC A"] := by
  intro bytes
  have hlines : Lines bytes (rawLines bytes) := lines_rawLines bytes
  have hraw : rawLines bytes =
      [Text.bytes " "] ++ Text.bytes "2 A DB 1" :: [Text.bytes "INC A", []] := by decide +kernel
  have hheader : HasHeader (rawLines bytes) (Text.bytes "2 A DB 1") [Text.bytes "INC A", []] := by
    refine ⟨_, hraw, ?_, ?_⟩
    · simp [isBlankLine_bytes_iff]
      decide
    · rw [isBlankLine_bytes_iff]
      decide
  have hholds : HoldsCounted bytes := by
    refine ⟨by decide +kernel, _, _, _, hlines, hheader, ?_⟩
    intro text count rest htext hcount
    rw [Text.bytes_inj.1 htext, ← splitCount?_eq_some_iff] at hcount
    have hfound : splitCount? "2 A DB 1" = some (2, " A DB 1") := by decide +kernel
    simp_all
  refine ⟨hholds, ?_⟩
  rw [(load_reads_counted_lines bytes).2.2 hholds]
  decide +kernel

end HexMachine.Program
