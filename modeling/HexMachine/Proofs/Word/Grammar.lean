import HexMachine.Proofs.Text
import HexMachine.Proofs.Word.Numeral
import Mathlib.Data.List.Induction
import Mathlib.Data.Nat.Digits.Defs
import Mathlib.Tactic.IntervalCases

/-!
# The grammar of numbers

What a text stands for is decided by how it is cut: white space, a sign, a marker, digits and the
rest, each as long as it can be. Main statement `read_follows_grammar`: every text has exactly one such
cut. It is refused for want of digits if and only if the cut has none; otherwise it is read as the
value of the signed digits if that is a word, and is out of range if it is not.

A cut is given by its parts and by what may not come next. That the reader goes through the text in
this way is shown part by part, and one cut per text follows from that, since the reader finds the
parts of any cut. The value is written in base 16 by the places of the digits in a row; that the range
is checked at every digit makes no difference, `ofDigits?_eq`.
-/
namespace HexMachine

/-! ## Characters -/

namespace Word

/-- The white space before a number. -/
def whiteSpace : List Char := [' ', '\t', '\n', '\x0b', '\x0c', '\r']

/-- The digits in order, with small letters. -/
def smallDigits : List Char := "0123456789abcdef".toList

/-- The digits in order, with capital letters. -/
def capitalDigits : List Char := "0123456789ABCDEF".toList

/-- A hexadecimal digit of either case. -/
def IsDigit (c : Char) : Prop := c ∈ smallDigits ∨ c ∈ capitalDigits

instance : DecidablePred IsDigit := fun _ => inferInstanceAs (Decidable (_ ∨ _))

/-- The place of a digit among those of its case. -/
def place (c : Char) : Nat := min (smallDigits.idxOf c) (capitalDigits.idxOf c)

theorem isSpace_iff {c : Char} : isSpace c = true ↔ c ∈ whiteSpace := by
  constructor
  · intro h
    simp only [isSpace, Bool.or_eq_true, beq_iff_eq, Bool.and_eq_true, decide_eq_true_eq,
      Char.le_def, UInt32.le_iff_toNat_le] at h
    rcases h with rfl | ⟨hlow, hhigh⟩
    · decide
    · change 9 ≤ c.toNat at hlow
      change c.toNat ≤ 13 at hhigh
      rw [← Char.ofNat_toNat c]
      interval_cases c.toNat <;> decide
  · exact List.all_eq_true.1 (show whiteSpace.all isSpace = true by decide) c

theorem isHexDigit_iff {c : Char} : c.isHexDigit = true ↔ IsDigit c := by
  constructor
  · intro h
    simp only [Char.isHexDigit, Char.isDigit, ge_iff_le, Bool.or_eq_true, Bool.and_eq_true,
      decide_eq_true_eq, UInt32.le_iff_toNat_le] at h
    rw [← Char.ofNat_toNat c]
    rcases h with (⟨hlow, hhigh⟩ | ⟨hlow, hhigh⟩) | ⟨hlow, hhigh⟩
    · change 48 ≤ c.toNat at hlow
      change c.toNat ≤ 57 at hhigh
      left
      interval_cases c.toNat <;> decide
    · change 97 ≤ c.toNat at hlow
      change c.toNat ≤ 102 at hhigh
      left
      interval_cases c.toNat <;> decide
    · change 65 ≤ c.toNat at hlow
      change c.toNat ≤ 70 at hhigh
      right
      interval_cases c.toNat <;> decide
  · rintro (h | h)
    · exact List.all_eq_true.1 (show smallDigits.all Char.isHexDigit = true by decide) c h
    · exact List.all_eq_true.1 (show capitalDigits.all Char.isHexDigit = true by decide) c h

theorem digitValue_eq_place {c : Char} (h : IsDigit c) : digitValue c = place c := by
  have hrow : (smallDigits ++ capitalDigits).all (fun d => digitValue d == place d) = true := by
    decide
  exact eq_of_beq (List.all_eq_true.1 hrow c (List.mem_append.2 h))

/-! ## The value of digits -/

/-- The number that digits are written for, in base 16. -/
def magnitude (digits : List Char) : Nat := Nat.ofDigits 16 (digits.reverse.map place)

theorem numeral_eq_magnitude {digits : List Char} (h : ∀ c ∈ digits, IsDigit c) :
    numeral 0 digits = magnitude digits := by
  induction digits using List.reverseRecOn with
  | nil => rfl
  | append_singleton front last ih =>
    rw [List.forall_mem_append, List.forall_mem_singleton] at h
    have hnumeral : numeral 0 (front ++ [last]) = 16 * magnitude front + place last := by
      rw [numeral_append, ih h.1, ← digitValue_eq_place h.2]
      rfl
    have hmagnitude : magnitude (front ++ [last]) = place last + 16 * magnitude front := by
      simp [magnitude, Nat.ofDigits_cons]
    rw [hnumeral, hmagnitude, Nat.add_comm]

end Word

/-! ## Cuts -/

/-- A text cut into the parts of a number. -/
@[ext]
structure Numeral where
  white : List Char
  sign : List Char
  marker : List Char
  digits : List Char
  rest : List Char

namespace Numeral

/-- The text from the digits on. -/
def fromDigits (n : Numeral) : List Char := n.digits ++ n.rest

/-- The text from the marker on. -/
def fromMarker (n : Numeral) : List Char := n.marker ++ n.fromDigits

/-- The text from the sign on. -/
def fromSign (n : Numeral) : List Char := n.sign ++ n.fromMarker

/-- The whole text. -/
def chars (n : Numeral) : List Char := n.white ++ n.fromSign

/-- The value of the signed digits. -/
def value (n : Numeral) : Int :=
  if n.sign = ['-'] then -(Word.magnitude n.digits : Int) else Word.magnitude n.digits

/-- What the signed digits stand for: their value, if there are digits and the value is a word. -/
def reading (n : Numeral) : Except Word.ReadError Word :=
  if n.digits = [] then .error .noDigits
  else
    match Word.ofInt? n.value with
    | some word => .ok word
    | none => .error .outOfRange

/-- The text starts with a marker that a digit follows. -/
def StartsWithMarker (text : List Char) : Prop :=
  ∃ x digit more, text = '0' :: x :: digit :: more ∧ (x = 'x' ∨ x = 'X') ∧ Word.IsDigit digit

/-- Every part is of its kind, and none could be longer. White space and digits are runs that stop
where another character comes. Sign and marker are taken if they are there, the marker only before
a digit. -/
structure IsCut (n : Numeral) : Prop where
  white : ∀ c ∈ n.white, c ∈ Word.whiteSpace
  white_stops : ∀ c ∈ n.fromSign.head?, c ∉ Word.whiteSpace
  sign : n.sign ∈ [[], ['+'], ['-']]
  sign_taken : n.sign = [] → ∀ c ∈ n.fromMarker.head?, c ≠ '+' ∧ c ≠ '-'
  marker : n.marker ∈ [[], ['0', 'x'], ['0', 'X']]
  marker_before_digit : n.marker ≠ [] → n.digits ≠ []
  marker_taken : n.marker = [] → ¬ StartsWithMarker n.fromDigits
  digits : ∀ c ∈ n.digits, Word.IsDigit c
  digits_stop : ∀ c ∈ n.rest.head?, ¬ Word.IsDigit c

/-! ## The reader finds the parts of a cut -/

namespace IsCut

variable {n : Numeral} (h : n.IsCut)
include h

theorem dropWhile_chars : n.chars.dropWhile Word.isSpace = n.fromSign := by
  refine (Text.span_run (fun c hc => Word.isSpace_iff.2 (h.white c hc)) fun c hc => ?_).2
  rw [← Bool.not_eq_true, Word.isSpace_iff]
  exact h.white_stops c hc

theorem splitSign_fromSign : Word.splitSign n.fromSign = (decide (n.sign = ['-']), n.fromMarker) := by
  have hsign := h.sign
  have htaken := h.sign_taken
  unfold fromSign
  generalize n.fromMarker = body at htaken ⊢
  simp only [List.mem_cons, List.not_mem_nil, or_false] at hsign
  rcases hsign with hsign | hsign | hsign
  · rw [hsign, List.nil_append]
    cases body with
    | nil => rfl
    | cons c more =>
      obtain ⟨hplus, hminus⟩ := htaken hsign c rfl
      simp [Word.splitSign, hplus, hminus]
  · rw [hsign]
    rfl
  · rw [hsign]
    rfl

theorem dropMarker_fromMarker : Word.dropMarker n.fromMarker = n.fromDigits := by
  have hmarker := h.marker
  unfold fromMarker
  simp only [List.mem_cons, List.not_mem_nil, or_false] at hmarker
  rcases hmarker with hmarker | hmarker
  · rw [hmarker, List.nil_append]
    unfold Word.dropMarker
    split
    · rename_i x digit more htext
      have hnone : ¬ ((x = 'x' ∨ x = 'X') ∧ digit.isHexDigit = true) := by
        rintro ⟨hx, hdigit⟩
        exact h.marker_taken hmarker ⟨x, digit, more, htext, hx, Word.isHexDigit_iff.1 hdigit⟩
      rw [if_neg hnone, htext]
    · rfl
  · -- a marker was taken, so a digit follows it
    have hne : n.marker ≠ [] := by rcases hmarker with hmarker | hmarker <;> simp [hmarker]
    obtain ⟨digit, more, hdigits⟩ := List.exists_cons_of_ne_nil (h.marker_before_digit hne)
    have hdigit : digit.isHexDigit = true :=
      Word.isHexDigit_iff.2 (h.digits digit (by simp [hdigits]))
    rcases hmarker with hmarker | hmarker <;>
      simp [hmarker, fromDigits, hdigits, Word.dropMarker, hdigit]

theorem span_fromDigits : n.fromDigits.takeWhile Char.isHexDigit = n.digits ∧
    n.fromDigits.dropWhile Char.isHexDigit = n.rest := by
  refine Text.span_run (fun c hc => Word.isHexDigit_iff.2 (h.digits c hc)) fun c hc => ?_
  rw [← Bool.not_eq_true, Word.isHexDigit_iff]
  exact h.digits_stop c hc

/-- What is read off a text is what the digits of its cut stand for. -/
theorem read_eq {text : String} (htext : n.chars = text.toList) : Word.read text = n.reading := by
  have hvalue : Word.ofDigits? (decide (n.sign = ['-'])) n.digits = Word.ofInt? n.value := by
    rw [Word.ofDigits?_eq, Word.numeral_eq_magnitude h.digits, value]
    simp only [decide_eq_true_eq]
  have hrun : (Word.dropMarker n.fromMarker).takeWhile Char.isHexDigit = n.digits := by
    rw [h.dropMarker_fromMarker, h.span_fromDigits.1]
  rw [Word.read, ← htext, h.dropWhile_chars, h.splitSign_fromSign, reading]
  by_cases hnone : n.digits = []
  · simp [hrun, hnone]
  · cases hword : Word.ofInt? n.value with
    | none => simp [hrun, hvalue, hnone, hword]
    | some word => simp [hrun, hvalue, hnone, hword]

/-- A text has one cut, since the reader finds its parts. -/
theorem eq_of_chars {m : Numeral} (h' : m.IsCut) (hchars : n.chars = m.chars) : n = m := by
  have hsigned : n.fromSign = m.fromSign := by
    rw [← h.dropWhile_chars, ← h'.dropWhile_chars, hchars]
  have hmarked : n.fromMarker = m.fromMarker := by
    have hsplit := congrArg Word.splitSign hsigned
    rw [h.splitSign_fromSign, h'.splitSign_fromSign] at hsplit
    exact (Prod.mk.inj hsplit).2
  have hdigits : n.fromDigits = m.fromDigits := by
    rw [← h.dropMarker_fromMarker, ← h'.dropMarker_fromMarker, hmarked]
  have hrun : n.digits = m.digits := by
    rw [← h.span_fromDigits.1, ← h'.span_fromDigits.1, hdigits]
  have hrest : n.rest = m.rest := by
    rw [← h.span_fromDigits.2, ← h'.span_fromDigits.2, hdigits]
  -- a part is what is left of the text in front of the later ones
  have hmarker : n.marker = m.marker := by
    rw [fromMarker, fromMarker, hdigits] at hmarked
    exact List.append_cancel_right hmarked
  have hsign : n.sign = m.sign := by
    rw [fromSign, fromSign, hmarked] at hsigned
    exact List.append_cancel_right hsigned
  have hwhite : n.white = m.white := by
    rw [chars, chars, hsigned] at hchars
    exact List.append_cancel_right hchars
  exact Numeral.ext hwhite hsign hmarker hrun hrest

end IsCut

/-! ## Every text can be cut -/

theorem exists_sign (text : List Char) :
    ∃ sign body, text = sign ++ body ∧ sign ∈ [[], ['+'], ['-']] ∧
      (sign = [] → ∀ c ∈ body.head?, c ≠ '+' ∧ c ≠ '-') := by
  cases text with
  | nil => exact ⟨[], [], rfl, by simp, by simp⟩
  | cons c rest =>
    by_cases hsign : c = '+' ∨ c = '-'
    · refine ⟨[c], rest, rfl, ?_, by simp⟩
      rcases hsign with rfl | rfl <;> simp
    · refine ⟨[], c :: rest, rfl, by simp, fun _ d hd => ?_⟩
      cases hd
      exact not_or.1 hsign

theorem exists_marker (text : List Char) :
    ∃ marker tail, text = marker ++ tail ∧ marker ∈ [[], ['0', 'x'], ['0', 'X']] ∧
      (marker ≠ [] → ∃ digit more, tail = digit :: more ∧ Word.IsDigit digit) ∧
      (marker = [] → ¬ StartsWithMarker tail) := by
  by_cases hmarker : StartsWithMarker text
  · obtain ⟨x, digit, more, rfl, hx, hdigit⟩ := hmarker
    refine ⟨['0', x], digit :: more, rfl, ?_, fun _ => ⟨digit, more, rfl, hdigit⟩, by simp⟩
    rcases hx with rfl | rfl <;> simp
  · exact ⟨[], text, rfl, by simp, by simp, fun _ => hmarker⟩

theorem exists_isCut (text : List Char) : ∃ n : Numeral, n.IsCut ∧ n.chars = text := by
  obtain ⟨sign, body, hbody, hsign, htaken⟩ := exists_sign (text.dropWhile Word.isSpace)
  obtain ⟨marker, tail, htail, hmarker, hbefore, hnone⟩ := exists_marker body
  have hdigits : tail.takeWhile Char.isHexDigit ++ tail.dropWhile Char.isHexDigit = tail :=
    List.takeWhile_append_dropWhile
  have hwhite : text.takeWhile Word.isSpace ++ text.dropWhile Word.isSpace = text :=
    List.takeWhile_append_dropWhile
  refine ⟨⟨text.takeWhile Word.isSpace, sign, marker, tail.takeWhile Char.isHexDigit,
    tail.dropWhile Char.isHexDigit⟩, ?_, ?_⟩
  · constructor
    case white =>
      intro c hc
      exact Word.isSpace_iff.1 (List.mem_takeWhile_imp hc)
    case white_stops =>
      intro c hc
      simp only [fromSign, fromMarker, fromDigits, hdigits, ← htail, ← hbody] at hc
      rw [← Word.isSpace_iff, Text.head?_dropWhile hc]
      simp
    case sign => exact hsign
    case sign_taken =>
      simp only [fromMarker, fromDigits, hdigits, ← htail]
      exact htaken
    case marker => exact hmarker
    case marker_before_digit =>
      intro hne
      obtain ⟨digit, more, rfl, hdigit⟩ := hbefore hne
      simp [Word.isHexDigit_iff.2 hdigit]
    case marker_taken =>
      simp only [fromDigits, hdigits]
      exact hnone
    case digits =>
      intro c hc
      exact Word.isHexDigit_iff.1 (List.mem_takeWhile_imp hc)
    case digits_stop =>
      intro c hc
      rw [← Word.isHexDigit_iff, Text.head?_dropWhile hc]
      simp
  · simp only [chars, fromSign, fromMarker, fromDigits, hdigits, ← htail, ← hbody, hwhite]

end Numeral

/-! ## Reading -/

namespace Numeral

variable {n : Numeral}

theorem reading_eq_noDigits_iff : n.reading = .error .noDigits ↔ n.digits = [] := by
  unfold reading
  split
  · simp_all
  · split <;> simp_all

theorem reading_eq_ok_iff (hdigits : n.digits ≠ []) :
    (∃ word, n.reading = .ok word ∧ word.toInt = n.value) ↔
      -2 ^ 63 ≤ n.value ∧ n.value ≤ 2 ^ 63 - 1 := by
  rw [reading, if_neg hdigits]
  cases hvalue : Word.ofInt? n.value with
  | some word =>
    have hword := Word.toInt_of_ofInt? hvalue
    have hlow := Int64.le_toInt word
    have hhigh := Int64.toInt_lt word
    refine ⟨fun _ => by omega, fun _ => ⟨word, rfl, hword⟩⟩
  | none =>
    rw [Word.ofInt?_eq_none_iff] at hvalue
    refine ⟨?_, fun _ => by omega⟩
    rintro ⟨word, hword, -⟩
    cases hword

theorem reading_eq_outOfRange_iff (hdigits : n.digits ≠ []) :
    n.reading = .error .outOfRange ↔ ¬ (-2 ^ 63 ≤ n.value ∧ n.value ≤ 2 ^ 63 - 1) := by
  have hnone : n.reading = .error .outOfRange ↔ Word.ofInt? n.value = none := by
    rw [reading, if_neg hdigits]
    cases Word.ofInt? n.value <;> simp
  rw [hnone, Word.ofInt?_eq_none_iff]
  omega

end Numeral

namespace Word

/-- **`read_follows_grammar`**: a text has exactly one cut into white space, sign, marker, digits and
rest. It is refused for want of digits if and only if there are none in the cut. If there are any, it
is read as their value with the sign if and only if that is at least -2^63 and at most 2^63 - 1, and is
out of range if and only if it is not. And any two texts with the same sign and digits are read alike,
whatever comes after the digits. -/
theorem read_follows_grammar (text : String) :
    (∃! n : Numeral, n.IsCut ∧ n.chars = text.toList) ∧
    ∀ n : Numeral, n.IsCut → n.chars = text.toList →
      (read text = .error .noDigits ↔ n.digits = []) ∧
      (n.digits ≠ [] →
        ((∃ word, read text = .ok word ∧ word.toInt = n.value) ↔
          -2 ^ 63 ≤ n.value ∧ n.value ≤ 2 ^ 63 - 1) ∧
        (read text = .error .outOfRange ↔ ¬ (-2 ^ 63 ≤ n.value ∧ n.value ≤ 2 ^ 63 - 1))) ∧
      ∀ (other : String) (m : Numeral), m.IsCut → m.chars = other.toList →
        m.sign = n.sign → m.digits = n.digits → read other = read text := by
  refine ⟨?_, fun n hcut htext => ?_⟩
  · obtain ⟨n, hcut, htext⟩ := Numeral.exists_isCut text.toList
    refine ⟨n, ⟨hcut, htext⟩, fun m hm => ?_⟩
    exact hm.1.eq_of_chars hcut (hm.2.trans htext.symm)
  · rw [hcut.read_eq htext]
    refine ⟨Numeral.reading_eq_noDigits_iff, fun hdigits => ⟨Numeral.reading_eq_ok_iff hdigits,
      Numeral.reading_eq_outOfRange_iff hdigits⟩, ?_⟩
    intro other m hother hchars hsign hdigits
    rw [hother.read_eq hchars, Numeral.reading, Numeral.reading, Numeral.value, Numeral.value, hsign,
      hdigits]

/-- The least word with a marker, between a tab and text that is no digit; its digits alone, without
the sign, are out of range. -/
theorem read_follows_grammar_least :
    let digits := '8' :: List.replicate 15 '0'
    let least : Numeral := ⟨['\t'], ['-'], ['0', 'X'], digits, ['z', 'z']⟩
    let bare : Numeral := ⟨[], [], [], digits, []⟩
    (least.IsCut ∧ bare.IsCut) ∧
    (∃ word, read "\t-0X8000000000000000zz" = .ok word ∧ word.toInt = -2 ^ 63) ∧
    read "8000000000000000" = .error .outOfRange := by
  intro digits least bare
  have hdigits : ∀ c ∈ digits, IsDigit c := by
    intro c hc
    rcases List.mem_cons.1 hc with rfl | hzero
    · decide
    · rw [List.eq_of_mem_replicate hzero]
      decide
  have hleast : least.IsCut := by
    refine ⟨?_, ?_, ?_, ?_, ?_, ?_, ?_, hdigits, ?_⟩ <;>
      simp [least, digits, Numeral.fromSign, whiteSpace]
    decide
  have hbare : bare.IsCut := by
    refine ⟨?_, ?_, ?_, ?_, ?_, ?_, ?_, hdigits, ?_⟩ <;>
      simp [bare, digits, Numeral.fromSign, Numeral.fromMarker, Numeral.fromDigits,
        Numeral.StartsWithMarker, whiteSpace]
  have hvalue : least.value = -2 ^ 63 ∧ bare.value = 2 ^ 63 := by decide
  obtain ⟨-, hread, -⟩ := (read_follows_grammar "\t-0X8000000000000000zz").2 least hleast (by decide)
  obtain ⟨-, hrefused, -⟩ := (read_follows_grammar "8000000000000000").2 bare hbare (by decide)
  rw [hvalue.1] at hread
  rw [hvalue.2] at hrefused
  exact ⟨⟨hleast, hbare⟩, (hread (by decide)).1.2 (by decide), (hrefused (by decide)).2.2 (by decide)⟩

end Word

end HexMachine
