import HexMachine.Proofs.Word.Grammar
import HexMachine.Proofs.Word.Residue
import Mathlib.Data.List.Basic

/-!
# Canonical texts

The text that a word is stored as has one to eight digits with small letters, and its first digit is a
zero only if there is no other. Main statement `hex_canonical`: the texts of this shape are the texts
of words, and each stands for one class of words modulo 2^32. The text of a word is read as the
residue of the word, two words have the same text if and only if they are congruent, and every text of
this shape is the text of the word that is read from it.

Writing what was read is the harder direction, `hexDigits_numeral`: the printer takes digits off the
low end of a number, and the reader adds them to it from the high end. They meet in
`hexDigits_append`, where a number that is not zero is written and more digits follow it.
-/
namespace HexMachine.Word

/-- The shape of a stored word: one to eight digits with small letters, and no zero in front of
another digit. -/
structure IsCanonical (text : String) : Prop where
  nonempty : 1 ≤ text.length
  short : text.length ≤ 8
  small : ∀ c ∈ text.toList, c ∈ smallDigits
  no_leading_zero : text.toList.head? = some '0' → text = "0"

/-! ## The digits of a number -/

theorem digitChar_mem_smallDigits {n : Nat} (h : n < 16) : n.digitChar ∈ smallDigits := by
  revert n
  decide

theorem digitChar_digitValue {c : Char} (h : c ∈ smallDigits) :
    digitValue c < 16 ∧ (digitValue c).digitChar = c := by
  have hrow : smallDigits.all
      (fun d => decide (digitValue d < 16 ∧ (digitValue d).digitChar = d)) = true := by decide
  simpa using List.all_eq_true.1 hrow c h

/-- The digits of a number have small letters, and only zero starts with a zero. -/
theorem hexDigits_shape (n : Nat) :
    (∀ c ∈ hexDigits n, c ∈ smallDigits) ∧ ((hexDigits n).head? = some '0' → n = 0) := by
  unfold hexDigits
  induction n using Nat.base_induction 16 (by decide) with
  | single m hm =>
    rw [Nat.toDigits_of_lt_base hm]
    simp [digitChar_mem_smallDigits hm]
  | digit m k hk hm ih =>
    rw [← Nat.toDigits_append_toDigits (by decide) hm hk, Nat.toDigits_of_lt_base hk]
    refine ⟨?_, ?_⟩
    · intro c hc
      rcases List.mem_append.1 hc with hfront | hlast
      · exact ih.1 c hfront
      · rw [List.mem_singleton.1 hlast]
        exact digitChar_mem_smallDigits hk
    · -- the first digit is that of the number without its last digit, which is not zero
      rw [List.head?_append_of_ne_nil _ Nat.toDigits_ne_nil]
      intro hzero
      have := ih.2 hzero
      omega

/-- Digits that follow a number other than zero are the further digits of the longer number. -/
theorem hexDigits_append {start : Nat} (hstart : 0 < start) {digits : List Char}
    (h : ∀ c ∈ digits, c ∈ smallDigits) :
    hexDigits start ++ digits = hexDigits (numeral start digits) := by
  induction digits generalizing start with
  | nil => simp [numeral]
  | cons c rest ih =>
    rw [List.forall_mem_cons] at h
    obtain ⟨hlt, hchar⟩ := digitChar_digitValue h.1
    have hnext : hexDigits start ++ [c] = hexDigits (16 * start + digitValue c) := by
      unfold hexDigits
      rw [← Nat.toDigits_append_toDigits (by decide) hstart hlt, Nat.toDigits_of_lt_base hlt, hchar]
    calc hexDigits start ++ c :: rest
        = hexDigits start ++ [c] ++ rest := by simp
      _ = hexDigits (16 * start + digitValue c) ++ rest := by rw [hnext]
      _ = hexDigits (numeral start (c :: rest)) := ih (by omega) h.2

/-- **`hexDigits_numeral`**: digits without a zero in front are written again for their number. -/
theorem hexDigits_numeral {digits : List Char} (hne : digits ≠ [])
    (h : ∀ c ∈ digits, c ∈ smallDigits) (hzero : digits.head? = some '0' → digits = ['0']) :
    hexDigits (numeral 0 digits) = digits := by
  obtain ⟨c, rest, rfl⟩ := List.exists_cons_of_ne_nil hne
  rw [List.forall_mem_cons] at h
  obtain ⟨hlt, hchar⟩ := digitChar_digitValue h.1
  have hone : hexDigits (digitValue c) = [c] := by
    rw [hexDigits, Nat.toDigits_of_lt_base hlt, hchar]
  have hfirst : numeral 0 (c :: rest) = numeral (digitValue c) rest := by simp [numeral]
  rw [hfirst]
  by_cases hc : digitValue c = 0
  · have hchar0 : c = '0' := by
      rw [← hchar, hc]
      rfl
    have hrest : rest = [] := by simpa [hchar0] using hzero (by simp [hchar0])
    simpa [hrest, numeral] using hone
  · rw [← hexDigits_append (by omega) h.2, hone, List.singleton_append]

/-! ## The texts of words -/

theorem isCanonical_hex (word : Word) : IsCanonical word.hex := by
  obtain ⟨hsmall, hzero⟩ := hexDigits_shape word.low
  have hlength : (hexDigits word.low).length ≤ 8 := by
    rw [hexDigits, Nat.length_toDigits_le_iff (by decide) (by decide)]
    exact low_lt word
  constructor
  case nonempty =>
    rw [hex, String.length_ofList]
    exact Nat.length_toDigits_pos
  case short => rwa [hex, String.length_ofList]
  case small => rwa [hex, String.toList_ofList]
  case no_leading_zero =>
    rw [hex, String.toList_ofList]
    intro hhead
    rw [hzero hhead]
    rfl

theorem low_of_toInt {word : Word} {n : Nat} (hn : n < 2 ^ 32) (h : word.toInt = n) :
    word.low = n := by
  have hmod := toInt_emod word
  rw [low_eq_toNat_residue]
  omega

theorem toInt_lowHalf_eq_emod (word : Word) : word.lowHalf.toInt = word.toInt % 2 ^ 32 := by
  rw [toInt_lowHalf, toInt_emod, low_eq_toNat_residue]

theorem hex_eq_iff {a b : Word} : a.hex = b.hex ↔ a.toInt ≡ b.toInt [ZMOD 2 ^ 32] := by
  rw [← residue_eq_iff]
  refine ⟨fun h => ?_, hex_eq_of_residue_eq⟩
  -- equal texts are read as one word, which has the residue of both
  have hread : read a.hex = read b.hex := by rw [h]
  rw [read_hex, read_hex, Except.ok.injEq] at hread
  rw [← residue_lowHalf a, ← residue_lowHalf b, hread]

/-- A canonical text is read as a word, and the word is written as the text. -/
theorem IsCanonical.hex_read {text : String} (h : IsCanonical text) :
    ∃ word, read text = .ok word ∧ word.hex = text := by
  have hne : text.toList ≠ [] := by
    intro hnil
    have := h.nonempty
    simp [String.toList_eq_nil_iff.1 hnil] at this
  have hzero : text.toList.head? = some '0' → text.toList = ['0'] := by
    intro hhead
    rw [h.no_leading_zero hhead]
    rfl
  have hwritten : hexDigits (numeral 0 text.toList) = text.toList :=
    hexDigits_numeral hne h.small hzero
  have hlt : numeral 0 text.toList < 2 ^ 32 := by
    have hlength : (hexDigits (numeral 0 text.toList)).length ≤ 8 := by
      rw [hwritten, String.length_toList]
      exact h.short
    rwa [hexDigits, Nat.length_toDigits_le_iff (by decide) (by decide)] at hlength
  have hdigits : ∀ c ∈ text.toList, c.isHexDigit = true :=
    fun c hc => isHexDigit_iff.2 (.inl (h.small c hc))
  cases hword : ofInt? (numeral 0 text.toList) with
  | none =>
    rw [ofInt?_eq_none_iff] at hword
    omega
  | some word =>
    have hread := read_digits hne hdigits hword
    rw [String.ofList_toList] at hread
    refine ⟨word, hread, ?_⟩
    rw [hex, low_of_toInt hlt (toInt_of_ofInt? hword), hwritten, String.ofList_toList]

/-- **`hex_canonical`**: the text of a word is canonical and is read as the residue of the word modulo
2^32, which has the same text. Two words have the same text if and only if they are congruent modulo
2^32. And every canonical text is the text of the word that is read from it. -/
theorem hex_canonical :
    (∀ word : Word, IsCanonical word.hex ∧
      ∃ decoded, read word.hex = .ok decoded ∧ decoded.toInt = word.toInt % 2 ^ 32 ∧
        decoded.hex = word.hex) ∧
    (∀ a b : Word, a.hex = b.hex ↔ a.toInt ≡ b.toInt [ZMOD 2 ^ 32]) ∧
    ∀ text, IsCanonical text → ∃ word, read text = .ok word ∧ word.hex = text := by
  refine ⟨fun word => ⟨isCanonical_hex word, word.lowHalf, read_hex word, toInt_lowHalf_eq_emod word,
    hex_eq_of_residue_eq (residue_lowHalf word)⟩, fun _ _ => hex_eq_iff, ?_⟩
  intro text htext
  exact htext.hex_read

/-- The text of the largest residue is that of a negative word too. -/
theorem hex_canonical_largest :
    IsCanonical "ffffffff" ∧ (-1 : Word).hex = "ffffffff" ∧
    ∃ word, read "ffffffff" = .ok word ∧ word.hex = "ffffffff" := by
  have hsmall : ∀ c ∈ "ffffffff".toList, c ∈ smallDigits := by
    intro c hc
    obtain rfl : c = 'f' := by simpa using hc
    decide
  have hshape : IsCanonical "ffffffff" := ⟨by decide, by decide, hsmall, by decide⟩
  exact ⟨hshape, by decide, hex_canonical.2.2 "ffffffff" hshape⟩

end HexMachine.Word
