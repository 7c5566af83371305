import HexMachine.Text.Blank
import HexMachine.Text.Trailing

/-!
# Texts

How a text is taken apart, at the front, at the end and into bytes. A run of characters of one class
is what is taken from the front as long as it goes on. A mark at the end is removed once. And a
character below 128 is a byte of its own: the byte stands nowhere else in an encoded text, so a mark
is found and removed in the bytes exactly where it is found and removed in the text.
-/
namespace HexMachine.Text

/-! ## Runs at the front -/

/-- A run that stops is what is taken from the front, and what comes after it is left. -/
theorem span_run {p : Char → Bool} {run rest : List Char} (hrun : ∀ c ∈ run, p c = true)
    (hstop : ∀ c ∈ rest.head?, p c = false) :
    (run ++ rest).takeWhile p = run ∧ (run ++ rest).dropWhile p = rest := by
  rw [List.takeWhile_append_of_pos hrun, List.dropWhile_append_of_pos hrun]
  cases rest with
  | nil => simp
  | cons c more => simp [hstop c rfl]

/-- What is left after the run at the front does not go on with it. -/
theorem head?_dropWhile {p : Char → Bool} {text : List Char} {c : Char}
    (h : c ∈ (text.dropWhile p).head?) : p c = false := by
  have hstop := List.head?_dropWhile_not p text
  rw [h] at hstop
  exact hstop

/-! ## Marks at the end -/

section Marks

variable {α : Type} [DecidableEq α] {mark : α}

theorem dropTrailing_eq_iff {l body : List α} :
    dropTrailing mark l = body ↔ l = body ++ [mark] ∨ l = body ∧ body.getLast? ≠ some mark := by
  by_cases hlast : l.getLast? = some mark
  · obtain ⟨front, rfl⟩ := List.getLast?_eq_some_iff.1 hlast
    rw [dropTrailing_concat]
    constructor
    · rintro rfl
      exact .inl rfl
    · rintro (hmarked | ⟨rfl, hne⟩)
      · exact List.append_cancel_right hmarked
      · exact absurd hlast hne
  · rw [dropTrailing_of_ne hlast]
    constructor
    · rintro rfl
      exact .inr ⟨rfl, hlast⟩
    · rintro (rfl | ⟨rfl, -⟩)
      · simp at hlast
      · rfl

theorem mem_of_mem_dropTrailing {l : List α} {a : α} (h : a ∈ dropTrailing mark l) : a ∈ l := by
  unfold dropTrailing at h
  split at h
  · exact (List.dropLast_sublist l).subset h
  · exact h

end Marks

/-! ## Bytes -/

/-- The bytes that a text is encoded as. -/
def bytes (text : String) : List UInt8 := text.toUTF8.data.toList

/-- A line of bytes that encodes a text. -/
def IsText (line : List UInt8) : Prop := ∃ text, bytes text = line

theorem bytes_ofList (chars : List Char) :
    bytes (String.ofList chars) = chars.flatMap String.utf8EncodeChar := by
  simp [bytes, List.utf8Encode]

theorem bytes_eq_flatMap (text : String) : bytes text = text.toList.flatMap String.utf8EncodeChar := by
  rw [← bytes_ofList, String.ofList_toList]

theorem bytes_inj {text other : String} : bytes text = bytes other ↔ text = other := by
  rw [bytes, bytes, Array.toList_inj, ← ByteArray.ext_iff, String.toUTF8_eq_toByteArray,
    String.toUTF8_eq_toByteArray, String.toByteArray_inj]

theorem bytes_append (front back : String) : bytes (front ++ back) = bytes front ++ bytes back := by
  simp [bytes_eq_flatMap]

/-! ## Marks in bytes -/

/-- A character from 128 on is encoded in bytes from 128 on. -/
theorem le_toNat_of_mem_utf8EncodeChar {c : Char} (hc : 128 ≤ c.toNat) {byte : UInt8}
    (h : byte ∈ String.utf8EncodeChar c) : 128 ≤ byte.toNat := by
  have hhigh : ∀ n, 128 ≤ n → n < 256 → 128 ≤ (UInt8.ofNat n).toNat := by
    intro n hlow hn
    rwa [UInt8.toNat_ofNat_of_lt' hn]
  change 128 ≤ c.val.toNat at hc
  simp only [String.utf8EncodeChar, show ¬ c.val.toNat ≤ 127 by omega, if_false] at h
  split at h
  · simp only [List.mem_cons, List.not_mem_nil, or_false] at h
    rcases h with rfl | rfl <;> exact hhigh _ (by omega) (by omega)
  · split at h
    · simp only [List.mem_cons, List.not_mem_nil, or_false] at h
      rcases h with rfl | rfl | rfl <;> exact hhigh _ (by omega) (by omega)
    · simp only [List.mem_cons, List.not_mem_nil, or_false] at h
      rcases h with rfl | rfl | rfl | rfl <;> exact hhigh _ (by omega) (by omega)

section Ascii

variable {mark : Char} (hmark : mark.toNat < 128)
include hmark

/-- A mark is encoded as one byte. -/
theorem utf8EncodeChar_mark : String.utf8EncodeChar mark = [mark.toUInt8] := by
  apply String.utf8EncodeChar_eq_singleton
  rw [Char.utf8Size_eq_one_iff, UInt32.le_iff_toNat_le]
  exact Nat.le_of_lt_succ hmark

theorem toNat_toUInt8_mark : mark.toUInt8.toNat = mark.toNat := by
  change mark.toNat % 256 = mark.toNat
  omega

/-- The byte of a mark is part of no other character. -/
theorem mem_utf8EncodeChar_iff {c : Char} : mark.toUInt8 ∈ String.utf8EncodeChar c ↔ c = mark := by
  constructor
  · intro hmem
    by_cases hc : c.toNat < 128
    · rw [utf8EncodeChar_mark hc, List.mem_singleton] at hmem
      have hbyte := congrArg UInt8.toNat hmem
      rw [toNat_toUInt8_mark hmark, toNat_toUInt8_mark hc] at hbyte
      exact Char.toNat_inj.1 hbyte.symm
    · have hhigh := le_toNat_of_mem_utf8EncodeChar (Nat.le_of_not_lt hc) hmem
      rw [toNat_toUInt8_mark hmark] at hhigh
      omega
  · rintro rfl
    simp [utf8EncodeChar_mark hmark]

theorem mem_bytes_iff {text : String} : mark.toUInt8 ∈ bytes text ↔ mark ∈ text.toList := by
  rw [bytes_eq_flatMap, List.mem_flatMap]
  constructor
  · rintro ⟨c, hc, hmem⟩
    rw [← (mem_utf8EncodeChar_iff hmark).1 hmem]
    exact hc
  · intro hmem
    exact ⟨mark, hmem, (mem_utf8EncodeChar_iff hmark).2 rfl⟩

/-- Bytes that end with a mark encode a text that ends with it. -/
theorem bytes_eq_concat_iff {text : String} {front : List UInt8} :
    bytes text = front ++ [mark.toUInt8] ↔
      ∃ body, text = body ++ String.singleton mark ∧ bytes body = front := by
  have hsingle : bytes (String.singleton mark) = [mark.toUInt8] := by
    simp [bytes_eq_flatMap, utf8EncodeChar_mark hmark]
  constructor
  · intro h
    -- the last character has the byte in its encoding, so it is the mark
    rcases List.eq_nil_or_concat text.toList with hnil | ⟨chars, last, hchars⟩
    · simp [bytes_eq_flatMap, hnil] at h
    · have htext : text = String.ofList chars ++ String.singleton last := by
        rw [← String.ofList_toList (s := text), hchars]
        simp
      have hbytes : bytes text = bytes (String.ofList chars) ++ String.utf8EncodeChar last := by
        rw [htext, bytes_append]
        simp [bytes_eq_flatMap]
      have hmem : mark.toUInt8 ∈ String.utf8EncodeChar last := by
        obtain ⟨lead, byte, hcode⟩ :=
          (List.eq_nil_or_concat _).resolve_left (String.utf8EncodeChar_ne_nil (c := last))
        have hbyte : byte = mark.toUInt8 := by simpa [hbytes, hcode] using congrArg List.getLast? h
        simp [hcode, hbyte]
      obtain rfl := (mem_utf8EncodeChar_iff hmark).1 hmem
      refine ⟨String.ofList chars, htext, ?_⟩
      rw [hbytes, utf8EncodeChar_mark hmark] at h
      exact List.append_cancel_right h
  · rintro ⟨body, rfl, rfl⟩
    rw [bytes_append, hsingle]

/-- A mark is removed from the end of the bytes if and only if it is removed from the text. -/
theorem dropTrailing_bytes (text : String) :
    dropTrailing mark.toUInt8 (bytes text) = bytes (String.ofList (dropTrailing mark text.toList)) := by
  rw [dropTrailing_eq_iff]
  rcases dropTrailing_eq_iff.1 (rfl : dropTrailing mark text.toList = _) with hmarked | ⟨hsame, hlast⟩
  · left
    rw [bytes_eq_concat_iff hmark]
    refine ⟨_, ?_, rfl⟩
    rw [← String.toList_inj]
    simpa using hmarked
  · right
    have htext : String.ofList (dropTrailing mark text.toList) = text := by
      rw [← hsame, String.ofList_toList]
    rw [htext]
    refine ⟨rfl, fun hend => ?_⟩
    obtain ⟨front, hfront⟩ := List.getLast?_eq_some_iff.1 hend
    obtain ⟨body, rfl, -⟩ := (bytes_eq_concat_iff hmark).1 hfront
    rw [← hsame] at hlast
    simp at hlast

end Ascii

end HexMachine.Text
