import HexMachine.Name
import HexMachine.Token

/-!
# Tokens

Cutting a line at spaces and the pieces at commas is one cut at both, `pieces_eq_splitOnP`. So a
separator between two parts of a line keeps their tokens apart, every token is clean, and a clean
text is a token by itself. The tokens of a line are therefore the only clean texts that it spells
with gaps around them, `ofLine_eq_iff`.
-/
namespace HexMachine.Token

/-- Whether a character separates tokens. -/
def isSeparator (c : Char) : Bool := c == ' ' || c == ','

/-- A text that can be a token: it is not empty and holds no separator. -/
def IsClean (token : String) : Prop := token ≠ "" ∧ ∀ c ∈ token.toList, isSeparator c = false

/-- A run of separators, which may be empty. -/
def IsGap (text : String) : Prop := ∀ c ∈ text.toList, isSeparator c = true

instance : DecidablePred IsGap :=
  fun text => inferInstanceAs (Decidable (∀ c ∈ text.toList, isSeparator c = true))

/-! ## Clean texts -/

/-- A character of a class that has neither separator in it is no separator. -/
theorem not_isSeparator_of_class {inClass : Char → Bool} (hspace : inClass ' ' = false)
    (hcomma : inClass ',' = false) {c : Char} (hc : inClass c = true) : isSeparator c = false := by
  have hne : c ≠ ' ' ∧ c ≠ ',' := by
    constructor
    · rintro rfl
      rw [hspace] at hc
      cases hc
    · rintro rfl
      rw [hcomma] at hc
      cases hc
  simp [isSeparator, hne]

theorem isClean_of_isValid {name : String} (h : Name.isValid name = true) : IsClean name := by
  unfold Name.isValid at h
  split at h
  · cases h
  · rename_i first rest hname
    simp only [Bool.and_eq_true, List.all_eq_true] at h
    refine ⟨?_, ?_⟩
    · rintro rfl
      cases hname
    · rw [hname, List.forall_mem_cons]
      refine ⟨not_isSeparator_of_class rfl rfl h.1, fun c hc => ?_⟩
      exact not_isSeparator_of_class rfl rfl (h.2 c hc)

/-! ## One cut -/

theorem pieces_eq_splitOnP (line : List Char) : pieces line = line.splitOnP isSeparator := by
  induction line with
  | nil => rfl
  | cons c rest ih =>
    rw [List.splitOnP_cons_eq_if_modifyHead, ← ih]
    have hsome : ∀ (p : Char → Bool) (text : List Char), ∃ piece more,
        text.splitOnP p = piece :: more :=
      fun p text => List.exists_cons_of_ne_nil (List.splitOnP_ne_nil p text)
    -- the first character joins the first piece of the first word, or cuts before it
    obtain ⟨word, words, hwords⟩ := hsome (· == ' ') rest
    obtain ⟨piece, more, hmore⟩ := hsome (· == ',') word
    simp only [pieces, List.splitOn, List.splitOnP_cons_eq_if_modifyHead, isSeparator]
    by_cases hspace : c = ' '
    · simp [hspace]
    · by_cases hcomma : c = ','
      · simp [hcomma, hwords, List.splitOnP_cons_eq_if_modifyHead]
      · simp [hspace, hcomma, hwords, List.splitOnP_cons_eq_if_modifyHead, hmore]

/-- No piece holds a separator. -/
theorem not_isSeparator_of_mem_pieces {line piece : List Char} (h : piece ∈ pieces line) :
    ∀ c ∈ piece, isSeparator c = false := by
  rw [pieces_eq_splitOnP] at h
  induction line generalizing piece with
  | nil => simp_all
  | cons first rest ih =>
    rw [List.splitOnP_cons_eq_if_modifyHead] at h
    obtain ⟨head, others, hhead⟩ :=
      List.exists_cons_of_ne_nil (List.splitOnP_ne_nil isSeparator rest)
    rw [hhead] at h ih
    by_cases hfirst : isSeparator first = true
    · rw [if_pos hfirst, List.mem_cons] at h
      rcases h with rfl | h
      · simp
      · exact ih h
    · rw [if_neg hfirst, List.modifyHead_cons, List.mem_cons] at h
      rcases h with rfl | h
      · simp only [List.forall_mem_cons]
        exact ⟨Bool.not_eq_true _ ▸ hfirst, ih (by simp)⟩
      · exact ih (by simp [h])

/-! ## Tokens of a line -/

theorem ofLine_append_separator (front back : String) {c : Char} (hc : isSeparator c = true) :
    ofLine (front ++ String.singleton c ++ back) = ofLine front ++ ofLine back := by
  have hcut := List.splitOnP_append_cons front.toList back.toList hc
  simp [ofLine, pieces_eq_splitOnP, hcut]

/-- Separators at the front of a line belong to no token. -/
theorem ofLine_gap_append {gap : String} (h : IsGap gap) (text : String) :
    ofLine (gap ++ text) = ofLine text := by
  obtain ⟨chars, rfl⟩ : ∃ chars, gap = String.ofList chars := ⟨gap.toList, by simp⟩
  induction chars with
  | nil => simp
  | cons c rest ih =>
    simp only [IsGap, String.toList_ofList, List.forall_mem_cons] at h ih
    have hcut := ofLine_append_separator "" (String.ofList rest ++ text) h.1
    have hnone : ofLine "" = [] := by decide
    rw [String.empty_append, hnone, List.nil_append] at hcut
    rw [String.ofList_cons, String.append_assoc, hcut, ih h.2]

/-- A gap that is not empty keeps the tokens on its two sides apart. -/
theorem ofLine_append_gap_append {gap : String} (h : IsGap gap) (hne : gap ≠ "")
    (front back : String) : ofLine (front ++ gap ++ back) = ofLine front ++ ofLine back := by
  obtain ⟨c, rest, hchars⟩ : ∃ c rest, gap.toList = c :: rest :=
    List.exists_cons_of_ne_nil (by simpa using hne)
  have hgap : gap = String.singleton c ++ String.ofList rest := by
    rw [← String.ofList_cons, ← hchars, String.ofList_toList]
  simp only [IsGap, hchars, List.forall_mem_cons] at h
  have hrest : IsGap (String.ofList rest) := by simpa [IsGap] using h.2
  rw [hgap, ← String.append_assoc, String.append_assoc, ofLine_append_separator front _ h.1,
    ofLine_gap_append hrest]

theorem ofLine_of_isClean {token : String} (h : IsClean token) : ofLine token = [token] := by
  have hne : token.toList ≠ [] := by simpa using h.1
  rw [ofLine, pieces_eq_splitOnP, List.splitOnP_eq_singleton h.2]
  simp [hne]

theorem isClean_of_mem_ofLine {line token : String} (h : token ∈ ofLine line) : IsClean token := by
  obtain ⟨piece, hpiece, rfl⟩ := List.mem_map.1 h
  obtain ⟨hmem, hne⟩ := List.mem_filter.1 hpiece
  refine ⟨by simpa using hne, ?_⟩
  rw [String.toList_ofList]
  exact not_isSeparator_of_mem_pieces hmem

/-! ## Lines that spell tokens -/

/-- `Spaced tokens text`: the text is made of the tokens in order, each followed by a gap. Only after
the last one the gap may be empty. -/
inductive Spaced : List String → String → Prop where
  | nil : Spaced [] ""
  | cons {token gap text : String} {tokens : List String} :
    IsClean token → IsGap gap → (tokens ≠ [] → gap ≠ "") → Spaced tokens text →
      Spaced (token :: tokens) (token ++ gap ++ text)

/-- The line holds the tokens in order: a gap that may be empty, and then the tokens with gaps after
them. -/
def Spells (line : String) (tokens : List String) : Prop :=
  ∃ lead text, line = lead ++ text ∧ IsGap lead ∧ Spaced tokens text

theorem Spaced.ofLine_eq {tokens : List String} {text : String} (h : Spaced tokens text) :
    ofLine text = tokens := by
  induction h with
  | nil => decide
  | @cons token gap text tokens hclean hgap hapart hspaced ih =>
    by_cases hempty : gap = ""
    · -- only the last token may have no gap after it
      have hlast : tokens = [] := Decidable.byContradiction fun hne => hapart hne hempty
      subst hlast
      cases hspaced
      rw [hempty, String.append_empty, String.append_empty, ofLine_of_isClean hclean]
    · rw [ofLine_append_gap_append hgap hempty, ofLine_of_isClean hclean, ih, List.singleton_append]

theorem Spells.ofLine_eq {line : String} {tokens : List String} (h : Spells line tokens) :
    ofLine line = tokens := by
  obtain ⟨lead, text, rfl, hlead, hspaced⟩ := h
  rw [ofLine_gap_append hlead, hspaced.ofLine_eq]

theorem isGap_empty : IsGap "" := by simp [IsGap]

theorem isGap_append {first second : String} (h : IsGap first) (h' : IsGap second) :
    IsGap (first ++ second) := by
  simp only [IsGap, String.toList_append, List.forall_mem_append]
  exact ⟨h, h'⟩

theorem isClean_cons {c : Char} (hc : isSeparator c = false) {text : String}
    (h : ∀ c ∈ text.toList, isSeparator c = false) : IsClean (String.singleton c ++ text) := by
  refine ⟨by simp [String.append_eq_empty_iff], ?_⟩
  simpa using ⟨hc, h⟩

/-- A character in front of a line is one more separator, or joins the first token, or is a token of
its own. -/
theorem exists_spells_cons (c : Char) {line : String} {tokens : List String}
    (h : Spells line tokens) : ∃ more, Spells (String.singleton c ++ line) more := by
  obtain ⟨lead, text, rfl, hlead, hspaced⟩ := h
  by_cases hc : isSeparator c = true
  · have hfirst : IsGap (String.singleton c) := by simpa [IsGap] using hc
    exact ⟨tokens, _, text, (String.append_assoc ..).symm, isGap_append hfirst hlead, hspaced⟩
  · have hletter : isSeparator c = false := by simpa using hc
    by_cases hempty : lead = ""
    · subst hempty
      cases hspaced with
      | nil =>
        have hone : IsClean (String.singleton c ++ "") := isClean_cons hletter (by simp)
        refine ⟨[String.singleton c ++ ""], "", _, ?_, isGap_empty,
          .cons hone isGap_empty (by simp) .nil⟩
        simp
      | @cons token gap text tokens hclean hgap hapart hrest =>
        have hone : IsClean (String.singleton c ++ token) := isClean_cons hletter hclean.2
        refine ⟨(String.singleton c ++ token) :: tokens, "", _, ?_, isGap_empty,
          .cons hone hgap hapart hrest⟩
        simp [String.append_assoc]
    · have hone : IsClean (String.singleton c ++ "") := isClean_cons hletter (by simp)
      refine ⟨(String.singleton c ++ "") :: tokens, "", _, ?_, isGap_empty,
        .cons hone hlead (fun _ => hempty) hspaced⟩
      simp [String.append_assoc]

theorem exists_spells (line : String) : ∃ tokens, Spells line tokens := by
  obtain ⟨chars, rfl⟩ : ∃ chars, line = String.ofList chars := ⟨line.toList, by simp⟩
  induction chars with
  | nil => exact ⟨[], "", "", by simp, isGap_empty, .nil⟩
  | cons c rest ih =>
    obtain ⟨tokens, htokens⟩ := ih
    rw [String.ofList_cons]
    exact exists_spells_cons c htokens

/-- **`ofLine_eq_iff`**: the tokens of a line are those that it spells. -/
theorem ofLine_eq_iff {line : String} {tokens : List String} :
    ofLine line = tokens ↔ Spells line tokens := by
  constructor
  · rintro rfl
    obtain ⟨tokens, htokens⟩ := exists_spells line
    rw [htokens.ofLine_eq]
    exact htokens
  · exact Spells.ofLine_eq

theorem spaced_intercalate {tokens : List String} (h : ∀ token ∈ tokens, IsClean token) :
    Spaced tokens (" ".intercalate tokens) := by
  have hspace : IsGap " " := by simp [IsGap, isSeparator]
  induction tokens with
  | nil => exact .nil
  | cons token rest ih =>
    rw [List.forall_mem_cons] at h
    cases rest with
    | nil =>
      have hlast := Spaced.cons h.1 isGap_empty (by simp) .nil
      simpa using hlast
    | cons next more =>
      rw [String.intercalate_cons_cons]
      exact .cons h.1 hspace (by simp) (ih h.2)

end HexMachine.Token
