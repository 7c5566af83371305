import HexMachine.Proofs.Token
import Mathlib.Data.List.Forall2

/-!
# Tokens are maximal runs

A run of characters other than separators that cannot be made longer in its line is maximal. Main
statement `tokens_are_maximal_runs`: the tokens of a line are its maximal runs, from left to right.
So it does not matter which separators stand between them, and all that gets lost of a line is its
separators.

Where the runs are is found by following `Spaced`, which lays the line out as tokens and gaps.
-/
namespace HexMachine.Token

/-- Between what is before it and what is behind it in a line, a text is a maximal run: it is clean,
and both ends are at a separator or at an end of the line. -/
structure MaximalRun (front token back : String) : Prop where
  clean : IsClean token
  before : ∀ c, front.toList.getLast? = some c → isSeparator c = true
  behind : ∀ c, back.toList.head? = some c → isSeparator c = true

/-- Place by place, two lines have the same character or two separators. -/
def Exchanged (line other : String) : Prop :=
  List.Forall₂ (fun c d => c = d ∨ isSeparator c = true ∧ isSeparator d = true) line.toList
    other.toList

/-! ## Cutting at a separator -/

theorem ofLine_of_isGap {gap : String} (h : IsGap gap) : ofLine gap = [] := by
  have hgap := ofLine_gap_append h ""
  rw [String.append_empty] at hgap
  exact hgap

/-- A line has no token if and only if it holds separators only. -/
theorem ofLine_eq_nil_iff {line : String} : ofLine line = [] ↔ IsGap line := by
  constructor
  · intro h
    obtain ⟨lead, text, rfl, hlead, hspaced⟩ := ofLine_eq_iff.1 h
    cases hspaced
    rwa [String.append_empty]
  · exact ofLine_of_isGap

theorem ofLine_append_of_before {front : String}
    (h : ∀ c, front.toList.getLast? = some c → isSeparator c = true) (text : String) :
    ofLine (front ++ text) = ofLine front ++ ofLine text := by
  rcases List.eq_nil_or_concat' front.toList with hnil | ⟨chars, c, hchars⟩
  · obtain rfl : front = "" := by simpa using hnil
    rw [String.empty_append, ofLine_of_isGap isGap_empty, List.nil_append]
  · have hc : isSeparator c = true := h c (by simp [hchars])
    obtain rfl : front = String.ofList chars ++ String.singleton c := by
      rw [← String.toList_inj, hchars]
      simp
    have halone := ofLine_append_separator (String.ofList chars) "" hc
    rw [String.append_empty, ofLine_of_isGap isGap_empty, List.append_nil] at halone
    rw [halone, ofLine_append_separator _ text hc]

theorem ofLine_append_of_behind {back : String}
    (h : ∀ c, back.toList.head? = some c → isSeparator c = true) (text : String) :
    ofLine (text ++ back) = ofLine text ++ ofLine back := by
  cases hchars : back.toList with
  | nil =>
    obtain rfl : back = "" := by simpa using hchars
    rw [String.append_empty, ofLine_of_isGap isGap_empty, List.append_nil]
  | cons c rest =>
    have hc : isSeparator c = true := h c (by simp [hchars])
    obtain rfl : back = String.singleton c ++ String.ofList rest := by
      rw [← String.ofList_cons, ← hchars, String.ofList_toList]
    have halone := ofLine_append_separator "" (String.ofList rest) hc
    rw [String.empty_append, ofLine_of_isGap isGap_empty, List.nil_append] at halone
    rw [halone, ← String.append_assoc, ofLine_append_separator text _ hc]

/-! ## Runs -/

/-- A maximal run is a token, between the tokens before it and those behind it. -/
theorem MaximalRun.ofLine_eq {front token back : String} (h : MaximalRun front token back) :
    ofLine (front ++ token ++ back) = ofLine front ++ token :: ofLine back := by
  rw [ofLine_append_of_behind h.behind, ofLine_append_of_before h.before, ofLine_of_isClean h.clean,
    List.append_assoc, List.singleton_append]

/-- Every token in a text of tokens and gaps is a maximal run, wherever the text starts after a gap.
The induction is on the tokens before it: the gap after the first of them is the one before the
rest of the text. -/
theorem Spaced.exists_maximalRun {before behind : List String} {token text lead : String}
    (h : Spaced (before ++ token :: behind) text) (hlead : IsGap lead) :
    ∃ body back, text = body ++ token ++ back ∧ MaximalRun (lead ++ body) token back ∧
      ofLine body = before ∧ ofLine back = behind := by
  induction before generalizing text lead with
  | nil =>
    cases h with
    | @cons _ gap text _ hclean hgap hapart hrest =>
      refine ⟨"", gap ++ text, ?_, ⟨hclean, ?_, ?_⟩, ofLine_of_isGap isGap_empty, ?_⟩
      · rw [String.empty_append, String.append_assoc]
      · intro c hc
        rw [String.append_empty] at hc
        exact hlead c (List.mem_of_getLast? hc)
      · intro c hc
        rw [String.toList_append, List.head?_append] at hc
        cases hfirst : gap.toList.head? with
        | some d =>
          rw [hfirst, Option.some_or, Option.some.injEq] at hc
          exact hgap c (hc ▸ List.mem_of_head? hfirst)
        | none =>
          -- without a gap the token is the last one, and nothing is behind it
          have hempty : gap = "" := by simpa using hfirst
          have hlast : behind = [] := Decidable.byContradiction fun hne => hapart hne hempty
          subst hlast
          cases hrest
          rw [hfirst] at hc
          cases hc
      · rw [ofLine_gap_append hgap, hrest.ofLine_eq]
  | cons first before ih =>
    cases h with
    | @cons _ gap text _ hclean hgap hapart hrest =>
      have hne : gap ≠ "" := hapart (by simp)
      have hchars : gap.toList ≠ [] := by simpa using hne
      obtain ⟨body, back, rfl, hrun, hbefore, hbehind⟩ := ih hrest hgap
      refine ⟨first ++ gap ++ body, back, ?_, ⟨hrun.clean, ?_, hrun.behind⟩, ?_, hbehind⟩
      · simp only [String.append_assoc]
      · intro c hc
        have hbody : lead ++ (first ++ gap ++ body) = lead ++ first ++ (gap ++ body) := by
          simp only [String.append_assoc]
        rw [hbody, String.toList_append, List.getLast?_append_of_ne_nil] at hc
        · exact hrun.before c hc
        · simp [hchars]
      · rw [ofLine_append_gap_append hgap hne, ofLine_of_isClean hclean, hbefore,
          List.singleton_append]

theorem ofLine_eq_append_cons_iff {line token : String} {before behind : List String} :
    ofLine line = before ++ token :: behind ↔
      ∃ front back, line = front ++ token ++ back ∧ MaximalRun front token back ∧
        ofLine front = before ∧ ofLine back = behind := by
  constructor
  · intro h
    obtain ⟨lead, text, rfl, hlead, hspaced⟩ := ofLine_eq_iff.1 h
    obtain ⟨body, back, rfl, hrun, hbefore, hbehind⟩ := hspaced.exists_maximalRun hlead
    refine ⟨lead ++ body, back, ?_, hrun, ?_, hbehind⟩
    · simp only [String.append_assoc]
    · rw [ofLine_gap_append hlead, hbefore]
  · rintro ⟨front, back, rfl, hrun, rfl, rfl⟩
    exact hrun.ofLine_eq

/-! ## Separators -/

/-- Nothing is cut off a line but its separators. -/
theorem flatten_pieces (line : List Char) :
    (pieces line).flatten = line.filter fun c => !isSeparator c := by
  rw [pieces_eq_splitOnP]
  induction line with
  | nil => rfl
  | cons c rest ih =>
    rw [List.splitOnP_cons_eq_if_modifyHead]
    by_cases hc : isSeparator c = true
    · simp [hc, ih]
    · obtain ⟨piece, more, hmore⟩ :=
        List.exists_cons_of_ne_nil (List.splitOnP_ne_nil isSeparator rest)
      rw [hmore] at ih
      simp only [List.flatten_cons] at ih
      simp [hc, hmore, ih]

theorem join_ofLine (line : String) :
    String.join (ofLine line) = String.ofList (line.toList.filter fun c => !isSeparator c) := by
  rw [← flatten_pieces, ← String.toList_inj, String.toList_join, String.toList_ofList, ofLine,
    ← List.flatten_filter_ne_nil (L := pieces line.toList), List.flatMap_map]
  simp

/-- It does not matter at which separator a line is cut. -/
theorem Exchanged.pieces_eq {line other : String} (h : Exchanged line other) :
    pieces other.toList = pieces line.toList := by
  rw [pieces_eq_splitOnP, pieces_eq_splitOnP]
  unfold Exchanged at h
  generalize line.toList = chars at h ⊢
  generalize other.toList = others at h ⊢
  induction h with
  | nil => rfl
  | cons hchars hrest ih =>
    rw [List.splitOnP_cons_eq_if_modifyHead, List.splitOnP_cons_eq_if_modifyHead, ih]
    rcases hchars with rfl | ⟨hc, hd⟩
    · rfl
    · rw [if_pos hc, if_pos hd]

/-! ## The tokens of a line -/

/-- **`tokens_are_maximal_runs`**: the tokens of a line are the clean texts that it spells with gaps
around and between them, and there is always such a spelling. Every token is a maximal run of the
line, and every maximal run is a token, between the tokens before it and those behind it. Cutting at
spaces and then at commas is one cut at both; other separators in the places of those that are there
leave the tokens as they are; and put together, the tokens are the line without its separators. -/
theorem tokens_are_maximal_runs (line : String) :
    (∀ tokens, Spells line tokens → ofLine line = tokens) ∧
    Spells line (ofLine line) ∧
    (∀ before token behind, ofLine line = before ++ token :: behind ↔
      ∃ front back, line = front ++ token ++ back ∧ MaximalRun front token back ∧
        ofLine front = before ∧ ofLine back = behind) ∧
    (pieces line.toList = line.toList.splitOnP isSeparator ∧
      ofLine line = ((line.toList.splitOnP isSeparator).filter (· ≠ [])).map String.ofList) ∧
    (∀ other, Exchanged line other → ofLine other = ofLine line) ∧
    String.join (ofLine line) = String.ofList (line.toList.filter fun c => !isSeparator c) := by
  have honce := pieces_eq_splitOnP line.toList
  refine ⟨fun tokens h => h.ofLine_eq, ofLine_eq_iff.1 rfl, fun _ _ _ => ofLine_eq_append_cons_iff,
    ⟨honce, ?_⟩, fun other h => ?_, join_ofLine line⟩
  · rw [← honce]
    rfl
  · rw [ofLine, h.pieces_eq]
    rfl

/-- A line with gaps of all kinds and a tab, which is part of its token: what it spells, the run of
its second token, and the same tokens with every separator exchanged. -/
theorem tokens_are_maximal_runs_tab :
    let line := " ,MOV\tA,, B "
    let other := ",,MOV\tA, ,B,"
    Spells line ["MOV\tA", "B"] ∧ ofLine line = ["MOV\tA", "B"] ∧
    (∃ front back, line = front ++ "B" ++ back ∧ MaximalRun front "B" back ∧
      ofLine front = ["MOV\tA"] ∧ ofLine back = []) ∧
    Exchanged line other ∧ ofLine other = ofLine line := by
  intro line other
  obtain ⟨hspelled, -, hruns, -, hexchanged, -⟩ := tokens_are_maximal_runs line
  have hlast : Spaced ["B"] ("B" ++ " " ++ "") :=
    .cons (by simp [IsClean, isSeparator]) (by simp [IsGap, isSeparator]) (by decide) .nil
  have hspaced : Spaced ["MOV\tA", "B"] ("MOV\tA" ++ ",, " ++ ("B" ++ " " ++ "")) :=
    .cons (by simp [IsClean, isSeparator]) (by simp [IsGap, isSeparator]) (by decide) hlast
  have hspells : Spells line ["MOV\tA", "B"] :=
    ⟨" ,", _, by decide, by simp [IsGap, isSeparator], hspaced⟩
  have hexchange : Exchanged line other := by simp [Exchanged, isSeparator, line, other]
  have htokens := hspelled _ hspells
  exact ⟨hspells, htokens, (hruns ["MOV\tA"] "B" []).1 htokens, hexchange, hexchanged other hexchange⟩

end HexMachine.Token
