import HexMachine.Proofs.CommandLine.Response
import HexMachine.Proofs.Text

/-!
# What arguments decide

Arguments are read from left to right, and some of them end the reading. Main statement
`arguments_decide_response`: if one of the arguments ends the reading, the first that does decides the
response by itself, and nothing is read to be run. If none does, all that matters is which of the two
flags are among the arguments and which of the other arguments comes last.

Up to the first ending argument the reader only gathers options, `ofArguments_append`. An ending
argument drops them, `ofArguments_ending`, and otherwise they are what the arguments select. Of its
surroundings a request sees what it asks to be read, `respond_congr`.
-/
namespace HexMachine.CommandLine

/-! ## The first argument that ends the reading -/

/-- What an argument that ends the reading asks for. -/
def Request.ofEnding (argument : String) : Request :=
  if argument = "--help" ∨ argument = "-h" then .help else .unknownOption argument

theorem ofArguments_ending {argument : String} (h : EndsReading argument) (options : Options)
    (rest : List String) :
    Request.ofArguments options (argument :: rest) = .ofEnding argument := by
  have hquiet : argument ≠ "--quiet" := by
    rintro rfl
    exact absurd h (by decide)
  have hdecrement : argument ≠ "--true-dec" := by
    rintro rfl
    exact absurd h (by decide)
  rw [Request.ofArguments, if_neg hquiet, if_neg hdecrement, Request.ofEnding]
  by_cases hhelp : argument = "--help" ∨ argument = "-h"
  · rw [if_pos hhelp, if_pos hhelp]
  · -- what is no call for help ends the reading as an option that is not known
    have hoption : isOption argument = true := by
      rcases h with hlong | hshort | ⟨hoption, -⟩
      · exact absurd (.inl hlong) hhelp
      · exact absurd (.inr hshort) hhelp
      · exact hoption
    rw [if_neg hhelp, if_neg hhelp, if_pos hoption]

/-- The first ending argument is all that counts. -/
theorem ofArguments_of_find? {arguments : List String} {argument : String}
    (h : arguments.find? (EndsReading ·) = some argument) :
    Request.ofArguments {} arguments = .ofEnding argument := by
  obtain ⟨hends, before, after, rfl, hbefore⟩ := List.find?_eq_some_iff_append.1 h
  have hread : ∀ earlier ∈ before, ¬ EndsReading earlier := by
    intro earlier hearlier
    simpa using hbefore earlier hearlier
  rw [ofArguments_append hread]
  exact ofArguments_ending (by simpa using hends) _ after

theorem not_endsReading_of_find? {arguments : List String}
    (h : arguments.find? (EndsReading ·) = none) : ∀ argument ∈ arguments, ¬ EndsReading argument := by
  simpa using h

/-- Neither standard input nor a file is read for it. -/
theorem source_ofEnding (argument : String) : (Request.ofEnding argument).source = .nothing := by
  unfold Request.ofEnding
  split <;> rfl

theorem respond_ofEnding (name argument : String) (stdin : List UInt8) (lookup : String → Lookup) :
    (Request.ofEnding argument).respond name stdin lookup =
      if argument = "--help" ∨ argument = "-h" then .ofErrors 0 (usage name)
      else .ofErrors 2 (("Error: Unknown option '" ++ argument ++ "'") :: usage name) := by
  unfold Request.ofEnding
  split <;> rfl

/-! ## What a request sees -/

/-- What is read is the same in two surroundings. -/
def Source.SameIn (source : Source) (stdin stdin' : List UInt8) (lookup lookup' : String → Lookup) :
    Prop :=
  match source with
  | .nothing => True
  | .stdin => stdin = stdin'
  | .file path => lookup path = lookup' path

theorem Source.sameIn_refl (source : Source) (stdin : List UInt8) (lookup : String → Lookup) :
    source.SameIn stdin stdin lookup lookup := by
  cases source with
  | nothing => trivial
  | stdin => rfl
  | file path => rfl

/-- A response depends on what the request asks to be read, and on nothing else around it. -/
theorem respond_congr {request : Request} {stdin stdin' : List UInt8}
    {lookup lookup' : String → Lookup} (h : request.source.SameIn stdin stdin' lookup lookup')
    (name : String) : request.respond name stdin lookup = request.respond name stdin' lookup' := by
  cases request with
  | help => rfl
  | unknownOption option => rfl
  | run options =>
    simp only [Request.source] at h
    cases hfile : options.file with
    | none =>
      rw [hfile] at h
      simp only [Request.respond, hfile, show stdin = stdin' from h]
    | some path =>
      rw [hfile] at h
      simp only [Request.respond, hfile, show lookup path = lookup' path from h]

/-! ## What is left of the other arguments -/

/-- The two lists have the same flags in them, and of their other arguments the same one comes last. -/
structure SameChoice (arguments others : List String) : Prop where
  quiet : "--quiet" ∈ arguments ↔ "--quiet" ∈ others
  trueDecrement : "--true-dec" ∈ arguments ↔ "--true-dec" ∈ others
  file : (positional arguments).getLast? = (positional others).getLast?

theorem SameChoice.selected_eq {arguments others : List String} (h : SameChoice arguments others) :
    selected arguments = selected others := by
  simp only [selected, h.quiet, h.trueDecrement, h.file]

theorem source_ofArguments {arguments : List String}
    (h : ∀ argument ∈ arguments, ¬ EndsReading argument) :
    (Request.ofArguments {} arguments).source = .ofFile (positional arguments).getLast? := by
  rw [ofArguments_eq_selected h]
  rfl

/-- Arguments that do not end the reading decide by their flags and by the last of the others. -/
theorem SameChoice.respond_eq {arguments others : List String} (h : SameChoice arguments others)
    (hread : ∀ argument ∈ arguments, ¬ EndsReading argument)
    (hothers : ∀ argument ∈ others, ¬ EndsReading argument) {stdin stdin' : List UInt8}
    {lookup lookup' : String → Lookup}
    (hinput : (Source.ofFile (positional arguments).getLast?).SameIn stdin stdin' lookup lookup')
    (name : String) : respond name others stdin' lookup' = respond name arguments stdin lookup := by
  rw [← source_ofArguments hread] at hinput
  rw [respond, respond, respond_congr hinput, ofArguments_eq_selected hothers,
    ofArguments_eq_selected hread, h.selected_eq]

/-- An argument that is not an option does not count if another one comes after it. -/
theorem sameChoice_remove {path : String} (hpath : isOption path = false) (before : List String)
    {after : List String} (hafter : positional after ≠ []) :
    SameChoice (before ++ path :: after) (before ++ after) := by
  have hflag : ∀ flag, isOption flag = true → flag ≠ path := by
    rintro flag hflag rfl
    rw [hpath] at hflag
    cases hflag
  refine ⟨?_, ?_, ?_⟩
  · simp [hflag "--quiet" (by decide)]
  · simp [hflag "--true-dec" (by decide)]
  · obtain ⟨first, rest, hrest⟩ := List.exists_cons_of_ne_nil hafter
    simp only [positional] at hrest
    simp [positional, hpath, hrest]

/-- **`arguments_decide_response`**: the first argument that ends the reading gives the response, and
nothing is read. If there is none, arguments with the same flags among them and the same last one of
the others have the same response wherever what they ask to be read is the same; so a flag may be
given anywhere and again, and an argument other than a flag may be left out if another one follows. -/
theorem arguments_decide_response (name : String) (arguments : List String) (stdin : List UInt8)
    (lookup : String → Lookup) :
    let response := respond name arguments stdin lookup
    let help := String.join
      ["Usage: " ++ name ++ " [OPTIONS] [FILE]\n",
        "\n",
        "Reads an instruction count followed by that many lines from FILE,\n",
        "or from stdin when no file is given.\n",
        "\n",
        "Options:\n",
        "  --quiet      Do not print memory dumps\n",
        "  --true-dec   Make DEC subtract one instead of the legacy +2\n",
        "  --help       Show this message\n"]
    (∀ argument, arguments.find? (EndsReading ·) = some argument →
      ((argument = "--help" ∨ argument = "-h") → response.code = 0 ∧ response.stderr = help) ∧
      (¬ (argument = "--help" ∨ argument = "-h") → response.code = 2 ∧
        response.stderr = "Error: Unknown option '" ++ argument ++ "'\n" ++ help) ∧
      response.stdout = "" ∧
      (Request.ofArguments {} arguments).source = .nothing ∧
      ∀ before after stdin' lookup', (∀ earlier ∈ before, ¬ EndsReading earlier) →
        respond name (before ++ argument :: after) stdin' lookup' = response) ∧
    (arguments.find? (EndsReading ·) = none →
      let source := Source.ofFile (positional arguments).getLast?
      (Request.ofArguments {} arguments).source = source ∧
      (∀ others stdin' lookup', others.find? (EndsReading ·) = none →
        SameChoice arguments others → source.SameIn stdin stdin' lookup lookup' →
        respond name others stdin' lookup' = response) ∧
      ∀ before path after, arguments = before ++ path :: after → isOption path = false →
        positional after ≠ [] → respond name (before ++ after) stdin lookup = response) := by
  intro response help
  have husage : String.join ((usage name).map (· ++ "\n")) = help := by
    simp only [usage, help, List.map_cons, List.map_nil, String.append_assoc]
    rfl
  constructor
  · intro argument hfirst
    have hends : EndsReading argument := by simpa using List.find?_some hfirst
    have hrequest := ofArguments_of_find? hfirst
    have hresponse : response = (Request.ofEnding argument).respond name stdin lookup := by
      rw [← hrequest]
      rfl
    rw [respond_ofEnding] at hresponse
    refine ⟨?_, ?_, ?_, ?_, ?_⟩
    · intro hhelp
      rw [hresponse, if_pos hhelp, Response.stderr_ofErrors]
      exact ⟨rfl, husage⟩
    · intro hhelp
      have hend : "Error: Unknown option '" ++ argument ++ "'" ++ "\n" =
          "Error: Unknown option '" ++ argument ++ "'\n" := by
        rw [String.append_assoc]
        rfl
      rw [hresponse, if_neg hhelp, Response.stderr_ofErrors, List.map_cons, String.join_cons,
        husage, hend]
      exact ⟨rfl, rfl⟩
    · rw [hresponse]
      split <;> exact Response.stdout_ofErrors _ _
    · rw [hrequest, source_ofEnding]
    · intro before after stdin' lookup' hbefore
      rw [respond, ofArguments_append hbefore, ofArguments_ending hends, respond_ofEnding, hresponse]
  · intro hnone source
    have hread := not_endsReading_of_find? hnone
    refine ⟨source_ofArguments hread, ?_, ?_⟩
    · intro others stdin' lookup' hothers hchoice hinput
      exact hchoice.respond_eq hread (not_endsReading_of_find? hothers) hinput name
    · rintro before path after rfl hpath hafter
      refine (sameChoice_remove hpath before hafter).respond_eq hread ?_ (Source.sameIn_refl _ _ _) name
      intro argument hargument
      refine hread argument ?_
      simp only [List.mem_append, List.mem_cons] at hargument ⊢
      rcases hargument with hbefore | hlater
      · exact .inl hbefore
      · exact .inr (.inr hlater)

/-- An unknown option comes before a call for help; and a file that does not exist is named before the
flags, which are given again after it. -/
theorem arguments_decide_response_repeated :
    let respond := respond "hexasm"
    let lookup := fun path => if path = "-p" then Lookup.file (Text.bytes "1\nA DB 1") else .missing
    let arguments := ["gone", "--quiet", "--true-dec", "-p"]
    let others := ["--true-dec", "--quiet", "-p", "--true-dec"]
    (["gone", "--quiet", "--nope", "-h"].find? (EndsReading ·) = some "--nope" ∧
      (respond ["gone", "--quiet", "--nope", "-h"] [] lookup).code = 2 ∧
      respond ["--nope"] [0xff] lookup = respond ["gone", "--quiet", "--nope", "-h"] [] lookup) ∧
    SameChoice arguments others ∧ (Source.file "-p").SameIn [] [0xff] lookup lookup ∧
    respond others [0xff] lookup = respond arguments [] lookup ∧
    positional ["--quiet", "--true-dec", "-p"] ≠ [] ∧
    respond ["--quiet", "--true-dec", "-p"] [] lookup = respond arguments [] lookup := by
  intro respond lookup arguments others
  have hfirst : ["gone", "--quiet", "--nope", "-h"].find? (EndsReading ·) = some "--nope" := by decide
  have hchoice : SameChoice arguments others := ⟨by decide, by decide, by decide⟩
  have hinput : (Source.file "-p").SameIn [] [0xff] lookup lookup := rfl
  obtain ⟨-, hcode, -, -, halone⟩ :=
    (arguments_decide_response "hexasm" ["gone", "--quiet", "--nope", "-h"] [] lookup).1 "--nope" hfirst
  obtain ⟨-, hsame, hremove⟩ := (arguments_decide_response "hexasm" arguments [] lookup).2 (by decide)
  exact ⟨⟨hfirst, (hcode (by decide)).1, halone [] [] [0xff] lookup (by simp)⟩, hchoice, hinput,
    hsame others [0xff] lookup (by decide) hchoice hinput, by decide,
    hremove [] "gone" _ rfl (by decide) (by decide)⟩

end HexMachine.CommandLine
