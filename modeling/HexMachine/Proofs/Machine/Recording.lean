import HexMachine.Proofs.Machine.Streaming

/-!
# Recording has no influence

Whether dumps are recorded, and how many are kept, is for the transcript alone. Main statement
`recording_has_no_influence`: take two fresh machines that decrement by the same rule and record as
they may, and do the same to both. Whatever comes next, they have the same faults, the same
summaries and the same err text, and they are alike after every line.

Machines that are alike have the same effect on every line, `Alike.lineEffect_eq`. What is left to
show is that the three ways to hand lines to a machine make no use of its transcript either, except
for the out text.
-/
namespace HexMachine

namespace Machine

/-! ## Running -/

theorem Alike.runLine {s t : Summary × Machine} (hsummary : s.1 = t.1) (h : s.2.Alike t.2)
    (line : String) :
    (Machine.runLine s line).1 = (Machine.runLine t line).1 ∧
      (Machine.runLine s line).2.Alike (Machine.runLine t line).2 := by
  obtain ⟨hfault, hnext⟩ := h.execute line
  simp only [Machine.runLine, hfault, hsummary]
  exact ⟨t.1.note_congr line hnext.line _, hnext⟩

theorem Alike.foldl_runLine {s t : Summary × Machine} (hsummary : s.1 = t.1) (h : s.2.Alike t.2)
    (lines : List String) :
    (lines.foldl Machine.runLine s).1 = (lines.foldl Machine.runLine t).1 ∧
      (lines.foldl Machine.runLine s).2.Alike (lines.foldl Machine.runLine t).2 := by
  induction lines generalizing s t with
  | nil => exact ⟨hsummary, h⟩
  | cons line rest ih =>
    obtain ⟨hnext, hlike⟩ := Alike.runLine hsummary h line
    exact ih hnext hlike

theorem Alike.run {a b : Machine} (h : a.Alike b) (lines : List String) :
    (a.run lines).1 = (b.run lines).1 ∧ (a.run lines).2.Alike (b.run lines).2 :=
  Alike.foldl_runLine (s := ({}, a)) (t := ({}, b)) rfl h lines

end Machine

/-! ## Streaming -/

/-- Two streaming runs that stand at the same point and have reported the same; what they have sent
out may differ. -/
structure SameReport (a b : Printout) : Prop where
  alike : a.machine.Alike b.machine
  summary : a.summary = b.summary
  err : textOn .err a.log = textOn .err b.log

theorem SameReport.next {a b : Printout} (h : SameReport a b) (line : String) :
    SameReport (a.next line) (b.next line) := by
  obtain ⟨hfault, hnext⟩ := h.alike.emit line
  have hreport := (h.alike.execute line).1
  refine ⟨hnext, ?_, ?_⟩
  · simp only [Printout.next, hfault, h.summary]
    exact b.summary.note_congr line hnext.line _
  · simp only [Printout.next, textOn_append, Machine.textOn_err_emit, h.err, hreport]

theorem SameReport.foldl {a b : Printout} (h : SameReport a b) (lines : List String) :
    SameReport (lines.foldl Printout.next a) (lines.foldl Printout.next b) := by
  induction lines generalizing a b with
  | nil => exact h
  | cons line rest ih => exact ih (h.next line)

namespace Machine

section

variable {σ τ : Type} {console : Console σ} {other : Console τ}

/-- Machines that are alike report the same to consoles that take everything. -/
theorem Alike.stream {a b : Machine} (h : a.Alike b) (hconsole : console.TakesAll)
    (hother : other.TakesAll) (start : σ) (origin : τ) (lines : List String) :
    SameReport (a.stream console start lines).printout (b.stream other origin lines).printout := by
  have hstart : SameReport ⟨a, #[], {}⟩ ⟨b, #[], {}⟩ := ⟨h, rfl, rfl⟩
  rw [printout_stream hconsole, printout_stream hother]
  exact hstart.foldl lines

end

/-! ## Doing the same to two machines -/

/-- Two machines to which the same was done from fresh ones on: lines were executed one by one, run
as a list or streamed, in any order. The consoles took everything, but need not be the same. -/
inductive Twins (first second : Settings) : Machine → Machine → Prop where
  | fresh : Twins first second (fresh first) (fresh second)
  | execute {a b : Machine} (line : String) :
    Twins first second a b → Twins first second (a.execute line).machine (b.execute line).machine
  | run {a b : Machine} (lines : List String) :
    Twins first second a b → Twins first second (a.run lines).2 (b.run lines).2
  | stream {a b : Machine} {σ τ : Type} {console : Console σ} {other : Console τ}
      (hconsole : console.TakesAll) (hother : other.TakesAll) (start : σ) (origin : τ)
      (lines : List String) :
    Twins first second a b →
      Twins first second (a.stream console start lines).progress.machine
        (b.stream other origin lines).progress.machine

theorem Twins.alike {first second : Settings} (hrule : first.decrement = second.decrement)
    {a b : Machine} (h : Twins first second a b) : a.Alike b := by
  induction h with
  | fresh => exact ⟨rfl, rfl, hrule⟩
  | execute line _ ih => exact (ih.execute line).2
  | run lines _ ih => exact (ih.run lines).2
  | stream hconsole hother start origin lines _ ih =>
    exact (ih.stream hconsole hother start origin lines).alike

/-- **`recording_has_no_influence`**: two settings have the same decrement rule and may record as
they like. After the same was done to fresh machines with these settings, the stores and the counts
of lines are equal. A line has the same fault on both; a list of lines has the same summary on both,
run or streamed, and the same err text when streamed to consoles that take everything; and after
each line of the list the two machines are alike again. -/
theorem recording_has_no_influence (first second : Settings)
    (hrule : first.decrement = second.decrement) (a b : Machine) (h : Twins first second a b) :
    (a.store = b.store ∧ a.line = b.line) ∧
    (∀ line, (a.execute line).fault = (b.execute line).fault ∧
      (a.execute line).machine.Alike (b.execute line).machine) ∧
    (∀ lines, (a.run lines).1 = (b.run lines).1 ∧
      ∀ count, (a.run (lines.take count)).2.Alike (b.run (lines.take count)).2) ∧
    (∀ (σ τ : Type) (console : Console σ) (other : Console τ) (start : σ) (origin : τ),
      console.TakesAll → other.TakesAll → ∀ lines : List String,
      ((a.stream console start lines).refused = none ∧
        (b.stream other origin lines).refused = none) ∧
      (a.stream console start lines).progress.summary =
        (b.stream other origin lines).progress.summary ∧
      textOn .err (a.stream console start lines).progress.log =
        textOn .err (b.stream other origin lines).progress.log ∧
      ∀ count, (a.stream console start (lines.take count)).progress.machine.Alike
        (b.stream other origin (lines.take count)).progress.machine) := by
  have halike := h.alike hrule
  refine ⟨⟨halike.store, halike.line⟩, halike.execute, ?_, ?_⟩
  · intro lines
    exact ⟨(halike.run lines).1, fun count => (halike.run (lines.take count)).2⟩
  · intro σ τ console other start origin hconsole hother lines
    have hsame := halike.stream hconsole hother start origin lines
    refine ⟨⟨?_, ?_⟩, hsame.summary, hsame.err, fun count => ?_⟩
    · exact refused_stream hconsole start a lines
    · exact refused_stream hother origin b lines
    · exact (halike.stream hconsole hother start origin (lines.take count)).alike

/-- One machine holds one dump at most, the other records none. On both, two names are declared by
streaming and one is decremented by running; then come another decrement, a division by zero and a
line that cannot be read. -/
theorem recording_has_no_influence_decrement :
    let first : Settings := { dumpLimit := some 1 }
    let second : Settings := { recordDumps := false }
    let a := (((fresh first).stream .unlimited () ["A DB ff", "Z DB 0"]).progress.machine.run
      ["DEC A"]).2
    let b := (((fresh second).stream .unlimited () ["A DB ff", "Z DB 0"]).progress.machine.run
      ["DEC A"]).2
    let lines := ["DEC A", "DIV A Z", "A B"]
    a ≠ b ∧ (a.run lines).1 = (b.run lines).1 ∧
    textOn .err (a.stream .unlimited () lines).progress.log =
      textOn .err (b.stream (.limited none none) {} lines).progress.log := by
  intro first second a b lines
  have htakes : Console.unlimited.TakesAll := fun _ _ => rfl
  have hlimited : (Console.limited none none).TakesAll := by
    rintro taken ⟨channel, text⟩
    cases channel <;> rfl
  have htwins : Twins first second a b :=
    (Twins.fresh.stream htakes htakes () () ["A DB ff", "Z DB 0"]).run ["DEC A"]
  obtain ⟨-, -, hrun, hstream⟩ := recording_has_no_influence first second rfl a b htwins
  obtain ⟨-, -, herr, -⟩ := hstream Unit Console.LineCount .unlimited (.limited none none) () {}
    htakes hlimited lines
  exact ⟨by decide, (hrun lines).1, herr⟩

end Machine

end HexMachine
