import HexMachine.Console

/-!
# What arrives on a channel

A console sees writes, a reader sees the text that arrived on each channel. Cutting a line into
writes changes nothing for the reader: the text of a channel is that of its lines in order. A console
that refuses nothing has in its log exactly what was sent, whatever its state; one that refuses a
write has in its log what was sent before.
-/
namespace HexMachine

/-! ## Texts of logs -/

theorem textOn_eq_join (channel : Channel) (log : Array Write) :
    textOn channel log =
      String.join ((log.toList.filter (·.channel = channel)).map Write.text) := by
  have hfold : ∀ (writes : List Write) (start : String),
      writes.foldl (fun text write =>
        if write.channel = channel then text ++ write.text else text) start =
      start ++ String.join ((writes.filter (·.channel = channel)).map Write.text) := by
    intro writes
    induction writes with
    | nil => simp
    | cons write rest ih =>
      intro start
      by_cases hc : write.channel = channel
      · simp [ih, hc, String.append_assoc]
      · simp [ih, hc]
  rw [textOn, ← Array.foldl_toList, hfold, String.empty_append]

theorem textOn_append (channel : Channel) (first second : Array Write) :
    textOn channel (first ++ second) = textOn channel first ++ textOn channel second := by
  simp [textOn_eq_join]

/-- Empty parts are not sent and not missed. -/
theorem join_filter_ne_empty (texts : List String) :
    String.join (texts.filter (· ≠ "")) = String.join texts := by
  induction texts with
  | nil => rfl
  | cons text rest ih =>
    by_cases h : text = ""
    · rw [List.filter_cons_of_neg (by simp [h]), ih, String.join_cons, h, String.empty_append]
    · rw [List.filter_cons_of_pos (by simp [h]), String.join_cons, ih, String.join_cons]

theorem channel_of_mem_writes {line : OutputLine} {write : Write} (h : write ∈ line.writes) :
    write.channel = line.channel := by
  obtain ⟨part, -, rfl⟩ := List.mem_map.1 h
  rfl

/-- Every write that is sent brings at least one character. -/
theorem text_ne_empty_of_mem_writes {line : OutputLine} {write : Write} (h : write ∈ line.writes) :
    write.text ≠ "" := by
  obtain ⟨part, hpart, rfl⟩ := List.mem_map.1 h
  simpa using (List.mem_filter.1 hpart).2

theorem join_writes (line : OutputLine) : String.join (line.writes.map Write.text) = line.text := by
  rw [OutputLine.writes, List.map_map, OutputLine.text]
  have hparts := join_filter_ne_empty (line.parts ++ ["\n"])
  rw [String.join_append] at hparts
  simpa [Function.comp_def] using hparts

theorem textOn_writes (channel : Channel) (line : OutputLine) :
    textOn channel line.writes.toArray = if line.channel = channel then line.text else "" := by
  rw [textOn_eq_join]
  by_cases hc : line.channel = channel
  · have hall : line.writes.filter (·.channel = channel) = line.writes :=
      List.filter_eq_self.2 fun write hwrite => by simp [channel_of_mem_writes hwrite, hc]
    rw [hall, join_writes, if_pos hc]
  · have hnone : line.writes.filter (·.channel = channel) = [] :=
      List.filter_eq_nil_iff.2 fun write hwrite => by simp [channel_of_mem_writes hwrite, hc]
    rw [hnone, if_neg hc]
    rfl

theorem textOn_flatMap_writes (channel : Channel) (lines : List OutputLine) :
    textOn channel (lines.flatMap OutputLine.writes).toArray =
      String.join (lines.map fun line => if line.channel = channel then line.text else "") := by
  induction lines with
  | nil => rfl
  | cons line rest ih =>
    rw [List.flatMap_cons, ← List.append_toArray, textOn_append, textOn_writes, ih, List.map_cons,
      String.join_cons]

/-- On their own channel lines show as they are. -/
theorem textOn_of_channel {channel : Channel} {lines : List OutputLine}
    (h : ∀ line ∈ lines, line.channel = channel) :
    textOn channel (lines.flatMap OutputLine.writes).toArray =
      String.join (lines.map OutputLine.text) := by
  rw [textOn_flatMap_writes]
  exact congrArg String.join (List.map_congr_left fun line hline => if_pos (h line hline))

/-- On the other channel lines do not show. -/
theorem textOn_of_other_channel {channel : Channel} {lines : List OutputLine}
    (h : ∀ line ∈ lines, line.channel ≠ channel) :
    textOn channel (lines.flatMap OutputLine.writes).toArray = "" := by
  induction lines with
  | nil => rfl
  | cons line rest ih =>
    rw [List.flatMap_cons, ← List.append_toArray, textOn_append, textOn_writes,
      if_neg (h line (by simp)), ih fun later hlater => h later (by simp [hlater])]
    rfl

/-! ## Consoles that refuse nothing -/

/-- The console takes every write in every state. -/
def Console.TakesAll {σ : Type} (console : Console σ) : Prop :=
  ∀ state write, (console.accept state write).isSome

theorem Console.send_of_takesAll {σ : Type} {console : Console σ} (h : console.TakesAll)
    (state : σ) (log : Array Write) (writes : List Write) :
    (console.send state log writes).log = log ++ writes.toArray ∧
      (console.send state log writes).refused = none := by
  induction writes generalizing state log with
  | nil => simp [send]
  | cons write rest ih =>
    obtain ⟨next, hnext⟩ := Option.isSome_iff_exists.1 (h state write)
    obtain ⟨hlog, hrefused⟩ := ih next (log.push write)
    simp only [send, hnext]
    refine ⟨?_, hrefused⟩
    rw [hlog]
    simp

/-! ## Consoles that refuse a write -/

/-- Without a refusal everything is in the log, whatever the console would refuse later. -/
theorem Console.send_of_taken {σ : Type} {console : Console σ} {state : σ} {log : Array Write}
    {writes : List Write} (h : (console.send state log writes).refused = none) :
    (console.send state log writes).log = log ++ writes.toArray := by
  induction writes generalizing state log with
  | nil => simp [send]
  | cons write rest ih =>
    simp only [send] at h ⊢
    cases haccept : console.accept state write with
    | none => simp [haccept] at h
    | some next =>
      simp only [haccept] at h ⊢
      rw [ih h]
      simp

/-- After a refusal the log holds what came before the write that the console refuses in the state
it was left in. -/
theorem Console.send_of_refused {σ : Type} {console : Console σ} {state : σ} {log : Array Write}
    {writes : List Write} {channel : Channel}
    (h : (console.send state log writes).refused = some channel) :
    ∃ taken write unsent, writes = taken ++ write :: unsent ∧
      (console.send state log writes).log = log ++ taken.toArray ∧
      console.accept (console.send state log writes).state write = none ∧
      write.channel = channel := by
  induction writes generalizing state log with
  | nil => cases h
  | cons write rest ih =>
    simp only [send] at h ⊢
    cases haccept : console.accept state write with
    | none =>
      simp only [haccept] at h ⊢
      exact ⟨[], write, rest, rfl, by simp, haccept, Option.some.inj h⟩
    | some next =>
      simp only [haccept] at h ⊢
      obtain ⟨taken, refused, unsent, rfl, hlog, hnone, hchannel⟩ := ih h
      refine ⟨write :: taken, refused, unsent, rfl, ?_, hnone, hchannel⟩
      rw [hlog]
      simp

end HexMachine
