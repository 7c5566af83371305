import HexMachine.Transcript
import Mathlib.Data.List.Induction

/-!
# The transcript as a window

A transcript under a limit shows the end of what was recorded since it was last drained. Main
statement `window_loses_nothing_uncounted`: after any operations the dumps held are the last ones
recorded since the last drain, as many as the limit allows; and every dump ever recorded is still
held, was handed out, or is counted as let go.

Recording says at once how many dumps have to go. That is what comes of letting the oldest one go
as long as there is no room, `MakesRoom`, unless the limit is zero: then there is never room, and
this would have no end. So a limit of zero is a case of its own.
-/
namespace HexMachine.Transcript

/-! ## Room -/

/-- The transcript can take so many dumps more without letting one go. -/
def HasRoom (transcript : Transcript) (count : Nat) : Prop :=
  ∀ limit, transcript.limit = some limit → transcript.held.length + count ≤ limit

theorem record_of_hasRoom {transcript : Transcript} (h : transcript.HasRoom 1) (dump : Dump) :
    transcript.record dump = { transcript with held := transcript.held ++ [dump] } := by
  unfold record
  split
  · rfl
  · rename_i hlimit
    have := h 0 hlimit
    omega
  · rename_i room hlimit
    have hfits := h (room + 1) hlimit
    have hexcess : transcript.held.length - room = 0 := by omega
    simp [hexcess]

/-- The transcript with the oldest dump let go. -/
def evict (transcript : Transcript) : Transcript :=
  { transcript with held := transcript.held.tail, dropped := transcript.dropped + 1 }

/-- Letting the oldest dump go as long as there is no room for one more comes to an end, with the
second transcript. -/
inductive MakesRoom : Transcript → Transcript → Prop where
  | done {transcript : Transcript} : transcript.HasRoom 1 → MakesRoom transcript transcript
  | evict {transcript roomy : Transcript} :
    ¬ transcript.HasRoom 1 → MakesRoom transcript.evict roomy → MakesRoom transcript roomy

section

variable {transcript roomy : Transcript}

theorem exists_limit_of_not_hasRoom (h : ¬ transcript.HasRoom 1) :
    ∃ limit, transcript.limit = some limit ∧ limit ≤ transcript.held.length := by
  simp only [HasRoom, not_forall] at h
  obtain ⟨limit, hlimit, hfull⟩ := h
  exact ⟨limit, hlimit, by omega⟩

/-- What has to go before a dump can be recorded goes first. -/
theorem record_evict (hlimit : transcript.limit ≠ some 0) (h : ¬ transcript.HasRoom 1)
    (dump : Dump) : transcript.evict.record dump = transcript.record dump := by
  obtain ⟨limit, hsome, hfull⟩ := exists_limit_of_not_hasRoom h
  obtain ⟨room, rfl⟩ : ∃ room, limit = room + 1 := by
    refine Nat.exists_eq_succ_of_ne_zero ?_
    rintro rfl
    exact hlimit hsome
  have hexcess : transcript.held.length - room = transcript.held.tail.length - room + 1 := by
    rw [List.length_tail]
    omega
  simp only [record, evict, hsome, hexcess, ← List.drop_tail]
  rw [Nat.add_right_comm, Nat.add_assoc]

/-- Once there is room, the dump goes to the end. -/
theorem MakesRoom.record_eq (h : transcript.MakesRoom roomy) (hlimit : transcript.limit ≠ some 0)
    (dump : Dump) : transcript.record dump = { roomy with held := roomy.held ++ [dump] } := by
  induction h with
  | done hroom => exact record_of_hasRoom hroom dump
  | evict hfull _ ih => rw [← record_evict hlimit hfull, ih hlimit]

/-- Unless the limit is zero, there is room in the end. -/
theorem exists_makesRoom (hlimit : transcript.limit ≠ some 0) :
    ∃ roomy, transcript.MakesRoom roomy := by
  generalize hcount : transcript.held.length = count
  induction count generalizing transcript with
  | zero =>
    refine ⟨transcript, .done fun limit hsome => ?_⟩
    have hne : limit ≠ 0 := by
      rintro rfl
      exact hlimit hsome
    omega
  | succ count ih =>
    by_cases hroom : transcript.HasRoom 1
    · exact ⟨transcript, .done hroom⟩
    · have hless : transcript.evict.held.length = count := by
        simp only [Transcript.evict, List.length_tail]
        omega
      have hsame : transcript.evict.limit ≠ some 0 := hlimit
      obtain ⟨roomy, hroomy⟩ := ih hsame hless
      exact ⟨roomy, .evict hroom hroomy⟩

/-- Under a limit of zero there is never room, whatever is let go. -/
theorem not_makesRoom (hlimit : transcript.limit = some 0) : ¬ transcript.MakesRoom roomy := by
  intro h
  induction h with
  | done hroom =>
    have := hroom 0 hlimit
    omega
  | evict _ _ ih => exact ih hlimit

end

/-! ## Operations -/

/-- What can be done to a transcript. -/
inductive Op where
  | record (dump : Dump)
  | drain
deriving DecidableEq

/-- The dumps that an operation hands out and the transcript after it. -/
def apply (transcript : Transcript) : Op → List Dump × Transcript
  | .record dump => ([], transcript.record dump)
  | .drain => transcript.drain

/-- The transcript after operations. -/
def applyAll (transcript : Transcript) (ops : List Op) : Transcript :=
  ops.foldl (fun before op => (before.apply op).2) transcript

/-- The dumps that operations hand out, in order. -/
def handedOut (transcript : Transcript) : List Op → List Dump
  | [] => []
  | op :: rest => (transcript.apply op).1 ++ handedOut (transcript.apply op).2 rest

/-- The dump that an operation records. -/
def Op.dump? : Op → Option Dump
  | .record dump => some dump
  | .drain => none

/-- The dumps that operations record, in order. -/
def recorded (ops : List Op) : List Dump := ops.filterMap Op.dump?

/-- The dumps recorded since the last drain, in order. -/
def sinceDrain (ops : List Op) : List Dump :=
  ops.foldl (fun dumps op =>
    match op with
    | .record dump => dumps ++ [dump]
    | .drain => []) []

/-- How many of some dumps a limit lets stay. -/
def kept : Option Nat → Nat → Nat
  | none, count => count
  | some limit, count => min limit count

/-! ## One operation -/

@[simp] theorem apply_limit (transcript : Transcript) (op : Op) :
    (transcript.apply op).2.limit = transcript.limit := by
  cases op with
  | record dump =>
    simp only [apply, record]
    split <;> rfl
  | drain => rfl

/-- The transcript holds the last of some dumps, as many as its limit lets stay. -/
structure IsWindow (transcript : Transcript) (dumps : List Dump) : Prop where
  suffix : transcript.held <:+ dumps
  length : transcript.held.length = kept transcript.limit dumps.length

theorem isWindow_nil {transcript : Transcript} (h : transcript.held = []) :
    transcript.IsWindow [] := by
  refine ⟨by simp [h], ?_⟩
  cases hlimit : transcript.limit <;> simp [h, kept]

theorem IsWindow.record {transcript : Transcript} {dumps : List Dump}
    (h : transcript.IsWindow dumps) (dump : Dump) :
    (transcript.record dump).IsWindow (dumps ++ [dump]) := by
  obtain ⟨⟨front, rfl⟩, hlength⟩ := h
  unfold Transcript.record
  split
  · rename_i hlimit
    rw [hlimit, kept] at hlength
    refine ⟨⟨front, by simp⟩, ?_⟩
    simp only [hlimit, kept, List.length_append] at hlength ⊢
    omega
  · -- nothing is ever held
    rename_i hlimit
    rw [hlimit, kept, Nat.zero_min, List.length_eq_zero_iff] at hlength
    exact ⟨by simp [hlength], by simp [hlength, hlimit, kept]⟩
  · rename_i room hlimit
    refine ⟨⟨front ++ transcript.held.take (transcript.held.length - room), ?_⟩, ?_⟩
    · rw [List.append_assoc, ← List.append_assoc (List.take _ _), List.take_append_drop,
        List.append_assoc]
    · simp only [hlimit, kept, List.length_append, List.length_drop, List.length_singleton]
        at hlength ⊢
      omega

theorem held_record_sublist (transcript : Transcript) (dump : Dump) :
    (transcript.record dump).held.Sublist (transcript.held ++ [dump]) := by
  unfold record
  split
  · exact List.Sublist.refl _
  · exact List.sublist_append_left _ _
  · exact (List.drop_sublist _ _).append_right [dump]

theorem dropped_le_apply (transcript : Transcript) (op : Op) :
    transcript.dropped ≤ (transcript.apply op).2.dropped := by
  cases op with
  | drain => exact Nat.le_refl _
  | record dump =>
    simp only [apply, record]
    split
    · exact Nat.le_refl _
    · exact Nat.le_succ _
    · exact Nat.le_add_right _ _

theorem dropped_apply_of_unlimited {transcript : Transcript} (h : transcript.limit = none)
    (op : Op) : (transcript.apply op).2.dropped = transcript.dropped := by
  cases op with
  | drain => rfl
  | record dump => simp only [apply, record, h]

/-- Every dump that was recorded is held, was handed out or is counted as let go. Those that were not
let go are in the order in which they were recorded. -/
structure IsAccounted (transcript : Transcript) (handed recorded : List Dump) : Prop where
  count : recorded.length = transcript.size + handed.length + transcript.dropped
  order : (handed ++ transcript.held).Sublist recorded

theorem IsAccounted.apply {transcript : Transcript} {handed recorded : List Dump}
    (h : transcript.IsAccounted handed recorded) (op : Op) :
    (transcript.apply op).2.IsAccounted (handed ++ (transcript.apply op).1)
      (recorded ++ op.dump?.toList) := by
  obtain ⟨hcount, horder⟩ := h
  cases op with
  | drain =>
    refine ⟨?_, ?_⟩
    · simp only [Transcript.apply, drain, size, Op.dump?, Option.toList_none, List.append_nil,
        List.length_append, List.length_nil] at hcount ⊢
      omega
    · simpa [Transcript.apply, drain, Op.dump?] using horder
  | record dump =>
    have hsize := transcript.size_record_add_dropped dump
    have hheld := transcript.held_record_sublist dump
    simp only [Transcript.apply, Op.dump?, Option.toList_some, List.append_nil]
    refine ⟨?_, ?_⟩
    · rw [List.length_append, List.length_singleton]
      omega
    · refine (hheld.append_left handed).trans ?_
      rw [← List.append_assoc]
      exact horder.append_right [dump]

/-! ## Runs of operations -/

section

variable (transcript : Transcript) (ops : List Op) (op : Op)

theorem applyAll_append (later : List Op) :
    transcript.applyAll (ops ++ later) = (transcript.applyAll ops).applyAll later := by
  rw [applyAll, List.foldl_append]
  rfl

theorem applyAll_concat :
    transcript.applyAll (ops ++ [op]) = ((transcript.applyAll ops).apply op).2 :=
  transcript.applyAll_append ops [op]

theorem handedOut_concat :
    transcript.handedOut (ops ++ [op]) =
      transcript.handedOut ops ++ ((transcript.applyAll ops).apply op).1 := by
  induction ops generalizing transcript with
  | nil => simp [handedOut, applyAll]
  | cons first rest ih =>
    rw [List.cons_append, handedOut, handedOut, ih, List.append_assoc]
    rfl

theorem recorded_concat : recorded (ops ++ [op]) = recorded ops ++ op.dump?.toList := by
  rw [recorded, List.filterMap_append]
  cases op <;> rfl

theorem applyAll_limit : (transcript.applyAll ops).limit = transcript.limit := by
  induction ops using List.reverseRecOn with
  | nil => rfl
  | append_singleton ops op ih => rw [applyAll_concat, apply_limit, ih]

theorem dropped_le_applyAll : transcript.dropped ≤ (transcript.applyAll ops).dropped := by
  induction ops using List.reverseRecOn with
  | nil => exact Nat.le_refl _
  | append_singleton ops op ih =>
    rw [applyAll_concat]
    exact Nat.le_trans ih (dropped_le_apply _ op)

end

section

variable (limit : Option Nat) (ops : List Op)

theorem isWindow_applyAll : ((empty limit).applyAll ops).IsWindow (sinceDrain ops) := by
  induction ops using List.reverseRecOn with
  | nil => exact isWindow_nil rfl
  | append_singleton ops op ih =>
    rw [applyAll_concat, sinceDrain, List.foldl_append]
    cases op with
    | record dump => exact ih.record dump
    | drain => exact isWindow_nil rfl

theorem isAccounted_applyAll :
    ((empty limit).applyAll ops).IsAccounted ((empty limit).handedOut ops) (recorded ops) := by
  induction ops using List.reverseRecOn with
  | nil => exact ⟨rfl, .slnil⟩
  | append_singleton ops op ih =>
    rw [applyAll_concat, handedOut_concat, recorded_concat]
    exact ih.apply op

theorem dropped_applyAll_of_unlimited : ((empty none).applyAll ops).dropped = 0 := by
  induction ops using List.reverseRecOn with
  | nil => rfl
  | append_singleton ops op ih =>
    have hlimit : ((empty none).applyAll ops).limit = none := applyAll_limit _ ops
    rw [applyAll_concat, dropped_apply_of_unlimited hlimit, ih]

end

/-- **`window_loses_nothing_uncounted`**: after any operations on a fresh transcript, the dumps held
are the last of those recorded since the last drain, and all dumps recorded are held, handed out or
counted as let go. Recording another dump comes to an end: it lets the oldest ones go until there is
room, and under a limit of zero, where there is never room, it does not try. -/
theorem window_loses_nothing_uncounted (limit : Option Nat) (ops : List Op) :
    let transcript := (empty limit).applyAll ops
    (transcript.held <:+ sinceDrain ops ∧
      transcript.held.length = kept limit (sinceDrain ops).length) ∧
    ((transcript.apply .drain).1 = transcript.held ∧ (transcript.apply .drain).2.held = []) ∧
    ((recorded ops).length =
        transcript.size + ((empty limit).handedOut ops).length + transcript.dropped ∧
      ((empty limit).handedOut ops ++ transcript.held).Sublist (recorded ops)) ∧
    (∀ later, transcript.dropped ≤ ((empty limit).applyAll (ops ++ later)).dropped) ∧
    (limit = none → transcript.dropped = 0) ∧
    (∀ dump, limit ≠ some 0 → ∃ roomy, transcript.MakesRoom roomy ∧
      transcript.record dump = { roomy with held := roomy.held ++ [dump] }) ∧
    (∀ dump, limit = some 0 → (∀ roomy, ¬ transcript.MakesRoom roomy) ∧
      transcript.record dump = { transcript with dropped := transcript.dropped + 1 }) := by
  intro transcript
  have hlimit : transcript.limit = limit := applyAll_limit (empty limit) ops
  have hwindow := isWindow_applyAll limit ops
  have haccount := isAccounted_applyAll limit ops
  refine ⟨⟨hwindow.suffix, hlimit ▸ hwindow.length⟩, ⟨rfl, rfl⟩,
    ⟨haccount.count, haccount.order⟩, fun later => ?_, ?_, fun dump hne => ?_, fun dump hzero => ?_⟩
  · rw [applyAll_append]
    exact dropped_le_applyAll _ later
  · rintro rfl
    exact dropped_applyAll_of_unlimited ops
  · rw [← hlimit] at hne
    obtain ⟨roomy, hroomy⟩ := exists_makesRoom hne
    exact ⟨roomy, hroomy, hroomy.record_eq hne dump⟩
  · rw [← hlimit] at hzero
    refine ⟨fun roomy => not_makesRoom hzero, ?_⟩
    simp only [record, hzero]

/-- A limit of two with a drain after three dumps and three more dumps after the drain; the same
under a limit of zero and without a limit. -/
theorem window_loses_nothing_uncounted_drained :
    let dump : Nat → Dump := fun line => ⟨line, []⟩
    let ops : List Op :=
      [.record (dump 1), .record (dump 2), .record (dump 3), .drain, .record (dump 4),
        .record (dump 5), .record (dump 6)]
    let bounded := (empty (some 2)).applyAll ops
    let closed := (empty (some 0)).applyAll ops
    (bounded.held <:+ [dump 4, dump 5, dump 6] ∧ bounded.held.length = 2) ∧
    6 = bounded.size + [dump 2, dump 3].length + bounded.dropped ∧
    (∃ roomy, bounded.MakesRoom roomy ∧
      bounded.record (dump 7) = { roomy with held := roomy.held ++ [dump 7] }) ∧
    (∀ roomy, ¬ closed.MakesRoom roomy) ∧
    ((empty none).applyAll ops).dropped = 0 := by
  intro dump ops bounded closed
  obtain ⟨hwindow, -, ⟨hcount, -⟩, -, -, hrecord, -⟩ := window_loses_nothing_uncounted (some 2) ops
  obtain ⟨-, -, -, -, -, -, hclosed⟩ := window_loses_nothing_uncounted (some 0) ops
  obtain ⟨-, -, -, -, hnone, -⟩ := window_loses_nothing_uncounted none ops
  exact ⟨hwindow, hcount, hrecord (dump 7) (by decide), (hclosed (dump 7) rfl).1, hnone rfl⟩

end HexMachine.Transcript
