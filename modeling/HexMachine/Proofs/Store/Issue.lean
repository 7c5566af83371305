import HexMachine.Proofs.Store.Gapless

/-!
# The history of keys

A key that its name has given up is in neither table any more, so no single store can tell that it
will not come back. This is said of whole runs here. An operation issues a key if its name has that
key afterwards and had it not before, and `issued` lists the keys of a run in order of issue. Main
statement `keys_issued_once`: the list is 1, 2, 3, …, and over the whole run a key is held by one
name, without a break.

What carries it is the counter. It stands one past the number of keys issued, and the key that an
operation issues is the one it stands at, whatever has been removed. Keys are natural numbers here,
so the counter has no end.
-/
namespace HexMachine.Store

/-! ## One operation -/

/-- The key that the name of an operation has after it and had not before. -/
def issue? (store : Store) (op : Op) : Option Key :=
  if (store.apply op).key? op.name = store.key? op.name then none
  else (store.apply op).key? op.name

theorem key?_apply_of_ne (store : Store) {op : Op} {name : String} (h : op.name ≠ name) :
    (store.apply op).key? name = store.key? name := by
  cases op with
  | set written content => exact (store.key?_set written content name).trans (if_neg h)
  | remove removed =>
    simp only [apply, remove]
    split
    · exact Table.find?_erase_of_ne h store.keys
    · rfl

/-- A key that a name has after an operation is one it had before or the one just issued. -/
theorem key?_apply_cases {store : Store} {op : Op} {name : String} {key : Key}
    (h : (store.apply op).key? name = some key) :
    store.key? name = some key ∨ store.issue? op = some key := by
  by_cases hname : op.name = name
  · subst hname
    by_cases hsame : (store.apply op).key? op.name = store.key? op.name
    · exact .inl (hsame ▸ h)
    · exact .inr (by rw [issue?, if_neg hsame, h])
  · rw [key?_apply_of_ne store hname] at h
    exact .inl h

/-- A write issues a key to a name that is not bound, namely the next one. -/
theorem issue?_set (store : Store) (name : String) (content : Content) :
    store.issue? (.set name content) =
      if store.key? name = none then some ⟨store.nextKey⟩ else none := by
  have hkey := store.key?_set name content name
  rw [if_pos rfl] at hkey
  simp only [issue?, apply, Op.name, hkey]
  cases store.key? name with
  | none => simp
  | some key => simp

namespace Aligned

variable {store : Store}

theorem issue?_remove (h : store.Aligned) (name : String) : store.issue? (.remove name) = none := by
  have hkey : (store.apply (.remove name)).key? name = none := h.key?_remove_self name
  simp only [issue?, Op.name, hkey, ite_self]

theorem issue?_eq_next (h : store.Aligned) {op : Op} {key : Key} (hissue : store.issue? op = some key) :
    key = ⟨store.nextKey⟩ := by
  cases op with
  | set name content =>
    rw [issue?_set] at hissue
    split at hissue
    · exact (Option.some.inj hissue).symm
    · cases hissue
  | remove name =>
    rw [h.issue?_remove] at hissue
    cases hissue

/-- The counter counts the keys that are issued. -/
theorem nextKey_apply (h : store.Aligned) (op : Op) :
    (store.apply op).nextKey = store.nextKey + (store.issue? op).toList.length := by
  cases op with
  | set name content =>
    rw [issue?_set]
    cases hkey : store.key? name with
    | none => simp [Store.apply, Store.set, hkey, Store.writeCell, Store.bindNext]
    | some key => simp [Store.apply, Store.set, hkey, Store.writeCell]
  | remove name =>
    rw [h.issue?_remove]
    simp only [Store.apply, Store.remove]
    split <;> rfl

/-- A key below the counter is not given to another name. -/
theorem key?_of_apply (h : store.Aligned) {op : Op} {name : String} {key : Key}
    (hlt : key.index < store.nextKey) (hafter : (store.apply op).key? name = some key) :
    store.key? name = some key := by
  rcases key?_apply_cases hafter with hbefore | hissue
  · exact hbefore
  · rw [h.issue?_eq_next hissue] at hlt
    exact absurd hlt (Nat.lt_irrefl _)

end Aligned

/-! ## Runs of operations -/

/-- The keys that operations issue, in order of issue. -/
def issuedFrom (store : Store) : List Op → List Key
  | [] => []
  | op :: rest => (store.issue? op).toList ++ issuedFrom (store.apply op) rest

/-- The keys that operations on the empty store issue, in order of issue. -/
def issued (ops : List Op) : List Key := issuedFrom empty ops

theorem issuedFrom_concat (store : Store) (ops : List Op) (op : Op) :
    issuedFrom store (ops ++ [op]) =
      issuedFrom store ops ++ ((ops.foldl apply store).issue? op).toList := by
  induction ops generalizing store with
  | nil => simp [issuedFrom]
  | cons first rest ih =>
    rw [List.cons_append, issuedFrom, issuedFrom, ih, List.append_assoc, List.foldl_cons]

theorem issued_concat (ops : List Op) (op : Op) :
    issued (ops ++ [op]) = issued ops ++ ((after ops).issue? op).toList :=
  issuedFrom_concat empty ops op

theorem after_append (ops later : List Op) :
    after (ops ++ later) = later.foldl apply (after ops) := by
  rw [after, List.foldl_append]
  rfl

theorem nextKey_after (ops : List Op) : (after ops).nextKey = (issued ops).length + 1 := by
  induction ops using List.reverseRecOn with
  | nil => rfl
  | append_singleton ops op ih =>
    rw [after_concat, (aligned_after ops).nextKey_apply, ih, issued_concat, List.length_append]
    omega

/-- In order of issue the keys are 1, 2, 3, … -/
theorem issued_eq_range (ops : List Op) :
    issued ops = (List.range' 1 (issued ops).length).map Key.mk := by
  induction ops using List.reverseRecOn with
  | nil => rfl
  | append_singleton ops op ih =>
    rw [issued_concat]
    cases hissue : (after ops).issue? op with
    | none => simpa using ih
    | some key =>
      have hkey := (aligned_after ops).issue?_eq_next hissue
      rw [nextKey_after] at hkey
      simp only [Option.toList_some, List.length_append, List.length_singleton,
        List.range'_1_concat, List.map_append, List.map_singleton]
      rw [← ih, hkey, Nat.add_comm]

theorem index_le_of_mem_issued {ops : List Op} {key : Key} (h : key ∈ issued ops) :
    key.index ≤ (issued ops).length := by
  rw [issued_eq_range] at h
  obtain ⟨index, hindex, rfl⟩ := List.mem_map.1 h
  have hbounds := List.mem_range'_1.1 hindex
  show index ≤ _
  omega

/-- Every key that a name has was issued. -/
theorem mem_issued_of_key? {ops : List Op} {name : String} {key : Key}
    (h : (after ops).key? name = some key) : key ∈ issued ops := by
  induction ops using List.reverseRecOn with
  | nil => cases h
  | append_singleton ops op ih =>
    rw [after_concat] at h
    rw [issued_concat, List.mem_append]
    rcases key?_apply_cases h with hbefore | hissue
    · exact .inl (ih hbefore)
    · exact .inr (by simp [hissue])

/-- A key that is issued is greater than all before it, whether they are still held or not. -/
theorem index_lt_of_issue? {ops : List Op} {op : Op} {key earlier : Key}
    (h : (after ops).issue? op = some key) (hearlier : earlier ∈ issued ops) :
    earlier.index < key.index := by
  have hle := index_le_of_mem_issued hearlier
  rw [(aligned_after ops).issue?_eq_next h, nextKey_after]
  exact Nat.lt_succ_of_le hle

/-! ## How long a name holds its key -/

/-- A name keeps its key as long as it is not removed. -/
theorem key?_foldl_of_some {store : Store} {name : String} {key : Key} {later : List Op}
    (h : store.key? name = some key) (hlater : .remove name ∉ later) :
    (later.foldl apply store).key? name = some key := by
  induction later generalizing store with
  | nil => exact h
  | cons op rest ih =>
    rw [List.mem_cons, not_or] at hlater
    refine ih ?_ hlater.2
    cases op with
    | set written content => exact key?_set_of_some h written content
    | remove removed =>
      have hne : (Op.remove removed).name ≠ name := by
        rintro rfl
        exact hlater.1 rfl
      rw [key?_apply_of_ne store hne, h]

theorem Aligned.nextKey_le_foldl {store : Store} (h : store.Aligned) (later : List Op) :
    store.nextKey ≤ (later.foldl Store.apply store).nextKey := by
  induction later generalizing store with
  | nil => exact Nat.le_refl _
  | cons op rest ih =>
    have hstep := h.nextKey_apply op
    have hrest := ih (h.apply op)
    rw [List.foldl_cons]
    omega

/-- A name that has an old key later on has had it all along. -/
theorem Aligned.key?_of_foldl {store : Store} (h : store.Aligned) {name : String} {key : Key}
    (hlt : key.index < store.nextKey) {later : List Op}
    (hafter : (later.foldl Store.apply store).key? name = some key) :
    store.key? name = some key := by
  induction later generalizing store with
  | nil => exact hafter
  | cons op rest ih =>
    have hgrows := h.nextKey_apply op
    exact h.key?_of_apply hlt (ih (h.apply op) (by omega) hafter)

/-- Whoever holds a key at two moments is one name, and holds it at every moment between them. -/
theorem holder_unique {ops mid last : List Op} {a b : String} {key : Key}
    (ha : (after ops).key? a = some key) (hb : (after (ops ++ mid ++ last)).key? b = some key) :
    a = b ∧ (after (ops ++ mid)).key? a = some key := by
  have haligned := aligned_after ops
  have hlt : key.index < (after ops).nextKey := (haligned.issued key (haligned.mem_cells ha)).2
  have hgrows := haligned.nextKey_le_foldl mid
  rw [← after_append] at hgrows
  rw [after_append] at hb
  have hmid := (aligned_after (ops ++ mid)).key?_of_foldl (by omega) hb
  have hfirst : (after ops).key? b = some key := by
    rw [after_append] at hmid
    exact haligned.key?_of_foldl hlt hmid
  have hsame : a = b := haligned.key?_inj ha hfirst
  exact ⟨hsame, hsame ▸ hmid⟩

/-- **`keys_issued_once`**: in order of issue the keys are 1, 2, 3, …, and every key that a name has
is among them. A write issues a key if and only if its name is unbound, and a removal issues none.
A name keeps its key from then on until it is removed. A key is greater than all that were issued
before it, whatever was removed in between; so if a key is held at two moments of a run, it is by
one name, which had it all the time between them. -/
theorem keys_issued_once (ops : List Op) :
    let store := after ops
    (issued ops = (List.range' 1 (issued ops).length).map Key.mk ∧
      ∀ name key, store.key? name = some key → key ∈ issued ops) ∧
    (∀ name content, (store.issue? (.set name content)).isSome ↔ store.key? name = none) ∧
    (∀ name, store.issue? (.remove name) = none) ∧
    (∀ name content key, store.issue? (.set name content) = some key →
      (after (ops ++ [.set name content])).key? name = some key) ∧
    (∀ name key later, store.key? name = some key → .remove name ∉ later →
      (after (ops ++ later)).key? name = some key) ∧
    (∀ name, (after (ops ++ [.remove name])).key? name = none) ∧
    (∀ op key, store.issue? op = some key → ∀ earlier ∈ issued ops, earlier.index < key.index) ∧
    (∀ a b key mid last, store.key? a = some key → (after (ops ++ mid ++ last)).key? b = some key →
      a = b ∧ (after (ops ++ mid)).key? a = some key) := by
  intro store
  have h : store.Aligned := aligned_after ops
  refine ⟨⟨issued_eq_range ops, fun _ _ => mem_issued_of_key?⟩, ?_, h.issue?_remove, ?_, ?_, ?_,
    fun _ _ hissue _ => index_lt_of_issue? hissue, fun _ _ _ _ _ => holder_unique⟩
  · intro name content
    rw [issue?_set]
    by_cases hkey : store.key? name = none <;> simp [hkey]
  · intro name content key hissue
    rw [after_concat]
    unfold issue? at hissue
    split at hissue
    · cases hissue
    · exact hissue
  · intro name key later hkey hlater
    rw [after_append]
    exact key?_foldl_of_some hkey hlater
  · intro name
    rw [after_concat]
    exact h.key?_remove_self name

/-- A name that is removed and written again, and one that was there before and after. -/
theorem keys_issued_once_rebound :
    let ops : List Op := [.set "A" (.text "1"), .set "B" (.word 255), .remove "A"]
    issued (ops ++ [.set "A" (.text "zz")]) = [⟨1⟩, ⟨2⟩, ⟨3⟩] ∧
    (after ops).issue? (.set "A" (.text "zz")) = some ⟨3⟩ ∧ (1 < 3 ∧ 2 < 3) ∧
    (after (ops ++ [.set "B" (.text "0"), .set "A" (.text "zz")])).key? "B" = some ⟨2⟩ ∧
    ∀ last name, (after (ops ++ [.set "A" (.text "zz")] ++ last)).key? name = some ⟨2⟩ →
      "B" = name := by
  intro ops
  have hissued : issued ops = [⟨1⟩, ⟨2⟩] := by decide
  have hissue : (after ops).issue? (.set "A" (.text "zz")) = some ⟨3⟩ := by decide
  have hkey : (after ops).key? "B" = some ⟨2⟩ := by decide
  obtain ⟨-, -, -, -, hkeeps, -, hgreater, hholder⟩ := keys_issued_once ops
  refine ⟨by decide, hissue, ⟨?_, ?_⟩, hkeeps "B" ⟨2⟩ _ hkey (by decide), ?_⟩
  · exact hgreater _ ⟨3⟩ hissue ⟨1⟩ (by rw [hissued]; decide)
  · exact hgreater _ ⟨3⟩ hissue ⟨2⟩ (by rw [hissued]; decide)
  · intro last name hname
    exact (hholder "B" name ⟨2⟩ _ last hkey hname).1

end HexMachine.Store
