import HexMachine.Store
import Mathlib.Data.List.Nodup

/-!
# The two levels of the store stay aligned

A store is two tables and a counter, which every operation updates one by one. What keeps them
together is an invariant on the lists themselves, `Aligned`: the keys that names are bound to and
the keys of the cells are one and the same list, in increasing order and below the counter. A write
under a new name appends to both tables, any other write changes neither list, and a removal takes
the same key out of both.

Main statement `after_levels_agree`: after any operations, a cell holds a text if and only if a name
is bound to its key, and that name is the only one. So no text is ever stranded. Keys are natural
numbers here, and the statement needs no bound on how many are issued.
-/
namespace HexMachine

/-! ## Tables -/

namespace Table

variable {α β : Type} [DecidableEq α]

theorem find?_isSome_iff {key : α} {table : Table α β} :
    (find? key table).isSome ↔ key ∈ keys table := by
  rw [Option.isSome_iff_ne_none, ne_eq, find?_eq_none_iff, not_not]

theorem mem_of_find? {key : α} {value : β} {table : Table α β}
    (h : find? key table = some value) : (key, value) ∈ table := by
  induction table with
  | nil => cases h
  | cons entry rest ih =>
    obtain ⟨k, v⟩ := entry
    by_cases hk : k = key
    · simp only [find?, hk, if_true, Option.some.injEq] at h
      simp [hk, h]
    · simp only [find?, hk, if_false] at h
      exact List.mem_cons_of_mem _ (ih h)

theorem find?_of_mem {key : α} {value : β} {table : Table α β} (hnodup : (keys table).Nodup)
    (h : (key, value) ∈ table) : find? key table = some value := by
  have hsome : (find? key table).isSome :=
    find?_isSome_iff.2 (List.mem_map.2 ⟨(key, value), h, rfl⟩)
  obtain ⟨found, hfound⟩ := Option.isSome_iff_exists.1 hsome
  have hsame := List.inj_on_of_nodup_map hnodup (mem_of_find? hfound) h rfl
  rw [hfound, (Prod.mk.inj hsame).2]

theorem keys_erase (key : α) (table : Table α β) :
    keys (erase key table) = (keys table).erase key := by
  induction table with
  | nil => rfl
  | cons entry rest ih =>
    obtain ⟨k, v⟩ := entry
    by_cases hk : k = key
    · simp [erase, keys, hk]
    · simp only [keys] at ih
      simp [erase, keys, hk, ih]

/-- Removing a key removes the value it had, if no other key has that value. -/
theorem map_snd_erase [DecidableEq β] {key : α} {value : β} {table : Table α β}
    (h : find? key table = some value) (hnodup : (table.map Prod.snd).Nodup) :
    (erase key table).map Prod.snd = (table.map Prod.snd).erase value := by
  induction table with
  | nil => cases h
  | cons entry rest ih =>
    obtain ⟨k, v⟩ := entry
    simp only [List.map_cons, List.nodup_cons] at hnodup
    by_cases hk : k = key
    · simp only [find?, hk, if_true, Option.some.injEq] at h
      simp [erase, hk, h]
    · simp only [find?, hk, if_false] at h
      have hmem : value ∈ rest.map Prod.snd := List.mem_map.2 ⟨_, mem_of_find? h, rfl⟩
      have hne : v ≠ value := fun e => hnodup.1 (e ▸ hmem)
      simp [erase, hk, hne, ih h hnodup.2]

theorem put_put (key : α) (first second : β) (table : Table α β) :
    put key second (put key first table) = put key second table := by
  induction table with
  | nil => simp [put]
  | cons entry rest ih =>
    obtain ⟨k, v⟩ := entry
    by_cases hk : k = key
    · simp [put, hk]
    · simp [put, hk, ih]

end Table

namespace Store

/-! ## The invariant -/

/-- The bound names, in order of their keys. -/
def names (store : Store) : List String := store.keys.keys

theorem mem_names_iff {store : Store} {name : String} : name ∈ store.names ↔ (store.key? name).isSome :=
  Table.find?_isSome_iff.symm

/-- Names are bound to the keys of the cells, one name to one cell and in the same order, and the
keys have been issued in increasing order. -/
structure Aligned (store : Store) : Prop where
  names_nodup : store.names.Nodup
  same_keys : store.keys.map Prod.snd = store.cells.keys
  increasing : store.cells.keys.Pairwise (·.index < ·.index)
  issued : ∀ key ∈ store.cells.keys, 1 ≤ key.index ∧ key.index < store.nextKey
  next_pos : 1 ≤ store.nextKey

theorem aligned_empty : empty.Aligned := by
  refine ⟨?_, rfl, ?_, ?_, Nat.le_refl 1⟩ <;> simp [empty, names, Table.keys]

namespace Aligned

variable {store : Store}

theorem keys_nodup (h : store.Aligned) : store.cells.keys.Nodup :=
  h.increasing.imp fun hlt e => absurd (congrArg Key.index e) (Nat.ne_of_lt hlt)

theorem mem_cells (h : store.Aligned) {name : String} {key : Key}
    (hkey : store.key? name = some key) : key ∈ store.cells.keys := by
  rw [← h.same_keys]
  exact List.mem_map.2 ⟨(name, key), Table.mem_of_find? hkey, rfl⟩

/-- The next key is in no cell. -/
theorem next_not_mem (h : store.Aligned) : (⟨store.nextKey⟩ : Key) ∉ store.cells.keys := by
  intro hmem
  exact Nat.lt_irrefl _ (h.issued _ hmem).2

theorem writeCell (h : store.Aligned) {key : Key} (hkey : key ∈ store.cells.keys)
    (content : Content) : (store.writeCell key content).Aligned := by
  have hsame : (store.writeCell key content).cells.keys = store.cells.keys :=
    Table.keys_put_of_mem hkey content.encode
  refine ⟨h.names_nodup, ?_, ?_, ?_, h.next_pos⟩
  · rw [hsame]
    exact h.same_keys
  · rw [hsame]
    exact h.increasing
  · rw [hsame]
    exact h.issued

/-- A write under a new name appends to both tables. -/
theorem bindNext (h : store.Aligned) {name : String} (hname : store.key? name = none)
    (content : Content) :
    ((store.bindNext name).writeCell ⟨store.nextKey⟩ content).Aligned := by
  have hnew : name ∉ store.names := Table.find?_eq_none_iff.1 hname
  have hkeys : store.keys.put name ⟨store.nextKey⟩ = store.keys ++ [(name, ⟨store.nextKey⟩)] :=
    Table.put_of_not_mem hnew _
  have hcells : (store.cells.put ⟨store.nextKey⟩ content.encode).keys =
      store.cells.keys ++ [⟨store.nextKey⟩] := by
    rw [Table.put_of_not_mem h.next_not_mem]
    simp [Table.keys]
  refine ⟨?_, ?_, ?_, ?_, Nat.le_succ_of_le h.next_pos⟩
  · show (Table.keys (store.keys.put name ⟨store.nextKey⟩)).Nodup
    rw [hkeys, Table.keys, List.map_append]
    refine List.nodup_append.2 ⟨h.names_nodup, List.nodup_singleton name, ?_⟩
    intro a ha b hb e
    have hb' : b = name := List.mem_singleton.1 hb
    rw [e, hb'] at ha
    exact hnew ha
  · show (store.keys.put name ⟨store.nextKey⟩).map Prod.snd = Table.keys (store.cells.put _ _)
    rw [hkeys, hcells, List.map_append, h.same_keys]
    rfl
  · show (Table.keys (store.cells.put _ _)).Pairwise _
    rw [hcells]
    refine List.pairwise_append.2 ⟨h.increasing, List.pairwise_singleton _ _, ?_⟩
    intro a ha b hb
    rw [List.mem_singleton.1 hb]
    exact (h.issued a ha).2
  · show ∀ key ∈ Table.keys (store.cells.put _ _), 1 ≤ key.index ∧ key.index < store.nextKey + 1
    rw [hcells]
    intro key hmem
    rcases List.mem_append.1 hmem with hmem | hmem
    · have hold := h.issued key hmem
      omega
    · have hpos := h.next_pos
      rw [List.mem_singleton.1 hmem]
      exact ⟨hpos, Nat.lt_succ_self _⟩

theorem set (h : store.Aligned) (name : String) (content : Content) :
    (store.set name content).Aligned := by
  unfold Store.set
  split
  · rename_i key hkey
    exact h.writeCell (h.mem_cells hkey) content
  · rename_i hname
    exact h.bindNext hname content

theorem remove (h : store.Aligned) (name : String) : (store.remove name).2.Aligned := by
  unfold Store.remove
  split
  · rename_i key hkey
    have hcells : (store.cells.erase key).keys = store.cells.keys.erase key :=
      Table.keys_erase key store.cells
    have hsnd : (store.keys.erase name).map Prod.snd = store.cells.keys.erase key := by
      rw [Table.map_snd_erase hkey (h.same_keys ▸ h.keys_nodup), h.same_keys]
    refine ⟨?_, ?_, ?_, ?_, h.next_pos⟩
    · show (Table.keys (store.keys.erase name)).Nodup
      rw [Table.keys_erase]
      exact h.names_nodup.erase name
    · exact hsnd.trans hcells.symm
    · show (Table.keys (store.cells.erase key)).Pairwise _
      rw [hcells]
      exact h.increasing.sublist List.erase_sublist
    · intro other hmem
      have hsub : other ∈ store.cells.keys.erase key := hcells ▸ hmem
      exact h.issued other (List.mem_of_mem_erase hsub)
  · exact h

/-! ## What it means for look-ups -/

/-- Two names are never bound to one key. -/
theorem key?_inj (h : store.Aligned) {a b : String} {key : Key} (ha : store.key? a = some key)
    (hb : store.key? b = some key) : a = b := by
  have hnodup : (store.keys.map Prod.snd).Nodup := h.same_keys ▸ h.keys_nodup
  have hsame := List.inj_on_of_nodup_map hnodup (Table.mem_of_find? ha) (Table.mem_of_find? hb) rfl
  exact (Prod.mk.inj hsame).1

theorem mem_cells_iff (h : store.Aligned) {key : Key} :
    key ∈ store.cells.keys ↔ ∃ name, store.key? name = some key := by
  constructor
  · intro hmem
    rw [← h.same_keys] at hmem
    obtain ⟨⟨name, k⟩, hpair, rfl⟩ := List.mem_map.1 hmem
    exact ⟨name, Table.find?_of_mem h.names_nodup hpair⟩
  · rintro ⟨name, hkey⟩
    exact h.mem_cells hkey

/-- A bound name has a text. -/
theorem get?_isSome (h : store.Aligned) (name : String) :
    (store.get? name).isSome = (store.key? name).isSome := by
  unfold get?
  cases hkey : store.key? name with
  | none => rfl
  | some key => exact Table.find?_isSome_iff.2 (h.mem_cells hkey)

/-- A write under one name leaves the text under every other name. -/
theorem get?_set_of_ne (h : store.Aligned) {name other : String} (hne : name ≠ other)
    (content : Content) : (store.set name content).get? other = store.get? other := by
  have hkey := store.key?_set name content other
  rw [if_neg hne] at hkey
  rw [get?, hkey, get?]
  cases hother : store.key? other with
  | none => rfl
  | some key =>
    -- the cell that is written is not that of the other name, be it an old cell or the next one
    unfold Store.set
    cases hname : store.key? name with
    | some k =>
      have hcell : k ≠ key := fun e => hne (h.key?_inj hname (e ▸ hother))
      exact (Table.find?_put k content.encode key store.cells).trans (if_neg hcell)
    | none =>
      have hcell : (⟨store.nextKey⟩ : Key) ≠ key :=
        fun e => h.next_not_mem (e ▸ h.mem_cells hother)
      exact (Table.find?_put ⟨store.nextKey⟩ content.encode key store.cells).trans (if_neg hcell)

theorem size_eq (h : store.Aligned) : store.size = store.names.length := by
  have hlength := congrArg List.length h.same_keys
  simp only [Table.keys, List.length_map] at hlength
  simp only [size, names, Table.keys, List.length_map, hlength]

theorem isEmpty_iff (h : store.Aligned) : store.isEmpty ↔ ∀ name, store.key? name = none := by
  have hsize : store.isEmpty ↔ store.names = [] := by
    rw [isEmpty, List.isEmpty_iff_length_eq_zero, ← List.length_eq_zero_iff, ← h.size_eq, size]
  rw [hsize, List.eq_nil_iff_forall_not_mem]
  simp only [mem_names_iff, Bool.not_eq_true, Option.isSome_eq_false_iff, Option.isNone_iff_eq_none]

end Aligned

/-- A removal tells whether there was a text to remove. -/
theorem remove_fst (store : Store) (name : String) :
    (store.remove name).1 = store.contains name := by
  unfold Store.remove contains get?
  cases store.key? name <;> rfl

theorem set_congr (store : Store) (name : String) {content other : Content}
    (h : content.encode = other.encode) : store.set name content = store.set name other := by
  simp only [set, writeCell, h]

/-- The later of two writes under one name stands. -/
theorem set_set (store : Store) (name : String) (first second : Content) :
    (store.set name first).set name second = store.set name second := by
  have hkey := store.key?_set name first name
  rw [if_pos rfl] at hkey
  rw [set, hkey]
  unfold set
  cases h : store.key? name with
  | some key => simp [writeCell, Table.put_put]
  | none => simp [writeCell, bindNext, Table.put_put]

/-! ## Runs of operations -/

/-- An operation on a store. -/
inductive Op where
  | set (name : String) (content : Content)
  | remove (name : String)
deriving DecidableEq

/-- The store after an operation. -/
def apply (store : Store) : Op → Store
  | .set name content => store.set name content
  | .remove name => (store.remove name).2

/-- The store after operations on the empty one. -/
def after (ops : List Op) : Store := ops.foldl apply empty

theorem Aligned.apply {store : Store} (h : store.Aligned) (op : Op) : (store.apply op).Aligned := by
  cases op with
  | set name content => exact h.set name content
  | remove name => exact h.remove name

theorem aligned_after (ops : List Op) : (after ops).Aligned := by
  unfold after
  suffices ∀ store : Store, store.Aligned → (ops.foldl Store.apply store).Aligned from
    this empty aligned_empty
  induction ops with
  | nil => intro store h; exact h
  | cons op rest ih => intro store h; exact ih _ (h.apply op)

/-- **`after_levels_agree`**: whatever was written and removed, names and keys are in one-to-one
correspondence, exactly the keys of bound names have a text, and every one of them has been issued;
so the questions asked of the two levels have the same answers. -/
theorem after_levels_agree (ops : List Op) :
    let store := after ops
    (∀ a b key, store.key? a = some key → store.key? b = some key → a = b) ∧
    (∀ key, (store.cells.find? key).isSome ↔ ∃ name, store.key? name = some key) ∧
    (∀ name key, store.key? name = some key → 1 ≤ key.index ∧ key.index < store.nextKey) ∧
    (∀ name, store.contains name ↔ (store.key? name).isSome) ∧
    (store.names.Nodup ∧ (∀ name, name ∈ store.names ↔ (store.key? name).isSome) ∧
      store.size = store.names.length) ∧
    (store.isEmpty ↔ ∀ name, store.key? name = none) ∧
    (∀ name, (store.remove name).1 ↔ store.contains name) := by
  intro store
  have h : store.Aligned := aligned_after ops
  refine ⟨fun _ _ _ => h.key?_inj, fun key => ?_, fun name key hkey => ?_, fun name => ?_,
    ⟨h.names_nodup, fun _ => mem_names_iff, h.size_eq⟩, h.isEmpty_iff, fun name => ?_⟩
  · rw [Table.find?_isSome_iff]
    exact h.mem_cells_iff
  · exact h.issued key (h.mem_cells hkey)
  · rw [contains, h.get?_isSome]
  · rw [remove_fst]

/-- A name that is removed and written again has a new key, and the old one has no text. -/
theorem after_levels_agree_reissued :
    let store := after
      [.set "A" (.text "1"), .set "B" (.word 255), .remove "A", .set "A" (.text "zz")]
    store.key? "A" = some ⟨3⟩ ∧ (1 ≤ 3 ∧ 3 < store.nextKey) ∧
      (∀ name, store.key? name = some ⟨3⟩ → name = "A") ∧ ¬ ∃ name, store.key? name = some ⟨1⟩ := by
  intro store
  obtain ⟨hinj, hcells, hissued, -⟩ := after_levels_agree
    [.set "A" (.text "1"), .set "B" (.word 255), .remove "A", .set "A" (.text "zz")]
  have hkey : store.key? "A" = some ⟨3⟩ := by decide
  refine ⟨hkey, hissued "A" ⟨3⟩ hkey, fun name hname => hinj name "A" ⟨3⟩ hname hkey, ?_⟩
  rw [← hcells ⟨1⟩]
  decide

end Store

end HexMachine
