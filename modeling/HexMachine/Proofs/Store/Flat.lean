import HexMachine.Proofs.Store.Alignment
import Mathlib.Data.List.Induction
import Mathlib.Logic.Function.Basic

/-!
# The store as a flat map

Seen from outside, a store is a map from names to texts with nothing in between. `Flat` is such a
map, on which a write and a removal change one place. Main statement `after_refines_flat`: whatever
was written and removed, the store answers as the flat map does, so the text under a name is that of
the last write under it unless a removal came after; and the listing of the store has one entry for
every bound name, in increasing order of keys.

The step is `Aligned.get?_apply`. It needs the alignment of the two levels, since a write or a
removal through a key that two names share would show under both.
-/
namespace HexMachine.Store

/-! ## Flat maps -/

/-- The name an operation is about. -/
def Op.name : Op → String
  | .set name _ => name
  | .remove name => name

/-- The text an operation leaves under its name. -/
def Op.text? : Op → Option String
  | .set _ content => some content.encode
  | .remove _ => none

/-- Texts under names, at one level. -/
abbrev Flat := String → Option String

def Flat.apply (flat : Flat) (op : Op) : Flat := Function.update flat op.name op.text?

/-- The flat map after operations on the one that holds nothing. -/
def flatAfter (ops : List Op) : Flat := ops.foldl Flat.apply fun _ => none

theorem flatAfter_concat (ops : List Op) (op : Op) :
    flatAfter (ops ++ [op]) = (flatAfter ops).apply op := by
  simp only [flatAfter, List.foldl_concat]

/-- A list with one more element, cut before an element: that is the last one or an earlier one. -/
theorem concat_eq_split_iff {α : Type} {xs before later : List α} {x y : α} :
    xs ++ [x] = before ++ y :: later ↔
      (later = [] ∧ xs = before ∧ x = y) ∨
        ∃ front, later = front ++ [x] ∧ xs = before ++ y :: front := by
  rcases List.eq_nil_or_concat' later with rfl | ⟨front, last, rfl⟩
  · simp
  · rw [← List.cons_append, ← List.append_assoc, List.append_singleton_inj]
    constructor
    · rintro ⟨hxs, rfl⟩
      exact .inr ⟨front, rfl, hxs⟩
    · rintro (⟨hnil, -⟩ | ⟨front', hfront, hxs⟩)
      · simp at hnil
      · obtain ⟨rfl, rfl⟩ := List.append_singleton_inj.1 hfront
        exact ⟨hxs, rfl⟩

/-- The text under a name is that of the last write under it, if no removal came after. -/
theorem flatAfter_eq_some_iff {ops : List Op} {name text : String} :
    flatAfter ops name = some text ↔
      ∃ before content later, ops = before ++ .set name content :: later ∧
        content.encode = text ∧ ∀ op ∈ later, op.name ≠ name := by
  induction ops using List.reverseRecOn with
  | nil => simp [flatAfter]
  | append_singleton ops op ih =>
    -- the last operation decides if it is about the name, and changes nothing if it is not
    rw [flatAfter_concat, Flat.apply]
    simp only [concat_eq_split_iff]
    by_cases hname : name = op.name
    · rw [hname, Function.update_self]
      constructor
      · intro htext
        cases op with
        | set n content =>
          exact ⟨ops, content, [], .inl ⟨rfl, rfl, rfl⟩, Option.some.inj htext, by simp⟩
        | remove n => cases htext
      · rintro ⟨before, content, later, ⟨-, -, hop⟩ | ⟨front, rfl, -⟩, henc, hlater⟩
        · rw [hop]
          exact congrArg some henc
        · exact absurd rfl (hlater op (by simp))
    · rw [Function.update_of_ne hname, ih]
      constructor
      · rintro ⟨before, content, later, hops, henc, hlater⟩
        refine ⟨before, content, later ++ [op], .inr ⟨later, rfl, hops⟩, henc, ?_⟩
        intro other hother
        rcases List.mem_append.1 hother with hmem | hmem
        · exact hlater other hmem
        · rw [List.mem_singleton.1 hmem]
          exact Ne.symm hname
      · rintro ⟨before, content, later, ⟨-, -, rfl⟩ | ⟨front, rfl, hops⟩, henc, hlater⟩
        · exact absurd rfl hname
        · refine ⟨before, content, front, hops, henc, fun other hother => ?_⟩
          exact hlater other (by simp [hother])

/-! ## One operation -/

namespace Aligned

variable {store : Store}

theorem key?_remove_self (h : store.Aligned) (name : String) :
    (store.remove name).2.key? name = none := by
  unfold Store.remove
  split
  · show Table.find? name (store.keys.erase name) = none
    rw [Table.find?_eq_none_iff, Table.keys_erase]
    exact h.names_nodup.not_mem_erase
  · assumption

theorem get?_remove_self (h : store.Aligned) (name : String) :
    (store.remove name).2.get? name = none := by
  rw [get?, h.key?_remove_self]
  rfl

/-- A removal leaves the text under every other name. -/
theorem get?_remove_of_ne (h : store.Aligned) {name other : String} (hne : name ≠ other) :
    (store.remove name).2.get? other = store.get? other := by
  unfold Store.remove
  cases hname : store.key? name with
  | none => rfl
  | some key =>
    have hkey : Table.find? other (store.keys.erase name) = store.key? other :=
      Table.find?_erase_of_ne hne store.keys
    simp only [get?, key?, hkey]
    cases hother : store.keys.find? other with
    | none => rfl
    | some k =>
      have hcell : key ≠ k := fun e => hne (h.key?_inj hname (e ▸ hother))
      exact Table.find?_erase_of_ne hcell store.cells

/-- An operation does to the texts what it does to a flat map. -/
theorem get?_apply (h : store.Aligned) (op : Op) :
    (store.apply op).get? = Flat.apply store.get? op := by
  funext other
  by_cases hother : other = op.name
  · rw [Flat.apply, hother, Function.update_self]
    cases op with
    | set name content => exact store.get?_set_self name content
    | remove name => exact h.get?_remove_self name
  · rw [Flat.apply, Function.update_of_ne hother]
    cases op with
    | set name content => exact h.get?_set_of_ne (Ne.symm hother) content
    | remove name => exact h.get?_remove_of_ne (Ne.symm hother)

/-! ## The listing -/

/-- The entries are the keys and texts of the bound names. -/
theorem entries_eq (h : store.Aligned) :
    store.entries.map (fun entry => (some entry.1, some entry.2)) =
      store.names.map fun name => (store.key? name, store.get? name) := by
  have hcells : ∀ entry ∈ store.cells, store.cells.find? entry.1 = some entry.2 :=
    fun entry hmem => Table.find?_of_mem h.keys_nodup hmem
  have hnames : ∀ binding ∈ store.keys, store.key? binding.1 = some binding.2 :=
    fun binding hmem => Table.find?_of_mem h.names_nodup hmem
  calc store.cells.map (fun entry => (some entry.1, some entry.2))
      = store.cells.keys.map fun key => (some key, store.cells.find? key) := by
        rw [Table.keys, List.map_map]
        exact List.map_congr_left fun entry hmem => by simp [hcells entry hmem]
    _ = store.keys.map fun binding => (some binding.2, store.cells.find? binding.2) := by
        rw [← h.same_keys, List.map_map]
        rfl
    _ = store.names.map fun name => (store.key? name, store.get? name) := by
        rw [names, Table.keys, List.map_map]
        exact List.map_congr_left fun binding hmem => by simp [get?, hnames binding hmem]

theorem entries_increasing (h : store.Aligned) :
    store.entries.Pairwise fun first second => first.1.index < second.1.index := by
  have hkeys := h.increasing
  rw [Table.keys, List.pairwise_map] at hkeys
  exact hkeys

end Aligned

/-! ## Runs of operations -/

theorem after_concat (ops : List Op) (op : Op) : after (ops ++ [op]) = (after ops).apply op := by
  simp only [after, List.foldl_concat]

theorem get?_after (ops : List Op) : (after ops).get? = flatAfter ops := by
  induction ops using List.reverseRecOn with
  | nil => rfl
  | append_singleton ops op ih =>
    rw [after_concat, (aligned_after ops).get?_apply, ih, flatAfter_concat]

/-- **`after_refines_flat`**: the store answers as the flat map does, which is with the last write
under a name unless a removal came after; an operation shows under its own name alone; and the
listing gives every bound name once, as its key and its text, in increasing order of keys. -/
theorem after_refines_flat (ops : List Op) :
    let store := after ops
    (∀ name, store.get? name = flatAfter ops name) ∧
    (∀ name text, store.get? name = some text ↔
      ∃ before content later, ops = before ++ .set name content :: later ∧
        content.encode = text ∧ ∀ op ∈ later, op.name ≠ name) ∧
    (∀ op name, op.name ≠ name → (store.apply op).get? name = store.get? name) ∧
    (store.names.Nodup ∧ (∀ name, name ∈ store.names ↔ (store.key? name).isSome) ∧
      store.entries.map (fun entry => (some entry.1, some entry.2)) =
        store.names.map (fun name => (store.key? name, store.get? name)) ∧
      store.entries.Pairwise fun first second => first.1.index < second.1.index) := by
  intro store
  have h : store.Aligned := aligned_after ops
  have hget : store.get? = flatAfter ops := get?_after ops
  refine ⟨fun name => congrFun hget name, ?_, ?_,
    h.names_nodup, fun _ => mem_names_iff, h.entries_eq, h.entries_increasing⟩
  · intro name text
    rw [hget]
    exact flatAfter_eq_some_iff
  · intro op name hne
    rw [h.get?_apply, Flat.apply, Function.update_of_ne (Ne.symm hne)]

/-- A name that is written, removed and written again, and another one that keeps its text. -/
theorem after_refines_flat_rebound :
    let store := after [.set "B" (.word 255), .set "A" (.text "zz"), .remove "B"]
    (store.apply (.set "B" (.text " 1"))).get? "A" = store.get? "A" ∧
    store.get? "A" = some "zz" ∧ store.get? "B" = none := by
  intro store
  obtain ⟨hflat, hlast, hframe, -⟩ :=
    after_refines_flat [.set "B" (.word 255), .set "A" (.text "zz"), .remove "B"]
  refine ⟨hframe (.set "B" (.text " 1")) "A" (by decide), ?_, ?_⟩
  · refine (hlast "A" "zz").2 ⟨[.set "B" (.word 255)], .text "zz", [.remove "B"], rfl, rfl, ?_⟩
    decide
  · rw [hflat]
    decide

end HexMachine.Store
