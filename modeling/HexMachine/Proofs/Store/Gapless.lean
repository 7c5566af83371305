import HexMachine.Proofs.Store.Flat

/-!
# Stores without gaps

A store from which no name was ever removed has its keys without gaps: 1, 2, 3, … in the order in
which the names came in. Such a store is determined by its names in order and the texts under them,
`Gapless.ext`, since the keys can be counted. So it comes back when its snapshot, which is just
that, is written to an empty store: `Gapless.setAll_snapshot`.

Writes come in two kinds here. One under a new name adds the name at the end. Writes that are
`Internal`, under bound names and of words or of texts that the store holds, leave the bindings
alone and bring in no text from outside.
-/
namespace HexMachine.Store

/-! ## Names after a write -/

theorem mem_names_of_get? {store : Store} {name text : String} (h : store.get? name = some text) :
    name ∈ store.names := by
  obtain ⟨key, hkey, -⟩ := Option.bind_eq_some_iff.1 h
  rw [mem_names_iff, hkey]
  rfl

theorem keys_set_of_mem {store : Store} {name : String} (h : name ∈ store.names)
    (content : Content) :
    (store.set name content).keys = store.keys ∧
      (store.set name content).nextKey = store.nextKey := by
  obtain ⟨key, hkey⟩ := Option.isSome_iff_exists.1 (mem_names_iff.1 h)
  rw [set, hkey]
  exact ⟨rfl, rfl⟩

/-- A write under a bound name leaves all keys. -/
theorem key?_set_of_mem {store : Store} {name : String} (h : name ∈ store.names) (content : Content)
    (other : String) : (store.set name content).key? other = store.key? other := by
  rw [key?, (keys_set_of_mem h content).1, key?]

theorem keys_set_of_not_mem {store : Store} {name : String} (h : name ∉ store.names)
    (content : Content) :
    (store.set name content).keys = store.keys ++ [(name, ⟨store.nextKey⟩)] ∧
      (store.set name content).nextKey = store.nextKey + 1 := by
  have hkey : store.key? name = none := Table.find?_eq_none_iff.2 h
  rw [set, hkey]
  exact ⟨Table.put_of_not_mem h _, rfl⟩

theorem names_set (store : Store) (name : String) (content : Content) :
    (store.set name content).names =
      if name ∈ store.names then store.names else store.names ++ [name] := by
  by_cases h : name ∈ store.names
  · rw [if_pos h, names, (keys_set_of_mem h content).1, names]
  · rw [if_neg h, names, (keys_set_of_not_mem h content).1]
    simp [Table.keys, names]

theorem Aligned.get?_set {store : Store} (h : store.Aligned) (name : String) (content : Content)
    (other : String) :
    (store.set name content).get? other =
      if name = other then some content.encode else store.get? other := by
  by_cases hname : name = other
  · rw [if_pos hname, ← hname, get?_set_self]
  · rw [if_neg hname, h.get?_set_of_ne hname]

/-- A name that is bound keeps its key, whatever is written. -/
theorem key?_set_of_some {store : Store} {name : String} {key : Key}
    (h : store.key? name = some key) (other : String) (content : Content) :
    (store.set other content).key? name = some key := by
  rw [key?_set]
  by_cases hother : other = name
  · rw [if_pos hother, hother, h]
    rfl
  · rw [if_neg hother, h]

/-! ## Writes in a row -/

/-- Writes in order. -/
def setAll (store : Store) (writes : List (String × Content)) : Store :=
  writes.foldl (fun before write => before.set write.1 write.2) store

/-- Writes that neither bind a name nor bring in a text: each is under a bound name and writes a
word or a text that the store holds. -/
def Internal (store : Store) (writes : List (String × Content)) : Prop :=
  ∀ write ∈ writes, write.1 ∈ store.names ∧
    ∀ text, write.2 = .text text → ∃ name, store.get? name = some text

theorem key?_setAll_of_some {store : Store} {name : String} {key : Key}
    (h : store.key? name = some key) (writes : List (String × Content)) :
    (store.setAll writes).key? name = some key := by
  induction writes generalizing store with
  | nil => exact h
  | cons write rest ih => exact ih (key?_set_of_some h write.1 write.2)

theorem keys_setAll {store : Store} {writes : List (String × Content)}
    (h : ∀ write ∈ writes, write.1 ∈ store.names) :
    (store.setAll writes).keys = store.keys ∧ (store.setAll writes).nextKey = store.nextKey := by
  induction writes generalizing store with
  | nil => exact ⟨rfl, rfl⟩
  | cons write rest ih =>
    obtain ⟨hkeys, hnext⟩ := keys_set_of_mem (h write (by simp)) write.2
    have hrest : ∀ later ∈ rest, later.1 ∈ (store.set write.1 write.2).names := by
      intro later hlater
      rw [names, hkeys]
      exact h later (by simp [hlater])
    obtain ⟨hkeys', hnext'⟩ := ih hrest
    exact ⟨hkeys'.trans hkeys, hnext'.trans hnext⟩

theorem Aligned.setAll {store : Store} (h : store.Aligned) (writes : List (String × Content)) :
    (store.setAll writes).Aligned := by
  induction writes generalizing store with
  | nil => exact h
  | cons write rest ih => exact ih (h.set write.1 write.2)

/-- A text that is there after some writes was there before or is one of those written. -/
theorem Aligned.get?_setAll {store : Store} (h : store.Aligned) {writes : List (String × Content)}
    {name text : String} (htext : (store.setAll writes).get? name = some text) :
    store.get? name = some text ∨ ∃ write ∈ writes, write.2.encode = text := by
  induction writes generalizing store with
  | nil => exact .inl htext
  | cons write rest ih =>
    rcases ih (h.set write.1 write.2) htext with hbefore | ⟨later, hlater, henc⟩
    · rw [h.get?_set] at hbefore
      split at hbefore
      · exact .inr ⟨write, by simp, Option.some.inj hbefore⟩
      · exact .inl hbefore
    · exact .inr ⟨later, by simp [hlater], henc⟩

/-- Writes leave the text under every name that is not among theirs. -/
theorem Aligned.get?_setAll_of_not_mem {store : Store} (h : store.Aligned)
    {writes : List (String × Content)} {name : String} (hname : name ∉ writes.map Prod.fst) :
    (store.setAll writes).get? name = store.get? name := by
  induction writes generalizing store with
  | nil => rfl
  | cons write rest ih =>
    rw [List.map_cons, List.mem_cons, not_or] at hname
    have hrest := ih (h.set write.1 write.2) hname.2
    rw [h.get?_set_of_ne (Ne.symm hname.1)] at hrest
    exact hrest

/-- Writes leave the key of every name that is not among theirs. -/
theorem key?_setAll_of_not_mem {store : Store} {writes : List (String × Content)} {name : String}
    (h : name ∉ writes.map Prod.fst) : (store.setAll writes).key? name = store.key? name := by
  induction writes generalizing store with
  | nil => rfl
  | cons write rest ih =>
    rw [List.map_cons, List.mem_cons, not_or] at h
    have hrest := @ih (store.set write.1 write.2) h.2
    rw [key?_set, if_neg (Ne.symm h.1)] at hrest
    exact hrest

/-! ## The keys of the cells after a write -/

/-- A write keeps the cells in order; a new one comes last. -/
theorem Aligned.cellKeys_set {store : Store} (h : store.Aligned) (name : String)
    (content : Content) : store.cells.keys <+: (store.set name content).cells.keys := by
  rw [← h.same_keys, ← (h.set name content).same_keys]
  by_cases hname : name ∈ store.names
  · exact ⟨[], by rw [List.append_nil, (keys_set_of_mem hname content).1]⟩
  · rw [(keys_set_of_not_mem hname content).1, List.map_append]
    exact List.prefix_append _ _

theorem Aligned.cellKeys_setAll {store : Store} (h : store.Aligned)
    {writes : List (String × Content)} (hbound : ∀ write ∈ writes, write.1 ∈ store.names) :
    (store.setAll writes).cells.keys = store.cells.keys := by
  rw [← (h.setAll writes).same_keys, (keys_setAll hbound).1, h.same_keys]

/-! ## Counting keys -/

/-- The names have the keys 1, 2, 3, … in order, and the next key is the one that follows. -/
structure Gapless (store : Store) : Prop where
  aligned : store.Aligned
  numbered : store.keys.map Prod.snd = (List.range' 1 store.names.length).map Key.mk
  next : store.nextKey = store.names.length + 1

theorem gapless_empty : empty.Gapless := ⟨aligned_empty, rfl, rfl⟩

namespace Gapless

variable {store : Store}

theorem set (h : store.Gapless) (name : String) (content : Content) :
    (store.set name content).Gapless := by
  have hnames := names_set store name content
  by_cases hmem : name ∈ store.names
  · obtain ⟨hkeys, hnext⟩ := keys_set_of_mem hmem content
    rw [if_pos hmem] at hnames
    refine ⟨h.aligned.set name content, ?_, ?_⟩
    · rw [hnames, hkeys]
      exact h.numbered
    · rw [hnames, hnext, h.next]
  · obtain ⟨hkeys, hnext⟩ := keys_set_of_not_mem hmem content
    rw [if_neg hmem] at hnames
    refine ⟨h.aligned.set name content, ?_, ?_⟩
    · -- the counter stands one past the names, which is the number of the name that is added
      rw [hnames, hkeys, List.map_append, h.numbered, h.next, List.length_append,
        List.length_singleton, List.range'_1_concat, List.map_append, Nat.add_comm]
      rfl
    · rw [hnames, hnext, h.next, List.length_append, List.length_singleton]

theorem setAll (h : store.Gapless) (writes : List (String × Content)) :
    (store.setAll writes).Gapless := by
  induction writes generalizing store with
  | nil => exact h
  | cons write rest ih => exact ih (h.set write.1 write.2)

theorem getElem?_keys (h : store.Gapless) (i : Nat) :
    store.keys[i]? = (store.names[i]?).map fun name => (name, ⟨i + 1⟩) := by
  have hkey := congrArg (fun keys : List Key => keys[i]?) h.numbered
  simp only [List.getElem?_map, names, Table.keys, List.length_map] at hkey ⊢
  cases hbinding : store.keys[i]? with
  | none => rfl
  | some binding =>
    have hlt : i < store.keys.length := (List.getElem?_eq_some_iff.1 hbinding).1
    rw [hbinding, List.getElem?_range' hlt] at hkey
    simp only [Option.map_some, Option.some.injEq] at hkey ⊢
    rw [Nat.add_comm i 1, ← Nat.one_mul i, ← hkey]

/-- The name in a given place has the key with the number of that place. -/
theorem key?_eq_some_iff (h : store.Gapless) {name : String} {i : Nat} :
    store.key? name = some ⟨i + 1⟩ ↔ store.names[i]? = some name := by
  constructor
  · intro hkey
    obtain ⟨place, hplace⟩ := List.mem_iff_getElem?.1 (Table.mem_of_find? hkey)
    rw [h.getElem?_keys, Option.map_eq_some_iff] at hplace
    obtain ⟨found, hfound, hbinding⟩ := hplace
    cases hbinding
    exact hfound
  · intro hname
    have hbinding : store.keys[i]? = some (name, ⟨i + 1⟩) := by
      rw [h.getElem?_keys, hname]
      rfl
    exact Table.find?_of_mem h.aligned.names_nodup (List.mem_of_getElem? hbinding)

/-- Stores without gaps that have the same names in the same order and the same texts are equal. -/
theorem ext {other : Store} (h : store.Gapless) (hother : other.Gapless)
    (hnames : store.names = other.names) (hget : ∀ name, store.get? name = other.get? name) :
    store = other := by
  have hkeys : store.keys = other.keys := by
    refine List.ext_getElem? fun i => ?_
    rw [h.getElem?_keys, hother.getElem?_keys, hnames]
  have hcells : store.cells = other.cells := by
    -- both listings are made of the keys and texts of the same names
    have hlookup : ∀ name, store.key? name = other.key? name := by
      intro name
      rw [key?, key?, hkeys]
    have hentries := h.aligned.entries_eq
    simp only [hnames, hlookup, hget, ← hother.aligned.entries_eq] at hentries
    refine List.map_injective_iff.2 ?_ hentries
    rintro ⟨key, text⟩ ⟨key', text'⟩ hsame
    simpa using hsame
  have hnext : store.nextKey = other.nextKey := by rw [h.next, hother.next, hnames]
  cases store
  cases other
  rw [Store.mk.injEq]
  exact ⟨hkeys, hcells, hnext⟩

end Gapless

/-! ## Snapshots -/

/-- The bound names with their texts, in order of their keys. -/
def snapshot (store : Store) : List (String × String) :=
  store.names.filterMap fun name => (store.get? name).map fun text => (name, text)

theorem mem_snapshot_iff {store : Store} {name text : String} :
    (name, text) ∈ store.snapshot ↔ store.get? name = some text := by
  rw [snapshot, List.mem_filterMap]
  constructor
  · rintro ⟨bound, -, hentry⟩
    obtain ⟨found, hfound, hpair⟩ := Option.map_eq_some_iff.1 hentry
    cases hpair
    exact hfound
  · intro htext
    exact ⟨name, mem_names_of_get? htext, by rw [htext]; rfl⟩

theorem Aligned.map_fst_snapshot {store : Store} (h : store.Aligned) :
    store.snapshot.map Prod.fst = store.names := by
  rw [snapshot, List.map_filterMap]
  refine (List.filterMap_congr fun name hname => ?_).trans List.filterMap_some
  have hbound : (store.get? name).isSome := by
    rw [h.get?_isSome]
    exact mem_names_iff.1 hname
  obtain ⟨text, htext⟩ := Option.isSome_iff_exists.1 hbound
  rw [htext]
  rfl

/-- In a snapshot the keys are 1, 2, 3, … -/
theorem Gapless.map_key?_snapshot {store : Store} (h : store.Gapless) :
    store.snapshot.map (fun entry => store.key? entry.1) =
      (List.range' 1 store.snapshot.length).map fun i => some ⟨i⟩ := by
  have hlength := congrArg List.length h.aligned.map_fst_snapshot
  rw [List.length_map] at hlength
  calc store.snapshot.map (fun entry => store.key? entry.1)
      = store.names.map store.key? := by rw [← h.aligned.map_fst_snapshot, List.map_map]; rfl
    _ = (store.keys.map Prod.snd).map some := by
        rw [names, Table.keys, List.map_map, List.map_map]
        exact List.map_congr_left fun binding hmem =>
          Table.find?_of_mem h.aligned.names_nodup hmem
    _ = (List.range' 1 store.snapshot.length).map fun i => some ⟨i⟩ := by
        rw [h.numbered, List.map_map, hlength]
        rfl

theorem names_setAll_of_new {store : Store} {writes : List (String × Content)}
    (h : (store.names ++ writes.map Prod.fst).Nodup) :
    (store.setAll writes).names = store.names ++ writes.map Prod.fst := by
  induction writes generalizing store with
  | nil => simp [setAll]
  | cons write rest ih =>
    have hnew : write.1 ∉ store.names := by
      intro hmem
      exact (List.nodup_append.1 h).2.2 write.1 hmem write.1 (by simp) rfl
    have hnames : (store.set write.1 write.2).names = store.names ++ [write.1] := by
      rw [names_set, if_neg hnew]
    have hrest := @ih (store.set write.1 write.2) (by rw [hnames]; simpa using h)
    rw [hnames] at hrest
    simpa [setAll] using hrest

/-- After writes under distinct names, on a store that was empty, each of them can be read. -/
theorem get?_setAll_empty {writes : List (String × Content)} (h : (writes.map Prod.fst).Nodup)
    {name text : String} :
    (empty.setAll writes).get? name = some text ↔
      ∃ content, (name, content) ∈ writes ∧ content.encode = text := by
  have hafter : empty.setAll writes = after (writes.map fun write => .set write.1 write.2) := by
    rw [after, List.foldl_map]
    rfl
  rw [hafter, get?_after, flatAfter_eq_some_iff]
  constructor
  · rintro ⟨before, content, later, hops, henc, -⟩
    have hmem : Op.set name content ∈ writes.map fun write => Op.set write.1 write.2 := by
      rw [hops]
      simp
    obtain ⟨write, hwrite, hop⟩ := List.mem_map.1 hmem
    cases hop
    exact ⟨write.2, hwrite, henc⟩
  · rintro ⟨content, hmem, henc⟩
    obtain ⟨front, back, rfl⟩ := List.append_of_mem hmem
    refine ⟨front.map fun write => .set write.1 write.2, content,
      back.map fun write => .set write.1 write.2, by simp, henc, ?_⟩
    rintro op hop hname
    obtain ⟨write, hwrite, rfl⟩ := List.mem_map.1 hop
    simp only [List.map_append, List.map_cons, List.nodup_append, List.nodup_cons] at h
    exact h.2.1.1 (List.mem_map.2 ⟨write, hwrite, hname⟩)

/-- A store without gaps comes back when its snapshot is written to an empty one. -/
theorem Gapless.setAll_snapshot {store : Store} (h : store.Gapless) :
    empty.setAll (store.snapshot.map fun entry => (entry.1, .text entry.2)) = store := by
  have hfst : (store.snapshot.map fun entry => (entry.1, Content.text entry.2)).map Prod.fst =
      store.names := by
    rw [List.map_map, ← h.aligned.map_fst_snapshot]
    rfl
  have hnodup := h.aligned.names_nodup
  refine (gapless_empty.setAll _).ext h ?_ fun name => Option.ext fun text => ?_
  · rw [names_setAll_of_new (by rw [hfst]; exact hnodup), hfst]
    rfl
  · rw [get?_setAll_empty (by rw [hfst]; exact hnodup), ← mem_snapshot_iff]
    constructor
    · rintro ⟨content, hmem, rfl⟩
      obtain ⟨entry, hentry, hwrite⟩ := List.mem_map.1 hmem
      cases hwrite
      exact hentry
    · intro hmem
      exact ⟨.text text, List.mem_map.2 ⟨(name, text), hmem, rfl⟩, rfl⟩

end HexMachine.Store
