/-!
# Tables

A table is a list of key-value pairs in the order in which the keys came in. Writing a key that is
present replaces its value in place; a new key goes to the end; erasing keeps the order of the rest.
So two tables that went through the same insertions are equal as lists, and a table whose keys come
in increasing order stays sorted. The view is `find?`: the lemmas say what each operation does to it.
-/

namespace HexMachine

/-- Key-value pairs in order of first insertion. -/
abbrev Table (α β : Type) := List (α × β)

namespace Table

variable {α β : Type} [DecidableEq α]

def find? (key : α) : Table α β → Option β
  | [] => none
  | (k, v) :: rest => if k = key then some v else find? key rest

/-- Gives a key a value, in place if it is present and at the end if not. -/
def put (key : α) (value : β) : Table α β → Table α β
  | [] => [(key, value)]
  | (k, v) :: rest => if k = key then (k, value) :: rest else (k, v) :: put key value rest

def erase (key : α) : Table α β → Table α β
  | [] => []
  | (k, v) :: rest => if k = key then rest else (k, v) :: erase key rest

/-- The keys in order of first insertion. -/
def keys (table : Table α β) : List α := table.map Prod.fst

theorem find?_put (key : α) (value : β) (other : α) (table : Table α β) :
    find? other (put key value table) = if key = other then some value else find? other table := by
  induction table with
  | nil => simp [put, find?]
  | cons entry rest ih =>
    obtain ⟨k, v⟩ := entry
    by_cases hk : k = key
    · subst hk; by_cases ho : k = other <;> simp [put, find?, ho]
    · by_cases ho : k = other
      · subst ho; simp [put, find?, hk, Ne.symm hk]
      · simp [put, find?, hk, ho, ih]

theorem find?_eq_none_iff {key : α} {table : Table α β} :
    find? key table = none ↔ key ∉ keys table := by
  induction table with
  | nil => simp [find?, keys]
  | cons entry rest ih =>
    obtain ⟨k, v⟩ := entry
    by_cases hk : k = key
    · simp [find?, keys, hk]
    · simp only [find?, hk, if_false, ih, keys, List.map_cons, List.mem_cons, not_or]
      exact ⟨fun h => ⟨fun e => hk e.symm, h⟩, fun h => h.2⟩

theorem find?_erase_of_ne {key other : α} (h : key ≠ other) (table : Table α β) :
    find? other (erase key table) = find? other table := by
  induction table with
  | nil => rfl
  | cons entry rest ih =>
    obtain ⟨k, v⟩ := entry
    by_cases hk : k = key
    · subst hk; simp [erase, find?, h]
    · simp only [erase, if_neg hk, find?, ih]

/-- A new key goes to the end. -/
theorem put_of_not_mem {key : α} {table : Table α β} (h : key ∉ keys table) (value : β) :
    put key value table = table ++ [(key, value)] := by
  induction table with
  | nil => rfl
  | cons entry rest ih =>
    obtain ⟨k, v⟩ := entry
    simp only [keys, List.map_cons, List.mem_cons, not_or] at h
    simp [put, Ne.symm h.1, ih h.2]

/-- Writing a key that is present keeps the keys and their order. -/
theorem keys_put_of_mem {key : α} {table : Table α β} (h : key ∈ keys table) (value : β) :
    keys (put key value table) = keys table := by
  induction table with
  | nil => simp [keys] at h
  | cons entry rest ih =>
    obtain ⟨k, v⟩ := entry
    by_cases hk : k = key
    · simp [put, keys, hk]
    · have hr : key ∈ keys rest := by
        simp only [keys, List.map_cons, List.mem_cons] at h
        exact h.resolve_left fun e => hk e.symm
      have := ih hr
      simp only [keys] at this
      simp [put, keys, hk, this]

end Table

end HexMachine
