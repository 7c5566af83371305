import HexMachine.Table
import HexMachine.Word.Printer

/-!
# The store

The store holds texts under names, at two levels: a name is bound to a key, and the text stands in
the cell of that key. Keys are issued in the order 1, 2, 3, … to names that are unbound when they are
written, and are never issued again, even to a name that was removed. Cells come in order of issue,
so a listing of the cells is a listing in increasing order of keys.
-/

namespace HexMachine

structure Key where
  index : Nat
deriving DecidableEq, Repr

/-- A key is written with at least five hexadecimal digits between `0x` and `h`. -/
def Key.text (key : Key) : String :=
  "0x" ++ String.ofList ((Word.hexDigits key.index).leftpad 5 '0') ++ "h"

/-- What can be written to a cell: a text as it is, or a word. -/
inductive Content where
  | text (verbatim : String)
  | word (value : Word)
deriving DecidableEq

/-- The text a cell holds after a write. -/
def Content.encode : Content → String
  | .text verbatim => verbatim
  | .word value => value.hex

/-- A key together with the text of its cell. -/
abbrev Entry := Key × String

def showEntry (entry : Entry) : String :=
  "Hex Key: " ++ entry.1.text ++ " Value: " ++ entry.2

/-- Texts under names, by way of keys. -/
structure Store where
  keys : Table String Key
  cells : Table Key String
  nextKey : Nat
deriving DecidableEq, Repr

namespace Store

def empty : Store := ⟨[], [], 1⟩

def key? (store : Store) (name : String) : Option Key := store.keys.find? name

def get? (store : Store) (name : String) : Option String :=
  (store.key? name).bind fun key => store.cells.find? key

def contains (store : Store) (name : String) : Bool := (store.get? name).isSome

def writeCell (store : Store) (key : Key) (content : Content) : Store :=
  { store with cells := store.cells.put key content.encode }

/-- Binds a name to the next key. -/
def bindNext (store : Store) (name : String) : Store :=
  { store with keys := store.keys.put name ⟨store.nextKey⟩, nextKey := store.nextKey + 1 }

/-- Writes under a name, which is bound to a new key first if it has none. -/
def set (store : Store) (name : String) (content : Content) : Store :=
  match store.key? name with
  | some key => store.writeCell key content
  | none => (store.bindNext name).writeCell ⟨store.nextKey⟩ content

/-- Unbinds a name and clears its cell; tells whether the cell held a text. -/
def remove (store : Store) (name : String) : Bool × Store :=
  match store.key? name with
  | some key =>
    ((store.cells.find? key).isSome,
      { store with keys := store.keys.erase name, cells := store.cells.erase key })
  | none => (false, store)

def size (store : Store) : Nat := store.cells.length

def isEmpty (store : Store) : Bool := store.cells.isEmpty

/-- All entries, in order of their keys. -/
def entries (store : Store) : List Entry := store.cells

/-- The listing of the store, one line per entry. -/
def listing (store : Store) : String :=
  String.join (store.entries.map fun entry => showEntry entry ++ "\n")

/-! ## What a write does to the view -/

/-- A write binds its name, to the key it has or to the next one, and no other. -/
theorem key?_set (store : Store) (name : String) (content : Content) (other : String) :
    (store.set name content).key? other =
      if name = other then some ((store.key? name).getD ⟨store.nextKey⟩) else store.key? other := by
  unfold set
  split
  next key h =>
    rw [h, Option.getD_some, ← h]
    by_cases hn : name = other
    · rw [if_pos hn, hn]; rfl
    · rw [if_neg hn]; rfl
  next h =>
    rw [h, Option.getD_none]
    exact Table.find?_put name ⟨store.nextKey⟩ other store.keys

/-- What was written last is read back. -/
theorem get?_set_self (store : Store) (name : String) (content : Content) :
    (store.set name content).get? name = some content.encode := by
  have hk := store.key?_set name content name
  rw [if_pos rfl] at hk
  rw [get?, hk]
  unfold set
  split
  next key h => simp [h, writeCell, Table.find?_put]
  next h => simp [h, writeCell, bindNext, Table.find?_put]

end Store

end HexMachine
