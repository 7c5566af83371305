import HexMachine.Proofs.Machine.Targets
import HexMachine.Proofs.Word.Exact
import Mathlib.Algebra.BigOperators.Group.List.Basic

/-!
# Sums in any order

An accumulator is a name that other names are added to and subtracted from. Between two steps its value
is cut to 32 bits, written as a text and read again, so the texts on the way depend on the order of the
steps. Main statement `accumulation_ignores_order`: the last text does not. It is the text of the exact
sum modulo 2^32, and the same steps with additions and subtractions interchanged lead back to the value
at the start.

The run is compared with the sum over the integers. The invariant is that the store differs from that
at the start by one write, of the text of the sum so far; what the text leaves out is a multiple of
2^32, which the text of a later sum leaves out again.
-/
namespace HexMachine

/-! ## Summands -/

/-- A name that is added to an accumulator or subtracted from it. -/
inductive Summand where
  | add (source : String)
  | sub (source : String)
deriving DecidableEq, Repr

namespace Summand

def source : Summand → String
  | .add source => source
  | .sub source => source

def op : Summand → BinaryOp
  | .add _ => .add
  | .sub _ => .sub

def instruction (dest : String) (summand : Summand) : Instruction :=
  .binary summand.op dest summand.source

/-- The summand that takes back what another one does. -/
def opposite : Summand → Summand
  | .add source => .sub source
  | .sub source => .add source

/-- What a summand contributes, as an integer. -/
def amount (values : String → Word) : Summand → Int
  | .add source => (values source).toInt
  | .sub source => -(values source).toInt

/-- What summands contribute together. -/
def total (values : String → Word) (summands : List Summand) : Int :=
  (summands.map (amount values)).sum

/-- A step adds the contribution of its summand, over the integers. -/
theorem exact_op (values : String → Word) (summand : Summand) (value : Int) :
    summand.op.exact value (values summand.source).toInt = some (value + summand.amount values) := by
  cases summand with
  | add source => rfl
  | sub source => exact congrArg some Int.sub_eq_add_neg

@[simp] theorem source_opposite (summand : Summand) : summand.opposite.source = summand.source := by
  cases summand <;> rfl

@[simp] theorem amount_opposite (values : String → Word) (summand : Summand) :
    summand.opposite.amount values = -summand.amount values := by
  cases summand <;> simp [opposite, amount]

theorem total_cons (values : String → Word) (first : Summand) (rest : List Summand) :
    total values (first :: rest) = first.amount values + total values rest := by
  simp [total]

theorem total_opposite (values : String → Word) (summands : List Summand) :
    total values (summands.map opposite) = -total values summands := by
  induction summands with
  | nil => rfl
  | cons first rest ih =>
    rw [List.map_cons, total_cons, total_cons, ih, amount_opposite]
    omega

theorem total_perm (values : String → Word) {order summands : List Summand}
    (h : order.Perm summands) : total values order = total values summands :=
  (h.map (amount values)).sum_eq

end Summand

open Summand (total)

/-- Every summand is under another name than the accumulator, and the text there can be read as its
value. -/
def Store.Provides (store : Store) (dest : String) (values : String → Word)
    (summands : List Summand) : Prop :=
  ∀ summand ∈ summands,
    summand.source ≠ dest ∧ store.word? summand.source = some (values summand.source)

instance (store : Store) (dest : String) (values : String → Word) (summands : List Summand) :
    Decidable (store.Provides dest values summands) :=
  inferInstanceAs (Decidable (∀ summand ∈ summands, _ ∧ _))

theorem Store.Provides.perm {store : Store} {dest : String} {values : String → Word}
    {order summands : List Summand} (h : store.Provides dest values summands)
    (horder : order.Perm summands) : store.Provides dest values order :=
  fun summand hmem => h summand (horder.subset hmem)

theorem Store.Provides.opposite {store : Store} {dest : String} {values : String → Word}
    {summands : List Summand} (h : store.Provides dest values summands) :
    store.Provides dest values (summands.map Summand.opposite) := by
  intro summand hmem
  obtain ⟨original, horiginal, rfl⟩ := List.mem_map.1 hmem
  simpa using h original horiginal

namespace Machine

/-! ## One step -/

section

variable {machine : Machine} {dest : String} {values : String → Word} {summand : Summand}

/-- A step stores the text of the value so far together with what the summand contributes. -/
theorem perform_summand {current : Word} (hdest : machine.store.word? dest = some current)
    (hsource : machine.store.word? summand.source = some (values summand.source)) :
    (machine.perform (summand.instruction dest)).fault = none ∧
      (machine.perform (summand.instruction dest)).machine.store =
        machine.store.set dest (.text (Word.hexOf (current.toInt + summand.amount values))) := by
  have hresult := summand.op.hex_apply current (values summand.source)
  rw [summand.exact_op, Option.map_some, Option.map_eq_some_iff] at hresult
  obtain ⟨result, happly, hhex⟩ := hresult
  obtain ⟨hfault, hstore⟩ := perform_binary hdest hsource happly
  exact ⟨hfault, hstore.trans (Store.set_congr _ dest hhex)⟩

/-- A step from a store that differs from an earlier one by the text of a sum. -/
theorem perform_summand_of_set {base : Store} (haligned : base.Aligned) {sum : Int}
    (hstore : machine.store = base.set dest (.text (Word.hexOf sum))) (hne : summand.source ≠ dest)
    (hsource : base.word? summand.source = some (values summand.source)) :
    (machine.perform (summand.instruction dest)).fault = none ∧
      (machine.perform (summand.instruction dest)).machine.store =
        base.set dest (.text (Word.hexOf (sum + summand.amount values))) := by
  obtain ⟨current, hread, hcurrent⟩ := Word.read_hexOf sum
  have hdest : machine.store.word? dest = some current := by
    rw [hstore, Store.word?_eq_some_iff]
    exact ⟨Word.hexOf sum, base.get?_set_self dest (.text (Word.hexOf sum)), hread⟩
  have hkept : machine.store.word? summand.source = some (values summand.source) := by
    rw [hstore, Store.word?, haligned.get?_set_of_ne (Ne.symm hne)]
    exact hsource
  obtain ⟨hfault, hafter⟩ := perform_summand hdest hkept
  refine ⟨hfault, ?_⟩
  -- the text of the sum so far leaves out a multiple of 2^32
  have hmod : current.toInt + summand.amount values ≡ sum + summand.amount values [ZMOD 2 ^ 32] := by
    rw [hcurrent]
    exact (Int.mod_modEq sum (2 ^ 32)).add_right _
  rw [hafter, hstore, Store.set_set, Word.hexOf_congr hmod]

end

/-! ## A run -/

/-- No instruction of a program has a fault, each on the machine that those before it have led to. -/
def Succeeds (machine : Machine) : List Instruction → Prop
  | [] => True
  | instruction :: rest =>
    (machine.perform instruction).fault = none ∧
      (machine.perform instruction).machine.Succeeds rest

section

variable {machine : Machine} {dest : String} {values : String → Word} {summands : List Summand}

theorem performAll_of_set {base : Store} (haligned : base.Aligned) {sum : Int}
    (hstore : machine.store = base.set dest (.text (Word.hexOf sum)))
    (hprovides : base.Provides dest values summands) :
    machine.Succeeds (summands.map (·.instruction dest)) ∧
      (machine.performAll (summands.map (·.instruction dest))).store =
        base.set dest (.text (Word.hexOf (sum + total values summands))) := by
  induction summands generalizing machine sum with
  | nil =>
    refine ⟨trivial, ?_⟩
    simpa [performAll, total] using hstore
  | cons first rest ih =>
    obtain ⟨hfirst, hrest⟩ := List.forall_mem_cons.1 hprovides
    obtain ⟨hfault, hafter⟩ := perform_summand_of_set haligned hstore hfirst.1 hfirst.2
    obtain ⟨hsucceeds, hlast⟩ := ih hafter hrest
    refine ⟨⟨hfault, hsucceeds⟩, ?_⟩
    rw [Summand.total_cons, ← Int.add_assoc]
    exact hlast

/-- **`performAll_summands`**: one summand or more leave the text of the exact sum. -/
theorem performAll_summands (haligned : machine.store.Aligned) {start : Word}
    (hdest : machine.store.word? dest = some start) (hne : summands ≠ [])
    (hprovides : machine.store.Provides dest values summands) :
    machine.Succeeds (summands.map (·.instruction dest)) ∧
      (machine.performAll (summands.map (·.instruction dest))).store =
        machine.store.set dest (.text (Word.hexOf (start.toInt + total values summands))) := by
  obtain ⟨first, rest, rfl⟩ := List.exists_cons_of_ne_nil hne
  obtain ⟨hfirst, hrest⟩ := List.forall_mem_cons.1 hprovides
  obtain ⟨hfault, hafter⟩ := perform_summand hdest hfirst.2
  obtain ⟨hsucceeds, hlast⟩ := performAll_of_set haligned hafter hrest
  refine ⟨⟨hfault, hsucceeds⟩, ?_⟩
  rw [Summand.total_cons, ← Int.add_assoc]
  exact hlast

end

/-- **`accumulation_ignores_order`**: on a machine that commands have led to, let a name stand for a
word, and let one name or more, other than it, be added to it or subtracted from it. In every order the
steps succeed and leave the text of the exact sum modulo 2^32. The opposite steps after them, again in
every order, succeed and leave the text of the word at the start. Keys and the texts under all other
names are the same throughout. -/
theorem accumulation_ignores_order (settings : Settings) (commands : List Command) (dest : String)
    (start : Word) (values : String → Word) (summands : List Summand)
    (hdest : ((fresh settings).obeyAll commands).store.word? dest = some start)
    (hne : summands ≠ [])
    (hprovides : ((fresh settings).obeyAll commands).store.Provides dest values summands)
    (order back : List Summand) (horder : order.Perm summands)
    (hback : back.Perm (summands.map Summand.opposite)) :
    let machine := (fresh settings).obeyAll commands
    let forward := order.map (·.instruction dest)
    let backward := back.map (·.instruction dest)
    let reached := machine.performAll forward
    let restored := reached.performAll backward
    (machine.Succeeds forward ∧
      reached.store.get? dest = some (Word.hexOf (start.toInt + total values summands))) ∧
    (reached.Succeeds backward ∧ restored.store.get? dest = some start.hex) ∧
    ∀ after ∈ [reached, restored], ∀ name, after.store.key? name = machine.store.key? name ∧
      (name ≠ dest → after.store.get? name = machine.store.get? name) := by
  intro machine forward backward reached restored
  have haligned : machine.store.Aligned := (declared_obeyAll settings commands).gapless.aligned
  have hnonempty : order ≠ [] := by
    rintro rfl
    exact hne horder.nil_eq.symm
  obtain ⟨hforward, hreached⟩ :=
    performAll_summands haligned hdest hnonempty (hprovides.perm horder)
  obtain ⟨hbackward, hrestored⟩ :=
    performAll_of_set haligned hreached (hprovides.opposite.perm hback)
  rw [Summand.total_perm values horder] at hreached hrestored
  rw [Summand.total_perm values hback, Summand.total_opposite, Int.add_neg_cancel_right,
    ← Word.hex_eq_hexOf] at hrestored
  -- both stores differ from the one at the start by a single write
  have hbound : dest ∈ machine.store.names := Store.mem_names_of_word? hdest
  have hframe : ∀ (after : Machine) (text : String),
      after.store = machine.store.set dest (.text text) →
      ∀ name, after.store.key? name = machine.store.key? name ∧
        (name ≠ dest → after.store.get? name = machine.store.get? name) := by
    intro after text hafter name
    rw [hafter]
    exact ⟨Store.key?_set_of_mem hbound _ name,
      fun hname => haligned.get?_set_of_ne (Ne.symm hname) _⟩
  refine ⟨⟨hforward, ?_⟩, ⟨hbackward, ?_⟩, ?_⟩
  · rw [hreached]
    exact Store.get?_set_self _ dest (.text _)
  · rw [hrestored]
    exact Store.get?_set_self _ dest (.text _)
  · rw [List.forall_mem_cons, List.forall_mem_singleton]
    exact ⟨hframe reached _ hreached, hframe restored _ hrestored⟩

/-- The least and the largest word, which take the exact sum out of the range of words. The text at the
start is not that of a word, and the text at the end is. -/
theorem accumulation_ignores_order_extreme :
    let machine := (fresh {}).obeyAll
      [.execute "A DB -1zz", .emit "B DW -8000000000000000", .execute "C DD 7fffffffffffffff"]
    let reached := machine.performAll
      [.binary .sub "A" "C", .binary .add "A" "B", .binary .sub "A" "C"]
    let restored := reached.performAll
      [.binary .add "A" "C", .binary .sub "A" "B", .binary .add "A" "C"]
    reached.store.get? "A" = some "1" ∧ restored.store.get? "A" = some "ffffffff" ∧
    restored.store.get? "B" = some "-8000000000000000" := by
  intro machine reached restored
  obtain ⟨⟨-, hreached⟩, ⟨-, hrestored⟩, hframe⟩ := accumulation_ignores_order {}
    [.execute "A DB -1zz", .emit "B DW -8000000000000000", .execute "C DD 7fffffffffffffff"] "A" (-1)
    (fun name => if name = "B" then Int64.minValue else Int64.maxValue)
    [.add "B", .sub "C", .sub "C"] (by decide) (by decide) (by decide)
    [.sub "C", .add "B", .sub "C"] [.add "C", .sub "B", .add "C"] (by decide) (by decide)
  have htext : restored.store.get? "B" = machine.store.get? "B" :=
    (hframe restored (.tail _ (.head _)) "B").2 (by decide)
  exact ⟨hreached.trans (by decide), hrestored.trans (by decide), htext.trans (by decide)⟩

end Machine

end HexMachine
