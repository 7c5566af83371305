import HexMachine.Proofs.Machine.Independence

/-!
# An instruction changes its targets and nothing else

Main statement `success_changes_targets_only`: on every machine that commands lead to, an instruction
without a fault leaves the text and the key of every name that it does not write, takes no name its
key, and issues a key only if it declares a name that is not bound. What it leaves under the names it
writes is `Instruction.Leaves`, which is said in terms of the texts before it alone. Operands may be
one and the same name: an exchange of a name with itself writes the name twice, and leaves its text.

What the checks of an instruction let pass is said once, as an equivalence for each of them, in terms
of the words under the operands.
-/
namespace HexMachine

/-! ## What the checks let pass -/

/-- The word under a name, if there is a text and it can be read. -/
def Store.word? (store : Store) (name : String) : Option Word :=
  (store.get? name).bind fun text => (Word.read text).toOption

theorem Store.word?_eq_some_iff {store : Store} {name : String} {word : Word} :
    store.word? name = some word ↔
      ∃ text, store.get? name = some text ∧ Word.read text = .ok word := by
  rw [word?, Option.bind_eq_some_iff]
  refine exists_congr fun text => and_congr_right fun _ => ?_
  cases Word.read text with
  | ok found => simp [Except.toOption]
  | error error => simp [Except.toOption]

theorem Store.mem_names_of_word? {store : Store} {name : String} {word : Word}
    (h : store.word? name = some word) : name ∈ store.names := by
  obtain ⟨text, htext, -⟩ := word?_eq_some_iff.1 h
  exact mem_names_of_get? htext

namespace Machine

section

variable {machine : Machine} {dest src : String}

theorem fetch_of_get? {name text : String} (h : machine.store.get? name = some text)
    (operand : Operand) : machine.fetch operand name = .ok text := by
  simp only [fetch, h]

theorem numeric_of_read {text : String} {word : Word} (h : Word.read text = .ok word) :
    numeric text = .ok word := by
  simp only [numeric, h]

theorem fetchPair_of_get? {texts : String × String} (hdest : machine.store.get? dest = some texts.1)
    (hsrc : machine.store.get? src = some texts.2) : machine.fetchPair dest src = .ok texts := by
  rw [fetchPair, fetch_of_get? hdest, fetch_of_get? hsrc]
  rfl

theorem wordAt_eq_ok_iff {word : Word} :
    machine.wordAt dest = .ok word ↔ machine.store.word? dest = some word := by
  rw [Store.word?_eq_some_iff]
  refine ⟨read_of_wordAt, ?_⟩
  rintro ⟨text, htext, hread⟩
  rw [wordAt, fetch_of_get? htext]
  exact numeric_of_read hread

/-- Both operands of a copy or an exchange have to stand for words. -/
theorem numericPair_eq_ok_iff {texts : String × String} :
    machine.numericPair dest src = .ok texts ↔
      (machine.store.get? dest = some texts.1 ∧ machine.store.get? src = some texts.2) ∧
      (machine.store.word? dest).isSome ∧ (machine.store.word? src).isSome := by
  simp only [Option.isSome_iff_exists, Store.word?_eq_some_iff]
  constructor
  · intro h
    obtain ⟨found, hfound, h⟩ := ok_of_bind h
    obtain ⟨lhs, hlhs, h⟩ := ok_of_bind h
    obtain ⟨rhs, hrhs, h⟩ := ok_of_bind h
    cases h
    obtain ⟨hdest, hsrc⟩ := get?_of_fetchPair hfound
    exact ⟨⟨hdest, hsrc⟩, ⟨lhs, _, hdest, read_of_numeric hlhs⟩, rhs, _, hsrc, read_of_numeric hrhs⟩
  · rintro ⟨⟨hdest, hsrc⟩, ⟨lhs, destText, hdestText, hlhs⟩, rhs, srcText, hsrcText, hrhs⟩
    rw [hdest, Option.some.injEq] at hdestText
    rw [hsrc, Option.some.injEq] at hsrcText
    subst hdestText hsrcText
    rw [numericPair, fetchPair_of_get? hdest hsrc]
    simp only [bind, Except.bind, numeric_of_read hlhs, numeric_of_read hrhs]
    rfl

/-- A binary operation succeeds if both operands stand for words that have a result. -/
theorem binaryResult_eq_ok_iff {op : BinaryOp} {result : Word} :
    machine.binaryResult op dest src = .ok result ↔
      ∃ lhs rhs, machine.store.word? dest = some lhs ∧ machine.store.word? src = some rhs ∧
        op.apply lhs rhs = some result := by
  simp only [Store.word?_eq_some_iff]
  constructor
  · intro h
    obtain ⟨texts, htexts, h⟩ := ok_of_bind h
    obtain ⟨lhs, hlhs, h⟩ := ok_of_bind h
    obtain ⟨rhs, hrhs, h⟩ := ok_of_bind h
    obtain ⟨hdest, hsrc⟩ := get?_of_fetchPair htexts
    refine ⟨lhs, rhs, ⟨_, hdest, read_of_numeric hlhs⟩, ⟨_, hsrc, read_of_numeric hrhs⟩, ?_⟩
    cases hresult : op.apply lhs rhs with
    | none =>
      simp only [hresult] at h
      cases h
    | some word =>
      simp only [hresult] at h
      exact congrArg some (Except.ok.inj h)
  · rintro ⟨lhs, rhs, ⟨destText, hdest, hlhs⟩, ⟨srcText, hsrc, hrhs⟩, hresult⟩
    have hpair : machine.fetchPair dest src = .ok (destText, srcText) := fetchPair_of_get? hdest hsrc
    rw [binaryResult, hpair]
    simp only [bind, Except.bind, numeric_of_read hlhs, numeric_of_read hrhs, hresult]

end

end Machine

/-! ## What is left under the targets -/

/-- What an instruction leaves under the names it writes, in terms of what was there before: a literal
as it is, a text that was copied or exchanged as it was, or the text of a word that was computed. -/
def Instruction.Leaves (rule : DecrementRule) (before after : Store) : Instruction → Prop
  | .declare name _ literal => after.get? name = some literal
  | .binary op dest src =>
    ∃ lhs rhs result, before.word? dest = some lhs ∧ before.word? src = some rhs ∧
      op.apply lhs rhs = some result ∧ after.get? dest = some result.hex
  | .move dest src => ∃ text, before.get? src = some text ∧ after.get? dest = some text
  | .exchange dest src =>
    ∃ destText srcText, before.get? dest = some destText ∧ before.get? src = some srcText ∧
      after.get? dest = some srcText ∧ after.get? src = some destText
  | .increment dest =>
    ∃ word, before.word? dest = some word ∧ after.get? dest = some (word + 1).hex
  | .decrement dest =>
    ∃ word, before.word? dest = some word ∧
      match rule with
      | .legacy => after.get? dest = some (word + 2).hex
      | .subtract => after.get? dest = some (word - 1).hex

/-- Whether an instruction declares a name that is not bound. -/
def Instruction.declaresNew (store : Store) (instruction : Instruction) : Bool :=
  instruction.declares?.any fun name => (store.key? name).isNone

namespace Store

/-- Two texts that change places do so even if both are under one name. -/
theorem Aligned.get?_exchanged {store : Store} (h : store.Aligned) {dest src first second : String}
    (hdest : store.get? dest = some first) (hsrc : store.get? src = some second) :
    ((store.set dest (.text second)).set src (.text first)).get? dest = some second ∧
      ((store.set dest (.text second)).set src (.text first)).get? src = some first := by
  refine ⟨?_, get?_set_self _ src (.text first)⟩
  rw [(h.set dest (.text second)).get?_set]
  by_cases hsame : src = dest
  · rw [if_pos hsame]
    rw [hsame, hdest] at hsrc
    exact hsrc
  · rw [if_neg hsame]
    exact get?_set_self store dest (.text second)

end Store

namespace Machine

section

variable {machine : Machine} {instruction : Instruction}

/-- A binary operation on words that have a result succeeds and stores it. -/
theorem perform_binary {op : BinaryOp} {dest src : String} {lhs rhs result : Word}
    (hdest : machine.store.word? dest = some lhs) (hsrc : machine.store.word? src = some rhs)
    (happly : op.apply lhs rhs = some result) :
    (machine.perform (.binary op dest src)).fault = none ∧
      (machine.perform (.binary op dest src)).machine.store =
        machine.store.set dest (.word result) := by
  have hresult : machine.binaryResult op dest src = .ok result :=
    binaryResult_eq_ok_iff.2 ⟨lhs, rhs, hdest, hsrc, happly⟩
  have hwrites : machine.writes (.binary op dest src) = .ok [(dest, .word result)] := by
    rw [writes, hresult]
    rfl
  exact perform_of_writes hwrites

/-- The counter of keys moves on when a declaration binds a name, and at no other time. -/
theorem nextKey_perform (hgapless : machine.store.Gapless)
    (h : (machine.perform instruction).fault = none) :
    (machine.perform instruction).machine.store.nextKey =
      machine.store.nextKey + if instruction.declaresNew machine.store then 1 else 0 := by
  have hbinds : (machine.binds? instruction).toList.length =
      if instruction.declaresNew machine.store then 1 else 0 := by
    rw [binds?, h, Instruction.declaresNew]
    cases instruction.declares? with
    | none => rfl
    | some name => cases hkey : machine.store.key? name <;> simp [hkey]
  rw [(gapless_perform hgapless instruction).next, names_perform, List.length_append, hbinds,
    hgapless.next]
  omega

/-- **`leaves_perform`**: the texts that an instruction leaves, one kind of instruction at a time. -/
theorem leaves_perform (haligned : machine.store.Aligned)
    (h : (machine.perform instruction).fault = none) :
    instruction.Leaves machine.settings.decrement machine.store
      (machine.perform instruction).machine.store := by
  obtain ⟨list, hwrites⟩ := writes_of_success h
  rw [(perform_of_writes hwrites).2]
  cases instruction with
  | declare name width literal =>
    obtain ⟨_, -, rfl⟩ := ok_of_map hwrites
    exact Store.get?_set_self _ name (.text literal)
  | binary op dest src =>
    obtain ⟨result, hresult, rfl⟩ := ok_of_map hwrites
    obtain ⟨lhs, rhs, hlhs, hrhs, happly⟩ := binaryResult_eq_ok_iff.1 hresult
    exact ⟨lhs, rhs, result, hlhs, hrhs, happly, Store.get?_set_self _ dest (.word result)⟩
  | move dest src =>
    obtain ⟨texts, htexts, rfl⟩ := ok_of_map hwrites
    obtain ⟨_, -, hpair⟩ := ok_of_bind htexts
    obtain ⟨⟨-, hsrc⟩, -⟩ := numericPair_eq_ok_iff.1 hpair
    exact ⟨texts.2, hsrc, Store.get?_set_self _ dest (.text texts.2)⟩
  | exchange dest src =>
    obtain ⟨texts, hpair, rfl⟩ := ok_of_map hwrites
    obtain ⟨⟨hdest, hsrc⟩, -⟩ := numericPair_eq_ok_iff.1 hpair
    exact ⟨texts.1, texts.2, hdest, hsrc, haligned.get?_exchanged hdest hsrc⟩
  | increment dest =>
    obtain ⟨word, hword, rfl⟩ := ok_of_map hwrites
    exact ⟨word, wordAt_eq_ok_iff.1 hword, Store.get?_set_self _ dest (.word (word + 1))⟩
  | decrement dest =>
    obtain ⟨word, hword, rfl⟩ := ok_of_map hwrites
    refine ⟨word, wordAt_eq_ok_iff.1 hword, ?_⟩
    cases hrule : machine.settings.decrement with
    | legacy =>
      have hdelta : machine.decrementDelta = 2 := by
        rw [decrementDelta, hrule]
        decide
      rw [hdelta]
      exact Store.get?_set_self _ dest (.word (word + 2))
    | subtract =>
      have hdelta : word + machine.decrementDelta = word - 1 := by
        rw [decrementDelta, hrule, Int64.sub_eq_add_neg]
      rw [hdelta]
      exact Store.get?_set_self _ dest (.word (word - 1))

end

/-- **`success_changes_targets_only`**: on a machine that commands have led to, an instruction without
a fault leaves every name that it does not write with the key and the text it had; a name that was
bound keeps its key; the next key moves on by one if an unbound name is declared, and stays otherwise;
settings and line counter are as they were; and under the names written are the texts of
`Instruction.Leaves`. -/
theorem success_changes_targets_only (settings : Settings) (commands : List Command)
    (instruction : Instruction) :
    let before := (fresh settings).obeyAll commands
    let after := (before.perform instruction).machine
    (before.perform instruction).fault = none →
    (∀ name, name ∉ instruction.written →
      after.store.key? name = before.store.key? name ∧
      after.store.get? name = before.store.get? name) ∧
    (∀ name key, before.store.key? name = some key → after.store.key? name = some key) ∧
    (after.store.nextKey = before.store.nextKey +
      if instruction.declaresNew before.store then 1 else 0) ∧
    (after.settings = before.settings ∧ after.line = before.line) ∧
    instruction.Leaves settings.decrement before.store after.store := by
  intro before after hfault
  have hgapless : before.store.Gapless := (declared_obeyAll settings commands).gapless
  have hchange : Change before.store (some instruction) none after.store :=
    hfault ▸ before.perform_change instruction
  have hrule : before.settings.decrement = settings.decrement := by rw [obeyAll_settings]; rfl
  refine ⟨fun name hname =>
      ⟨key?_perform_of_not_mem hname, get?_perform_of_not_mem hgapless.aligned hname⟩,
    fun _ _ => hchange.key?_of_some, nextKey_perform hgapless hfault,
    ⟨before.perform_settings instruction, before.perform_line instruction⟩, ?_⟩
  rw [← hrule]
  exact leaves_perform hgapless.aligned hfault

/-- An exchange of a name with itself, which keeps the text as it is; a legacy decrement that wraps
around; and a declaration that issues a key. -/
theorem success_changes_targets_only_aliased :
    let before := (fresh {}).obeyAll [.execute "A DB ffffffff", .emit "B DW -0x5zz"]
    let exchanged := (before.perform (.exchange "B" "B")).machine
    let decremented := (before.perform (.decrement "A")).machine
    let extended := (before.perform (.declare "C" .byte "")).machine
    (exchanged.store.get? "B" = some "-0x5zz" ∧ exchanged.store.get? "A" = some "ffffffff") ∧
    decremented.store.get? "A" = some "1" ∧
    (extended.store.nextKey = 4 ∧ extended.store.key? "B" = some ⟨2⟩) := by
  intro before exchanged decremented extended
  have hchanges := success_changes_targets_only {} [.execute "A DB ffffffff", .emit "B DW -0x5zz"]
  refine ⟨?_, ?_, ?_⟩
  · obtain ⟨hframe, -, -, -, first, second, hfirst, hsecond, hafter, -⟩ :=
      hchanges (.exchange "B" "B") (by decide)
    have hsame : before.store.get? "B" = some "-0x5zz" := by decide
    refine ⟨hafter.trans (hsecond.symm.trans hsame), (hframe "A" (by decide)).2.trans (by decide)⟩
  · obtain ⟨-, -, -, -, word, hword, hafter⟩ := hchanges (.decrement "A") (by decide)
    obtain rfl : word = 0xffffffff := by
      have hread : before.store.word? "A" = some 0xffffffff := by decide
      exact Option.some.inj (hword.symm.trans hread)
    exact hafter.trans (by decide)
  · obtain ⟨-, hkeys, hnext, -⟩ := hchanges (.declare "C" .byte "") (by decide)
    exact ⟨hnext.trans (by decide), hkeys "B" ⟨2⟩ (by decide)⟩

end Machine

end HexMachine
