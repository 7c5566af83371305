import HexMachine.Proofs.Machine.Targets
import Mathlib.Logic.Equiv.Basic

/-!
# An exchange undoes itself

An exchange writes twice, and the second write may hit the name of the first. What it comes to is a
transposition: after it, there is under every name what was before under the name it is exchanged for,
`get?_exchange`. Names and keys stay, and a store without gaps is determined by its names in order and
its texts. So the algebra of transpositions carries over to stores. Main statement
`exchange_undoes_itself`: a second exchange of the same names, in either order, restores the store, and
the order of the names does not matter in the first place.
-/
namespace HexMachine.Machine

section

variable {machine : Machine} {a b : String}

/-- An exchange succeeds if both names are bound to texts that can be read. -/
theorem fault_exchange_eq_none_iff :
    (machine.perform (.exchange a b)).fault = none ↔
      (machine.store.word? a).isSome ∧ (machine.store.word? b).isSome := by
  constructor
  · intro h
    obtain ⟨list, hwrites⟩ := writes_of_success h
    obtain ⟨texts, hpair, -⟩ := ok_of_map hwrites
    exact (numericPair_eq_ok_iff.1 hpair).2
  · rintro ⟨ha, hb⟩
    obtain ⟨first, hfirst⟩ := Option.isSome_iff_exists.1 ha
    obtain ⟨second, hsecond⟩ := Option.isSome_iff_exists.1 hb
    obtain ⟨text, htext, -⟩ := Store.word?_eq_some_iff.1 hfirst
    obtain ⟨other, hother, -⟩ := Store.word?_eq_some_iff.1 hsecond
    have hpair : machine.numericPair a b = .ok (text, other) :=
      numericPair_eq_ok_iff.2 ⟨⟨htext, hother⟩, ha, hb⟩
    have hwrites : machine.writes (.exchange a b) = .ok [(a, .text other), (b, .text text)] := by
      rw [writes, hpair]
      rfl
    exact (perform_of_writes hwrites).1

/-- **`get?_exchange`**: an exchange puts under each name the text of the name it is exchanged for. -/
theorem get?_exchange (haligned : machine.store.Aligned)
    (h : (machine.perform (.exchange a b)).fault = none) (name : String) :
    (machine.perform (.exchange a b)).machine.store.get? name =
      machine.store.get? (Equiv.swap a b name) := by
  obtain ⟨first, second, ha, hb, hafter, hafter'⟩ := leaves_perform haligned h
  by_cases hna : name = a
  · rw [hna, Equiv.swap_apply_left, hafter, hb]
  · by_cases hnb : name = b
    · rw [hnb, Equiv.swap_apply_right, hafter', ha]
    · rw [Equiv.swap_apply_of_ne_of_ne hna hnb]
      exact get?_perform_of_not_mem haligned (by simp [hna, hnb])

theorem word?_exchange (haligned : machine.store.Aligned)
    (h : (machine.perform (.exchange a b)).fault = none) (name : String) :
    (machine.perform (.exchange a b)).machine.store.word? name =
      machine.store.word? (Equiv.swap a b name) := by
  rw [Store.word?, get?_exchange haligned h, Store.word?]

theorem names_exchange (machine : Machine) (a b : String) :
    (machine.perform (.exchange a b)).machine.store.names = machine.store.names := by
  have hnone : machine.binds? (.exchange a b) = none := by
    unfold binds?
    split <;> rfl
  rw [names_perform, hnone]
  exact List.append_nil _

/-- The order of the names does not matter. -/
theorem exchange_comm (hgapless : machine.store.Gapless)
    (h : (machine.perform (.exchange a b)).fault = none) :
    (machine.perform (.exchange b a)).fault = none ∧
      (machine.perform (.exchange b a)).machine.store =
        (machine.perform (.exchange a b)).machine.store := by
  have hother : (machine.perform (.exchange b a)).fault = none :=
    fault_exchange_eq_none_iff.2 (fault_exchange_eq_none_iff.1 h).symm
  refine ⟨hother, (gapless_perform hgapless _).ext (gapless_perform hgapless _) ?_ fun name => ?_⟩
  · rw [names_exchange, names_exchange]
  · rw [get?_exchange hgapless.aligned hother, get?_exchange hgapless.aligned h, Equiv.swap_comm]

/-- The second of two exchanges succeeds and restores the store. -/
theorem exchange_exchange (hgapless : machine.store.Gapless)
    (h : (machine.perform (.exchange a b)).fault = none) :
    ((machine.perform (.exchange a b)).machine.perform (.exchange a b)).fault = none ∧
      ((machine.perform (.exchange a b)).machine.perform (.exchange a b)).machine.store =
        machine.store := by
  have haligned := hgapless.aligned
  have hswapped := gapless_perform hgapless (.exchange a b)
  have hagain :
      ((machine.perform (.exchange a b)).machine.perform (.exchange a b)).fault = none := by
    rw [fault_exchange_eq_none_iff, word?_exchange haligned h, word?_exchange haligned h,
      Equiv.swap_apply_left, Equiv.swap_apply_right]
    exact (fault_exchange_eq_none_iff.1 h).symm
  refine ⟨hagain, (gapless_perform hswapped _).ext hgapless ?_ fun name => ?_⟩
  · rw [names_exchange, names_exchange]
  · rw [get?_exchange hswapped.aligned hagain, get?_exchange haligned h, Equiv.swap_apply_self]

end

/-- **`exchange_undoes_itself`**: on a machine that commands have led to, if an exchange of two names
succeeds, then the same exchange once more, or that with the names in the other order, succeeds and
restores the store; and the exchange with the names in the other order, in place of the first, succeeds
and leaves the same store. -/
theorem exchange_undoes_itself (settings : Settings) (commands : List Command) (a b : String) :
    let machine := (fresh settings).obeyAll commands
    let exchanged := machine.perform (.exchange a b)
    exchanged.fault = none →
    (∀ again ∈ [Instruction.exchange a b, Instruction.exchange b a],
      (exchanged.machine.perform again).fault = none ∧
      (exchanged.machine.perform again).machine.store = machine.store) ∧
    (machine.perform (.exchange b a)).fault = none ∧
    (machine.perform (.exchange b a)).machine.store = exchanged.machine.store := by
  intro machine exchanged h
  have hgapless : machine.store.Gapless := (declared_obeyAll settings commands).gapless
  have hagain := exchange_exchange hgapless h
  refine ⟨?_, exchange_comm hgapless h⟩
  rw [List.forall_mem_cons, List.forall_mem_singleton]
  refine ⟨hagain, ?_⟩
  obtain ⟨hfault, hstore⟩ := exchange_comm (gapless_perform hgapless (.exchange a b)) hagain.1
  exact ⟨hfault, hstore.trans hagain.2⟩

/-- A negative text with a marker and trailing characters against a plain one, and a name with
itself. -/
theorem exchange_undoes_itself_verbatim :
    let machine := (fresh {}).obeyAll [.execute "A DB -0x5zz", .emit "B DW 00ff"]
    let exchanged := machine.perform (.exchange "A" "B")
    exchanged.machine.store.get? "A" = some "00ff" ∧
    (exchanged.machine.perform (.exchange "B" "A")).machine.store = machine.store ∧
    (machine.perform (.exchange "B" "A")).machine.store = exchanged.machine.store ∧
    ((machine.perform (.exchange "A" "A")).machine.perform (.exchange "A" "A")).fault = none := by
  intro machine exchanged
  have hundo := exchange_undoes_itself {} [.execute "A DB -0x5zz", .emit "B DW 00ff"]
  obtain ⟨hagain, -, hstore⟩ := hundo "A" "B" (by decide)
  obtain ⟨hself, -⟩ := hundo "A" "A" (by decide)
  exact ⟨by decide, (hagain (.exchange "B" "A") (by simp)).2, hstore,
    (hself (.exchange "A" "A") (by simp)).1⟩

end HexMachine.Machine
