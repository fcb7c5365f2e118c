import Acceptor.Proofs.BoundedStack

/-!
# A stack as a bounded list

What a stack shows is a list of at most `capacity` values, how many values it has dropped, and its mode.
Its operations are those of that list, whatever is left in the cells above the top
(`answers_contents`).
-/

namespace Acceptor.BoundedStack

variable {s : BoundedStack} {op : Op}

structure Contents where
  items : List Int
  dropped : Nat
  strict : Bool
  deriving DecidableEq, Repr

/-- The operations of a list of at most `capacity` values. -/
def Contents.perform (capacity : Nat) (a : Contents) : Op → Logged (Contents × Except Fault Answer)
  | .push x =>
      if a.items.length < capacity then ⟨({ a with items := a.items ++ [x] }, .ok .none), []⟩
      else if a.strict then ⟨(a, .error (.stackFull capacity)), []⟩
      else
        ⟨({ a with dropped := a.dropped + 1 }, .ok .none),
          [⟨.stack, .warning, s!"stack is full, dropping {x}"⟩]⟩
  | .pop =>
      match a.items.getLast? with
      | some x => ⟨({ a with items := a.items.dropLast }, .ok (.number x)), []⟩
      | none =>
          if a.strict then ⟨(a, .error .stackEmpty), []⟩
          else ⟨(a, .ok (.number (-1))), [⟨.stack, .warning, "stack is empty"⟩]⟩
  | .peek => ⟨(a, .ok (.number (a.items.getLast?.getD (-1)))), []⟩
  | .clear => ⟨({ a with items := [] }, .ok .none), []⟩
  | .isEmpty => ⟨(a, .ok (.flag a.items.isEmpty)), []⟩
  | .isFull => ⟨(a, .ok (.flag (a.items.length == capacity))), []⟩
  | .size => ⟨(a, .ok (.number a.items.length)), []⟩
  | .toList => ⟨(a, .ok (.list a.items)), []⟩
  | .capacity => ⟨(a, .ok (.number capacity)), []⟩
  | .setStrict strict => ⟨({ a with strict }, .ok .none), []⟩

def contents (s : BoundedStack) : Contents := ⟨s.toList, s.dropped, s.strict⟩

def answers {σ : Type} (act : σ → Op → Logged (σ × Except Fault Answer)) (s : σ) :
    List Op → List (Logged (Except Fault Answer)) × σ
  | [] => ([], s)
  | op :: ops =>
      let r := act s op
      let rest := answers act r.value.1 ops
      (⟨r.value.2, r.log⟩ :: rest.1, rest.2)

/-! ## One operation -/

def shown (s : BoundedStack) (op : Op) : Logged (Contents × Except Fault Answer) :=
  let r := s.perform op
  ⟨(r.value.1.contents, r.value.2), r.log⟩

theorem shown_push (s : BoundedStack) (x : Int) :
    s.shown (.push x) = s.contents.perform s.capacity (.push x) := by
  by_cases room : s.count < s.capacity
  · obtain ⟨-, dropped⟩ := write_kept x room
    have strict : (s.write x room).strict = s.strict := by
      unfold write
      split <;> rfl
    simp [shown, perform, push_of_room room, Contents.perform, contents, length_toList, room,
      toList_write, dropped, strict]
  · have full : s.count = s.capacity := Nat.le_antisymm s.count_le_capacity (Nat.not_lt.1 room)
    have noRoom : ¬ s.contents.items.length < s.capacity := by
      rw [contents, length_toList]
      exact room
    simp only [Contents.perform, if_neg noRoom]
    cases strict : s.strict with
    | true => simp [shown, perform, push_of_full full strict, contents, strict]
    | false =>
        simp only [shown, perform, push, dif_neg room, contents, strict, Bool.false_eq_true, if_false]
        rfl

theorem toList_of_empty (empty : s.count = 0) : s.toList = [] :=
  List.eq_nil_of_length_eq_zero (by rw [length_toList, empty])

theorem getLast?_toList (nonempty : s.count ≠ 0) (inside : s.count - 1 < s.cells.size) :
    s.toList.getLast? = some s.cells[s.count - 1] := by
  rw [List.getLast?_eq_getElem?, length_toList]
  simp only [toList]
  rw [List.getElem?_take_of_lt (by omega), Array.getElem?_toList, Array.getElem?_eq_getElem]

theorem shown_pop (s : BoundedStack) : s.shown .pop = s.contents.perform s.capacity .pop := by
  by_cases empty : s.count = 0
  · have none := toList_of_empty empty
    cases strict : s.strict with
    | true => simp [shown, perform, pop, Contents.perform, contents, none, empty, strict]
    | false =>
        simp [shown, perform, pop, Contents.perform, contents, none, empty, strict, nothing]
  · have inside := s.count_le
    have last := getLast?_toList empty (by omega)
    have rest : s.toList.dropLast = s.cells.toList.take (s.count - 1) := by
      rw [List.dropLast_eq_take, length_toList]
      simp only [toList, List.take_take]
      congr 1
      omega
    simp only [shown, perform, pop, dif_neg empty, Contents.perform, contents, last, rest]
    rfl

theorem shown_peek (s : BoundedStack) : s.shown .peek = s.contents.perform s.capacity .peek := by
  have top : s.peek = s.toList.getLast?.getD (-1) := by
    by_cases empty : s.count = 0
    · rw [peek, dif_pos empty, toList_of_empty empty]
      rfl
    · have inside := s.count_le
      rw [peek, dif_neg empty, getLast?_toList empty (by omega), Option.getD_some]
  simp only [shown, perform, top]
  rfl

theorem isEmpty_toList (s : BoundedStack) : s.toList.isEmpty = s.isEmpty := by
  rw [isEmpty, Bool.eq_iff_iff, List.isEmpty_iff_length_eq_zero, length_toList, beq_iff_eq]

theorem shown_eq (s : BoundedStack) (op : Op) :
    s.shown op = s.contents.perform s.capacity op := by
  cases op with
  | push x => exact shown_push s x
  | pop => exact shown_pop s
  | peek => exact shown_peek s
  | clear => simp [shown, perform, Contents.perform, contents, clear, toList]
  | isEmpty => simp [shown, perform, Contents.perform, contents, isEmpty_toList]
  | isFull => simp [shown, perform, Contents.perform, contents, isFull, length_toList]
  | size => simp [shown, perform, Contents.perform, contents, length_toList]
  | toList | capacity | setStrict => rfl

theorem capacity_perform (s : BoundedStack) (op : Op) :
    (s.perform op).value.1.capacity = s.capacity := by
  cases op with
  | push x =>
      by_cases room : s.count < s.capacity
      · simp only [perform, push_of_room room]
        exact (write_kept x room).1
      · cases strict : s.strict <;> simp [perform, push, room, strict]
  | pop =>
      by_cases empty : s.count = 0
      · cases strict : s.strict <;> simp [perform, pop, empty, strict]
      · simp [perform, pop, empty]
  | _ => rfl

/-! ## The cells -/

def top (s : BoundedStack) : Int := s.count - 1

structure Laid (s : BoundedStack) : Prop where
  cells : s.storage.length = s.capacity
  top : -1 ≤ s.top ∧ s.top < s.capacity
  empty : s.top = -1 ↔ s.toList = []
  full : s.top = s.capacity - 1 ↔ s.toList.length = s.capacity
  values : s.toList.length ≤ s.capacity ∧ s.toList = s.storage.take (s.top + 1).toNat

theorem laid (s : BoundedStack) : s.Laid where
  cells := by
    have := s.size_le
    simp only [storage, List.length_append, Array.length_toList, List.length_replicate]
    omega
  top := by
    have := s.count_le_capacity
    unfold BoundedStack.top
    omega
  empty := by
    rw [← List.length_eq_zero_iff, length_toList, BoundedStack.top]
    omega
  full := by
    rw [length_toList, BoundedStack.top]
    omega
  values := by
    have inside : s.count ≤ s.cells.toList.length := Array.length_toList ▸ s.count_le
    refine ⟨by rw [length_toList]; exact s.count_le_capacity, ?_⟩
    rw [BoundedStack.top, Int.sub_add_cancel, Int.toNat_natCast, storage, toList,
      List.take_append_of_le_length inside]

/-- A push with no room, or a pop with nothing to give. -/
inductive Misses (s : BoundedStack) : Op → Prop
  | overflow {x} (full : s.toList.length = s.capacity) : Misses s (.push x)
  | underflow (empty : s.toList = []) : Misses s .pop

structure SameCells (s s' : BoundedStack) : Prop where
  storage : s'.storage = s.storage
  top : s'.top = s.top
  toList : s'.toList = s.toList

theorem perform_push_of_full (full : s.count = s.capacity) (x : Int) :
    (s.perform (.push x)).value.1 =
      if s.strict then s else { s with dropped := s.dropped + 1 } := by
  rw [perform]
  by_cases strict : s.strict = true
  · rw [push_of_full full strict, if_pos strict]
  · rw [if_neg strict]
    have pushed := push_of_full_lenient full (Bool.not_eq_true _ ▸ strict) x
    cases push : s.push x with
    | mk value log =>
        rw [push] at pushed
        cases pushed
        rfl

theorem perform_pop_of_empty (empty : s.count = 0) : (s.perform .pop).value.1 = s := by
  rw [perform, pop, dif_pos empty]
  cases s.strict <;> rfl

theorem perform_of_misses (misses : s.Misses op) :
    s.SameCells (s.perform op).value.1 ∧ (s.strict = true → (s.perform op).value.1 = s) := by
  cases misses with
  | @overflow x full =>
      rw [length_toList] at full
      rw [perform_push_of_full full]
      cases s.strict with
      | true => exact ⟨⟨rfl, rfl, rfl⟩, fun _ => rfl⟩
      | false => exact ⟨⟨rfl, rfl, rfl⟩, nofun⟩
  | underflow empty =>
      have none : s.count = 0 := by rw [← length_toList, empty, List.length_nil]
      rw [perform_pop_of_empty none]
      exact ⟨⟨rfl, rfl, rfl⟩, fun _ => rfl⟩

/-! ## Operations in a row -/

theorem answers_contents (s : BoundedStack) (ops : List Op) :
    answers (Contents.perform s.capacity) s.contents ops =
        ((answers perform s ops).1, (answers perform s ops).2.contents) ∧
      (answers perform s ops).2.capacity = s.capacity := by
  induction ops generalizing s with
  | nil => exact ⟨rfl, rfl⟩
  | cons op ops ih =>
      obtain ⟨rest, size⟩ := ih (s.perform op).value.1
      rw [capacity_perform] at rest size
      simp only [answers, ← shown_eq s op, shown, rest, size, and_self]

/-- A stack of `capacity` cells does what a list of at most as many values does, in either mode and over
all operations. A value above the top is never seen, and an operation that misses leaves the cells, the
top and the values as they are. A stack with more cells than fit in memory cannot be made. -/
theorem refines_list [Memory] :
    (∀ capacity : Int, 1 ≤ capacity → capacity ≤ Memory.maxCells → ∀ strict,
      ∃ s, ofCapacity capacity strict = .ok s ∧ s.capacity = capacity.toNat ∧
        ∀ ops,
          let after := (answers perform s ops).2
          answers (Contents.perform capacity.toNat) ⟨[], 0, strict⟩ ops =
              ((answers perform s ops).1, after.contents) ∧
            after.capacity = capacity.toNat ∧ after.Laid ∧
            (∀ op, after.Misses op → after.SameCells (after.perform op).value.1 ∧
              (after.strict = true → (after.perform op).value.1 = after)) ∧
            ∀ other : BoundedStack, other.capacity = after.capacity →
              other.contents = after.contents → ∀ more,
                (answers perform other more).1 = (answers perform after more).1) ∧
    ∀ capacity : Int, Memory.maxCells < capacity → ∀ strict,
      ofCapacity capacity strict = .error (if isIndex capacity then .outOfMemory else .uncountable) := by
  refine ⟨fun capacity positive fits strict => ?_, fun capacity large strict =>
    ofCapacity_of_gt large strict⟩
  obtain ⟨s, size, count, dropped, made⟩ := ofCapacity_of_le positive fits
  have empty : s.toList = [] := List.eq_nil_of_length_eq_zero (by rw [length_toList, count])
  have fresh : (s.withMode strict).contents = ⟨[], 0, strict⟩ := by
    rw [contents, show (s.withMode strict).toList = s.toList from rfl, empty]
    exact congrArg (Contents.mk [] · strict) dropped
  refine ⟨s.withMode strict, made strict, size, fun ops => ?_⟩
  intro after
  obtain ⟨same, kept⟩ := answers_contents (s.withMode strict) ops
  rw [fresh, show (s.withMode strict).capacity = capacity.toNat from size] at same
  refine ⟨same, kept.trans size, laid after, fun op misses => perform_of_misses misses, ?_⟩
  intro other cells alike more
  have here := (answers_contents after more).1
  have there := (answers_contents other more).1
  rw [cells, alike, here] at there
  exact (congrArg Prod.fst there).symm

theorem refines_list_mixed :
    let _ : Memory := Host.usual.toMemory
    let ops := [.push 4, .push 5, .push 6, .pop, .setStrict true, .clear, .pop, .push 7, .push 8]
    2 ≤ Memory.maxCells ∧ ∃ s, ofCapacity 2 false = .ok s ∧
      let after := (answers perform s ops).2
      answers (Contents.perform 2) ⟨[], 0, false⟩ ops = ((answers perform s ops).1, after.contents) ∧
        after.contents = ⟨[7, 8], 1, true⟩ ∧ after.Laid ∧
        after.Misses (.push 9) ∧ (after.perform (.push 9)).value.1 = after := by
  intro memory ops
  have fits : 2 ≤ Memory.maxCells := by decide
  obtain ⟨s, made, -, run⟩ := refines_list.1 2 (by decide) (by decide) false
  obtain ⟨same, size, laid, missed, -⟩ := run ops
  have listed : (answers (Contents.perform 2) ⟨[], 0, false⟩ ops).2 = ⟨[7, 8], 1, true⟩ := rfl
  have final : (answers perform s ops).2.contents = ⟨[7, 8], 1, true⟩ :=
    (congrArg Prod.snd same).symm.trans listed
  have ⟨values, _, strict⟩ := Contents.mk.inj final
  have full : (answers perform s ops).2.Misses (.push 9) := .overflow (by rw [values, size]; rfl)
  exact ⟨fits, s, made, same, final, laid, full, (missed _ full).2 strict⟩

theorem no_stack_of_uncountable_capacity :
    let _ : Memory := Host.usual.toMemory
    let capacity : Int := 0x8000000000000000
    1 ≤ capacity ∧ ofCapacity capacity false = .error .uncountable ∧
      ¬ ∃ s, ofCapacity capacity false = .ok s := by
  intro memory capacity
  have refused : ofCapacity capacity false = .error .uncountable := rfl
  refine ⟨by decide, refused, ?_⟩
  rw [refused]
  exact nofun

end Acceptor.BoundedStack
