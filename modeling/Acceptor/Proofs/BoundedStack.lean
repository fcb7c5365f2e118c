import Acceptor.BoundedStack

namespace Acceptor.BoundedStack

variable {s : BoundedStack}

def withMode (s : BoundedStack) (strict : Bool) : BoundedStack := { s with strict }

theorem count_le_capacity (s : BoundedStack) : s.count ≤ s.capacity :=
  Nat.le_trans s.count_le s.size_le

theorem write_withMode (strict : Bool) (x : Int) (room : s.count < s.capacity) :
    (s.withMode strict).write x room = (s.write x room).withMode strict := by
  unfold write withMode
  split <;> rfl

theorem write_kept (x : Int) (room : s.count < s.capacity) :
    (s.write x room).capacity = s.capacity ∧ (s.write x room).dropped = s.dropped := by
  unfold write
  split <;> exact ⟨rfl, rfl⟩

theorem count_write (x : Int) (room : s.count < s.capacity) :
    (s.write x room).count = s.count + 1 := by
  unfold write
  split <;> rfl

theorem length_toList (s : BoundedStack) : s.toList.length = s.count := by
  have inside := s.count_le
  simp only [toList, List.length_take, Array.length_toList]
  omega

theorem toList_write (x : Int) (room : s.count < s.capacity) :
    (s.write x room).toList = s.toList ++ [x] := by
  have inside := s.count_le
  unfold write
  split
  · rename_i written
    simp only [toList, Array.toList_set]
    rw [List.take_succ_eq_append_getElem (by simpa using written), List.take_set_of_le (Nat.le_refl _),
      List.getElem_set_self]
  · have whole : s.count = s.cells.toList.length := by
      rw [Array.length_toList]
      omega
    simp only [toList, Array.toList_push, whole, List.take_length]
    exact List.take_of_length_le (by simp)

theorem push_of_room (room : s.count < s.capacity) (x : Int) :
    s.push x = ⟨.ok (s.write x room), []⟩ := by
  rw [push, dif_pos room]

theorem push_of_full (full : s.count = s.capacity) (strict : s.strict = true) (x : Int) :
    s.push x = ⟨.error (.stackFull s.capacity), []⟩ := by
  have noRoom : ¬ s.count < s.capacity := by omega
  rw [push, dif_neg noRoom, if_pos strict]

theorem push_of_full_lenient (full : s.count = s.capacity) (lenient : s.strict = false) (x : Int) :
    (s.push x).value = .ok { s with dropped := s.dropped + 1 } := by
  have noRoom : ¬ s.count < s.capacity := by omega
  rw [push, dif_neg noRoom, if_neg (by simp [lenient])]

theorem ofCapacity_of_le [Memory] {capacity : Int} (positive : 1 ≤ capacity)
    (fits : capacity ≤ Memory.maxCells) :
    ∃ s : BoundedStack, s.capacity = capacity.toNat ∧ s.count = 0 ∧ s.dropped = 0 ∧
      ∀ strict, ofCapacity capacity strict = .ok (s.withMode strict) := by
  have index : isIndex capacity = true := by
    have countable := Memory.maxCells_lt
    simp only [isIndex, Bool.and_eq_true, decide_eq_true_eq]
    omega
  refine ⟨⟨capacity.toNat, #[], 0, false, 0, Nat.le_refl 0, Nat.zero_le _⟩, rfl, rfl, rfl,
    fun strict => ?_⟩
  unfold ofCapacity
  rw [if_neg (by omega), if_neg (by simp [index]), if_neg (by omega)]
  rfl

theorem ofCapacity_of_gt [Memory] {capacity : Int} (large : Memory.maxCells < capacity)
    (strict : Bool) :
    ofCapacity capacity strict =
      .error (if isIndex capacity then .outOfMemory else .uncountable) := by
  unfold ofCapacity
  rw [if_neg (by omega)]
  cases isIndex capacity with
  | false => rfl
  | true => simp [large]

theorem push_of_lenient {s : BoundedStack} (lenient : s.strict = false) (x : Int) :
    ∃ s', (s.push x).value = .ok s' ∧ s'.strict = false := by
  unfold push
  split
  · refine ⟨_, rfl, ?_⟩
    unfold write
    split <;> exact lenient
  · rw [if_neg (by simp [lenient])]
    exact ⟨_, rfl, lenient⟩

end Acceptor.BoundedStack
