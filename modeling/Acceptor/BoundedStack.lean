import Acceptor.Host
import Acceptor.Log

/-!
A stack of integers with a fixed capacity. Its storage is a row of `capacity` cells, at first zero;
the stack is the lowest `count` of them, and `pop` and `clear` leave the cells as they are.
-/

namespace Acceptor

structure BoundedStack where
  capacity : Nat
  /-- The cells that were ever written, from the bottom. -/
  cells : Array Int
  count : Nat
  strict : Bool
  dropped : Nat
  count_le : count ≤ cells.size
  size_le : cells.size ≤ capacity

namespace BoundedStack

def ofCapacity [Memory] (capacity : Int) (strict : Bool) : Except Fault BoundedStack :=
  if capacity ≤ 0 then .error (.invalidCapacity capacity)
  else if !isIndex capacity then .error .uncountable
  else if Memory.maxCells < capacity then .error .outOfMemory
  else
    .ok { capacity := capacity.toNat, cells := #[], count := 0, strict, dropped := 0,
          count_le := Nat.le_refl 0, size_le := Nat.zero_le _ }

def isEmpty (s : BoundedStack) : Bool := s.count == 0

def isFull (s : BoundedStack) : Bool := s.count == s.capacity

def toList (s : BoundedStack) : List Int := s.cells.toList.take s.count

def storage (s : BoundedStack) : List Int :=
  s.cells.toList ++ List.replicate (s.capacity - s.cells.size) 0

def nothing : Int := -1

def write (s : BoundedStack) (x : Int) (room : s.count < s.capacity) : BoundedStack :=
  if h : s.count < s.cells.size then
    { s with
      cells := s.cells.set s.count x
      count := s.count + 1
      count_le := by rw [Array.size_set]; omega
      size_le := by rw [Array.size_set]; exact s.size_le }
  else
    { s with
      cells := s.cells.push x
      count := s.count + 1
      count_le := by have := s.count_le; rw [Array.size_push]; omega
      size_le := by have := s.count_le; rw [Array.size_push]; omega }

def push (s : BoundedStack) (x : Int) : Logged (Except Fault BoundedStack) :=
  if room : s.count < s.capacity then ⟨.ok (s.write x room), []⟩
  else if s.strict then ⟨.error (.stackFull s.capacity), []⟩
  else
    ⟨.ok { s with dropped := s.dropped + 1 },
      [⟨.stack, .warning, s!"stack is full, dropping {x}"⟩]⟩

def pop (s : BoundedStack) : Logged (Except Fault (Int × BoundedStack)) :=
  if h : s.count = 0 then
    if s.strict then ⟨.error .stackEmpty, []⟩
    else ⟨.ok (nothing, s), [⟨.stack, .warning, "stack is empty"⟩]⟩
  else
    have inside : s.count - 1 < s.cells.size := by have := s.count_le; omega
    ⟨.ok (s.cells[s.count - 1],
      { s with count := s.count - 1, count_le := by have := s.count_le; omega }), []⟩

def peek (s : BoundedStack) : Int :=
  if h : s.count = 0 then nothing
  else
    have inside : s.count - 1 < s.cells.size := by have := s.count_le; omega
    s.cells[s.count - 1]

/-- The count of dropped values outlives it. -/
def clear (s : BoundedStack) : BoundedStack := { s with count := 0, count_le := Nat.zero_le _ }

inductive Op
  | push (x : Int)
  | pop
  | peek
  | clear
  | isEmpty
  | isFull
  | size
  | toList
  | capacity
  | setStrict (strict : Bool)
  deriving DecidableEq, Repr

inductive Answer
  | none
  | number (n : Int)
  | flag (b : Bool)
  | list (xs : List Int)
  deriving DecidableEq, Repr

def perform (s : BoundedStack) : Op → Logged (BoundedStack × Except Fault Answer)
  | .push x =>
      match s.push x with
      | ⟨.ok s, log⟩ => ⟨(s, .ok .none), log⟩
      | ⟨.error e, log⟩ => ⟨(s, .error e), log⟩
  | .pop =>
      match s.pop with
      | ⟨.ok (x, s), log⟩ => ⟨(s, .ok (.number x)), log⟩
      | ⟨.error e, log⟩ => ⟨(s, .error e), log⟩
  | .peek => ⟨(s, .ok (.number s.peek)), []⟩
  | .clear => ⟨(s.clear, .ok .none), []⟩
  | .isEmpty => ⟨(s, .ok (.flag s.isEmpty)), []⟩
  | .isFull => ⟨(s, .ok (.flag s.isFull)), []⟩
  | .size => ⟨(s, .ok (.number s.count)), []⟩
  | .toList => ⟨(s, .ok (.list s.toList)), []⟩
  | .capacity => ⟨(s, .ok (.number s.capacity)), []⟩
  | .setStrict strict => ⟨({ s with strict }, .ok .none), []⟩

end BoundedStack

end Acceptor
