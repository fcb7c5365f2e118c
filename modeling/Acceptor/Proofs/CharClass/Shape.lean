import Acceptor.CharClass.Basic

namespace Acceptor.CharClass

@[induction_eliminator]
theorem induction {motive : CharClass → Prop}
    (literal : ∀ c, motive (.literal c))
    (any : motive .any)
    (bracket : ∀ ranges negated, motive (.bracket ranges negated))
    (complement : ∀ k, motive k → motive (.complement k))
    (union : ∀ ks, (∀ k ∈ ks, motive k) → motive (.union ks)) (k : CharClass) : motive k := by
  refine CharClass.rec (motive_1 := motive) (motive_2 := fun ks => ∀ k ∈ ks, motive k)
    literal any bracket complement union ?_ ?_ k
  · simp
  · intro k ks hk hks j mem
    rcases List.mem_cons.1 mem with rfl | mem
    · exact hk
    · exact hks j mem

mutual

def parts : CharClass → List CharClass
  | literal c => [literal c]
  | any => [any]
  | bracket ranges negated => [bracket ranges negated]
  | complement k => complement k :: k.parts
  | union ks => union ks :: partsOf ks

def partsOf : List CharClass → List CharClass
  | [] => []
  | k :: ks => k.parts ++ partsOf ks

end

theorem mem_partsOf {j : CharClass} {ks : List CharClass} :
    j ∈ partsOf ks ↔ ∃ k ∈ ks, j ∈ k.parts := by
  induction ks with
  | nil => simp [partsOf]
  | cons k ks ih => simp [partsOf, ih]

def Everywhere (P : CharClass → Prop) (k : CharClass) : Prop := ∀ j ∈ k.parts, P j

section Everywhere

variable {P Q : CharClass → Prop}

@[simp] theorem everywhere_literal {c : Symbol} :
    (literal c).Everywhere P ↔ P (literal c) := by simp [Everywhere, parts]

@[simp] theorem everywhere_any : any.Everywhere P ↔ P any := by simp [Everywhere, parts]

@[simp] theorem everywhere_bracket {ranges : List (Symbol × Symbol)} {negated : Bool} :
    (bracket ranges negated).Everywhere P ↔ P (bracket ranges negated) := by
  simp [Everywhere, parts]

@[simp] theorem everywhere_complement {k : CharClass} :
    (complement k).Everywhere P ↔ P (complement k) ∧ k.Everywhere P := by
  simp [Everywhere, parts]

@[simp] theorem everywhere_union {ks : List CharClass} :
    (union ks).Everywhere P ↔ P (union ks) ∧ ∀ k ∈ ks, k.Everywhere P := by
  simp only [Everywhere, parts, List.mem_cons, forall_eq_or_imp, mem_partsOf]
  exact and_congr_right fun _ => ⟨fun h k hk j hj => h j ⟨k, hk, hj⟩,
    fun h j ⟨k, hk, hj⟩ => h k hk j hj⟩

theorem Everywhere.imp (weaker : ∀ j, P j → Q j) {k : CharClass} (h : k.Everywhere P) :
    k.Everywhere Q := fun j hj => weaker j (h j hj)

end Everywhere

def HasOrderedRanges : CharClass → Prop
  | bracket ranges _ => ∀ r ∈ ranges, r.1 ≤ r.2
  | _ => True

theorem firstReversedIn_eq_none {ks : List CharClass} :
    firstReversedIn ks = none ↔ ∀ k ∈ ks, k.firstReversed = none := by
  induction ks with
  | nil => simp [firstReversedIn]
  | cons k ks ih => simp [firstReversedIn, ih]

theorem firstReversed_eq_none {k : CharClass} :
    k.firstReversed = none ↔ k.Everywhere HasOrderedRanges := by
  induction k with
  | literal c => simp [firstReversed, HasOrderedRanges]
  | any => simp [firstReversed, HasOrderedRanges]
  | bracket ranges negated =>
      simp only [firstReversed, List.find?_eq_none, decide_eq_true_eq, everywhere_bracket,
        HasOrderedRanges]
      exact forall₂_congr fun _ _ => String.not_lt
  | complement k ih => simp [firstReversed, HasOrderedRanges, ih]
  | union ks ih =>
      simp only [firstReversed, firstReversedIn_eq_none, everywhere_union, HasOrderedRanges,
        true_and]
      exact forall₂_congr ih

end Acceptor.CharClass
