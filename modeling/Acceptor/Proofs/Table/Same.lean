import Mathlib.Data.List.Forall2
import Acceptor.Proofs.Table.Sound
import Acceptor.Visit

namespace Acceptor

structure Edge.Same (e f : Edge) : Prop where
  dest : f.dest = e.dest
  text : f.predicate.text = e.predicate.text
  holds : ∀ c, f.predicate.holds c = e.predicate.holds c

structure State.Same (s t : State) : Prop where
  accepting : t.accepting = s.accepting
  edges : List.Forall₂ Edge.Same s.edges t.edges

/-- The tables have the same states, in order, and the same start, whatever their stacks. -/
structure Table.Same (t u : Table) : Prop where
  states : List.Forall₂ State.Same t.states.toList u.states.toList
  start : u.start = t.start

theorem State.Same.next? {s t : State} (h : s.Same t) (c : Symbol) : t.next? c = s.next? c := by
  unfold State.next?
  have edges := h.edges
  generalize s.edges = es at edges ⊢
  generalize t.edges = fs at edges ⊢
  induction edges with
  | nil => rfl
  | cons same rest ih =>
      simp only [List.find?_cons, same.holds c]
      split
      · simp [same.dest]
      · exact ih

namespace Table

variable {t u : Table}

theorem Same.size (h : t.Same u) : u.size = t.size := by
  simpa [Table.size] using h.states.length_eq.symm

theorem Same.stateAt (h : t.Same u) (s : Int) :
    (∃ e, t.stateAt s = .error e ∧ u.stateAt s = .error e) ∨
      ∃ a b, t.stateAt s = .ok a ∧ u.stateAt s = .ok b ∧ a.Same b := by
  have size : u.states.size = t.states.size := h.size
  unfold Table.stateAt itemAt
  simp only [size]
  by_cases below : fromEnd t.states.size s < 0
  · exact .inl ⟨_, by rw [if_pos below], by rw [if_pos below]⟩
  · rw [if_neg below, if_neg below]
    generalize (fromEnd t.states.size s).toNat = i
    by_cases inside : i < t.states.size
    · have inside' : i < u.states.size := size ▸ inside
      have same : t.states[i].Same u.states[i] := by
        have state := h.states.get (i := i) (by simpa using inside) (by simpa using inside')
        simp only [List.get_eq_getElem, Array.getElem_toList] at state
        exact state
      refine .inr ⟨t.states[i], u.states[i], ?_, ?_, same⟩
      · rw [Array.getElem?_eq_getElem inside]
      · rw [Array.getElem?_eq_getElem inside']
    · have outside' : ¬ i < u.states.size := size ▸ inside
      refine .inl ⟨.outOfRange s, ?_, ?_⟩
      · rw [Array.getElem?_eq_none (Nat.le_of_not_lt inside)]
      · rw [Array.getElem?_eq_none (Nat.le_of_not_lt outside')]

theorem Same.step (h : t.Same u) (v : Visit) (c : Symbol) : v.step u c = v.step t c := by
  unfold Visit.step
  split
  · rfl
  · split
    · rfl
    · rcases h.stateAt v.state with ⟨e, left, right⟩ | ⟨a, b, left, right, same⟩
      · simp only [left, right]
      · simp only [left, right, same.accepting, Visit.move, same.next? c]

theorem Same.feed (h : t.Same u) (v : Visit) (w : List Symbol) : v.feed u w = v.feed t w := by
  induction w generalizing v with
  | nil => rfl
  | cons c w ih =>
      unfold Visit.feed
      rw [h.step v c]
      split
      · rfl
      · rfl
      · rw [ih]

theorem Same.success (h : t.Same u) (v : Visit) : v.success u = v.success t := by
  unfold Visit.success isFinal
  rcases h.stateAt v.state with ⟨e, left, right⟩ | ⟨a, b, left, right, same⟩
  · rw [left, right]
  · rw [left, right]
    exact congrArg Except.ok same.accepting

theorem Same.withStack (h : t.Same u) (capacity : Int) (strict : Bool) :
    (t.withStack capacity strict).Same (u.withStack capacity strict) := ⟨h.states, h.start⟩

theorem Same.begin [Memory] (h : t.Same u) (capacity : Int) (strict : Bool) :
    Visit.begin (u.withStack capacity strict) = Visit.begin (t.withStack capacity strict) := by
  have start : (u.withStack capacity strict).initial = (t.withStack capacity strict).initial := by
    have size := h.size
    unfold Table.size at size
    simp only [initial, Table.withStack, h.start, Array.isEmpty, size]
    rfl
  unfold Visit.begin
  rw [start]
  rfl

theorem Same.run [Memory] (h : t.Same u) (capacity : Int) (strict : Bool) (w : List Symbol) :
    (u.withStack capacity strict).run w = (t.withStack capacity strict).run w := by
  unfold Table.run
  rw [h.begin capacity strict]
  cases Visit.begin (t.withStack capacity strict) with
  | error e => rfl
  | ok v => exact (h.withStack capacity strict).feed v w

theorem Same.accepts [Memory] (h : t.Same u) (capacity : Int) (strict : Bool) (w : List Symbol) :
    (u.withStack capacity strict).accepts w = (t.withStack capacity strict).accepts w := by
  unfold Table.accepts
  rw [h.run capacity strict w]
  split
  · rfl
  · rw [(h.withStack capacity strict).success]

end Table

def Predicate.flat : Predicate → Predicate
  | charClass k => charClass k.flat
  | test text holds => test text holds

def Edge.flat (e : Edge) : Edge := { e with predicate := e.predicate.flat }

def State.flat (s : State) : State := { s with edges := s.edges.map Edge.flat }

def Table.flat (t : Table) : Table := { t with states := t.states.map State.flat }

theorem Edge.same_flat {e : Edge} (h : e.predicate.IsRead) : e.Same e.flat := by
  obtain ⟨predicate, dest⟩ := e
  obtain ⟨k, rfl, -, plural⟩ := h
  exact ⟨rfl, congrArg String.ofList (CharClass.print_flat plural), CharClass.accepts_flat k⟩

theorem State.same_flat {s : State} (h : ∀ e ∈ s.edges, e.predicate.IsRead) : s.Same s.flat := by
  refine ⟨rfl, ?_⟩
  unfold State.flat
  rw [List.forall₂_map_right_iff, List.forall₂_same]
  exact fun e he => Edge.same_flat (h e he)

theorem Table.same_flat {t : Table} (h : t.IsRead) : t.Same t.flat := by
  refine ⟨?_, rfl⟩
  unfold Table.flat
  rw [Array.toList_map, List.forall₂_map_right_iff, List.forall₂_same]
  exact fun s hs => State.same_flat (h s (Array.mem_toList_iff.1 hs))

end Acceptor
