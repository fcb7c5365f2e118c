import Acceptor.Host
import Acceptor.Proofs.CharClass.RoundTrip
import Acceptor.Proofs.Table.WellFormed

namespace Acceptor

def Predicate.IsRead (p : Predicate) : Prop :=
  ∃ k : CharClass, p = .charClass k ∧ k.WellFormed ∧ k.Everywhere CharClass.IsPlural

namespace Table

abbrev IsRead (t : Table) : Prop := ∀ st ∈ t.states, ∀ e ∈ st.edges, e.predicate.IsRead

structure Sound [Memory] (t : Table) : Prop where
  wellFormed : t.WellFormed
  isRead : t.IsRead
  capacity_pos : 1 ≤ t.capacity
  size_le : t.size ≤ Memory.maxStates

variable {t u : Table}

theorem IsRead.of_mem_edges {e : Nat × Edge} (h : t.IsRead) (he : e ∈ t.edges) :
    e.2.predicate.IsRead := by
  obtain ⟨st, hst, mem⟩ := mem_edges he
  exact h st (Array.mem_of_getElem? hst) e.2 mem

theorem isRead_literal {c : Char} : (Predicate.charClass (.literal (String.singleton c))).IsRead :=
  ⟨_, rfl, CharClass.everywhere_literal.2 ⟨c, rfl⟩, CharClass.everywhere_literal.2 trivial⟩

theorem isRead_union {a b : Char} :
    (Predicate.charClass
      (.union [.literal (String.singleton a), .literal (String.singleton b)])).IsRead := by
  refine ⟨_, rfl, CharClass.everywhere_union.2 ⟨by simp [CharClass.IsSound], ?_⟩,
    CharClass.everywhere_union.2 ⟨by simp [CharClass.IsPlural], ?_⟩⟩
  · simpa using ⟨⟨a, rfl⟩, ⟨b, rfl⟩⟩
  · simp [CharClass.IsPlural]

section

variable [Memory]

theorem sound_of_edges
    (edges : ∀ st ∈ t.states, ∀ e ∈ st.edges, e.dest < t.size ∧ e.predicate.IsRead)
    (start_lt : 0 < t.size → t.start < t.size) (start_eq : t.size = 0 → t.start = 0)
    (capacity_pos : 1 ≤ t.capacity) (size_le : t.size ≤ Memory.maxStates) : t.Sound :=
  ⟨⟨fun st hs e he => (edges st hs e he).1, start_lt, start_eq⟩,
    fun st hs e he => (edges st hs e he).2, capacity_pos, size_le⟩

theorem Sound.edges (h : t.Sound) :
    ∀ st ∈ t.states, ∀ e ∈ st.edges, e.dest < t.size ∧ e.predicate.IsRead :=
  fun st hs e he => ⟨h.wellFormed.dest_lt st hs e he, h.isRead st hs e he⟩

theorem Sound.reset (h : t.Sound) : t.reset.Sound :=
  sound_of_edges (by simp [Table.reset]) (by simp [Table.reset, size]) (fun _ => rfl) h.capacity_pos
    (Nat.zero_le _)

theorem Sound.loadExample (h : t.Sound) : t.loadExample.Sound := by
  have size : t.loadExample.size = 3 := rfl
  have start : t.loadExample.start = 2 := rfl
  refine sound_of_edges ?_ (by omega) (by omega) h.capacity_pos (size ▸ Memory.example_fits)
  intro st hs e he
  simp only [Table.loadExample, List.mem_toArray, List.mem_cons, List.not_mem_nil, or_false] at hs
  rcases hs with rfl | rfl | rfl
  · simp at he
  · obtain rfl := List.mem_singleton.1 he
    exact ⟨by simp [size], isRead_literal (c := 'c')⟩
  · obtain rfl := List.mem_singleton.1 he
    exact ⟨by simp [size], isRead_union (a := 'a') (b := 'b')⟩

theorem Sound.addStates (h : t.Sound) {n : Nat} (more : 0 < n) (fits : t.size + n ≤ Memory.maxStates)
    (accepting start : Bool) : (t.addStates n accepting start).Sound := by
  have size : (t.addStates n accepting start).size = t.size + n := by
    simp [Table.addStates, Table.size]
  refine sound_of_edges ?_ (fun _ => ?_) (by omega) h.capacity_pos (by omega)
  · intro st hs e he
    rcases Array.mem_append.1 hs with old | new
    · have := h.edges st old e he
      exact ⟨by omega, this.2⟩
    · obtain ⟨-, rfl⟩ := Array.mem_replicate.1 new
      simp at he
  · have start_lt := h.wellFormed.start_lt
    have start_eq := h.wellFormed.start_eq
    rw [size]
    cases start with
    | true =>
        change t.size < t.size + n
        omega
    | false =>
        change t.start < t.size + n
        omega

theorem Sound.setStart (h : t.Sound) {s : Int} (set : t.setStart s = .ok u) : u.Sound := by
  unfold Table.setStart at set
  split at set
  · rename_i has
    cases set
    have := has_iff.1 has
    exact sound_of_edges h.edges (fun _ => by simp only [size] at *; omega)
      (fun none => by simp only [size] at *; omega) h.capacity_pos h.size_le
  · simp at set

theorem Sound.modify (h : t.Sound) (i : Nat) {f : State → State}
    (kept : ∀ st, ∀ e ∈ (f st).edges, e ∈ st.edges ∨ e.dest < t.size ∧ e.predicate.IsRead) :
    ({ t with states := t.states.modify i f } : Table).Sound where
  wellFormed := h.wellFormed.modify i fun st e he => (kept st e he).imp_right And.left
  isRead := by
    intro st hs e he
    rcases mem_modify hs with old | ⟨st, old, rfl⟩
    · exact h.isRead st old e he
    · exact (kept st e he).elim (h.isRead st old e) And.right
  capacity_pos := h.capacity_pos
  size_le := size_modify t i f ▸ h.size_le

theorem Sound.markFinal (h : t.Sound) {s : Int} {final : Bool}
    (marked : t.markFinal s final = .ok u) : u.Sound := by
  unfold Table.markFinal at marked
  split at marked
  · cases marked
    exact h.modify s.toNat fun st e he => .inl he
  · simp at marked

theorem Sound.addEdge (h : t.Sound) {source dest : Int} {p : Predicate} (isRead : p.IsRead)
    (added : t.addEdge source p dest = .ok u) : u.Sound := by
  unfold Table.addEdge at added
  split at added
  · rename_i has
    cases added
    have := has_iff.1 (Bool.and_eq_true_iff.1 has).2
    refine h.modify source.toNat fun st e he => ?_
    rcases List.mem_append.1 he with old | new
    · exact .inl old
    · obtain rfl := List.mem_singleton.1 new
      exact .inr ⟨by simp only; omega, isRead⟩
  · simp at added

theorem Sound.configure (h : t.Sound) {capacity : Int} (positive : 0 < capacity) (strict : Bool) :
    ({ t with capacity, strict } : Table).Sound :=
  sound_of_edges h.edges h.wellFormed.start_lt h.wellFormed.start_eq positive h.size_le

end

end Table

end Acceptor
