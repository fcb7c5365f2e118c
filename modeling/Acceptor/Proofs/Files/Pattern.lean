import Acceptor.Files.Pattern
import Acceptor.Proofs.Files.Tree

namespace Acceptor

namespace Pattern

def IsPlain (cs : List Char) : Prop := ∀ c ∈ cs, c ≠ '*' ∧ c ≠ '?' ∧ c ≠ '['

variable {cs ds folder last name : List Char}

instance (cs : List Char) : Decidable (IsPlain cs) :=
  decidable_of_iff ((cs.all fun c => c != '*' && (c != '?' && c != '[')) = true) (by simp [IsPlain])

theorem isPattern_eq_false : isPattern cs = false ↔ IsPlain cs := by
  simp [isPattern, IsPlain, and_assoc]

theorem items_append (plain : IsPlain cs) : items 0 (cs ++ ds) = cs.map Item.char ++ items 0 ds := by
  induction cs with
  | nil => rfl
  | cons c cs ih =>
      obtain ⟨⟨star, one, bracket⟩, others⟩ := List.forall_mem_cons.1 plain
      simp [items, ih others]

theorem foldl_rests_nil (is : List Item) : is.foldl rests [] = [] := by
  induction is with
  | nil => rfl
  | cons i is ih => cases i <;> simpa [rests] using ih

theorem foldl_rests_chars (cs name : List Char) :
    (cs.map Item.char).foldl rests [name] =
      if cs.isPrefixOf name then [name.drop cs.length] else [] := by
  induction cs generalizing name with
  | nil => simp
  | cons c cs ih =>
      cases name with
      | nil => simp [rests, foldl_rests_nil]
      | cons d ds =>
          by_cases same : c = d
          · simp [rests, Item.accepts, same, ih]
          · simp [rests, Item.accepts, same, Ne.symm same, foldl_rests_nil]

theorem nil_mem_suffixes (cs : List Char) : [] ∈ suffixes cs := by
  induction cs with
  | nil => simp [suffixes]
  | cons c cs ih => simp [suffixes, ih]

theorem fits_star (plain : IsPlain cs) (name : List Char) :
    fits (items 0 (cs ++ ['*'])) name = cs.isPrefixOf name := by
  rw [fits, items_append plain, List.foldl_append, foldl_rests_chars]
  cases cs.isPrefixOf name <;> simp [items, rests, nil_mem_suffixes]

theorem isHidden_append_star (cs : List Char) : isHidden (cs ++ ['*']) = isHidden cs := by
  cases cs <;> simp [isHidden]

theorem forall_mem_reverse_ne (whole : '/' ∉ last) : ∀ c ∈ last.reverse, decide (c ≠ '/') = true := by
  intro c mem
  rw [decide_eq_true_eq]
  rintro rfl
  exact whole (List.mem_reverse.1 mem)

theorem splitLast_of_not_mem (whole : '/' ∉ last) : splitLast last = ([], last) := by
  have all : last.reverse.takeWhile (· ≠ '/') = last.reverse :=
    List.takeWhile_eq_self_iff.2 (forall_mem_reverse_ne whole)
  simp only [splitLast, all, List.reverse_reverse, Nat.sub_self, List.take_zero]
  rfl

theorem splitLast_slash (nonempty : folder ≠ []) (single : folder.getLast? ≠ some '/')
    (whole : '/' ∉ last) : splitLast (folder ++ '/' :: last) = (folder, last) := by
  have isLast : (folder ++ '/' :: last).reverse.takeWhile (· ≠ '/') = last.reverse := by
    rw [List.reverse_append, List.reverse_cons, List.append_assoc,
      List.takeWhile_append_of_pos (forall_mem_reverse_ne whole)]
    simp
  have head : (folder ++ '/' :: last).take ((folder ++ '/' :: last).length - last.length) =
      folder ++ ['/'] := by
    rw [List.append_cons, List.length_append, Nat.add_sub_cancel, List.take_left]
  have stops : folder.reverse.dropWhile (· = '/') = folder.reverse := by
    obtain ⟨init, c, rfl⟩ := (List.eq_nil_or_concat folder).resolve_left nonempty
    have other : c ≠ '/' := by simpa using single
    simp [other]
  simp only [splitLast, isLast, List.reverse_reverse, head]
  simp [stops, nonempty]

theorem join_of_single (nonempty : folder ≠ []) (single : folder.getLast? ≠ some '/')
    (name : List Char) : join folder name = folder ++ '/' :: name := by
  simp [join, nonempty, single]

end Pattern

namespace Place
open Pattern

variable {p : Place} {folder : Path} {front : String} {pattern : List Char}

section Expand

variable {dir last : List Char} {foldersOnly : Bool}

theorem expand_here (split : splitLast pattern = ([], last)) :
    p.expand pattern foldersOnly = p.fitting [] last foldersOnly := by
  rw [expand, split]
  rfl

theorem expand_in (split : splitLast pattern = (dir, last)) (nonempty : dir ≠ [])
    (plain : IsPlain dir) {names : List (List Char)}
    (found : p.lastPart dir last foldersOnly = .ok names) :
    p.expand pattern foldersOnly = .ok (names.map (join dir)) := by
  rw [expand, split]
  simp [nonempty, isPattern_eq_false.2 plain, found, bind, Except.bind, pure, Except.pure]

theorem mapM_of_forall {ε α β : Type} {f : α → Except ε β} {g : α → β} {xs : List α}
    (h : ∀ x ∈ xs, f x = .ok (g x)) : xs.mapM f = .ok (xs.map g) := by
  induction xs with
  | nil => rfl
  | cons x xs ih =>
      obtain ⟨first, others⟩ := List.forall_mem_cons.1 h
      simp [List.mapM_cons, first, ih others, bind, Except.bind, pure, Except.pure]

theorem expand_folders (split : splitLast pattern = (dir, [])) (isPattern : isPattern dir = true)
    (shorter : dir.length < pattern.length) {dirs : List (List Char)}
    (above : p.expand dir true = .ok dirs)
    (folders : ∀ dir ∈ dirs, p.isFolder (String.ofList dir) = true) :
    p.expand pattern foldersOnly = .ok (dirs.map fun dir => join dir []) := by
  have nonempty : dir ≠ [] := by
    rintro rfl
    cases isPattern
  have found : ∀ dir ∈ dirs, p.lastPart dir [] foldersOnly = .ok [[]] := fun dir mem => by
    simp [lastPart, Pattern.isPattern, folders dir mem]
  rw [expand, split]
  simp only [List.isEmpty_iff, nonempty, if_false, isPattern, if_true, shorter, above, bind,
    Except.bind]
  rw [mapM_of_forall (g := fun dir => [join dir []]) fun dir mem => by
    simp [found dir mem, pure, Except.pure]]
  simp only [pure, Except.pure, ← List.flatMap_def, ← List.map_eq_flatMap]

end Expand

def found (p : Place) (front : String) (folder : Path) (pattern : List Char) (foldersOnly : Bool) :
    List String :=
  (p.disk.names folder).filter fun name =>
    (isHidden pattern || !isHidden name.toList) && fits (items 0 pattern) name.toList &&
      (!foldersOnly || p.isFolder (front ++ name))

theorem fitting_of_namesIn {cs : List Char} (noNul : '\x00' ∉ cs)
    (names : p.namesIn (if cs.isEmpty then "." else String.ofList cs) = p.disk.names folder)
    (joined : ∀ name, join cs name = front.toList ++ name) (foldersOnly : Bool) :
    p.fitting cs pattern foldersOnly =
      .ok ((p.found front folder pattern foldersOnly).map String.toList) := by
  have whole : ∀ name : String, String.ofList (front.toList ++ name.toList) = front ++ name := by
    intro name
    rw [String.ofList_append, String.ofList_toList, String.ofList_toList]
  rw [fitting, if_neg (by simpa using noNul), names]
  simp only [joined, List.filter_map, found, Function.comp_def, whole]

theorem expand_front (leads : p.Front front folder) (wf : p.WellFormed)
    (plain : IsPlain front.toList) (pattern : List Char) (isPattern : isPattern pattern = true)
    (whole : '/' ∉ pattern) (foldersOnly : Bool) :
    p.expand (front.toList ++ pattern) foldersOnly =
      .ok ((p.found front folder pattern foldersOnly).map fun name => (front ++ name).toList) := by
  cases leads with
  | here =>
      have joined : ∀ name, join [] name = "".toList ++ name := by simp [join]
      rw [String.toList_empty, List.nil_append, expand_here (splitLast_of_not_mem whole),
        fitting_of_namesIn (by simp) (namesIn_here wf) joined]
      simp
  | folder nonempty single located =>
      rename_i e
      have nonempty' : e.toList ≠ [] := by simpa using nonempty
      have single' := getLast?_ne_slash single
      have plain' : IsPlain e.toList := fun c mem => plain c (by simp [mem])
      have noNul : '\x00' ∉ e.toList := by
        have := holdsNul_of_locate wf.disk located
        simpa [holdsNul] using this
      have joined : ∀ name, join e.toList name = (e ++ "/").toList ++ name := by
        simp [join_of_single nonempty' single']
      have names : p.namesIn (if e.toList.isEmpty then "." else String.ofList e.toList) =
          p.disk.names folder := by
        rw [if_neg (by simpa using nonempty), String.ofList_toList,
          namesIn_of_slash nonempty single located]
      have split : splitLast ((e ++ "/").toList ++ pattern) = (e.toList, pattern) := by
        simpa using splitLast_slash nonempty' single' whole
      have found : p.lastPart e.toList pattern foldersOnly =
          .ok ((p.found (e ++ "/") folder pattern foldersOnly).map String.toList) := by
        rw [lastPart, if_pos isPattern, fitting_of_namesIn noNul names joined]
      rw [expand_in split nonempty' plain' found]
      simp [joined]

end Place

end Acceptor
