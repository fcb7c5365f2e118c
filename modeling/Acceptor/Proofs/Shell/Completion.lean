import Mathlib.Data.List.Basic
import Acceptor.Proofs.Files.Pattern
import Acceptor.Shell.Completion

/-!
# Completion of file names

A word after `source`, `save` or `output` is completed by the names in the folder that its front leads
to (`offers_entries`): those that start with the last part of the word are offered in order, a single one
with what ends it. Hidden names are left out if the last part is not hidden, and hidden files always.
-/

namespace Acceptor

namespace Completion
open Pattern
open Text (isBlank blankSeparated partsBetween partsBetween_append partsBetween_of_whole)

def whole (isFolder : String → Bool) (front name : String) : String :=
  front ++ name ++ if isFolder name then "/" else ""

/-- How names in a folder are offered after the front of a word: all in order, by code points, or a
single one with a blank, which a folder does not get, nor a name like a flag's where nothing stands yet. -/
structure Shows (isFolder : String → Bool) (front part : String) (names offered : List String) :
    Prop where
  alone : ∀ name, names = [name] →
    offered = [whole isFolder front name ++
      if isFolder name || (front ++ part = "" && isFlagLike name) then "" else " "]
  sorted : names.length ≠ 1 →
    offered.Perm (names.map (whole isFolder front)) ∧ offered.Pairwise (· ≤ ·)

/-- A word that is completed to the names in a folder: a front and a part of a name, in characters that
stand for themselves. The word is not yet a folder's, unless the part is empty. -/
structure IsWord (p : Place) (front part : String) (folder : Path) : Prop where
  leads : p.Front front folder
  last : '/' ∉ part.toList
  noBlank : ∀ c ∈ (front ++ part).toList, isBlank c = false
  plain : IsPlain (front ++ part).toList
  notHome : (front ++ part).toList.head? ≠ some '~'
  new : part ≠ "" → p.isFolder (front ++ part) = false

theorem IsWord.plain_front {p : Place} {front part : String} {folder : Path}
    (word : IsWord p front part folder) : IsPlain front.toList :=
  fun c mem => word.plain c (by simp [mem])

theorem IsWord.plain_part {p : Place} {front part : String} {folder : Path}
    (word : IsWord p front part folder) : IsPlain part.toList :=
  fun c mem => word.plain c (by simp [mem])

variable {s : Session} {command text front part : String} {folder : Path}

/-! ## The word and its kind -/

theorem noBlank_of_any {cs : List Char} (h : cs.any isBlank = false) : ∀ c ∈ cs, isBlank c = false :=
  fun c mem => Bool.eq_false_iff.2 (List.any_eq_false.1 h c mem)

theorem spec_of_command (takes : command ∈ ["source", "save", "output"]) :
    command ≠ "" ∧ (∀ c ∈ command.toList, isBlank c = false) ∧
      ∃ spec, Spec.find? command = some spec ∧ spec.flags = [] ∧
        kindAfter spec.verb 1 = .file := by
  simp only [List.mem_cons, List.not_mem_nil, or_false] at takes
  rcases takes with rfl | rfl | rfl <;> exact ⟨by decide, noBlank_of_any (by decide), _, rfl, rfl, rfl⟩

theorem blankSeparated_line (takes : command ∈ ["source", "save", "output"])
    (noBlank : ∀ c ∈ text.toList, isBlank c = false) :
    blankSeparated (command ++ " " ++ text) =
      if text = "" then [command] else [command, text] := by
  obtain ⟨nonempty, whole, -⟩ := spec_of_command takes
  have first : partsBetween isBlank [] command.toList = [command] := by
    rw [partsBetween_of_whole whole (.inr (by simpa using nonempty))]
    simp
  rw [blankSeparated]
  simp only [String.toList_append, String.reduceToList, List.append_assoc, List.singleton_append]
  rw [partsBetween_append [] _ _ (by decide), first]
  by_cases empty : text = ""
  · simp [empty, partsBetween]
  · rw [if_neg empty, partsBetween_of_whole noBlank (.inr (by simpa using empty))]
    simp

theorem kindOf_line (takes : command ∈ ["source", "save", "output"])
    (noBlank : ∀ c ∈ text.toList, isBlank c = false) :
    kindOf (command ++ " " ++ text) (if text = "" then [command] else [command, text]) = .file := by
  obtain ⟨-, -, spec, found, -, kind⟩ := spec_of_command takes
  have count : countWords (command ++ " " ++ text)
      (if text = "" then [command] else [command, text]) = 1 := by
    by_cases empty : text = ""
    · simp [countWords, endsInBlank, empty]
    · have nonempty : text.toList ≠ [] := by simpa using empty
      obtain ⟨init, last, isConcat⟩ := (List.eq_nil_or_concat text.toList).resolve_left nonempty
      have notBlank := noBlank last (by simp [isConcat])
      have notEnded : endsInBlank (command ++ " " ++ text) = false := by
        have other : last ≠ ' ' ∧ last ≠ '\t' := by
          constructor <;> rintro rfl <;> exact absurd notBlank (by decide)
        have isLast : (command ++ " " ++ text).toList.getLast? = some last := by
          rw [String.toList_append, isConcat, List.concat_eq_append, ← List.append_assoc,
            List.getLast?_concat]
        rw [endsInBlank, isLast]
        simp [other]
      simp [countWords, notEnded, empty]
  unfold kindOf
  rw [count]
  by_cases empty : text = "" <;> simp [empty, found, kind]

theorem flagsFor_line (takes : command ∈ ["source", "save", "output"]) (text : String) :
    flagsFor (if text = "" then [command] else [command, text]) text = [] := by
  obtain ⟨-, -, spec, found, none, -⟩ := spec_of_command takes
  by_cases empty : text = "" <;> simp [flagsFor, empty, found, none]

theorem expanded_word [Host] (word : IsWord s.place front part folder) :
    expanded s (front ++ part) .file = .ok (front ++ part) := by
  have home : Place.expandHome (front ++ part) = .ok (front ++ part) := by
    unfold Place.expandHome
    split
    · rename_i isHome
      exact absurd (by rw [isHome]; rfl) word.notHome
    · rfl
  have stays : (!Place.asksFolder (front ++ part) && s.place.isFolder (front ++ part)) = false := by
    by_cases empty : part = ""
    · subst empty
      cases word.leads with
      | here => rfl
      | folder => simp [Place.asksFolder]
    · rw [word.new empty, Bool.and_false]
  simp [expanded, expandName, home, bind, Except.bind, stays, pure, Except.pure]

/-! ## The names that are found -/

def seen (p : Place) (front name : String) : Bool := p.isFolder (front ++ name)

/-- The names in the folder that start with the last part of the word, hidden ones only if it is hidden. -/
def entries (d : Disk) (folder : Path) (part : String) : List String :=
  (d.names folder).filter fun name =>
    part.toList.isPrefixOf name.toList && (!isHidden name.toList || isHidden part.toList)

def considered (p : Place) (folder : Path) (front part : String) : List String :=
  (entries p.disk folder part).filter fun name => !isHidden name.toList || seen p front name

theorem mem_entries {d : Disk} {name : String} (h : name ∈ entries d folder part) :
    name ∈ d.names folder := (List.mem_filter.1 h).1

theorem mem_considered {name : String} (h : name ∈ considered s.place folder front part) :
    name ∈ s.place.disk.names folder := mem_entries (List.mem_filter.1 h).1

theorem isPrefixOf_of_mem_considered {name : String}
    (h : name ∈ considered s.place folder front part) :
    part.toList.isPrefixOf name.toList = true := by
  have starts := (List.mem_filter.1 (List.mem_filter.1 h).1).2
  exact (Bool.and_eq_true_iff.1 starts).1

theorem found_folders (plain : IsPlain part.toList) :
    s.place.found front folder (part.toList ++ ['*']) true =
      (considered s.place folder front part).filter (seen s.place front) := by
  rw [Place.found, considered, entries, List.filter_filter, List.filter_filter]
  refine List.filter_congr fun name _ => ?_
  rw [isHidden_append_star, fits_star plain, seen]
  cases isHidden part.toList <;> cases isHidden name.toList <;>
    cases s.place.isFolder (front ++ name) <;> simp

theorem ofList_join {name : String} (named : IsFileName name) :
    String.ofList (join (front ++ name).toList []) = front ++ name ++ "/" := by
  have nonempty : (front ++ name).toList ≠ [] := by simp [named.nonempty]
  have single := Place.getLast?_ne_slash (Place.not_asksFolder_append named front)
  rw [join_of_single nonempty single, String.ofList_append, String.ofList_toList]

theorem folders_word (wf : s.place.WellFormed) (word : IsWord s.place front part folder) :
    folders s.place (front ++ part) =
      .ok (((considered s.place folder front part).filter (seen s.place front)).map
        (whole (seen s.place front) front)) := by
  let star := front.toList ++ (part.toList ++ ['*'])
  have pattern : (front ++ part).toList ++ ['*', '/'] = star ++ ['/'] := by simp [star]
  have split : splitLast (star ++ ['/']) = (star, []) :=
    splitLast_slash (by simp [star]) (by simp [star]) (by simp)
  have above := Place.expand_front word.leads wf word.plain_front (part.toList ++ ['*'])
    (by simp [isPattern]) (by simpa using word.last) true
  rw [found_folders word.plain_part] at above
  have isFolders : ∀ dir ∈ ((considered s.place folder front part).filter
      (seen s.place front)).map (fun name => (front ++ name).toList),
      s.place.isFolder (String.ofList dir) = true := by
    intro dir mem
    obtain ⟨name, there, rfl⟩ := List.mem_map.1 mem
    rw [String.ofList_toList]
    exact (List.mem_filter.1 there).2
  rw [folders, pattern, Place.expand_folders split (by simp [star, isPattern]) (by simp) above isFolders]
  simp only [bind, Except.bind, pure, Except.pure, List.map_map, Except.ok.injEq]
  refine List.map_congr_left fun name mem => ?_
  obtain ⟨there, isFolder⟩ := List.mem_filter.1 mem
  simp only [Function.comp_apply, whole, isFolder, if_true]
  exact ofList_join (wf.disk.isFileName_of_mem_names (mem_considered there))

theorem isPrefixOf_append (front name : String) :
    (front ++ part).toList.isPrefixOf (front ++ name).toList =
      part.toList.isPrefixOf name.toList := by
  rw [Bool.eq_iff_iff, List.isPrefixOf_iff_prefix, List.isPrefixOf_iff_prefix,
    String.toList_append, String.toList_append, List.prefix_append_right_inj]

theorem found_files :
    ((s.place.found front folder ['*'] false).filter (!seen s.place front ·)).filter
        (fun name => part.toList.isPrefixOf name.toList) =
      (considered s.place folder front part).filter (!seen s.place front ·) := by
  rw [Place.found, considered, entries, List.filter_filter, List.filter_filter, List.filter_filter,
    List.filter_filter]
  refine List.filter_congr fun name _ => ?_
  have fits := fits_star (List.forall_mem_nil _) name.toList
  rw [List.nil_append, List.isPrefixOf_nil_left] at fits
  rw [fits]
  cases isHidden name.toList <;> cases seen s.place front name <;> simp [isHidden]

theorem pattern_of_front (leads : s.place.Front front folder) (last : '/' ∉ part.toList) :
    (let folder := (splitLast (front ++ part).toList).1
      if folder.isEmpty then ['*'] else folder ++ ['/', '*']) = front.toList ++ ['*'] := by
  cases leads with
  | here => simp [splitLast_of_not_mem last]
  | folder nonempty single located =>
      rename_i e
      have nonempty' : e.toList ≠ [] := by simpa using nonempty
      have split : splitLast (e ++ "/" ++ part).toList = (e.toList, part.toList) := by
        simpa using splitLast_slash nonempty' (Place.getLast?_ne_slash single) last
      rw [split]
      simp [nonempty]

theorem files_word (wf : s.place.WellFormed) (word : IsWord s.place front part folder) :
    ∃ names, files s.place (front ++ part) = .ok names ∧
      names.filter (fun c => (front ++ part).toList.isPrefixOf c.toList) =
        ((considered s.place folder front part).filter (!seen s.place front ·)).map
          (whole (seen s.place front) front) := by
  have above := Place.expand_front word.leads wf word.plain_front ['*'] (by decide) (by decide) false
  refine ⟨((s.place.found front folder ['*'] false).map (front ++ ·)).filter
    (!s.place.isFolder ·), ?_, ?_⟩
  · rw [files]
    simp only [pattern_of_front word.leads word.last, above, bind, Except.bind, pure, Except.pure,
      List.map_map, Function.comp_def, String.ofList_toList]
  · rw [List.filter_map, List.filter_map, ← found_files]
    simp only [Function.comp_def, isPrefixOf_append]
    refine List.map_congr_left fun name mem => ?_
    have notFolder : seen s.place front name = false := by
      simpa [seen] using (List.mem_filter.1 (List.mem_filter.1 mem).1).2
    simp [whole, notFolder]

/-! ## What is offered -/

section Shows

variable {isFolder isFolder' : String → Bool} {names offered completions : List String} {name : String}

theorem forall_of_countP_eq {α : Type} {f g : α → Bool} {xs : List α}
    (sub : ∀ x ∈ xs, g x = true → f x = true) (counts : xs.countP f = xs.countP g) :
    ∀ x ∈ xs, f x = true → g x = true := by
  have both : xs.countP (fun x => g x && f x) = xs.countP g :=
    List.countP_congr fun x mem => by
      rw [Bool.and_eq_true]
      exact ⟨And.left, fun isG => ⟨isG, sub x mem isG⟩⟩
  have all : (xs.filter f).countP g = (xs.filter f).length := by
    rw [List.countP_filter, both, ← counts, List.countP_eq_length_filter]
  intro x mem isF
  exact List.countP_eq_length.1 all x (List.mem_filter.2 ⟨mem, isF⟩)

theorem asksFolder_whole (named : IsFileName name) :
    Place.asksFolder (whole isFolder front name) = isFolder name := by
  cases folder : isFolder name with
  | true => simp [whole, folder, Place.asksFolder]
  | false =>
      have notAsked := Place.not_asksFolder_append named front
      simpa [whole, folder] using notAsked

theorem asksFolder_alone (named : IsFileName name) (b : Bool) :
    Place.asksFolder (whole isFolder front name ++ if isFolder name || b then "" else " ") =
      isFolder name := by
  cases folder : isFolder name with
  | true => simp [asksFolder_whole named, folder]
  | false =>
      cases b with
      | true => simp [asksFolder_whole named, folder]
      | false => simp [Place.asksFolder]

theorem isFlagLike_whole (named : IsFileName name) (empty : front = "") :
    isFlagLike (whole isFolder front name) = isFlagLike name := by
  rw [isFlagLike, isFlagLike, whole, empty, String.empty_append, String.toList_append,
    List.head?_append_of_ne_nil _ (Place.toList_ne_nil named)]

theorem whole_inj {name' : String} (named : IsFileName name) (named' : IsFileName name')
    (same : whole isFolder front name = whole isFolder front name') : name = name' := by
  have folders : isFolder name = isFolder name' := by
    have asks := congrArg Place.asksFolder same
    rwa [asksFolder_whole named, asksFolder_whole named'] at asks
  rw [whole, whole, folders, String.append_left_inj, String.append_right_inj] at same
  exact same

theorem Shows.congr (h : Shows isFolder front part names offered)
    (same : ∀ name ∈ names, isFolder name = isFolder' name) :
    Shows isFolder' front part names offered := by
  have wholes : ∀ name ∈ names, whole isFolder front name = whole isFolder' front name :=
    fun name mem => by rw [whole, whole, same name mem]
  constructor
  · rintro name rfl
    rw [h.alone name rfl, wholes name (by simp), same name (by simp)]
  · intro several
    rw [← List.map_congr_left wholes]
    exact h.sorted several

theorem Shows.length_eq (h : Shows isFolder front part names offered) :
    offered.length = names.length := by
  by_cases one : names.length = 1
  · obtain ⟨name, rfl⟩ := List.length_eq_one_iff.1 one
    rw [h.alone name rfl, List.length_singleton, List.length_singleton]
  · rw [(h.sorted one).1.length_eq, List.length_map]

theorem Shows.countP_eq (h : Shows isFolder front part names offered)
    (named : ∀ name ∈ names, IsFileName name) :
    offered.countP Place.asksFolder = names.countP isFolder := by
  by_cases one : names.length = 1
  · obtain ⟨name, rfl⟩ := List.length_eq_one_iff.1 one
    rw [h.alone name rfl, List.countP_singleton, List.countP_singleton,
      asksFolder_alone (named name (by simp))]
  · rw [(h.sorted one).1.countP_eq, List.countP_map]
    refine List.countP_congr fun name mem => ?_
    rw [Function.comp_apply, asksFolder_whole (named name mem)]

theorem Shows.nodup (h : Shows isFolder front part names offered)
    (named : ∀ name ∈ names, IsFileName name) (distinct : names.Nodup) : offered.Nodup := by
  by_cases one : names.length = 1
  · obtain ⟨name, rfl⟩ := List.length_eq_one_iff.1 one
    rw [h.alone name rfl]
    exact List.nodup_singleton _
  · rw [(h.sorted one).1.nodup_iff]
    exact distinct.map_on fun name mem name' mem' => whole_inj (named name mem) (named name' mem')

theorem Shows.iff_forall {hidden isSeen : String → Bool}
    (h : Shows isSeen front part (names.filter fun name => !hidden name || isSeen name) offered)
    (named : ∀ name ∈ names, IsFileName name)
    (sub : ∀ name ∈ names, isSeen name = true → isFolder name = true) :
    Shows isFolder front part names offered ↔ ∀ name ∈ names,
      (hidden name = true → isSeen name = true) ∧ (isFolder name = true → isSeen name = true) := by
  constructor
  · intro all
    have none : ∀ name ∈ names, (!hidden name || isSeen name) = true :=
      List.length_filter_eq_length_iff.1 (h.length_eq.symm.trans all.length_eq)
    have counts : names.countP isFolder = names.countP isSeen := by
      rw [← all.countP_eq named, h.countP_eq fun name mem => named name (List.mem_filter.1 mem).1,
        List.filter_eq_self.2 none]
    have folders := forall_of_countP_eq sub counts
    exact fun name mem => ⟨fun isHidden => by simpa [isHidden] using none name mem, folders name mem⟩
  · intro real
    have none : ∀ name ∈ names, (!hidden name || isSeen name) = true := by
      intro name mem
      cases isHidden : hidden name with
      | false => rfl
      | true => simpa using (real name mem).1 isHidden
    rw [List.filter_eq_self.2 none] at h
    exact h.congr fun name mem => Bool.eq_iff_iff.2 ⟨sub name mem, (real name mem).2⟩

theorem not_lt_eq_true {a b : String} [Decidable (b < a)] : (!decide (b < a)) = true ↔ a ≤ b := by
  rw [Bool.not_eq_true', decide_eq_false_iff_not, String.not_lt]

theorem sorted_pairwise (ss : List String) : (sorted ss).Pairwise (· ≤ ·) := by
  refine List.Pairwise.imp (fun ordered => not_lt_eq_true.1 ordered)
    (List.pairwise_mergeSort ?_ ?_ ss)
  · intro a b c ab bc
    exact not_lt_eq_true.2 (String.le_trans (not_lt_eq_true.1 ab) (not_lt_eq_true.1 bc))
  · intro a b
    rw [Bool.or_eq_true]
    exact (String.le_total a b).imp not_lt_eq_true.2 not_lt_eq_true.2

theorem shows_present (perm : completions.Perm (names.map (whole isFolder front)))
    (named : ∀ name ∈ names, IsFileName name) :
    Shows isFolder front part names (present (front ++ part) false completions) := by
  have lengths : completions.length = names.length := by rw [perm.length_eq, List.length_map]
  constructor
  · rintro name rfl
    rw [List.map_singleton, List.perm_singleton] at perm
    have isName := named name (by simp)
    rw [perm]
    simp only [present, asksFolder_whole isName]
    by_cases empty : front ++ part = ""
    · have flagLike : isFlagLike (whole isFolder front name) = isFlagLike name :=
        isFlagLike_whole isName (String.append_eq_empty_iff.1 empty).1
      cases isFolder name <;> cases like : isFlagLike name <;> simp [empty, flagLike, like]
    · cases isFolder name <;> simp [empty]
  · intro several
    match completions, lengths with
    | [], _ => exact ⟨perm, List.Pairwise.nil⟩
    | [_], one => exact absurd one.symm several
    | c :: c' :: rest, _ =>
        have shown : present (front ++ part) false (c :: c' :: rest) = sorted (c :: c' :: rest) := rfl
        rw [shown]
        exact ⟨(List.mergeSort_perm _ _).trans perm, sorted_pairwise _⟩

end Shows

theorem offers_word [Host] (wf : s.place.WellFormed) (takes : command ∈ ["source", "save", "output"])
    (word : IsWord s.place front part folder) :
    ∃ completions,
      offers s (command ++ " " ++ (front ++ part)) (front ++ part) =
        .ok (present (front ++ part) false completions) ∧
      completions.Perm ((considered s.place folder front part).map
        (whole (seen s.place front) front)) := by
  obtain ⟨names, files, isFiles⟩ := files_word wf word
  let isFolder := seen s.place front
  let found := considered s.place folder front part
  refine ⟨(found.filter isFolder).map (whole isFolder front) ++
    (found.filter (!isFolder ·)).map (whole isFolder front), ?_, ?_⟩
  · have isFolders : ((found.filter isFolder).map (whole isFolder front)).filter
        (fun c => (front ++ part).toList.isPrefixOf c.toList) =
          (found.filter isFolder).map (whole isFolder front) := by
      refine List.filter_eq_self.2 fun c mem => ?_
      obtain ⟨name, there, rfl⟩ := List.mem_map.1 mem
      have starts := isPrefixOf_of_mem_considered (List.mem_filter.1 there).1
      rw [← isPrefixOf_append front, List.isPrefixOf_iff_prefix] at starts
      rw [whole, List.isPrefixOf_iff_prefix, String.toList_append (s := front ++ name)]
      exact starts.trans (List.prefix_append _ _)
    rw [offers, blankSeparated_line takes word.noBlank, kindOf_line takes word.noBlank,
      expanded_word word]
    simp only [bind, Except.bind, pure, Except.pure, flagsFor_line takes, candidates,
      folders_word wf word, files, List.nil_append, List.filter_append, isFiles]
    rw [isFolders]
    simp only [ne_eq, not_true_eq_false, decide_false]
    rfl
  · rw [← List.map_append]
    exact (List.filter_append_perm isFolder found).map _

/-- What is offered for a word, once each, are the names in the folder that go on its last part, except
for hidden files. All that are there are offered, as what they are, if and only if none of them is a
hidden file, nor a folder whose whole name is too long for the system to tell. -/
theorem offers_entries [Host] (wf : s.place.WellFormed) (takes : command ∈ ["source", "save", "output"])
    (word : IsWord s.place front part folder) :
    let isFolder name := s.place.disk.isFolder (folder ++ [name])
    ∃ offered, offers s (command ++ " " ++ (front ++ part)) (front ++ part) = .ok offered ∧
      offered.Nodup ∧
      Shows (seen s.place front) front part (considered s.place folder front part) offered ∧
      (∀ name ∈ s.place.disk.names folder, seen s.place front name =
        (isFolder name && (front ++ name).utf8ByteSize ≤ Place.maxName)) ∧
      (Shows isFolder front part (entries s.place.disk folder part) offered ↔
        ∀ name ∈ entries s.place.disk folder part,
          (isHidden name.toList = true → isFolder name = true) ∧
            (isFolder name = true → (front ++ name).utf8ByteSize ≤ Place.maxName)) := by
  intro isFolder
  obtain ⟨completions, offers, perm⟩ := offers_word wf takes word
  have named : ∀ name ∈ s.place.disk.names folder, IsFileName name :=
    fun name mem => wf.disk.isFileName_of_mem_names mem
  have shows : Shows _ front part _ _ :=
    shows_present perm fun name mem => named name (mem_considered mem)
  have distinct : (considered s.place folder front part).Nodup :=
    ((wf.disk.nodup_names folder).filter _).filter _
  have seen_eq : ∀ name ∈ s.place.disk.names folder, seen s.place front name =
      (isFolder name && (front ++ name).utf8ByteSize ≤ Place.maxName) :=
    fun name mem => word.leads.isFolder_append wf mem
  refine ⟨_, offers, shows.nodup (fun name mem => named name (mem_considered mem)) distinct, shows,
    seen_eq, ?_⟩
  have sub : ∀ name ∈ entries s.place.disk folder part, seen s.place front name = true →
      isFolder name = true := by
    intro name mem isSeen
    rw [seen_eq name (mem_entries mem), Bool.and_eq_true] at isSeen
    exact isSeen.1
  rw [shows.iff_forall (fun name mem => named name (mem_entries mem)) sub]
  refine forall₂_congr fun name mem => ?_
  rw [seen_eq name (mem_entries mem), Bool.and_eq_true, decide_eq_true_eq]
  tauto

theorem offers_entries_nested :
    let _ : Host := .usual
    let disk := (({} : Disk).addFile ["abc", "x.cmd"] "").addFile ["automaton.cmd"] ""
    let s := Session.start ⟨disk, []⟩
    (s.place.WellFormed ∧ IsWord s.place "abc/" "x" ["abc"]) ∧
      offers s "source abc/x" "abc/x" = .ok ["abc/x.cmd "] := by
  intro host disk s
  have wf : s.place.WellFormed := ⟨⟨by decide, by decide, by decide⟩, by decide⟩
  have leads : s.place.Front "abc/" ["abc"] := .folder (e := "abc") (by decide) (by decide) rfl
  have word : IsWord s.place "abc/" "x" ["abc"] :=
    ⟨leads, by decide, noBlank_of_any (by decide), by decide, by decide, fun _ => by decide⟩
  have takes : "source" ∈ ["source", "save", "output"] := by decide
  obtain ⟨offered, offers, -, shows, -⟩ := offers_entries wf takes word
  have alone := shows.alone "x.cmd" rfl
  rw [alone] at offers
  exact ⟨⟨wf, word⟩, offers⟩

theorem hidden_file_missed :
    let _ : Host := .usual
    let s := Session.start ⟨({} : Disk).addFile [".abc"] "", []⟩
    (s.place.WellFormed ∧ IsWord s.place "" ".a" []) ∧
      entries s.place.disk [] ".a" = [".abc"] ∧
      ∃ offered, offers s "source .a" ".a" = .ok offered ∧
        ¬ Shows (fun name => s.place.disk.isFolder ([] ++ [name])) "" ".a"
          (entries s.place.disk [] ".a") offered := by
  intro host s
  have wf : s.place.WellFormed := ⟨⟨by decide, by decide, by decide⟩, by decide⟩
  have word : IsWord s.place "" ".a" [] :=
    ⟨.here, by decide, noBlank_of_any (by decide), by decide, by decide, fun _ => by decide⟩
  have takes : "source" ∈ ["source", "save", "output"] := by decide
  have found : entries s.place.disk [] ".a" = [".abc"] := by decide
  obtain ⟨completions, offers, perm⟩ := offers_word wf takes word
  have none : considered s.place [] "" ".a" = [] := by decide
  rw [none, List.map_nil, List.perm_nil] at perm
  rw [perm] at offers
  refine ⟨⟨wf, word⟩, found, _, offers, fun shows => ?_⟩
  cases shows.alone ".abc" found

end Completion

end Acceptor
