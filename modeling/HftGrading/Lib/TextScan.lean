/- module: HftGrading/Lib/TextScan
   scope: library
   digest: Stripping, splitting and searching of texts, and texts put together from parts. -/

import Mathlib.Data.List.Infix
import Mathlib.Data.List.DropRight

set_option autoImplicit false
set_option relaxedAutoImplicit false

namespace HftGrading.Lib.TextScan

universe u

variable {α : Type u}

section Stripping

variable (p : α → Bool)

def strip (text : List α) : List α := (text.dropWhile p).rdropWhile p

def firstWord (text : List α) : Option (List α) :=
  match (text.dropWhile p).takeWhile (!p ·) with
  | [] => none
  | c :: rest => some (c :: rest)

variable {p}

theorem strip_part (text : List α) : strip p text <:+: text :=
  (List.rdropWhile_prefix p (text.dropWhile p)).isInfix.trans
    (List.dropWhile_suffix p).isInfix

theorem strip_ends {first last : α} (start : p first = false) (stop : p last = false)
    (middle : List α) : strip p (first :: (middle ++ [last])) = first :: (middle ++ [last]) := by
  rw [strip, List.dropWhile_cons_of_neg (by simp [start]), ← List.cons_append,
    List.rdropWhile_concat_neg _ _ _ (by simp [stop])]

section Words

variable {pad word : List α} (blank : ∀ c ∈ pad, p c = true) (some : word ≠ [])
  (solid : ∀ c ∈ word, p c = false)

include solid in
theorem dropWhile_solid : word.dropWhile p = word := by
  cases word with
  | nil => rfl
  | cons c rest => exact List.dropWhile_cons_of_neg (by simp [solid c (List.mem_cons_self ..)])

include blank some solid in
theorem strip_word {last : α} (stop : p last = false) (middle : List α) :
    strip p (pad ++ (word ++ (middle ++ [last]))) = word ++ (middle ++ [last]) := by
  obtain ⟨c, rest, rfl⟩ := List.exists_cons_of_ne_nil some
  have ends := strip_ends (solid c (List.mem_cons_self ..)) stop (rest ++ middle)
  rw [List.append_assoc] at ends
  rwa [strip, List.dropWhile_append_of_pos blank]

include blank solid in
theorem strip_word_pad : strip p (word ++ pad) = word := by
  cases word with
  | nil =>
    rw [List.nil_append, strip, List.dropWhile_eq_nil_iff.mpr blank, List.rdropWhile_nil]
  | cons c rest =>
    have solid' : ∀ d ∈ (c :: rest).reverse, p d = false := fun d listed =>
      solid d (List.mem_reverse.mp listed)
    have blank' : ∀ d ∈ pad.reverse, p d = true := fun d listed =>
      blank d (List.mem_reverse.mp listed)
    rw [strip, List.cons_append,
      List.dropWhile_cons_of_neg (by simp [solid c (List.mem_cons_self ..)]), ← List.cons_append,
      List.rdropWhile, List.reverse_append, List.dropWhile_append_of_pos blank',
      dropWhile_solid solid', List.reverse_reverse]

include some solid in
theorem firstWord_word {next : α} (separates : p next = true) (rest : List α) :
    firstWord p (word ++ next :: rest) = Option.some word := by
  obtain ⟨c, tail, rfl⟩ := List.exists_cons_of_ne_nil some
  have found : ((c :: tail ++ next :: rest).dropWhile p).takeWhile (!p ·) = c :: tail := by
    rw [List.cons_append,
      List.dropWhile_cons_of_neg (by simp [solid c (List.mem_cons_self ..)]), ← List.cons_append,
      List.takeWhile_append_of_pos (by simpa using solid), List.takeWhile_cons_of_neg
        (by simp [separates]), List.append_nil]
  rw [firstWord, found]

end Words

end Stripping

section Splitting

theorem infix_intercalate (sep : List α) {part : List α} {parts : List (List α)}
    (listed : part ∈ parts) : part <:+: sep.intercalate parts := by
  induction parts with
  | nil => cases listed
  | cons first parts ih =>
    cases parts with
    | nil =>
      rw [List.mem_singleton.mp listed, List.intercalate_singleton]
    | cons second parts =>
      rw [List.intercalate_cons_cons]
      rcases List.mem_cons.mp listed with rfl | later
      · exact List.infix_append_of_infix_left List.infix_append_left
      · exact List.infix_append_of_infix_right (ih later)

variable [DecidableEq α] {sep : α}

theorem infix_of_mem_splitOn {part text : List α} (listed : part ∈ text.splitOn sep) :
    part <:+: text := by
  have inside := infix_intercalate [sep] listed
  rwa [List.intercalate_splitOn] at inside

theorem splitOn_append (front back : List α) :
    (front ++ sep :: back).splitOn sep = front.splitOn sep ++ back.splitOn sep :=
  List.splitOnP_append_cons front back (beq_self_eq_true sep)

theorem splitOn_of_not_mem {text : List α} (clear : sep ∉ text) : text.splitOn sep = [text] := by
  refine List.splitOnP_eq_singleton fun c listed => beq_eq_false_iff_ne.mpr ?_
  rintro rfl
  exact clear listed

theorem splitOn_lines (lines : List (List α)) (clear : ∀ line ∈ lines, sep ∉ line)
    (back : List α) :
    ((lines.map (· ++ [sep])).flatten ++ back).splitOn sep = lines ++ back.splitOn sep := by
  induction lines with
  | nil => rfl
  | cons line lines ih =>
    rw [List.forall_mem_cons] at clear
    have split : ((line :: lines).map (· ++ [sep])).flatten ++ back =
        line ++ sep :: ((lines.map (· ++ [sep])).flatten ++ back) := by simp
    rw [split, splitOn_append, splitOn_of_not_mem clear.1, ih clear.2]
    rfl

end Splitting

/-- The lines of two writers in one text, each writer's in order. -/
inductive Interleaves : List α → List α → List α → Prop
  | nil : Interleaves [] [] []
  | left (x : α) {xs ys zs : List α} (rest : Interleaves xs ys zs) :
      Interleaves (x :: xs) ys (x :: zs)
  | right (y : α) {xs ys zs : List α} (rest : Interleaves xs ys zs) :
      Interleaves xs (y :: ys) (y :: zs)

theorem Interleaves.perm {xs ys zs : List α} (mixed : Interleaves xs ys zs) :
    (xs ++ ys).Perm zs := by
  induction mixed with
  | nil => exact .nil
  | left x rest ih => exact ih.cons x
  | right y rest ih => exact List.perm_middle.trans (ih.cons y)

section Searching

variable [DecidableEq α] (marker : List α)

def afterFirst : List α → Option (List α)
  | [] => if marker.isPrefixOf [] then some [] else none
  | c :: rest =>
    if marker.isPrefixOf (c :: rest) then some ((c :: rest).drop marker.length)
    else afterFirst rest

def beforeFirst : List α → List α
  | [] => []
  | c :: rest => if marker.isPrefixOf (c :: rest) then [] else c :: beforeFirst rest

variable {marker}

theorem afterFirst_eq_none_iff {text : List α} :
    afterFirst marker text = none ↔ ¬ marker <:+: text := by
  induction text with
  | nil =>
    rw [afterFirst, List.infix_nil]
    cases marker <;> simp
  | cons c rest ih =>
    rw [afterFirst, List.infix_cons_iff, not_or, ← ih, ← List.isPrefixOf_iff_prefix]
    split_ifs with here
    · simp [here]
    · simp [here]

theorem afterFirst_none_of_infix {part text : List α} (inside : part <:+: text)
    (absent : afterFirst marker text = none) : afterFirst marker part = none := by
  rw [afterFirst_eq_none_iff] at absent ⊢
  exact fun found => absent (found.trans inside)

section Terminated

variable {stem pre post : List α} {stop : α}

theorem afterFirst_none_of_not_mem {text : List α} (clear : stop ∉ text) :
    afterFirst (stem ++ [stop]) text = none := by
  rw [afterFirst_eq_none_iff]
  intro found
  exact clear (found.subset (by simp))

theorem beforeFirst_of_not_mem {text : List α} (clear : stop ∉ text) :
    beforeFirst (stem ++ [stop]) text = text := by
  induction text with
  | nil => rfl
  | cons c rest ih =>
    have absent : ¬ (stem ++ [stop]).isPrefixOf (c :: rest) = true := by
      rw [List.isPrefixOf_iff_prefix]
      intro found
      exact clear (found.subset (by simp))
    rw [beforeFirst, if_neg absent, ih fun later => clear (List.mem_cons_of_mem _ later)]

omit [DecidableEq α] in
theorem terminated_front_iff (own : stop ∉ stem) (first : stop ∉ pre) :
    stem ++ [stop] <+: pre ++ stop :: post ↔ stem = pre := by
  induction stem generalizing pre with
  | nil =>
    cases pre with
    | nil => simp
    | cons c rest =>
      rw [List.mem_cons, not_or] at first
      simp [first.1]
  | cons a stem ih =>
    rw [List.mem_cons, not_or] at own
    cases pre with
    | nil => simp [Ne.symm own.1]
    | cons c rest =>
      rw [List.mem_cons, not_or] at first
      rw [List.cons_append, List.cons_append, List.cons_prefix_cons, ih own.2 first.2,
        List.cons.injEq]

theorem afterFirst_terminated (own : stop ∉ stem) (first : stop ∉ pre) (last : stop ∉ post) :
    afterFirst (stem ++ [stop]) (pre ++ stop :: post) =
      if stem <:+ pre then some post else none := by
  induction pre with
  | nil =>
    have front : (stem ++ [stop]).isPrefixOf (stop :: post) = true ↔ stem = [] := by
      rw [List.isPrefixOf_iff_prefix]
      exact terminated_front_iff own first
    simp only [List.nil_append, afterFirst, List.suffix_nil]
    by_cases empty : stem = []
    · rw [if_pos (front.mpr empty), if_pos empty, empty]
      rfl
    · rw [if_neg (fun found => empty (front.mp found)), if_neg empty,
        afterFirst_none_of_not_mem last]
  | cons c rest ih =>
    have front : (stem ++ [stop]).isPrefixOf (c :: (rest ++ stop :: post)) = true ↔
        stem = c :: rest := by
      rw [List.isPrefixOf_iff_prefix, ← List.cons_append]
      exact terminated_front_iff own first
    simp only [List.cons_append, afterFirst, List.suffix_cons_iff]
    by_cases same : stem = c :: rest
    · have whole : c :: (rest ++ stop :: post) = stem ++ [stop] ++ post := by simp [same]
      rw [if_pos (front.mpr same), if_pos (.inl same), whole, List.drop_left]
    · rw [if_neg (fun found => same (front.mp found)),
        ih fun later => first (List.mem_cons_of_mem _ later)]
      simp only [same, false_or]

end Terminated

end Searching

end HftGrading.Lib.TextScan
