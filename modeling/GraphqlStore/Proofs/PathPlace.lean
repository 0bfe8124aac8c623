import GraphqlStore.Files.Path
import Mathlib.Data.List.Basic

/-!
The place that a path leads to: how far up and then along which names, with
everything else that is written in the path left out. Places compose, so that
the place of a joined path comes from the places of its parts. A place does not
depend on where the output directory is, and paths with the same place lead to
the same file from anywhere.
-/

set_option autoImplicit false

namespace GraphqlStore

namespace Path

structure Place where
  absolute : Bool
  ups : Nat
  names : List String
deriving DecidableEq

namespace Place

def start (absolute : Bool) : Place := ⟨absolute, 0, []⟩

/-- Follows a segment. A step up takes back the last name; there is nothing above the top. -/
def step (place : Place) (segment : String) : Place :=
  if isBlank segment then place
  else if segment = ".." then
    if place.names.isEmpty then
      if place.absolute then place else { place with ups := place.ups + 1 }
    else { place with names := place.names.dropLast }
  else { place with names := place.names ++ [segment] }

def walk (place : Place) (segments : List String) : Place := segments.foldl step place

/-- The place that is the second one as seen from the first one. -/
def andThen (first second : Place) : Place :=
  ⟨first.absolute, first.ups + (second.ups - first.names.length),
    first.names.take (first.names.length - second.ups) ++ second.names⟩

variable {first second place : Place}

private theorem step_blank {segment : String} (blank : isBlank segment = true) :
    place.step segment = place :=
  if_pos blank

theorem step_up_of_nil (relative : place.absolute = false) (empty : place.names = []) :
    place.step ".." = ⟨false, place.ups + 1, []⟩ := by
  simp [step, isBlank, relative, empty]

theorem step_up_of_ne_nil (named : place.names ≠ []) :
    place.step ".." = { place with names := place.names.dropLast } := by
  simp [step, isBlank, named]

private theorem absolute_step (place : Place) (segment : String) :
    (place.step segment).absolute = place.absolute := by
  unfold step
  repeat' split
  all_goals rfl

private theorem andThen_start (place : Place) (absolute : Bool) :
    place.andThen (start absolute) = place := by
  simp [andThen, start]

private theorem step_andThen (relative : first.absolute = false) (below : second.absolute = false)
    (segment : String) :
    (first.andThen second).step segment = first.andThen (second.step segment) := by
  by_cases blank : isBlank segment = true
  · rw [step_blank blank, step_blank blank]
  by_cases up : segment = ".."
  · subst up
    by_cases nameless : second.names = []
    · rw [step_up_of_nil below nameless]
      by_cases within : second.ups < first.names.length
      · have named : (first.andThen second).names ≠ [] := by
          simp only [andThen, nameless, List.append_nil, ne_eq, List.take_eq_nil_iff]
          rintro (beyond | empty)
          · omega
          · simp [empty] at within
        rw [step_up_of_ne_nil named]
        simp only [andThen, nameless, List.append_nil, List.dropLast_eq_take, List.take_take,
          List.length_take, mk.injEq, true_and]
        refine ⟨by omega, congrArg (first.names.take ·) (by omega)⟩
      · have empty : (first.andThen second).names = [] := by
          simp only [andThen, nameless, List.append_nil, List.take_eq_nil_iff]
          omega
        have unmoved : (first.andThen second).absolute = false := relative
        rw [step_up_of_nil unmoved empty]
        simp only [andThen, relative, mk.injEq, true_and, List.append_nil]
        refine ⟨by omega, ?_⟩
        rw [Nat.sub_eq_zero_of_le (by omega), List.take_zero]
    · have named : (first.andThen second).names ≠ [] := by simp [andThen, nameless]
      rw [step_up_of_ne_nil named, step_up_of_ne_nil nameless]
      simp [andThen, List.dropLast_append_of_ne_nil nameless]
  · simp [step, blank, up, andThen]

private theorem walk_andThen (relative : first.absolute = false) (below : second.absolute = false)
    (segments : List String) :
    (first.andThen second).walk segments = first.andThen (second.walk segments) := by
  induction segments generalizing second with
  | nil => rfl
  | cons segment rest ih =>
      show ((first.andThen second).step segment).walk rest = first.andThen ((second.step segment).walk rest)
      rw [step_andThen relative below, ih ((absolute_step second segment).trans below)]

theorem walk_eq (relative : place.absolute = false) (segments : List String) :
    place.walk segments = place.andThen ((start false).walk segments) := by
  have same := walk_andThen relative (rfl : (start false).absolute = false) segments
  rwa [andThen_start] at same

theorem walk_append (place : Place) (segments others : List String) :
    place.walk (segments ++ others) = (place.walk segments).walk others :=
  List.foldl_append

private theorem absolute_walk (place : Place) (segments : List String) :
    (place.walk segments).absolute = place.absolute := by
  induction segments generalizing place with
  | nil => rfl
  | cons segment rest ih => exact (ih (place.step segment)).trans (absolute_step place segment)

private theorem walk_of_blank {segments : List String}
    (blank : ∀ segment ∈ segments, isBlank segment = true) :
    place.walk segments = place := by
  induction segments with
  | nil => rfl
  | cons segment rest ih =>
      rw [List.forall_mem_cons] at blank
      show (place.step segment).walk rest = place
      rw [step_blank blank.1, ih blank.2]

theorem walk_of_not_mem {segments : List String} (flat : ".." ∉ segments) :
    place.walk segments =
      { place with names := place.names ++ segments.filter fun segment => !isBlank segment } := by
  induction segments generalizing place with
  | nil => simp [walk]
  | cons segment rest ih =>
      rw [List.mem_cons, not_or] at flat
      show (place.step segment).walk rest = _
      rw [ih flat.2]
      by_cases blank : isBlank segment = true
      · simp [step_blank blank, blank]
      · simp [step, blank, Ne.symm flat.1]

private theorem walk_dropBlank (place : Place) (segments : List String) :
    place.walk (dropBlank segments) = place.walk segments := by
  have parts := List.takeWhile_append_dropWhile (p := isBlank) (l := segments.reverse)
  have whole : segments = dropBlank segments ++ (segments.reverse.takeWhile isBlank).reverse := by
    rw [dropBlank, ← List.reverse_append, parts, List.reverse_reverse]
  have blank : ∀ segment ∈ (segments.reverse.takeWhile isBlank).reverse, isBlank segment = true :=
    fun segment member => List.all_eq_true.1 List.all_takeWhile segment (List.mem_reverse.1 member)
  calc
    place.walk (dropBlank segments) =
        (place.walk (dropBlank segments)).walk (segments.reverse.takeWhile isBlank).reverse :=
      (walk_of_blank blank).symm
    _ = place.walk segments := by rw [← walk_append, ← whole]

/-- One step up from a directory and on to a place leads to that place itself exactly if the directory
is one name below what both are seen from. -/
theorem andThen_up_eq_iff (relative : first.absolute = false) (below : second.absolute = false) :
    first.andThen (andThen ⟨false, 1, []⟩ second) = second ↔
      first.names.length = first.ups + 1 ∧ first.ups ≤ second.ups := by
  obtain ⟨_, ups, names⟩ := first
  obtain ⟨_, others, rest⟩ := second
  cases relative
  cases below
  have none : names.take (names.length - (1 + others)) ++ rest = rest ↔
      names.length ≤ 1 + others := by
    rw [List.append_left_eq_self, List.take_eq_nil_iff, ← List.length_eq_zero_iff]
    omega
  simp only [andThen, List.length_nil, Nat.sub_zero, Nat.zero_sub, List.take_nil, List.nil_append,
    mk.injEq, true_and, none]
  omega

end Place

def place (path : Path) : Place := (Place.start path.absolute).walk path.segments

theorem absolute_place (path : Path) : path.place.absolute = path.absolute :=
  Place.absolute_walk _ _

private theorem place_trim (path : Path) : path.trim.place = path.place := by
  unfold trim
  split
  · next rest => exact Place.walk_dropBlank _ rest
  · next absolute segments _ => exact Place.walk_dropBlank _ segments

private theorem absolute_trim (path : Path) : path.trim.absolute = path.absolute := by
  unfold trim
  split <;> rfl

private theorem trim_of_named {absolute : Bool} {segments : List String} {last : String}
    (named : isBlank last = false) :
    trim ⟨absolute, segments ++ [last]⟩ = ⟨absolute, segments ++ [last]⟩ := by
  have kept (front : List String) : dropBlank (front ++ [last]) = front ++ [last] := by
    simp [dropBlank, named]
  unfold trim
  split
  · next rest same =>
      obtain ⟨rfl, same⟩ := mk.inj same
      cases segments with
      | nil =>
          cases same
          cases named
      | cons first front =>
          cases same
          exact congrArg (fun rest => Path.mk false ("." :: rest)) (kept front)
  · next same =>
      cases same
      rw [kept]

theorem exists_parent {absolute : Bool} {segments : List String} {last : String}
    (named : isBlank last = false) :
    ∃ parent, parent? ⟨absolute, segments ++ [last]⟩ = some parent ∧
      parent.absolute = absolute ∧ parent.place = place ⟨absolute, segments⟩ := by
  refine ⟨trim ⟨absolute, segments⟩, ?_, absolute_trim _, place_trim _⟩
  unfold parent?
  rw [trim_of_named named]
  split
  · next same => exact absurd (mk.inj same).2 (by simp)
  · next same =>
      cases same
      rw [List.dropLast_concat]

theorem place_join {base below : Path} (relative : base.absolute = false)
    (under : below.absolute = false) : (base.join below).place = base.place.andThen below.place := by
  have seen : base.place.andThen below.place = base.place.walk below.segments := by
    rw [place, place, relative, under]
    exact (Place.walk_eq (Place.absolute_walk _ _) _).symm
  have opened : Place.walk (.start base.absolute)
      (if base.endsOpen then base.segments.dropLast else base.segments) = base.place := by
    split
    · next isOpen =>
        have whole := List.dropLast_append_getLast? "" (beq_iff_eq.1 isOpen)
        calc
          Place.walk (.start base.absolute) base.segments.dropLast =
              (Place.walk (.start base.absolute) base.segments.dropLast).walk [""] :=
            (Place.walk_of_blank (List.forall_mem_singleton.2 rfl)).symm
          _ = base.place := by rw [← Place.walk_append, whole, place]
    · rfl
  have entered : base.place.walk (if below.segments.isEmpty then [""] else below.segments) =
      base.place.walk below.segments := by
    split
    · next empty =>
        rw [List.isEmpty_iff.1 empty]
        exact Place.walk_of_blank (List.forall_mem_singleton.2 rfl)
    · rfl
  rw [seen]
  unfold join
  split
  · next empty =>
      simp only [relative, under, Bool.false_or, Bool.not_false, Bool.true_and,
        List.isEmpty_iff] at empty
      rw [place, place, relative, under, empty]
      rfl
  · rw [← entered, ← opened, ← Place.walk_append]
    rfl

/-! ## Texts -/

def split (text : String) : List String := (text.toList.splitOn '/').map String.ofList

theorem split_append (first second : String) :
    split (first ++ "/" ++ second) = split first ++ split second := by
  simp [split, List.splitOn_append_cons_self]

theorem split_of_not_mem {text : String} (flat : '/' ∉ text.toList) : split text = [text] := by
  simp [split, List.splitOn_eq_singleton flat]

private theorem splitOn_append_of_not_mem (first : List Char) {second : List Char}
    (flat : '/' ∉ second) :
    ∃ front last, first.splitOn '/' = front ++ [last] ∧
      (first ++ second).splitOn '/' = front ++ [last ++ second] := by
  induction first with
  | nil => exact ⟨[], [], rfl, List.splitOn_eq_singleton flat⟩
  | cons character rest ih =>
      obtain ⟨front, last, before, after⟩ := ih
      rw [List.cons_append, List.splitOn_cons_eq_if_modifyHead, List.splitOn_cons_eq_if_modifyHead,
        before, after]
      split
      · exact ⟨[] :: front, last, rfl, rfl⟩
      · cases front with
        | nil => exact ⟨[], character :: last, rfl, rfl⟩
        | cons head tail => exact ⟨(character :: head) :: tail, last, rfl, rfl⟩

theorem split_append_of_not_mem (first : String) {second : String} (flat : '/' ∉ second.toList) :
    ∃ front last, split first = front ++ [last] ∧
      split (first ++ second) = front ++ [last ++ second] := by
  obtain ⟨front, last, before, after⟩ := splitOn_append_of_not_mem first.toList flat
  refine ⟨front.map String.ofList, String.ofList last, ?_, ?_⟩
  · rw [split, before, List.map_append, List.map_singleton]
  · rw [split, String.toList_append, after, List.map_append, List.map_singleton, String.ofList_append,
      String.ofList_toList]

def IsRelative (text : String) : Prop := text ≠ "" ∧ (ofText text).absolute = false

theorem ofText_of_split {text first : String} {rest : List String}
    (segments : split text = first :: rest) (named : first ≠ "") :
    ofText text = ⟨false, first :: rest⟩ := by
  unfold ofText
  rw [← split, segments]
  split <;> simp_all

theorem IsRelative.exists_split {text : String} (relative : IsRelative text) :
    ∃ first rest, split text = first :: rest ∧ first ≠ "" := by
  obtain ⟨nonempty, notAbsolute⟩ := relative
  cases segments : split text with
  | nil => simp [split, List.splitOn_ne_nil] at segments
  | cons first rest =>
      refine ⟨first, rest, rfl, fun blank => ?_⟩
      subst blank
      cases rest with
      | nil =>
          obtain ⟨characters, single, empty⟩ := List.map_eq_singleton_iff.1 segments
          have whole : ['/'].intercalate (text.toList.splitOn '/') = text.toList :=
            List.intercalate_splitOn '/'
          rw [single, String.ofList_eq_empty_iff.1 empty] at whole
          exact nonempty (String.toList_inj.1 whole.symm)
      | cons second rest =>
          unfold ofText at notAbsolute
          rw [← split, segments] at notAbsolute
          split at notAbsolute <;> simp_all

theorem IsRelative.ofText_eq {text : String} (relative : IsRelative text) :
    ofText text = ⟨false, split text⟩ := by
  obtain ⟨first, rest, segments, named⟩ := relative.exists_split
  rw [ofText_of_split segments named, segments]

theorem IsRelative.append {first : String} (relative : IsRelative first) (second : String) :
    IsRelative (first ++ "/" ++ second) := by
  obtain ⟨head, rest, segments, named⟩ := relative.exists_split
  have joined := split_append first second
  rw [segments, List.cons_append] at joined
  refine ⟨fun empty => ?_, by rw [ofText_of_split joined named]⟩
  rw [empty] at joined
  exact named (List.cons.inj joined).1.symm

theorem place_up {text : String} (relative : IsRelative text) :
    IsRelative ("../" ++ text) ∧
      (ofText ("../" ++ text)).place = .andThen ⟨false, 1, []⟩ (ofText text).place := by
  have up : IsRelative ".." := ⟨by decide, rfl⟩
  have joined : IsRelative ("../" ++ text) := up.append text
  have segments : split ("../" ++ text) = ".." :: split text := split_append ".." text
  refine ⟨joined, ?_⟩
  rw [joined.ofText_eq, relative.ofText_eq, segments]
  exact Place.walk_eq rfl (split text)

end Path

end GraphqlStore
