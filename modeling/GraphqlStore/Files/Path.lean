/-!
Paths of files. A path keeps the segments between its slashes as they are
written, so that it is shown as it was given; what a path means does not hang
on empty segments and single dots. Main statement: a parent has fewer
segments than its path.
-/

set_option autoImplicit false

namespace GraphqlStore

/-- A path: whether it starts at the top, and its segments as written. -/
structure Path where
  absolute : Bool
  segments : List String
deriving DecidableEq, Repr

namespace Path

def ofText (text : String) : Path :=
  match (text.toList.splitOn '/').map String.ofList with
  | [""] => ⟨false, []⟩
  | ["", ""] => ⟨true, []⟩
  | "" :: segments => ⟨true, segments⟩
  | segments => ⟨false, segments⟩

def text (path : Path) : String :=
  (if path.absolute then "/" else "") ++ "/".intercalate path.segments

def ofNames (names : List String) : Path := ⟨false, names⟩

def isBlank (segment : String) : Bool := segment == "" || segment == "."

def names (path : Path) : List String := path.segments.filter fun segment => !isBlank segment

def climbs (path : Path) : Bool := path.segments.contains ".."

def endsOpen (path : Path) : Bool := path.segments.getLast? == some ""

/-- The path below a base. An absolute path stands for itself. -/
def join (base below : Path) : Path :=
  if below.absolute || (!base.absolute && base.segments.isEmpty) then below
  else
    let start := if base.endsOpen then base.segments.dropLast else base.segments
    ⟨base.absolute, start ++ if below.segments.isEmpty then [""] else below.segments⟩

def dropBlank (segments : List String) : List String := (segments.reverse.dropWhile isBlank).reverse

/-- The path without segments at its end that lead nowhere. A dot at the start of a relative path
stays. -/
def trim (path : Path) : Path :=
  match path with
  | ⟨false, "." :: rest⟩ => ⟨false, "." :: dropBlank rest⟩
  | ⟨absolute, segments⟩ => ⟨absolute, dropBlank segments⟩

def parent? (path : Path) : Option Path :=
  match path.trim with
  | ⟨_, []⟩ => none
  | ⟨absolute, segments⟩ => some (trim ⟨absolute, segments.dropLast⟩)

theorem length_dropBlank_le (segments : List String) :
    (dropBlank segments).length ≤ segments.length := by
  unfold dropBlank
  rw [List.length_reverse]
  exact Nat.le_trans (List.dropWhile_sublist _).length_le (Nat.le_of_eq (List.length_reverse))

theorem length_trim_le (path : Path) : path.trim.segments.length ≤ path.segments.length := by
  unfold trim
  split
  · exact Nat.succ_le_succ (length_dropBlank_le _)
  · exact length_dropBlank_le _

theorem length_parent_lt {path parent : Path} (found : path.parent? = some parent) :
    parent.segments.length < path.segments.length := by
  have atMost := length_trim_le path
  unfold parent? at found
  split at found
  · cases found
  · next absolute segments nonempty trimmed =>
      cases found
      rw [trimmed] at atMost
      have shorter := length_trim_le ⟨absolute, segments.dropLast⟩
      have positive : 0 < segments.length := by
        cases segments with
        | nil => exact absurd rfl nonempty
        | cons => simp
      simp only [List.length_dropLast] at shorter atMost
      omega

/-- The paths above a path, the nearest first. -/
def ancestors (path : Path) : List Path :=
  match _found : path.parent? with
  | none => []
  | some parent => parent :: parent.ancestors
termination_by path.segments.length
decreasing_by exact length_parent_lt _found

/-- What follows the last dot of a file name. A dot at the start of the name does not count. -/
def extension? (name : String) : Option String :=
  match name.toList.reverse.dropWhile (· != '.') with
  | [] => none
  | [_] => none
  | _ => some (String.ofList (name.toList.reverse.takeWhile (· != '.')).reverse)

end Path

end GraphqlStore
