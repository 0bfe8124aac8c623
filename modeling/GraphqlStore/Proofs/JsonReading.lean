import GraphqlStore.Json.Printer
import GraphqlStore.Json.Reader

/-!
Data texts are read back. A value without floats, whose objects list each name
once and whose arrays and objects are nested within the reader's limit, is what
its text means, be it written in one line or over several. Both forms are one
form with blanks in given places, and reading passes over the blanks.
-/

set_option autoImplicit false

namespace GraphqlStore

/-! ## Lists with distinct keys -/

namespace Ordered

variable {α : Type} {key : α → String}

private theorem upsert_of_notMem {entry : α} {entries : List α}
    (absent : key entry ∉ entries.map key) :
    upsert key entry entries = entries ++ [entry] := by
  induction entries with
  | nil => rfl
  | cons head rest ih =>
    rw [List.map_cons, List.mem_cons, not_or] at absent
    rw [upsert, if_neg (Ne.symm absent.1), ih absent.2, List.cons_append]

private theorem foldl_upsert_of_nodup {entries written : List α}
    (distinct : ((written ++ entries).map key).Nodup) :
    entries.foldl (fun written entry => upsert key entry written) written = written ++ entries := by
  induction entries generalizing written with
  | nil => simp
  | cons entry rest ih =>
    have absent : key entry ∉ written.map key := by
      intro present
      rw [List.map_append, List.map_cons] at distinct
      exact (List.nodup_append.1 distinct).2.2 _ present _ List.mem_cons_self rfl
    have same : written ++ entry :: rest = (written ++ [entry]) ++ rest := by simp
    rw [List.foldl_cons, upsert_of_notMem absent, same]
    rw [same] at distinct
    exact ih distinct

private theorem ofList_of_nodup {entries : List α} (distinct : (entries.map key).Nodup) :
    ofList key entries = entries :=
  foldl_upsert_of_nodup distinct

end Ordered

namespace Json

open Text (Symbol)

/-! ## Values -/

/-- A value that can be held: integers are in the 64-bit range, and objects list each name once. -/
inductive WellFormed : Json → Prop where
  | null : WellFormed .null
  | bool (value : Bool) : WellFormed (.bool value)
  | integer {value : Int} (above : JsonNumber.least ≤ value) (below : value ≤ JsonNumber.greatest) :
      WellFormed (.number (.integer value))
  | float (value : Binary64) : WellFormed (.number (.float value))
  | string (value : String) : WellFormed (.string value)
  | array {items : List Json} (each : ∀ item ∈ items, WellFormed item) : WellFormed (.array items)
  | object {members : List (String × Json)} (distinct : (members.map Prod.fst).Nodup)
      (each : ∀ member ∈ members, WellFormed member.2) : WellFormed (.object members)

/-- A value in which no float stands. -/
inductive FloatFree : Json → Prop where
  | null : FloatFree .null
  | bool (value : Bool) : FloatFree (.bool value)
  | integer (value : Int) : FloatFree (.number (.integer value))
  | string (value : String) : FloatFree (.string value)
  | array {items : List Json} (each : ∀ item ∈ items, FloatFree item) : FloatFree (.array items)
  | object {members : List (String × Json)} (each : ∀ member ∈ members, FloatFree member.2) :
      FloatFree (.object members)

mutual
/-- How deeply arrays and objects are nested in a value. -/
def depth : Json → Nat
  | .array items => itemsDepth items + 1
  | .object members => membersDepth members + 1
  | _ => 0

def itemsDepth : List Json → Nat
  | [] => 0
  | item :: rest => max (depth item) (itemsDepth rest)

def membersDepth : List (String × Json) → Nat
  | [] => 0
  | (_, value) :: rest => max (depth value) (membersDepth rest)
end

/-! ## Strings -/

theorem charsOf?_code {unit : Nat} (small : unit < 0xD800) (pieces : List StringPiece) :
    charsOf? (.code unit :: pieces) = (charsOf? pieces).map (Char.ofNat unit :: ·) := by
  have low : ¬ (0xD800 ≤ unit ∧ unit < 0xDC00) := by omega
  have high : ¬ (0xDC00 ≤ unit ∧ unit < 0xE000) := by omega
  have pair : ¬ (0xD800 ≤ unit ∧ unit < 0xE000) := by omega
  cases pieces with
  | nil => simp [charsOf?, pair]
  | cons piece rest =>
    cases piece with
    | char c => simp [charsOf?, pair]
    | stray => simp [charsOf?, pair]
    | code next => rw [charsOf?, if_neg low, if_neg high]

private theorem hexValue?_hexDigit (number : Nat) :
    hexValue? (hexDigit number) = some (number % 16) := by
  have each : ∀ digit < 16, hexValue? (Nat.digitChar digit) = some digit := by decide
  exact each _ (Nat.mod_lt _ (by decide))

theorem codeUnit?_hexDigit {number : Nat} (small : number < 0x20) :
    codeUnit? '0' '0' (hexDigit (number / 16)) (hexDigit number) = some number := by
  have zero : hexValue? '0' = some 0 := by decide
  simp only [codeUnit?, zero, hexValue?_hexDigit, bind, Option.bind_some, pure, Option.some.injEq]
  omega

private theorem readPieces_escapedChar (c : Char) :
    ∃ piece, (∀ text, readPieces ((escapedChar c).map some ++ text) =
        (readPieces text).map fun found => (piece :: found.1, found.2)) ∧
      ∀ pieces, charsOf? (piece :: pieces) = (charsOf? pieces).map (c :: ·) := by
  unfold escapedChar
  split
  · subst c
    exact ⟨.char '"', fun _ => rfl, fun _ => rfl⟩
  split
  · subst c
    exact ⟨.char '\\', fun _ => rfl, fun _ => rfl⟩
  split
  · subst c
    exact ⟨.char '\n', fun _ => rfl, fun _ => rfl⟩
  split
  · subst c
    exact ⟨.char '\r', fun _ => rfl, fun _ => rfl⟩
  split
  · subst c
    exact ⟨.char '\t', fun _ => rfl, fun _ => rfl⟩
  split
  · subst c
    exact ⟨.char '\x08', fun _ => rfl, fun _ => rfl⟩
  split
  · subst c
    exact ⟨.char '\x0c', fun _ => rfl, fun _ => rfl⟩
  split
  · next small =>
    refine ⟨.code c.toNat, ?_, ?_⟩
    · intro text
      simp only [List.map_cons, List.map_nil, List.cons_append, List.nil_append]
      rw [readPieces, codeUnit?_hexDigit small]
    · intro pieces
      rw [charsOf?_code (by omega), Char.ofNat_toNat]
  · next quote backslash _ _ _ _ _ large =>
    refine ⟨.char c, ?_, fun _ => rfl⟩
    intro text
    have plain : ¬ (c = '\\' ∨ c.toNat < 0x20) := not_or.2 ⟨backslash, large⟩
    simp only [List.map_cons, List.map_nil, List.cons_append, List.nil_append]
    rw [readPieces, if_neg plain]
    · intro same
      exact quote same
    · intro first second third fourth rest _
      exact backslash
    · intro next rest _
      exact backslash

theorem readPieces_escaped (characters : List Char) (rest : List Symbol) :
    ∃ pieces, readPieces ((characters.flatMap escapedChar).map some ++ some '"' :: rest) =
        some (pieces, rest) ∧ charsOf? pieces = some characters := by
  induction characters with
  | nil => exact ⟨[], rfl, rfl⟩
  | cons c later ih =>
    obtain ⟨pieces, reads, means⟩ := ih
    obtain ⟨piece, readsFirst, meansFirst⟩ := readPieces_escapedChar c
    refine ⟨piece :: pieces, ?_, ?_⟩
    · rw [List.flatMap_cons, List.map_append, List.append_assoc, readsFirst, reads]
      rfl
    · rw [meansFirst, means]
      rfl

theorem readPieces_quotedText (text : String) (rest : List Symbol) :
    ∃ inner pieces, (quotedText text).map some ++ rest = some '"' :: inner ∧
      readPieces inner = some (pieces, rest) ∧ textOf? pieces = some text := by
  obtain ⟨pieces, reads, means⟩ := readPieces_escaped text.toList rest
  refine ⟨_, pieces, ?_, reads, ?_⟩
  · simp [quotedText]
  · rw [textOf?, means, Option.map_some, String.ofList_toList]

/-! ## Numbers -/

/-- A text that does not go on with the digits, the fraction or the exponent of a number. -/
def EndsNumber (text : List Symbol) : Prop :=
  ∀ symbol ∈ text.head?, isDigit symbol = false ∧ symbol ≠ some '.' ∧ symbol ≠ some 'e' ∧
    symbol ≠ some 'E'

theorem numberOf_toDigits (number : Nat) : numberOf (Nat.toDigits 10 number) = number := by
  have same : numberOf (Nat.toDigits 10 number) =
      Nat.ofDigitChars 10 (Nat.toDigits 10 number) 0 := by
    simp only [numberOf, Nat.ofDigitChars, digitValue, Nat.mul_comm]
  rw [same, Nat.ofDigitChars_ten_toDigits]

theorem isDigit_toDigits (number : Nat) : ∀ c ∈ Nat.toDigits 10 number, c.isDigit = true := by
  intro c member
  exact Nat.isDigit_of_mem_toDigits (by decide) (by decide) member

theorem toDigits_eq_cons (number : Nat) :
    ∃ c text, Nat.toDigits 10 number = c :: text ∧ c.isDigit = true := by
  obtain ⟨c, text, digits⟩ := List.exists_cons_of_ne_nil (@Nat.toDigits_ne_nil number 10)
  exact ⟨c, text, digits, isDigit_toDigits number c (digits ▸ List.mem_cons_self)⟩

theorem toDigits_head_ne_zero {number : Nat} (positive : 0 < number) :
    ∃ first rest, Nat.toDigits 10 number = first :: rest ∧ first ≠ '0' := by
  induction number using Nat.strongRecOn with
  | ind number ih =>
    by_cases small : number < 10
    · have each : ∀ digit < 10, 0 < digit → Nat.digitChar digit ≠ '0' := by decide
      exact ⟨_, [], Nat.toDigits_of_lt_base small, each number small positive⟩
    · obtain ⟨first, rest, digits, nonzero⟩ := ih (number / 10) (by omega) (by omega)
      rw [Nat.toDigits_of_base_le (by decide) (by omega), digits]
      exact ⟨first, rest ++ _, rfl, nonzero⟩

theorem isWhole_toDigits (number : Nat) : isWhole (Nat.toDigits 10 number) = true := by
  by_cases positive : 0 < number
  · obtain ⟨first, rest, digits, nonzero⟩ := toDigits_head_ne_zero positive
    rw [digits, isWhole.eq_def]
    split
    · contradiction
    · next same =>
      cases same
      contradiction
    · rfl
  · obtain rfl : number = 0 := by omega
    decide

theorem leadingDigits_append {digits : List Char} {rest : List Symbol}
    (each : ∀ c ∈ digits, c.isDigit = true) (ends : EndsNumber rest) :
    leadingDigits (digits.map some ++ rest) = digits ∧
      skipDigits (digits.map some ++ rest) = rest := by
  have all : ∀ symbol ∈ digits.map some, isDigit symbol = true := List.forall_mem_map.2 each
  have stops : rest.takeWhile isDigit = [] ∧ rest.dropWhile isDigit = rest := by
    cases rest with
    | nil => exact ⟨rfl, rfl⟩
    | cons symbol later =>
      have other := (ends symbol rfl).1
      simp [other]
  rw [leadingDigits, skipDigits, List.takeWhile_append_of_pos all, List.dropWhile_append_of_pos all,
    stops.1, stops.2]
  simp [List.filterMap_map]

theorem readNumber_digits {digits : List Char} {rest : List Symbol} (negative : Bool)
    (each : ∀ c ∈ digits, c.isDigit = true) (whole : isWhole digits = true)
    (ends : EndsNumber rest) :
    readNumber negative (digits.map some ++ rest) = some (⟨negative, digits, [], none⟩, rest) := by
  obtain ⟨leading, skipped⟩ := leadingDigits_append each ends
  have fraction : readFraction rest = some ([], rest) := by
    rw [readFraction.eq_def]
    split
    · next later =>
      exact absurd rfl (ends _ rfl).2.1
    · rfl
  have scale : readScale rest = some (none, rest) := by
    cases rest with
    | nil => rfl
    | cons symbol later =>
      have other := ends symbol rfl
      rw [readScale.eq_def]
      exact if_neg (not_or.2 other.2.2)
  rw [readNumber, leading, skipped, whole]
  simp [fraction, scale]

theorem numberText_nonneg {value : Int} (nonneg : 0 ≤ value) :
    numberText (.integer value) = Nat.toDigits 10 value.toNat := by
  rw [numberText, Int.toString_eq_repr, Int.repr_eq_if, if_pos nonneg, Nat.toList_repr]

theorem numberText_negative {value : Int} (negative : ¬ 0 ≤ value) :
    numberText (.integer value) = '-' :: Nat.toDigits 10 (-value).toNat := by
  rw [numberText, Int.toString_eq_repr, Int.repr_eq_if, if_neg negative, String.toList_append,
    Nat.toList_repr]
  rfl

theorem skipSpace_cons {symbol : Symbol} (other : isSpace symbol = false) (rest : List Symbol) :
    skipSpace (symbol :: rest) = symbol :: rest :=
  List.dropWhile_cons_of_neg (by simp [other])

theorem skipSpace_append {blanks : List Char} (each : ∀ c ∈ blanks, isSpace (some c) = true)
    {symbol : Symbol} (other : isSpace symbol = false) (rest : List Symbol) :
    skipSpace (blanks.map some ++ symbol :: rest) = symbol :: rest := by
  rw [skipSpace, List.dropWhile_append_of_pos (List.forall_mem_map.2 each), ← skipSpace,
    skipSpace_cons other]

theorem ne_of_isDigit {c other : Char} (digit : c.isDigit = true) (none : other.isDigit = false) :
    c ≠ other := by
  intro same
  subst same
  cases digit.symm.trans none

theorem isSpace_of_isDigit {c : Char} (digit : c.isDigit = true) : isSpace (some c) = false := by
  have other := fun other : Char => @ne_of_isDigit c other digit
  simp [isSpace, other ' ' rfl, other '\n' rfl, other '\t' rfl, other '\r' rfl]

theorem readTerm_digits {blanks : List Char} (each : ∀ c ∈ blanks, isSpace (some c) = true)
    (number : Nat) {rest : List Symbol} (ends : EndsNumber rest) (budget : Nat) :
    readTerm (budget + 1) (blanks.map some ++ ((Nat.toDigits 10 number).map some ++ rest)) =
      some (.number ⟨false, Nat.toDigits 10 number, [], none⟩, rest) := by
  have reads := readNumber_digits false (isDigit_toDigits number) (isWhole_toDigits number) ends
  obtain ⟨c, text, digits, digit⟩ := toDigits_eq_cons number
  rw [digits] at reads ⊢
  rw [List.map_cons, List.cons_append] at reads ⊢
  rw [readTerm, skipSpace_append each (isSpace_of_isDigit digit)]
  split
  iterate 7
    · next same =>
      cases same
      exact absurd digit (by decide)
  rw [reads]
  rfl

/-! ## Texts with blanks in given places -/

/-- What stands before an item, a member or a closing bracket at each level, and between a colon and
a value: blanks. -/
structure Layout where
  line : Nat → List Char
  gap : List Char
  line_blank : ∀ level, ∀ c ∈ line level, isSpace (some c) = true
  gap_blank : ∀ c ∈ gap, isSpace (some c) = true

namespace Layout

def inLine : Layout := ⟨fun _ => [], [], by simp, by simp⟩

def overLines : Layout := ⟨newLine, [' '], by simp [newLine, isSpace], by simp [isSpace]⟩

@[simp] theorem inLine_line (level : Nat) : inLine.line level = [] := rfl

@[simp] theorem inLine_gap : inLine.gap = [] := rfl

@[simp] theorem overLines_line (level : Nat) : overLines.line level = newLine level := rfl

@[simp] theorem overLines_gap : overLines.gap = [' '] := rfl

end Layout

mutual
def laid (layout : Layout) (level : Nat) : Json → List Char
  | .null => "null".toList
  | .bool value => boolText value
  | .number value => numberText value
  | .string value => quotedText value
  | .array items => '[' :: laidItems layout level items ++ [']']
  | .object members => '\x7b' :: laidMembers layout level members ++ ['\x7d']

def laidItems (layout : Layout) (level : Nat) : List Json → List Char
  | [] => []
  | item :: rest =>
      layout.line (level + 1) ++ laid layout (level + 1) item ++ laidFurther layout level rest

/-- Items after the first one, up to the closing bracket. -/
def laidFurther (layout : Layout) (level : Nat) : List Json → List Char
  | [] => layout.line level
  | item :: rest =>
      ',' :: layout.line (level + 1) ++ laid layout (level + 1) item ++ laidFurther layout level rest

def laidMembers (layout : Layout) (level : Nat) : List (String × Json) → List Char
  | [] => []
  | (name, value) :: rest =>
      layout.line (level + 1) ++ quotedText name ++ ':' :: layout.gap ++
        laid layout (level + 1) value ++ laidMore layout level rest

/-- Members after the first one, up to the closing bracket. -/
def laidMore (layout : Layout) (level : Nat) : List (String × Json) → List Char
  | [] => layout.line level
  | (name, value) :: rest =>
      ',' :: layout.line (level + 1) ++ quotedText name ++ ':' :: layout.gap ++
        laid layout (level + 1) value ++ laidMore layout level rest
end

section Equations

variable (layout : Layout) (level : Nat)

private theorem laid_number (value : JsonNumber) :
    laid layout level (.number value) = numberText value := rfl

theorem laid_string (value : String) : laid layout level (.string value) = quotedText value := rfl

theorem laid_array (items : List Json) :
    laid layout level (.array items) = '[' :: laidItems layout level items ++ [']'] := rfl

theorem laid_object (members : List (String × Json)) :
    laid layout level (.object members) = '\x7b' :: laidMembers layout level members ++ ['\x7d'] :=
  rfl

theorem laidItems_cons (item : Json) (rest : List Json) :
    laidItems layout level (item :: rest) =
      layout.line (level + 1) ++ laid layout (level + 1) item ++ laidFurther layout level rest := rfl

end Equations

@[elab_as_elim]
theorem induction {motive : Json → Prop} (null : motive .null) (bool : ∀ value, motive (.bool value))
    (number : ∀ value, motive (.number value)) (string : ∀ value, motive (.string value))
    (array : ∀ items, (∀ item ∈ items, motive item) → motive (.array items))
    (object : ∀ members, (∀ member ∈ members, motive member.2) → motive (.object members))
    (value : Json) : motive value :=
  @Json.rec motive (fun items => ∀ item ∈ items, motive item)
    (fun members => ∀ member ∈ members, motive member.2) (fun member => motive member.2)
    null bool number string array object
    (by simp) (fun _ _ first rest => List.forall_mem_cons.2 ⟨first, rest⟩)
    (by simp) (fun _ _ first rest => List.forall_mem_cons.2 ⟨first, rest⟩)
    (fun _ _ below => below) value

theorem compactItems_eq {items : List Json} (level : Nat)
    (each : ∀ item ∈ items, ∀ level, compactText item = laid .inLine level item) :
    compactItems items = laidItems .inLine level items := by
  cases items with
  | nil => rfl
  | cons item rest =>
    rw [List.forall_mem_cons] at each
    induction rest generalizing item with
    | nil =>
      rw [compactItems, laidItems, laidFurther, each.1 (level + 1)]
      simp
    | cons next later ih =>
      rw [List.forall_mem_cons] at each
      rw [compactItems, ih next each.2, laidItems, laidItems, laidFurther, each.1 (level + 1)]
      simp

theorem compactMembers_eq {members : List (String × Json)} (level : Nat)
    (each : ∀ member ∈ members, ∀ level, compactText member.2 = laid .inLine level member.2) :
    compactMembers members = laidMembers .inLine level members := by
  cases members with
  | nil => rfl
  | cons member rest =>
    rw [List.forall_mem_cons] at each
    induction rest generalizing member with
    | nil =>
      rw [compactMembers, laidMembers, laidMore, each.1 (level + 1)]
      simp
    | cons next later ih =>
      rw [List.forall_mem_cons] at each
      obtain ⟨name, value⟩ := member
      obtain ⟨nextName, nextValue⟩ := next
      rw [compactMembers, ih _ each.2, laidMembers, laidMembers, laidMore, each.1 (level + 1)]
      simp

theorem compactText_eq (value : Json) (level : Nat) : compactText value = laid .inLine level value := by
  induction value using Json.induction generalizing level with
  | null => rfl
  | bool value => rfl
  | number value => rfl
  | string value => rfl
  | array items each => rw [compactText, laid_array, compactItems_eq level each]
  | object members each => rw [compactText, laid_object, compactMembers_eq level each]

theorem prettyItems_eq {item : Json} {rest : List Json} (level : Nat)
    (first : ∀ level, prettyText level item = laid .overLines level item)
    (each : ∀ item ∈ rest, ∀ level, prettyText level item = laid .overLines level item) :
    prettyItems (level + 1) (item :: rest) ++ newLine level =
      laidItems .overLines level (item :: rest) := by
  induction rest generalizing item with
  | nil =>
    rw [prettyItems, laidItems, laidFurther, first (level + 1)]
    simp
  | cons next later ih =>
    rw [List.forall_mem_cons] at each
    have following := ih each.1 each.2
    rw [laidItems] at following
    rw [prettyItems, laidItems, laidFurther, first (level + 1), List.append_assoc, List.cons_append,
      following]
    simp

theorem prettyMembers_eq {member : String × Json} {rest : List (String × Json)} (level : Nat)
    (first : ∀ level, prettyText level member.2 = laid .overLines level member.2)
    (each : ∀ member ∈ rest, ∀ level, prettyText level member.2 = laid .overLines level member.2) :
    prettyMembers (level + 1) (member :: rest) ++ newLine level =
      laidMembers .overLines level (member :: rest) := by
  induction rest generalizing member with
  | nil =>
    rw [prettyMembers, laidMembers, laidMore, first (level + 1)]
    simp
  | cons next later ih =>
    rw [List.forall_mem_cons] at each
    have following := ih each.1 each.2
    obtain ⟨name, value⟩ := member
    obtain ⟨nextName, nextValue⟩ := next
    rw [laidMembers] at following
    rw [prettyMembers, laidMembers, laidMore, first (level + 1), List.append_assoc, List.cons_append,
      following]
    simp

private theorem prettyText_eq (value : Json) (level : Nat) :
    prettyText level value = laid .overLines level value := by
  induction value using Json.induction generalizing level with
  | null => rfl
  | bool value => rfl
  | number value => rfl
  | string value => rfl
  | array items each =>
    cases items with
    | nil => rfl
    | cons item rest =>
      rw [List.forall_mem_cons] at each
      rw [prettyText, laid_array, ← prettyItems_eq level each.1 each.2]
      simp
  | object members each =>
    cases members with
    | nil => rfl
    | cons member rest =>
      rw [List.forall_mem_cons] at each
      rw [prettyText, laid_object, ← prettyMembers_eq level each.1 each.2]
      simp

/-! ## Reading -/

theorem endsNumber_cons (symbol : Symbol)
    (other : isDigit symbol = false ∧ symbol ≠ some '.' ∧ symbol ≠ some 'e' ∧ symbol ≠ some 'E')
    (rest : List Symbol) : EndsNumber (symbol :: rest) := by
  intro head same
  cases same
  exact other

theorem endsNumber_of_isSpace {symbol : Symbol} (blank : isSpace symbol = true) (rest : List Symbol) :
    EndsNumber (symbol :: rest) := by
  have other : symbol = some ' ' ∨ symbol = some '\n' ∨ symbol = some '\t' ∨ symbol = some '\r' := by
    simpa [isSpace, or_assoc] using blank
  apply endsNumber_cons symbol
  rcases other with rfl | rfl | rfl | rfl <;> decide

theorem endsNumber_append {blanks : List Char} (each : ∀ c ∈ blanks, isSpace (some c) = true)
    {text : List Symbol} (ends : EndsNumber text) : EndsNumber (blanks.map some ++ text) := by
  cases blanks with
  | nil => exact ends
  | cons c rest => exact endsNumber_of_isSpace (each c List.mem_cons_self) _

theorem laidFurther_cons (layout : Layout) (level : Nat) (item : Json) (rest : List Json) :
    laidFurther layout level (item :: rest) = ',' :: laidItems layout level (item :: rest) := by
  simp [laidFurther, laidItems]

theorem laidMore_cons (layout : Layout) (level : Nat) (member : String × Json)
    (rest : List (String × Json)) :
    laidMore layout level (member :: rest) = ',' :: laidMembers layout level (member :: rest) := by
  simp [laidMore, laidMembers]

/-- The text of a value is read as a term that means the value, whatever blanks are in front of it
and whatever follows it that does not go on with a number. -/
def Reads (layout : Layout) (value : Json) : Prop :=
  ∀ (level : Nat) (blanks : List Char) (rest : List Symbol) (budget limit : Nat),
    (∀ c ∈ blanks, isSpace (some c) = true) → EndsNumber rest →
    2 * (laid layout level value).length ≤ budget → value.depth ≤ limit →
    ∃ term, readTerm budget (blanks.map some ++ ((laid layout level value).map some ++ rest)) =
        some (term, rest) ∧ term.value? limit = some value

theorem readItems_item {layout : Layout} (level : Nat) {item : Json} (reads : Reads layout item)
    {following : List Symbol} (ends : EndsNumber following) {budget limit : Nat}
    (enough : 2 * (laid layout (level + 1) item).length ≤ budget) (within : item.depth ≤ limit) :
    ∃ term, term.value? limit = some item ∧
      (∀ after, skipSpace following = some ']' :: after →
        readItems (budget + 1) ((layout.line (level + 1)).map some ++
          ((laid layout (level + 1) item).map some ++ following)) = some ([term], after)) ∧
      ∀ rest, skipSpace following = some ',' :: rest →
        readItems (budget + 1) ((layout.line (level + 1)).map some ++
            ((laid layout (level + 1) item).map some ++ following)) =
          (readItems budget rest).map fun found => (term :: found.1, found.2) := by
  obtain ⟨term, read, means⟩ := reads (level + 1) (layout.line (level + 1)) following budget limit
    (layout.line_blank _) ends enough within
  refine ⟨term, means, ?_, ?_⟩
  · intro after closes
    rw [readItems, read]
    simp only [closes]
  · intro rest continues
    rw [readItems, read]
    simp only [continues]

theorem readItems_laid {layout : Layout} (level : Nat) {item : Json} {rest : List Json}
    (first : Reads layout item) (each : ∀ item ∈ rest, Reads layout item) (after : List Symbol)
    {budget limit : Nat} (enough : 2 * (laidItems layout level (item :: rest)).length < budget)
    (within : itemsDepth (item :: rest) ≤ limit) :
    ∃ terms, readItems budget ((laidItems layout level (item :: rest)).map some ++ some ']' :: after) =
        some (terms, after) ∧ Term.itemValues? limit terms = some (item :: rest) := by
  induction rest generalizing item budget with
  | nil =>
    obtain ⟨budget, rfl⟩ := Nat.exists_eq_add_one_of_ne_zero (by omega : budget ≠ 0)
    rw [laidItems, laidFurther] at enough ⊢
    simp only [List.length_append] at enough
    simp only [itemsDepth] at within
    obtain ⟨term, means, closing, _⟩ := readItems_item level first
      (endsNumber_append (layout.line_blank level) (endsNumber_cons (some ']') (by decide) after))
      (by omega : _ ≤ budget) (by omega : _ ≤ limit)
    refine ⟨[term], ?_, ?_⟩
    · simp only [List.map_append, List.append_assoc]
      exact closing after (skipSpace_append (layout.line_blank level) (by decide) after)
    · simp [Term.itemValues?, means]
  | cons next later ih =>
    obtain ⟨budget, rfl⟩ := Nat.exists_eq_add_one_of_ne_zero (by omega : budget ≠ 0)
    rw [List.forall_mem_cons] at each
    rw [laidItems_cons, laidFurther_cons] at enough ⊢
    simp only [List.length_append, List.length_cons] at enough
    rw [itemsDepth] at within
    obtain ⟨terms, readsLater, meansLater⟩ := ih each.1 each.2 (by omega : _ < budget) (by omega)
    obtain ⟨term, means, _, continuing⟩ := readItems_item level first
      (endsNumber_cons (some ',') (by decide)
        ((laidItems layout level (next :: later)).map some ++ some ']' :: after))
      (by omega : _ ≤ budget) (by omega : _ ≤ limit)
    refine ⟨term :: terms, ?_, ?_⟩
    · simp only [List.map_append, List.map_cons, List.append_assoc, List.cons_append]
      rw [continuing _ (skipSpace_cons (by decide) _), readsLater]
      rfl
    · rw [Term.itemValues?, means, meansLater]

private theorem readMembers_member {layout : Layout} (level : Nat) (name : String) {value : Json}
    (reads : Reads layout value) {following : List Symbol} (ends : EndsNumber following)
    {budget limit : Nat} (enough : 2 * (laid layout (level + 1) value).length ≤ budget)
    (within : value.depth ≤ limit) :
    ∃ pieces term, textOf? pieces = some name ∧ term.value? limit = some value ∧
      (∀ after, skipSpace following = some '\x7d' :: after →
        readMembers (budget + 1) ((layout.line (level + 1)).map some ++ ((quotedText name).map some ++
            some ':' :: (layout.gap.map some ++ ((laid layout (level + 1) value).map some ++
              following)))) =
          some ([(pieces, term)], after)) ∧
      ∀ rest, skipSpace following = some ',' :: rest →
        readMembers (budget + 1) ((layout.line (level + 1)).map some ++ ((quotedText name).map some ++
            some ':' :: (layout.gap.map some ++ ((laid layout (level + 1) value).map some ++
              following)))) =
          (readMembers budget rest).map fun found => ((pieces, term) :: found.1, found.2) := by
  obtain ⟨term, read, means⟩ := reads (level + 1) layout.gap following budget limit layout.gap_blank
    ends enough within
  obtain ⟨inner, pieces, quoted, readName, meansName⟩ := readPieces_quotedText name
    (some ':' :: (layout.gap.map some ++ ((laid layout (level + 1) value).map some ++ following)))
  have colon := skipSpace_cons (by decide : isSpace (some ':') = false)
  have opens := skipSpace_append (layout.line_blank (level + 1)) (by decide : isSpace (some '"') = false)
  refine ⟨pieces, term, meansName, means, ?_, ?_⟩
  · intro after closes
    rw [quoted, readMembers]
    simp only [opens, readName, colon, read, closes]
  · intro rest continues
    rw [quoted, readMembers]
    simp only [opens, readName, colon, read, continues]

theorem readMembers_laid {layout : Layout} (level : Nat) {member : String × Json}
    {rest : List (String × Json)} (first : Reads layout member.2)
    (each : ∀ member ∈ rest, Reads layout member.2) (after : List Symbol) {budget limit : Nat}
    (enough : 2 * (laidMembers layout level (member :: rest)).length < budget)
    (within : membersDepth (member :: rest) ≤ limit) :
    ∃ terms, readMembers budget
          ((laidMembers layout level (member :: rest)).map some ++ some '\x7d' :: after) =
        some (terms, after) ∧ Term.memberValues? limit terms = some (member :: rest) := by
  induction rest generalizing member budget with
  | nil =>
    obtain ⟨budget, rfl⟩ := Nat.exists_eq_add_one_of_ne_zero (by omega : budget ≠ 0)
    obtain ⟨name, value⟩ := member
    dsimp only at first
    rw [laidMembers, laidMore] at enough ⊢
    simp only [List.length_append, List.length_cons] at enough
    simp only [membersDepth] at within
    obtain ⟨pieces, term, meansName, means, closing, _⟩ := readMembers_member level name first
      (endsNumber_append (layout.line_blank level) (endsNumber_cons (some '\x7d') (by decide) after))
      (by omega : _ ≤ budget) (by omega : _ ≤ limit)
    refine ⟨[(pieces, term)], ?_, ?_⟩
    · simp only [List.map_append, List.map_cons, List.append_assoc, List.cons_append]
      exact closing after (skipSpace_append (layout.line_blank level) (by decide) after)
    · simp [Term.memberValues?, meansName, means]
  | cons next later ih =>
    obtain ⟨budget, rfl⟩ := Nat.exists_eq_add_one_of_ne_zero (by omega : budget ≠ 0)
    rw [List.forall_mem_cons] at each
    obtain ⟨name, value⟩ := member
    dsimp only at first
    rw [laidMembers, laidMore_cons] at enough ⊢
    simp only [List.length_append, List.length_cons] at enough
    rw [membersDepth] at within
    obtain ⟨terms, readsLater, meansLater⟩ := ih each.1 each.2 (by omega : _ < budget) (by omega)
    obtain ⟨pieces, term, meansName, means, _, continuing⟩ := readMembers_member level name first
      (endsNumber_cons (some ',') (by decide)
        ((laidMembers layout level (next :: later)).map some ++ some '\x7d' :: after))
      (by omega : _ ≤ budget) (by omega : _ ≤ limit)
    refine ⟨(pieces, term) :: terms, ?_, ?_⟩
    · simp only [List.map_append, List.map_cons, List.append_assoc, List.cons_append]
      rw [continuing _ (skipSpace_cons (by decide) _), readsLater]
      rfl
    · rw [Term.memberValues?, meansName, means, meansLater]

theorem laid_head (layout : Layout) (level : Nat) {value : Json} (floatFree : FloatFree value) :
    ∃ c text, laid layout level value = c :: text ∧ isSpace (some c) = false ∧ c ≠ ']' := by
  cases floatFree with
  | null => exact ⟨'n', "ull".toList, rfl, by decide, by decide⟩
  | bool value =>
    cases value with
    | true => exact ⟨'t', "rue".toList, rfl, by decide, by decide⟩
    | false => exact ⟨'f', "alse".toList, rfl, by decide, by decide⟩
  | integer value =>
    by_cases nonneg : 0 ≤ value
    · obtain ⟨c, text, digits, digit⟩ := toDigits_eq_cons value.toNat
      rw [laid_number, numberText_nonneg nonneg]
      exact ⟨c, text, digits, isSpace_of_isDigit digit, ne_of_isDigit digit (by decide)⟩
    · rw [laid_number, numberText_negative nonneg]
      exact ⟨'-', _, rfl, by decide, by decide⟩
  | string value => exact ⟨'"', _, rfl, by decide, by decide⟩
  | array each => exact ⟨'[', _, rfl, by decide, by decide⟩
  | object each => exact ⟨'\x7b', _, rfl, by decide, by decide⟩

theorem reads_integer (layout : Layout) {value : Int} (above : JsonNumber.least ≤ value)
    (below : value ≤ JsonNumber.greatest) : Reads layout (.number (.integer value)) := by
  intro level blanks rest budget limit blank ends enough _
  rw [laid_number] at enough ⊢
  by_cases nonneg : 0 ≤ value
  · rw [numberText_nonneg nonneg] at enough ⊢
    have nonempty := @Nat.length_toDigits_pos 10 value.toNat
    obtain ⟨budget, rfl⟩ := Nat.exists_eq_add_one_of_ne_zero (by omega : budget ≠ 0)
    refine ⟨_, readTerm_digits blank _ ends budget, ?_⟩
    have whole : (numberOf (Nat.toDigits 10 value.toNat) : Int) = value := by
      rw [numberOf_toDigits]
      omega
    simp [Term.value?, NumberTerm.value?, whole, below]
  · rw [numberText_negative nonneg] at enough ⊢
    rw [List.length_cons] at enough
    obtain ⟨budget, rfl⟩ := Nat.exists_eq_add_one_of_ne_zero (by omega : budget ≠ 0)
    have reads := readNumber_digits true (isDigit_toDigits (-value).toNat)
      (isWhole_toDigits (-value).toNat) ends
    refine ⟨.number ⟨true, Nat.toDigits 10 (-value).toNat, [], none⟩, ?_, ?_⟩
    · rw [List.map_cons, List.cons_append, readTerm, skipSpace_append blank (by decide)]
      simp only [reads, Option.map_some]
    · have whole : (numberOf (Nat.toDigits 10 (-value).toNat) : Int) = -value := by
        rw [numberOf_toDigits]
        omega
      have bounded : -value ≤ JsonNumber.greatest := by
        unfold JsonNumber.least at above
        unfold JsonNumber.greatest
        omega
      have negative : value < 0 := by omega
      simp [Term.value?, NumberTerm.value?, whole, bounded, negative, above]

theorem reads_string (layout : Layout) (text : String) : Reads layout (.string text) := by
  intro level blanks rest budget limit blank _ enough _
  rw [laid_string] at enough ⊢
  have nonempty : 0 < (quotedText text).length := by simp [quotedText]
  obtain ⟨budget, rfl⟩ := Nat.exists_eq_add_one_of_ne_zero (by omega : budget ≠ 0)
  obtain ⟨inner, pieces, quoted, reads, means⟩ := readPieces_quotedText text rest
  refine ⟨.string pieces, ?_, ?_⟩
  · rw [quoted, readTerm, skipSpace_append blank (by decide)]
    simp only [reads, Option.map_some]
  · rw [Term.value?, means, Option.map_some]

theorem reads_array {layout : Layout} {items : List Json} (floatFree : ∀ item ∈ items, FloatFree item)
    (each : ∀ item ∈ items, Reads layout item) : Reads layout (.array items) := by
  intro level blanks rest budget limit blank _ enough within
  rw [laid_array, List.cons_append, List.length_cons, List.length_append, List.length_singleton] at enough
  rw [depth] at within
  obtain ⟨budget, rfl⟩ := Nat.exists_eq_add_one_of_ne_zero (by omega : budget ≠ 0)
  obtain ⟨limit, rfl⟩ := Nat.exists_eq_add_one_of_ne_zero (by omega : limit ≠ 0)
  have opens := skipSpace_append blank (by decide : isSpace (some '[') = false)
  rw [laid_array, List.cons_append, List.map_cons, List.cons_append, readTerm, opens]
  cases items with
  | nil =>
    refine ⟨.array [], ?_, ?_⟩
    · simp [laidItems, skipSpace, isSpace]
    · simp [Term.value?, Term.itemValues?]
  | cons item later =>
    rw [List.forall_mem_cons] at floatFree each
    obtain ⟨terms, reads, means⟩ := readItems_laid level each.1 each.2 rest
      (by omega : _ < budget) (by omega : _ ≤ limit)
    obtain ⟨c, text, first, visible, other⟩ := laid_head layout (level + 1) floatFree.1
    have starts : skipSpace ((laidItems layout level (item :: later)).map some ++ some ']' :: rest) =
        some c :: (text.map some ++ ((laidFurther layout level later).map some ++ some ']' :: rest)) := by
      rw [laidItems_cons, first]
      simp only [List.map_append, List.map_cons, List.append_assoc, List.cons_append]
      exact skipSpace_append (layout.line_blank _) visible _
    refine ⟨.array terms, ?_, ?_⟩
    · simp only [List.map_append, List.map_cons, List.map_nil, List.append_assoc, List.cons_append,
        List.nil_append, starts]
      split
      · next same =>
        cases same
        exact absurd rfl other
      · rw [reads]
        rfl
    · simp [Term.value?, means]

theorem reads_object {layout : Layout} {members : List (String × Json)}
    (distinct : (members.map Prod.fst).Nodup) (each : ∀ member ∈ members, Reads layout member.2) :
    Reads layout (.object members) := by
  intro level blanks rest budget limit blank _ enough within
  rw [laid_object, List.cons_append, List.length_cons, List.length_append, List.length_singleton] at enough
  rw [depth] at within
  obtain ⟨budget, rfl⟩ := Nat.exists_eq_add_one_of_ne_zero (by omega : budget ≠ 0)
  obtain ⟨limit, rfl⟩ := Nat.exists_eq_add_one_of_ne_zero (by omega : limit ≠ 0)
  have opens := skipSpace_append blank (by decide : isSpace (some '\x7b') = false)
  rw [laid_object, List.cons_append, List.map_cons, List.cons_append, readTerm, opens]
  cases members with
  | nil =>
    refine ⟨.object [], ?_, ?_⟩
    · simp [laidMembers, skipSpace, isSpace]
    · simp [Term.value?, Term.memberValues?, Ordered.ofList]
  | cons member later =>
    rw [List.forall_mem_cons] at each
    obtain ⟨terms, reads, means⟩ := readMembers_laid level each.1 each.2 rest
      (by omega : _ < budget) (by omega : _ ≤ limit)
    have starts : ∃ text,
        skipSpace ((laidMembers layout level (member :: later)).map some ++ some '\x7d' :: rest) =
          some '"' :: text := by
      obtain ⟨name, value⟩ := member
      simp only [laidMembers, quotedText, List.map_append, List.map_cons, List.append_assoc,
        List.cons_append]
      exact ⟨_, skipSpace_append (layout.line_blank _) (by decide) _⟩
    obtain ⟨text, starts⟩ := starts
    refine ⟨.object terms, ?_, ?_⟩
    · simp only [List.map_append, List.map_cons, List.map_nil, List.append_assoc, List.cons_append,
        List.nil_append, starts, reads]
      rfl
    · simp [Term.value?, means, Ordered.ofList_of_nodup distinct]

private theorem reads_of_floatFree (layout : Layout) {value : Json} (wellFormed : WellFormed value)
    (floatFree : FloatFree value) : Reads layout value := by
  induction wellFormed with
  | null =>
    intro level blanks rest budget limit blank _ enough _
    have nonempty : 0 < (laid layout level .null).length := by simp [laid]
    obtain ⟨budget, rfl⟩ := Nat.exists_eq_add_one_of_ne_zero (by omega : budget ≠ 0)
    refine ⟨.null, ?_, rfl⟩
    have opens := skipSpace_append blank (by decide : isSpace (some 'n') = false)
    simp [laid, readTerm, opens, afterWord?]
  | bool value =>
    intro level blanks rest budget limit blank _ enough _
    have nonempty : 0 < (laid layout level (.bool value)).length := by
      cases value <;> simp [laid, boolText]
    obtain ⟨budget, rfl⟩ := Nat.exists_eq_add_one_of_ne_zero (by omega : budget ≠ 0)
    refine ⟨.bool value, ?_, rfl⟩
    cases value with
    | true =>
      have opens := skipSpace_append blank (by decide : isSpace (some 't') = false)
      simp [laid, boolText, readTerm, opens, afterWord?]
    | false =>
      have opens := skipSpace_append blank (by decide : isSpace (some 'f') = false)
      simp [laid, boolText, readTerm, opens, afterWord?]
  | integer above below => exact reads_integer layout above below
  | float value => cases floatFree
  | string text => exact reads_string layout text
  | array _ ih =>
    cases floatFree with
    | array each => exact reads_array each fun item member => ih item member (each item member)
  | object distinct _ ih =>
    cases floatFree with
    | object each => exact reads_object distinct fun item member => ih item member (each item member)

theorem read?_laid (layout : Layout) {value : Json} (wellFormed : WellFormed value)
    (floatFree : FloatFree value) (within : value.depth ≤ depthLimit) {blanks : List Char}
    (blank : ∀ c ∈ blanks, isSpace (some c) = true) :
    read? (String.ofList (laid layout 0 value ++ blanks)) = some value := by
  have nothing : EndsNumber [] := by
    intro symbol member
    cases member
  have ends : EndsNumber (blanks.map some) := by
    have all := endsNumber_append blank nothing
    rwa [List.append_nil] at all
  have skipped : skipSpace (blanks.map some) = [] := by
    have dropped := @List.dropWhile_append_of_pos _ isSpace _ [] (List.forall_mem_map.2 blank)
    rwa [List.append_nil] at dropped
  obtain ⟨term, reads, means⟩ := reads_of_floatFree layout wellFormed floatFree 0 [] (blanks.map some)
    (2 * ((laid layout 0 value ++ blanks).map some).length + 2) depthLimit (by simp) ends
    (by simp; omega) within
  rw [List.map_nil, List.nil_append, ← List.map_append] at reads
  rw [read?, Term.ofText?, Term.ofSymbols?, Text.symbols, String.toList_ofList, reads]
  simp [skipped, means]

theorem read?_compact {value : Json} (wellFormed : WellFormed value) (floatFree : FloatFree value)
    (within : value.depth ≤ depthLimit) : read? value.compact = some value := by
  have reads := read?_laid .inLine wellFormed floatFree within (by simp : ∀ c ∈ [], _)
  rwa [List.append_nil, ← compactText_eq] at reads

theorem read?_pretty {value : Json} (wellFormed : WellFormed value) (floatFree : FloatFree value)
    (within : value.depth ≤ depthLimit) :
    read? value.pretty = some value ∧ read? (value.pretty ++ "\n") = some value := by
  constructor
  · have reads := read?_laid .overLines wellFormed floatFree within (by simp : ∀ c ∈ [], _)
    rwa [List.append_nil, ← prettyText_eq] at reads
  · have ended : ∀ c ∈ ['\n'], isSpace (some c) = true := List.forall_mem_singleton.2 rfl
    have reads := read?_laid .overLines wellFormed floatFree within ended
    rw [← prettyText_eq, String.ofList_append] at reads
    exact reads

end Json

end GraphqlStore
