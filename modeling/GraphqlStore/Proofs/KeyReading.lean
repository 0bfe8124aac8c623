import GraphqlStore.Proofs.CacheKeys
import GraphqlStore.Proofs.JsonReading
import GraphqlStore.Proofs.ReadFields

/-!
Cache keys are read in one way only. A key is put together from parts without
their lengths, and the strings in it may hold every character that separates
parts elsewhere. Still each part can be read off the front of a text: words
end where a character follows that is none of theirs, strings where an
unescaped quotation mark stands, lists and objects at their own brackets. So
different fields have different keys, as long as no floats are passed.
-/

set_option autoImplicit false

namespace GraphqlStore

namespace KeyText

/-! ## Reading parts off the front of a text -/

/-- A text that does not go on with such characters. -/
def Breaks (part : Char → Bool) (text : List Char) : Prop := ∀ c ∈ text.head?, part c = false

theorem breaks_nil {part : Char → Bool} : Breaks part [] := by
  intro c absent
  cases absent

theorem breaks_cons {part : Char → Bool} {c : Char} {text : List Char} (other : part c = false) :
    Breaks part (c :: text) := by
  rintro _ ⟨⟩
  exact other

private theorem word_unique {part : Char → Bool} {word other rest left : List Char}
    (each : ∀ c ∈ word, part c = true) (eachOther : ∀ c ∈ other, part c = true)
    (breaks : Breaks part rest) (breaksLeft : Breaks part left) (same : word ++ rest = other ++ left) :
    word = other ∧ rest = left := by
  have front {text after : List Char} (all : ∀ c ∈ text, part c = true) (ends : Breaks part after) :
      (text ++ after).takeWhile part = text := by
    rw [List.takeWhile_append_of_pos all]
    cases after with
    | nil => simp
    | cons c after => simp [ends c rfl]
  have words : word = other := by rw [← front each breaks, same, front eachOther breaksLeft]
  subst words
  exact ⟨rfl, List.append_cancel_left same⟩

def closings : List Char := [')', ']', '\x7d']

/-- A text that goes on with what can follow a value: a comma or a closing bracket. -/
def Stops (text : List Char) : Prop := ∃ c rest, text = c :: rest ∧ c ∈ ',' :: closings

/-- What is written can be read off the front of a text, among others that are written alike. -/
def ReadsOff {α : Type} (written : α → List Char) (among : α → Prop) (entry : α) : Prop :=
  ∀ other, among other → ∀ rest left, Stops rest → Stops left →
    written entry ++ rest = written other ++ left → entry = other ∧ rest = left

/-- Entries with a comma and a blank between them. -/
def joined (texts : List (List Char)) : List Char := [',', ' '].intercalate texts

/-- What follows the first of some entries up to and after the closing bracket. -/
def further (close : Char) (texts : List (List Char)) (rest : List Char) : List Char :=
  if texts = [] then close :: rest else ',' :: ' ' :: (joined texts ++ close :: rest)

theorem joined_cons (close : Char) (text : List Char) (texts : List (List Char)) (rest : List Char) :
    joined (text :: texts) ++ close :: rest = text ++ further close texts rest := by
  cases texts with
  | nil => simp [joined, further]
  | cons next texts => simp [joined, further, List.intercalate_cons_cons]

theorem stops_further {close : Char} (closes : close ∈ closings) (texts : List (List Char))
    (rest : List Char) : Stops (further close texts rest) := by
  unfold further
  split
  · exact ⟨close, rest, rfl, List.mem_cons_of_mem _ closes⟩
  · exact ⟨',', _, rfl, List.mem_cons_self⟩

private theorem joined_of_further {close : Char} (closes : close ∈ closings)
    {texts others : List (List Char)}
    {rest left : List Char} (same : further close texts rest = further close others left) :
    joined texts ++ close :: rest = joined others ++ close :: left := by
  have comma : close ≠ ',' := by
    rintro rfl
    exact absurd closes (by decide)
  unfold further at same
  split at same
  case isTrue none =>
    split at same
    case isTrue noneOther => rw [none, noneOther, same]
    case isFalse => exact absurd (List.cons.inj same).1 comma
  case isFalse =>
    split at same
    case isTrue => exact absurd (List.cons.inj same).1.symm comma
    case isFalse => exact (List.cons.inj (List.cons.inj same).2).2

/-- Entries between brackets are told apart if each can be read off and none starts with the
closing one. -/
theorem joined_unique {α : Type} {written : α → List Char} {among : α → Prop} {close : Char}
    (closes : close ∈ closings)
    (starts : ∀ entry, among entry → ∃ c text, written entry = c :: text ∧ c ≠ close)
    {entries others : List α} (reads : ∀ entry ∈ entries, ReadsOff written among entry)
    (all : ∀ entry ∈ entries, among entry) (allOthers : ∀ entry ∈ others, among entry)
    {rest left : List Char}
    (same : joined (entries.map written) ++ close :: rest = joined (others.map written) ++ close :: left) :
    entries = others ∧ rest = left := by
  induction entries generalizing others with
  | nil =>
      cases others with
      | nil => exact ⟨rfl, (List.cons.inj same).2⟩
      | cons other others =>
          obtain ⟨c, text, begins, different⟩ := starts other (List.forall_mem_cons.1 allOthers).1
          rw [List.map_cons, joined_cons, begins] at same
          exact absurd (List.cons.inj same).1.symm different
  | cons entry entries ih =>
      rw [List.forall_mem_cons] at reads all
      cases others with
      | nil =>
          obtain ⟨c, text, begins, different⟩ := starts entry all.1
          rw [List.map_cons, joined_cons, begins] at same
          exact absurd (List.cons.inj same).1 different
      | cons other others =>
          rw [List.forall_mem_cons] at allOthers
          rw [List.map_cons, List.map_cons, joined_cons, joined_cons] at same
          obtain ⟨rfl, after⟩ := reads.1 other allOthers.1 _ _ (stops_further closes _ _)
            (stops_further closes _ _) same
          obtain ⟨sameEntries, sameRest⟩ := ih reads.2 all.2 allOthers.2 (joined_of_further closes after)
          exact ⟨congrArg (entry :: ·) sameEntries, sameRest⟩

/-! ## Words and strings -/

/-- Characters of names, numbers and variables. -/
def isWordChar (c : Char) : Bool := Lexer.isNameChar c || c == '$' || c == '-'

private theorem isWordChar_of_isNameChar {c : Char} (name : Lexer.isNameChar c = true) :
    isWordChar c = true := by
  simp [isWordChar, name]

theorem isNameChar_of_isDigit {c : Char} (digit : c.isDigit = true) : Lexer.isNameChar c = true := by
  simp [Lexer.isNameChar, Char.isAlphanum, digit]

theorem isDigit_of_isNameStart {c : Char} (start : Lexer.isNameStart c = true) : c.isDigit = false := by
  by_contra digit
  rw [Bool.not_eq_false] at digit
  delta Lexer.isNameStart Char.isAlpha Char.isUpper Char.isLower at start
  delta Char.isDigit at digit
  simp only [Bool.or_eq_true, Bool.and_eq_true, decide_eq_true_eq, ge_iff_le,
    UInt32.le_iff_toNat_le] at start digit
  have zero : '0'.val.toNat = 48 := rfl
  have nine : '9'.val.toNat = 57 := rfl
  have upperFirst : 'A'.val.toNat = 65 := rfl
  have lowerFirst : 'a'.val.toNat = 97 := rfl
  rcases start with rfl | upper | lower
  · exact absurd digit (by decide)
  · omega
  · omega

end KeyText

theorem IsProperName.nonempty {name : String} (proper : IsProperName name) : name.toList ≠ [] := by
  obtain ⟨first, rest, text, -⟩ := proper
  simp [text]

theorem IsProperName.each {name : String} (proper : IsProperName name) :
    ∀ c ∈ name.toList, Lexer.isNameChar c = true := by
  obtain ⟨first, rest, text, start, names⟩ := proper
  rw [text, List.forall_mem_cons]
  exact ⟨Lexer.isNameChar_of_isNameStart start, names⟩

namespace KeyText

private theorem isWordChar_of_stop {c : Char} (stop : c ∈ ',' :: closings) :
    isWordChar c = false := by
  simp only [closings, List.mem_cons, List.not_mem_nil, or_false] at stop
  rcases stop with rfl | rfl | rfl | rfl <;> rfl

theorem Stops.breaks {text : List Char} (stops : Stops text) : Breaks isWordChar text := by
  obtain ⟨c, rest, rfl, stop⟩ := stops
  exact breaks_cons (isWordChar_of_stop stop)

private theorem isWordChar_of_closing {c : Char} (closes : c ∈ closings) : isWordChar c = false :=
  isWordChar_of_stop (List.mem_cons_of_mem _ closes)

private theorem quotedText_unique {text other : String} {rest left : List Char}
    (same : Json.quotedText text ++ rest = Json.quotedText other ++ left) : text = other ∧ rest = left := by
  have marked : (Json.quotedText text).map some ++ rest.map some =
      (Json.quotedText other).map some ++ left.map some := by
    simpa using congrArg (List.map some) same
  obtain ⟨inner, pieces, begins, reads, means⟩ := Json.readPieces_quotedText text (rest.map some)
  obtain ⟨_, others, beginsOther, readsOther, meansOther⟩ :=
    Json.readPieces_quotedText other (left.map some)
  rw [begins, beginsOther] at marked
  cases marked
  obtain ⟨rfl, sameRest⟩ := Prod.mk.inj (Option.some.inj (reads.symm.trans readsOther))
  cases means.symm.trans meansOther
  exact ⟨rfl, List.map_injective_iff.2 (fun _ _ same => Option.some.inj same) sameRest⟩

end KeyText

namespace Value

/-- No float stands in the value, at any depth. -/
inductive FloatFree : Value → Prop where
  | variable {name : String} : FloatFree (.variable name)
  | int {value : Int} : FloatFree (.int value)
  | string {value : String} : FloatFree (.string value)
  | boolean {value : Bool} : FloatFree (.boolean value)
  | null : FloatFree .null
  | enum {name : String} : FloatFree (.enum name)
  | list {items : List Value} : (∀ item ∈ items, FloatFree item) → FloatFree (.list items)
  | object {fields : List (String × Value)} : (∀ field ∈ fields, FloatFree field.2) →
      FloatFree (.object fields)

/-- What keys can hold so that they are read in one way only. -/
structure Readable (value : Value) : Prop where
  wellNamed : value.WellNamed
  floatFree : value.FloatFree

theorem Readable.items {items : List Value} (readable : (Value.list items).Readable) :
    ∀ item ∈ items, item.Readable := by
  obtain ⟨wellNamed, floatFree⟩ := readable
  cases wellNamed with
  | list wellNamed =>
  cases floatFree with
  | list floatFree =>
  exact fun item member => ⟨wellNamed item member, floatFree item member⟩

theorem Readable.entries {fields : List (String × Value)} (readable : (Value.object fields).Readable) :
    ∀ field ∈ fields, IsProperName field.1 ∧ field.2.Readable := by
  obtain ⟨wellNamed, floatFree⟩ := readable
  cases wellNamed with
  | object proper wellNamed =>
  cases floatFree with
  | object floatFree =>
  exact fun field member => ⟨proper field member, wellNamed field member, floatFree field member⟩

/-- The character that opens a value that is more than a word. -/
def opening? : Value → Option Char
  | .string _ => some '"'
  | .list _ => some '['
  | .object _ => some '\x7b'
  | _ => none

/-- An entry of an object, or an argument, as it stands in a key. -/
def entryText (entry : String × Value) : List Char :=
  entry.1.toList ++ ':' :: ' ' :: entry.2.keyText.toList

theorem itemKeyTexts_eq (items : List Value) : itemKeyTexts items = items.map keyText := by
  induction items with
  | nil => rfl
  | cons item rest ih => rw [itemKeyTexts, ih, List.map_cons]

theorem fieldKeyTexts_eq (fields : List (String × Value)) :
    fieldKeyTexts fields = fields.map Field.argumentKey := by
  induction fields with
  | nil => rfl
  | cons field rest ih =>
      obtain ⟨name, value⟩ := field
      rw [fieldKeyTexts, ih, List.map_cons]
      rfl

theorem toList_argumentKey (entry : String × Value) :
    (Field.argumentKey entry).toList = entryText entry := by
  simp [Field.argumentKey, entryText, String.toList_append]

private theorem toList_keyText_list (items : List Value) :
    (Value.list items).keyText.toList =
      '[' :: (KeyText.joined (items.map fun item => item.keyText.toList) ++ [']']) := by
  rw [keyText, itemKeyTexts_eq, String.toList_append, String.toList_append, String.toList_intercalate,
    List.map_map]
  rfl

private theorem toList_keyText_object (fields : List (String × Value)) :
    (Value.object fields).keyText.toList =
      '\x7b' :: (KeyText.joined (fields.map entryText) ++ ['\x7d']) := by
  have texts : fields.map (String.toList ∘ Field.argumentKey) = fields.map entryText :=
    List.map_congr_left fun entry _ => toList_argumentKey entry
  rw [keyText, fieldKeyTexts_eq, String.toList_append, String.toList_append, String.toList_intercalate,
    List.map_map, texts]
  rfl

def ofWord (word : List Char) : Value :=
  match word with
  | [] => .null
  | c :: rest =>
      if c = '$' then .variable (String.ofList rest)
      else if c = '-' then .int (-(Json.numberOf rest))
      else if c.isDigit then .int (Json.numberOf (c :: rest))
      else Parse.wordValue (String.ofList (c :: rest))

/-- The value is written as a word, and read back from it. -/
structure IsWord (value : Value) : Prop where
  nonempty : value.keyText.toList ≠ []
  each : ∀ c ∈ value.keyText.toList, KeyText.isWordChar c = true
  read : ofWord value.keyText.toList = value

theorem isWord_variable {name : String} (proper : IsProperName name) : (Value.variable name).IsWord := by
  have text : (Value.variable name).keyText.toList = '$' :: name.toList := by
    rw [keyText, String.toList_append]
    rfl
  refine ⟨by simp [text], ?_, by simp [text, ofWord]⟩
  rw [text, List.forall_mem_cons]
  exact ⟨rfl, fun c member => KeyText.isWordChar_of_isNameChar (proper.each c member)⟩

theorem isWord_int (number : Int) : (Value.int number).IsWord := by
  have written : (Value.int number).keyText.toList = Json.numberText (.integer number) := rfl
  have digits (value : Nat) : ∀ c ∈ Nat.toDigits 10 value, KeyText.isWordChar c = true :=
    fun c member => KeyText.isWordChar_of_isNameChar
      (KeyText.isNameChar_of_isDigit (Json.isDigit_toDigits value c member))
  by_cases nonneg : 0 ≤ number
  · have text := written.trans (Json.numberText_nonneg nonneg)
    refine ⟨by simp [text], text ▸ digits _, ?_⟩
    obtain ⟨c, rest, shape, digit⟩ := Json.toDigits_eq_cons number.toNat
    have unlike : c ≠ '$' ∧ c ≠ '-' := by
      constructor
      · rintro rfl
        cases digit
      · rintro rfl
        cases digit
    rw [text, shape, ofWord, if_neg unlike.1, if_neg unlike.2, if_pos digit, ← shape,
      Json.numberOf_toDigits, Int.toNat_of_nonneg nonneg]
  · have text := written.trans (Json.numberText_negative nonneg)
    refine ⟨by simp [text], ?_, ?_⟩
    · rw [text, List.forall_mem_cons]
      exact ⟨rfl, digits _⟩
    · rw [text, ofWord, if_neg (by decide), if_pos rfl, Json.numberOf_toDigits,
        Int.toNat_of_nonneg (by omega), Int.neg_neg]

theorem ofWord_name {name : String} (proper : IsProperName name) :
    ofWord name.toList = Parse.wordValue name := by
  obtain ⟨first, rest, text, start, -⟩ := proper
  have unlike : first ≠ '$' ∧ first ≠ '-' := by
    constructor
    · rintro rfl
      cases start
    · rintro rfl
      cases start
  have digit : ¬ first.isDigit = true := by
    rw [KeyText.isDigit_of_isNameStart start]
    exact Bool.false_ne_true
  rw [text, ofWord, if_neg unlike.1, if_neg unlike.2, if_neg digit, ← text, String.ofList_toList]

theorem isWord_of_name {value : Value} {name : String} (proper : IsProperName name)
    (written : value.keyText = name) (read : Parse.wordValue name = value) : value.IsWord := by
  subst written
  exact ⟨proper.nonempty, fun c member => KeyText.isWordChar_of_isNameChar (proper.each c member),
    (ofWord_name proper).trans read⟩

theorem wordValue_eq_enum {name : String} (unlike : name ∉ ["true", "false", "null"]) :
    Parse.wordValue name = .enum name := by
  simp only [List.mem_cons, List.not_mem_nil, or_false, not_or] at unlike
  rw [Parse.wordValue, if_neg unlike.1, if_neg unlike.2.1, if_neg unlike.2.2]

private theorem Readable.isWord {value : Value} (readable : value.Readable)
    (plain : value.opening? = none) :
    value.IsWord := by
  obtain ⟨wellNamed, floatFree⟩ := readable
  cases wellNamed with
  | «variable» proper => exact isWord_variable proper
  | int => exact isWord_int _
  | float => cases floatFree
  | string => cases plain
  | @boolean truth =>
      cases truth with
      | true => exact isWord_of_name (show IsProperName "true" by decide) rfl rfl
      | false => exact isWord_of_name (show IsProperName "false" by decide) rfl rfl
  | null => exact isWord_of_name (show IsProperName "null" by decide) rfl rfl
  | enum proper unlike => exact isWord_of_name proper rfl (wordValue_eq_enum unlike)
  | list => cases plain
  | object => cases plain

theorem Readable.first {value : Value} (readable : value.Readable) :
    ∃ c text, value.keyText.toList = c :: text ∧
      value.opening? = if KeyText.isWordChar c then none else some c := by
  cases opens : value.opening? with
  | none =>
      have word := readable.isWord opens
      obtain ⟨c, text, shape⟩ := List.exists_cons_of_ne_nil word.nonempty
      have first : KeyText.isWordChar c = true := word.each c (shape ▸ List.mem_cons_self)
      exact ⟨c, text, shape, by rw [if_pos first]⟩
  | some c =>
      cases value with
      | string text =>
          cases opens
          exact ⟨'"', _, by rw [keyText, String.toList_ofList, Json.quotedText]; rfl, by decide⟩
      | list items =>
          cases opens
          exact ⟨'[', _, toList_keyText_list items, by decide⟩
      | object fields =>
          cases opens
          exact ⟨'\x7b', _, toList_keyText_object fields, by decide⟩
      | _ => cases opens

theorem Readable.opening_eq {value other : Value} (readable : value.Readable)
    (readableOther : other.Readable) {rest left : List Char}
    (same : value.keyText.toList ++ rest = other.keyText.toList ++ left) :
    value.opening? = other.opening? := by
  obtain ⟨c, text, shape, opens⟩ := readable.first
  obtain ⟨d, textOther, shapeOther, opensOther⟩ := readableOther.first
  rw [shape, shapeOther] at same
  obtain ⟨rfl, -⟩ := List.cons.inj same
  rw [opens, opensOther]

theorem Readable.starts {value : Value} (readable : value.Readable) {close : Char}
    (closes : close ∈ KeyText.closings) : ∃ c text, value.keyText.toList = c :: text ∧ c ≠ close := by
  obtain ⟨c, text, shape, opens⟩ := readable.first
  refine ⟨c, text, shape, ?_⟩
  rintro rfl
  rw [KeyText.isWordChar_of_closing closes, if_neg Bool.false_ne_true] at opens
  cases value <;> cases opens <;> exact absurd closes (by decide)

/-! ## Reading values -/

/-- The value can be read off the front of every text it stands at. -/
def IsReadOff (value : Value) : Prop :=
  KeyText.ReadsOff (fun item : Value => item.keyText.toList) Readable value

theorem Readable.isReadOff_of_plain {value : Value} (readable : value.Readable)
    (plain : value.opening? = none) : value.IsReadOff := by
  intro other readableOther rest left stops stopsLeft same
  have word := readable.isWord plain
  have wordOther := readableOther.isWord (readable.opening_eq readableOther same ▸ plain)
  obtain ⟨texts, rests⟩ := KeyText.word_unique word.each wordOther.each stops.breaks stopsLeft.breaks same
  have values : value = other := by rw [← word.read, texts, wordOther.read]
  exact ⟨values, rests⟩

private theorem readsOff_entryText {entry : String × Value} (proper : IsProperName entry.1)
    (reads : entry.2.IsReadOff) :
    KeyText.ReadsOff entryText (fun other => IsProperName other.1 ∧ other.2.Readable) entry := by
  rintro other ⟨properOther, readableOther⟩ rest left stops stopsLeft same
  rw [entryText, entryText, List.append_assoc, List.append_assoc] at same
  obtain ⟨names, after⟩ := KeyText.word_unique proper.each properOther.each
    (KeyText.breaks_cons (by decide)) (KeyText.breaks_cons (by decide)) same
  obtain ⟨values, rests⟩ := reads other.2 readableOther rest left stops stopsLeft
    (List.cons.inj (List.cons.inj after).2).2
  exact ⟨Prod.ext (String.toList_injective names) values, rests⟩

private theorem starts_entryText {entry : String × Value} (proper : IsProperName entry.1)
    {close : Char}
    (closes : close ∈ KeyText.closings) : ∃ c text, entryText entry = c :: text ∧ c ≠ close := by
  obtain ⟨c, text, shape⟩ := List.exists_cons_of_ne_nil proper.nonempty
  refine ⟨c, text ++ ':' :: ' ' :: entry.2.keyText.toList, by rw [entryText, shape]; rfl, ?_⟩
  rintro rfl
  have first : Lexer.isNameChar c = true := proper.each c (shape ▸ List.mem_cons_self)
  cases (KeyText.isWordChar_of_closing closes).symm.trans (KeyText.isWordChar_of_isNameChar first)

private theorem entries_unique {close : Char} (closes : close ∈ KeyText.closings)
    {entries others : List (String × Value)}
    (reads : ∀ entry ∈ entries, entry.2.IsReadOff)
    (all : ∀ entry ∈ entries, IsProperName entry.1 ∧ entry.2.Readable)
    (allOthers : ∀ entry ∈ others, IsProperName entry.1 ∧ entry.2.Readable) {rest left : List Char}
    (same : KeyText.joined (entries.map entryText) ++ close :: rest =
      KeyText.joined (others.map entryText) ++ close :: left) : entries = others ∧ rest = left :=
  KeyText.joined_unique closes (fun _ among => starts_entryText among.1 closes)
    (fun entry member => readsOff_entryText (all entry member).1 (reads entry member)) all allOthers same

private theorem Readable.isReadOff {value : Value} (readable : value.Readable) :
    value.IsReadOff := by
  have wellNamed := readable.wellNamed
  induction wellNamed with
  | «variable» => exact readable.isReadOff_of_plain rfl
  | int => exact readable.isReadOff_of_plain rfl
  | float => cases readable.floatFree
  | string =>
      intro other readableOther rest left _ _ same
      have opens := readable.opening_eq readableOther same
      cases other with
      | string =>
          simp only [keyText, String.toList_ofList] at same
          obtain ⟨rfl, rests⟩ := KeyText.quotedText_unique same
          exact ⟨rfl, rests⟩
      | _ => cases opens
  | boolean => exact readable.isReadOff_of_plain rfl
  | null => exact readable.isReadOff_of_plain rfl
  | enum => exact readable.isReadOff_of_plain rfl
  | list _ ih =>
      intro other readableOther rest left _ _ same
      have opens := readable.opening_eq readableOther same
      cases other with
      | list =>
          simp only [toList_keyText_list, List.cons_append, List.append_assoc, List.nil_append,
            List.cons.injEq, true_and] at same
          have closes : ']' ∈ KeyText.closings := by decide
          obtain ⟨rfl, rests⟩ := KeyText.joined_unique closes (fun _ among => among.starts closes)
            (fun item member => ih item member (readable.items item member)) readable.items
            readableOther.items same
          exact ⟨rfl, rests⟩
      | _ => cases opens
  | object _ _ ih =>
      intro other readableOther rest left _ _ same
      have opens := readable.opening_eq readableOther same
      cases other with
      | object =>
          simp only [toList_keyText_object, List.cons_append, List.append_assoc, List.nil_append,
            List.cons.injEq, true_and] at same
          obtain ⟨rfl, rests⟩ := entries_unique (by decide)
            (fun field member => ih field member (readable.entries field member).2) readable.entries
            readableOther.entries same
          exact ⟨rfl, rests⟩
      | _ => cases opens

end Value

namespace Field

/-- Nothing keeps the key of the field from being read in one way only. -/
structure KeyReadable (field : Field) : Prop where
  wellNamed : field.WellNamed
  floatFree : ∀ argument ∈ field.arguments, argument.2.FloatFree

theorem KeyReadable.keyArguments {field : Field} (readable : field.KeyReadable) (paginated : Bool) :
    ∀ argument ∈ field.keyArguments paginated, IsProperName argument.1 ∧ argument.2.Readable := by
  intro argument member
  have passed := List.mem_of_mem_filter member
  exact ⟨readable.wellNamed.arguments argument passed, readable.wellNamed.values argument passed,
    readable.floatFree argument passed⟩

def keyEnd (paginated : Bool) : List Char := if paginated then paginatedSuffix.toList else []

private theorem toList_keyCall (field : Field) (paginated : Bool) :
    (field.keyCall paginated).toList =
      if field.keyArguments paginated = [] then keyEnd paginated
      else '(' :: (KeyText.joined ((field.keyArguments paginated).map Value.entryText) ++
        ')' :: keyEnd paginated) := by
  have texts (arguments : List Argument) :
      (", ".intercalate (arguments.map argumentKey)).toList =
        KeyText.joined (arguments.map Value.entryText) := by
    rw [String.toList_intercalate, List.map_map]
    exact congrArg KeyText.joined (List.map_congr_left fun entry _ => Value.toList_argumentKey entry)
  unfold keyCall keyEnd
  dsimp only
  generalize field.keyArguments paginated = arguments
  specialize texts arguments
  cases arguments with
  | nil => cases paginated <;> rfl
  | cons argument rest =>
      rw [if_neg (List.cons_ne_nil _ _), ← texts]
      generalize ", ".intercalate ((argument :: rest).map argumentKey) = text
      cases paginated <;> simp

theorem keyEnd_injective : Function.Injective keyEnd := by
  intro p q same
  cases p <;> cases q <;> first | rfl | cases same

theorem breaks_keyCall (field : Field) (paginated : Bool) :
    KeyText.Breaks Lexer.isNameChar (field.keyCall paginated).toList := by
  rw [toList_keyCall]
  split
  · cases paginated
    · exact KeyText.breaks_nil
    · exact KeyText.breaks_cons rfl
  · exact KeyText.breaks_cons rfl

theorem keyEnd_ne_call (paginated : Bool) (text : List Char) : keyEnd paginated ≠ '(' :: text := by
  cases paginated <;> simp [keyEnd, paginatedSuffix]

private theorem keyCall_unique {first second : Field} (readable : first.KeyReadable)
    (readableSecond : second.KeyReadable) {p q : Bool} (same : first.keyCall p = second.keyCall q) :
    p = q ∧ first.keyArguments p = second.keyArguments q := by
  have texts := congrArg String.toList same
  rw [toList_keyCall, toList_keyCall] at texts
  split at texts
  case isTrue none =>
    split at texts
    case isTrue noneSecond => exact ⟨keyEnd_injective texts, none.trans noneSecond.symm⟩
    case isFalse => exact absurd texts (keyEnd_ne_call p _)
  case isFalse =>
    split at texts
    case isTrue => exact absurd texts.symm (keyEnd_ne_call q _)
    case isFalse =>
      have arguments := readable.keyArguments p
      obtain ⟨passed, ends⟩ := Value.entries_unique (by decide)
        (fun argument member => (arguments argument member).2.isReadOff) arguments
        (readableSecond.keyArguments q) (List.cons.inj texts).2
      exact ⟨keyEnd_injective ends, passed⟩

theorem keyArguments_eq (field : Field) (paginated : Bool) :
    field.keyArguments paginated =
      if paginated then field.arguments.filter (·.1 ∉ Pagination.argumentNames) else field.arguments := by
  cases paginated <;> simp [keyArguments]

/-- Different fields have different keys. Two keys are the same only if both or none are
paginated, the names are the same, and so are the arguments apart from those that pick a page of a
paginated list. All that this asks of fields holds for the fields of every document that is read,
unless floats are passed. -/
theorem cacheKey_eq_iff :
    (∀ text definitions, ExecutableDocument.parse text = .ok definitions →
      ∀ definition ∈ definitions, ∀ item ∈ definition.selections.items, item.WellNamed) ∧
    ∀ first second : Field, first.KeyReadable → second.KeyReadable → ∀ p q,
      (first.cacheKey p = second.cacheKey q ↔ p = q ∧ first.name = second.name ∧
        if p then first.arguments.filter (·.1 ∉ Pagination.argumentNames) =
          second.arguments.filter (·.1 ∉ Pagination.argumentNames)
        else first.arguments = second.arguments) := by
  refine ⟨fun _ _ read => ExecutableDocument.wellNamed_of_parse read, ?_⟩
  intro first second readable readableSecond p q
  rw [cacheKey_eq, cacheKey_eq]
  constructor
  · intro same
    have texts := congrArg String.toList same
    rw [String.toList_append, String.toList_append] at texts
    obtain ⟨names, calls⟩ := KeyText.word_unique readable.wellNamed.name.each
      readableSecond.wellNamed.name.each (first.breaks_keyCall p) (second.breaks_keyCall q) texts
    obtain ⟨rfl, passed⟩ := keyCall_unique readable readableSecond (String.toList_injective calls)
    refine ⟨rfl, String.toList_injective names, ?_⟩
    rw [keyArguments_eq, keyArguments_eq] at passed
    cases p <;> exact passed
  · rintro ⟨rfl, names, passed⟩
    have arguments : first.keyArguments p = second.keyArguments p := by
      rw [keyArguments_eq, keyArguments_eq]
      cases p <;> exact passed
    rw [names, keyCall, keyCall, arguments]

def quotingSearch : Value :=
  .object [("text", .string "\"), after: $b)::paginated"), ("tags", .list [.enum "NEW", .int (-3), .null])]

/-- A field that searches a list of items, with arguments on both sides that pick a page. -/
def itemPage (before after : List Argument) : Field :=
  ⟨⟨1, 1⟩, none, "items", before ++ ("where", quotingSearch) :: after, [], ⟨1, 1⟩⟩

private theorem readable_quotingSearch : quotingSearch.Readable := by
  constructor
  · refine .object ?_ ?_ <;> simp only [List.forall_mem_cons, List.not_mem_nil, false_implies, implies_true]
    · exact ⟨by decide, by decide, trivial⟩
    · refine ⟨.string, .list ?_, trivial⟩
      simp only [List.forall_mem_cons, List.not_mem_nil, false_implies, implies_true]
      exact ⟨.enum (by decide) (by decide), .int, .null, trivial⟩
  · refine .object ?_
    simp only [List.forall_mem_cons, List.not_mem_nil, false_implies, implies_true]
    refine ⟨.string, .list ?_, trivial⟩
    simp only [List.forall_mem_cons, List.not_mem_nil, false_implies, implies_true]
    exact ⟨.enum, .int, .null, trivial⟩

theorem keyReadable_itemPage {before after : List Argument}
    (picks : ∀ argument ∈ before ++ after, IsProperName argument.1 ∧ argument.2.Readable) :
    (itemPage before after).KeyReadable := by
  have each : ∀ argument ∈ before ++ ("where", quotingSearch) :: after,
      IsProperName argument.1 ∧ argument.2.Readable := by
    intro argument member
    rcases List.mem_append.1 member with member | member
    · exact picks argument (List.mem_append_left _ member)
    · rcases List.mem_cons.1 member with rfl | member
      · exact ⟨by decide, readable_quotingSearch⟩
      · exact picks argument (List.mem_append_right _ member)
  have name : IsProperName "items" := by decide
  exact ⟨⟨name, fun argument member => (each argument member).1,
    fun argument member => (each argument member).2.wellNamed⟩,
    fun argument member => (each argument member).2.floatFree⟩

/-- Two pages share their key as long as the list is paginated, and only then. -/
theorem cacheKey_eq_iff_itemPage :
    ∃ first second : Field, first.KeyReadable ∧ second.KeyReadable ∧
      first.cacheKey true = second.cacheKey true ∧ first.cacheKey false ≠ second.cacheKey false := by
  have readable : (itemPage [("first", .int 5)] []).KeyReadable := by
    refine keyReadable_itemPage fun argument member => ?_
    cases List.mem_singleton.1 member
    exact ⟨by decide, .int, .int⟩
  have readableSecond : (itemPage [] [("after", .variable "b")]).KeyReadable := by
    refine keyReadable_itemPage fun argument member => ?_
    cases List.mem_singleton.1 member
    exact ⟨by decide, .variable (by decide), .variable⟩
  have unique := cacheKey_eq_iff.2 _ _ readable readableSecond
  refine ⟨_, _, readable, readableSecond, (unique true true).2 ⟨rfl, rfl, rfl⟩, ?_⟩
  intro same
  obtain ⟨-, -, arguments⟩ := (unique false false).1 same
  have names := congrArg (List.map Prod.fst) arguments
  exact absurd names (by decide)

end Field

end GraphqlStore
