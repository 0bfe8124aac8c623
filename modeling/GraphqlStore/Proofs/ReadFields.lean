import GraphqlStore.Proofs.ReadNames

/-!
The fields of a document that is read from a text are well named, at every
depth: they have names, and so have their arguments and what is passed to
them. No enum is spelled like a truth value or the null value.
-/

set_option autoImplicit false

namespace GraphqlStore

def IsProperName (text : String) : Prop :=
  ∃ first rest, text.toList = first :: rest ∧ Lexer.isNameStart first = true ∧
    ∀ c ∈ rest, Lexer.isNameChar c = true

theorem isProperName_iff {text : String} :
    IsProperName text ↔
      (text.toList.head?.any Lexer.isNameStart && text.toList.tail.all Lexer.isNameChar) := by
  unfold IsProperName
  cases text.toList with
  | nil => simp
  | cons first rest => simp [and_comm]

instance (text : String) : Decidable (IsProperName text) := decidable_of_iff _ isProperName_iff.symm

private theorem TokenStream.isProperName_of_mem {text : String} {token : Token}
    (member : token ∈ (ofText text).tokens) {label : String} (named : token.kind = .name label) :
    IsProperName label := by
  obtain ⟨first, rest, more, scanned⟩ := Lexer.scan_of_mem_tokensFrom member named
  obtain ⟨start, rfl⟩ := Lexer.scan_name scanned
  exact ⟨first, _, String.toList_ofList, start, fun c member => List.mem_takeWhile_imp member⟩

/-- The names in a value are proper, and no enum is spelled like another value. -/
inductive Value.WellNamed : Value → Prop where
  | variable {name : String} : IsProperName name → WellNamed (.variable name)
  | int {value : Int} : WellNamed (.int value)
  | float {value : Binary64} : WellNamed (.float value)
  | string {value : String} : WellNamed (.string value)
  | boolean {value : Bool} : WellNamed (.boolean value)
  | null : WellNamed .null
  | enum {name : String} : IsProperName name → name ∉ ["true", "false", "null"] →
      WellNamed (.enum name)
  | list {items : List Value} : (∀ item ∈ items, WellNamed item) → WellNamed (.list items)
  | object {fields : List (String × Value)} : (∀ field ∈ fields, IsProperName field.1) →
      (∀ field ∈ fields, WellNamed field.2) → WellNamed (.object fields)

/-- A field, its arguments and what is passed to them are well named. -/
structure Field.WellNamed (field : Field) : Prop where
  name : IsProperName field.name
  arguments : ∀ argument ∈ field.arguments, IsProperName argument.1
  values : ∀ argument ∈ field.arguments, argument.2.WellNamed

/-- All fields of a selection, at any depth, are well named. -/
inductive Selection.WellNamed : Selection → Prop where
  | field {head : Field} {items : List Selection} : head.WellNamed →
      (∀ item ∈ items, WellNamed item) → WellNamed (.field head items)
  | spread {head : Spread} : WellNamed (.spread head)
  | inline {head : InlineFragment} {items : List Selection} :
      (∀ item ∈ items, WellNamed item) → WellNamed (.inline head items)

namespace Parse

def NamesProper (tokens : List Token) : Prop := ∀ text, Named tokens text → IsProperName text

theorem NamesProper.mono {tokens others : List Token} (proper : NamesProper others)
    (included : tokens <:+ others) : NamesProper tokens :=
  fun text named => proper text (named.mono included)

theorem NamesProper.name {tokens : List Token} (proper : NamesProper tokens) {text : String}
    (read : ReadWithin name tokens text) : IsProperName text := proper text (named_of_readWithin read)

theorem NamesProper.within {α : Type} {holds : α → Prop} {tokens : List Token} {entry : α}
    (proper : NamesProper tokens)
    (within : Within (fun tokens entry => NamesProper tokens → holds entry) tokens entry) :
    holds entry := by
  obtain ⟨start, included, held⟩ := within
  exact held (proper.mono included)

/-! ## Values -/

private theorem wellNamed_wordValue {text : String} (proper : IsProperName text) :
    (wordValue text).WellNamed := by
  unfold wordValue
  split
  · exact .boolean
  · split
    · exact .boolean
    · split
      · exact .null
      · exact .enum proper (by simp [*])

private theorem wellNamedRules (constant : Bool) :
    ValueRules constant fun tokens value => NamesProper tokens → value.WellNamed where
  word _ _ read proper := wellNamed_wordValue (proper.name read)
  int _ _ _ := .int
  float _ _ _ := .float
  string _ _ _ := .string
  reference _ _ _ read proper := .variable (proper.name read)
  list _ _ within proper := .list fun item member => proper.within (within item member)
  object _ _ within proper :=
    .object (fun field member => proper.name (within field member).1)
      fun field member => proper.within (within field member).2

/-! ## Fields -/

private theorem wellNamed_argument {tokens : List Token} (proper : NamesProper tokens)
    {passed : Argument} (read : ReadWithin (argument false) tokens passed) :
    IsProperName passed.1 ∧ passed.2.WellNamed := by
  obtain ⟨start, included, rest, read⟩ := read
  obtain ⟨⟨key, afterName⟩, named, read⟩ := bind_eq_ok_iff.1 read
  obtain ⟨⟨_, afterColon⟩, marked, read⟩ := bind_eq_ok_iff.1 read
  obtain ⟨⟨value, left⟩, given, read⟩ := bind_eq_ok_iff.1 read
  cases read
  have after := (leaves_mark ':' _ _ _ marked).trans ((leaves_name start _ _ named).trans included)
  exact ⟨proper.name ((readWithin_here named).mono included),
    ((wellNamedRules false).value _ _ _ given).2 (proper.mono after)⟩

private theorem wellNamedSelectionRules :
    SelectionRules fun tokens selection => NamesProper tokens → selection.WellNamed where
  field _ _ _ label given within proper :=
    .field ⟨proper.name label, fun passed member => (wellNamed_argument proper (given passed member)).1,
      fun passed member => (wellNamed_argument proper (given passed member)).2⟩
      fun item member => proper.within (within item member)
  spread _ _ _ := .spread
  inline _ _ _ within proper := .inline fun item member => proper.within (within item member)

private theorem wellNamed_selectionSet {tokens : List Token} (proper : NamesProper tokens)
    {below : SelectionSet} (read : ReadWithin selectionSet tokens below) :
    ∀ item ∈ below.items, item.WellNamed := by
  obtain ⟨start, included, rest, read⟩ := read
  have within := (wellNamedSelectionRules.selectionSet start _ _ read).2
  exact fun item member => (proper.mono included).within (within item member)

/-! ## Definitions -/

theorem DefinitionRead.wellNamed {tokens : List Token} {definition : Definition}
    (read : DefinitionRead tokens definition) (proper : NamesProper tokens) :
    ∀ item ∈ definition.selections.items, item.WellNamed := by
  cases read with
  | operation _ selected => exact wellNamed_selectionSet proper selected
  | fragment selected => exact wellNamed_selectionSet proper selected
  | shorthand selected => exact wellNamed_selectionSet proper selected

end Parse

theorem ExecutableDocument.wellNamed_of_parse {text : String} {definitions : ExecutableDocument}
    (read : parse text = .ok definitions) :
    ∀ definition ∈ definitions, ∀ item ∈ definition.selections.items, item.WellNamed := by
  intro definition member
  obtain ⟨start, within, here⟩ := definitionRead_of_parse read definition member
  refine here.wellNamed fun label named => ?_
  obtain ⟨token, inText, kind⟩ := named.mono within
  exact TokenStream.isProperName_of_mem inText kind

end GraphqlStore
