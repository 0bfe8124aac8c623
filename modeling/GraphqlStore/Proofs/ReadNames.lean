import GraphqlStore.Proofs.ReadTokens
import Mathlib.Data.List.TakeWhile

/-!
Names that are read from texts are names: letters, digits and underscores.
-/

set_option autoImplicit false

namespace GraphqlStore

/-! ## Tokens of a text -/

/-- A text of the characters of which names are made. -/
def IsName (text : String) : Prop := ∀ c ∈ text.toList, Lexer.isNameChar c = true

theorem IsName.no_dot {text : String} (named : IsName text) : '.' ∉ text.toList := by
  intro member
  exact absurd (named '.' member) (by decide)

namespace Lexer

theorem isNameChar_of_isNameStart {c : Char} (start : isNameStart c = true) : isNameChar c = true := by
  unfold isNameStart at start
  unfold isNameChar Char.isAlphanum
  rcases Bool.or_eq_true_iff.1 start with underscore | letter
  · rw [underscore, Bool.true_or]
  · rw [letter, Bool.true_or, Bool.or_true]

theorem scan_name {first : Char} {rest : List Char} {text : String} {more : Nat}
    (scanned : scan first rest = some (.name text, more)) :
    isNameStart first = true ∧ text = String.ofList (first :: rest.takeWhile isNameChar) := by
  unfold scan at scanned
  split at scanned
  · cases scanned
  · split at scanned
    · split at scanned <;> cases scanned
    · split at scanned
      · rename_i start
        cases scanned
        exact ⟨start, rfl⟩
      · split at scanned
        · simp only at scanned
          split at scanned
          · obtain ⟨value, _, same⟩ := Option.map_eq_some_iff.1 scanned
            cases same
          · obtain ⟨value, _, same⟩ := Option.map_eq_some_iff.1 scanned
            cases same
        · split at scanned
          · split at scanned
            · obtain ⟨content, _, scanned⟩ := Option.bind_eq_some_iff.1 scanned
              simp only at scanned
              split at scanned <;> cases scanned
            · obtain ⟨content, _, scanned⟩ := Option.bind_eq_some_iff.1 scanned
              obtain ⟨value, _, scanned⟩ := Option.bind_eq_some_iff.1 scanned
              cases scanned
          · cases scanned

theorem scan_of_mem_tokensFrom {available : Nat} {position : Position} {text : List Char}
    {token : Token} (member : token ∈ (tokensFrom available position text).tokens) {label : String}
    (named : token.kind = .name label) : ∃ first rest more, scan first rest = some (.name label, more) := by
  fun_induction tokensFrom available position text with
  | case1 => cases member
  | case2 =>
      cases List.mem_singleton.1 member
      cases named
  | case3 =>
      cases List.mem_singleton.1 member
      cases named
  | case4 _ _ _ here first rest _ kind more scanned _ _ _ following ih =>
      rcases List.mem_cons.1 member with rfl | later
      · cases named
        exact ⟨first, rest, more, scanned⟩
      · exact ih later

private theorem isName_of_mem_tokensFrom {available : Nat} {position : Position} {text : List Char}
    {token : Token} (member : token ∈ (tokensFrom available position text).tokens) {label : String}
    (named : token.kind = .name label) : IsName label := by
  obtain ⟨first, rest, more, scanned⟩ := scan_of_mem_tokensFrom member named
  obtain ⟨start, rfl⟩ := scan_name scanned
  intro c member
  rw [String.toList_ofList, List.mem_cons] at member
  rcases member with rfl | member
  · exact isNameChar_of_isNameStart start
  · exact List.mem_takeWhile_imp member

end Lexer

private theorem TokenStream.isName_of_mem {text : String} {token : Token}
    (member : token ∈ (ofText text).tokens) {label : String} (named : token.kind = .name label) :
    IsName label := Lexer.isName_of_mem_tokensFrom member named

namespace Parse

def Named (tokens : List Token) (text : String) : Prop := ∃ token ∈ tokens, token.kind = .name text

theorem Named.mono {tokens others : List Token} {text : String} (named : Named tokens text)
    (included : tokens <:+ others) : Named others text := by
  obtain ⟨token, member, kind⟩ := named
  exact ⟨token, included.subset member, kind⟩

theorem named_name {tokens : List Token} {text : String} {rest : Fewer tokens}
    (read : name tokens = .ok (text, rest)) : Named tokens text := by
  unfold name at read
  split at read
  · cases read
    exact ⟨_, List.mem_cons_self, rfl⟩
  · cases read

theorem named_of_readWithin {tokens : List Token} {text : String}
    (read : ReadWithin name tokens text) : Named tokens text := by
  obtain ⟨start, included, rest, read⟩ := read
  exact (named_name read).mono included

/-! ## Variables -/

theorem DefinitionRead.named {tokens : List Token} {definition : Definition}
    (read : DefinitionRead tokens definition) :
    ∀ declared ∈ definition.variableDefinitions?.getD [], Named tokens declared.name := by
  cases read with
  | operation declarations =>
      intro declared member
      obtain ⟨start, included, named, _⟩ := declarations declared member
      exact (named_of_readWithin named).mono included
  | fragment => exact List.forall_mem_nil _
  | shorthand => exact List.forall_mem_nil _

end Parse

theorem ExecutableDocument.isName_of_parse {text : String} {definitions : ExecutableDocument}
    (read : parse text = .ok definitions) {definition : Definition} (member : definition ∈ definitions)
    {declarations : List VariableDefinition}
    (declares : definition.variableDefinitions? = some declarations) :
    ∀ declared ∈ declarations, IsName declared.name := by
  intro declared declaredHere
  obtain ⟨start, within, here⟩ := definitionRead_of_parse read definition member
  have named := here.named
  rw [declares] at named
  obtain ⟨token, inText, kind⟩ := (named declared declaredHere).mono within
  exact TokenStream.isName_of_mem inText kind

/-! ## Schema texts -/

namespace Parse

private theorem leaves_inputValue (tokens : List Token) : Leaves tokens (inputValue tokens) := by
  intro found rest read
  obtain ⟨⟨_, afterText⟩, described, read⟩ := bind_eq_ok_iff.1 read
  obtain ⟨⟨label, afterName⟩, named, read⟩ := bind_eq_ok_iff.1 read
  obtain ⟨⟨_, afterColon⟩, marked, read⟩ := bind_eq_ok_iff.1 read
  obtain ⟨⟨type, afterType⟩, typed, read⟩ := bind_eq_ok_iff.1 read
  obtain ⟨⟨default, afterDefault⟩, given, read⟩ := bind_eq_ok_iff.1 read
  obtain ⟨⟨_, left⟩, directed, read⟩ := bind_eq_ok_iff.1 read
  cases read
  have head := (leaves_name _ _ _ named).trans (leaves_description tokens _ _ described)
  have type := (leaves_typeRef _ _ _ typed).trans (leaves_mark ':' _ _ _ marked)
  have ends := (leaves_directives _ _ _ directed).trans (reads_defaultValue _ _ _ given).1
  exact ends.trans (type.trans head)

private theorem leaves_fieldDefinition (tokens : List Token) :
    Leaves tokens (fieldDefinition tokens) := by
  intro found rest read
  obtain ⟨⟨_, afterText⟩, described, read⟩ := bind_eq_ok_iff.1 read
  obtain ⟨⟨label, afterName⟩, named, read⟩ := bind_eq_ok_iff.1 read
  obtain ⟨⟨arguments, afterArguments⟩, passed, read⟩ := bind_eq_ok_iff.1 read
  obtain ⟨⟨_, afterColon⟩, marked, read⟩ := bind_eq_ok_iff.1 read
  obtain ⟨⟨type, afterType⟩, typed, read⟩ := bind_eq_ok_iff.1 read
  obtain ⟨⟨_, left⟩, directed, read⟩ := bind_eq_ok_iff.1 read
  cases read
  have head := (leaves_name _ _ _ named).trans (leaves_description tokens _ _ described)
  have call := (leaves_optionalBetween leaves_inputValue '(' ')' _ _ _ passed).trans head
  have type := (leaves_typeRef _ _ _ typed).trans (leaves_mark ':' _ _ _ marked)
  exact (leaves_directives _ _ _ directed).trans (type.trans call)

private theorem leaves_enumValue (tokens : List Token) : Leaves tokens (enumValue tokens) := by
  intro found rest read
  obtain ⟨⟨_, afterText⟩, described, read⟩ := bind_eq_ok_iff.1 read
  obtain ⟨⟨label, afterName⟩, named, read⟩ := bind_eq_ok_iff.1 read
  obtain ⟨⟨_, left⟩, directed, read⟩ := bind_eq_ok_iff.1 read
  cases read
  have head := (leaves_name _ _ _ named).trans (leaves_description tokens _ _ described)
  exact (leaves_directives _ _ _ directed).trans head

private theorem leaves_interfaces (tokens : List Token) : Leaves tokens (interfaces tokens) := by
  intro found rest read
  have word := optionalWord_suffix "implements" tokens
  unfold interfaces at read
  split at read
  · rename_i here
    cases read
    rwa [here] at word
  · rename_i afterWord _ here
    rw [here] at word
    have mark := optionalMark_suffix '&' afterWord
    simp only at read
    split at read
    · cases read
    · rename_i names
      cases read
      exact (leaves_separated leaves_name '&' _ _ _ names).trans (mark.trans word)

private theorem leaves_unionMembers (tokens : List Token) :
    Leaves tokens (unionMembers tokens) := by
  intro found rest read
  have sign := optionalMark_suffix '=' tokens
  unfold unionMembers at read
  split at read
  · rename_i here
    cases read
    rwa [here] at sign
  · rename_i afterSign _ here
    rw [here] at sign
    have mark := optionalMark_suffix '|' afterSign
    simp only at read
    split at read
    · cases read
    · rename_i names
      cases read
      exact (leaves_separated leaves_name '|' _ _ _ names).trans (mark.trans sign)

/-- A step that reads a type and what it is called. -/
def ReadsType (tokens : List Token) {rest : List Token} (step : Step TypeParts rest) : Prop :=
  Reads tokens (fun parts => Named tokens parts.name) step

theorem ReadsType.skipOne {token : Token} {rest : List Token} {step : Step TypeParts rest}
    (reads : ReadsType rest step) :
    ReadsType (token :: rest)
      (step.map (typeParts.skipOne ·) : Step TypeParts (token :: rest)) := by
  intro parts left read
  cases step with
  | error stuck => cases read
  | ok found =>
      cases read
      obtain ⟨ends, named⟩ := reads _ _ rfl
      exact ⟨ends.trans (List.suffix_cons _ _), named.mono (List.suffix_cons _ _)⟩

private theorem readsType_scalarParts (tokens : List Token) :
    ReadsType tokens (scalarParts tokens) := by
  intro parts rest read
  obtain ⟨⟨label, afterName⟩, named, read⟩ := bind_eq_ok_iff.1 read
  obtain ⟨⟨marks, left⟩, directed, read⟩ := bind_eq_ok_iff.1 read
  cases read
  exact ⟨(leaves_directives _ _ _ directed).trans (leaves_name _ _ _ named), named_name named⟩

private theorem readsType_objectParts (tokens : List Token) :
    ReadsType tokens (objectParts tokens) := by
  intro parts rest read
  obtain ⟨⟨label, afterName⟩, named, read⟩ := bind_eq_ok_iff.1 read
  obtain ⟨⟨implemented, afterInterfaces⟩, implementing, read⟩ := bind_eq_ok_iff.1 read
  obtain ⟨⟨marks, afterDirectives⟩, directed, read⟩ := bind_eq_ok_iff.1 read
  obtain ⟨⟨fields, left⟩, listed, read⟩ := bind_eq_ok_iff.1 read
  cases read
  have head := (leaves_interfaces _ _ _ implementing).trans (leaves_name _ _ _ named)
  have marked := (leaves_directives _ _ _ directed).trans head
  exact ⟨(leaves_optionalBetween leaves_fieldDefinition _ _ _ _ _ listed).trans marked, named_name named⟩

private theorem readsType_interfaceParts (tokens : List Token) :
    ReadsType tokens (interfaceParts tokens) := by
  intro parts rest read
  obtain ⟨⟨label, afterName⟩, named, read⟩ := bind_eq_ok_iff.1 read
  obtain ⟨⟨_, afterInterfaces⟩, implementing, read⟩ := bind_eq_ok_iff.1 read
  obtain ⟨⟨marks, afterDirectives⟩, directed, read⟩ := bind_eq_ok_iff.1 read
  obtain ⟨⟨fields, left⟩, listed, read⟩ := bind_eq_ok_iff.1 read
  cases read
  have head := (leaves_interfaces _ _ _ implementing).trans (leaves_name _ _ _ named)
  have marked := (leaves_directives _ _ _ directed).trans head
  exact ⟨(leaves_optionalBetween leaves_fieldDefinition _ _ _ _ _ listed).trans marked, named_name named⟩

private theorem readsType_unionParts (tokens : List Token) :
    ReadsType tokens (unionParts tokens) := by
  intro parts rest read
  obtain ⟨⟨label, afterName⟩, named, read⟩ := bind_eq_ok_iff.1 read
  obtain ⟨⟨marks, afterDirectives⟩, directed, read⟩ := bind_eq_ok_iff.1 read
  obtain ⟨⟨members, left⟩, listed, read⟩ := bind_eq_ok_iff.1 read
  cases read
  have marked := (leaves_directives _ _ _ directed).trans (leaves_name _ _ _ named)
  exact ⟨(leaves_unionMembers _ _ _ listed).trans marked, named_name named⟩

private theorem readsType_enumParts (tokens : List Token) :
    ReadsType tokens (enumParts tokens) := by
  intro parts rest read
  obtain ⟨⟨label, afterName⟩, named, read⟩ := bind_eq_ok_iff.1 read
  obtain ⟨⟨marks, afterDirectives⟩, directed, read⟩ := bind_eq_ok_iff.1 read
  obtain ⟨⟨values, left⟩, listed, read⟩ := bind_eq_ok_iff.1 read
  cases read
  have marked := (leaves_directives _ _ _ directed).trans (leaves_name _ _ _ named)
  exact ⟨(leaves_optionalBetween leaves_enumValue _ _ _ _ _ listed).trans marked, named_name named⟩

private theorem readsType_inputParts (tokens : List Token) :
    ReadsType tokens (inputParts tokens) := by
  intro parts rest read
  obtain ⟨⟨label, afterName⟩, named, read⟩ := bind_eq_ok_iff.1 read
  obtain ⟨⟨marks, afterDirectives⟩, directed, read⟩ := bind_eq_ok_iff.1 read
  obtain ⟨⟨fields, left⟩, listed, read⟩ := bind_eq_ok_iff.1 read
  cases read
  have marked := (leaves_directives _ _ _ directed).trans (leaves_name _ _ _ named)
  exact ⟨(leaves_optionalBetween leaves_inputValue _ _ _ _ _ listed).trans marked, named_name named⟩

private theorem readsType_typeParts (tokens : List Token) :
    ReadsType tokens (typeParts tokens) := by
  unfold typeParts
  split
  · exact (readsType_scalarParts _).skipOne
  · exact (readsType_objectParts _).skipOne
  · exact (readsType_interfaceParts _).skipOne
  · exact (readsType_unionParts _).skipOne
  · exact (readsType_enumParts _).skipOne
  · exact (readsType_inputParts _).skipOne
  · intro parts left read
    cases read

private theorem leaves_directiveLocation (tokens : List Token) :
    Leaves tokens (directiveLocation tokens) := by
  intro found rest read
  unfold directiveLocation at read
  split at read
  · rename_i named
    split at read
    · cases read
      exact leaves_name tokens _ _ named
    · cases read
  · cases read

private theorem leaves_locations (tokens : List Token) : Leaves tokens (locations tokens) := by
  intro found rest read
  unfold locations at read
  split at read
  · simp only at read
    split at read
    · cases read
    · rename_i names
      cases read
      exact (leaves_separated leaves_directiveLocation '|' _ _ _ names).trans
        (optionalMark_suffix '|' tokens)
  · cases read
    exact List.suffix_refl _

private theorem leaves_operationType (tokens : List Token) :
    Leaves tokens (operationType tokens) := by
  intro found rest read
  obtain ⟨⟨operation, afterName⟩, named, read⟩ := bind_eq_ok_iff.1 read
  obtain ⟨⟨_, afterColon⟩, marked, read⟩ := bind_eq_ok_iff.1 read
  obtain ⟨⟨type, left⟩, typed, read⟩ := bind_eq_ok_iff.1 read
  cases read
  exact (leaves_name _ _ _ typed).trans
    ((leaves_mark ':' _ _ _ marked).trans (leaves_name tokens _ _ named))

/-- A step that reads a definition and, if it declares a type, what that is called. -/
def ReadsDefinition (tokens : List Token) {rest : List Token} (step : Step SchemaDefinition rest) :
    Prop :=
  Reads tokens (fun found => ∀ name body, found = .type name body → Named tokens name) step

private theorem readsDefinition_directiveDefinition (tokens : List Token) :
    ReadsDefinition tokens (directiveDefinition tokens) := by
  intro found rest read
  obtain ⟨⟨_, afterWord⟩, directive, read⟩ := bind_eq_ok_iff.1 read
  obtain ⟨⟨_, afterMark⟩, marked, read⟩ := bind_eq_ok_iff.1 read
  obtain ⟨⟨label, afterName⟩, named, read⟩ := bind_eq_ok_iff.1 read
  obtain ⟨⟨_, afterArguments⟩, passed, read⟩ := bind_eq_ok_iff.1 read
  simp only at read
  obtain ⟨⟨_, afterOn⟩, on, read⟩ := bind_eq_ok_iff.1 read
  obtain ⟨⟨_, left⟩, located, read⟩ := bind_eq_ok_iff.1 read
  cases read
  have head := (leaves_mark '@' _ _ _ marked).trans (leaves_keyword "directive" tokens _ _ directive)
  have name := (leaves_name _ _ _ named).trans head
  have call := (leaves_optionalBetween leaves_inputValue '(' ')' _ _ _ passed).trans name
  have repeated := (optionalWord_suffix "repeatable" _).trans call
  refine ⟨(leaves_locations _ _ _ located).trans ((leaves_keyword "on" _ _ _ on).trans repeated), ?_⟩
  intro name body same
  cases same

private theorem readsDefinition_schemaBlock (tokens : List Token) :
    ReadsDefinition tokens (schemaBlock tokens) := by
  intro found rest read
  obtain ⟨⟨_, afterWord⟩, schema, read⟩ := bind_eq_ok_iff.1 read
  obtain ⟨⟨_, afterDirectives⟩, directed, read⟩ := bind_eq_ok_iff.1 read
  obtain ⟨⟨_, afterOpening⟩, opened, read⟩ := bind_eq_ok_iff.1 read
  obtain ⟨⟨entries, left⟩, listed, read⟩ := bind_eq_ok_iff.1 read
  simp only at read
  split at read
  · cases read
    have head := (leaves_directives _ _ _ directed).trans (leaves_keyword "schema" tokens _ _ schema)
    have start := (leaves_mark _ _ _ _ opened).trans head
    refine ⟨(readWithin_itemsUntil leaves_operationType listed).1.trans start, ?_⟩
    intro name body same
    cases same
  · cases read

private theorem readsDefinition_extensionBody (tokens : List Token) :
    ReadsDefinition tokens (extensionBody tokens) := by
  intro found rest read
  obtain ⟨⟨parts, left⟩, typed, read⟩ := bind_eq_ok_iff.1 read
  simp only at read
  split at read
  · cases read
    refine ⟨(readsType_typeParts tokens _ _ typed).1, ?_⟩
    intro name body same
    cases same
  · cases read

private theorem readsDefinition_schemaDefinition (tokens : List Token) :
    ReadsDefinition tokens (schemaDefinition tokens) := by
  intro found rest read
  unfold schemaDefinition at read
  split at read
  · exact readsDefinition_schemaBlock tokens _ _ read
  · split at read
    · obtain ⟨⟨_, afterWord⟩, extending, read⟩ := bind_eq_ok_iff.1 read
      obtain ⟨⟨extension, left⟩, extended, read⟩ := bind_eq_ok_iff.1 read
      cases read
      have head := leaves_keyword "extend" tokens _ _ extending
      obtain ⟨ends, types⟩ := readsDefinition_extensionBody _ _ _ extended
      exact ⟨ends.trans head, fun name body same => (types name body same).mono head⟩
    · obtain ⟨⟨_, afterText⟩, described, read⟩ := bind_eq_ok_iff.1 read
      have head := leaves_description tokens _ _ described
      simp only at read
      split at read
      · obtain ⟨⟨directive, left⟩, declared, read⟩ := bind_eq_ok_iff.1 read
        cases read
        obtain ⟨ends, types⟩ := readsDefinition_directiveDefinition _ _ _ declared
        exact ⟨ends.trans head, fun name body same => (types name body same).mono head⟩
      · obtain ⟨⟨parts, left⟩, typed, read⟩ := bind_eq_ok_iff.1 read
        cases read
        obtain ⟨ends, named⟩ := readsType_typeParts _ _ _ typed
        refine ⟨ends.trans head, ?_⟩
        intro name body same
        cases same
        exact named.mono head

end Parse

theorem SchemaDefinition.isName_of_parse {text : String} {definitions : List SchemaDefinition}
    (read : parse text = .ok definitions) {name : String} {body : TypeBody}
    (member : .type name body ∈ definitions) : IsName name := by
  obtain ⟨start, within, rest, here⟩ := TokenStream.readWithin_of_parse
    (fun tokens => (Parse.readsDefinition_schemaDefinition tokens).leaves) read _ member
  obtain ⟨token, inText, named⟩ :=
    ((Parse.readsDefinition_schemaDefinition start _ _ here).2 name body rfl).mono within
  exact TokenStream.isName_of_mem inText named

end GraphqlStore
