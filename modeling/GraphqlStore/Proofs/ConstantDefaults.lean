import GraphqlStore.Proofs.CompiledRun
import GraphqlStore.Proofs.ReadTokens

/-!
What is read as a constant holds no variable. So the defaults of declared
variables hold none, in every document that is read from a text.
-/

set_option autoImplicit false

namespace GraphqlStore

/-! ## Constants -/

namespace Value

def IsConstant (value : Value) : Prop := value.variableNames = []

theorem isConstant_list_iff {items : List Value} :
    (Value.list items).IsConstant ↔ ∀ item ∈ items, item.IsConstant := by
  rw [IsConstant, variableNames]
  induction items with
  | nil => simp [itemVariables]
  | cons item rest ih => simp [itemVariables, ih, IsConstant]

theorem isConstant_object_iff {fields : List (String × Value)} :
    (Value.object fields).IsConstant ↔ ∀ field ∈ fields, field.2.IsConstant := by
  rw [IsConstant, variableNames]
  induction fields with
  | nil => simp [fieldVariables]
  | cons field rest ih => simp [fieldVariables, ih, IsConstant]

end Value

namespace Parse

private theorem isConstant_wordValue (text : String) : (wordValue text).IsConstant := by
  unfold wordValue
  split
  · rfl
  · split
    · rfl
    · split <;> rfl

private theorem constantRules : ValueRules true fun _ value => value.IsConstant where
  word _ text _ := isConstant_wordValue text
  int _ _ := rfl
  float _ _ := rfl
  string _ _ := rfl
  reference _ _ absurd := by cases absurd
  list _ _ within := by
    refine Value.isConstant_list_iff.2 fun item member => ?_
    obtain ⟨_, _, constant⟩ := within item member
    exact constant
  object _ _ within := by
    refine Value.isConstant_object_iff.2 fun field member => ?_
    obtain ⟨_, _, _, constant⟩ := within field member
    exact constant

private theorem isConstant_of_readWithin {tokens : List Token} {found : Value}
    (read : ReadWithin (value true) tokens found) : found.IsConstant := by
  obtain ⟨start, _, rest, read⟩ := read
  exact (constantRules.value start _ _ read).2

end Parse

/-! ## Definitions -/

def VariableDefinition.HasConstantDefault (definition : VariableDefinition) : Prop :=
  ∀ default ∈ definition.default, default.IsConstant

def Definition.HasConstantDefaults (definition : Definition) : Prop :=
  ∀ declared ∈ definition.variableDefinitions?.getD [], declared.HasConstantDefault

private theorem Parse.DefinitionRead.hasConstantDefaults {tokens : List Token}
    {definition : Definition}
    (read : DefinitionRead tokens definition) : definition.HasConstantDefaults := by
  cases read with
  | operation declarations =>
      intro declared member default given
      obtain ⟨_, _, _, constant⟩ := declarations declared member
      exact isConstant_of_readWithin (constant default given)
  | fragment => exact List.forall_mem_nil _
  | shorthand => exact List.forall_mem_nil _

private theorem ExecutableDocument.hasConstantDefaults_of_parse {text : String}
    {parsed : ExecutableDocument}
    (read : parse text = .ok parsed) : ∀ definition ∈ parsed, definition.HasConstantDefaults := by
  intro definition member
  obtain ⟨_, _, here⟩ := definitionRead_of_parse read definition member
  exact here.hasConstantDefaults

theorem hasConstantDefaults_of_collect {sources : List DocumentSource} {collection : Collection}
    (collects : Collection.collect sources = .ok collection) {document : Document}
    (member : document ∈ collection.documents) {definition : Definition}
    (defines : document.Defines definition) : definition.HasConstantDefaults := by
  have given := Collection.document?_of_mem collects member
  unfold Collection.document? at given
  split at given
  · cases given
  · rename_i parsed read
    split at given
    · cases given
    · have working : parsed = [definition] :=
        (congrArg Document.working (Option.some.inj given)).trans defines.working
      refine ExecutableDocument.hasConstantDefaults_of_parse read definition ?_
      rw [working]
      exact List.mem_singleton_self _

end GraphqlStore
