import GraphqlStore.Document.Visit
import GraphqlStore.Pass.Basic

/-!
Response names. Fields that answer under one name must be the same field with
the same arguments, unless the objects they are selected on can never be the
same. A scope is the selections that make up one response object; spreads
bring selections of other documents into it, each fragment at most once.
-/

set_option autoImplicit false

namespace GraphqlStore

namespace Merge

/-! ## Scopes -/

/-- A selection of a scope. -/
structure Part where
  /-- The type on which it is made. -/
  parent : String
  /-- The place of the spread that brought it in from another document. -/
  via : Option Position
  selection : Selection

/-- A field of a scope with the selections below it. -/
structure ScopedField where
  parent : String
  via : Option Position
  head : Field
  items : List Selection

namespace ScopedField

def position (field : ScopedField) : Position := field.via.getD field.head.position

end ScopedField

def parts (parent : String) (via : Option Position) (items : List Selection) : List Part :=
  items.map fun selection => ⟨parent, via, selection⟩

mutual
/-- How many selections a selection brings into its scope, fields taken as a whole. -/
def selectionWeight : Selection → Nat
  | .field _ _ => 1
  | .spread _ => 1
  | .inline _ items => 1 + weight items

def weight : List Selection → Nat
  | [] => 0
  | selection :: rest => selectionWeight selection + weight rest
end

/-- How many selections the body of a fragment brings into a scope. -/
def bodyWeight (fragment : Fragment) : Nat := weight fragment.selections.items

def pendingWeight : List Part → Nat
  | [] => 0
  | part :: rest => selectionWeight part.selection + pendingWeight rest

theorem pendingWeight_append (first second : List Part) :
    pendingWeight (first ++ second) = pendingWeight first + pendingWeight second := by
  induction first with
  | nil => simp [pendingWeight]
  | cons part rest ih => simp [pendingWeight, ih]; omega

theorem pendingWeight_parts (parent : String) (via : Option Position) (items : List Selection) :
    pendingWeight (parts parent via items) = weight items := by
  induction items with
  | nil => simp [parts, pendingWeight, weight]
  | cons item rest ih =>
      have tail := ih
      unfold parts at tail
      simp [parts, pendingWeight, weight, tail]

/-- The fields of a scope in document order. Fragments that have been visited are not entered
again. -/
def fields (registry : FragmentRegistry) (visited : List String) : List Part → List ScopedField
  | [] => []
  | ⟨parent, via, .field head items⟩ :: pending =>
      ⟨parent, via, head, items⟩ :: fields registry visited pending
  | ⟨parent, via, .inline head items⟩ :: pending =>
      fields registry visited (parts (head.typeWithin parent) via items ++ pending)
  | ⟨_, via, .spread head⟩ :: pending =>
      if _fresh : head.name ∉ visited then
        match _found : registry.find? head.name with
        | none => fields registry (head.name :: visited) pending
        | some fragment =>
            fields registry (head.name :: visited)
              (parts fragment.condition (via.or (some head.position)) fragment.selections.items ++
                pending)
      else fields registry visited pending
termination_by pending =>
  registry.outside visited * (registry.total bodyWeight + 1) + pendingWeight pending
decreasing_by
  · simp only [pendingWeight, selectionWeight]
    omega
  · simp only [pendingWeight_append, pendingWeight_parts, pendingWeight, selectionWeight]
    omega
  · have atMost := Nat.mul_le_mul_right (registry.total bodyWeight + 1)
      (NameMap.outside_cons_le registry head.name visited)
    simp only [pendingWeight, selectionWeight]
    omega
  · have small := NameMap.size_le_total bodyWeight registry _found
    refine NameMap.mul_add_lt (NameMap.outside_cons_lt registry _found _fresh) ?_
    simp only [pendingWeight_append, pendingWeight_parts, pendingWeight, selectionWeight]
    simp only [bodyWeight] at small ⊢
    omega
  · simp only [pendingWeight, selectionWeight]
    omega

/-- The fields of a scope that answer under one name. -/
structure Group where
  name : String
  first : ScopedField
  others : List ScopedField

def addToGroup (field : ScopedField) : List Group → List Group
  | [] => [⟨field.head.responseName, field, []⟩]
  | group :: rest =>
      if group.name = field.head.responseName then
        { group with others := group.others ++ [field] } :: rest
      else group :: addToGroup field rest

/-- The fields by name, in the order in which names are first met. -/
def groups (scope : List ScopedField) : List Group :=
  scope.foldl (fun found field => addToGroup field found) []

/-! ## Conflicts -/

/-- Why two fields cannot answer under one name. -/
inductive Conflict where
  | fields (name first second : String)
  | arguments (name field : String)
deriving DecidableEq, Repr

def Conflict.message : Conflict → String
  | .fields name first second =>
      "response name \"" ++ name ++ "\" selects both \"" ++ first ++ "\" and \"" ++ second ++ "\""
  | .arguments name field =>
      "response name \"" ++ name ++ "\" selects \"" ++ field ++ "\" with different arguments"

def Conflict.fault (position : Position) (conflict : Conflict) : Fault :=
  ⟨conflict.message, some position, some "give the selections distinct aliases"⟩

def canCoincide (schema : Schema) (first second : String) : Bool :=
  first == second || !schema.isObject first || !schema.isObject second

/-- Whether two lists pass the same values to the same arguments. -/
def sameArguments (first second : List Argument) : Bool :=
  first.length == second.length &&
    first.all fun argument => (argument? argument.1 second).any argument.2.same

def conflict? (name : String) (first second : Field) : Option Conflict :=
  if first.name ≠ second.name then some (.fields name first.name second.name)
  else if sameArguments first.arguments second.arguments then none
  else some (.arguments name first.name)

/-- The selections below a field as parts of the scope of its value. -/
def children (schema : Schema) (field : ScopedField) : List Part :=
  match schema.field? field.parent field.head.name with
  | some (.declared declared) => parts declared.type.base field.via field.items
  | _ => []

/-- The conflicts of a group, and the scope of the value that its fields share. -/
def compare (schema : Schema) (group : Group) : List Fault × List Part :=
  group.others.foldl
    (fun found other =>
      if canCoincide schema group.first.parent other.parent then
        match conflict? group.name group.first.head other.head with
        | some conflict => (found.1 ++ [conflict.fault other.position], found.2)
        | none => (found.1, found.2 ++ children schema other)
      else found)
    ([], children schema group.first)

/-! ## Scopes of scopes -/

/-- The conflicts of a scope and of the scopes below it, down to a depth; nothing if scopes go
deeper. -/
def faults? (schema : Schema) (registry : FragmentRegistry) : Nat → List Part → Option (List Fault)
  | 0, _ => none
  | depth + 1, scope => do
      let found ← (groups (fields registry [] scope)).mapM fun group =>
        let (conflicts, below) := compare schema group
        if below.isEmpty then some conflicts
        else (faults? schema registry depth below).map (conflicts ++ ·)
      return found.flatten

mutual
def selectionDepth : Selection → Nat
  | .field _ items => depth items + 1
  | .spread _ => 0
  | .inline _ items => depth items

def depth : List Selection → Nat
  | [] => 0
  | selection :: rest => max (selectionDepth selection) (depth rest)
end

/-- How deep scopes can be nested if no fragment reaches itself below a field: each fragment
adds its own depth at most once. -/
def depthBound (registry : FragmentRegistry) (selections : List Selection) : Nat :=
  depth selections + registry.total (fun fragment => depth fragment.selections.items) + 1

/-- The faults of selections. Scopes are nested beyond the bound only where a fragment reaches itself
below a field. The check has no end then; an answer without faults stands for that. -/
def faults (schema : Schema) (registry : FragmentRegistry) (root : String)
    (selections : List Selection) : List Fault :=
  (faults? schema registry (depthBound registry selections) (parts root none selections)).getD []

end Merge

end GraphqlStore
