import GraphqlStore.Names.NameMap
import GraphqlStore.Names.Ordered

/-!
Shapes: what a response looks like. A shape lists the fields of an object by
response name in the order in which they are first selected, and beside them
the shapes that hold for values of further types. Merging joins two shapes of
one object; fields of one name that are not the same schema field conflict.
-/

set_option autoImplicit false

namespace GraphqlStore

/-- A fragment whose fields are part of a shape. -/
structure FragmentRef where
  name : String
  masked : Bool
deriving DecidableEq, Repr

/-- A field of a shape without the shape of its value. -/
structure FieldInfo where
  /-- The schema field that answers. -/
  field : String
  type : String
  typeRef : String
  /-- The cache key. -/
  keyRaw : String
  nullable : Bool
  list : Bool
  /-- The scalar whose values have to be converted. -/
  marshal : Option String
  /-- Whether it is selected through masked fragments only. -/
  hidden : Bool
  listName : Option String
  paginated : Bool
  isAbstract : Bool
deriving DecidableEq, Repr

mutual
/-- The shape of an object. -/
inductive SelectionShape where
  | mk (fields : List FieldShape) (conditions : List (String × SelectionShape))
      (fragments : List FragmentRef)

/-- A field of a shape: one without selections, or one with a shape of its own. -/
inductive FieldShape where
  | leaf (name : String) (info : FieldInfo)
  | composite (name : String) (info : FieldInfo) (selection : SelectionShape)
end

namespace FieldShape

def name : FieldShape → String
  | .leaf name _ => name
  | .composite name _ _ => name

def info : FieldShape → FieldInfo
  | .leaf _ info => info
  | .composite _ info _ => info

def selection? : FieldShape → Option SelectionShape
  | .leaf _ _ => none
  | .composite _ _ selection => some selection

end FieldShape

namespace SelectionShape

def empty : SelectionShape := .mk [] [] []

/-- The fields in the order in which they are first selected. -/
def fields : SelectionShape → List FieldShape
  | .mk fields _ _ => fields

/-- The shapes for values of further types, by increasing name. -/
def conditions : SelectionShape → List (String × SelectionShape)
  | .mk _ conditions _ => conditions

/-- The fragments in the order in which they are first spread. -/
def fragments : SelectionShape → List FragmentRef
  | .mk _ _ fragments => fragments

def field? (shape : SelectionShape) (name : String) : Option FieldShape :=
  Ordered.find? FieldShape.name name shape.fields

end SelectionShape

/-! ## Merging -/

/-- Two schema fields that cannot answer under one name. -/
structure ShapeConflict where
  name : String
  present : String
  added : String
deriving DecidableEq, Repr

def ShapeConflict.message (conflict : ShapeConflict) : String :=
  "response name \"" ++ conflict.name ++ "\" cannot merge fields \"" ++ conflict.present ++
    "\" and \"" ++ conflict.added ++ "\""

/-- The field that is selected in two places: hidden if it is in both, paginated if it is in one,
and with the first name of a list. All else is that of the first place. -/
def FieldInfo.merge (present added : FieldInfo) : FieldInfo :=
  { present with
    hidden := present.hidden && added.hidden
    paginated := present.paginated || added.paginated
    listName := present.listName.or added.listName }

namespace SelectionShape

def addFragment (fragments : List FragmentRef) (added : FragmentRef) : List FragmentRef :=
  if fragments.contains added then fragments else fragments ++ [added]

mutual
/-- The first shape joined with the second. Fields in conflict stay as they are in the first. -/
def merge (into : SelectionShape) : SelectionShape → SelectionShape × List ShapeConflict
  | .mk fields conditions fragments =>
      let (fields, fieldConflicts) := mergeFields into.fields fields
      let (conditions, conditionConflicts) := mergeConditions into.conditions conditions
      (.mk fields conditions (fragments.foldl addFragment into.fragments),
        fieldConflicts ++ conditionConflicts)

def mergeFields (into : List FieldShape) : List FieldShape → List FieldShape × List ShapeConflict
  | [] => (into, [])
  | field :: rest =>
      let (joined, conflicts) := mergeField into field
      let (all, others) := mergeFields joined rest
      (all, conflicts ++ others)

def mergeField (into : List FieldShape) : FieldShape → List FieldShape × List ShapeConflict
  | .leaf name info =>
      match Ordered.find? FieldShape.name name into with
      | none => (into ++ [.leaf name info], [])
      | some present =>
          if present.info.field ≠ info.field then (into, [⟨name, present.info.field, info.field⟩])
          else
            let joined := present.info.merge info
            match present with
            | .leaf _ _ => (Ordered.upsert FieldShape.name (.leaf name joined) into, [])
            | .composite _ _ selection =>
                (Ordered.upsert FieldShape.name (.composite name joined selection) into, [])
  | .composite name info selection =>
      match Ordered.find? FieldShape.name name into with
      | none => (into ++ [.composite name info selection], [])
      | some present =>
          if present.info.field ≠ info.field then (into, [⟨name, present.info.field, info.field⟩])
          else
            let joined := present.info.merge info
            match present with
            | .leaf _ _ =>
                (Ordered.upsert FieldShape.name (.composite name joined selection) into, [])
            | .composite _ _ inner =>
                let (inner, conflicts) := inner.merge selection
                (Ordered.upsert FieldShape.name (.composite name joined inner) into, conflicts)

def mergeConditions (into : List (String × SelectionShape)) :
    List (String × SelectionShape) → List (String × SelectionShape) × List ShapeConflict
  | [] => (into, [])
  | (type, shape) :: rest =>
      let (joined, conflicts) := ((NameMap.lookup type into).getD empty).merge shape
      let (all, others) := mergeConditions (NameMap.place type joined into) rest
      (all, conflicts ++ others)
end

def addField (shape : SelectionShape) (field : FieldShape) : SelectionShape × List ShapeConflict :=
  let (fields, conflicts) := mergeField shape.fields field
  (.mk fields shape.conditions shape.fragments, conflicts)

def addCondition (shape : SelectionShape) (type : String) (added : SelectionShape) :
    SelectionShape × List ShapeConflict :=
  let (conditions, conflicts) := mergeConditions shape.conditions [(type, added)]
  (.mk shape.fields conditions shape.fragments, conflicts)

def withFragment (shape : SelectionShape) (fragment : FragmentRef) : SelectionShape :=
  .mk shape.fields shape.conditions (addFragment shape.fragments fragment)

/-! ## Equality -/

mutual
def same : SelectionShape → SelectionShape → Bool
  | .mk fields conditions fragments, .mk otherFields otherConditions otherFragments =>
      sameFields fields otherFields && sameConditions conditions otherConditions &&
        fragments == otherFragments

def sameField : FieldShape → FieldShape → Bool
  | .leaf name info, .leaf otherName otherInfo => name == otherName && info == otherInfo
  | .composite name info selection, .composite otherName otherInfo otherSelection =>
      name == otherName && info == otherInfo && same selection otherSelection
  | _, _ => false

def sameFields : List FieldShape → List FieldShape → Bool
  | [], [] => true
  | first :: firstRest, second :: secondRest =>
      sameField first second && sameFields firstRest secondRest
  | _, _ => false

/-- Whether shapes of further types are pairwise the same. -/
def sameConditions : List (String × SelectionShape) → List (String × SelectionShape) → Bool
  | [], [] => true
  | (firstType, first) :: firstRest, (secondType, second) :: secondRest =>
      firstType == secondType && same first second && sameConditions firstRest secondRest
  | _, _ => false
end

end SelectionShape

end GraphqlStore
