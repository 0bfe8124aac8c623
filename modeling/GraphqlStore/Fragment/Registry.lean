import GraphqlStore.Document.Collected
import GraphqlStore.Names.Reach

/-!
The fragments of a run by name, and the fragments that selections reach
through spreads.
-/

set_option autoImplicit false

namespace GraphqlStore

abbrev FragmentRegistry := NameMap Fragment

namespace FragmentRegistry

/-- Registers the fragment that a document defines, unless its name is taken. -/
def register (registry : FragmentRegistry) (document : Document) : FragmentRegistry :=
  match document.definition? with
  | some (.fragment declared) => registry.insertNew declared.name declared
  | _ => registry

/-- The fragments that the working copies define; the first of a name stands. -/
def ofDocuments (documents : List Document) : FragmentRegistry :=
  documents.foldl register NameMap.empty

def spreads (fragment : Fragment) : List String := spreadNames fragment.selections.items

/-- The fragments that the body of a registered fragment spreads. -/
def spreadsOf (registry : FragmentRegistry) (name : String) : List String :=
  registry.successors spreads name

/-- The fragments, registered or not, to which spreads lead from selections. -/
def reachable (registry : FragmentRegistry) (selections : List Selection) : NameSet :=
  NameSet.ofList (registry.reach spreads [] (spreadNames selections))

/-- Whether spreads lead from the body of a registered fragment back to it. -/
def isCyclic (registry : FragmentRegistry) (name : String) : Bool :=
  (registry.find? name).any fun fragment =>
    (registry.reachable fragment.selections.items).contains name

def fragmentVariables (registry : FragmentRegistry) (name : String) : List String :=
  match registry.find? name with
  | some fragment => selectionVariables fragment.selections.items
  | none => []

/-- The variables that selections use, in the fragments they reach too. -/
def variableNames (registry : FragmentRegistry) (selections : List Selection) : NameSet :=
  NameSet.ofList (selectionVariables selections ++
    (registry.reachable selections).names.flatMap registry.fragmentVariables)

end FragmentRegistry

end GraphqlStore
