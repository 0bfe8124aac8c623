import GraphqlStore.Config.Basic
import GraphqlStore.Document.Network
import GraphqlStore.Fragment.Registry

/-!
Inlining: a spread is replaced by an inline fragment with the body of the
fragment it names, and the spreads of that body in turn. A mark on the inline
fragment tells the name and whether its fields are hidden. Spreads of unknown
fragments stay, and so do those of a fragment whose body is being expanded.
-/

set_option autoImplicit false

namespace GraphqlStore

namespace Directive

/-- Hides the fields of a spread fragment. -/
def maskEnable : String := "mask_enable"

/-- Shows the fields of a spread fragment. -/
def maskDisable : String := "mask_disable"

/-- The mark of an inline fragment that stands for a spread. -/
def inlined (position : Position) (name : String) (masked : Bool) : Directive :=
  ⟨position, fragmentMark, [("name", .string name), ("masked", .boolean masked)]⟩

end Directive

/-! ## Spreads at any depth -/

mutual
/-- Puts a selection in the place of each spread at any depth. -/
def Selection.mapSpreads (replace : Spread → Selection) : Selection → Selection
  | .field head items => .field head (mapSpreads replace items)
  | .spread head => replace head
  | .inline head items => .inline head (mapSpreads replace items)

/-- Puts a selection in the place of each spread at any depth of a list. -/
def mapSpreads (replace : Spread → Selection) : List Selection → List Selection
  | [] => []
  | selection :: rest => selection.mapSpreads replace :: mapSpreads replace rest
end

mutual
def Selection.anySpread (test : Spread → Bool) : Selection → Bool
  | .field _ items => anySpread test items
  | .spread head => test head
  | .inline _ items => anySpread test items

/-- Whether some spread at any depth of a list passes a test. -/
def anySpread (test : Spread → Bool) : List Selection → Bool
  | [] => false
  | selection :: rest => selection.anySpread test || anySpread test rest
end

/-! ## Expansion -/

namespace Spread

/-- Whether a directive of this name stands on the spread. -/
def hasDirective (spread : Spread) (name : String) : Bool :=
  spread.directives.any fun directive => directive.name == name

/-- Whether the fields of the fragment are hidden, by the setting and what the spread says. -/
def isMasked (spread : Spread) : FragmentMasking → Bool
  | .enable => !spread.hasDirective Directive.maskDisable
  | .disable => spread.hasDirective Directive.maskEnable

/-- The directives of the inline fragment that stands for the spread. -/
def inlinedDirectives (spread : Spread) (masking : FragmentMasking) : List Directive :=
  (spread.directives.filter fun directive =>
      directive.name != Directive.maskEnable && directive.name != Directive.maskDisable) ++
    [Directive.inlined spread.position spread.name (spread.isMasked masking)]

/-- The head of the inline fragment that stands for the spread. -/
def inlinedHead (spread : Spread) (masking : FragmentMasking) (fragment : Fragment) : InlineFragment :=
  ⟨spread.position, some fragment.condition, spread.inlinedDirectives masking,
    fragment.selections.opening⟩

end Spread

namespace Inlining

/-- Whether a spread is replaced: its fragment is registered and not being expanded. -/
def replaces (registry : FragmentRegistry) (stack : List String) (spread : Spread) : Bool :=
  registry.contains spread.name && !stack.contains spread.name

/-- The selection that stands in the place of a spread. The stack names the fragments that are
being expanded. -/
def expandSpread (registry : FragmentRegistry) (masking : FragmentMasking) (stack : List String)
    (spread : Spread) : Selection :=
  match found : registry.find? spread.name with
  | none => .spread spread
  | some fragment =>
      if fresh : spread.name ∉ stack then
        have _smaller := NameMap.outside_cons_lt registry found fresh
        .inline (spread.inlinedHead masking fragment)
          (mapSpreads (fun inner => expandSpread registry masking (spread.name :: stack) inner)
            fragment.selections.items)
      else .spread spread
termination_by registry.outside stack

def expand (registry : FragmentRegistry) (masking : FragmentMasking) (stack : List String)
    (selections : List Selection) : List Selection :=
  mapSpreads (expandSpread registry masking stack) selections

/-- The fragments that are being expanded at the start of a definition: the one it defines. -/
def initialStack : Definition → List String
  | .fragment declared => [declared.name]
  | _ => []

/-- A document with the spreads of its first definition expanded. -/
def expandDocument (registry : FragmentRegistry) (masking : FragmentMasking) :
    ExecutableDocument → ExecutableDocument
  | [] => []
  | definition :: rest =>
      definition.withItems
        (expand registry masking (initialStack definition) definition.selections.items) :: rest

/-- Whether a spread of the first definition is expanded. -/
def changes (registry : FragmentRegistry) : ExecutableDocument → Bool
  | [] => false
  | definition :: _ =>
      anySpread (replaces registry (initialStack definition)) definition.selections.items

end Inlining

/-! ## The mark -/

namespace InlineFragment

def readMark (found : Option String × Bool) (argument : Argument) : Option String × Bool :=
  match argument with
  | ("name", .string name) => (some name, found.2)
  | ("masked", .boolean masked) => (found.1, masked)
  | _ => found

/-- The fragment that the inline fragment stands for, and whether its fields are hidden. -/
def inlined? (fragment : InlineFragment) : Option (String × Bool) :=
  match fragment.directives.find? fun directive => directive.name == Directive.fragmentMark with
  | none => none
  | some mark =>
      match mark.arguments.foldl readMark (none, false) with
      | (some name, masked) => some (name, masked)
      | (none, _) => none

end InlineFragment

end GraphqlStore
