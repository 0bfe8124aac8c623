import GraphqlStore.Document.Printer

/-!
The text of a document that is sent to a server: it lacks the directives that
only the compiler reads.
-/

set_option autoImplicit false

namespace GraphqlStore

namespace Directive

/-- Marks an inline fragment that stands for a spread. -/
def fragmentMark : String := "__fragment"

/-- Directives that only the compiler reads. -/
def internal : List String :=
  ["paginate", "cache", "list", "mask_enable", "mask_disable", fragmentMark]

def isInternal (directive : Directive) : Bool := internal.contains directive.name

def external (directives : List Directive) : List Directive :=
  directives.filter fun directive => !directive.isInternal

end Directive

mutual
def Selection.external : Selection → Selection
  | .field head items =>
      .field { head with directives := Directive.external head.directives } (externalSelections items)
  | .spread head => .spread { head with directives := Directive.external head.directives }
  | .inline head items =>
      .inline { head with directives := Directive.external head.directives } (externalSelections items)

def externalSelections : List Selection → List Selection
  | [] => []
  | selection :: rest => selection.external :: externalSelections rest
end

def SelectionSet.external (selections : SelectionSet) : SelectionSet :=
  { selections with items := externalSelections selections.items }

def Definition.external : Definition → Definition
  | .shorthand written => .shorthand written.external
  | .operation declared =>
      .operation { declared with
        directives := Directive.external declared.directives
        selections := declared.selections.external }
  | .fragment declared =>
      .fragment { declared with
        directives := Directive.external declared.directives
        selections := declared.selections.external }

def ExecutableDocument.network (document : ExecutableDocument) : ExecutableDocument :=
  document.map Definition.external

def ExecutableDocument.networkText (document : ExecutableDocument) : String :=
  Printer.documentText (ExecutableDocument.network document)

end GraphqlStore
