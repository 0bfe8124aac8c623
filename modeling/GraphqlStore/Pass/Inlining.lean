import GraphqlStore.Fragment.Inlining
import GraphqlStore.Pass.Basic

/-!
The pass that replaces spreads by inline fragments. Spreads that stay have
been reported before.
-/

set_option autoImplicit false

namespace GraphqlStore

namespace Inlining

def step (context : PassContext) (document : Document) : Document × List Diagnostic :=
  (document.revise
    (expandDocument context.registry context.config.fragmentMasking document.working)
    (changes context.registry document.working), [])

end Inlining

/-- Spreads are replaced by the bodies of their fragments. -/
def Pass.fragmentInlining : Pass := .revising "fragment_inlining" Inlining.step

end GraphqlStore
