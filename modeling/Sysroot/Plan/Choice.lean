import Sysroot.Plan.Configured
import Sysroot.Plan.Native

/-!
# The plan of a library

The catalog entry decides which plan a library gets, and which of its headers can be
provided without building it.
-/

namespace Sysroot.Site

/-- The invocations of a recipe; a library whose headers are all of it needs none. -/
def recipeInvocations (s : Site) (t : Tree) (e : Catalog.Entry) :
    Except Fault (List Invocation) :=
  match e.recipe with
  | some .sources => s.sourcesRecipe t e
  | some .makefile => s.makefileRecipe t e
  | some .configureScript => s.scriptRecipe t e
  | some .headers => .ok []
  | none => fail (.noRecipe e.library)

/-- The plan of a library with a build of its own: what its last invocation puts out is what
must be staged. -/
def nativePlan (s : Site) (t : Tree) (e : Catalog.Entry) : Except Fault Plan := do
  let invocations ← s.recipeInvocations t e
  let headers ← s.copiedHeaders t e
  return {
    library := e.library
    invocations := invocations
    scratchDir := s.scratchDir e.library
    stageDir := s.stageDir e.library
    staged := (invocations.getLast?.map Invocation.outputs).getD []
    headers := headers }

/-- The plan that builds a library. -/
def plan (s : Site) (t : Tree) (l : Library) : Except Fault Plan := do
  let e ← s.entry l
  s.checkPrerequisites t e
  match e.kind with
  | .native => s.nativePlan t e
  | .configured => s.configuredPlan t e

/-- The plan that provides the headers of a library without building it. -/
def headerPlan (s : Site) (t : Tree) (l : Library) : Except Fault HeaderPlan := do
  let e ← s.entry l
  match e.publicHeaders, e.kind, e.recipe with
  | some directory, _, _ => s.readyHeaders t e directory
  | none, .native, some .makefile => s.makefileHeaders t e
  | none, .native, _ => fail (.headersNeedBuild e.library)
  | none, .configured, _ => fail (.noHeadersDeclared e.library)

end Sysroot.Site
