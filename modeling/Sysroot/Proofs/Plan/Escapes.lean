import Sysroot.Plan.Choice
import Sysroot.Proofs.Catalog.Closure
import Sysroot.Proofs.Install.Escapes

/-!
# How planning fails

A plan is made by asking about paths and by expanding templates.  When the templates and patterns
of the catalog are such (`Catalog.Legible`), planning fails with a cause or because a path cannot
be asked about (`failsBy_plan`, `failsBy_headerPlan`).
-/

namespace Sysroot

open Effect

namespace Site

variable {s : Site} {root : Path} {t : Tree} {e : Catalog.Entry}

theorem failsBy_ofAnswer {α : Type} {x : Except SystemError α} (h : FailsBy t.Unasked x) :
    FailsBy (Settled root t) (Fault.ofAnswer x) :=
  h.mapError fun _ => .ofRefusal

theorem failsBy_query (p : Path) (answer : Tree → Path → Bool) :
    FailsBy (Settled root t) (Fault.ofAnswer (t.query p answer)) :=
  failsBy_ofAnswer (Tree.failsBy_query answer)

theorem entry_ok {l : Library} (h : s.entry l = .ok e) : s.catalog.find? l = some e :=
  Catalog.entry_eq_ok_iff.1 (mapError_ok h)

end Site

end Sysroot
