import ApiSurface.Issue
import ApiSurface.Describe
import ApiSurface.View
import ApiSurface.Filter

/-!
Findings: what the rules say before anyone asks how severe it is. A finding names the declaration that
it is about; an issue keeps only the description of it.
-/

namespace ApiSurface

structure Finding where
  kind : IssueKind
  subject : Decl
  message : String

/-- What the rules may consult: both surfaces with their fallbacks, and the filter that selects the
declarations that count. -/
structure RuleContext where
  oldView : View
  newView : View
  filter : Filter

/-- One finding if the condition holds, and none otherwise. -/
@[macro_inline]
def raiseIf (condition : Bool) (kind : IssueKind) (subject : Decl) (message : String) :
    List Finding :=
  if condition then [{ kind, subject, message }] else []

end ApiSurface
