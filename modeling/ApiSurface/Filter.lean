import ApiSurface.Surface

/-!
Filters. A filter selects the declarations that take part in a comparison.
-/

namespace ApiSurface

/-- A test that a declaration passes or fails. -/
abbrev Filter := Decl → Bool

namespace Filter

/-- Accepts every declaration, hidden and private ones too. -/
def all : Filter := fun _ => true

/-- Accepts the published surface: what is protected or public together with all classes around it,
and neither hidden nor removed. A parameter is accepted with its method. -/
def published : Filter := fun d =>
  let subject := d.containingMethod?.getD d
  (subject.selfAndClasses.all fun a => a.modifiers.visibility.isAccessible) &&
    !subject.isEffectively .hidden && !subject.isEffectively .removed

/-- Accepts all but the declarations with one of the names. -/
def denying (names : List String) : Filter := fun d => !names.contains d.name

end Filter

end ApiSurface
