import ApiSurface.Draft
import ApiSurface.Draft.Inheritance
import ApiSurface.Draft.Overrides

/-!
Finishing a draft. Once every class is there, interfaces and exceptions are put into canonical order,
classes list the members that hidden superclasses leave to them, and overrides are resolved.
-/

namespace ApiSurface.Draft

/-- The items of the draft as a surface, nothing resolved yet. -/
def toSurface (d : Draft) : Surface :=
  { location := d.location
    isPartial := d.isPartial
    items := d.items.map Surface.canonicalItem
    packages := d.packages
    classes := d.classes }

def finish (d : Draft) : Surface := d.toSurface.withInheritedCopies.withOverrides

end ApiSurface.Draft
