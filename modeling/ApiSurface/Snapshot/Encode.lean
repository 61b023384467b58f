import ApiSurface.Snapshot.Decode

/-!
Writing parts of snapshot documents. Every field is written, also one that a reader could do without,
except for a missing statement on null.
-/

namespace ApiSurface

def Modifiers.toJson (m : Modifiers) : Json :=
  .record <|
    [("visibility", .text m.visibility.name)] ++
    Facet.all.map (fun facet => (facet.keyword, .bool (m.has facet))) ++
    (m.nullability.map fun statement => ("nullability", Json.text statement.name)).toList

def ItemFlags.toJson (flags : ItemFlags) : Json :=
  .record (Flag.all.map fun flag => (flag.name, .bool (flags.get flag)))

end ApiSurface
