import ApiSurface.Proofs.Recast

/-! # Two loads of one surface

Surfaces that are built independently from one description differ only in their serial and, if the
description was read from another place, in their location. Nothing that is asked of a declaration depends
on these: `d.reloaded` is the counterpart of `d` in the other load. -/
namespace ApiSurface

/-- The surface as another load of the same description gives it. -/
def Surface.reloaded (s : Surface) (serial : Nat) (location : String) : Surface :=
  { s with serial, location }

def Decl.reloaded (d : Decl) (serial : Nat) (location : String) : Decl :=
  { d with surface := d.surface.reloaded serial location }

/-- To load once more is to replace serial and location and nothing else. -/
def Recast.reload (serial : Nat) (location : String) : Recast :=
  { serial := fun _ => serial, location := fun _ => location }

variable (serial : Nat) (location : String)

theorem Item.recast_reload (item : Item) : item.recast (.reload serial location) = item := by
  rcases item with ⟨_, _, _, _, _, payload⟩
  cases payload <;> rfl

theorem Surface.recast_reload (s : Surface) :
    s.recast (.reload serial location) = s.reloaded serial location := by
  have hitems : s.items.map (·.recast (.reload serial location)) = s.items := by
    simp only [Item.recast_reload, Array.map_id_fun']
    rfl
  exact congrArg (fun items => { s.reloaded serial location with items }) hitems

theorem Decl.recast_reload (d : Decl) : d.recast (.reload serial location) = d.reloaded serial location := by
  unfold Decl.recast
  rw [Surface.recast_reload, Item.recast_reload]
  rfl

namespace Surface

variable (s : Surface)

theorem decl?_reloaded (id : ItemId) :
    (s.reloaded serial location).decl? id = (s.decl? id).map (·.reloaded serial location) := by
  simpa only [recast_reload, Decl.recast_reload] using s.decl?_recast (.reload serial location) id

theorem decls_reloaded (ids : List ItemId) :
    (s.reloaded serial location).decls ids = (s.decls ids).map (·.reloaded serial location) := by
  simpa only [recast_reload, Decl.recast_reload] using s.decls_recast (.reload serial location) ids

theorem findPackage?_reloaded (name : String) : (s.reloaded serial location).findPackage? name =
    (s.findPackage? name).map (·.reloaded serial location) := by
  simpa only [recast_reload, Decl.recast_reload] using s.findPackage?_recast (.reload serial location) name

end Surface

namespace Decl

variable (d : Decl)

@[simp] theorem reloaded_id : (d.reloaded serial location).id = d.id := rfl
@[simp] theorem reloaded_name : (d.reloaded serial location).name = d.name := rfl
@[simp] theorem reloaded_modifiers : (d.reloaded serial location).modifiers = d.modifiers := rfl

theorem containingClass?_reloaded : (d.reloaded serial location).containingClass? =
    d.containingClass?.map (·.reloaded serial location) := by
  simpa only [recast_reload] using d.containingClass?_recast (.reload serial location)

theorem classes_reloaded : (d.reloaded serial location).classes =
    d.classes.map (·.reloaded serial location) := by
  simpa only [recast_reload] using d.classes_recast (.reload serial location)

theorem parameters_reloaded : (d.reloaded serial location).parameters =
    d.parameters.map (·.reloaded serial location) := by
  simpa only [recast_reload] using d.parameters_recast (.reload serial location)

@[simp] theorem parameterTypes_reloaded :
    (d.reloaded serial location).parameterTypes = d.parameterTypes := by
  simpa only [recast_reload] using d.parameterTypes_recast (.reload serial location)

@[simp] theorem typeScope_reloaded : (d.reloaded serial location).typeScope = d.typeScope := by
  simpa only [recast_reload] using d.typeScope_recast (.reload serial location)

@[simp] theorem signatureMatches_reloaded_right (e : Decl) :
    e.signatureMatches (d.reloaded serial location) = e.signatureMatches d := by
  simpa only [recast_reload] using d.signatureMatches_recast_right (.reload serial location) e

end Decl

theorem Filter.published_reloaded (d : Decl) :
    Filter.published (d.reloaded serial location) = Filter.published d := by
  simpa only [Decl.recast_reload] using Filter.published_recast (.reload serial location) d

namespace Surface

variable (s : Surface)

theorem withInheritedCopies_reloaded : (s.reloaded serial location).withInheritedCopies =
    s.withInheritedCopies.reloaded serial location := by
  simpa only [recast_reload] using s.withInheritedCopies_recast (.reload serial location)

theorem withOverrides_reloaded : (s.reloaded serial location).withOverrides =
    s.withOverrides.reloaded serial location := by
  simpa only [recast_reload] using s.withOverrides_recast (.reload serial location)

end Surface

end ApiSurface
