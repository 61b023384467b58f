import ApiSurface.Proofs.CounterpartOverrides
import ApiSurface.Proofs.DocumentOrder
import ApiSurface.Proofs.Reordering

/-! # Reordered documents give surfaces that mirror each other

A document and a reordered one declare the same paths. Inherited copies are added and overrides are
resolved in both alike, so the surfaces mirror each other in the end, provided that overloads are
unambiguous in them. -/
namespace ApiSurface

open Arena Surface

namespace Surface

variable {s s' : Surface}

/-- The surface with what its classes inherit and what its methods override. -/
def completed (s : Surface) : Surface := s.withInheritedCopies.withOverrides

/-- The surface is well formed, and nothing in it or in the surfaces that it becomes is mistaken for
something else. -/
structure Orderly (s : Surface) : Prop where
  wellFormed : s.WellFormed
  fieldsApart : s.FieldsApart
  overloadsApart : s.completed.OverloadsApart

namespace Orderly

theorem keeps (h : s.Orderly) : s.withInheritedCopies.Keeps s.completed :=
  withOverrides_keeps (withInheritedCopies_keeps h.wellFormed).right

theorem pathsApart (h : s.Orderly) : s.completed.PathsApart :=
  Surface.pathsApart h.keeps.right h.overloadsApart
    (h.fieldsApart.withInheritedCopies h.wellFormed).withOverrides

/-- Surfaces with the same paths mirror each other at the start and at the end. -/
theorem mirrors (h : s.Orderly) (h' : s'.Orderly) (hpartial : s'.isPartial = s.isPartial)
    (hpaths : ∀ path, s'.HasPath path ↔ s.HasPath path) :
    s.completed.Mirrors s'.completed ∧ s.completed.OverridesAlike s'.completed := by
  have hkeeps := withInheritedCopies_keeps h.wellFormed
  have hkeeps' := withInheritedCopies_keeps h'.wellFormed
  have hpaths₁ := h.keeps.pathsApart h.pathsApart
  have hpaths₁' := h'.keeps.pathsApart h'.pathsApart
  have hoverloads₁ := h.keeps.overloadsApart h.overloadsApart
  have hoverloads₁' := h'.keeps.overloadsApart h'.overloadsApart
  have hmirrors : s.Mirrors s' :=
    { left := h.wellFormed
      right := h'.wellFormed
      isPartial := hpartial
      hasPath := hpaths
      pathsApart := hkeeps.pathsApart hpaths₁
      pathsApart' := hkeeps'.pathsApart hpaths₁'
      fieldsApart := h.fieldsApart
      fieldsApart' := h'.fieldsApart }
  have hmirrors₁ := mirrors_withInheritedCopies
    (.single hmirrors (hkeeps.overloadsApart hoverloads₁) (hkeeps'.overloadsApart hoverloads₁'))
    hpaths₁ hpaths₁'
  exact ⟨mirrors_withOverrides hmirrors₁ h.pathsApart h'.pathsApart,
    overridesAlike_withOverrides (.single hmirrors₁ hoverloads₁ hoverloads₁')⟩

end Orderly

/-- Another load of a surface has the same paths. -/
theorem hasPath_reloaded (hs : s.WellFormed) (serial : Nat) (location : String) {path : List Trait} :
    (s.reloaded serial location).HasPath path ↔ s.HasPath path := by
  have hkeeps : s.Keeps (s.reloaded serial location) :=
    ⟨hs, hs, rfl, fun _ item hi => ⟨item, hi, rfl⟩⟩
  rw [hkeeps.hasPath_iff]
  refine or_iff_left ?_
  rintro ⟨d, hd, hle, _⟩
  have hlt : d.id.index < s.items.size := (Array.getElem?_eq_some_iff.mp hd.getElem?).1
  exact Nat.not_le_of_lt hlt hle

end Surface

theorem Draft.fieldKey?_canonicalItem (item : Item) :
    (canonicalItem item).fieldKey? = item.fieldKey? := by
  unfold canonicalItem Item.fieldKey?
  cases item.payload <;> rfl

namespace Snapshot

variable {snapshot snapshot' : Snapshot} {readFrom readFrom' : String} {s s' : Surface}

/-- A document that gives a surface gives a draft, which is finished then. -/
theorem exists_draft (h : snapshot.toSurface readFrom = .ok s) : ∃ d : Draft,
    (snapshot.emptyDraft readFrom).add (Addition.each Addition.packageSpec snapshot.packages) =
      (.ok ⟨⟩, d) ∧ s = d.toSurface.completed := by
  unfold toSurface at h
  split at h
  · next d heq =>
    cases h
    exact ⟨d, heq, rfl⟩
  · cases h

/-- The surface of a document, as it is before anything is inherited. -/
theorem exists_orderly (hnames : (snapshot.packages.map (·.name)).Nodup)
    (hfields : snapshot.DistinctFields) (h : snapshot.toSurface readFrom = .ok s) {serial : Nat}
    (ho : ({ s with serial } : Surface).OverloadsApart) :
    ∃ start : Surface, ({ s with serial } : Surface) = start.completed ∧ start.Orderly ∧
      start.isPartial = snapshot.isPartial ∧
      ∀ path, start.HasPath path ↔ snapshot.Describes path := by
  obtain ⟨d, hok, rfl⟩ := exists_draft h
  have hd := Draft.fieldsApart_of_distinctFields hfields hok
  have hwf := Draft.toSurface_wellFormed hd.wellFormed
  obtain ⟨hpartial, hpaths⟩ := Draft.toSurface_describes hnames hok
  have hsame : ({ d.toSurface.completed with serial } : Surface) =
      (d.toSurface.reloaded serial d.location).completed := by
    unfold completed
    rw [withInheritedCopies_reloaded, withOverrides_reloaded]
    rfl
  refine ⟨d.toSurface.reloaded serial d.location, hsame, ⟨hwf, ?_, hsame ▸ ho⟩, hpartial,
    fun path => ?_⟩
  · change (fieldKeys (d.items.map canonicalItem)).Nodup
    rw [fieldKeys_map _ Draft.fieldKey?_canonicalItem]
    exact hd.nodup
  · rw [hasPath_reloaded hwf, hpaths]

/-- The surfaces of a document and of a reordered one mirror each other. -/
theorem Reordered.mirrors (hr : snapshot.Reordered snapshot')
    (hnames : (snapshot.packages.map (·.name)).Nodup) (hfields : snapshot.DistinctFields)
    (hs : snapshot.toSurface readFrom = .ok s) (hs' : snapshot'.toSurface readFrom' = .ok s')
    {serial serial' : Nat} (ho : ({ s with serial } : Surface).OverloadsApart)
    (ho' : ({ s' with serial := serial' } : Surface).OverloadsApart) :
    ({ s with serial } : Surface).Mirrors { s' with serial := serial' } ∧
      ({ s with serial } : Surface).OverridesAlike { s' with serial := serial' } := by
  obtain ⟨start, heq, horderly, hpartial, hpaths⟩ := exists_orderly hnames hfields hs ho
  obtain ⟨start', heq', horderly', hpartial', hpaths'⟩ :=
    exists_orderly (hr.names_nodup hnames) (hr.distinctFields hfields) hs' ho'
  rw [heq, heq']
  refine horderly.mirrors horderly' ?_ fun path => ?_
  · rw [hpartial, hpartial', hr.1]
  · rw [hpaths, hpaths', hr.describes_iff]

end Snapshot

end ApiSurface
