import ApiSurface.Snapshot
import ApiSurface.Proofs.Labels
import ApiSurface.Proofs.Reload

/-! # Construction of surfaces

A surface is made by calls of a builder, each of which may fail, by finishing the draft, and by changes
of own flags afterwards: its recipe. A snapshot document is a recipe as well. No step looks at where the
surface comes from, so what one recipe builds at two places differs in the serial and the location
only. -/
namespace ApiSurface

variable {α β : Type}

/-- One call of a builder. -/
inductive BuildCall where
  | package (name : String) (flags : ItemFlags) (isStub : Bool)
  | packageSpec (spec : PackageSpec)
  | topLevelClass (package : ItemId) (spec : ClassSpec)
  | nestedClass (outer : ItemId) (spec : ClassSpec)
  | constructor (owner : ItemId) (spec : MethodSpec)
  | method (owner : ItemId) (spec : MethodSpec)
  | field (owner : ItemId) (spec : FieldSpec)

def BuildCall.addition : BuildCall → Addition ItemId
  | .package name flags isStub => Addition.package name flags isStub
  | .packageSpec spec => Addition.packageSpec spec
  | .topLevelClass id spec => Addition.topLevelClass id spec
  | .nestedClass outer spec => Addition.nestedClass outer spec
  | .constructor owner spec => Addition.constructor owner spec
  | .method owner spec => Addition.method owner spec
  | .field owner spec => Addition.field owner spec

structure FlagChange where
  id : ItemId
  flag : Flag
  value : Bool

/-- The surface after a change, or as it was if there is no such item. -/
def Surface.change (s : Surface) (change : FlagChange) : Surface :=
  match s.setFlag change.id change.flag change.value with
  | .ok s' => s'
  | .error _ => s

/-- How a surface is made. -/
structure Recipe where
  isPartial : Bool := false
  calls : List BuildCall
  changes : List FlagChange := []

namespace Recipe

variable (r : Recipe)

/-- The draft after all calls, also after those that failed. -/
def draft (location : String) : Draft :=
  r.calls.foldl (fun d call => (d.add call.addition).2) { location, isPartial := r.isPartial }

def build (serial : Nat) (location : String) : Surface :=
  r.changes.foldl Surface.change { (r.draft location).finish with serial }

end Recipe

/-- The surface has been made by a recipe. -/
def Surface.Built (s : Surface) : Prop :=
  ∃ (r : Recipe) (serial : Nat) (location : String), s = r.build serial location

/-- Two surfaces built independently from one source, which is a document or a recipe. -/
inductive SameOrigin : Surface → Surface → Prop where
  | document {text location location' : String} {s t : Surface} (serial serial' : Nat)
      (hs : Surface.parse text location = .ok s) (ht : Surface.parse text location' = .ok t) :
      SameOrigin { s with serial } { t with serial := serial' }
  | recipe (r : Recipe) (serial serial' : Nat) (location location' : String) :
      SameOrigin (r.build serial location) (r.build serial' location')

/-! ## What calls ask for -/

def Draft.relocated (d : Draft) (location : String) : Draft := { d with location }

theorem BuildCall.addition_overlooks (call : BuildCall) : Addition.Overlooks call.addition := by
  cases call with
  | package name flags isStub => exact Addition.package_overlooks name flags isStub
  | packageSpec spec => exact Addition.packageSpec_overlooks spec
  | topLevelClass id spec => exact Addition.topLevelClass_overlooks id spec
  | nestedClass outer spec => exact Addition.nestedClass_overlooks outer spec
  | constructor owner spec => exact Addition.constructor_overlooks owner spec
  | method owner spec => exact Addition.method_overlooks owner spec
  | field owner spec => exact Addition.field_overlooks owner spec

/-! ## One recipe at two places -/

namespace Surface

theorem toSurface_relocated (d : Draft) (location : String) :
    (d.relocated location).toSurface = d.toSurface.reloaded 0 location := rfl

theorem finish_relocated (d : Draft) (location : String) :
    (d.relocated location).finish = d.finish.reloaded 0 location := by
  unfold Draft.finish
  rw [toSurface_relocated, withInheritedCopies_reloaded, withOverrides_reloaded]

/-- A change of an item that is not there changes nothing, as a failed one does. -/
theorem change_eq (s : Surface) (change : FlagChange) : s.change change =
    { s with items := s.items.modify change.id.index fun item =>
        { item with flags := item.flags.set change.flag change.value } } := by
  unfold Surface.change setFlag
  by_cases h : change.id.index < s.items.size
  · rw [if_pos h]
  · have hm (f : Item → Item) : s.items.modify change.id.index f = s.items := by
      apply Array.ext_getElem?
      intro i
      rw [Array.getElem?_modify]
      split
      · next hi => subst hi; rw [Array.getElem?_eq_none (by omega)]; rfl
      · rfl
    rw [if_neg h, hm]

theorem change_reloaded (s : Surface) (change : FlagChange) (serial : Nat) (location : String) :
    (s.reloaded serial location).change change = (s.change change).reloaded serial location := by
  rw [change_eq, change_eq]
  rfl

end Surface

namespace Recipe

variable (r : Recipe)

/-- Recipes of the same calls make drafts that are the same but for their labels. -/
theorem draft_labelled {r' : Recipe} (hcalls : r'.calls = r.calls) (location location' : String) :
    r'.draft location' = (r.draft location).labelled location' r'.isPartial := by
  have h : ∀ (calls : List BuildCall) (d : Draft),
      calls.foldl (fun d call => (d.add call.addition).2) (d.labelled location' r'.isPartial) =
        (calls.foldl (fun d call => (d.add call.addition).2) d).labelled location' r'.isPartial := by
    intro calls
    induction calls with
    | nil => intro d; rfl
    | cons call rest ih =>
      intro d
      rw [List.foldl_cons, List.foldl_cons, call.addition_overlooks d location' r'.isPartial, ih]
  unfold draft
  rw [hcalls]
  exact h r.calls { location, isPartial := r.isPartial }

theorem isPartial_draft (location : String) : (r.draft location).isPartial = r.isPartial :=
  congrArg Draft.isPartial (r.draft_labelled rfl location location)

theorem draft_relocated (location location' : String) :
    r.draft location' = (r.draft location).relocated location' := by
  rw [r.draft_labelled rfl location location', ← r.isPartial_draft location]
  rfl

theorem build_reloaded (serial serial' : Nat) (location location' : String) :
    r.build serial' location' = (r.build serial location).reloaded serial' location' := by
  have h : ∀ (changes : List FlagChange) (s : Surface),
      changes.foldl Surface.change (s.reloaded serial' location') =
        (changes.foldl Surface.change s).reloaded serial' location' := by
    intro changes
    induction changes with
    | nil => intro s; rfl
    | cons change rest ih =>
      intro s
      rw [List.foldl_cons, List.foldl_cons, Surface.change_reloaded, ih]
  unfold build
  rw [r.draft_relocated location location', Surface.finish_relocated]
  exact h r.changes { (r.draft location).finish with serial }

theorem build_location (serial : Nat) (location : String) :
    (r.build serial location).location = location :=
  congrArg Surface.location (r.build_reloaded serial serial location location)

theorem build_with_serial (serial serial' : Nat) (location : String) :
    { r.build serial location with serial := serial' } = r.build serial' location := by
  have hl := r.build_location serial location
  rw [r.build_reloaded serial serial' location location]
  generalize r.build serial location = s at hl
  subst hl
  rfl

end Recipe

/-! ## Documents are recipes -/

namespace Snapshot

def recipe (snapshot : Snapshot) : Recipe :=
  { isPartial := snapshot.isPartial, calls := snapshot.packages.map .packageSpec }

theorem each_packageSpec {d d' : Draft} {specs : List PackageSpec}
    (h : d.add (Addition.each Addition.packageSpec specs) = (.ok ⟨⟩, d')) :
    (specs.map BuildCall.packageSpec).foldl (fun d call => (d.add call.addition).2) d = d' := by
  induction specs generalizing d with
  | nil => exact (Prod.mk.inj h).2
  | cons spec rest ih =>
    rw [Addition.each] at h
    rcases hr : d.add (Addition.packageSpec spec) with ⟨fault | id, d₁⟩
    · rw [Draft.add_bind_error hr] at h
      cases h
    · rw [Draft.add_bind_ok hr] at h
      rw [List.map_cons, List.foldl_cons, BuildCall.addition, hr]
      exact ih h

theorem toSurface_eq_build {snapshot : Snapshot} {readFrom : String} {s : Surface}
    (h : snapshot.toSurface readFrom = .ok s) :
    s = snapshot.recipe.build 0 (snapshot.location.getD readFrom) := by
  unfold toSurface at h
  split at h
  next u d hd =>
    have hs : d.finish = s := Except.ok.inj h
    have hdraft : snapshot.recipe.draft (snapshot.location.getD readFrom) = d :=
      each_packageSpec hd
    unfold Recipe.build
    rw [hdraft, ← hs]
    rfl
  next => cases h

end Snapshot

/-- The surface that a text describes is made by a recipe that the text alone determines. -/
theorem Surface.parse_eq_build {text readFrom : String} {s : Surface}
    (h : Surface.parse text readFrom = .ok s) : ∃ snapshot : Snapshot,
      (Json.parse? text).bind (Snapshot.decode Json.depthLimit) = some snapshot ∧
        s = snapshot.recipe.build 0 (snapshot.location.getD readFrom) := by
  unfold Surface.parse at h
  cases hp : Json.parse? text with
  | none => rw [hp] at h; cases h
  | some document =>
    rw [hp] at h
    simp only [Surface.ofJson] at h
    cases hd : Snapshot.decode Json.depthLimit document with
    | none => rw [hd] at h; cases h
    | some snapshot =>
      rw [hd] at h
      refine ⟨snapshot, hd, ?_⟩
      cases hs : snapshot.toSurface readFrom with
      | error fault => simp only [hs] at h; cases h
      | ok s' =>
        simp only [hs] at h
        cases h
        exact Snapshot.toSurface_eq_build hs

namespace SameOrigin

/-- Of two surfaces of the same origin the second is the first one loaded once more. -/
theorem exists_build {s t : Surface} (h : SameOrigin s t) :
    ∃ (r : Recipe) (serial serial' : Nat) (location location' : String),
      s = r.build serial location ∧ t = r.build serial' location' := by
  cases h with
  | @document text location location' s t serial serial' hs ht =>
    obtain ⟨snapshot, hd, rfl⟩ := Surface.parse_eq_build hs
    obtain ⟨snapshot', hd', rfl⟩ := Surface.parse_eq_build ht
    rw [hd] at hd'
    cases hd'
    exact ⟨snapshot.recipe, serial, serial', snapshot.location.getD location,
      snapshot.location.getD location', snapshot.recipe.build_with_serial 0 serial _,
      snapshot.recipe.build_with_serial 0 serial' _⟩
  | recipe r serial serial' location location' =>
    exact ⟨r, serial, serial', location, location', rfl, rfl⟩

theorem built {s t : Surface} (h : SameOrigin s t) : s.Built := by
  obtain ⟨r, serial, serial', location, location', hs, ht⟩ := h.exists_build
  exact ⟨r, serial, location, hs⟩

theorem eq_reloaded {s t : Surface} (h : SameOrigin s t) :
    ∃ (serial : Nat) (location : String), t = s.reloaded serial location := by
  obtain ⟨r, serial, serial', location, location', hs, ht⟩ := h.exists_build
  refine ⟨serial', location', ?_⟩
  rw [hs, ht]
  exact r.build_reloaded serial serial' location location'

end SameOrigin

end ApiSurface
