import ApiSurface.Proofs.CounterpartPresence
import ApiSurface.Proofs.Loading
import ApiSurface.Proofs.Recording
import ApiSurface.Proofs.ReorderedSurfaces

/-! # Declaration order does not matter

Two documents and two reordered ones give two comparisons. They record the same issues in the same order,
provided that overloads are unambiguous, that the views are linked in the same way, and that the filter
treats namesakes alike. -/
namespace ApiSurface

open Arena Surface

/-! ## Views that are linked in the same way -/

/-- A surface that a view of a comparison may ask: one of the two that are compared, or another one. -/
inductive Fallback where
  | old
  | new
  | other (s : Surface)

namespace Fallback

def of (old new : Surface) : Fallback → Surface
  | .old => old
  | .new => new
  | .other s => s

/-- The surface, if it is none of the two that are compared. -/
def other? : Fallback → Option Surface
  | .other s => some s
  | _ => none

end Fallback

/-- The surfaces that the two views of a comparison ask, in order. -/
structure Linking where
  oldFallbacks : List Fallback
  newFallbacks : List Fallback

namespace Linking

variable (linking : Linking)

def oldView (old new : Surface) : View := old.alone.extend (linking.oldFallbacks.map (·.of old new))

def newView (old new : Surface) : View := new.alone.extend (linking.newFallbacks.map (·.of old new))

def others : List Surface := (linking.oldFallbacks ++ linking.newFallbacks).filterMap Fallback.other?

end Linking

/-- What two comparisons read in each other's place, if they compare `s` and `t`, or `s'` and `t'`. -/
def Linking.links (linking : Linking) (s s' t t' : Surface) : Links :=
  { reordered := [(s, s'), (t, t')], shared := linking.others }

theorem Linking.old_mem_links (linking : Linking) {s s' t t' : Surface} :
    (s, s') ∈ (linking.links s s' t t').reordered := List.mem_cons_self

theorem Linking.new_mem_links (linking : Linking) {s s' t t' : Surface} :
    (t, t') ∈ (linking.links s s' t t').reordered := List.mem_cons_of_mem _ List.mem_cons_self

/-- In either comparison the surfaces have been loaded separately, unless the same surface is read in two
places in both of them. -/
def Links.Separate (l : Links) : Prop :=
  ∀ s s' t t', l.Corresponds s s' → l.Corresponds t t' →
    s.serial = t.serial ∨ s'.serial = t'.serial → s = t ∧ s' = t'

/-- Surfaces with different serials have been loaded separately. -/
theorem Links.separate_of_nodup {l : Links}
    (h : (l.reordered.map (·.1.serial) ++ l.shared.map Surface.serial).Nodup)
    (h' : (l.reordered.map (·.2.serial) ++ l.shared.map Surface.serial).Nodup) : l.Separate := by
  let pairs : List (Surface × Surface) := l.reordered ++ l.shared.map fun f => (f, f)
  have hmem : ∀ s s', l.Corresponds s s' → (s, s') ∈ pairs := by
    intro s s' hs
    cases hs with
    | reordered h => exact List.mem_append_left _ h
    | shared h => exact List.mem_append_right _ (List.mem_map.mpr ⟨s, h, rfl⟩)
  have hfirst : (pairs.map fun pair => pair.1.serial).Nodup := by
    rw [List.map_append, List.map_map]
    exact h
  have hsecond : (pairs.map fun pair => pair.2.serial).Nodup := by
    rw [List.map_append, List.map_map]
    exact h'
  intro s s' t t' hs ht hserial
  refine Prod.mk.inj ?_
  rcases hserial with hserial | hserial
  · exact List.inj_on_of_nodup_map hfirst (hmem s s' hs) (hmem t t' ht) hserial
  · exact List.inj_on_of_nodup_map hsecond (hmem s s' hs) (hmem t t' ht) hserial

/-- The filters that accept all declarations, the published ones, or those without certain names. -/
inductive Filter.Offered : Filter → Prop where
  | all : Offered .all
  | published : Offered .published
  | denying (names : List String) : Offered (.denying names)

theorem Filter.Offered.steady {filter : Filter} (h : filter.Offered) : filter.Steady := by
  cases h with
  | all => exact steady_all
  | published => exact steady_published
  | denying names => exact steady_denying names

/-! ## Surfaces of reordered documents -/

namespace Snapshot

/-- The surface of a document, loaded as the one with this serial. -/
def load (snapshot : Snapshot) (readFrom : String) (serial : Nat) : Except Fault Surface :=
  (snapshot.toSurface readFrom).map fun s => { s with serial }

/-- The document names no package twice, and none of its classes names a field twice. -/
structure NamesApart (snapshot : Snapshot) : Prop where
  packages : (snapshot.packages.map (·.name)).Nodup
  fields : snapshot.DistinctFields

variable {snapshot snapshot' : Snapshot} {readFrom : String} {serial : Nat} {s : Surface}

theorem load_eq_ok : snapshot.load readFrom serial = .ok s ↔
    ∃ loaded, snapshot.toSurface readFrom = .ok loaded ∧ s = { loaded with serial } := by
  unfold load
  cases snapshot.toSurface readFrom with
  | error fault => exact iff_of_false (fun h => by cases h) fun ⟨_, h, _⟩ => by cases h
  | ok loaded =>
    constructor
    · intro h
      exact ⟨loaded, rfl, (Except.ok.inj h).symm⟩
    · rintro ⟨_, h, rfl⟩
      cases h
      rfl

/-- What is loaded is what the calls that the document stands for make. -/
theorem load_eq_build (h : snapshot.load readFrom serial = .ok s) :
    s = snapshot.recipe.build serial (snapshot.location.getD readFrom) := by
  obtain ⟨loaded, hloaded, rfl⟩ := load_eq_ok.mp h
  rw [toSurface_eq_build hloaded, Recipe.build_with_serial]

theorem load_of_isOk (h : (snapshot.load readFrom serial).isOk = true) : snapshot.load readFrom serial =
    .ok (snapshot.recipe.build serial (snapshot.location.getD readFrom)) := by
  cases hs : snapshot.load readFrom serial with
  | error fault => rw [hs] at h; cases h
  | ok s => rw [load_eq_build hs]

end Snapshot

/-- The surfaces have been loaded from a document and from a reordered one. -/
inductive LoadedReordered : Surface → Surface → Prop where
  | intro {snapshot snapshot' : Snapshot} {readFrom readFrom' : String} {serial serial' : Nat}
      {s s' : Surface} (reordered : snapshot.Reordered snapshot') (apart : snapshot.NamesApart)
      (load : snapshot.load readFrom serial = .ok s) (load' : snapshot'.load readFrom' serial' = .ok s') :
      LoadedReordered s s'

namespace LoadedReordered

variable {s s' : Surface}

theorem wellFormed (h : LoadedReordered s s') : s.WellFormed ∧ s'.WellFormed := by
  cases h with
  | intro _ _ load load' =>
    rw [Snapshot.load_eq_build load, Snapshot.load_eq_build load']
    exact ⟨Recipe.build_wellFormed _ _ _, Recipe.build_wellFormed _ _ _⟩

theorem mirrors (h : LoadedReordered s s') (ho : s.OverloadsApart) (ho' : s'.OverloadsApart) :
    s.Mirrors s' ∧ s.OverridesAlike s' := by
  cases h with
  | intro reordered apart load load' =>
    obtain ⟨loaded, hloaded, rfl⟩ := Snapshot.load_eq_ok.mp load
    obtain ⟨loaded', hloaded', rfl⟩ := Snapshot.load_eq_ok.mp load'
    exact reordered.mirrors apart.packages apart.fields hloaded hloaded' ho ho'

end LoadedReordered

/-! ## Two comparisons -/

section

variable {s s' t t' : Surface} (linking : Linking)

theorem Linking.sound (hs : LoadedReordered s s') (ht : LoadedReordered t t')
    (hu : Unambiguous [s, t, s', t']) (hothers : ∀ f ∈ linking.others, f.Built)
    (hseparate : (linking.links s s' t t').Separate) : (linking.links s s' t t').Sound := by
  obtain ⟨hws, hws'⟩ := hs.wellFormed
  obtain ⟨hwt, hwt'⟩ := ht.wellFormed
  have happart : ∀ {r : Surface}, r ∈ [s, t, s', t'] → r.WellFormed → r.OverloadsApart :=
    fun hr hwf _ hm => distinguishes_of_unambiguous hu hr hr hwf hm
  have hpair : ∀ pair ∈ (linking.links s s' t t').reordered, LoadedReordered pair.1 pair.2 ∧
      pair.1 ∈ [s, t, s', t'] ∧ pair.2 ∈ [s, t, s', t'] := by
    intro pair hp
    rcases List.mem_pair.mp hp with rfl | rfl
    · exact ⟨hs, by simp, by simp⟩
    · exact ⟨ht, by simp, by simp⟩
  exact
    { mirrors := fun pair hp => by
        obtain ⟨hload, hmem, hmem'⟩ := hpair pair hp
        exact (hload.mirrors (happart hmem hload.wellFormed.1) (happart hmem' hload.wellFormed.2)).1
      distinguishes := fun pair hp pair' hp' m hm =>
        distinguishes_of_unambiguous hu (hpair pair hp).2.1 (hpair pair' hp').2.1
          (hpair pair' hp').1.wellFormed.1 hm
      distinguishes' := fun pair hp pair' hp' m hm =>
        distinguishes_of_unambiguous hu (hpair pair hp).2.2 (hpair pair' hp').2.2
          (hpair pair' hp').1.wellFormed.2 hm
      wellFormed := fun f hf => (hothers f hf).wellFormed
      serial := hseparate }

/-- Fallbacks that are chosen alike correspond. -/
theorem Linking.views {r r' : Surface} (hr : (linking.links s s' t t').Corresponds r r')
    (fallbacks : List Fallback) (h : ∀ f, Fallback.other f ∈ fallbacks → f ∈ linking.others) :
    (linking.links s s' t t').Views (r.alone.extend (fallbacks.map (·.of s t)))
      (r'.alone.extend (fallbacks.map (·.of s' t'))) := by
  have hfallbacks : List.Forall₂ (linking.links s s' t t').Corresponds
      (fallbacks.map (·.of s t)) (fallbacks.map (·.of s' t')) := by
    rw [List.forall₂_map_left_iff, List.forall₂_map_right_iff]
    refine List.forall₂_same.mpr fun f hf => ?_
    cases f with
    | old => exact .reordered linking.old_mem_links
    | new => exact .reordered linking.new_mem_links
    | other f => exact .shared (h f hf)
  exact .cons hr hfallbacks

end

/-- What a check records depends on what its findings tell. -/
theorem check_congr {old new old' new' : View} {filter : Filter} (severities : SeverityTable)
    (h : ({ oldView := old', newView := new', filter } : RuleContext).allFindings.map Finding.told =
      ({ oldView := old, newView := new, filter } : RuleContext).allFindings.map Finding.told) :
    (check old' new' filter severities).issues = (check old new filter severities).issues ∧
      (check old' new' filter severities).foundProblems =
        (check old new filter severities).foundProblems := by
  have hissues : ∀ findings : List Finding,
      (findings.filter (Finding.isRecorded severities)).map (Finding.issue severities) =
        ((findings.map Finding.told).filter fun telling => severities telling.kind != .hidden).map
          fun telling => ⟨telling.kind, severities telling.kind, telling.subject, telling.message⟩ := by
    intro findings
    rw [List.filter_map, List.map_map]
    rfl
  have herror : ∀ findings : List Finding,
      (findings.any fun finding => severities finding.kind == .error) =
        (findings.map Finding.told).any fun telling => severities telling.kind == .error := by
    intro findings
    rw [List.any_map]
    rfl
  rw [check_issues, check_issues, check_foundProblems, check_foundProblems, RuleContext.reports,
    RuleContext.reports, hissues, hissues, herror, herror, h]
  exact ⟨rfl, rfl⟩

/-- Reordered documents lead to the same issues in the same order. -/
theorem check_of_loadedReordered {s s' t t' : Surface} (hs : LoadedReordered s s')
    (ht : LoadedReordered t t') (hu : Unambiguous [s, t, s', t']) (linking : Linking)
    (hothers : ∀ f ∈ linking.others, f.Built) (hseparate : (linking.links s s' t t').Separate)
    {filter : Filter} (hfilter : filter.Steady) (severities : SeverityTable) :
    let outcome := check (linking.oldView s t) (linking.newView s t) filter severities
    let outcome' := check (linking.oldView s' t') (linking.newView s' t') filter severities
    outcome'.issues = outcome.issues ∧ outcome'.foundProblems = outcome.foundProblems := by
  have hl := linking.sound hs ht hu hothers hseparate
  have hs₁ : (s, s') ∈ (linking.links s s' t t').reordered := linking.old_mem_links
  have ht₁ : (t, t') ∈ (linking.links s s' t t').reordered := linking.new_mem_links
  have hother : ∀ f, Fallback.other f ∈ linking.oldFallbacks ++ linking.newFallbacks →
      f ∈ linking.others := fun f hf => List.mem_filterMap.mpr ⟨.other f, hf, rfl⟩
  have hx : (linking.links s s' t t').Contexts
      { oldView := linking.oldView s t, newView := linking.newView s t, filter }
      { oldView := linking.oldView s' t', newView := linking.newView s' t', filter } :=
    { old := linking.views (.reordered hs₁) _ fun f hf => hother f (List.mem_append_left _ hf)
      new := linking.views (.reordered ht₁) _ fun f hf => hother f (List.mem_append_right _ hf)
      filter := rfl
      steady := hfilter }
  have ho : t.OverridesAlike t' :=
    (ht.mirrors (hl.distinguishes _ ht₁ _ ht₁) (hl.distinguishes' _ ht₁ _ ht₁)).2
  exact check_congr severities (RuleContext.map_told_allFindings hx hl hs₁ ht₁ ho)

/-- Declaration order does not matter. Reordered documents load if the documents do, and if overloads are
unambiguous in all four surfaces, the check of the reordered ones gives the same issues in the same order
and fails iff the other one does. -/
theorem check_reordered {old old' new new' : Snapshot} (hold : old.Reordered old')
    (hnew : new.Reordered new') (hnames : old.NamesApart) (hnames' : new.NamesApart)
    {oldFrom newFrom : String} {i j : Nat} {s t : Surface} (hs : old.load oldFrom i = .ok s)
    (ht : new.load newFrom j = .ok t) (oldFrom' newFrom' : String) (i' j' : Nat) :
    ∃ s' t', old'.load oldFrom' i' = .ok s' ∧ new'.load newFrom' j' = .ok t' ∧
      (Unambiguous [s, t, s', t'] → ∀ linking : Linking, (∀ f ∈ linking.others, f.Built) →
        (linking.links s s' t t').Separate → ∀ filter : Filter, filter.Offered →
        ∀ severities : SeverityTable,
          let outcome := check (linking.oldView s t) (linking.newView s t) filter severities
          let outcome' := check (linking.oldView s' t') (linking.newView s' t') filter severities
          outcome'.issues = outcome.issues ∧ outcome'.foundProblems = outcome.foundProblems) := by
  have hloads : ∀ {a a' : Snapshot} {readFrom : String} {serial : Nat} {s : Surface}, a.Reordered a' →
      a.load readFrom serial = .ok s → ∀ readFrom' serial', ∃ s', a'.load readFrom' serial' = .ok s' := by
    intro a a' readFrom serial s hr hload readFrom' serial'
    obtain ⟨loaded, hloaded, _⟩ := Snapshot.load_eq_ok.mp hload
    obtain ⟨loaded', hloaded'⟩ := hr.loads hloaded readFrom'
    exact ⟨_, Snapshot.load_eq_ok.mpr ⟨loaded', hloaded', rfl⟩⟩
  obtain ⟨s', hs'⟩ := hloads hold hs oldFrom' i'
  obtain ⟨t', ht'⟩ := hloads hnew ht newFrom' j'
  exact ⟨s', t', hs', ht', fun hu linking hothers hseparate filter hfilter severities =>
    check_of_loadedReordered (.intro hold hnames hs hs') (.intro hnew hnames' ht ht') hu linking hothers
      hseparate hfilter.steady severities⟩

/-! ## A document backwards -/

def MethodSpec.reversed (spec : MethodSpec) : MethodSpec := { spec with throws := spec.throws.reverse }

mutual
/-- The class with its interfaces, its members and the classes in it backwards. -/
def ClassSpec.reversed : ClassSpec → ClassSpec
  | ⟨name, kind, modifiers, flags, isStub, superclass, interfaces, typeParameters, constructors,
      methods, fields, nested⟩ =>
    ⟨name, kind, modifiers, flags, isStub, superclass, interfaces.reverse, typeParameters,
      (constructors.map MethodSpec.reversed).reverse, (methods.map MethodSpec.reversed).reverse,
      fields.reverse, (reversedEach nested).reverse⟩

def ClassSpec.reversedEach : List ClassSpec → List ClassSpec
  | [] => []
  | spec :: rest => spec.reversed :: reversedEach rest
end

def PackageSpec.reversed (spec : PackageSpec) : PackageSpec :=
  { spec with classes := (spec.classes.map ClassSpec.reversed).reverse }

def Snapshot.reversed (snapshot : Snapshot) : Snapshot :=
  { snapshot with packages := (snapshot.packages.map PackageSpec.reversed).reverse }

theorem shuffled_reverse {α : Type} {R : α → α → Prop} {f : α → α} (h : ∀ a, R a (f a)) (l : List α) :
    Shuffled R l (l.map f).reverse :=
  ⟨l.map f, List.forall₂_map_right_iff.mpr (List.forall₂_same.mpr fun a _ => h a),
    (List.reverse_perm _).symm⟩

theorem MethodSpec.reordered_reversed (spec : MethodSpec) : spec.Reordered spec.reversed :=
  ⟨rfl, (List.reverse_perm _).symm⟩

mutual
theorem ClassSpec.reordered_reversed : (spec : ClassSpec) → spec.Reordered spec.reversed
  | ⟨name, kind, modifiers, flags, isStub, superclass, interfaces, typeParameters, constructors,
      methods, fields, nested⟩ => by
    rw [ClassSpec.reversed]
    exact .intro rfl (List.reverse_perm _).symm (shuffled_reverse MethodSpec.reordered_reversed _)
      (shuffled_reverse MethodSpec.reordered_reversed _) (List.reverse_perm _).symm
      (ClassSpec.reordered_reversedEach nested) (List.reverse_perm _).symm

theorem ClassSpec.reordered_reversedEach : (specs : List ClassSpec) →
    List.Forall₂ ClassSpec.Reordered specs (ClassSpec.reversedEach specs)
  | [] => .nil
  | spec :: rest => .cons (ClassSpec.reordered_reversed spec) (ClassSpec.reordered_reversedEach rest)
end

/-- A document backwards is a reordered one. -/
theorem Snapshot.reordered_reversed (snapshot : Snapshot) : snapshot.Reordered snapshot.reversed :=
  ⟨rfl, shuffled_reverse (fun p => ⟨rfl, shuffled_reverse ClassSpec.reordered_reversed p.classes⟩) _⟩

/-- A library whose class inherits a copy, overloads a method and contains classes. -/
def Snapshot.library : Snapshot :=
  { packages := [
      { name := "p", classes := [
          { name := "p.Hidden", flags := { hidden := true }, methods := [.published "copied"] },
          { name := "p.C", modifiers := .ofVisibility .publicAccess, superclass := some ⟨"p.Hidden"⟩
            interfaces := [⟨"q.I"⟩, ⟨"q.J"⟩]
            methods := [
              { MethodSpec.published "m" with
                parameters := [{ type := ⟨"q.I"⟩ }], throws := [⟨"q.E"⟩, ⟨"q.F"⟩] },
              { MethodSpec.published "m" with parameters := [{ type := ⟨"int"⟩ }] },
              .published "dropped"]
            fields := [.published "x" ⟨"int"⟩, .published "y" ⟨"int"⟩]
            nested := [{ name := "p.C.N", modifiers := .ofVisibility .publicAccess },
              { name := "p.C.M", modifiers := .ofVisibility .publicAccess }] }] },
      { name := "q", classes := [
          { name := "q.I", kind := .interfaceType, modifiers := .ofVisibility .publicAccess },
          { name := "q.J", kind := .interfaceType, modifiers := .ofVisibility .publicAccess }] }] }

/-- The library after some changes. -/
def Snapshot.nextLibrary : Snapshot :=
  { packages := [
      { name := "p", classes := [
          { name := "p.Hidden", flags := { hidden := true }, methods := [.published "copied"] },
          { name := "p.C", modifiers := .ofVisibility .publicAccess, superclass := some ⟨"p.Hidden"⟩
            interfaces := [⟨"q.I"⟩]
            methods := [
              { MethodSpec.published "m" with
                parameters := [{ type := ⟨"q.I"⟩ }], throws := [⟨"q.F"⟩] },
              { MethodSpec.published "m" with parameters := [{ type := ⟨"int"⟩ }] },
              .published "added"]
            fields := [.published "x" ⟨"long"⟩, .published "y" ⟨"int"⟩]
            nested := [{ name := "p.C.N", modifiers := .ofVisibility .publicAccess }] }] },
      { name := "q", classes := [
          { name := "q.I", kind := .interfaceType, modifiers := .ofVisibility .publicAccess },
          { name := "q.J", kind := .interfaceType, modifiers := .ofVisibility .publicAccess }] }] }

theorem check_reordered_library :
    let s := Snapshot.library.recipe.build 1 "old"
    let t := Snapshot.nextLibrary.recipe.build 2 "new"
    let s' := Snapshot.library.reversed.recipe.build 3 "old"
    let t' := Snapshot.nextLibrary.reversed.recipe.build 4 "new"
    let outcome := check (s.alone.extend [t]) t.alone .published .standard
    let outcome' := check (s'.alone.extend [t']) t'.alone .published .standard
    Unambiguous [s, t, s', t'] ∧
      outcome'.issues = outcome.issues ∧ outcome'.foundProblems = outcome.foundProblems := by
  have hs : Snapshot.library.load "old" 1 = .ok (Snapshot.library.recipe.build 1 "old") :=
    Snapshot.load_of_isOk (by decide +kernel)
  have ht : Snapshot.nextLibrary.load "new" 2 = .ok (Snapshot.nextLibrary.recipe.build 2 "new") :=
    Snapshot.load_of_isOk (by decide +kernel)
  obtain ⟨s', t', hs', ht', h⟩ := check_reordered Snapshot.library.reordered_reversed
    Snapshot.nextLibrary.reordered_reversed ⟨by decide, by decide⟩ ⟨by decide, by decide⟩ hs ht
    "old" "new" 3 4
  rw [Snapshot.load_eq_build hs', Snapshot.load_eq_build ht'] at h
  have hunambiguous : Unambiguous [Snapshot.library.recipe.build 1 "old",
      Snapshot.nextLibrary.recipe.build 2 "new", Snapshot.library.reversed.recipe.build 3 "old",
      Snapshot.nextLibrary.reversed.recipe.build 4 "new"] := by decide +kernel
  -- The old view asks the new surface too.
  refine ⟨hunambiguous, h hunambiguous ⟨[.new], []⟩ (fun f hf => by cases hf) ?_ .published .published
    .standard⟩
  exact Links.separate_of_nodup (by decide +kernel) (by decide +kernel)

end ApiSurface
