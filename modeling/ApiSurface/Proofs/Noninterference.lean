import Mathlib.Logic.Equiv.Basic
import ApiSurface.Proofs.OrderIrrelevance
import ApiSurface.Proofs.RecastAdditions
import ApiSurface.Proofs.RecastChecks

/-! # Noninterference

Some of what a document says has no influence on a check: the facets `native`, `functional`, `operator`,
`infix` and `inline`, the flags for documentation, the properties of methods, the mark of enum constants,
and the location. Two documents that are equal but for these are variants of one another. Variants load
alike, and checks of variants record the same issues in the same order. -/
namespace ApiSurface

/-! ## Blanks -/

/-- To blank out whatever does not count, and to label surfaces anew. -/
def Recast.plain (serial : Nat → Nat) : Recast :=
  { serial
    location := fun _ => ""
    facet := fun _ => false
    docOnly := fun _ => false
    property := fun _ => none
    isEnumConstant := fun _ => false }

namespace Snapshot

def plain (snapshot : Snapshot) : Snapshot :=
  { isPartial := snapshot.isPartial, packages := snapshot.packages.map (·.recast (.plain id)) }

/-- The documents differ in nothing but the data that does not count. -/
def Variant (snapshot snapshot' : Snapshot) : Prop := snapshot.plain = snapshot'.plain

variable {snapshot snapshot' : Snapshot}

/-- A document without the data that does not count describes the surface without it, or has the same
fault. -/
theorem toSurface_plain (snapshot : Snapshot) (readFrom : String) :
    snapshot.plain.toSurface "" =
      (snapshot.toSurface readFrom).map fun s => s.recast (.plain fun _ => 0) := by
  have hdraft := Addition.each_recasts (.plain id) (Addition.packageSpec_recasts (.plain id))
    snapshot.packages (snapshot.emptyDraft readFrom)
  have hempty : (snapshot.emptyDraft readFrom).recast (.plain id) = snapshot.plain.emptyDraft "" := by
    simp only [emptyDraft, Draft.recast, plain, List.map_toArray]
    rfl
  rw [hempty] at hdraft
  have hfinish : ∀ d : Draft, (d.recast (.plain id)).finish = d.finish.recast (.plain fun _ => 0) := by
    intro d
    have hstart : (d.recast (.plain id)).toSurface = d.toSurface.recast (.plain fun _ => 0) :=
      d.toSurface_recast (.plain id)
    rw [Draft.finish, Draft.finish, hstart, Surface.withInheritedCopies_recast,
      Surface.withOverrides_recast]
  unfold toSurface
  rw [show snapshot.plain.packages = snapshot.packages.map (·.recast (.plain id)) from rfl, hdraft]
  rcases (snapshot.emptyDraft readFrom).add (Addition.each Addition.packageSpec snapshot.packages) with
    ⟨fault | u, d⟩
  · rfl
  · exact congrArg Except.ok (hfinish d)

namespace Variant

/-- A variant loads if the document does, and as the same surface but for what does not count. -/
theorem load (h : snapshot.Variant snapshot') {readFrom : String} {i : Nat} {s : Surface}
    (hs : snapshot.load readFrom i = .ok s) (readFrom' : String) (i' : Nat) :
    ∃ s', snapshot'.load readFrom' i' = .ok s' ∧
      ∀ serial : Nat → Nat, serial i' = i → s'.recast (.plain serial) = s.recast (.plain id) := by
  obtain ⟨loaded, hloaded, rfl⟩ := load_eq_ok.mp hs
  have hplain := snapshot.toSurface_plain readFrom
  rw [h, snapshot'.toSurface_plain readFrom', hloaded] at hplain
  cases hloaded' : snapshot'.toSurface readFrom' with
  | error fault => rw [hloaded'] at hplain; cases hplain
  | ok loaded' =>
    rw [hloaded'] at hplain
    refine ⟨{ loaded' with serial := i' }, load_eq_ok.mpr ⟨loaded', hloaded', rfl⟩, ?_⟩
    intro serial hserial
    have hsame := congrArg (fun s : Surface => { s with serial := i }) (Except.ok.inj hplain)
    have hlabel : ({ loaded' with serial := i' } : Surface).recast (.plain serial) =
        { loaded'.recast (.plain fun _ => 0) with serial := i } := by
      rw [← hserial]
      rfl
    exact hlabel.trans hsame

end Variant

end Snapshot

/-! ## Two checks -/

theorem Filter.Offered.blind {filter : Filter} (h : filter.Offered) : filter.Blind := by
  intro r d
  cases h with
  | all => rfl
  | published => exact Filter.published_recast r d
  | denying names =>
    unfold Filter.denying
    rw [Decl.recast_name]

/-- What a reader learns does not tell the recast surface from the other one. -/
theorem Finding.told_recast (finding : Finding) (r : Recast) : (finding.recast r).told = finding.told :=
  congrArg (fun subject => (⟨finding.kind, subject, finding.message⟩ : Telling))
    (Decl.recast_describe r finding.subject)

/-- Two labels can be replaced by two others without touching the rest. -/
theorem exists_relabelling {i j i' j' : Nat} (hij : i ≠ j) (hij' : i' ≠ j') :
    ∃ serial : Nat → Nat, Function.Injective serial ∧ serial i' = i ∧ serial j' = j ∧
      ∀ k ∉ [i, j, i', j'], serial k = k := by
  let first := Equiv.swap i' i
  let second := Equiv.swap (first j') j
  have hfirst : first i' = i := Equiv.swap_apply_left i' i
  have hne : i ≠ first j' := fun h => hij' (first.injective (hfirst.trans h))
  refine ⟨fun k => second (first k), second.injective.comp first.injective, ?_,
    Equiv.swap_apply_left (first j') j, fun k hk => ?_⟩
  · dsimp only
    rw [hfirst]
    exact Equiv.swap_apply_of_ne_of_ne hne hij
  · simp only [List.mem_cons, List.not_mem_nil, or_false, not_or] at hk
    obtain ⟨hi, hj, hi', hj'⟩ := hk
    have hk : first k = k := Equiv.swap_apply_of_ne_of_ne hi' hi
    have hm : k ≠ first j' := fun h => hj' (first.injective (hk.trans h))
    dsimp only
    rw [hk]
    exact Equiv.swap_apply_of_ne_of_ne hm hj

/-- Two checks of surfaces that are the same but for what does not count. -/
theorem check_of_recast_eq {s t s' t' : Surface} {serial : Nat → Nat}
    (hserial : Function.Injective serial) (hs : s'.recast (.plain serial) = s.recast (.plain id))
    (ht : t'.recast (.plain serial) = t.recast (.plain id)) (linking : Linking)
    (hothers : ∀ f ∈ linking.others, serial f.serial = f.serial) {filter : Filter} (hf : filter.Blind)
    (severities : SeverityTable) :
    let outcome := check (linking.oldView s t) (linking.newView s t) filter severities
    let outcome' := check (linking.oldView s' t') (linking.newView s' t') filter severities
    outcome'.issues = outcome.issues ∧ outcome'.foundProblems = outcome.foundProblems := by
  have hfallbacks : ∀ fallbacks : List Fallback,
      (∀ f, Fallback.other f ∈ fallbacks → f ∈ linking.others) →
      (fallbacks.map (·.of s' t')).map (·.recast (.plain serial)) =
        (fallbacks.map (·.of s t)).map (·.recast (.plain id)) := by
    intro fallbacks h
    rw [List.map_map, List.map_map]
    refine List.map_congr_left fun f hf => ?_
    cases f with
    | old => exact hs
    | new => exact ht
    | other f => exact congrArg (fun label => { f.recast (.plain id) with serial := label }) (hothers f (h f hf))
  have hother : ∀ f, Fallback.other f ∈ linking.oldFallbacks ++ linking.newFallbacks →
      f ∈ linking.others := fun f hf => List.mem_filterMap.mpr ⟨.other f, hf, rfl⟩
  have hold : (linking.oldView s' t').recast (.plain serial) = (linking.oldView s t).recast (.plain id) :=
    congrArg₂ View.mk hs (hfallbacks linking.oldFallbacks fun f hf => hother f (List.mem_append_left _ hf))
  have hnew : (linking.newView s' t').recast (.plain serial) = (linking.newView s t).recast (.plain id) :=
    congrArg₂ View.mk ht (hfallbacks linking.newFallbacks fun f hf => hother f (List.mem_append_right _ hf))
  let context : RuleContext := { oldView := linking.oldView s t, newView := linking.newView s t, filter }
  let context' : RuleContext :=
    { oldView := linking.oldView s' t', newView := linking.newView s' t', filter }
  have hcontext : context'.recast (.plain serial) = context.recast (.plain id) :=
    congrArg₂ (fun oldView newView => ({ oldView, newView, filter } : RuleContext)) hold hnew
  have htold : ∀ (context : RuleContext) (serial : Nat → Nat), context.filter.Blind →
      Function.Injective serial →
      (context.recast (.plain serial)).allFindings.map Finding.told = context.allFindings.map Finding.told := by
    intro context serial hf hserial
    rw [RuleContext.allFindings_recast hf hserial, List.map_map]
    exact List.map_congr_left fun finding _ => finding.told_recast _
  refine check_congr severities ?_
  rw [← htold context' serial hf hserial, hcontext, htold context id hf Function.injective_id]

/-- Data that does not count does not interfere. Variants of documents load if the documents do, and
checks of the variants give the same issues in the same order and fail iff the other ones do, whatever
further surfaces the views ask. -/
theorem check_variants {old old' new new' : Snapshot} (hold : old.Variant old') (hnew : new.Variant new')
    {oldFrom newFrom : String} {i j : Nat} {s t : Surface} (hs : old.load oldFrom i = .ok s)
    (ht : new.load newFrom j = .ok t) (hij : i ≠ j) (oldFrom' newFrom' : String) {i' j' : Nat}
    (hij' : i' ≠ j') :
    ∃ s' t', old'.load oldFrom' i' = .ok s' ∧ new'.load newFrom' j' = .ok t' ∧
      ∀ linking : Linking, (∀ f ∈ linking.others, f.serial ∉ [i, j, i', j']) →
        ∀ filter : Filter, filter.Offered → ∀ severities : SeverityTable,
          let outcome := check (linking.oldView s t) (linking.newView s t) filter severities
          let outcome' := check (linking.oldView s' t') (linking.newView s' t') filter severities
          outcome'.issues = outcome.issues ∧ outcome'.foundProblems = outcome.foundProblems := by
  obtain ⟨s', hs', hplain⟩ := hold.load hs oldFrom' i'
  obtain ⟨t', ht', hplain'⟩ := hnew.load ht newFrom' j'
  obtain ⟨serial, hinjective, hi, hj, hrest⟩ := exists_relabelling hij hij'
  refine ⟨s', t', hs', ht', fun linking hothers filter hfilter severities => ?_⟩
  exact check_of_recast_eq hinjective (hplain serial hi) (hplain' serial hj) linking
    (fun f hf => hrest _ (hothers f hf)) hfilter.blind severities

/-- A document that says of everything that does not count whether it is so. -/
def Snapshot.marked (mark : Bool) (property location : Option String) (methods : List String) : Snapshot :=
  let modifiers : Modifiers :=
    { visibility := .publicAccess
      isNative := mark
      isFunctional := mark
      isOperator := mark
      isInfix := mark
      isInline := mark }
  let method (name : String) : MethodSpec :=
    { name, modifiers, property, flags := { docOnly := mark }, parameters := [{ modifiers }] }
  { location
    packages := [
      { name := "p", flags := { docOnly := mark }, classes := [
          { name := "p.Hidden", flags := { hidden := true, docOnly := mark }, methods := [method "copied"] },
          { name := "p.C", modifiers, flags := { docOnly := mark }, superclass := some ⟨"p.Hidden"⟩
            methods := methods.map method
            fields := [{ name := "f", modifiers, isEnumConstant := mark }] }] }] }

theorem check_variants_marked :
    let old := Snapshot.marked false none none ["copied", "m"]
    let old' := Snapshot.marked true (some "q") (some "elsewhere") ["copied", "m"]
    let new := Snapshot.marked true none (some "here") ["n"]
    let new' := Snapshot.marked false (some "q") none ["n"]
    let s := old.recipe.build 1 "old"
    let t := new.recipe.build 2 "here"
    let s' := old'.recipe.build 2 "elsewhere"
    let t' := new'.recipe.build 3 "new"
    let outcome := check (s.alone.extend [t]) t.alone .published .standard
    let outcome' := check (s'.alone.extend [t']) t'.alone .published .standard
    old.Variant old' ∧ new.Variant new' ∧
      outcome'.issues = outcome.issues ∧ outcome'.foundProblems = outcome.foundProblems := by
  intro old old' new new' s t s' t' outcome outcome'
  have hold : old.Variant old' := rfl
  have hnew : new.Variant new' := rfl
  have hs : old.load "old" 1 = .ok s := Snapshot.load_of_isOk (by decide +kernel)
  have ht : new.load "new" 2 = .ok t := Snapshot.load_of_isOk (by decide +kernel)
  obtain ⟨u, v, hu, hv, h⟩ := check_variants hold hnew hs ht (by decide) "old" "new" (by decide : 2 ≠ 3)
  have hu' : u = s' := Snapshot.load_eq_build hu
  have hv' : v = t' := Snapshot.load_eq_build hv
  subst hu' hv'
  -- The old view asks the new surface too.
  exact ⟨hold, hnew, h ⟨[.new], []⟩ (fun f hf => by cases hf) .published .published .standard⟩

end ApiSurface
