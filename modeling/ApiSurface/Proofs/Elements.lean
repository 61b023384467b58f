import Mathlib.Data.List.Nodup
import ApiSurface.Snapshot

/-! # The elements of a document

A document is read as one list of elements: each package before its classes, each class before its
constructors, methods, fields and the classes in it. An element is at fault if it lacks the name that it
must have, or if it is a class whose name one before it takes. The document as a whole has what it must
have iff no element is at fault. -/
namespace ApiSurface

/-! ## What a document must have -/

/-- The class, its methods and fields and the classes in it have names. -/
inductive ClassSpec.Named : ClassSpec → Prop where
  | intro {spec : ClassSpec} (self : Text.isAllBlank spec.name = false)
      (methods : ∀ m ∈ spec.methods, Text.isAllBlank m.name = false)
      (fields : ∀ f ∈ spec.fields, Text.isAllBlank f.name = false)
      (inner : ∀ n ∈ spec.nested, Named n) : Named spec

mutual
def ClassSpec.takenNames : ClassSpec → List String
  | ⟨name, _, _, _, _, _, _, _, _, _, _, nested⟩ => Text.trimmed name :: takenNamesIn nested

def ClassSpec.takenNamesIn : List ClassSpec → List String
  | [] => []
  | spec :: rest => spec.takenNames ++ takenNamesIn rest
end

structure PackageSpec.Named (spec : PackageSpec) : Prop where
  self : Text.isAllBlank spec.name = false
  classes : ∀ c ∈ spec.classes, c.Named

def Snapshot.takenNames (snapshot : Snapshot) : List String :=
  snapshot.packages.flatMap fun p => ClassSpec.takenNamesIn p.classes

/-- Everything in the document that must have a name has one, and no two classes have the same. -/
structure Snapshot.Loadable (snapshot : Snapshot) : Prop where
  named : ∀ p ∈ snapshot.packages, p.Named
  distinct : snapshot.takenNames.Nodup

/-! ## Elements and their faults -/

/-- What a document declares besides parameters, with the name that the document gives. -/
inductive Element where
  | package (name : String)
  | ofClass (name : String)
  | constructor (name : String)
  | method (name : String)
  | field (name : String)
  deriving DecidableEq, Repr

namespace Element

/-- The element has the name that it must have. A constructor needs none. -/
def Named : Element → Prop
  | .package name | .ofClass name | .method name | .field name => Text.isAllBlank name = false
  | .constructor _ => True

def taken? : Element → Option String
  | .ofClass name => some (Text.trimmed name)
  | _ => none

def taken (elements : List Element) : List String := elements.filterMap taken?

/-- What is wrong with a name that must not be blank. -/
def nameFault? (sort reason name : String) : Option Fault :=
  if Text.isAllBlank name then some (.invalidName sort reason) else none

/-- What is wrong with an element that stands behind the `earlier` ones. -/
def fault? (earlier : List Element) : Element → Option Fault
  | .package name => nameFault? "package" "name is empty" name
  | .ofClass name =>
    (nameFault? "class" "qualified name is empty" name).or
      (if Text.trimmed name ∈ taken earlier then some (.duplicateClass (Text.trimmed name)) else none)
  | .constructor _ => none
  | .method name => nameFault? "method" "name is empty" name
  | .field name => nameFault? "field" "name is empty" name

/-- What is wrong with the first element that is at fault, when the elements stand behind the `earlier`
ones. -/
def firstFault? : (earlier elements : List Element) → Option Fault
  | _, [] => none
  | earlier, e :: rest => (e.fault? earlier).or (firstFault? (earlier ++ [e]) rest)

variable {earlier elements rest : List Element} {e : Element} {fault : Fault} {name : String}

theorem firstFault?_append : firstFault? earlier (elements ++ rest) =
    (firstFault? earlier elements).or (firstFault? (earlier ++ elements) rest) := by
  induction elements generalizing earlier with
  | nil => rw [List.nil_append, List.append_nil, firstFault?, Option.none_or]
  | cons e tail ih =>
    rw [List.cons_append, firstFault?, ih, firstFault?, Option.or_assoc, List.append_assoc,
      List.singleton_append]

theorem firstFault?_singleton : firstFault? earlier [e] = e.fault? earlier := Option.or_none

/-- There is a first fault iff an element is at fault and none before it is. -/
theorem firstFault?_eq_some_iff : firstFault? earlier elements = some fault ↔
    ∃ before e after, elements = before ++ e :: after ∧ firstFault? earlier before = none ∧
      e.fault? (earlier ++ before) = some fault := by
  induction elements generalizing earlier with
  | nil =>
    refine iff_of_false (by simp [firstFault?]) ?_
    rintro ⟨before, e, after, h, _⟩
    cases before <;> cases h
  | cons first rest ih =>
    constructor
    · intro h
      rw [firstFault?, Option.or_eq_some_iff] at h
      rcases h with h | ⟨hno, h⟩
      · exact ⟨[], first, rest, rfl, rfl, by rwa [List.append_nil]⟩
      · obtain ⟨before, e, after, rfl, hbefore, he⟩ := ih.mp h
        refine ⟨first :: before, e, after, rfl, ?_, ?_⟩
        · rw [firstFault?, hno, Option.none_or, hbefore]
        · rwa [List.append_assoc, List.singleton_append] at he
    · rintro ⟨before, e, after, heq, hbefore, he⟩
      rw [heq, firstFault?_append, hbefore, Option.none_or, firstFault?, he, Option.some_or]

theorem nameFault?_eq_none_iff {sort reason : String} :
    nameFault? sort reason name = none ↔ Text.isAllBlank name = false := by
  unfold nameFault?
  cases Text.isAllBlank name <;> simp

/-- An element is in order iff it has its name and takes none that is taken. -/
theorem fault?_eq_none_iff : e.fault? earlier = none ↔
    e.Named ∧ ∀ name, e.taken? = some name → name ∉ taken earlier := by
  cases e with
  | ofClass name =>
    simp only [fault?, Option.or_eq_none_iff, nameFault?_eq_none_iff, ite_eq_right_iff, reduceCtorEq,
      imp_false, Named, taken?, Option.some.injEq, forall_eq']
  | _ => simp only [fault?, nameFault?_eq_none_iff, Named, taken?, reduceCtorEq, false_imp_iff,
      implies_true, and_true]

/-- Elements are in order iff they have their names and take distinct ones that are not taken. -/
theorem firstFault?_eq_none_iff : firstFault? earlier elements = none ↔
    (∀ e ∈ elements, e.Named) ∧ (taken elements).Nodup ∧
      ∀ name ∈ taken elements, name ∉ taken earlier := by
  induction elements generalizing earlier with
  | nil => simp [firstFault?, taken]
  | cons first rest ih =>
    have htaken : taken (earlier ++ [first]) = taken earlier ++ first.taken?.toList := by
      unfold taken
      rw [List.filterMap_append, List.filterMap_cons]
      cases first.taken? <;> rfl
    have hcons : taken (first :: rest) = first.taken?.toList ++ taken rest := by
      unfold taken
      rw [List.filterMap_cons]
      cases first.taken? <;> rfl
    rw [firstFault?, Option.or_eq_none_iff, fault?_eq_none_iff, ih, htaken, hcons,
      List.forall_mem_cons]
    cases first.taken? with
    | none => simp [and_assoc]
    | some name =>
      simp only [Option.some.injEq, forall_eq', Option.toList_some, List.mem_append,
        List.mem_singleton, not_or, List.singleton_append, List.nodup_cons, List.forall_mem_cons]
      constructor
      · rintro ⟨⟨hself, hfree⟩, hrest, hnodup, hfrees⟩
        exact ⟨⟨hself, hrest⟩, ⟨fun hm => (hfrees name hm).2 rfl, hnodup⟩, hfree,
          fun other hm => (hfrees other hm).1⟩
      · rintro ⟨⟨hself, hrest⟩, ⟨hno, hnodup⟩, hfree, hfrees⟩
        exact ⟨⟨hself, hfree⟩, hrest, hnodup, fun other hm => ⟨hfrees other hm, fun he => hno (he ▸ hm)⟩⟩

end Element

/-! ## The elements of a document -/

mutual
/-- The class, then its constructors, methods and fields, then the classes in it. -/
def ClassSpec.elements : ClassSpec → List Element
  | ⟨name, _, _, _, _, _, _, _, constructors, methods, fields, nested⟩ =>
    .ofClass name :: (constructors.map (fun m => .constructor m.name) ++
      (methods.map (fun m => .method m.name) ++
        (fields.map (fun f => .field f.name) ++ elementsIn nested)))

def ClassSpec.elementsIn : List ClassSpec → List Element
  | [] => []
  | spec :: rest => spec.elements ++ elementsIn rest
end

theorem ClassSpec.flatMap_elements (specs : List ClassSpec) :
    specs.flatMap elements = elementsIn specs := by
  induction specs with
  | nil => rw [elementsIn, List.flatMap_nil]
  | cons spec rest ih => rw [List.flatMap_cons, ih, elementsIn]

def PackageSpec.elements (spec : PackageSpec) : List Element :=
  .package spec.name :: ClassSpec.elementsIn spec.classes

def Snapshot.elements (snapshot : Snapshot) : List Element :=
  snapshot.packages.flatMap PackageSpec.elements

open Element

theorem Element.taken_append (elements rest : List Element) :
    taken (elements ++ rest) = taken elements ++ taken rest := List.filterMap_append

theorem Element.taken_map_of_none {α : Type} {f : α → Element} (hf : ∀ x, (f x).taken? = none)
    (specs : List α) : taken (specs.map f) = [] := by
  unfold taken
  rw [List.filterMap_map, List.filterMap_eq_nil_iff]
  exact fun x _ => hf x

mutual
theorem ClassSpec.taken_elements : (spec : ClassSpec) → taken spec.elements = spec.takenNames
  | ⟨name, _, _, _, _, _, _, _, constructors, methods, fields, nested⟩ => by
    rw [elements, takenNames, ← taken_elementsIn nested]
    refine congrArg (Text.trimmed name :: ·)
      (?_ : taken (_ ++ (_ ++ (_ ++ elementsIn nested))) = taken (elementsIn nested))
    rw [taken_append, taken_append, taken_append, taken_map_of_none fun _ => rfl,
      taken_map_of_none fun _ => rfl, taken_map_of_none fun _ => rfl]
    rfl

theorem ClassSpec.taken_elementsIn : (specs : List ClassSpec) →
    taken (elementsIn specs) = takenNamesIn specs
  | [] => by rw [elementsIn, takenNamesIn]; rfl
  | spec :: rest => by
    rw [elementsIn, takenNamesIn, taken_append, taken_elements spec, taken_elementsIn rest]
end

theorem ClassSpec.named_iff {spec : ClassSpec} : spec.Named ↔ Text.isAllBlank spec.name = false ∧
    (∀ m ∈ spec.methods, Text.isAllBlank m.name = false) ∧
    (∀ f ∈ spec.fields, Text.isAllBlank f.name = false) ∧ ∀ n ∈ spec.nested, n.Named :=
  ⟨fun ⟨self, methods, fields, inner⟩ => ⟨self, methods, fields, inner⟩,
    fun ⟨self, methods, fields, inner⟩ => .intro self methods fields inner⟩

mutual
theorem ClassSpec.named_elements_iff : (spec : ClassSpec) →
    ((∀ e ∈ spec.elements, e.Named) ↔ spec.Named)
  | ⟨name, _, _, _, _, _, _, _, constructors, methods, fields, nested⟩ => by
    rw [elements, named_iff, ← named_elementsIn_iff nested]
    simp only [List.forall_mem_cons, List.forall_mem_append, List.forall_mem_map, Element.Named,
      implies_true, true_and]

theorem ClassSpec.named_elementsIn_iff : (specs : List ClassSpec) →
    ((∀ e ∈ elementsIn specs, e.Named) ↔ ∀ n ∈ specs, n.Named)
  | [] => by
    rw [elementsIn]
    simp
  | spec :: rest => by
    rw [elementsIn, List.forall_mem_append, List.forall_mem_cons, named_elements_iff spec,
      named_elementsIn_iff rest]
end

theorem PackageSpec.named_elements_iff (spec : PackageSpec) :
    (∀ e ∈ spec.elements, e.Named) ↔ spec.Named := by
  rw [elements, List.forall_mem_cons, ClassSpec.named_elementsIn_iff]
  exact ⟨fun h => ⟨h.1, h.2⟩, fun h => ⟨h.self, h.classes⟩⟩

theorem Snapshot.taken_elements (snapshot : Snapshot) : taken snapshot.elements = snapshot.takenNames := by
  unfold elements takenNames taken
  rw [List.filterMap_flatMap]
  exact List.flatMap_congr fun p _ => ClassSpec.taken_elementsIn p.classes

/-- A document has what it must have iff none of its elements is at fault. -/
theorem Snapshot.firstFault?_elements_eq_none_iff (snapshot : Snapshot) :
    firstFault? [] snapshot.elements = none ↔ snapshot.Loadable := by
  have hnamed : (∀ e ∈ snapshot.elements, e.Named) ↔ ∀ p ∈ snapshot.packages, p.Named := by
    unfold elements
    rw [List.forall_mem_flatMap]
    exact forall₂_congr fun p _ => p.named_elements_iff
  rw [firstFault?_eq_none_iff, hnamed, snapshot.taken_elements]
  exact ⟨fun h => ⟨h.1, h.2.1⟩, fun h => ⟨h.named, h.distinct, fun _ _ hno => by cases hno⟩⟩

end ApiSurface
