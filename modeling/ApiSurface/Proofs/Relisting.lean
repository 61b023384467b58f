import ApiSurface.Proofs.CoupledAdditions
import ApiSurface.Proofs.DeclaredExceptions
import ApiSurface.Proofs.DocumentOrder

/-! # Relisted specs

Specs are relisted if their interfaces and exceptions stand in another order and nothing else changes.
Drafts sort these lists when they are finished, and nothing reads them before, so relisted specs make the
same surface, and no comparison of signatures depends on the order in which exceptions were declared. -/
namespace ApiSurface

open Arena Surface

variable {α : Type}

/-! ## What is relisted -/

/-- The classes differ at most in the order of their interfaces and of the exceptions of their members. The
classes in them stand in the same order and are relisted themselves. -/
inductive ClassSpec.Relisted : ClassSpec → ClassSpec → Prop where
  | intro {spec spec' : ClassSpec}
      (same : spec' =
        { spec with
          interfaces := spec'.interfaces
          constructors := spec'.constructors
          methods := spec'.methods
          nested := spec'.nested })
      (interfaces : spec.interfaces.Perm spec'.interfaces)
      (constructors : List.Forall₂ MethodSpec.Reordered spec.constructors spec'.constructors)
      (methods : List.Forall₂ MethodSpec.Reordered spec.methods spec'.methods)
      (nested : List.Forall₂ ClassSpec.Relisted spec.nested spec'.nested) : Relisted spec spec'

def PackageSpec.Relisted (spec spec' : PackageSpec) : Prop :=
  spec' = { spec with classes := spec'.classes } ∧
    List.Forall₂ ClassSpec.Relisted spec.classes spec'.classes

inductive BuildCall.Relisted : BuildCall → BuildCall → Prop where
  | package (name : String) (flags : ItemFlags) (isStub : Bool) :
      Relisted (.package name flags isStub) (.package name flags isStub)
  | packageSpec {spec spec' : PackageSpec} (h : spec.Relisted spec') :
      Relisted (.packageSpec spec) (.packageSpec spec')
  | topLevelClass (package : ItemId) {spec spec' : ClassSpec} (h : spec.Relisted spec') :
      Relisted (.topLevelClass package spec) (.topLevelClass package spec')
  | nestedClass (outer : ItemId) {spec spec' : ClassSpec} (h : spec.Relisted spec') :
      Relisted (.nestedClass outer spec) (.nestedClass outer spec')
  | constructor (owner : ItemId) {spec spec' : MethodSpec} (h : spec.Reordered spec') :
      Relisted (.constructor owner spec) (.constructor owner spec')
  | method (owner : ItemId) {spec spec' : MethodSpec} (h : spec.Reordered spec') :
      Relisted (.method owner spec) (.method owner spec')
  | field (owner : ItemId) (spec : FieldSpec) : Relisted (.field owner spec) (.field owner spec)

/-- The recipes differ at most in the specs of their calls, which are relisted. -/
structure Recipe.Relisted (r r' : Recipe) : Prop where
  isPartial : r'.isPartial = r.isPartial
  calls : List.Forall₂ BuildCall.Relisted r.calls r'.calls
  changes : r'.changes = r.changes

/-! ## Drafts -/

theorem Arena.map_withClass {f linkPackage linkOuter : Item → Item}
    (hp : ∀ item, f (linkPackage item) = linkPackage (f item))
    (ho : ∀ item, f (linkOuter item) = linkOuter (f item)) (items : Array Item) (item : Item)
    (package : ItemId) (outer : Option ItemId) :
    (withClass items item package linkPackage outer linkOuter).map f =
      withClass (items.map f) (f item) package linkPackage outer linkOuter := by
  unfold withClass
  cases outer with
  | none => rw [map_modify hp, Array.map_push]
  | some o => rw [map_modify ho, map_modify hp, Array.map_push]

namespace Draft

/-- The drafts differ at most in the order of interfaces and exceptions. -/
structure Agrees (d d' : Draft) : Prop where
  location : d'.location = d.location
  isPartial : d'.isPartial = d.isPartial
  items : d'.items.map canonicalItem = d.items.map canonicalItem
  packages : d'.packages = d.packages
  classes : d'.classes = d.classes

/-- In canonical order a new method is one with its exceptions in this order. -/
theorem canonicalItem_methodItem (d : Draft) (owner : ItemId) (info : ClassInfo) (isConstructor : Bool)
    (spec : MethodSpec) : canonicalItem (d.methodItem owner info isConstructor spec) =
      d.methodItem owner info isConstructor
        { spec with throws := TypeRef.canonicalSort spec.throws } := by
  cases isConstructor <;> rfl

theorem canonicalItem_classItem (d : Draft) (package : ItemId) (outer : Option ItemId) (spec : ClassSpec) :
    canonicalItem (d.classItem package outer spec) =
      d.classItem package outer { spec with interfaces := TypeRef.canonicalSort spec.interfaces } := rfl

namespace Agrees

variable {d d' : Draft}

theorem toSurface_eq (h : d.Agrees d') : d'.toSurface = d.toSurface := by
  unfold toSurface
  rw [h.location, h.isPartial, h.items, h.packages, h.classes]

theorem size (h : d.Agrees d') : d'.items.size = d.items.size := by
  simpa using congrArg Array.size h.items

theorem nextId (h : d.Agrees d') : d'.nextId = d.nextId := congrArg ItemId.mk h.size

/-- What is read of a class does not depend on the order of its interfaces if it is not about them. -/
theorem map_classInfo {f : ClassInfo → α} (hf : ∀ info interfaces, f { info with interfaces } = f info)
    (h : d.Agrees d') (id : ItemId) : (d.classInfo id).map f = (d'.classInfo id).map f := by
  have hcanonical : ∀ d : Draft,
      (({ d with items := d.items.map canonicalItem } : Draft).classInfo id).map f =
        (d.classInfo id).map f := by
    intro d
    unfold classInfo
    rw [Array.getElem?_map]
    cases d.items[id.index]? with
    | none => rfl
    | some item =>
      rcases item with ⟨_, _, _, _, _, payload⟩
      cases payload with
      | ofClass info => exact congrArg Except.ok (hf info _)
      | _ => rfl
  rw [← hcanonical d, ← hcanonical d']
  unfold classInfo
  rw [h.items]

theorem packageInfo (h : d.Agrees d') (id : ItemId) : d'.packageInfo id = d.packageInfo id := by
  have hcanonical : ∀ d : Draft,
      ({ d with items := d.items.map canonicalItem } : Draft).packageInfo id = d.packageInfo id := by
    intro d
    unfold Draft.packageInfo
    rw [Array.getElem?_map]
    cases d.items[id.index]? with
    | none => rfl
    | some item =>
      rcases item with ⟨_, _, _, _, _, payload⟩
      cases payload <;> rfl
  rw [← hcanonical d, ← hcanonical d']
  unfold Draft.packageInfo
  rw [h.items]

/-! ### Single additions -/

theorem pushPackage (h : d.Agrees d') (name : String) (flags : ItemFlags) (isStub : Bool) :
    (d.pushPackage name flags isStub).Agrees (d'.pushPackage name flags isStub) where
  location := h.location
  isPartial := h.isPartial
  items := by
    unfold Draft.pushPackage push
    rw [Array.map_push, Array.map_push, h.items, h.size]
  packages := by
    unfold Draft.pushPackage
    rw [h.packages, h.nextId]
  classes := h.classes

theorem pushMethod (h : d.Agrees d') {owner : ItemId} {info info' : ClassInfo}
    (hinfo : d.classInfo owner = .ok info) (hinfo' : d'.classInfo owner = .ok info')
    (isConstructor : Bool) {spec spec' : MethodSpec} (hspec : spec.Reordered spec') :
    (d.pushMethod owner info isConstructor spec).Agrees (d'.pushMethod owner info' isConstructor spec') := by
  have hname : info'.simpleName = info.simpleName := by
    have hread := h.map_classInfo (f := ClassInfo.simpleName) (fun _ _ => rfl) owner
    rw [hinfo, hinfo'] at hread
    exact (Except.ok.inj hread).symm
  have hitem : canonicalItem (d'.methodItem owner info' isConstructor spec') =
      canonicalItem (d.methodItem owner info isConstructor spec) := by
    rw [canonicalItem_methodItem, canonicalItem_methodItem, ← TypeRef.canonicalSort_perm hspec.2, hspec.1]
    unfold methodItem methodPayload nextItem
    rw [h.size, hname]
  have hparameters : spec'.parameters = spec.parameters := by rw [hspec.1]
  rw [pushMethod_eq, pushMethod_eq d']
  refine ⟨h.location, h.isPartial, ?_, h.packages, h.classes⟩
  rw [pushMethod_items, pushMethod_items, map_withMember (canonicalItem_linkClass _ _),
    map_withMember (canonicalItem_linkClass _ _), hitem, h.items, h.nextId, h.size, hparameters]

theorem pushClass (h : d.Agrees d') (package : ItemId) (outer : Option ItemId) {spec spec' : ClassSpec}
    (hspec : spec.Relisted spec') :
    (d.pushClass package outer spec).Agrees (d'.pushClass package outer spec') := by
  obtain ⟨same, interfaces, -, -, -⟩ := hspec
  have hitem : canonicalItem (d'.classItem package outer spec') =
      canonicalItem (d.classItem package outer spec) := by
    rw [canonicalItem_classItem, canonicalItem_classItem, ← TypeRef.canonicalSort_perm interfaces, same]
    unfold classItem nextItem
    rw [h.size]
    rfl
  have hname : spec'.name = spec.name := by rw [same]
  rw [pushClass_eq, pushClass_eq d']
  refine ⟨h.location, h.isPartial, ?_, h.packages, ?_⟩
  · rw [pushClass_items, pushClass_items,
      map_withClass (canonicalItem_linkPackage _) (canonicalItem_linkClass _ _),
      map_withClass (canonicalItem_linkPackage _) (canonicalItem_linkClass _ _), hitem, h.items, h.nextId]
  · rw [h.classes, h.nextId, hname]

theorem pushField (h : d.Agrees d') (owner : ItemId) (spec : FieldSpec) :
    (d.pushField owner spec).Agrees (d'.pushField owner spec) where
  location := h.location
  isPartial := h.isPartial
  items := by
    have hitem : d'.fieldItem owner spec = d.fieldItem owner spec := by
      unfold fieldItem nextItem
      rw [h.size]
    rw [pushField_items, pushField_items, map_withMember (canonicalItem_linkClass _ _),
      map_withMember (canonicalItem_linkClass _ _), hitem, h.items, h.nextId]
  packages := h.packages
  classes := h.classes

end Agrees

end Draft

/-- Relisted specs correspond, and so do drafts that differ at most in what is relisted. -/
def relisting : Coupling where
  Drafts := Draft.Agrees
  Flags flags flags' := flags' = flags
  Methods := MethodSpec.Reordered
  Fields spec spec' := spec' = spec
  Classes := ClassSpec.Relisted
  nextId h := h.nextId
  packages h := h.packages
  classes h := h.classes
  packageInfo h := h.packageInfo
  classInfo h := h.map_classInfo fun _ _ => rfl
  method_name h := by rw [h.1]
  field_name h := by rw [h]
  class_name h := by
    cases h with
    | intro same => rw [same]
  constructors h := by
    cases h with
    | intro _ _ constructors => exact constructors
  methods h := by
    cases h with
    | intro _ _ _ methods => exact methods
  fields h := by
    cases h with
    | intro same =>
      rw [same]
      exact List.forall₂_same.mpr fun _ _ => rfl
  nested h := by
    cases h with
    | intro _ _ _ _ nested => exact nested
  pushPackage h name hflags isStub := by
    cases hflags
    exact h.pushPackage name _ isStub
  pushClass h package outer hspec := h.pushClass package outer hspec
  pushMethod h hinfo hinfo' isConstructor hspec := h.pushMethod hinfo hinfo' isConstructor hspec
  pushField h owner hspec := by
    cases hspec
    exact h.pushField owner _

/-! ## Recipes -/

theorem BuildCall.Relisted.couples {call call' : BuildCall} (h : call.Relisted call') :
    relisting.Couples call.addition call'.addition := by
  cases h with
  | package name flags isStub => exact Coupling.package name rfl isStub
  | packageSpec h =>
    obtain ⟨same, hclasses⟩ := h
    exact Coupling.packageSpec (by rw [same]) (by rw [same]; rfl) (by rw [same]) hclasses
  | topLevelClass package h => exact Coupling.topLevelClass package h
  | nestedClass outer h => exact Coupling.nestedClass outer h
  | constructor owner h => exact Coupling.constructor owner h
  | method owner h => exact Coupling.method owner h
  | field owner spec => exact Coupling.field owner rfl

namespace Recipe

variable {r r' q q' : Recipe}

theorem Relisted.draft_agrees (h : r.Relisted r') (location : String) :
    (r.draft location).Agrees (r'.draft location) := by
  have hrun : ∀ {calls calls' : List BuildCall}, List.Forall₂ BuildCall.Relisted calls calls' →
      ∀ {d d' : Draft}, d.Agrees d' → (calls.foldl (fun d call => (d.add call.addition).2) d).Agrees
        (calls'.foldl (fun d call => (d.add call.addition).2) d') := by
    intro calls calls' hcalls
    induction hcalls with
    | nil => exact fun hd => hd
    | cons hcall _ ih => exact fun hd => ih (hcall.couples _ _ hd).2
  exact hrun h.calls ⟨rfl, h.isPartial, rfl, rfl, rfl⟩

/-- Relisted specs make the same surface. -/
theorem Relisted.build_eq (h : r.Relisted r') (serial : Nat) (location : String) :
    r'.build serial location = r.build serial location := by
  unfold build Draft.finish
  rw [(h.draft_agrees location).toSurface_eq, h.changes]

/-- The canonical order forgets how lists were written. Lists of the same types have one canonical order, by
base name and then by text. What methods of built surfaces throw was declared for them, and is the same iff
the declared lists hold the same types equally often. Surfaces of relisted specs are the same, so no
comparison of signatures depends on the order in which the exceptions of either method were declared. -/
theorem build_forgetsOrder (hr : r.Relisted r') (hq : q.Relisted q') (serial serial' : Nat)
    (location location' : String) :
    (∀ l l' : List TypeRef, l.Perm l' → TypeRef.canonicalSort l = TypeRef.canonicalSort l' ∧
      (TypeRef.canonicalSort l).Perm l ∧ (TypeRef.canonicalSort l).Pairwise TypeRef.Precedes) ∧
    (∀ m n info info', (r.build serial location).Declares m → (q.build serial' location').Declares n →
      m.asMethod? = some info → n.asMethod? = some info' →
        (∃ spec, r.DeclaresWith location m spec) ∧ (∃ spec', q.DeclaresWith location' n spec') ∧
          ∀ spec spec', r.DeclaresWith location m spec → q.DeclaresWith location' n spec' →
            (info.throws = info'.throws ↔ spec.throws.Perm spec'.throws)) ∧
    r'.build serial location = r.build serial location ∧
    q'.build serial' location' = q.build serial' location' ∧
    ∀ m m' n n', (r.build serial location).Declares m → (r'.build serial location).Declares m' →
      (q.build serial' location').Declares n → (q'.build serial' location').Declares n' →
        m'.id = m.id → n'.id = n.id →
          ∀ rawTypes, m'.sameSignature n' rawTypes = m.sameSignature n rawTypes := by
  have hbuild := hr.build_eq serial location
  have hbuild' := hq.build_eq serial' location'
  refine ⟨fun l l' h => ⟨TypeRef.canonicalSort_perm h, TypeRef.perm_canonicalSort l,
    TypeRef.pairwise_canonicalSort l⟩, ?_, hbuild, hbuild', ?_⟩
  · intro m n info info' hm hn hinfo hinfo'
    obtain ⟨spec, hspec, _⟩ := exists_declaresWith hm hinfo
    obtain ⟨spec', hspec', _⟩ := exists_declaresWith hn hinfo'
    exact ⟨⟨spec, hspec⟩, ⟨spec', hspec'⟩, fun _ _ h h' => throws_eq_iff hm hinfo hn hinfo' h h'⟩
  · intro m m' n n' hm hm' hn hn' hid hid' rawTypes
    rw [hbuild] at hm'
    rw [hbuild'] at hn'
    rw [hm'.eq_of_id hm hid, hn'.eq_of_id hn hid']

/-- A class with a method, and a hidden superclass that leaves two methods to it. The methods throw these
types. -/
def handingDown (own left other : List TypeRef) : Recipe :=
  let m (name : String) (throws : List TypeRef) : MethodSpec := { MethodSpec.published name with throws }
  { calls := [.packageSpec { name := "p", classes := [
      { name := "p.C", modifiers := .ofVisibility .publicAccess, superclass := some ⟨"p.H"⟩
        methods := [m "a" own] },
      { name := "p.H", modifiers := .ofVisibility .publicAccess, flags := { hidden := true }
        methods := [m "b" left, m "c" other] }] }] }

theorem handingDown_relisted {own own' left left' other other' : List TypeRef} (hown : own.Perm own')
    (hleft : left.Perm left') (hother : other.Perm other') :
    (handingDown own left other).Relisted (handingDown own' left' other') where
  isPartial := rfl
  calls := .cons (.packageSpec ⟨rfl,
    .cons (.intro rfl .rfl .nil (.cons ⟨rfl, hown⟩ .nil) .nil)
      (.cons (.intro rfl .rfl .nil (.cons ⟨rfl, hleft⟩ (.cons ⟨rfl, hother⟩ .nil)) .nil) .nil)⟩) .nil
  changes := rfl

/-- Three texts share a base name. The first two methods are declared with the same types in another order,
the third one is not, and nothing of this changes when the lists are written in yet another order. -/
theorem build_forgetsOrder_handingDown :
    let r := handingDown [⟨"p.E<T>"⟩, ⟨"p.E"⟩, ⟨"p.D"⟩] [⟨"p.D"⟩, ⟨"p.E"⟩, ⟨"p.E<T>"⟩]
      [⟨"p.E"⟩, ⟨"p.E[]"⟩, ⟨"p.D"⟩]
    let r' := handingDown [⟨"p.D"⟩, ⟨"p.E<T>"⟩, ⟨"p.E"⟩] [⟨"p.E"⟩, ⟨"p.D"⟩, ⟨"p.E<T>"⟩]
      [⟨"p.D"⟩, ⟨"p.E[]"⟩, ⟨"p.E"⟩]
    r.Relisted r' ∧ r'.build 1 "s" = r.build 1 "s" ∧
      ∃ c a b x info info' info'', (r.build 1 "s").findClass? "p.C" = some c ∧ c.methods = [a, b, x] ∧
        a.asMethod? = some info ∧ b.asMethod? = some info' ∧ x.asMethod? = some info'' ∧
        info.throws = info'.throws ∧ info.throws ≠ info''.throws ∧
        ∀ a' b', (r'.build 1 "s").Declares a' → (r'.build 1 "s").Declares b' → a'.id = a.id →
          b'.id = b.id → a'.sameSignature b' true = a.sameSignature b true := by
  intro r r'
  have hr : r.Relisted r' := handingDown_relisted (by decide) (by decide) (by decide)
  have hs : (r.build 1 "s").Built := ⟨_, _, _, rfl⟩
  have hfound : ((r.build 1 "s").findClass? "p.C").any fun c =>
      c.methods.map (fun m => (r.draft "s").throwsClause? m.origin.id) =
        [some ([⟨"p.E<T>"⟩, ⟨"p.E"⟩, ⟨"p.D"⟩], none), some ([⟨"p.D"⟩, ⟨"p.E"⟩, ⟨"p.E<T>"⟩], none),
          some ([⟨"p.E"⟩, ⟨"p.E[]"⟩, ⟨"p.D"⟩], none)] := by
    decide +kernel
  obtain ⟨c, hc, hfound⟩ := (Option.any_eq_true ..).mp hfound
  have hclauses := of_decide_eq_true hfound
  obtain ⟨hdc, _⟩ := (findClass?_eq_some hs.wellFormed).mp hc
  obtain ⟨a, b, x, hmethods⟩ : ∃ a b x, c.methods = [a, b, x] :=
    List.length_eq_three.mp (by simpa using congrArg List.length hclauses)
  have hmember : ∀ m ∈ c.methods, (r.build 1 "s").Declares m ∧ ∃ info, m.asMethod? = some info := by
    intro m hm
    have hinfo := Option.isSome_iff_exists.mp (isSome_asMethod?_of_mem_methods hs.wellFormed hdc hm)
    rw [Decl.methods_eq] at hm
    exact ⟨((mem_members hs.wellFormed hdc).mp hm).1, hinfo⟩
  rw [hmethods, List.forall_mem_cons, List.forall_mem_cons, List.forall_mem_singleton] at hmember
  obtain ⟨⟨hda, info, hinfo⟩, ⟨hdb, info', hinfo'⟩, hdx, info'', hinfo''⟩ := hmember
  simp only [hmethods, List.map_cons, List.map_nil, List.cons.injEq, and_true] at hclauses
  obtain ⟨hca, hcb, hcx⟩ := hclauses
  obtain ⟨-, hthrows, hbuild, -, hsame⟩ := build_forgetsOrder hr hr 1 1 "s" "s"
  refine ⟨hr, hbuild, c, a, b, x, info, info', info'', hc, hmethods, hinfo, hinfo', hinfo'', ?_, ?_,
    fun a' b' ha' hb' hid hid' => hsame a a' b b' hda ha' hdb hb' hid hid' true⟩
  · obtain ⟨⟨spec, hspec⟩, ⟨spec', hspec'⟩, hiff⟩ := hthrows a b info info' hda hdb hinfo hinfo'
    rw [hiff spec spec' hspec hspec', hspec.throws_of_clause hca, hspec'.throws_of_clause hcb]
    decide
  · obtain ⟨⟨spec, hspec⟩, ⟨spec', hspec'⟩, hiff⟩ := hthrows a x info info'' hda hdx hinfo hinfo''
    rw [ne_eq, hiff spec spec' hspec hspec', hspec.throws_of_clause hca, hspec'.throws_of_clause hcx]
    decide

end Recipe

end ApiSurface
