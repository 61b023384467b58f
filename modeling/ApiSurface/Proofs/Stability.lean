import ApiSurface.Proofs.Ancestry

/-! # Properties that additions keep

All additions are made of four: a package, a class without members, a method with its parameters, and a
field. What these keep is kept by every sequence of calls, whether they succeed or not. Packages are the
first example: they are public, whatever is added, copied or changed. -/
namespace ApiSurface

open Arena

variable {α β : Type}

namespace Draft

/-- A property of drafts that every single addition keeps. -/
structure Stable (P : Draft → Prop) : Prop where
  package : ∀ d name flags isStub, P d → P (d.pushPackage name flags isStub)
  ofClass : ∀ d package outer spec, P d → P (d.pushClass package outer spec)
  method : ∀ d owner info isConstructor spec, P d → P (d.pushMethod owner info isConstructor spec)
  field : ∀ d owner spec, P d → P (d.pushField owner spec)

namespace Stable

variable {P : Draft → Prop} {d : Draft}

theorem bind {a : Addition α} {f : α → Addition β} (ha : P (d.add a).2)
    (hf : ∀ x d', P d' → P (d'.add (f x)).2) : P (d.add (a >>= f)).2 := by
  rcases hr : d.add a with ⟨fault | x, d'⟩
  · rw [add_bind_error hr]
    rwa [hr] at ha
  · rw [add_bind_ok hr]
    rw [hr] at ha
    exact hf x d' ha

theorem each {add : α → Addition ItemId} (hadd : ∀ d x, P d → P (d.add (add x)).2) (hd : P d)
    (specs : List α) : P (d.add (Addition.each add specs)).2 := by
  induction specs generalizing d with
  | nil => exact hd
  | cons spec rest ih => exact bind (hadd d spec hd) fun _ _ hd' => ih hd'

theorem addPackage (h : Stable P) (hd : P d) (name : String) (flags : ItemFlags) (isStub : Bool) :
    P (d.add (Addition.package name flags isStub)).2 := by
  rw [add_package]
  split
  · exact hd
  · cases d.packages[name]? with
    | some id => exact hd
    | none => exact h.package d name flags isStub hd

theorem addConstructor (h : Stable P) (hd : P d) (owner : ItemId) (spec : MethodSpec) :
    P (d.add (Addition.constructor owner spec)).2 := by
  rw [add_constructor]
  cases d.classInfo owner with
  | ok info => exact h.method d owner info true spec hd
  | error fault => exact hd

theorem addMethod (h : Stable P) (hd : P d) (owner : ItemId) (spec : MethodSpec) :
    P (d.add (Addition.method owner spec)).2 := by
  rw [add_method]
  split
  · exact hd
  · cases d.classInfo owner with
    | ok info => exact h.method d owner info false spec hd
    | error fault => exact hd

theorem addField (h : Stable P) (hd : P d) (owner : ItemId) (spec : FieldSpec) :
    P (d.add (Addition.field owner spec)).2 := by
  rw [add_field]
  split
  · exact hd
  · cases d.classInfo owner with
    | ok info => exact h.field d owner spec hd
    | error fault => exact hd

theorem addClassHead (h : Stable P) (hd : P d) (package : ItemId) (outer : Option ItemId)
    (spec : ClassSpec) : P (d.add (Addition.classHead package outer spec)).2 := by
  rw [add_classHead]
  split
  · exact hd
  · split
    · exact hd
    · exact h.ofClass d package outer spec hd

mutual
theorem addClassIn {d : Draft} (h : Stable P) (hd : P d) (package : ItemId) (outer : Option ItemId) :
    (spec : ClassSpec) → P (d.add (Addition.classIn package outer spec)).2
  | ⟨name, kind, modifiers, flags, isStub, superclass, interfaces, typeParameters, constructors,
      methods, fields, nested⟩ => by
    rw [Addition.classIn]
    refine bind (h.addClassHead hd package outer _) fun id _ hd => ?_
    refine bind (each (P := P) (fun d x hd => h.addConstructor hd id x) hd _) fun _ _ hd => ?_
    refine bind (each (P := P) (fun d x hd => h.addMethod hd id x) hd _) fun _ _ hd => ?_
    refine bind (each (P := P) (fun d x hd => h.addField hd id x) hd _) fun _ _ hd => ?_
    exact bind (addClassesIn h hd package id nested) fun _ _ hd => hd

theorem addClassesIn {d : Draft} (h : Stable P) (hd : P d) (package outer : ItemId) :
    (specs : List ClassSpec) → P (d.add (Addition.classesIn package outer specs)).2
  | [] => by
    rw [Addition.classesIn]
    exact hd
  | spec :: rest => by
    rw [Addition.classesIn]
    refine bind (addClassIn h hd package (some outer) spec) fun _ _ hd => ?_
    exact addClassesIn h hd package outer rest
end

theorem addTopLevelClass (h : Stable P) (hd : P d) (package : ItemId) (spec : ClassSpec) :
    P (d.add (Addition.topLevelClass package spec)).2 := by
  rw [add_topLevelClass]
  cases d.packageInfo package with
  | ok info => exact h.addClassIn hd package none spec
  | error fault => exact hd

theorem addNestedClass (h : Stable P) (hd : P d) (outer : ItemId) (spec : ClassSpec) :
    P (d.add (Addition.nestedClass outer spec)).2 := by
  rw [add_nestedClass]
  cases d.classInfo outer with
  | ok info => exact h.addClassIn hd info.package (some outer) spec
  | error fault => exact hd

theorem addPackageSpec (h : Stable P) (hd : P d) (spec : PackageSpec) :
    P (d.add (Addition.packageSpec spec)).2 := by
  refine bind (h.addPackage hd spec.name spec.flags spec.isStub) fun id _ hd => ?_
  exact bind (each (P := P) (fun d x hd => h.addTopLevelClass hd id x) hd _) fun _ _ hd => hd

theorem addition (h : Stable P) (hd : P d) (call : BuildCall) : P (d.add call.addition).2 := by
  cases call with
  | package name flags isStub => exact h.addPackage hd name flags isStub
  | packageSpec spec => exact h.addPackageSpec hd spec
  | topLevelClass id spec => exact h.addTopLevelClass hd id spec
  | nestedClass outer spec => exact h.addNestedClass hd outer spec
  | constructor owner spec => exact h.addConstructor hd owner spec
  | method owner spec => exact h.addMethod hd owner spec
  | field owner spec => exact h.addField hd owner spec

/-- A run of calls keeps the property. -/
theorem draft (h : Stable P) (r : Recipe) {location : String}
    (hempty : P { location, isPartial := r.isPartial }) : P (r.draft location) := by
  have hrun : ∀ (calls : List BuildCall) (d : Draft), P d →
      P (calls.foldl (fun d call => (d.add call.addition).2) d) := by
    intro calls
    induction calls with
    | nil => exact fun _ hd => hd
    | cons call rest ih => exact fun d hd => ih _ (h.addition hd call)
  exact hrun r.calls _ hempty

end Stable

end Draft

/-! ## Properties of all items -/

namespace Arena

def Holds (P : Item → Prop) (items : Array Item) : Prop :=
  ∀ (i : Nat) (item : Item), items[i]? = some item → P item

namespace Holds

variable {P : Item → Prop} {items : Array Item}

theorem push (h : Holds P items) {item : Item} (hitem : P item) : Holds P (items.push item) := by
  intro i x hx
  rw [Array.getElem?_push] at hx
  split at hx
  · cases hx
    exact hitem
  · exact h i x hx

theorem append (h : Holds P items) {more : List Item} (hmore : ∀ item ∈ more, P item) :
    Holds P (items ++ more.toArray) := by
  intro i x hx
  rw [Array.getElem?_append] at hx
  split at hx
  · exact h i x hx
  · rw [List.getElem?_toArray] at hx
    exact hmore x (List.mem_of_getElem? hx)

theorem modify (h : Holds P items) (j : Nat) {f : Item → Item} (hf : ∀ item, P item → P (f item)) :
    Holds P (items.modify j f) := by
  intro i x hx
  rw [Array.getElem?_modify] at hx
  split at hx
  · obtain ⟨item, hitem, rfl⟩ := Option.map_eq_some_iff.mp hx
    exact hf item (h i item hitem)
  · exact h i x hx

theorem map (h : Holds P items) {f : Item → Item} (hf : ∀ item, P item → P (f item)) :
    Holds P (items.map f) := by
  intro i x hx
  rw [Array.getElem?_map] at hx
  obtain ⟨item, hitem, rfl⟩ := Option.map_eq_some_iff.mp hx
  exact hf item (h i item hitem)

theorem withMember (h : Holds P items) {member : Item} {parameters : List Item} {owner : ItemId}
    {link : Item → Item} (hmember : P member) (hparameters : ∀ item ∈ parameters, P item)
    (hlink : ∀ item, P item → P (link item)) :
    Holds P (Arena.withMember items member parameters owner link) :=
  ((h.push hmember).append hparameters).modify _ hlink

theorem withClass (h : Holds P items) {item : Item} {package : ItemId} {outer : Option ItemId}
    {linkPackage linkOuter : Item → Item} (hitem : P item) (hpackage : ∀ item, P item → P (linkPackage item))
    (houter : ∀ item, P item → P (linkOuter item)) :
    Holds P (Arena.withClass items item package linkPackage outer linkOuter) := by
  have hpushed := (h.push hitem).modify package.index hpackage
  cases outer with
  | none => exact hpushed
  | some o => exact hpushed.modify o.index houter

end Holds

end Arena

namespace Surface

theorem payload_copiedParameters {method : ItemId} {rank : Nat} {ps : List Item} {item : Item}
    (h : item ∈ copiedParameters method rank ps) :
    ∃ p ∈ ps, item.payload = p.payload ∧ item.modifiers = p.modifiers := by
  induction ps generalizing rank with
  | nil => cases h
  | cons p rest ih =>
    rw [copiedParameters] at h
    rcases List.mem_cons.mp h with rfl | h
    · exact ⟨p, List.mem_cons_self, rfl, rfl⟩
    · obtain ⟨q, hq, hsame⟩ := ih h
      exact ⟨q, List.mem_cons_of_mem _ hq, hsame⟩

end Surface

/-! ## What finishing keeps -/

namespace Arena

/-- A property that finishing a draft and changing flags cannot break: every method and every field has it,
and it hangs on modifiers and payload, but not on the members that a class lists. -/
structure Lasting (P : Item → Prop) : Prop where
  ofMember : ∀ item, item.payload.role = .method ∨ item.payload.role = .field → P item
  link : ∀ slot id item, P item → P (Draft.linkClass slot id item)
  same : ∀ item item' : Item, item'.payload = item.payload → item'.modifiers = item.modifiers →
    P item → P item'

namespace Lasting

variable {P : Item → Prop} {items : Array Item}

theorem addCopy (hP : Lasting P) (h : Holds P items) (copy : InheritedCopy) :
    Holds P (Surface.addCopy items copy) := by
  cases hs : items[copy.source.index]? with
  | none =>
    have hsame : Surface.addCopy items copy = items := by simp only [Surface.addCopy, hs]
    rwa [hsame]
  | some source =>
    cases hp : source.payload with
    | method info =>
      rw [Surface.addCopy_method hs hp rfl]
      refine h.withMember (hP.ofMember _ (.inl rfl)) (fun item hitem => ?_) (hP.link _ _)
      obtain ⟨p, hmem, hpayload, hmodifiers⟩ := Surface.payload_copiedParameters hitem
      obtain ⟨id, _, hid⟩ := List.mem_filterMap.mp hmem
      exact hP.same p item hpayload hmodifiers (h _ _ hid)
    | field info =>
      rw [Surface.addCopy_field hs hp]
      exact h.withMember (hP.ofMember _ (.inr rfl)) (fun _ hitem => by cases hitem) (hP.link _ _)
    | _ =>
      have hsame : Surface.addCopy items copy = items := by simp only [Surface.addCopy, hs, hp]
      rwa [hsame]

theorem noteOverridden (hP : Lasting P) (h : Holds P items) (entry : ItemId × List ItemId) :
    Holds P (Surface.noteOverridden items entry) := by
  refine h.modify _ fun item hitem => ?_
  cases hp : item.payload with
  | method info => exact hP.ofMember _ (.inl rfl)
  | _ => exact hitem

theorem finish (hP : Lasting P) {d : Draft} (h : Holds P d.toSurface.items) : Holds P d.finish.items := by
  have hcopies : ∀ (copies : List InheritedCopy) (items : Array Item), Holds P items →
      Holds P (copies.foldl Surface.addCopy items) := by
    intro copies
    induction copies with
    | nil => exact fun _ h => h
    | cons copy rest ih => exact fun items h => ih _ (hP.addCopy h copy)
  have hnotes : ∀ (entries : List (ItemId × List ItemId)) (items : Array Item), Holds P items →
      Holds P (entries.foldl Surface.noteOverridden items) := by
    intro entries
    induction entries with
    | nil => exact fun _ h => h
    | cons entry rest ih => exact fun items h => ih _ (hP.noteOverridden h entry)
  exact hnotes _ _ (hcopies _ _ h)

theorem build (hP : Lasting P) (r : Recipe) (serial : Nat) (location : String)
    (h : Holds P (r.draft location).toSurface.items) : Holds P (r.build serial location).items := by
  have hchanges : ∀ (changes : List FlagChange) (s : Surface), Holds P s.items →
      Holds P (changes.foldl Surface.change s).items := by
    intro changes
    induction changes with
    | nil => exact fun _ h => h
    | cons change rest ih =>
      refine fun s h => ih _ ?_
      rw [Surface.change_eq]
      exact h.modify _ fun item hitem => hP.same item _ rfl rfl hitem
  exact hchanges r.changes { (r.draft location).finish with serial } (hP.finish h)

end Lasting

end Arena

/-! ## Packages are public -/

def Item.IsPublicPackage (item : Item) : Prop :=
  ∀ info, item.payload = .package info → item.modifiers = .ofVisibility .publicAccess

def Arena.PackagesPublic (items : Array Item) : Prop :=
  ∀ (i : Nat) (item : Item), items[i]? = some item → item.IsPublicPackage

namespace Arena.PackagesPublic

variable {items : Array Item}

theorem holds (h : PackagesPublic items) : Holds Item.IsPublicPackage items := h

theorem of_role {item item' : Item} (h : item.IsPublicPackage)
    (hrole : item'.payload.role = item.payload.role) (hm : item'.modifiers = item.modifiers) :
    item'.IsPublicPackage := by
  intro info hinfo
  rw [hm]
  rw [hinfo] at hrole
  obtain ⟨info', hinfo'⟩ : ∃ info', item.payload = .package info' := by
    cases hpay : item.payload with
    | package info' => exact ⟨info', rfl⟩
    | _ => rw [hpay] at hrole; cases hrole
  exact h info' hinfo'

theorem withMember (h : PackagesPublic items) {member : Item} {parameters : List Item}
    {owner : ItemId} {link : Item → Item}
    (hm : ∀ item ∈ member :: parameters, ∀ info, item.payload ≠ .package info)
    (hlink : ∀ item, item.IsPublicPackage → (link item).IsPublicPackage) :
    PackagesPublic (Arena.withMember items member parameters owner link) := by
  have hno : ∀ item ∈ member :: parameters, item.IsPublicPackage :=
    fun item hitem info hinfo => absurd hinfo (hm item hitem info)
  obtain ⟨hmember, hparameters⟩ := List.forall_mem_cons.mp hno
  exact h.holds.withMember hmember hparameters hlink

end Arena.PackagesPublic

namespace Draft

open Arena.PackagesPublic

theorem isPublicPackage_linkClass (slot : Slot) (id : ItemId) (item : Item)
    (h : item.IsPublicPackage) : (linkClass slot id item).IsPublicPackage := by
  refine of_role h ?_ rfl
  unfold linkClass
  cases item.payload with
  | ofClass info => cases slot <;> rfl
  | _ => rfl

theorem isPublicPackage_linkPackage (id : ItemId) (item : Item) (h : item.IsPublicPackage) :
    (linkPackage id item).IsPublicPackage := by
  refine of_role h ?_ rfl
  unfold linkPackage
  cases item.payload <;> rfl

theorem payload_parameterItems {method : ItemId} {rank position : Nat} {specs : List ParameterSpec}
    {item : Item} (h : item ∈ parameterItems method rank position specs) :
    ∃ info, item.payload = .parameter info := by
  induction specs generalizing rank position with
  | nil => cases h
  | cons spec rest ih =>
    rw [parameterItems] at h
    rcases List.mem_cons.mp h with rfl | h
    · exact ⟨_, rfl⟩
    · exact ih h

theorem stable_packagesPublic : Stable fun d => PackagesPublic d.items where
  package d name flags isStub h := h.holds.push fun _ _ => rfl
  ofClass d package outer spec h := by
    have hitem : (d.classItem package outer spec).IsPublicPackage := fun _ hinfo => by cases hinfo
    rw [pushClass_items]
    exact h.holds.withClass hitem (isPublicPackage_linkPackage _) (isPublicPackage_linkClass _ _)
  method d owner info isConstructor spec h := by
    rw [pushMethod_items]
    refine h.withMember ?_ (isPublicPackage_linkClass _ _)
    intro item hitem info' hinfo
    rcases List.mem_cons.mp hitem with rfl | hitem
    · cases isConstructor <;> cases hinfo
    · obtain ⟨_, hparameter⟩ := payload_parameterItems hitem
      rw [hparameter] at hinfo
      cases hinfo
  field d owner spec h := by
    rw [pushField_items]
    refine h.withMember ?_ (isPublicPackage_linkClass _ _)
    intro item hitem info' hinfo
    cases List.mem_singleton.mp hitem
    cases hinfo

end Draft

theorem lasting_isPublicPackage : Arena.Lasting Item.IsPublicPackage where
  ofMember item hrole info hinfo := by
    rw [hinfo] at hrole
    rcases hrole with hrole | hrole <;> cases hrole
  link slot id item h := Draft.isPublicPackage_linkClass slot id item h
  same _ _ hpayload hmodifiers h := Arena.PackagesPublic.of_role h (congrArg Payload.role hpayload) hmodifiers

namespace Surface

open Arena.PackagesPublic

/-- The packages of a built surface are public. -/
theorem Built.package_public {s : Surface} (hs : s.Built) {p : Decl} (hp : s.Declares p)
    (hpackage : p.asPackage?.isSome) : p.modifiers.visibility = .publicAccess := by
  obtain ⟨r, serial, location, rfl⟩ := hs
  have hdraft : Holds Item.IsPublicPackage (r.draft location).items :=
    Draft.stable_packagesPublic.draft r fun i item h => by simp at h
  have hcanonical : Holds Item.IsPublicPackage (r.draft location).toSurface.items :=
    hdraft.map fun item hitem => of_role hitem (congrArg Shape.role (steady_canonicalItem.shape item)) rfl
  have hpublic := lasting_isPublicPackage.build r serial location hcanonical
  obtain ⟨info, hinfo⟩ := Option.isSome_iff_exists.mp hpackage
  rw [Decl.modifiers, hpublic _ _ hp.getElem? info (payload_of_asPackage? hinfo)]
  rfl

end Surface

end ApiSurface
