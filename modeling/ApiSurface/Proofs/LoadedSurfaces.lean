import ApiSurface.Proofs.Loading
import ApiSurface.Proofs.ReorderedSurfaces

/-! # Surfaces of documents

A document that loads gives a surface whose first items are what it declares, in document order, and whose
classes list their own members first. What the surface has beyond that are members that classes inherit, and
the parameters of these. -/
namespace ApiSurface

open Arena Surface

/-- Whether a class only exposes the member, and a superclass declares it. -/
def Decl.isInherited (d : Decl) : Bool := d.item.payload.isInherited

namespace Surface

variable {s s' : Surface} {d d' c m o : Decl} {copy : InheritedCopy} {copies : List InheritedCopy}
  {n : Nat} {slot : Slot} {path : List Trait} {paths : List (List Trait)}

/-! ## Lists of a surface that has grown -/

theorem shape_of_core {item item' : Item} (h : item'.core = item.core) : item'.shape = item.shape := by
  have hshape : ∀ item : Item, item.core.shape = item.shape := by
    intro item
    unfold Item.core Item.shape
    cases item.payload <;> rfl
  rw [← hshape item', h, hshape]

theorem isInherited_of_core {item item' : Item} (h : item'.core = item.core) :
    item'.payload.isInherited = item.payload.isInherited := by
  have hcore : ∀ item : Item, item.core.payload.isInherited = item.payload.isInherited := by
    intro item
    unfold Item.core
    cases item.payload <;> rfl
  rw [← hcore item', h, hcore]

theorem Keeps.shapes (h : s.Keeps s') : Arena.shapes s.items <+: Arena.shapes s'.items := by
  rw [List.prefix_iff_getElem?]
  intro i hi
  rw [shapes_length] at hi
  obtain ⟨item', hitem', hcore⟩ := h.item i _ (Array.getElem?_eq_getElem hi)
  have hold := getElem?_shapes s.items i
  rw [Array.getElem?_eq_getElem hi, List.getElem?_eq_getElem (by rwa [shapes_length])] at hold
  rw [getElem?_shapes, hitem', hold]
  exact congrArg some (shape_of_core hcore)

/-- A list of an item goes on with new items. -/
theorem Keeps.slotAt_eq (h : s.Keeps s') (slot : Slot) (i : Nat) : ∃ more : List ItemId,
    slotAt s'.items slot i = slotAt s.items slot i ++ more ∧ ∀ id ∈ more, s.size ≤ id.index := by
  obtain ⟨ext, hext⟩ := h.shapes
  refine ⟨listedFrom slot ⟨i⟩ (Arena.shapes s.items).length ext, ?_, fun id hid => ?_⟩
  · rw [Arena.WellFormed.listed h.right, Arena.WellFormed.listed h.left, ← hext, listedFrom_append,
      Nat.zero_add]
  · obtain ⟨k, _, _, _, hk⟩ := mem_listedFrom.mp hid
    rw [hk, shapes_length]
    exact Nat.le_add_right _ _

/-! ## Inherited copies stand behind the declarations -/

/-- Every item behind the first `n` is an inherited member or a parameter of one. -/
def CopiesBehind (n : Nat) (s : Surface) : Prop :=
  ∀ d, s.Declares d → n ≤ d.id.index → d.isInherited = true ∨
    ∃ m, s.Declares m ∧ d.item.parent = some m.id ∧ m.isInherited = true

theorem copiesBehind_size (s : Surface) : CopiesBehind s.size s := by
  intro d hd hle
  have hlt : d.id.index < s.items.size := (Array.getElem?_eq_some_iff.mp hd.getElem?).1
  exact absurd hle (Nat.not_le_of_lt hlt)

/-- What has been said of an old item still holds. -/
theorem CopiesBehind.keeps (h : CopiesBehind n s) (hk : s.Keeps s') (hd' : s'.Declares d')
    (hlt : d'.id.index < s.size) (hle : n ≤ d'.id.index) : d'.isInherited = true ∨
      ∃ m, s'.Declares m ∧ d'.item.parent = some m.id ∧ m.isInherited = true := by
  have hd : s.Declares ⟨s, d'.id, s.items[d'.id.index]⟩ := by
    rw [Declares, decl?, Array.getElem?_eq_getElem hlt]
    rfl
  have hcore := hk.core_eq hd hd' rfl
  rcases h _ hd hle with hin | ⟨m, hm, hparent, hin⟩
  · exact .inl ((isInherited_of_core hcore).trans hin)
  · obtain ⟨m', hm', hid, hcore'⟩ := hk.exists_declares hm
    refine .inr ⟨m', hm', ?_, (isInherited_of_core hcore').trans hin⟩
    rw [Item.parent_of_core hcore, hid]
    exact hparent

theorem CopiesBehind.newMember (h : CopiesBehind n s) {member : Item} {parameters : List Item}
    (hmember : NewMember s s' o member parameters) (hin : member.payload.isInherited = true) :
    CopiesBehind n s' := by
  intro d' hd' hle
  by_cases hlt : d'.id.index < s.size
  · exact h.keeps hmember.keeps hd' hlt hle
  · obtain ⟨k, hk⟩ := Nat.exists_eq_add_of_le (Nat.le_of_not_lt hlt)
    have hid : d'.id = ⟨s.size + k⟩ := congrArg ItemId.mk hk
    cases k with
    | zero =>
      rw [hd'.eq_of_id hmember.declares hid]
      exact .inl hin
    | succ k =>
      have hitem := hd'.getElem?
      rw [hid, hmember.items, List.getElem?_cons_succ] at hitem
      refine .inr ⟨_, hmember.declares, ?_, hin⟩
      exact (hmember.shape_of_parameter hitem).1

theorem copiesBehind_foldl_addCopy (hs : s.WellFormed) (hn : CopiesBehind n s)
    (h : ∀ copy ∈ copies, ∃ o m, s.Plans copy o m) :
    CopiesBehind n { s with items := copies.foldl addCopy s.items } := by
  induction copies generalizing s with
  | nil => exact hn
  | cons copy rest ih =>
    obtain ⟨o, m, hplan⟩ := h copy List.mem_cons_self
    obtain ⟨member, parameters, hmember, hin, _⟩ := newMember_addCopy hs hplan
    exact ih hmember.keeps.right (hn.newMember hmember hin)
      (exists_plans_addCopy hs hplan fun copy' hc => h copy' (List.mem_cons_of_mem _ hc))

theorem completed_keeps (hs : s.WellFormed) : s.Keeps s.completed :=
  (withInheritedCopies_keeps hs).trans (withOverrides_keeps (withInheritedCopies_keeps hs).right)

theorem completed_copiesBehind (hs : s.WellFormed) : CopiesBehind s.size s.completed := by
  have hcopies : CopiesBehind s.size s.withInheritedCopies :=
    copiesBehind_foldl_addCopy hs (copiesBehind_size s) fun _ hc => plans_of_mem_inheritedCopies hs hc
  intro d hd hle
  have hlt : d.id.index < s.withInheritedCopies.size := by
    have hlt := (Array.getElem?_eq_some_iff.mp hd.getElem?).1
    rwa [completed, size_withOverrides] at hlt
  exact hcopies.keeps (withOverrides_keeps (withInheritedCopies_keeps hs).right) hd hlt hle

/-! ## Members of a class -/

/-- Items with these paths, in this order. -/
theorem map_path_decls {ids : List ItemId} (h : List.Forall₂ s.PathAt ids paths) :
    (s.decls ids).map Decl.path = paths := by
  induction h with
  | nil => rfl
  | cons hat _ ih =>
    obtain ⟨x, hx, rfl, rfl⟩ := hat
    unfold decls at ih ⊢
    rw [List.filterMap_cons_some hx, List.map_cons, ih]

end Surface

/-- The list of the class names its own members, which have these paths, and inherited ones behind them. -/
def Decl.ListsFirst (d : Decl) (slot : Slot) (paths : List (List Trait)) : Prop :=
  ∃ own copies, d.members slot = own ++ copies ∧ own.map Decl.path = paths ∧
    (∀ m ∈ own, m.isInherited = false) ∧ ∀ m ∈ copies, m.isInherited = true

/-- What a class declares itself is not inherited. -/
theorem ClassSpec.isInherited_of_listing {spec : ClassSpec} {around : List Trait} {slot : Slot} {m : Decl}
    (hm : m.InPlace) (hpath : m.path ∈ spec.listing around slot) : m.isInherited = false := by
  have hbare : m.trait.item.payload.isInherited = m.isInherited := by
    unfold Decl.trait Decl.isInherited Item.bare
    cases m.item.payload <;> rfl
  rw [← hbare]
  cases slot with
  | constructors | methods | fields =>
    obtain ⟨_, _, heq⟩ := List.mem_map.mp hpath
    rw [hm.trait_of_path heq.symm]
    rfl
  | _ => cases hpath

/-- The surface has what the document declares, in document order, and nothing else but what classes
inherit. -/
structure Surface.Follows (s : Surface) (snapshot : Snapshot) : Prop where
  classNames : ∀ name, s.classes.contains name = true ↔ name ∈ snapshot.takenNames
  inOrder : ∀ k < snapshot.paths.length, (s.decl? ⟨k⟩).map Decl.path = snapshot.paths[k]?
  copiesBehind : s.CopiesBehind snapshot.paths.length
  members : ∀ around c, snapshot.Contains around c → ∃ x,
    s.findClass? (Text.trimmed c.name) = some x ∧ x.path = c.trait :: around ∧
      ∀ slot : Slot, slot.ofMembers = true → x.ListsFirst slot (c.listing around slot)

namespace Draft

variable {d : Draft} {snapshot : Snapshot} {readFrom : String}

/-- A class that is complete in a draft lists its own members first when copies have been added. -/
theorem Installs.completed {around : List Trait} {c : ClassSpec} (hi : d.Installs around c)
    (h : d.WellFormed) : ∃ x, d.toSurface.completed.findClass? (Text.trimmed c.name) = some x ∧
      x.path = c.trait :: around ∧
        ∀ slot : Slot, slot.ofMembers = true → x.ListsFirst slot (c.listing around slot) := by
  obtain ⟨id, hat, hlists⟩ := hi
  have hs := toSurface_wellFormed h
  have hk := completed_keeps hs
  obtain ⟨x, hx, rfl, hpath⟩ := hk.pathAt hat
  have htrait := (hx.inPlace hk.right).trait_of_path hpath
  have hname : x.name = Text.trimmed c.name := by
    rw [← x.name_trait, htrait]
    rfl
  have hclass : ∃ info, x.item.payload = .ofClass info := by
    have hpayload : x.item.payload.bare = c.trait.item.payload := congrArg (·.item.payload) htrait
    cases hp : x.item.payload with
    | ofClass info => exact ⟨info, rfl⟩
    | _ => rw [hp] at hpayload; cases hpayload
  obtain ⟨info, hp⟩ := hclass
  refine ⟨x, (findClass?_eq_some hk.right).mpr ⟨hx, ?_, hname⟩, hpath, fun slot hslot => ?_⟩
  · rw [Decl.asClass?, hp]
    rfl
  obtain ⟨more, hmore, hbehind⟩ := hk.slotAt_eq slot x.id.index
  have hold : slotAt d.toSurface.items slot x.id.index = slotAt d.items slot x.id.index :=
    steady_canonicalItem.slotAt_map d.items slot x.id.index
  have hmembers : x.members slot = d.toSurface.completed.decls (slotAt d.items slot x.id.index) ++
      d.toSurface.completed.decls more := by
    rw [Decl.members, hx.surface, ← slotAt_of_getElem? hx.getElem?, hmore, hold]
    exact List.filterMap_append
  have hown := map_path_decls ((hlists slot hslot).imp fun _ _ hat => hk.pathAt hat)
  refine ⟨_, _, hmembers, hown, fun m hm => ?_, fun m hm => ?_⟩
  · have hd : d.toSurface.completed.Declares m := (mem_decls hm).2
    exact ClassSpec.isInherited_of_listing (hd.inPlace hk.right) (hown ▸ List.mem_map_of_mem hm)
  · obtain ⟨hid, hdm⟩ := mem_decls hm
    rcases completed_copiesBehind hs m hdm (hbehind m.id hid) with hin | ⟨p, hp', hparent, hin⟩
    · exact hin
    · -- A parameter stands in no list of members.
      have hm : m ∈ x.members slot := hmembers ▸ List.mem_append_right _ hm
      have hx' := parent_of_member hk.right hx hm (by rintro rfl; cases hslot) (by rintro rfl; cases hslot)
      rw [hparent, Option.some.injEq] at hx'
      rw [hp'.eq_of_id hx hx', Decl.isInherited, hp] at hin
      cases hin

end Draft

namespace Snapshot

variable {snapshot : Snapshot} {readFrom : String} {s : Surface}

theorem follows_of_toSurface (h : snapshot.toSurface readFrom = .ok s) : s.Follows snapshot := by
  obtain ⟨d, hok, rfl⟩ := exists_draft h
  obtain ⟨hg, hinstalls⟩ := Draft.document_gains hok
  have hs := Draft.toSurface_wellFormed hg.grows.wellFormed
  have hsize : d.toSurface.size = snapshot.paths.length := by
    rw [Draft.size_toSurface, hg.size]
    exact Nat.zero_add _
  refine ⟨fun name => ?_, fun k hk => ?_, ?_, fun around c hc => ?_⟩
  · rw [← snapshot.taken_elements]
    exact ((snapshot.packages_decided readFrom).succeeds hok).2.2.classes name
  · have hpath := List.getElem?_eq_getElem hk
    have hat := hg.paths k _ hpath
    obtain ⟨x, hx, hid, heq⟩ := (completed_keeps hs).pathAt hat
    have hempty : (⟨(snapshot.emptyDraft readFrom).items.size + k⟩ : ItemId) = ⟨k⟩ :=
      congrArg ItemId.mk (Nat.zero_add k)
    rw [← hempty, ← hid, hx, hpath, Option.map_some, heq]
  · exact hsize ▸ completed_copiesBehind hs
  · exact (hinstalls around c hc).completed hg.grows.wellFormed

/-- A document gives a surface iff all that must have a name has one and no two classes have the same, and
otherwise the fault of its first element that is at fault. The surface has what the document declares, in
document order, and every class lists its own members before those that it inherits. -/
theorem toSurface_inDocumentOrder (snapshot : Snapshot) (readFrom : String) :
    ((∃ s, snapshot.toSurface readFrom = .ok s) ↔ snapshot.Loadable) ∧
    (∀ fault, snapshot.toSurface readFrom = .error fault ↔
      ∃ before e after, snapshot.elements = before ++ e :: after ∧
        Element.firstFault? [] before = none ∧ e.fault? before = some fault) ∧
    ∀ s, snapshot.toSurface readFrom = .ok s → s.Follows snapshot := by
  refine ⟨snapshot.loads_iff readFrom, fun fault => ?_, fun s hs => follows_of_toSurface hs⟩
  rw [(snapshot.toSurface_decided readFrom).1, Element.firstFault?_eq_some_iff]
  rfl

/-- One package in two parts. A class of the first part inherits from a hidden class of the second. -/
def splitPackage : Snapshot where
  packages :=
    [{ name := "p"
       classes :=
        [{ name := "p.A"
           superclass := some ⟨"p.Base"⟩
           methods := [.published "a"]
           nested := [{ name := "p.A.Inner" }] }] },
     { name := "p"
       classes :=
        [{ name := " p.Base "
           flags := { hidden := true }
           methods := [.published "b"] }] }]

/-- The document with a third part, whose class has the name of an earlier one and a method without name. -/
def splitPackageTwice : Snapshot where
  packages := splitPackage.packages ++
    [{ name := "p", classes := [{ name := "p.Base", methods := [.published ""] }] }]

theorem toSurface_splitPackage :
    (∃ s, splitPackage.toSurface "" = .ok s ∧ s.Follows splitPackage) ∧
      (((splitPackage.toSurface "").toOption.bind (·.findClass? "p.A")).map fun c =>
        c.methods.map fun m => (m.name, m.isInherited)) = some [("a", false), ("b", true)] ∧
      splitPackageTwice.toSurface "" = .error (.duplicateClass "p.Base") := by
  refine ⟨?_, by decide +kernel, ?_⟩
  · have h := toSurface_inDocumentOrder splitPackage ""
    obtain ⟨s, hs⟩ := h.1.mpr (splitPackage.firstFault?_elements_eq_none_iff.mp (by decide))
    exact ⟨s, hs, h.2.2 s hs⟩
  · exact ((toSurface_inDocumentOrder splitPackageTwice "").2.1 _).mpr
      ⟨splitPackage.elements ++ [.package "p"], .ofClass "p.Base", [.method ""], by decide, by decide,
        by decide⟩

end Snapshot

end ApiSurface
