import ApiSurface.Proofs.Construction
import ApiSurface.Proofs.Growth
import ApiSurface.Proofs.Tables

/-! # Built surfaces are well formed

Finishing a draft adds copies of inherited members, which are placed as declared members are, and
changes nothing else that the invariant speaks about; nor does a change of own flags. -/
namespace ApiSurface

open Arena

variable {items : Array Item} {packages classes : Table}

namespace Arena

theorem shapes_map (items : Array Item) {f : Item → Item}
    (hf : ∀ item, (f item).shape = item.shape) : shapes (items.map f) = shapes items := by
  apply List.ext_getElem?
  intro i
  rw [getElem?_shapes, getElem?_shapes, Array.getElem?_map]
  cases items[i]? with
  | none => rfl
  | some item => exact congrArg some (hf item)

/-- A change of items that keeps their shapes and lists. -/
structure Steady (f : Item → Item) : Prop where
  shape : ∀ item, (f item).shape = item.shape
  slot : ∀ item slot, (f item).payload.slot slot = item.payload.slot slot

theorem Steady.slotAt_map {f : Item → Item} (hf : Steady f) (items : Array Item) (slot : Slot) (i : Nat) :
    slotAt (items.map f) slot i = slotAt items slot i := by
  unfold slotAt
  rw [Array.getElem?_map]
  cases items[i]? with
  | none => rfl
  | some item => exact hf.slot item slot

theorem WellFormed.map (h : WellFormed items packages classes) {f : Item → Item} (hf : Steady f) :
    WellFormed (items.map f) packages classes :=
  h.of_same (shapes_map items hf.shape) (hf.slotAt_map items)

theorem WellFormed.modify (h : WellFormed items packages classes) (j : Nat) {f : Item → Item}
    (hf : Steady f) : WellFormed (items.modify j f) packages classes := by
  refine h.of_same (shapes_modify items j hf.shape) fun slot i => ?_
  unfold slotAt
  rw [Array.getElem?_modify]
  split
  · cases items[i]? with
    | none => rfl
    | some item => exact hf.slot item slot
  · rfl

theorem slotAt_of_getElem? {item : Item} {i : Nat} (h : items[i]? = some item) (slot : Slot) :
    slotAt items slot i = item.payload.slot slot := by
  rw [slotAt, h]
  rfl

/-- The parameters of a method stand behind it, each at its position. -/
theorem WellFormed.parameters_of_method (h : WellFormed items packages classes) {item : Item}
    {i : Nat} (hi : items[i]? = some item) :
    ((item.payload.slot .parameters).filterMap fun p => items[p.index]?).map (·.payload.role) =
      (List.range (item.payload.slot .parameters).length).map Role.parameter := by
  obtain ⟨n, hn⟩ := h.parameters i
  have hlisted := h.listed .parameters i
  rw [slotAt_of_getElem? hi] at hn hlisted
  have hrole : ∀ k < n, ∃ p, items[i + 1 + k]? = some p ∧ p.payload.role = .parameter k := by
    intro k hk
    have hm : (⟨i + 1 + k⟩ : ItemId) ∈ item.payload.slot .parameters := by
      rw [hn]
      exact List.mem_map.mpr ⟨k, List.mem_range.mpr hk, rfl⟩
    rw [hlisted, mem_listedFrom_zero] at hm
    obtain ⟨shape, hs, hl⟩ := hm
    have hp := (h.placed _ _ hs).2
    rw [getElem?_shapes] at hs
    obtain ⟨p, hp?, rfl⟩ := Option.map_eq_some_iff.mp hs
    refine ⟨p, hp?, ?_⟩
    cases hr : p.shape.role with
    | parameter position =>
      simp only [Slot.lists, hr, beq_iff_eq] at hl hp
      obtain ⟨owner, ho, hlt, _⟩ := hp
      rw [hl, Option.some.injEq] at ho
      subst ho
      have hposition : position = k := by
        simp only at hlt
        omega
      rw [← hposition]
      exact hr
    | _ => simp only [Slot.lists, hr] at hl; cases hl
  rw [hn, List.length_map, List.length_range, List.filterMap_map]
  clear hn hlisted
  -- The induction is on the number of parameters, for which `hrole` is all that matters.
  induction n with
  | zero => rfl
  | succ n ih =>
    obtain ⟨p, hp, hr⟩ := hrole n (Nat.lt_succ_self n)
    have hlast : [n].filterMap ((fun p : ItemId => items[p.index]?) ∘ fun k => ⟨i + 1 + k⟩) = [p] :=
      by simp [hp]
    rw [List.range_succ, List.filterMap_append, List.map_append, List.map_append,
      ih fun k hk => hrole k (Nat.lt_succ_of_lt hk), hlast]
    simp [hr]

end Arena

namespace Surface

/-! ## Copies of inherited members -/

/-- The parameters of the copy of a method, the first of them with the given rank. -/
def copiedParameters (method : ItemId) (rank : Nat) : List Item → List Item
  | [] => []
  | p :: rest => { p with parent := some method, rank } :: copiedParameters method (rank + 1) rest

theorem copyParameters_eq (method : ItemId) (items : Array Item) (ps : List Item) :
    copyParameters method items ps = items ++ (copiedParameters method items.size ps).toArray := by
  unfold copyParameters
  induction ps generalizing items with
  | nil => exact (Array.append_empty).symm
  | cons p rest ih =>
    rw [List.foldl_cons, ih, copiedParameters]
    simp

theorem shapes_copiedParameters (method : ItemId) {ps : List Item}
    (h : ps.map (·.payload.role) = (List.range ps.length).map Role.parameter) :
    (copiedParameters method (method.index + 1) ps).map Item.shape =
      parameterShapes method ps.length := by
  have hshape : ∀ (ps : List Item) (rank : Nat), (copiedParameters method rank ps).map Item.shape =
      (ps.map (·.payload.role)).mapIdx
        fun k role => { parent := some method, rank := rank + k, role } := by
    intro ps
    induction ps with
    | nil => intro rank; rfl
    | cons p rest ih =>
      intro rank
      rw [copiedParameters, List.map_cons, ih, List.map_cons, List.mapIdx_cons]
      simp only [Nat.add_assoc, Nat.add_comm 1]
      rfl
  rw [hshape, h, parameterShapes]
  apply List.ext_getElem?
  intro k
  rw [List.getElem?_mapIdx, List.getElem?_map, List.getElem?_map]
  by_cases hk : k < ps.length
  · rw [List.getElem?_range hk]
    rfl
  · rw [List.getElem?_eq_none (by rw [List.length_range]; omega)]
    rfl

theorem length_copiedParameters (method : ItemId) (rank : Nat) (ps : List Item) :
    (copiedParameters method rank ps).length = ps.length := by
  induction ps generalizing rank with
  | nil => rfl
  | cons p rest ih => rw [copiedParameters, List.length_cons, List.length_cons, ih]

theorem modifyClassItem_eq {f : ClassInfo → ClassInfo} (slot : Slot) (id : ItemId)
    (hf : ∀ info, f info = Draft.linkInfo slot id info) (items : Array Item) (owner : ItemId) :
    modifyClassItem items owner f = items.modify owner.index (Draft.linkClass slot id) := by
  unfold modifyClassItem
  congr 1
  funext item
  unfold Draft.linkClass
  cases hp : item.payload with
  | ofClass info => simp only [hf]
  | _ => simp [← hp]

/-- The copy of a method as a member of the class that exposes it. -/
def copiedMethod (size : Nat) (copy : InheritedCopy) (source : Item) (info : MethodInfo)
    (count : Nat) : Item :=
  { source with
    parent := some copy.owner
    rank := size
    payload := .method
      { info with
        inheritedFrom := some copy.declaredIn
        inheritedMethod := some copy.source
        isInherited := true
        overridden := []
        parameters := (List.range count).map fun i => ⟨size + 1 + i⟩ } }

/-- The copy of a field as a member of the class that exposes it. -/
def copiedField (size : Nat) (copy : InheritedCopy) (source : Item) (info : FieldInfo) : Item :=
  { source with
    parent := some copy.owner
    rank := size
    payload := .field { info with inheritedFrom := some copy.declaredIn, isInherited := true } }

theorem addCopy_method {copy : InheritedCopy} {source : Item} {info : MethodInfo} {ps : List Item}
    (hs : items[copy.source.index]? = some source) (hp : source.payload = .method info)
    (hps : (info.parameters.filterMap fun p => items[p.index]?) = ps) :
    addCopy items copy = withMember items (copiedMethod items.size copy source info ps.length)
      (copiedParameters ⟨items.size⟩ (items.size + 1) ps) copy.owner
      (Draft.linkClass .methods ⟨items.size⟩) := by
  unfold addCopy
  simp only [hs, hp, hps, copyParameters_eq, Array.size_push]
  exact modifyClassItem_eq .methods ⟨items.size⟩ (fun _ => rfl) _ copy.owner

theorem addCopy_field {copy : InheritedCopy} {source : Item} {info : FieldInfo}
    (hs : items[copy.source.index]? = some source) (hp : source.payload = .field info) :
    addCopy items copy = withMember items (copiedField items.size copy source info) [] copy.owner
      (Draft.linkClass .fields ⟨items.size⟩) := by
  unfold addCopy
  rw [withMember, Array.append_empty]
  simp only [hs, hp]
  exact modifyClassItem_eq .fields ⟨items.size⟩ (fun _ => rfl) _ copy.owner

/-- The copies of the parameters of a method stand where those of a new method do. -/
theorem shapes_copiedParameters_of_method (h : Arena.WellFormed items packages classes) {i : Nat}
    {source : Item} (hi : items[i]? = some source) {info : MethodInfo} (hp : source.payload = .method info)
    {ps : List Item} (hps : (info.parameters.filterMap fun p => items[p.index]?) = ps) :
    (copiedParameters ⟨items.size⟩ (items.size + 1) ps).map Item.shape =
      parameterShapes ⟨items.size⟩ (copiedParameters ⟨items.size⟩ (items.size + 1) ps).length := by
  have hroles := h.parameters_of_method hi
  rw [hp] at hroles
  change (info.parameters.filterMap fun p => items[p.index]?).map (·.payload.role) =
    (List.range info.parameters.length).map Role.parameter at hroles
  have hlen : ps.length = info.parameters.length := by
    have hl := congrArg List.length hroles
    rwa [hps, List.length_map, List.length_map, List.length_range] at hl
  rw [hps, ← hlen] at hroles
  rw [length_copiedParameters]
  exact shapes_copiedParameters ⟨items.size⟩ hroles

/-- A copy is a new member of its owner, or there is nothing to copy. -/
theorem addCopy_wellFormed (h : Arena.WellFormed items packages classes) {copy : InheritedCopy}
    {package : ItemId} (hc : ClassAt (shapes items) copy.owner package) :
    Arena.WellFormed (addCopy items copy) packages classes ∧
      shapes items <+: shapes (addCopy items copy) := by
  cases hs : items[copy.source.index]? with
  | none =>
    have hsame : addCopy items copy = items := by simp only [addCopy, hs]
    rw [hsame]
    exact ⟨h, List.prefix_rfl⟩
  | some source =>
    cases hp : source.payload with
    | method info =>
      obtain ⟨ps, hps⟩ : ∃ ps, (info.parameters.filterMap fun p => items[p.index]?) = ps := ⟨_, rfl⟩
      have hlink := Draft.links_linkClass .methods ⟨items.size⟩ Slot.noConfusion Slot.noConfusion
      have hshapes := shapes_copiedParameters_of_method h hs hp hps
      rw [addCopy_method hs hp hps, shapes_withMember _ _ hlink hshapes]
      refine ⟨h.withMember hc rfl rfl .method hlink hshapes ?_, List.prefix_append _ _⟩
      rw [length_copiedParameters]
      rfl
    | field info =>
      have hlink := Draft.links_linkClass .fields ⟨items.size⟩ Slot.noConfusion Slot.noConfusion
      rw [addCopy_field hs hp, shapes_withMember _ _ hlink rfl]
      exact ⟨h.withMember hc rfl rfl .field hlink rfl rfl, List.prefix_append _ _⟩
    | _ =>
      have hsame : addCopy items copy = items := by simp only [addCopy, hs, hp]
      rw [hsame]
      exact ⟨h, List.prefix_rfl⟩

theorem foldl_addCopy_wellFormed (h : Arena.WellFormed items packages classes)
    {copies : List InheritedCopy}
    (hc : ∀ copy ∈ copies, ∃ package, ClassAt (shapes items) copy.owner package) :
    Arena.WellFormed (copies.foldl addCopy items) packages classes := by
  induction copies generalizing items with
  | nil => exact h
  | cons copy rest ih =>
    obtain ⟨package, hpackage⟩ := hc copy List.mem_cons_self
    obtain ⟨hw, ext, he⟩ := addCopy_wellFormed h hpackage
    refine ih hw fun copy' hm => ?_
    obtain ⟨package', hpackage'⟩ := hc copy' (List.mem_cons_of_mem _ hm)
    rw [← he]
    exact ⟨package', hpackage'.append ext⟩

variable {s : Surface}

theorem decl?_eq_some {id : ItemId} {d : Decl} (h : s.decl? id = some d) :
    d.surface = s ∧ d.id = id ∧ s.items[id.index]? = some d.item := by
  obtain ⟨item, hi, rfl⟩ := Option.map_eq_some_iff.mp h
  exact ⟨rfl, rfl, hi⟩

theorem mem_decls {ids : List ItemId} {d : Decl} (h : d ∈ s.decls ids) :
    d.id ∈ ids ∧ s.decl? d.id = some d := by
  obtain ⟨id, hid, hd⟩ := List.mem_filterMap.mp h
  obtain ⟨_, rfl, _⟩ := decl?_eq_some hd
  exact ⟨hid, hd⟩

theorem owner_of_mem_copiesFrom {owner : Decl} {methods : List Decl} {names : List String}
    {chain : List Decl} {copy : InheritedCopy} (h : copy ∈ copiesFrom owner methods names chain) :
    copy.owner = owner.id := by
  induction chain generalizing methods names with
  | nil => cases h
  | cons above rest ih =>
    rw [copiesFrom] at h
    rcases List.mem_append.mp h with h | h
    · obtain ⟨member, _, rfl⟩ := List.mem_map.mp h
      rfl
    · exact ih h

/-- Copies are planned for the classes of the surface. -/
theorem owner_of_mem_inheritedCopies (h : s.WellFormed) {copy : InheritedCopy}
    (hm : copy ∈ s.inheritedCopies) : ∃ package, ClassAt (shapes s.items) copy.owner package := by
  obtain ⟨d, hd, hm⟩ := List.mem_flatMap.mp hm
  split at hm
  · cases hm
  · rw [owner_of_mem_copiesFrom hm]
    obtain ⟨name, hn⟩ := (mem_values _).mp (mem_decls hd).1
    obtain ⟨package, outer, hr⟩ := (h.classes name d.id).mp hn
    exact ⟨package, name, outer, hr⟩

/-! ## Built surfaces -/

theorem steady_canonicalItem : Steady canonicalItem where
  shape item := by
    unfold canonicalItem Item.shape
    cases item.payload <;> rfl
  slot item slot := by
    unfold canonicalItem
    cases item.payload <;> cases slot <;> rfl

theorem noteOverridden_wellFormed (h : Arena.WellFormed items packages classes)
    (entry : ItemId × List ItemId) :
    Arena.WellFormed (noteOverridden items entry) packages classes := by
  refine h.modify entry.1.index ⟨fun item => ?_, fun item slot => ?_⟩
  · cases hp : item.payload <;> simp [Item.shape, hp, Payload.role]
  · cases hp : item.payload <;> cases slot <;> simp [hp, Payload.slot]

theorem withOverrides_wellFormed (h : s.WellFormed) : s.withOverrides.WellFormed := by
  have hfold : ∀ (entries : List (ItemId × List ItemId)) (items : Array Item),
      Arena.WellFormed items s.packages s.classes →
        Arena.WellFormed (entries.foldl noteOverridden items) s.packages s.classes := by
    intro entries
    induction entries with
    | nil => exact fun _ h => h
    | cons entry rest ih => exact fun items h => ih _ (noteOverridden_wellFormed h entry)
  exact hfold s.overrides s.items h

theorem finish_wellFormed {d : Draft} (h : d.WellFormed) : d.finish.WellFormed := by
  have hs : d.toSurface.WellFormed := Arena.WellFormed.map h steady_canonicalItem
  have hc : d.toSurface.withInheritedCopies.WellFormed :=
    foldl_addCopy_wellFormed hs fun copy hm => owner_of_mem_inheritedCopies hs hm
  exact withOverrides_wellFormed hc

theorem change_wellFormed (h : s.WellFormed) (change : FlagChange) :
    (s.change change).WellFormed := by
  have hf : Steady fun item =>
      { item with flags := item.flags.set change.flag change.value } :=
    ⟨fun _ => rfl, fun _ _ => rfl⟩
  rw [change_eq]
  exact Arena.WellFormed.modify h change.id.index hf

end Surface

theorem BuildCall.addition_grows {d : Draft} (h : d.WellFormed) (call : BuildCall) :
    Draft.Grows d (d.add call.addition).2 := by
  cases call with
  | package name flags isStub => exact Draft.package_grows h name flags isStub
  | packageSpec spec => exact Draft.packageSpec_grows h spec
  | topLevelClass id spec => exact Draft.topLevelClass_grows h id spec
  | nestedClass outer spec => exact Draft.nestedClass_grows h outer spec
  | constructor owner spec => exact Draft.constructor_grows h owner spec
  | method owner spec => exact Draft.method_grows h owner spec
  | field owner spec => exact Draft.field_grows h owner spec

namespace Recipe

variable (r : Recipe)

theorem draft_wellFormed (location : String) : (r.draft location).WellFormed := by
  have h : ∀ (calls : List BuildCall) (d : Draft), d.WellFormed →
      (calls.foldl (fun d call => (d.add call.addition).2) d).WellFormed := by
    intro calls
    induction calls with
    | nil => exact fun _ h => h
    | cons call rest ih => exact fun d h => ih _ (call.addition_grows h).wellFormed
  exact h r.calls _ Arena.WellFormed.empty

/-- Whatever calls and changes a recipe makes, in whatever order, the surface is well formed. -/
theorem build_wellFormed (serial : Nat) (location : String) :
    (r.build serial location).WellFormed := by
  have h : ∀ (changes : List FlagChange) (s : Surface), s.WellFormed →
      (changes.foldl Surface.change s).WellFormed := by
    intro changes
    induction changes with
    | nil => exact fun _ h => h
    | cons change rest ih => exact fun s h => ih _ (Surface.change_wellFormed h change)
  exact h r.changes _ (Surface.finish_wellFormed (r.draft_wellFormed location))

end Recipe

theorem Surface.Built.wellFormed {s : Surface} (h : s.Built) : s.WellFormed := by
  obtain ⟨r, serial, location, rfl⟩ := h
  exact r.build_wellFormed serial location

end ApiSurface
