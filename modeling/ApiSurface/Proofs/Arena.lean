import Mathlib.Data.List.Basic
import ApiSurface.Draft
import ApiSurface.Surface

/-! # Well-formed arenas

Items name each other by id. What an item is and where it belongs, its shape, is fixed when it is
added; the lists in which an item names those below it grow with the arena. In a well-formed arena every
item is placed under an earlier one of the right sort, each list holds exactly the ids that belong in it,
in increasing order, and the tables hold exactly the names of the packages and classes. -/
namespace ApiSurface

/-- What an item is, with the names and references that nothing changes later. -/
inductive Role where
  | package (name : String)
  | ofClass (qualifiedName : String) (package : ItemId) (outer : Option ItemId)
  | constructor
  | method
  | field
  | parameter (position : Nat)
  deriving DecidableEq, Repr

def Payload.role : Payload → Role
  | .package info => .package info.name
  | .ofClass info => .ofClass info.qualifiedName info.package info.outer
  | .constructor _ => .constructor
  | .method _ => .method
  | .field _ => .field
  | .parameter info => .parameter info.position

/-- What an item of the role is, in the words of a message. -/
def Role.label : Role → String
  | .package _ => "package"
  | .ofClass .. => "class"
  | .method => "method"
  | .constructor => "constructor"
  | .field => "field"
  | .parameter _ => "parameter"

theorem Payload.label_eq (payload : Payload) : payload.label = payload.role.label := by
  cases payload <;> rfl

/-- The part of an item that places it in its arena. -/
structure Shape where
  parent : Option ItemId
  rank : Nat
  role : Role
  deriving DecidableEq, Repr

def Item.shape (item : Item) : Shape :=
  { parent := item.parent, rank := item.rank, role := item.payload.role }

/-- The lists in which items name those below them. -/
inductive Slot where
  | classes
  | constructors
  | methods
  | fields
  | nested
  | parameters
  deriving DecidableEq, Repr

/-- The list of an item, which is empty if the item has none. -/
def Payload.slot : Payload → Slot → List ItemId
  | .package info, .classes => info.classes
  | .ofClass info, .constructors => info.constructors
  | .ofClass info, .methods => info.methods
  | .ofClass info, .fields => info.fields
  | .ofClass info, .nested => info.nested
  | .method info, .parameters | .constructor info, .parameters => info.parameters
  | _, _ => []

def Role.hasSlot : Role → Slot → Bool
  | .package _, .classes => true
  | .ofClass .., .constructors | .ofClass .., .methods | .ofClass .., .fields
  | .ofClass .., .nested =>
    true
  | .method, .parameters | .constructor, .parameters => true
  | _, _ => false

/-- Whether an item of this shape belongs in the list of `owner`. -/
def Slot.lists (slot : Slot) (owner : ItemId) (shape : Shape) : Bool :=
  match slot, shape.role with
  | .classes, .ofClass _ package _ => package == owner
  | .nested, .ofClass _ _ outer => outer == some owner
  | .constructors, .constructor | .methods, .method | .fields, .field | .parameters, .parameter _ =>
    shape.parent == some owner
  | _, _ => false

namespace Arena

/-- Ids by name. -/
abbrev Table := Std.TreeMap String ItemId

def shapes (items : Array Item) : List Shape := items.toList.map Item.shape

def roleAt (shapes : List Shape) (id : ItemId) : Option Role := shapes[id.index]?.map (·.role)

/-- A list of the item at a place, empty if there is no such item or it has none. -/
def slotAt (items : Array Item) (slot : Slot) (i : Nat) : List ItemId :=
  (items[i]?.map fun item => item.payload.slot slot).getD []

/-- The ids that belong in a list of `owner`, if the first of the shapes is that of item `base`. -/
def listedFrom (slot : Slot) (owner : ItemId) : Nat → List Shape → List ItemId
  | _, [] => []
  | base, shape :: rest =>
    if slot.lists owner shape then ⟨base⟩ :: listedFrom slot owner (base + 1) rest
    else listedFrom slot owner (base + 1) rest

def PackageAt (shapes : List Shape) (id : ItemId) : Prop :=
  ∃ name, roleAt shapes id = some (.package name)

def ClassAt (shapes : List Shape) (id package : ItemId) : Prop :=
  ∃ name outer, roleAt shapes id = some (.ofClass name package outer)

def MethodAt (shapes : List Shape) (id : ItemId) : Prop :=
  roleAt shapes id = some .method ∨ roleAt shapes id = some .constructor

/-- An item of this shape may stand at place `i`. -/
def Placed (shapes : List Shape) (i : Nat) (shape : Shape) : Prop :=
  shape.rank = i ∧
    match shape.role with
    | .package _ => shape.parent = none
    | .ofClass _ package outer =>
      shape.parent = some (outer.getD package) ∧ package.index < i ∧ PackageAt shapes package ∧
        ∀ o, outer = some o → o.index < i ∧ ClassAt shapes o package
    | .constructor | .method | .field =>
      ∃ owner package, shape.parent = some owner ∧ owner.index < i ∧ ClassAt shapes owner package
    | .parameter position =>
      ∃ owner, shape.parent = some owner ∧ owner.index + 1 + position = i ∧ MethodAt shapes owner

/-- The invariant of drafts and surfaces. -/
structure WellFormed (items : Array Item) (packages classes : Table) : Prop where
  placed : ∀ i shape, (shapes items)[i]? = some shape → Placed (shapes items) i shape
  listed : ∀ slot i, slotAt items slot i = listedFrom slot ⟨i⟩ 0 (shapes items)
  parameters : ∀ i, ∃ n, slotAt items .parameters i = (List.range n).map fun k => ⟨i + 1 + k⟩
  packages : ∀ name id, packages[name]? = some id ↔ roleAt (shapes items) id = some (.package name)
  classes : ∀ name id, classes[name]? = some id ↔
    ∃ package outer, roleAt (shapes items) id = some (.ofClass name package outer)

/-! ## Ids that belong in a list -/

section Listed

variable {slot : Slot} {owner : ItemId}

theorem listedFrom_nil (base : Nat) : listedFrom slot owner base [] = [] := rfl

theorem listedFrom_cons (base : Nat) (shape : Shape) (rest : List Shape) :
    listedFrom slot owner base (shape :: rest) =
      if slot.lists owner shape then ⟨base⟩ :: listedFrom slot owner (base + 1) rest
      else listedFrom slot owner (base + 1) rest := rfl

theorem listedFrom_append (base : Nat) (a b : List Shape) : listedFrom slot owner base (a ++ b) =
    listedFrom slot owner base a ++ listedFrom slot owner (base + a.length) b := by
  induction a generalizing base with
  | nil => rfl
  | cons shape rest ih =>
    have hl : base + (shape :: rest).length = base + 1 + rest.length := by
      rw [List.length_cons]; omega
    rw [List.cons_append, listedFrom_cons, listedFrom_cons, ih, hl]
    split <;> rfl

theorem mem_listedFrom {base : Nat} {shapes : List Shape} {id : ItemId} :
    id ∈ listedFrom slot owner base shapes ↔
      ∃ i shape, shapes[i]? = some shape ∧ slot.lists owner shape = true ∧ id.index = base + i := by
  induction shapes generalizing base with
  | nil => simp [listedFrom_nil]
  | cons head rest ih =>
    have hrest : id ∈ listedFrom slot owner (base + 1) rest ↔ ∃ i shape,
        (head :: rest)[i + 1]? = some shape ∧ slot.lists owner shape = true ∧
          id.index = base + (i + 1) := by
      rw [ih]
      simp only [List.getElem?_cons_succ, Nat.add_assoc, Nat.add_comm 1]
    constructor
    · intro h
      by_cases hh : slot.lists owner head = true
      · rw [listedFrom_cons, if_pos hh] at h
        rcases List.mem_cons.mp h with rfl | h
        · exact ⟨0, head, rfl, hh, rfl⟩
        · obtain ⟨i, shape, hs⟩ := hrest.mp h
          exact ⟨i + 1, shape, hs⟩
      · rw [listedFrom_cons, if_neg hh] at h
        obtain ⟨i, shape, hs⟩ := hrest.mp h
        exact ⟨i + 1, shape, hs⟩
    · rintro ⟨i, shape, hs, hl, hi⟩
      cases i with
      | zero =>
        cases hs
        rw [listedFrom_cons, if_pos hl]
        exact List.mem_cons.mpr (.inl (by cases id; simp_all))
      | succ i =>
        have hm := hrest.mpr ⟨i, shape, hs, hl, hi⟩
        rw [listedFrom_cons]
        split
        · exact List.mem_cons_of_mem _ hm
        · exact hm

theorem mem_listedFrom_zero {shapes : List Shape} {id : ItemId} :
    id ∈ listedFrom slot owner 0 shapes ↔
      ∃ shape, shapes[id.index]? = some shape ∧ slot.lists owner shape = true := by
  rw [mem_listedFrom]
  constructor
  · rintro ⟨i, shape, hs, hl, hi⟩
    rw [Nat.zero_add] at hi
    exact ⟨shape, hi ▸ hs, hl⟩
  · rintro ⟨shape, hs, hl⟩
    exact ⟨id.index, shape, hs, hl, (Nat.zero_add _).symm⟩

/-- The ids of a list increase. -/
theorem pairwise_listedFrom (base : Nat) (shapes : List Shape) :
    (listedFrom slot owner base shapes).Pairwise fun a b => a.index < b.index := by
  induction shapes generalizing base with
  | nil => exact .nil
  | cons head rest ih =>
    rw [listedFrom_cons]
    split
    · refine List.pairwise_cons.mpr ⟨?_, ih (base + 1)⟩
      intro id hid
      obtain ⟨i, _, _, _, hi⟩ := mem_listedFrom.mp hid
      rw [hi]
      change base < base + 1 + i
      omega
    · exact ih (base + 1)

theorem nodup_listedFrom (base : Nat) (shapes : List Shape) :
    (listedFrom slot owner base shapes).Nodup := by
  refine (pairwise_listedFrom base shapes).imp ?_
  rintro a b h rfl
  exact Nat.lt_irrefl _ h

end Listed

/-! ## Shapes and lists under the updates of items -/

theorem shapes_length (items : Array Item) : (shapes items).length = items.size := by
  simp [shapes]

theorem getElem?_shapes (items : Array Item) (i : Nat) :
    (shapes items)[i]? = items[i]?.map Item.shape := by
  simp [shapes]

theorem shapes_push (items : Array Item) (item : Item) :
    shapes (items.push item) = shapes items ++ [item.shape] := by
  simp [shapes]

theorem shapes_modify (items : Array Item) (i : Nat) {f : Item → Item}
    (hf : ∀ item, (f item).shape = item.shape) : shapes (items.modify i f) = shapes items := by
  apply List.ext_getElem?
  intro j
  rw [getElem?_shapes, getElem?_shapes, Array.getElem?_modify]
  split
  · cases items[j]? with
    | none => rfl
    | some item => exact congrArg some (hf item)
  · rfl

theorem roleAt_append {shapes : List Shape} {id : ItemId} {role : Role} (ext : List Shape)
    (h : roleAt shapes id = some role) : roleAt (shapes ++ ext) id = some role := by
  unfold roleAt at h ⊢
  obtain ⟨shape, hs, hr⟩ := Option.map_eq_some_iff.mp h
  have hlt : id.index < shapes.length := (List.getElem?_eq_some_iff.mp hs).1
  rw [List.getElem?_append_left hlt, hs, ← hr]
  rfl

theorem roleAt_length (shapes : List Shape) (shape : Shape) (ext : List Shape) :
    roleAt (shapes ++ shape :: ext) ⟨shapes.length⟩ = some shape.role := by
  simp [roleAt]

theorem roleAt_lt {shapes : List Shape} {id : ItemId} {role : Role}
    (h : roleAt shapes id = some role) : id.index < shapes.length := by
  obtain ⟨shape, hs, _⟩ := Option.map_eq_some_iff.mp h
  exact (List.getElem?_eq_some_iff.mp hs).1

theorem PackageAt.append {shapes : List Shape} {id : ItemId} (h : PackageAt shapes id)
    (ext : List Shape) : PackageAt (shapes ++ ext) id := by
  obtain ⟨name, h⟩ := h
  exact ⟨name, roleAt_append ext h⟩

theorem ClassAt.of_some {shapes : List Shape} {outer package : ItemId} (h : ClassAt shapes outer package)
    (o : ItemId) (ho : some outer = some o) : ClassAt shapes o package := Option.some.inj ho ▸ h

theorem ClassAt.append {shapes : List Shape} {id package : ItemId} (h : ClassAt shapes id package)
    (ext : List Shape) : ClassAt (shapes ++ ext) id package := by
  obtain ⟨name, outer, h⟩ := h
  exact ⟨name, outer, roleAt_append ext h⟩

theorem MethodAt.append {shapes : List Shape} {id : ItemId} (h : MethodAt shapes id)
    (ext : List Shape) : MethodAt (shapes ++ ext) id := by
  rcases h with h | h
  · exact .inl (roleAt_append ext h)
  · exact .inr (roleAt_append ext h)

theorem Placed.append {shapes : List Shape} {i : Nat} {shape : Shape} (h : Placed shapes i shape)
    (ext : List Shape) : Placed (shapes ++ ext) i shape := by
  obtain ⟨hrank, h⟩ := h
  refine ⟨hrank, ?_⟩
  cases hr : shape.role <;> simp only [hr] at h ⊢
  case package name => exact h
  case ofClass name package outer =>
    obtain ⟨hp, hlt, hpackage, ho⟩ := h
    exact ⟨hp, hlt, hpackage.append ext, fun o e => ⟨(ho o e).1, (ho o e).2.append ext⟩⟩
  case parameter position =>
    obtain ⟨owner, hp, hlt, hm⟩ := h
    exact ⟨owner, hp, hlt, hm.append ext⟩
  all_goals
    obtain ⟨owner, package, hp, hlt, hc⟩ := h
    exact ⟨owner, package, hp, hlt, hc.append ext⟩

theorem slotAt_push (items : Array Item) (item : Item) (slot : Slot) (i : Nat) :
    slotAt (items.push item) slot i =
      if i = items.size then item.payload.slot slot else slotAt items slot i := by
  unfold slotAt
  rw [Array.getElem?_push]
  split
  · rfl
  · rfl

theorem slotAt_size (items : Array Item) (slot : Slot) {i : Nat} (h : items.size ≤ i) :
    slotAt items slot i = [] := by
  unfold slotAt
  rw [Array.getElem?_eq_none h]
  rfl

/-- A change of an item that only appends an id to one of its lists, if it has that list. -/
structure Links (f : Item → Item) (slot : Slot) (id : ItemId) : Prop where
  shape : ∀ item, (f item).shape = item.shape
  slot : ∀ item other, (f item).payload.slot other =
    if other = slot ∧ item.payload.role.hasSlot slot = true then item.payload.slot other ++ [id]
    else item.payload.slot other

theorem slotAt_modify_links {items : Array Item} {owner : ItemId} {f : Item → Item} {slot : Slot}
    {id : ItemId} (hf : Links f slot id) {role : Role}
    (hr : roleAt (shapes items) owner = some role) (hs : role.hasSlot slot = true) (other : Slot)
    (i : Nat) : slotAt (items.modify owner.index f) other i =
      slotAt items other i ++ if other = slot ∧ i = owner.index then [id] else [] := by
  unfold slotAt
  rw [Array.getElem?_modify]
  by_cases hi : owner.index = i
  · subst hi
    rw [roleAt, getElem?_shapes] at hr
    obtain ⟨item, hitem, rfl⟩ : ∃ item, items[owner.index]? = some item ∧
        item.payload.role = role := by
      cases h : items[owner.index]? with
      | none => rw [h] at hr; cases hr
      | some item => rw [h] at hr; exact ⟨item, rfl, Option.some.inj hr⟩
    simp only [hitem, if_true, Option.map_some, Option.getD_some, hf.slot, hs, and_true]
    split
    · rfl
    · exact (List.append_nil _).symm
  · rw [if_neg hi, if_neg (fun h => hi h.2.symm), List.append_nil]

/-! ## Growth -/

variable {items items' : Array Item} {packages classes packages' classes' : Table}

theorem WellFormed.empty : WellFormed #[] ∅ ∅ where
  placed i shape h := by simp [shapes] at h
  listed slot i := rfl
  parameters i := ⟨0, rfl⟩
  packages name id := by simp [roleAt, shapes]
  classes name id := by simp [roleAt, shapes]

/-- Changes that keep every shape and every list keep the invariant. -/
theorem WellFormed.of_same (h : WellFormed items packages classes)
    (hs : shapes items' = shapes items) (hl : ∀ slot i, slotAt items' slot i = slotAt items slot i) :
    WellFormed items' packages classes where
  placed i shape := by rw [hs]; exact h.placed i shape
  listed slot i := by rw [hl, hs]; exact h.listed slot i
  parameters i := by rw [hl]; exact h.parameters i
  packages name id := by rw [hs]; exact h.packages name id
  classes name id := by rw [hs]; exact h.classes name id

/-- New items behind the old ones keep the invariant if every list grows by what belongs in it. -/
theorem WellFormed.grow (h : WellFormed items packages classes) {ext : List Shape}
    (hs : shapes items' = shapes items ++ ext)
    (hplaced : ∀ j shape, ext[j]? = some shape → Placed (shapes items') (items.size + j) shape)
    (hlisted : ∀ slot i, slotAt items' slot i =
      slotAt items slot i ++ listedFrom slot ⟨i⟩ items.size ext)
    (hparameters : ∀ i, ∃ n, slotAt items' .parameters i = (List.range n).map fun k => ⟨i + 1 + k⟩)
    (hpackages : ∀ name id,
      packages'[name]? = some id ↔ roleAt (shapes items') id = some (.package name))
    (hclasses : ∀ name id, classes'[name]? = some id ↔
      ∃ package outer, roleAt (shapes items') id = some (.ofClass name package outer)) :
    WellFormed items' packages' classes' where
  placed i shape hi := by
    rw [hs] at hi
    by_cases hlt : i < (shapes items).length
    · rw [List.getElem?_append_left hlt] at hi
      rw [hs]
      exact (h.placed i shape hi).append ext
    · rw [List.getElem?_append_right (by omega), shapes_length] at hi
      rw [shapes_length] at hlt
      have hp := hplaced (i - items.size) shape hi
      rwa [Nat.add_sub_cancel' (by omega)] at hp
  listed slot i := by
    rw [hlisted, hs, listedFrom_append, h.listed, shapes_length, Nat.zero_add]
  parameters := hparameters
  packages := hpackages
  classes := hclasses

/-! ## New packages, classes and members -/

/-- The role of a member and the list of its class that it belongs in. -/
inductive MemberRole : Role → Slot → Prop where
  | constructor : MemberRole .constructor .constructors
  | method : MemberRole .method .methods
  | field : MemberRole .field .fields

theorem MemberRole.lists (shape : Shape) {slot : Slot} (h : MemberRole shape.role slot)
    (other : Slot) (owner : ItemId) :
    other.lists owner shape = (decide (other = slot) && shape.parent == some owner) := by
  rcases shape with ⟨parent, rank, role⟩
  cases h <;> cases other <;> simp [Slot.lists]

theorem MemberRole.hasSlot {role : Role} {slot : Slot} (h : MemberRole role slot)
    (name : String) (package : ItemId) (outer : Option ItemId) :
    (Role.ofClass name package outer).hasSlot slot = true := by
  cases h <;> rfl

theorem MemberRole.ne_parameters {role : Role} {slot : Slot} (h : MemberRole role slot) :
    slot ≠ .parameters := by
  cases h <;> exact Slot.noConfusion

theorem MemberRole.placed {shapes : List Shape} {i : Nat} {shape : Shape} {slot : Slot}
    (h : MemberRole shape.role slot) (hrank : shape.rank = i) {owner package : ItemId}
    (hp : shape.parent = some owner) (hlt : owner.index < i) (hc : ClassAt shapes owner package) :
    Placed shapes i shape := by
  rcases shape with ⟨parent, rank, role⟩
  refine ⟨hrank, ?_⟩
  cases h
  all_goals exact ⟨owner, package, hp, hlt, hc⟩

/-- A member has no lists but that of its parameters. -/
theorem MemberRole.slot {payload : Payload} {slot : Slot} (h : MemberRole payload.role slot)
    {other : Slot} (ho : other ≠ .parameters) : payload.slot other = [] := by
  cases payload <;> cases other <;> first | rfl | exact absurd rfl ho | cases h

/-- A member that has parameters is a method or a constructor. -/
theorem MemberRole.method_or_constructor {payload : Payload} {slot : Slot}
    (h : MemberRole payload.role slot) (hp : payload.slot .parameters ≠ []) :
    payload.role = .method ∨ payload.role = .constructor := by
  cases payload with
  | package info => cases h
  | ofClass info => cases h
  | method info => exact .inl rfl
  | constructor info => exact .inr rfl
  | field info => exact absurd rfl hp
  | parameter info => cases h

/-- The shapes of the parameters of the method with this id, when they follow it. -/
def parameterShapes (method : ItemId) (count : Nat) : List Shape :=
  (List.range count).map fun k =>
    { parent := some method, rank := method.index + 1 + k, role := .parameter k }

theorem listedFrom_parameterShapes (slot : Slot) (owner method : ItemId) (count : Nat) :
    listedFrom slot owner (method.index + 1) (parameterShapes method count) =
      if slot = .parameters ∧ owner = method then
        (List.range count).map fun k => ⟨method.index + 1 + k⟩
      else [] := by
  induction count with
  | zero => simp [parameterShapes, listedFrom_nil]
  | succ count ih =>
    have hs : parameterShapes method (count + 1) = parameterShapes method count ++
        [{ parent := some method, rank := method.index + 1 + count, role := .parameter count }] := by
      simp [parameterShapes, List.range_succ]
    have hl : (parameterShapes method count).length = count := by simp [parameterShapes]
    rw [hs, listedFrom_append, ih, hl]
    cases slot
    case parameters =>
      by_cases ho : owner = method
      · simp [ho, listedFrom_cons, listedFrom_nil, Slot.lists, List.range_succ]
      · simp [ho, Ne.symm ho, listedFrom_cons, listedFrom_nil, Slot.lists]
    all_goals simp [listedFrom_cons, listedFrom_nil, Slot.lists]

theorem slotAt_append_of_empty (items : Array Item) {block : List Item} (slot : Slot)
    (hb : ∀ item ∈ block, item.payload.slot slot = []) (i : Nat) :
    slotAt (items ++ block.toArray) slot i = slotAt items slot i := by
  by_cases hi : i < items.size
  · unfold slotAt
    rw [Array.getElem?_append_left hi]
  · rw [slotAt_size items slot (by omega)]
    unfold slotAt
    rw [Array.getElem?_append_right (by omega), List.getElem?_toArray]
    cases h : block[i - items.size]? with
    | none => rfl
    | some item => exact hb item (List.mem_of_getElem? h)

theorem shapes_append (items : Array Item) (block : List Item) :
    shapes (items ++ block.toArray) = shapes items ++ block.map Item.shape := by
  simp [shapes]

theorem WellFormed.roleAt_package (h : WellFormed items packages classes) {ext : List Shape}
    (he : ∀ shape ∈ ext, ∀ name, shape.role ≠ .package name) (name : String) (id : ItemId) :
    packages[name]? = some id ↔ roleAt (shapes items ++ ext) id = some (.package name) := by
  rw [h.packages]
  refine ⟨fun hr => roleAt_append ext hr, fun hr => ?_⟩
  by_cases hlt : id.index < (shapes items).length
  · unfold roleAt at hr ⊢
    rwa [List.getElem?_append_left hlt] at hr
  · unfold roleAt at hr
    rw [List.getElem?_append_right (by omega)] at hr
    obtain ⟨shape, hs, hrole⟩ := Option.map_eq_some_iff.mp hr
    exact absurd hrole (he shape (List.mem_of_getElem? hs) name)

theorem WellFormed.roleAt_class (h : WellFormed items packages classes) {ext : List Shape}
    (he : ∀ shape ∈ ext, ∀ name package outer, shape.role ≠ .ofClass name package outer)
    (name : String) (id : ItemId) : classes[name]? = some id ↔
      ∃ package outer, roleAt (shapes items ++ ext) id = some (.ofClass name package outer) := by
  rw [h.classes]
  constructor
  · rintro ⟨package, outer, hr⟩
    exact ⟨package, outer, roleAt_append ext hr⟩
  · rintro ⟨package, outer, hr⟩
    refine ⟨package, outer, ?_⟩
    by_cases hlt : id.index < (shapes items).length
    · unfold roleAt at hr ⊢
      rwa [List.getElem?_append_left hlt] at hr
    · unfold roleAt at hr
      rw [List.getElem?_append_right (by omega)] at hr
      obtain ⟨shape, hs, hrole⟩ := Option.map_eq_some_iff.mp hr
      exact absurd hrole (he shape (List.mem_of_getElem? hs) name package outer)

/-- The arena with a member of a class added at the end, its parameters behind it, and the class as it
lists the member. -/
def withMember (items : Array Item) (member : Item) (parameters : List Item) (owner : ItemId)
    (link : Item → Item) : Array Item :=
  (items.push member ++ parameters.toArray).modify owner.index link

section Member

variable {member : Item} {parameters : List Item} {owner package : ItemId} {link : Item → Item}
  {slot : Slot}

theorem shapes_withMember (member : Item) (owner : ItemId) (hlink : Links link slot ⟨items.size⟩)
    (hps : parameters.map Item.shape = parameterShapes ⟨items.size⟩ parameters.length) :
    shapes (withMember items member parameters owner link) =
      shapes items ++ member.shape :: parameterShapes ⟨items.size⟩ parameters.length := by
  rw [withMember, shapes_modify _ _ hlink.shape, shapes_append, shapes_push, hps, List.append_assoc]
  rfl

theorem slotAt_withMember (hc : ClassAt (shapes items) owner package)
    (hrole : MemberRole member.payload.role slot) (hlink : Links link slot ⟨items.size⟩)
    (hps : parameters.map Item.shape = parameterShapes ⟨items.size⟩ parameters.length)
    (other : Slot) (i : Nat) : slotAt (withMember items member parameters owner link) other i =
      (if i = items.size then member.payload.slot other else slotAt items other i) ++
        if other = slot ∧ i = owner.index then [⟨items.size⟩] else [] := by
  have hshapes : shapes (items.push member ++ parameters.toArray) = shapes items ++
      member.shape :: parameterShapes ⟨items.size⟩ parameters.length := by
    rw [shapes_append, shapes_push, hps, List.append_assoc]
    rfl
  obtain ⟨name, outer, hc⟩ := hc
  have hr := roleAt_append (member.shape :: parameterShapes ⟨items.size⟩ parameters.length) hc
  rw [← hshapes] at hr
  have hempty : ∀ item ∈ parameters, item.payload.slot other = [] := by
    intro item hi
    have hm := List.mem_map_of_mem (f := Item.shape) hi
    rw [hps] at hm
    obtain ⟨k, _, hk⟩ := List.mem_map.mp hm
    have hrole := congrArg Shape.role hk
    cases hp : item.payload <;> simp [Item.shape, hp, Payload.role] at hrole
    cases other <;> rfl
  rw [withMember, slotAt_modify_links hlink hr (hrole.hasSlot name package outer),
    slotAt_append_of_empty _ other hempty, slotAt_push]

/-- Parameters that follow their method are placed. -/
theorem placed_of_mem_parameterShapes {shapes : List Shape} {method : ItemId} {count k : Nat}
    {shape : Shape} (hmethod : count ≠ 0 → MethodAt shapes method)
    (h : (parameterShapes method count)[k]? = some shape) :
    Placed shapes (method.index + (k + 1)) shape := by
  rw [parameterShapes, List.getElem?_map] at h
  obtain ⟨k', hk, rfl⟩ := Option.map_eq_some_iff.mp h
  obtain ⟨hlt, rfl⟩ := List.getElem?_eq_some_iff.mp hk
  rw [List.length_range] at hlt
  rw [List.getElem_range]
  have hcount : count ≠ 0 := by omega
  refine ⟨?_, method, rfl, by omega, hmethod hcount⟩
  change method.index + 1 + k = method.index + (k + 1)
  omega

/-- What belongs in a list because of a member and its parameters. -/
theorem listedFrom_member {shape : Shape} (hrole : MemberRole shape.role slot)
    (hparent : shape.parent = some owner) (base count : Nat) (other : Slot) (i : Nat) :
    listedFrom other ⟨i⟩ base (shape :: parameterShapes ⟨base⟩ count) =
      (if other = slot ∧ i = owner.index then [⟨base⟩] else []) ++
        if other = .parameters ∧ i = base then
          (List.range count).map fun k => ⟨base + 1 + k⟩ else [] := by
  have hp := listedFrom_parameterShapes other ⟨i⟩ ⟨base⟩ count
  have hl := MemberRole.lists shape hrole other ⟨i⟩
  rw [listedFrom_cons, hp, hl, hparent]
  by_cases ho : other = slot ∧ i = owner.index
  · obtain ⟨rfl, rfl⟩ := ho
    simp
  · rw [if_neg ho, if_neg]
    · simp
    · intro hh
      simp only [Bool.and_eq_true, decide_eq_true_eq, beq_iff_eq, Option.some.injEq] at hh
      exact ho ⟨hh.1, congrArg ItemId.index hh.2.symm⟩

/-- Of a member and its parameters none is a package or a class. -/
theorem role_of_mem_member {shape : Shape} (hrole : MemberRole shape.role slot) {base count : Nat}
    {x : Shape} (hx : x ∈ shape :: parameterShapes ⟨base⟩ count) :
    (∀ name, x.role ≠ .package name) ∧
      ∀ name package outer, x.role ≠ .ofClass name package outer := by
  rcases List.mem_cons.mp hx with rfl | hx
  · refine ⟨fun name he => ?_, fun name package outer he => ?_⟩
    · rw [he] at hrole
      cases hrole
    · rw [he] at hrole
      cases hrole
  · obtain ⟨k, _, rfl⟩ := List.mem_map.mp hx
    exact ⟨fun _ => Role.noConfusion, fun _ _ _ => Role.noConfusion⟩

/-- A new member and its parameters are placed. -/
theorem placed_withMember (hc : ClassAt (shapes items) owner package)
    (hparent : member.parent = some owner) (hrank : member.rank = items.size)
    (hrole : MemberRole member.payload.role slot) {count : Nat}
    (hlist : member.payload.slot .parameters =
      (List.range count).map fun k => ⟨items.size + 1 + k⟩) (j : Nat) (shape : Shape)
    (hj : (member.shape :: parameterShapes ⟨items.size⟩ count)[j]? = some shape) :
    Placed (shapes items ++ member.shape :: parameterShapes ⟨items.size⟩ count) (items.size + j)
      shape := by
  cases j with
  | zero =>
    cases hj
    have howner : owner.index < items.size := by
      obtain ⟨_, _, hr⟩ := hc
      rw [← shapes_length]
      exact roleAt_lt hr
    exact MemberRole.placed hrole hrank hparent howner (hc.append _)
  | succ k =>
    rw [List.getElem?_cons_succ] at hj
    refine placed_of_mem_parameterShapes (fun hcount => ?_) hj
    have hne : member.payload.slot .parameters ≠ [] := by
      rw [hlist]
      simpa using hcount
    have hat := roleAt_length (shapes items) member.shape (parameterShapes ⟨items.size⟩ count)
    rw [shapes_length] at hat
    rcases hrole.method_or_constructor hne with hm | hm
    · exact .inl (hat.trans (congrArg some hm))
    · exact .inr (hat.trans (congrArg some hm))

/-- The lists grow by what belongs in them because of the new member. -/
theorem listed_withMember (hc : ClassAt (shapes items) owner package)
    (hparent : member.parent = some owner) (hrole : MemberRole member.payload.role slot)
    (hlink : Links link slot ⟨items.size⟩)
    (hps : parameters.map Item.shape = parameterShapes ⟨items.size⟩ parameters.length)
    (hlist : member.payload.slot .parameters =
      (List.range parameters.length).map fun k => ⟨items.size + 1 + k⟩) (other : Slot) (i : Nat) :
    slotAt (withMember items member parameters owner link) other i = slotAt items other i ++
      listedFrom other ⟨i⟩ items.size
        (member.shape :: parameterShapes ⟨items.size⟩ parameters.length) := by
  have howner : owner.index < items.size := by
    obtain ⟨_, _, hr⟩ := hc
    rw [← shapes_length]
    exact roleAt_lt hr
  rw [slotAt_withMember hc hrole hlink hps, listedFrom_member hrole hparent]
  by_cases hi : i = items.size
  · subst hi
    rw [if_pos rfl, slotAt_size items other (Nat.le_refl _), if_neg (by omega), List.append_nil,
      List.nil_append, List.nil_append]
    by_cases ho : other = .parameters
    · rw [ho, if_pos ⟨rfl, rfl⟩, hlist]
    · rw [if_neg (fun hh => ho hh.1), hrole.slot ho]
  · have hno : ¬(other = .parameters ∧ i = items.size) := fun hh => hi hh.2
    rw [if_neg hi, if_neg hno, List.append_nil]

/-- A new member keeps the invariant. -/
theorem WellFormed.withMember (h : WellFormed items packages classes)
    (hc : ClassAt (shapes items) owner package) (hparent : member.parent = some owner)
    (hrank : member.rank = items.size) (hrole : MemberRole member.payload.role slot)
    (hlink : Links link slot ⟨items.size⟩)
    (hps : parameters.map Item.shape = parameterShapes ⟨items.size⟩ parameters.length)
    (hlist : member.payload.slot .parameters =
      (List.range parameters.length).map fun k => ⟨items.size + 1 + k⟩) :
    WellFormed (withMember items member parameters owner link) packages classes := by
  have hs := shapes_withMember member owner hlink hps
  have hmember : MemberRole member.shape.role slot := hrole
  refine h.grow hs ?_ (listed_withMember hc hparent hrole hlink hps hlist) ?_ ?_ ?_
  · rw [hs]
    exact placed_withMember hc hparent hrank hrole hlist
  · intro i
    rw [slotAt_withMember hc hrole hlink hps, if_neg (c := .parameters = slot ∧ i = owner.index),
      List.append_nil]
    · by_cases hi : i = items.size
      · rw [if_pos hi, hi]
        exact ⟨parameters.length, hlist⟩
      · rw [if_neg hi]
        exact h.parameters i
    · rintro ⟨hh, _⟩
      exact hrole.ne_parameters hh.symm
  · intro name id
    rw [hs]
    exact h.roleAt_package (fun _ hx => (role_of_mem_member hmember hx).1) name id
  · intro name id
    rw [hs]
    exact h.roleAt_class (fun _ hx => (role_of_mem_member hmember hx).2) name id

end Member

theorem slotAt_push_of_empty {item : Item} (hslot : ∀ slot, item.payload.slot slot = [])
    (items : Array Item) (slot : Slot) (i : Nat) :
    slotAt (items.push item) slot i = slotAt items slot i := by
  rw [slotAt_push]
  split
  · next hi => rw [hslot, hi, slotAt_size items slot (Nat.le_refl _)]
  · rfl

/-- A table that finds some of the items by name finds a new one as well once it has been entered. -/
theorem getElem?_insert_iff {table : Table} {named : String → ItemId → Prop} {size : Nat}
    {name : String} (h : ∀ other id, table[other]? = some id ↔ named other id)
    (hlt : ∀ other id, named other id → id.index < size) (hname : table[name]? = none)
    (other : String) (id : ItemId) : (table.insert name ⟨size⟩)[other]? = some id ↔
      if id.index = size then other = name else named other id := by
  rw [Std.TreeMap.getElem?_insert]
  by_cases hn : name = other
  · subst hn
    rw [if_pos Std.ReflCmp.compare_self]
    constructor
    · intro hid
      cases hid
      exact (if_pos rfl).mpr rfl
    · intro hnamed
      split at hnamed
      · next hi => cases id; cases hi; rfl
      · rw [(h name id).mpr hnamed] at hname
        cases hname
  · rw [if_neg (fun he => hn (Std.LawfulEqCmp.eq_of_compare he)), h]
    split
    · next hi =>
      refine ⟨fun hnamed => ?_, fun he => absurd he.symm hn⟩
      have hid := hlt other id hnamed
      omega
    · exact Iff.rfl

section Package

variable {name : String}

theorem roleAt_concat (shapes : List Shape) (shape : Shape) (id : ItemId) :
    roleAt (shapes ++ [shape]) id =
      if id.index = shapes.length then some shape.role else roleAt shapes id := by
  unfold roleAt
  split
  · next h => rw [h, List.getElem?_append_right (Nat.le_refl _), Nat.sub_self]; rfl
  · next h =>
    by_cases hlt : id.index < shapes.length
    · rw [List.getElem?_append_left hlt]
    · rw [List.getElem?_eq_none (by rw [List.length_append, List.length_singleton]; omega),
        List.getElem?_eq_none (by omega)]

/-- A new package keeps the invariant. -/
theorem WellFormed.withPackage (h : WellFormed items packages classes) (item : Item)
    (hshape : item.shape = { parent := none, rank := items.size, role := .package name })
    (hslot : ∀ slot, item.payload.slot slot = []) (hname : packages[name]? = none) :
    WellFormed (items.push item) (packages.insert name ⟨items.size⟩) classes := by
  have hs := shapes_push items item
  have hsame := slotAt_push_of_empty hslot items
  have hrole : item.shape.role = .package name := by rw [hshape]
  refine h.grow hs ?_ ?_ ?_ ?_ ?_
  · intro j shape hj
    cases j with
    | zero =>
      cases hj
      rw [hshape]
      exact ⟨rfl, rfl⟩
    | succ k => cases hj
  · intro slot i
    have hl : slot.lists ⟨i⟩ item.shape = false := by
      rw [hshape]
      cases slot <;> rfl
    rw [hsame, listedFrom, hl]
    exact (List.append_nil _).symm
  · intro i
    rw [hsame]
    exact h.parameters i
  · intro other id
    have hlt : ∀ other id, roleAt (shapes items) id = some (.package other) →
        id.index < items.size := fun _ _ hr => by
      rw [← shapes_length]
      exact roleAt_lt hr
    rw [hs, roleAt_concat, shapes_length, hrole, getElem?_insert_iff h.packages hlt hname]
    split
    · rw [Option.some.injEq, Role.package.injEq, eq_comm]
    · exact Iff.rfl
  · intro other id
    rw [hs]
    refine h.roleAt_class ?_ other id
    intro shape hm
    rw [List.mem_singleton.mp hm, hrole]
    exact fun _ _ _ => Role.noConfusion

end Package

/-- The arena with a class added at the end, and its package and the class around it as they list
it. -/
def withClass (items : Array Item) (item : Item) (package : ItemId) (linkPackage : Item → Item)
    (outer : Option ItemId) (linkOuter : Item → Item) : Array Item :=
  let items := (items.push item).modify package.index linkPackage
  match outer with
  | none => items
  | some outer => items.modify outer.index linkOuter

section Class

variable {name : String} {item : Item} {package : ItemId} {outer : Option ItemId}
  {linkPackage linkOuter : Item → Item}

theorem shapes_withClass (item : Item) (package : ItemId) (outer : Option ItemId)
    (hp : Links linkPackage .classes ⟨items.size⟩)
    (ho : Links linkOuter .nested ⟨items.size⟩) :
    shapes (withClass items item package linkPackage outer linkOuter) =
      shapes items ++ [item.shape] := by
  unfold withClass
  cases outer with
  | none => rw [shapes_modify _ _ hp.shape, shapes_push]
  | some outer => rw [shapes_modify _ _ ho.shape, shapes_modify _ _ hp.shape, shapes_push]

theorem slotAt_withClass (hpackage : PackageAt (shapes items) package)
    (houter : ∀ o, outer = some o → ClassAt (shapes items) o package)
    (hslot : ∀ slot, item.payload.slot slot = []) (hp : Links linkPackage .classes ⟨items.size⟩)
    (ho : Links linkOuter .nested ⟨items.size⟩) (slot : Slot) (i : Nat) :
    slotAt (withClass items item package linkPackage outer linkOuter) slot i =
      slotAt items slot i ++
        ((if slot = .classes ∧ i = package.index then [⟨items.size⟩] else []) ++
          if slot = .nested ∧ outer = some ⟨i⟩ then [⟨items.size⟩] else []) := by
  have hsame := slotAt_push_of_empty hslot items slot i
  have hs := shapes_push items item
  obtain ⟨_, hpackage⟩ := hpackage.append [item.shape]
  rw [← hs] at hpackage
  unfold withClass
  cases outer with
  | none =>
    have hno : ¬(slot = .nested ∧ (none : Option ItemId) = some ⟨i⟩) := by
      rintro ⟨_, hh⟩
      cases hh
    rw [slotAt_modify_links hp hpackage rfl, hsame, if_neg hno, List.append_nil]
  | some o =>
    obtain ⟨_, _, ho'⟩ := (houter o rfl).append [item.shape]
    rw [← hs, ← shapes_modify _ package.index hp.shape] at ho'
    rw [slotAt_modify_links ho ho' rfl, slotAt_modify_links hp hpackage rfl, hsame,
      List.append_assoc]
    have he : i = o.index ↔ some o = some ⟨i⟩ := by
      cases o
      simp [eq_comm]
    simp only [he]

/-- A new class keeps the invariant. -/
theorem WellFormed.withClass (h : WellFormed items packages classes)
    (hshape : item.shape =
      { parent := some (outer.getD package), rank := items.size,
        role := .ofClass name package outer })
    (hslot : ∀ slot, item.payload.slot slot = []) (hname : classes[name]? = none)
    (hpackage : PackageAt (shapes items) package)
    (houter : ∀ o, outer = some o → ClassAt (shapes items) o package)
    (hp : Links linkPackage .classes ⟨items.size⟩) (ho : Links linkOuter .nested ⟨items.size⟩) :
    WellFormed (withClass items item package linkPackage outer linkOuter) packages
      (classes.insert name ⟨items.size⟩) := by
  have hs := shapes_withClass item package outer hp ho
  have hl := slotAt_withClass hpackage houter hslot hp ho
  have hrole : item.shape.role = .ofClass name package outer := by rw [hshape]
  have hlt {id : ItemId} {role : Role} (hr : roleAt (shapes items) id = some role) :
      id.index < items.size := by
    rw [← shapes_length]
    exact roleAt_lt hr
  -- Only the lists of the package and of the outer class change, and only the table of classes.
  refine h.grow hs ?_ ?_ ?_ ?_ ?_
  · intro j shape hj
    cases j with
    | succ k => cases hj
    | zero =>
      cases hj
      rw [hs, hshape]
      obtain ⟨_, hr⟩ := id hpackage
      refine ⟨rfl, rfl, hlt hr, hpackage.append _, fun o e => ⟨?_, (houter o e).append _⟩⟩
      obtain ⟨_, _, hr⟩ := houter o e
      exact hlt hr
  · intro slot i
    rw [hl, listedFrom, listedFrom]
    congr 1
    have hi : package = ⟨i⟩ ↔ i = package.index := by
      cases package
      simp [eq_comm]
    cases slot <;> simp [Slot.lists, hrole, hi]
  · intro i
    rw [hl]
    simp only [reduceCtorEq, false_and, if_false, List.append_nil]
    exact h.parameters i
  · intro other id
    rw [hs]
    refine h.roleAt_package ?_ other id
    intro shape hm
    rw [List.mem_singleton.mp hm, hrole]
    exact fun _ => Role.noConfusion
  · intro other id
    have hclass : ∀ other id, (∃ package outer,
        roleAt (shapes items) id = some (.ofClass other package outer)) → id.index < items.size :=
      fun _ _ ⟨_, _, hr⟩ => hlt hr
    simp only [hs, roleAt_concat, shapes_length, hrole]
    rw [getElem?_insert_iff h.classes hclass hname]
    split
    · constructor
      · rintro rfl
        exact ⟨package, outer, rfl⟩
      · rintro ⟨_, _, hr⟩
        cases hr
        rfl
    · exact Iff.rfl

end Class

end Arena

def Draft.WellFormed (d : Draft) : Prop := Arena.WellFormed d.items d.packages d.classes

def Surface.WellFormed (s : Surface) : Prop := Arena.WellFormed s.items s.packages s.classes

end ApiSurface
