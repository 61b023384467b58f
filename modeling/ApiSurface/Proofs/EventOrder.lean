import ApiSurface.Proofs.Arrangement
import ApiSurface.Proofs.Subjects

/-! # The order of events

A comparison goes package by package and class by class, and inside a class from the class itself to its
constructors, its methods and its fields. The order is stated as a relation on two events, level by level,
and holds between any two of them. A matched event stands for the comparison of what all items have and,
right behind it, for that of what its sort has. -/
namespace ApiSurface

open Arena Surface Comparison

namespace Event

/-- The declaration that the event is about, of a pair the old one. -/
def subject : Event → Decl
  | .matched old _ | .removed old _ => old
  | .added new => new

def package? (e : Event) : Option String := e.subject.homePackage?.map Decl.name

def class? (e : Event) : Option String := e.subject.homeClass?.map Decl.name

/-- The list of a class that the event belongs to. A parameter goes with its method. -/
def slot? (e : Event) : Option Slot := e.subject.homeSlot?

/-- The key of the method or constructor that the event belongs to. -/
def key (e : Event) : MethodKey := .ofDecl (e.subject.containingMethod?.getD e.subject)

/-- Whether the event is about a declaration of the new surface alone. -/
def isAdded : Event → Bool
  | .added _ => true
  | _ => false

/-- Why one event comes before another one of the same class. -/
inductive BeforeInClass (e f : Event) : Prop where
  /-- The class itself goes first. -/
  | ofClass (he : e.slot? = none) (hf : f.slot?.isSome)
  /-- Constructors go before methods and methods before fields. -/
  | slots {a b : Slot} (he : e.slot? = some a) (hf : f.slot? = some b)
      (h : [a, b].Sublist [.constructors, .methods, .fields])
  /-- Constructors and methods go by key, and with equal keys those that are added go last. -/
  | keys {slot : Slot} (hslot : IsMethodSlot slot) (he : e.slot? = some slot)
      (hf : f.slot? = some slot) (h : (e.key.order f.key).isLE)
      (hadded : e.key = f.key → e.isAdded → f.isAdded)
  /-- Fields go by name. -/
  | fields (he : e.slot? = some .fields) (hf : f.slot? = some .fields)
      (h : e.subject.name < f.subject.name)

/-- Why one event comes before another one of the same package. -/
inductive BeforeInPackage (e f : Event) : Prop where
  /-- The package itself goes first. -/
  | package (he : e.class? = none) (hf : f.class?.isSome)
  /-- Classes go by qualified name. -/
  | classes {c d : String} (he : e.class? = some c) (hf : f.class? = some d) (h : c < d)
  | inClass (h : e.class? = f.class?) (hef : e.BeforeInClass f)

/-- Why one event comes before another. -/
inductive Before (e f : Event) : Prop where
  /-- Packages go by name. -/
  | packages {p q : String} (he : e.package? = some p) (hf : f.package? = some q) (h : p < q)
  | inPackage (h : e.package? = f.package?) (hef : e.BeforeInPackage f)

/-- The event is no pair of methods and not about a parameter. -/
structure StandsAlone (e : Event) : Prop where
  parameter : e.subject.asParameter? = none
  pair : ∀ o n, e = .matched o n → o.asMethod? = none

end Event

/-- The events match the parameters of two methods: those in each place that both have. -/
structure PairsParameters (o n : Decl) (events : List Event) : Prop where
  length : events.length = min o.parameters.length n.parameters.length
  pairs : ∀ (k : Nat) e, events[k]? = some e → ∃ x y, e = .matched x y ∧
    x.containingMethod? = some o ∧ x.asParameter?.map (·.position) = some k ∧
    y.containingMethod? = some n ∧ y.asParameter?.map (·.position) = some k

/-- Every pair of methods is followed at once by the pairs of their parameters, and no other event is
about a parameter. -/
inductive Grouped : List Event → Prop where
  | nil : Grouped []
  | methods {o n : Decl} {parameters rest : List Event} (hmethod : o.asMethod?.isSome)
      (hparameters : PairsParameters o n parameters) (h : Grouped rest) :
      Grouped (.matched o n :: (parameters ++ rest))
  | alone {e : Event} {rest : List Event} (he : e.StandsAlone) (h : Grouped rest) :
      Grouped (e :: rest)

/-- The events stand in the order of the walk, and each belongs to a package and a class that have been
matched before. -/
structure InWalkOrder (events : List Event) : Prop where
  before : events.Pairwise Event.Before
  grouped : Grouped events
  inPackage : ∀ e ∈ events, e.class?.isSome → ∃ p q, .matched p q ∈ events ∧
    ∀ side x, e.on side = some x → x.homePackage? = some (side.pick p q)
  inClass : ∀ e ∈ events, e.slot?.isSome → ∃ c d, .matched c d ∈ events ∧
    ∀ side x, e.on side = some x → x.homeClass? = some (side.pick c d)

namespace Event

variable {e f : Event}

/-- What an event is about is a declaration of one of the sides. -/
theorem exists_on_subject (e : Event) : ∃ side, e.on side = some e.subject := by
  cases e with
  | matched o n => exact ⟨.old, rfl⟩
  | removed o place => exact ⟨.old, rfl⟩
  | added n => exact ⟨.new, rfl⟩

/-- Blocks of events, one for each of some increasing names, are in order if the order is that of the
names between two blocks and holds inside each one. -/
theorem pairwise_blocks {R S : Event → Event → Prop} (tag : Event → Option String) {names : List String}
    {block : String → List Event} (hnames : names.Pairwise (· < ·))
    (htag : ∀ name, ∀ e ∈ block name, tag e = some name) (hin : ∀ name, (block name).Pairwise S)
    (hless : ∀ e f a b, tag e = some a → tag f = some b → a < b → R e f)
    (hsame : ∀ e f, tag e = tag f → S e f → R e f) : (names.flatMap block).Pairwise R := by
  refine List.pairwise_flatMap.mpr ⟨fun name _ => ?_, hnames.imp fun {a b} hlt e he f hf => ?_⟩
  · refine (hin name).imp_of_mem fun {e f} he hf hef => hsame e f ?_ hef
    rw [htag name e he, htag name f hf]
  · exact hless e f a b (htag a e he) (htag b f hf) hlt

end Event

namespace Comparison

open Event

variable {s t : Surface} {filter : Filter} {c d p q : Decl} {slot : Slot} {e f : Event}

/-! ## Constructors and methods -/

theorem slot?_of_methodEvents (h : ∀ side, PairSide side s t c d) (hslot : IsMethodSlot slot)
    (he : e ∈ methodEvents d (c.members slot) ((d.members slot).filter filter)) :
    e.slot? = some slot := by
  obtain ⟨side, hside⟩ := e.exists_on_subject
  obtain ⟨_, hrole⟩ := hslot.memberRole
  exact (belongs_of_methodEvents (h side) hrole he hside).2.2

/-- The events of a pairing are about its method or the parameters of it. -/
theorem subject_of_events {newClass : Decl} {pairing : Pairing} (he : e ∈ pairing.events newClass) :
    e.subject = pairing.subject ∨ e.subject ∈ pairing.subject.members .parameters := by
  cases pairing with
  | both o n =>
    rcases mem_events_both.mp he with rfl | ⟨x, y, hxy, rfl⟩
    · exact .inl rfl
    · rw [Decl.parameters_eq] at hxy
      exact .inr (List.of_mem_zip hxy).1
  | oldOnly o =>
    cases List.mem_singleton.mp he
    exact .inl rfl
  | newOnly n =>
    cases List.mem_singleton.mp he
    exact .inl rfl

theorem isAdded_iff_of_events {newClass : Decl} {pairing : Pairing}
    (he : e ∈ pairing.events newClass) : e.isAdded = true ↔ pairing.old? = none := by
  cases pairing with
  | both o n => rcases mem_events_both.mp he with rfl | ⟨x, y, _, rfl⟩ <;> simp [isAdded, Pairing.old?]
  | oldOnly o => cases List.mem_singleton.mp he; simp [isAdded, Pairing.old?]
  | newOnly n => cases List.mem_singleton.mp he; simp [isAdded, Pairing.old?]

/-- The events of a pairing have the key of the method that it is about. -/
theorem key_of_events (h : ∀ side, PairSide side s t c d) (hslot : IsMethodSlot slot)
    {pair : MethodKey × Pairing} (hp : pair ∈ pairUp (sortedByKey (c.members slot))
      (sortedByKey ((d.members slot).filter filter))) (he : e ∈ pair.2.events d) :
    e.key = pair.1 := by
  obtain ⟨_, hrole⟩ := hslot.memberRole
  obtain ⟨side, hside⟩ : ∃ side : Side, side.pick pair.2.old? pair.2.new? = some pair.2.subject := by
    cases pair.2
    · exact ⟨.old, rfl⟩
    · exact ⟨.old, rfl⟩
    · exact ⟨.new, rfl⟩
  obtain ⟨hs, hd⟩ := h side
  have hmember := mem_pick_of_mem_pairUp hp hside
  rw [key_of_mem_pairUp (fun k hk => (mem_sortedByKey hk).2) (fun k hk => (mem_sortedByKey hk).2) hp,
    Event.key]
  rcases subject_of_events he with hsubject | hsubject
  · rw [hsubject, Decl.containingMethod?_eq_none (asParameter?_of_member hs hd hrole hmember)]
    rfl
  · rw [containingMethod?_of_parameter hs ((mem_members hs hd).mp hmember).1 hsubject]
    rfl

/-- Pairings whose keys are in order have events that are in order. -/
theorem beforeInClass_of_events (h : ∀ side, PairSide side s t c d) (hslot : IsMethodSlot slot)
    {pair pair' : MethodKey × Pairing} (hp : pair ∈ pairUp (sortedByKey (c.members slot))
      (sortedByKey ((d.members slot).filter filter)))
    (hp' : pair' ∈ pairUp (sortedByKey (c.members slot)) (sortedByKey ((d.members slot).filter filter)))
    (hle : (pair.1.order pair'.1).isLE = true)
    (hlast : pair.1 = pair'.1 → pair.2.old? = none → pair'.2.old? = none)
    (he : e ∈ pair.2.events d) (hf : f ∈ pair'.2.events d) : e.BeforeInClass f := by
  have hslots : ∀ {e : Event} {pair : MethodKey × Pairing}, pair ∈ pairUp
      (sortedByKey (c.members slot)) (sortedByKey ((d.members slot).filter filter)) →
      e ∈ pair.2.events d → e.slot? = some slot :=
    fun hp he => slot?_of_methodEvents h hslot (mem_methodEvents.mpr ⟨_, hp, he⟩)
  have hkey := key_of_events h hslot hp he
  have hkey' := key_of_events h hslot hp' hf
  refine .keys hslot (hslots hp he) (hslots hp' hf) (by rwa [hkey, hkey']) ?_
  rw [hkey, hkey', isAdded_iff_of_events he, isAdded_iff_of_events hf]
  exact hlast

theorem pairwise_beforeInClass_methodEvents (h : ∀ side, PairSide side s t c d)
    (hslot : IsMethodSlot slot) :
    (methodEvents d (c.members slot) ((d.members slot).filter filter)).Pairwise BeforeInClass := by
  have htrans : ∀ a b c : MethodKey × Pairing, (a.1.order b.1).isLE = true →
      (b.1.order c.1).isLE = true → (a.1.order c.1).isLE = true :=
    fun _ _ _ => Std.TransCmp.isLE_trans
  have hsorted := pairwise_mergeSort_stable htrans (fun a b => isLE_total a.1 b.1)
    (pairwise_old?_pairUp (sortedByKey (c.members slot)) (sortedByKey ((d.members slot).filter filter)))
  refine List.pairwise_flatMap.mpr ⟨fun p hp => ?_, hsorted.imp_of_mem ?_⟩
  · have hp := List.mem_mergeSort.mp hp
    exact List.pairwise_of_forall_mem_list fun e he f hf =>
      beforeInClass_of_events h hslot hp hp (by rw [order_self]; rfl) (fun _ => id) he hf
  · rintro p p' hp hp' ⟨hle, htie⟩ e he f hf
    refine beforeInClass_of_events h hslot (List.mem_mergeSort.mp hp) (List.mem_mergeSort.mp hp') hle
      (fun hkey => htie ?_) he hf
    rw [hkey, order_self]
    rfl

/-! ## Members of two classes -/

theorem slot?_of_fieldEvents (h : ∀ side, PairSide side s t c d)
    (he : e ∈ fieldEvents d (c.members .fields) ((d.members .fields).filter filter)) :
    e.slot? = some .fields := by
  obtain ⟨side, hside⟩ := e.exists_on_subject
  exact (belongs_of_fieldEvents (h side) he hside).2.2

theorem pairwise_name_fieldEvents (newClass : Decl) (old new : List Decl) :
    (fieldEvents newClass old new).Pairwise fun e f => e.subject.name < f.subject.name := by
  rw [fieldEvents_eq]
  have hsingle : ∀ name, (fieldBlock newClass old new name).Pairwise fun _ _ => False := by
    intro name
    obtain ⟨e, he⟩ := fieldBlock_eq newClass old new name
    rw [he]
    exact pairwise_toList e
  refine pairwise_blocks (fun e => some e.subject.name) (pairwise_unionNames _ _)
    (fun name e he => ?_) hsingle (fun e f a b he hf h => ?_) (fun _ _ _ h => h.elim)
  · obtain ⟨side, hside⟩ := e.exists_on_subject
    exact congrArg some (on_fieldBlock he hside).2
  · cases he
    cases hf
    exact h

theorem pairwise_beforeInClass_memberEvents (h : ∀ side, PairSide side s t c d) :
    (memberEvents filter c d).Pairwise BeforeInClass := by
  rw [memberEvents_eq]
  refine List.pairwise_append.mpr ⟨List.pairwise_append.mpr ⟨?_, ?_, ?_⟩, ?_, ?_⟩
  · exact pairwise_beforeInClass_methodEvents h .constructors
  · exact pairwise_beforeInClass_methodEvents h .methods
  · exact fun e he f hf => .slots (slot?_of_methodEvents h .constructors he)
      (slot?_of_methodEvents h .methods hf) (by decide)
  · exact (pairwise_name_fieldEvents _ _ _).imp_of_mem fun he hf hlt =>
      .fields (slot?_of_fieldEvents h he) (slot?_of_fieldEvents h hf) hlt
  · intro e he f hf
    rcases List.mem_append.mp he with he | he
    · exact .slots (slot?_of_methodEvents h .constructors he) (slot?_of_fieldEvents h hf) (by decide)
    · exact .slots (slot?_of_methodEvents h .methods he) (slot?_of_fieldEvents h hf) (by decide)

theorem isSome_slot?_of_memberEvents (h : ∀ side, PairSide side s t c d)
    (he : e ∈ memberEvents filter c d) : e.slot?.isSome := by
  obtain ⟨side, hside⟩ := e.exists_on_subject
  exact (belongs_of_memberEvents (h side) he hside).2.2

/-! ## Classes of two packages -/

theorem class?_of_classBlock (hpq : ∀ side, PairSide side s t p q) {name : String}
    (he : e ∈ classBlock filter p q name) : e.class? = some name := by
  obtain ⟨side, hside⟩ := e.exists_on_subject
  exact (belongs_of_classBlock (hpq side) he hside).2.2

theorem pairwise_beforeInClass_classBlock (hpq : ∀ side, PairSide side s t p q) (name : String) :
    (classBlock filter p q name).Pairwise BeforeInClass := by
  rcases classBlock_eq filter p q name with ⟨c, d, h, _, heq⟩ | ⟨e, heq⟩
  all_goals rw [heq]
  · have hside := fun side => h.pairSide (hpq side)
    refine List.pairwise_cons.mpr ⟨fun f hf => ?_, pairwise_beforeInClass_memberEvents hside⟩
    exact .ofClass (homeSlot?_of_asClass? (h.home (hpq .old)).1) (isSome_slot?_of_memberEvents hside hf)
  · exact pairwise_toList e

theorem pairwise_beforeInPackage_classEvents (hpq : ∀ side, PairSide side s t p q) :
    (classEvents filter p q).Pairwise BeforeInPackage := by
  rw [classEvents_eq]
  exact pairwise_blocks class? (pairwise_unionNames _ _) (fun _ _ he => class?_of_classBlock hpq he)
    (pairwise_beforeInClass_classBlock hpq) (fun _ _ _ _ he hf h => .classes he hf h)
    (fun _ _ h hef => .inClass h hef)

theorem class?_of_classEvents (hpq : ∀ side, PairSide side s t p q) (he : e ∈ classEvents filter p q) :
    e.class?.isSome := by
  rw [classEvents_eq] at he
  obtain ⟨_, _, he⟩ := List.mem_flatMap.mp he
  rw [class?_of_classBlock hpq he]
  rfl

/-! ## Packages of two surfaces -/

theorem package?_of_packageBlock (hs : s.WellFormed) (ht : t.WellFormed) {name : String}
    (he : e ∈ packageBlock s t filter name) : e.package? = some name := by
  obtain ⟨side, hside⟩ := e.exists_on_subject
  exact (belongs_of_packageBlock hs ht he hside).2

theorem pairwise_beforeInPackage_packageBlock (hs : s.WellFormed) (ht : t.WellFormed) (name : String) :
    (packageBlock s t filter name).Pairwise BeforeInPackage := by
  rcases packageBlock_eq hs t filter name with ⟨p, q, h, _, heq⟩ | ⟨e, heq⟩
  all_goals rw [heq]
  · have hside := h.pairSide hs ht
    obtain ⟨_, hpackage, _⟩ := (findPackage?_eq_some hs).mp h.old
    refine List.pairwise_cons.mpr ⟨fun f hf => ?_, pairwise_beforeInPackage_classEvents hside⟩
    exact .package (congrArg _ (homeClass?_of_asPackage? hpackage)) (class?_of_classEvents hside hf)
  · exact pairwise_toList e

theorem pairwise_before_compare (hs : s.WellFormed) (ht : t.WellFormed) (filter : Filter) :
    (s.compare t filter).Pairwise Before := by
  rw [compare_eq]
  exact pairwise_blocks package? (pairwise_unionNames _ _) (fun _ _ he => package?_of_packageBlock hs ht he)
    (pairwise_beforeInPackage_packageBlock hs ht) (fun _ _ _ _ he hf h => .packages he hf h)
    (fun _ _ h hef => .inPackage h hef)

/-! ## Parameters behind their methods -/

theorem pairsParameters_zip (hs : s.WellFormed) (ht : t.WellFormed) {o n : Decl} (ho : s.Declares o)
    (hn : t.Declares n) :
    PairsParameters o n ((o.parameters.zip n.parameters).map fun (x, y) => .matched x y) where
  length := by rw [List.length_map, List.length_zip]
  pairs k e he := by
    rw [List.getElem?_map] at he
    obtain ⟨⟨x, y⟩, hxy, rfl⟩ := Option.map_eq_some_iff.mp he
    obtain ⟨hx, hy⟩ := List.getElem?_zip_eq_some.mp hxy
    obtain ⟨hmethod, hposition⟩ := getElem?_parameters hs ho hx
    obtain ⟨hmethod', hposition'⟩ := getElem?_parameters ht hn hy
    exact ⟨x, y, rfl, hmethod, hposition, hmethod', hposition'⟩

end Comparison

namespace Grouped

open Event

variable {events more : List Event} {e : Event}

theorem append (h : Grouped events) (h' : Grouped more) : Grouped (events ++ more) := by
  induction h with
  | nil => exact h'
  | methods hmethod hparameters _ ih =>
    rw [List.cons_append, List.append_assoc]
    exact .methods hmethod hparameters ih
  | alone he _ ih => exact .alone he ih

theorem flatMap {ι : Type} {l : List ι} {block : ι → List Event} (h : ∀ a ∈ l, Grouped (block a)) :
    Grouped (l.flatMap block) := by
  induction l with
  | nil => exact .nil
  | cons a rest ih =>
    obtain ⟨ha, hrest⟩ := List.forall_mem_cons.mp h
    rw [List.flatMap_cons]
    exact ha.append (ih hrest)

theorem single (he : e.StandsAlone) : Grouped [e] := .alone he .nil

theorem of_forall (h : ∀ e ∈ events, e.StandsAlone) : Grouped events := by
  induction events with
  | nil => exact .nil
  | cons e rest ih =>
    obtain ⟨he, hrest⟩ := List.forall_mem_cons.mp h
    exact .alone he (ih hrest)

theorem pair {o n : Decl} (hmethod : o.asMethod?.isSome) (h : PairsParameters o n events) :
    Grouped (.matched o n :: events) := by
  rw [← List.append_nil events]
  exact .methods hmethod h .nil

end Grouped

namespace Event.StandsAlone

variable {e : Event}

theorem of_none (hparameter : e.subject.asParameter? = none) (hmethod : e.subject.asMethod? = none) :
    e.StandsAlone :=
  ⟨hparameter, fun o n he => by rw [← hmethod, he]; rfl⟩

theorem of_package (h : e.subject.asPackage?.isSome) : e.StandsAlone := by
  obtain ⟨info, hinfo⟩ := Option.isSome_iff_exists.mp h
  have hpay := payload_of_asPackage? hinfo
  exact .of_none (by rw [Decl.asParameter?, hpay]) (by rw [Decl.asMethod?, hpay])

theorem of_class (h : e.subject.asClass?.isSome) : e.StandsAlone := by
  obtain ⟨info, hinfo⟩ := Option.isSome_iff_exists.mp h
  have hpay := payload_of_asClass? hinfo
  exact .of_none (by rw [Decl.asParameter?, hpay]) (by rw [Decl.asMethod?, hpay])

theorem of_field (h : e.subject.item.payload.role = .field) : e.StandsAlone := by
  cases hpay : e.subject.item.payload with
  | field info => exact .of_none (by rw [Decl.asParameter?, hpay]) (by rw [Decl.asMethod?, hpay])
  | _ => rw [hpay] at h; cases h

theorem added {n : Decl} (h : n.asParameter? = none) : (Event.added n).StandsAlone :=
  ⟨h, fun _ _ he => nomatch he⟩

theorem removed {o : Decl} {place : Option Decl} (h : o.asParameter? = none) :
    (Event.removed o place).StandsAlone :=
  ⟨h, fun _ _ he => nomatch he⟩

end Event.StandsAlone

namespace Comparison

open Event

variable {s t : Surface} {filter : Filter} {c d p q : Decl} {slot : Slot} {e : Event}

theorem grouped_methodEvents (h : ∀ side, PairSide side s t c d) (hslot : IsMethodSlot slot) :
    Grouped (methodEvents d (c.members slot) ((d.members slot).filter filter)) := by
  refine Grouped.flatMap fun ⟨key, pairing⟩ hp => ?_
  have hp := List.mem_mergeSort.mp hp
  obtain ⟨hs, hc⟩ := h .old
  obtain ⟨ht, hd⟩ := h .new
  obtain ⟨_, hrole⟩ := hslot.memberRole
  cases pairing with
  | both o n =>
    have ho : o ∈ (Side.old.pick c d).members slot := mem_pick_of_mem_pairUp hp rfl
    have hn : n ∈ (Side.new.pick c d).members slot := mem_pick_of_mem_pairUp hp rfl
    have hdo := ((mem_members hs hc).mp ho).1
    have hdn := ((mem_members ht hd).mp hn).1
    exact .pair (hslot.sort_of_member hs hc ho).1 (pairsParameters_zip hs ht hdo hdn)
  | oldOnly o =>
    have ho : o ∈ (Side.old.pick c d).members slot := mem_pick_of_mem_pairUp hp rfl
    exact .single (.removed (asParameter?_of_member hs hc hrole ho))
  | newOnly n =>
    have hn : n ∈ (Side.new.pick c d).members slot := mem_pick_of_mem_pairUp hp rfl
    exact .single (.added (asParameter?_of_member ht hd hrole hn))

theorem grouped_fieldEvents (h : ∀ side, PairSide side s t c d) :
    Grouped (fieldEvents d (c.members .fields) ((d.members .fields).filter filter)) := by
  have hfield : ∀ e ∈ fieldEvents d (c.members .fields) ((d.members .fields).filter filter),
      e.StandsAlone := by
    intro e he
    obtain ⟨name, he⟩ := mem_fieldEvents.mp he
    obtain ⟨side, hside⟩ := e.exists_on_subject
    obtain ⟨hm, _⟩ := on_fieldBlock he hside
    have hmember : e.subject ∈ (side.pick c d).members .fields := by
      cases side
      · exact hm
      · exact List.mem_of_mem_filter hm
    exact .of_field (role_of_member (h side).wellFormed (h side).declares .field hmember)
  exact .of_forall hfield

theorem grouped_memberEvents (h : ∀ side, PairSide side s t c d) : Grouped (memberEvents filter c d) := by
  rw [memberEvents_eq]
  exact ((grouped_methodEvents h .constructors).append (grouped_methodEvents h .methods)).append
    (grouped_fieldEvents h)

theorem grouped_classEvents (hpq : ∀ side, PairSide side s t p q) : Grouped (classEvents filter p q) := by
  rw [classEvents_eq]
  refine Grouped.flatMap fun name _ => ?_
  have hclass : ∀ side : Side, ∀ c ∈ (side.pick p q).classes, c.asClass?.isSome := by
    intro side c hc
    rw [Decl.classes_eq] at hc
    exact (class_of_mem_classes (hpq side).wellFormed (hpq side).declares hc).1
  unfold classBlock
  split
  · next c d hc hd =>
    obtain ⟨hm, rfl⟩ := lastByName_mem hc
    have h : ClassPair filter p q c d := ⟨hc, hd⟩
    exact .alone (.of_class (hclass .old c hm)) (grouped_memberEvents fun side => h.pairSide (hpq side))
  · next c hc _ =>
    split
    · exact .nil
    · exact .single (.of_class (hclass .old c (lastByName_mem hc).1))
  · next d _ hd =>
    split
    · exact .nil
    · exact .single (.of_class (hclass .new d (List.mem_of_mem_filter (lastByName_mem hd).1)))
  · exact .nil

theorem grouped_compare (hs : s.WellFormed) (ht : t.WellFormed) (filter : Filter) :
    Grouped (s.compare t filter) := by
  rw [compare_eq]
  refine Grouped.flatMap fun name _ => ?_
  unfold packageBlock
  split
  · next p q hp hq =>
    obtain ⟨_, hpackage, rfl⟩ := (findPackage?_eq_some hs).mp hp
    have h : PackagePair s t filter p q := ⟨hp, hq⟩
    exact .alone (.of_package hpackage) (grouped_classEvents (h.pairSide hs ht))
  · next p hp _ => exact .single (.of_package ((findPackage?_eq_some hs).mp hp).2.1)
  · next q _ hq =>
    have hq := (Option.filter_eq_some_iff.mp hq).1
    exact .single (.of_package ((findPackage?_eq_some ht).mp hq).2.1)
  · exact .nil

/-! ## Packages and classes around an event -/

theorem exists_package_of_mem_compare (hs : s.WellFormed) (ht : t.WellFormed)
    (he : e ∈ s.compare t filter) (hclass : e.class?.isSome) :
    ∃ p q, .matched p q ∈ s.compare t filter ∧
      ∀ side x, e.on side = some x → x.homePackage? = some (side.pick p q) := by
  have hpackage : e.subject.asPackage?.isSome → False := by
    intro h
    rw [Event.class?, homeClass?_of_asPackage? h] at hclass
    cases hclass
  rw [compare_eq] at he
  obtain ⟨name, _, he⟩ := List.mem_flatMap.mp he
  rcases packageBlock_cases hs he with ⟨p, q, h, rfl, rfl | he⟩ | ⟨p, hp, _, rfl⟩ | ⟨q, _, hq, rfl⟩
  · exact (hpackage ((findPackage?_eq_some hs).mp h.old).2.1).elim
  · refine ⟨p, q, mem_compare_of_pair hs h (.inl rfl), fun side x hx => ?_⟩
    rw [classEvents_eq] at he
    obtain ⟨_, _, he⟩ := List.mem_flatMap.mp he
    exact (belongs_of_classBlock (h.pairSide hs ht side) he hx).2.1
  · exact (hpackage ((findPackage?_eq_some hs).mp hp).2.1).elim
  · have hq := (Option.filter_eq_some_iff.mp hq).1
    exact (hpackage ((findPackage?_eq_some ht).mp hq).2.1).elim

theorem exists_class_of_mem_compare (hs : s.WellFormed) (ht : t.WellFormed)
    (he : e ∈ s.compare t filter) (hslot : e.slot?.isSome) :
    ∃ c d, .matched c d ∈ s.compare t filter ∧
      ∀ side x, e.on side = some x → x.homeClass? = some (side.pick c d) := by
  obtain ⟨side, hside⟩ := e.exists_on_subject
  obtain ⟨c, d, h, he⟩ := (origin_of_mem_compare hs ht he).member_of_homeSlot? hs ht hside hslot
  exact ⟨c, d, h.mem_compare hs (.inl rfl),
    fun side x hx => (belongs_of_memberEvents (h.pairSide hs ht side) he hx).2.1⟩

end Comparison

/-- Packages of these names, and one with a class that has a method with one parameter and fields of
these names. -/
def Recipe.ofNames (packages fields : List String) : Recipe :=
  { calls := packages.map (fun name => .packageSpec { name }) ++
      (Recipe.ofParameter "x" (fields.map fun name => .published name ⟨"int"⟩)).calls }

namespace Surface

/-- Whatever two surfaces are compared and through whichever filter, the events stand in the order of the
walk. -/
theorem compare_inWalkOrder {s t : Surface} (hs : s.Built) (ht : t.Built) (filter : Filter) :
    InWalkOrder (s.compare t filter) where
  before := pairwise_before_compare hs.wellFormed ht.wellFormed filter
  grouped := grouped_compare hs.wellFormed ht.wellFormed filter
  inPackage _ he hclass := exists_package_of_mem_compare hs.wellFormed ht.wellFormed he hclass
  inClass _ he hslot := exists_class_of_mem_compare hs.wellFormed ht.wellFormed he hslot

/-- The order is that of the names, whichever surface has them and in whichever order it declares them. -/
theorem compare_inWalkOrder_names :
    let s := (Recipe.ofNames ["q"] ["g", "f"]).build 1 "old"
    let t := (Recipe.ofNames ["a"] ["h", "g"]).build 2 "new"
    ((s.compare t .all).map fun e => (e.isAdded, e.subject.describe)) =
        [(true, "package a"), (false, "package p"), (false, "class p.C"), (false, "method p.C.m(int)"),
          (false, "parameter x in p.C.m(int)"), (false, "field p.C.f"), (false, "field p.C.g"),
          (true, "field p.C.h"), (false, "package q")] ∧
      InWalkOrder (s.compare t .all) :=
  ⟨by decide +kernel, compare_inWalkOrder ⟨_, _, _, rfl⟩ ⟨_, _, _, rfl⟩ .all⟩

end Surface

end ApiSurface
