import ApiSurface.Proofs.CutOffRuns

/-! # Additions that fail

An addition that fails has a first element at fault. It leaves the draft that the spec would give if it ended
right before that element, at every level of nesting, and so no trace of the element or of what comes after. -/
namespace ApiSurface

variable {α : Type}

namespace Addition

theorem classesIn_eq_each (package outer : ItemId) (specs : List ClassSpec) :
    classesIn package outer specs = each (classIn package (some outer)) specs := by
  induction specs with
  | nil => rw [classesIn, each]
  | cons spec rest ih => rw [classesIn, each, ih]

def members (package id : ItemId) (spec : ClassSpec) : Addition PUnit :=
  each (constructor id) spec.constructors >>= fun _ => each (method id) spec.methods >>= fun _ =>
    each (field id) spec.fields >>= fun _ => each (classIn package (some id)) spec.nested

theorem classIn_eq (package : ItemId) (outer : Option ItemId) (spec : ClassSpec) :
    classIn package outer spec =
      classHead package outer spec >>= fun id => members package id spec >>= fun _ => pure id := by
  cases spec
  rw [classIn]
  simp only [members, bind_assoc, classesIn_eq_each]

theorem classHead_upTo (package : ItemId) (outer : Option ItemId) (spec : ClassSpec) (count : Nat) :
    classHead package outer (spec.upTo count) = classHead package outer spec := by
  cases spec
  rw [ClassSpec.upTo]
  rfl

end Addition

namespace Draft

open Arena Element

variable {d : Draft} {earlier elements : List Element} {package id : ItemId}

/-! ## Classes -/

theorem constructor_stops (spec : MethodSpec) (h : d.Holds earlier) (hc : ClassAt d.shapes id package) :
    d.Stops (Addition.constructor id spec) earlier [.constructor spec.name]
      (d.LeftBy fun _ => Addition.constructor id spec) :=
  .of_single (fun _ _ => eq_of_add_constructor_error) (constructor_decided spec h hc) rfl

theorem method_stops (spec : MethodSpec) (h : d.Holds earlier) (hc : ClassAt d.shapes id package) :
    d.Stops (Addition.method id spec) earlier [.method spec.name] (d.LeftBy fun _ => Addition.method id spec) :=
  .of_single (fun _ _ => eq_of_add_method_error) (method_decided spec h hc) rfl

theorem field_stops (spec : FieldSpec) (h : d.Holds earlier) (hc : ClassAt d.shapes id package) :
    d.Stops (Addition.field id spec) earlier [.field spec.name] (d.LeftBy fun _ => Addition.field id spec) :=
  .of_single (fun _ _ => eq_of_add_field_error) (field_decided spec h hc) rfl

theorem package_stops (h : d.Holds earlier) (name : String) (flags : ItemFlags) (isStub : Bool) :
    d.Stops (Addition.package name flags isStub) earlier [.package name]
      (d.LeftBy fun _ => Addition.package name flags isStub) :=
  .of_single (fun _ _ => eq_of_add_package_error) (package_decided h name flags isStub) rfl

/-- A class that cannot be added is left up to the first element at fault. -/
def ClassStops (package : ItemId) (outer : Option ItemId) (spec : ClassSpec) : Prop :=
  ∀ {d : Draft} {earlier : List Element}, d.Holds earlier → PackageAt d.shapes package →
    (∀ o, outer = some o → ClassAt d.shapes o package) →
    d.Stops (Addition.classIn package outer spec) earlier spec.elements
      (d.LeftBy fun count => Addition.classIn package outer (spec.upTo count))

theorem members_upTo (package id : ItemId) (spec : ClassSpec) (count : Nat) :
    let constructors := (spec.constructors.flatMap fun m => [Element.constructor m.name]).length
    let methods := (spec.methods.flatMap fun m => [Element.method m.name]).length
    let fields := (spec.fields.flatMap fun f => [Element.field f.name]).length
    Addition.members package id (spec.upTo count) =
      Addition.each (Addition.constructor id) (spec.constructors.take count) >>= fun _ =>
        Addition.each (Addition.method id) (spec.methods.take (count - constructors)) >>= fun _ =>
          Addition.each (Addition.field id) (spec.fields.take (count - constructors - methods)) >>= fun _ =>
            Addition.each (Addition.classIn package (some id))
              (ClassSpec.takeIn (count - constructors - methods - fields) spec.nested) := by
  cases spec
  simp only [← List.map_eq_flatMap, List.length_map, ClassSpec.upTo, Addition.members]

theorem members_stops (spec : ClassSpec) (hinner : ∀ inner ∈ spec.nested, ClassStops package (some id) inner)
    (h : d.Holds earlier) (hpackage : PackageAt d.shapes package) (hc : ClassAt d.shapes id package) :
    d.Stops (Addition.members package id spec) earlier spec.memberElements
      (d.RunLeaves fun count => Addition.members package id (spec.upTo count)) := by
  have hready : ∀ {d d' : Draft}, ClassAt d.shapes id package → Grows d d' → ClassAt d'.shapes id package :=
    fun hc hg => hg.classAt hc
  let Ready (d : Draft) : Prop := PackageAt d.shapes package ∧ ClassAt d.shapes id package
  have hready' : ∀ {d d' : Draft}, Ready d → Grows d d' → Ready d' :=
    fun hd hg => ⟨hg.packageAt hd.1, hg.classAt hd.2⟩
  have hconstructors := cuts_members fun m : MethodSpec => .constructor m.name
  have hmethods := cuts_members fun m : MethodSpec => .method m.name
  have hfields := cuts_members fun f : FieldSpec => .field f.name
  have hpartsConstructors := hconstructors.parts (Addition.constructor id) spec.constructors
  have hpartsNested := cuts_classes.parts (Addition.classIn package (some id)) spec.nested
  have hpartsFields := hfields.parts (Addition.field id) spec.fields
  have hpartsMethods := hmethods.parts (Addition.method id) spec.methods
  simp only [members_upTo]
  -- The class is still there after each run, so the next run has a place.
  refine hpartsConstructors.seq_stops (hpartsMethods.seq (hpartsFields.seq hpartsNested)) ?_ ?_ fun d₁ hg₁ h₁ => ?_
  · exact Stops.each hconstructors hready constructor_decided spec.constructors (fun m _ => constructor_stops m) h hc
  · exact Decided.each hready constructor_decided h hc spec.constructors
  have hc₁ := hg₁.classAt hc
  refine hpartsMethods.seq_stops (hpartsFields.seq hpartsNested) ?_ ?_ fun d₂ hg₂ h₂ => ?_
  · exact Stops.each hmethods hready method_decided spec.methods (fun m _ => method_stops m) h₁ hc₁
  · exact Decided.each hready method_decided h₁ hc₁ spec.methods
  have hc₂ := hg₂.classAt hc₁
  refine hpartsFields.seq_stops hpartsNested ?_ ?_ fun d₃ hg₃ h₃ => ?_
  · exact Stops.each hfields hready field_decided spec.fields (fun f _ => field_stops f) h₂ hc₂
  · exact Decided.each hready field_decided h₂ hc₂ spec.fields
  have hd₃ : Ready d₃ := ⟨((hg₁.trans hg₂).trans hg₃).packageAt hpackage, hg₃.classAt hc₂⟩
  exact Stops.each cuts_classes hready' (fun spec h hd => classIn_decided h hd.1 hd.2.of_some spec) spec.nested
    (fun inner hmem => fun h hd => hinner inner hmem h hd.1 hd.2.of_some) h₃ hd₃

/-- Whatever element of a class is at fault, deep in it or not. -/
theorem classIn_stops (package : ItemId) (outer : Option ItemId) (spec : ClassSpec) :
    ClassStops package outer spec := by
  induction spec using ClassSpec.nested_induction generalizing outer with | step spec ih => ?_
  intro d earlier h hpackage houter
  rw [Addition.classIn_eq, spec.elements_eq]
  have hhead := classHead_decided spec h hpackage houter
  refine .head (fun _ _ => eq_of_add_classHead_error) hhead fun id d₁ hok hg h₁ => ?_
  have hc := (classHead_grows h.wellFormed hpackage houter spec).2 id d₁ hok
  have hmembers := members_stops spec (fun inner hmem => ih inner hmem (some id)) h₁
    (hg.packageAt hpackage) hc
  refine (hmembers.bind_pure id).mono fun count d' hleft => ⟨id, ?_⟩
  rw [Addition.classIn_eq, Addition.classHead_upTo, add_bind_ok hok, add_bind_ok hleft]
  rfl

/-! ## Calls -/

/-- What does the same as the addition of a class for each class stops as that does. -/
theorem stops_of_classIn {add : ClassSpec → Addition ItemId} {outer : Option ItemId} (spec : ClassSpec)
    (hadd : ∀ spec, d.add (add spec) = d.add (Addition.classIn package outer spec)) (h : d.Holds earlier)
    (hpackage : PackageAt d.shapes package) (houter : ∀ o, outer = some o → ClassAt d.shapes o package) :
    d.Stops (add spec) earlier spec.elements (d.LeftBy fun count => add (spec.upTo count)) := by
  unfold Stops LeftBy
  simp only [hadd]
  exact classIn_stops package outer spec h hpackage houter

theorem topLevelClass_stops (spec : ClassSpec) (h : d.Holds earlier) (hp : PackageAt d.shapes package) :
    d.Stops (Addition.topLevelClass package spec) earlier spec.elements
      (d.LeftBy fun count => Addition.topLevelClass package (spec.upTo count)) := by
  obtain ⟨info, hinfo⟩ := packageInfo_of_packageAt hp
  refine stops_of_classIn spec (fun spec => ?_) h hp fun o (ho : none = some o) => by cases ho
  rw [add_topLevelClass, hinfo]

theorem packageSpec_stops (spec : PackageSpec) (h : d.Holds earlier) :
    d.Stops (Addition.packageSpec spec) earlier spec.elements
      (d.LeftBy fun count => Addition.packageSpec (spec.upTo count)) := by
  have helements : spec.elements = [.package spec.name] ++ spec.classes.flatMap ClassSpec.elements := by
    rw [List.singleton_append, ClassSpec.flatMap_elements]
    rfl
  have hready : ∀ {package : ItemId} {d d' : Draft}, PackageAt d.shapes package → Grows d d' →
      PackageAt d'.shapes package := fun hp hg => hg.packageAt hp
  have hpackage := package_decided h spec.name spec.flags spec.isStub
  rw [helements]
  refine .head (fun _ _ => eq_of_add_package_error) hpackage fun id d₁ hok hg h₁ => ?_
  have hclasses := Stops.each cuts_classes hready topLevelClass_decided spec.classes
    (fun inner _ => topLevelClass_stops inner) h₁ (packageAt_of_add h.wellFormed hok)
  refine (hclasses.bind_pure id).mono fun count d' hleft => ⟨id, ?_⟩
  change d.add (Addition.package spec.name spec.flags spec.isStub >>= fun id =>
    Addition.each (Addition.topLevelClass id) (ClassSpec.takeIn count spec.classes) >>= fun _ => pure id) =
      (.ok id, d')
  rw [add_bind_ok hok, add_bind_ok hleft]
  rfl

theorem nestedClass_decided {outer : ItemId} (spec : ClassSpec) (h : d.Holds earlier) {info : ClassInfo}
    (hinfo : d.classInfo outer = .ok info) :
    d.Decided (Addition.nestedClass outer spec) earlier spec.elements := by
  have hc := classInfo_ok hinfo
  have hadd := add_nestedClass d outer spec
  rw [hinfo] at hadd
  have hclass := classIn_decided h (WellFormed.package_of_classAt h.wellFormed hc) hc.of_some spec
  exact ⟨fun hr => hclass.fails (hadd ▸ hr), fun hr => hclass.succeeds (hadd ▸ hr)⟩

theorem nestedClass_stops {outer : ItemId} (spec : ClassSpec) (h : d.Holds earlier) {info : ClassInfo}
    (hinfo : d.classInfo outer = .ok info) :
    d.Stops (Addition.nestedClass outer spec) earlier spec.elements
      (d.LeftBy fun count => Addition.nestedClass outer (spec.upTo count)) := by
  have hc := classInfo_ok hinfo
  refine stops_of_classIn spec (fun spec => ?_) h (WellFormed.package_of_classAt h.wellFormed hc) hc.of_some
  rw [add_nestedClass, hinfo]

/-- What is wrong with an element that is to be added to a draft behind the elements `before`. -/
def fault? (d : Draft) (before : List Element) (e : Element) : Option Fault :=
  (e.fault? before).or ((e.taken?.filter d.classes.contains).map .duplicateClass)

/-- Nothing is wrong with any of the elements, where it stands. -/
def InOrder (d : Draft) (elements : List Element) : Prop :=
  ∀ before e after, elements = before ++ e :: after → d.fault? before e = none

theorem Holds.fault?_eq (h : d.Holds earlier) (before : List Element) (e : Element) :
    d.fault? before e = e.fault? (earlier ++ before) := by
  cases e with
  | ofClass name =>
    have htaken : Text.trimmed name ∈ taken (earlier ++ before) ↔
        Text.trimmed name ∈ taken before ∨ d.classes.contains (Text.trimmed name) = true := by
      rw [taken_append, List.mem_append, h.classes, or_comm]
    simp only [Draft.fault?, Element.fault?, taken?, htaken, Option.filter_some, Option.or_assoc]
    by_cases hbefore : Text.trimmed name ∈ taken before
    · simp [hbefore]
    · cases hname : d.classes.contains (Text.trimmed name) <;> simp [hbefore]
  | _ => simp only [Draft.fault?, Element.fault?, taken?, Option.filter_none, Option.map_none, Option.or_none]

theorem Holds.inOrder (h : d.Holds earlier) (hno : firstFault? earlier elements = none) :
    d.InOrder elements := by
  rintro before e after rfl
  rw [firstFault?_append, Option.or_eq_none_iff, firstFault?, Option.or_eq_none_iff] at hno
  rw [h.fault?_eq, hno.2.1]

end Draft

def faultOf? : Except Fault α → Option Fault
  | .ok _ => none
  | .error fault => some fault

theorem exists_ok {r : Except Fault α} (h : faultOf? r = none) : ∃ x, r = .ok x := by
  cases r with
  | ok x => exact ⟨x, rfl⟩
  | error fault => cases h

theorem eq_error {r : Except Fault α} {fault : Fault} (h : faultOf? r = some fault) : r = .error fault := by
  cases r with
  | ok x => cases h
  | error fault' =>
    cases h
    rfl

theorem Draft.add_eq_error {d : Draft} {a : Addition α} {fault : Fault} (h : faultOf? (d.add a).1 = some fault) :
    d.add a = (.error fault, (d.add a).2) := Prod.ext (eq_error h) rfl

namespace BuildCall

open Arena Element

variable {d d' : Draft} {earlier : List Element} {fault fault' : Fault} {call : BuildCall}

def elements : BuildCall → List Element
  | .package name _ _ => [.package name]
  | .packageSpec spec => spec.elements
  | .topLevelClass _ spec | .nestedClass _ spec => spec.elements
  | .constructor _ spec => [.constructor spec.name]
  | .method _ spec => [.method spec.name]
  | .field _ spec => [.field spec.name]

/-- The call for as many of the elements after the first one as `count` says. -/
def upTo (count : Nat) : BuildCall → BuildCall
  | .packageSpec spec => .packageSpec (spec.upTo count)
  | .topLevelClass id spec => .topLevelClass id (spec.upTo count)
  | .nestedClass outer spec => .nestedClass outer (spec.upTo count)
  | call => call

/-- What is wrong with the place that a call names: there is no such item, or it is of another sort. -/
def placeFault? (d : Draft) : BuildCall → Option Fault
  | .package _ _ _ | .packageSpec _ => none
  | .topLevelClass id _ => faultOf? (d.packageInfo id)
  | .nestedClass owner _ | .constructor owner _ | .method owner _ | .field owner _ =>
    faultOf? (d.classInfo owner)

theorem elements_upTo (count : Nat) (call : BuildCall) :
    (call.upTo count).elements = call.elements.take (count + 1) := by
  cases call with
  | packageSpec spec =>
    simp only [upTo, elements, PackageSpec.upTo, PackageSpec.elements, ClassSpec.elementsIn_takeIn,
      List.take_succ_cons]
  | topLevelClass id spec => exact spec.elements_upTo count
  | nestedClass outer spec => exact spec.elements_upTo count
  | _ => simp only [upTo, elements, List.take_succ_cons, List.take_nil]

/-- What a call adds is decided by its elements, if there is a place for them, and what it leaves when it fails
is the call cut off. -/
theorem decided_stops (h : d.Holds earlier) (hplace : call.placeFault? d = none) :
    d.Decided call.addition earlier call.elements ∧
      d.Stops call.addition earlier call.elements (d.LeftBy fun count => (call.upTo count).addition) := by
  cases call with
  | package name flags isStub =>
    exact ⟨Draft.package_decided h name flags isStub, Draft.package_stops h name flags isStub⟩
  | packageSpec spec => exact ⟨Draft.packageSpec_decided spec h, Draft.packageSpec_stops spec h⟩
  | topLevelClass id spec =>
    obtain ⟨info, hinfo⟩ := exists_ok hplace
    have hp := Draft.packageInfo_ok hinfo
    exact ⟨Draft.topLevelClass_decided spec h hp, Draft.topLevelClass_stops spec h hp⟩
  | nestedClass owner spec =>
    obtain ⟨info, hinfo⟩ := exists_ok hplace
    exact ⟨Draft.nestedClass_decided spec h hinfo, Draft.nestedClass_stops spec h hinfo⟩
  | constructor owner spec =>
    obtain ⟨info, hinfo⟩ := exists_ok hplace
    have hc := Draft.classInfo_ok hinfo
    exact ⟨Draft.constructor_decided spec h hc, Draft.constructor_stops spec h hc⟩
  | method owner spec =>
    obtain ⟨info, hinfo⟩ := exists_ok hplace
    have hc := Draft.classInfo_ok hinfo
    exact ⟨Draft.method_decided spec h hc, Draft.method_stops spec h hc⟩
  | field owner spec =>
    obtain ⟨info, hinfo⟩ := exists_ok hplace
    have hc := Draft.classInfo_ok hinfo
    exact ⟨Draft.field_decided spec h hc, Draft.field_stops spec h hc⟩

/-- A call for a place that is not there fails for that reason, unless it is for a member without a name. -/
theorem add_of_placeFault? (hplace : call.placeFault? d = some fault) :
    d.add call.addition = (.error fault, d) ∨
      ∃ e fault', d.add call.addition = (.error fault', d) ∧ call.elements = [e] ∧
        ∀ earlier, e.fault? earlier = some fault' := by
  cases call with
  | package name flags isStub => cases hplace
  | packageSpec spec => cases hplace
  | topLevelClass id spec =>
    left
    rw [addition, Draft.add_topLevelClass, eq_error hplace]
  | nestedClass owner spec =>
    left
    rw [addition, Draft.add_nestedClass, eq_error hplace]
  | constructor owner spec =>
    left
    rw [addition, Draft.add_constructor, eq_error hplace]
  | method owner spec =>
    rw [addition, Draft.add_method, eq_error hplace]
    by_cases hblank : Text.isAllBlank spec.name = true
    · exact .inr ⟨_, _, if_pos hblank, rfl, fun _ => if_pos hblank⟩
    · exact .inl (if_neg hblank)
  | field owner spec =>
    rw [addition, Draft.add_field, eq_error hplace]
    by_cases hblank : Text.isAllBlank spec.name = true
    · exact .inr ⟨_, _, if_pos hblank, rfl, fun _ => if_pos hblank⟩
    · exact .inl (if_neg hblank)

end BuildCall

/-- The draft that a failed call leaves. -/
inductive Draft.Leaves (d : Draft) (call : BuildCall) (fault : Fault) : Draft → Prop where
  /-- There is no place for what is to be added. -/
  | misplaced (place : call.placeFault? d = some fault) : d.Leaves call fault d
  /-- The first of the elements is at fault. -/
  | first {e : Element} {after : List Element} (elements : call.elements = e :: after)
      (atFault : d.fault? [] e = some fault) : d.Leaves call fault d
  /-- A later element is at fault, and the call that ends right before it adds all the others. -/
  | later {e : Element} {before after : List Element} {count : Nat} {id : ItemId} {d' : Draft}
      (elements : call.elements = before ++ e :: after) (inOrder : d.InOrder before)
      (atFault : d.fault? before e = some fault) (cutOff : (call.upTo count).elements = before)
      (left : d.add (call.upTo count).addition = (.ok id, d')) : d.Leaves call fault d'

namespace Draft

variable {d d' : Draft} {earlier : List Element} {call : BuildCall} {fault : Fault}

theorem Holds.leaves (h : d.Holds earlier) (hadd : d.add call.addition = (.error fault, d')) :
    d.Leaves call fault d' := by
  cases hplace : call.placeFault? d with
  | some misplaced =>
    rcases BuildCall.add_of_placeFault? hplace with heq | ⟨e, fault', heq, helements, he⟩
    · cases heq.symm.trans hadd
      exact .misplaced hplace
    · cases heq.symm.trans hadd
      exact .first helements (by rw [h.fault?_eq, he])
  | none =>
    obtain ⟨before, e, after, helements, hbefore, he, hleft⟩ := (BuildCall.decided_stops h hplace).2 fault d' hadd
    rw [← h.fault?_eq] at he
    cases hcount : before.length with
    | zero =>
      rw [hcount] at hleft
      cases List.length_eq_zero_iff.mp hcount
      cases hleft
      exact .first helements he
    | succ count =>
      rw [hcount] at hleft
      obtain ⟨id, hleft⟩ := hleft
      refine .later helements (h.inOrder hbefore) he ?_ hleft
      rw [BuildCall.elements_upTo, helements, ← hcount, List.take_left]

/-- A draft holds elements again after a call, also after one that fails. -/
theorem Holds.add (h : d.Holds earlier) (call : BuildCall) :
    ∃ elements, (d.add call.addition).2.Holds elements := by
  have hok : ∀ {call : BuildCall} {id : ItemId} {d' : Draft}, d.add call.addition = (.ok id, d') →
      ∃ elements, d'.Holds elements := by
    intro call id d' hadd
    cases hplace : call.placeFault? d with
    | some misplaced =>
      rcases BuildCall.add_of_placeFault? hplace with heq | ⟨e, fault', heq, -⟩
      · cases heq.symm.trans hadd
      · cases heq.symm.trans hadd
    | none => exact ⟨_, ((BuildCall.decided_stops h hplace).1.succeeds hadd).2.2⟩
  rcases hadd : d.add call.addition with ⟨fault | id, d'⟩
  · cases h.leaves hadd with
    | misplaced place => exact ⟨earlier, h⟩
    | first elements atFault => exact ⟨earlier, h⟩
    | later elements inOrder atFault cutOff left => exact hok left
  · exact hok hadd

end Draft

namespace Recipe

variable (r : Recipe)

/-- What a failed call leaves is a draft that calls without a fault make, so it holds elements as well. -/
theorem draft_holds (location : String) : ∃ elements, (r.draft location).Holds elements := by
  have hrun : ∀ (calls : List BuildCall) (d : Draft) (earlier : List Element), d.Holds earlier →
      ∃ elements, (calls.foldl (fun d call => (d.add call.addition).2) d).Holds elements := by
    intro calls
    induction calls with
    | nil => exact fun d earlier h => ⟨earlier, h⟩
    | cons call rest ih =>
      intro d earlier h
      obtain ⟨elements, h'⟩ := h.add call
      exact ih _ elements h'
  exact hrun r.calls _ [] ⟨Arena.WellFormed.empty, fun name => by simp [Element.taken]⟩

/-- Whatever a builder has done before, a call that fails adds what comes before the first element at fault,
and a call for a single element nothing. -/
theorem failed_call_leaves (location : String) (call : BuildCall) {fault : Fault} {d' : Draft}
    (h : (r.draft location).add call.addition = (.error fault, d')) :
    (r.draft location).Leaves call fault d' ∧
      (call.elements.length = 1 → d' = r.draft location) := by
  obtain ⟨earlier, hholds⟩ := r.draft_holds location
  have hleaves := hholds.leaves h
  refine ⟨hleaves, fun hsingle => ?_⟩
  cases hleaves with
  | misplaced place => rfl
  | first elements atFault => rfl
  | later elements inOrder atFault cutOff left =>
    rw [BuildCall.elements_upTo, List.take_of_length_le (by omega)] at cutOff
    rw [cutOff] at elements
    exact absurd (List.append_cancel_left (elements.symm.trans (List.append_nil _).symm)) (List.cons_ne_nil _ _)

def started : Recipe := { calls := [.packageSpec { name := "p", classes := [{ name := "p.A" }] }] }

/-- A call that fails at a nameless method of a nested class. A field and two more classes come after it. -/
def interrupting : BuildCall :=
  .packageSpec
    { name := "p"
      classes := [
        { name := "p.B", constructors := [{}], nested := [
            { name := "p.B.C", methods := [.published "m", {}], fields := [.published "f" ⟨"int"⟩] },
            { name := "p.B.D" }] },
        { name := "p.E" }] }

theorem failed_call_leaves_interrupting :
    let d := started.draft "s"
    ∃ fault d', d.add interrupting.addition = (.error fault, d') ∧ d.Leaves interrupting fault d' ∧
      d'.classes.contains "p.B.C" = true ∧ d'.classes.contains "p.B.D" = false ∧
      (d.add (BuildCall.method ⟨1⟩ {}).addition).2 = d := by
  intro d
  have hfault : faultOf? (d.add interrupting.addition).1 = some (.invalidName "method" "name is empty") := by
    decide +kernel
  have hfault' : faultOf? (d.add (BuildCall.method ⟨1⟩ {}).addition).1 =
      some (.invalidName "method" "name is empty") := by decide +kernel
  have hadd := Draft.add_eq_error hfault
  have hadd' := Draft.add_eq_error hfault'
  exact ⟨_, _, hadd, (started.failed_call_leaves "s" interrupting hadd).1, by decide +kernel,
    by decide +kernel, (started.failed_call_leaves "s" (.method ⟨1⟩ {}) hadd').2 rfl⟩

end Recipe

end ApiSurface
