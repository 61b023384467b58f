import ApiSurface.Proofs.Loading

/-! # Runs that are cut off

A spec is cut off behind any of its elements, at every level of nesting, and so is a list of specs. Where the
additions of a list stop at an element at fault, the list that is cut off right before it leaves the same. -/
namespace ApiSurface

variable {α β : Type}

/-! ## Specs cut off -/

mutual
/-- The class with as many of the elements after it as `count` says. -/
def ClassSpec.upTo : (count : Nat) → ClassSpec → ClassSpec
  | count, ⟨name, kind, modifiers, flags, isStub, superclass, interfaces, typeParameters, constructors,
      methods, fields, nested⟩ =>
    ⟨name, kind, modifiers, flags, isStub, superclass, interfaces, typeParameters,
      constructors.take count, methods.take (count - constructors.length),
      fields.take (count - constructors.length - methods.length),
      takeIn (count - constructors.length - methods.length - fields.length) nested⟩

/-- The classes, the last of them cut off, that have the first elements. -/
def ClassSpec.takeIn : (count : Nat) → List ClassSpec → List ClassSpec
  | 0, _ => []
  | _ + 1, [] => []
  | count + 1, spec :: rest => spec.upTo count :: takeIn (count + 1 - spec.elements.length) rest
end

/-- The package with as many of the elements after it as `count` says. -/
def PackageSpec.upTo (count : Nat) (spec : PackageSpec) : PackageSpec :=
  { spec with classes := ClassSpec.takeIn count spec.classes }

namespace ClassSpec

theorem elements_pos (spec : ClassSpec) : 0 < spec.elements.length := by
  cases spec
  rw [elements]
  exact Nat.succ_pos _

theorem takeIn_zero (specs : List ClassSpec) : takeIn 0 specs = [] := by rw [takeIn]

theorem takeIn_nil (count : Nat) : takeIn count [] = [] := by cases count <;> rw [takeIn]

mutual
theorem elements_upTo : (count : Nat) → (spec : ClassSpec) →
    (spec.upTo count).elements = spec.elements.take (count + 1)
  | count, ⟨name, kind, modifiers, flags, isStub, superclass, interfaces, typeParameters, constructors,
      methods, fields, nested⟩ => by
    rw [upTo, elements, elements, elementsIn_takeIn _ nested]
    simp only [List.take_succ_cons, List.take_append, List.length_map, List.map_take]

theorem elementsIn_takeIn : (count : Nat) → (specs : List ClassSpec) →
    elementsIn (takeIn count specs) = (elementsIn specs).take count
  | count, [] => by rw [takeIn_nil, elementsIn, List.take_nil]
  | 0, spec :: rest => by rw [takeIn_zero, elementsIn, List.take_zero]
  | count + 1, spec :: rest => by
    rw [takeIn, elementsIn, elementsIn, elements_upTo count spec, elementsIn_takeIn _ rest,
      List.take_append]
end

mutual
theorem upTo_of_le : {count : Nat} → (spec : ClassSpec) → spec.elements.length ≤ count + 1 →
    spec.upTo count = spec
  | count, ⟨name, kind, modifiers, flags, isStub, superclass, interfaces, typeParameters, constructors,
      methods, fields, nested⟩, h => by
    simp only [elements, List.length_cons, List.length_append, List.length_map] at h
    rw [upTo, takeIn_of_le nested (by omega), List.take_of_length_le (by omega),
      List.take_of_length_le (by omega), List.take_of_length_le (by omega)]

theorem takeIn_of_le : {count : Nat} → (specs : List ClassSpec) → (elementsIn specs).length ≤ count →
    takeIn count specs = specs
  | count, [], _ => takeIn_nil count
  | 0, spec :: rest, h => by
    rw [elementsIn, List.length_append] at h
    have hpos := spec.elements_pos
    omega
  | count + 1, spec :: rest, h => by
    rw [elementsIn, List.length_append] at h
    rw [takeIn, upTo_of_le spec (by omega), takeIn_of_le rest (by omega)]
end

mutual
/-- An induction from the classes in a class to the class. -/
theorem nested_induction {motive : ClassSpec → Prop}
    (step : ∀ spec : ClassSpec, (∀ inner ∈ spec.nested, motive inner) → motive spec) :
    (spec : ClassSpec) → motive spec
  | ⟨_, _, _, _, _, _, _, _, _, _, _, nested⟩ => step _ (forall_mem_nested_induction step nested)

theorem forall_mem_nested_induction {motive : ClassSpec → Prop}
    (step : ∀ spec : ClassSpec, (∀ inner ∈ spec.nested, motive inner) → motive spec) :
    (specs : List ClassSpec) → ∀ inner ∈ specs, motive inner
  | [] => fun _ h => (List.not_mem_nil h).elim
  | spec :: rest =>
    List.forall_mem_cons.mpr ⟨nested_induction step spec, forall_mem_nested_induction step rest⟩
end

def memberElements (spec : ClassSpec) : List Element :=
  spec.constructors.flatMap (fun m => [.constructor m.name]) ++
    (spec.methods.flatMap (fun m => [.method m.name]) ++
      (spec.fields.flatMap (fun f => [.field f.name]) ++ spec.nested.flatMap elements))

theorem elements_eq (spec : ClassSpec) : spec.elements = [.ofClass spec.name] ++ spec.memberElements := by
  cases spec
  simp only [elements, memberElements, List.map_eq_flatMap, flatMap_elements, List.singleton_append]

end ClassSpec

namespace Draft

open Arena Element

variable {d d' : Draft} {earlier elements rest : List Element} {package id : ItemId}

/-! ## What is left -/

/-- An addition of elements that fails does so at the first element at fault, and leaves what is `Kept` of the
elements before it. -/
def Stops (d : Draft) (a : Addition α) (earlier elements : List Element)
    (Kept : (count : Nat) → Draft → Prop) : Prop :=
  ∀ fault d', d.add a = (.error fault, d') → ∃ before e after, elements = before ++ e :: after ∧
    firstFault? earlier before = none ∧ e.fault? (earlier ++ before) = some fault ∧ Kept before.length d'

/-- The draft is what the addition of the first elements leaves, where `part` has one element more than its
number says. -/
def LeftBy (d : Draft) (part : Nat → Addition ItemId) : (count : Nat) → Draft → Prop
  | 0, d' => d' = d
  | count + 1, d' => ∃ id, d.add (part count) = (.ok id, d')

/-- The draft is what this run of additions leaves when it succeeds. -/
def RunLeaves (d : Draft) (part : Nat → Addition PUnit) (count : Nat) (d' : Draft) : Prop :=
  d.add (part count) = (.ok ⟨⟩, d')

theorem Stops.mono {a : Addition α} {Kept Kept' : Nat → Draft → Prop} (h : d.Stops a earlier elements Kept)
    (hkept : ∀ count d', Kept count d' → Kept' count d') : d.Stops a earlier elements Kept' := by
  intro fault d' hadd
  obtain ⟨before, e, after, heq, hbefore, he, hleft⟩ := h fault d' hadd
  exact ⟨before, e, after, heq, hbefore, he, hkept _ _ hleft⟩

/-- An addition that fails at once leaves the draft as it is. -/
theorem Stops.of_single {a : Addition α} {e : Element} {Kept : Nat → Draft → Prop}
    (hfails : ∀ fault d', d.add a = (.error fault, d') → d' = d)
    (hdecided : d.Decided a earlier [e]) (hkept : Kept 0 d) : d.Stops a earlier [e] Kept := by
  intro fault d' hadd
  refine ⟨[], e, [], rfl, rfl, ?_, hfails fault d' hadd ▸ hkept⟩
  rw [List.append_nil, ← firstFault?_singleton]
  exact hdecided.fails hadd

theorem Stops.bind {a : Addition α} {f : α → Addition β} {Kept Kept' : Nat → Draft → Prop}
    (ha : d.Stops a earlier elements Kept) (hdecided : d.Decided a earlier elements)
    (hkept : ∀ count d', count < elements.length → Kept count d' → Kept' count d')
    (hf : ∀ x d₁, d.add a = (.ok x, d₁) → Grows d d₁ → d₁.Holds (earlier ++ elements) →
      d₁.Stops (f x) (earlier ++ elements) rest fun count => Kept' (elements.length + count)) :
    d.Stops (a >>= f) earlier (elements ++ rest) Kept' := by
  intro fault d' hadd
  -- The element at fault is one of the first part, or all of these are in order and it is one of the rest.
  rcases hr : d.add a with ⟨fault' | x, d₁⟩
  · rw [add_bind_error hr] at hadd
    cases hadd
    obtain ⟨before, e, after, rfl, hbefore, he, hleft⟩ := ha _ _ hr
    refine ⟨before, e, after ++ rest, by rw [List.append_assoc, List.cons_append], hbefore, he, ?_⟩
    exact hkept _ _ (by rw [List.length_append, List.length_cons]; omega) hleft
  · rw [add_bind_ok hr] at hadd
    obtain ⟨hno, hg, hh⟩ := hdecided.succeeds hr
    obtain ⟨before, e, after, rfl, hbefore, he, hleft⟩ := hf x d₁ hr hg hh _ _ hadd
    refine ⟨elements ++ before, e, after, by rw [List.append_assoc], ?_, ?_, ?_⟩
    · rw [firstFault?_append, hno, Option.none_or, hbefore]
    · rwa [List.append_assoc] at he
    · rwa [List.length_append]

/-- An addition of one element that fails leaves the draft as it is, also with more to do behind it. -/
theorem Stops.head {a : Addition ItemId} {f : ItemId → Addition ItemId} {e : Element}
    {part : Nat → Addition ItemId} (hfails : ∀ fault d', d.add a = (.error fault, d') → d' = d)
    (hdecided : d.Decided a earlier [e])
    (hf : ∀ id d₁, d.add a = (.ok id, d₁) → Grows d d₁ → d₁.Holds (earlier ++ [e]) →
      d₁.Stops (f id) (earlier ++ [e]) rest fun count d' => ∃ id', d.add (part count) = (.ok id', d')) :
    d.Stops (a >>= f) earlier ([e] ++ rest) (d.LeftBy part) := by
  have hsingle : d.Stops a earlier [e] fun _ d' => d' = d := .of_single hfails hdecided rfl
  refine hsingle.bind hdecided ?_ fun id d₁ hok hg hh => ?_
  · intro count d' hlt hleft
    cases Nat.lt_one_iff.mp hlt
    exact hleft
  · refine (hf id d₁ hok hg hh).mono fun count d' hleft => ?_
    rw [List.length_singleton, Nat.add_comm]
    exact hleft

/-- What is returned at the end makes no difference. -/
theorem Stops.bind_pure {a : Addition α} {Kept : Nat → Draft → Prop} (h : d.Stops a earlier elements Kept)
    (y : β) : d.Stops (a >>= fun _ => pure y) earlier elements Kept := by
  intro fault d' hadd
  rcases hr : d.add a with ⟨fault' | x, d₁⟩
  · rw [add_bind_error hr] at hadd
    cases hadd
    exact h _ _ hr
  · rw [add_bind_ok hr] at hadd
    cases hadd

/-! ## Runs of additions -/

/-- How specs are cut off: `upTo count` leaves a spec as many elements after the first one, and `take count`
leaves a list of specs as many elements. -/
structure Cuts (elementsOf : α → List Element) (upTo : Nat → α → α) (take : Nat → List α → List α) :
    Prop where
  pos : ∀ x, 0 < (elementsOf x).length
  upTo_of_le : ∀ {count} x, (elementsOf x).length ≤ count + 1 → upTo count x = x
  take_zero : ∀ specs, take 0 specs = []
  take_nil : ∀ count, take count [] = []
  take_cons : ∀ count x specs,
    take (count + 1) (x :: specs) = upTo count x :: take (count + 1 - (elementsOf x).length) specs

section Runs

variable {elementsOf : α → List Element} {upTo : Nat → α → α} {take : Nat → List α → List α}
  {add : α → Addition ItemId}

theorem cuts_members (element : α → Element) :
    Cuts (fun x => [element x]) (fun _ x => x) List.take where
  pos _ := Nat.one_pos
  upTo_of_le _ _ := rfl
  take_zero _ := List.take_zero
  take_nil _ := List.take_nil
  take_cons _ _ _ := List.take_succ_cons

theorem cuts_classes : Cuts ClassSpec.elements ClassSpec.upTo ClassSpec.takeIn where
  pos := ClassSpec.elements_pos
  upTo_of_le := ClassSpec.upTo_of_le
  take_zero := ClassSpec.takeIn_zero
  take_nil := ClassSpec.takeIn_nil
  take_cons count spec rest := by rw [ClassSpec.takeIn]

theorem Cuts.take_of_le (hcuts : Cuts elementsOf upTo take) {count : Nat} {specs : List α}
    (h : (specs.flatMap elementsOf).length ≤ count) : take count specs = specs := by
  induction specs generalizing count with
  | nil => exact hcuts.take_nil count
  | cons x specs ih =>
    rw [List.flatMap_cons, List.length_append] at h
    have hpos := hcuts.pos x
    obtain ⟨more, rfl⟩ : ∃ more, count = more + 1 := ⟨count - 1, by omega⟩
    rw [hcuts.take_cons, hcuts.upTo_of_le x (by omega), ih (by omega)]

/-- A run of additions leaves the run of what it is cut off to. -/
theorem Stops.each (hcuts : Cuts elementsOf upTo take) {Ready : Draft → Prop}
    (hready : ∀ {d d' : Draft}, Ready d → Grows d d' → Ready d')
    (hdecided : ∀ {d : Draft} {earlier : List Element} (x : α), d.Holds earlier → Ready d →
      d.Decided (add x) earlier (elementsOf x))
    (specs : List α) (hadd : ∀ x ∈ specs, ∀ {d : Draft} {earlier : List Element}, d.Holds earlier →
      Ready d → d.Stops (add x) earlier (elementsOf x) (d.LeftBy fun count => add (upTo count x)))
    (h : d.Holds earlier) (hd : Ready d) :
    d.Stops (Addition.each add specs) earlier (specs.flatMap elementsOf)
      (d.RunLeaves fun count => Addition.each add (take count specs)) := by
  induction specs generalizing d earlier with
  | nil => intro fault d' hfail; cases hfail
  | cons x specs ih =>
    rw [List.flatMap_cons]
    refine (hadd x List.mem_cons_self h hd).bind (hdecided x h hd) ?_ ?_
    · intro count d' hlt hleft
      change d.add (Addition.each add (take count (x :: specs))) = (.ok ⟨⟩, d')
      cases count with
      | zero =>
        rw [hcuts.take_zero, Addition.each]
        exact congrArg _ hleft.symm
      | succ count =>
        obtain ⟨id, hok⟩ := hleft
        have hno : count + 1 - (elementsOf x).length = 0 := by omega
        rw [hcuts.take_cons, hno, hcuts.take_zero, Addition.each, add_bind_ok hok, Addition.each]
        rfl
    · intro id d₁ hok hg hh
      refine (ih (fun y hy => hadd y (List.mem_cons_of_mem _ hy)) hh (hready hd hg)).mono ?_
      intro count d' hleft
      change d₁.add (Addition.each add (take count specs)) = (.ok ⟨⟩, d') at hleft
      change d.add (Addition.each add (take _ (x :: specs))) = (.ok ⟨⟩, d')
      have hpos := hcuts.pos x
      obtain ⟨more, hmore⟩ : ∃ more, (elementsOf x).length + count = more + 1 :=
        ⟨(elementsOf x).length + count - 1, by omega⟩
      have hrest : more + 1 - (elementsOf x).length = count := by omega
      rw [hmore, hcuts.take_cons, hrest, hcuts.upTo_of_le x (by omega), Addition.each, add_bind_ok hok, hleft]

end Runs

/-- What a run does for the first of its elements: for none of them nothing, and for all of them all that it
does. -/
structure Parts (a : Addition PUnit) (part : Nat → Addition PUnit) (count : Nat) : Prop where
  none : ∀ d : Draft, d.add (part 0) = (.ok ⟨⟩, d)
  all : ∀ n, count ≤ n → part n = a

theorem Cuts.parts {elementsOf : α → List Element} {upTo : Nat → α → α} {take : Nat → List α → List α}
    (hcuts : Cuts elementsOf upTo take) (add : α → Addition ItemId) (specs : List α) :
    Parts (Addition.each add specs) (fun count => Addition.each add (take count specs))
      (specs.flatMap elementsOf).length where
  none d := by rw [hcuts.take_zero, Addition.each]; rfl
  all n h := by rw [hcuts.take_of_le h]

theorem Parts.seq {a b : Addition PUnit} {p q : Nat → Addition PUnit} {m n : Nat} (ha : Parts a p m)
    (hb : Parts b q n) :
    Parts (a >>= fun _ => b) (fun count => p count >>= fun _ => q (count - m)) (m + n) where
  none d := by rw [add_bind_ok (ha.none d), Nat.zero_sub, hb.none]
  all k h := by rw [ha.all k (by omega), hb.all (k - m) (by omega)]

/-- A run behind a run leaves the part of the first one, or all of it and the part of the second one. -/
theorem Parts.seq_stops {a b : Addition PUnit} {p q : Nat → Addition PUnit} {n : Nat}
    (hp : Parts a p elements.length) (hq : Parts b q n)
    (ha : d.Stops a earlier elements (d.RunLeaves p)) (hdecided : d.Decided a earlier elements)
    (hb : ∀ d₁, Grows d d₁ → d₁.Holds (earlier ++ elements) →
      d₁.Stops b (earlier ++ elements) rest (d₁.RunLeaves q)) :
    d.Stops (a >>= fun _ => b) earlier (elements ++ rest)
      (d.RunLeaves fun count => p count >>= fun _ => q (count - elements.length)) := by
  refine ha.bind hdecided ?_ ?_
  · intro count d' hlt hleft
    change d.add (p count >>= fun _ => q (count - elements.length)) = (.ok ⟨⟩, d')
    rw [add_bind_ok hleft, Nat.sub_eq_zero_of_le (Nat.le_of_lt hlt), hq.none]
  · intro x d₁ hok hg hh
    refine (hb d₁ hg hh).mono fun count d' hleft => ?_
    change d.add (p (elements.length + count) >>= fun _ => q (elements.length + count - elements.length)) =
      (.ok ⟨⟩, d')
    rw [hp.all _ (Nat.le_add_right ..), Nat.add_sub_cancel_left, add_bind_ok hok]
    exact hleft

end Draft

end ApiSurface
