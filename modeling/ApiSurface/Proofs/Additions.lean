import ApiSurface.Draft

/-! # What additions do

Every addition answers by a result and leaves a draft, whether it fails or not. Each operation that the
others are made of is given in one equation, and a sequence is decided at its first fault. -/
namespace ApiSurface

variable {α β : Type}

namespace Draft

variable (d : Draft)

theorem add_get : d.add (get : Addition Draft) = (.ok d, d) := rfl

theorem add_lift (r : Except Fault α) : d.add (liftM r : Addition α) = (r, d) := rfl

/-- A fault ends a sequence, and what was done before it stays. -/
theorem add_bind (a : Addition α) (f : α → Addition β) : d.add (a >>= f) =
    match d.add a with
    | (.ok x, d') => d'.add (f x)
    | (.error fault, d') => (.error fault, d') := by
  unfold Draft.add
  rcases h : a.run.run d with ⟨_ | x, d'⟩
  · simp only [ExceptT.run_bind, StateT.run_bind, h]; rfl
  · simp only [ExceptT.run_bind, StateT.run_bind, h]; rfl

theorem add_bind_ok {d d' : Draft} {a : Addition α} {x : α} (h : d.add a = (.ok x, d'))
    (f : α → Addition β) : d.add (a >>= f) = d'.add (f x) := by
  rw [add_bind, h]

theorem add_bind_error {d d' : Draft} {a : Addition α} {fault : Fault}
    (h : d.add a = (.error fault, d')) (f : α → Addition β) :
    d.add (a >>= f) = (.error fault, d') := by
  rw [add_bind, h]

theorem add_requireName (sort reason name : String) (f : Unit → Addition β) :
    d.add (Addition.requireName sort reason name >>= f) =
      if Text.isAllBlank name then (.error (.invalidName sort reason), d) else d.add (f ⟨⟩) := by
  unfold Addition.requireName
  by_cases h : Text.isAllBlank name = true
  · rw [if_pos h, if_pos h]
    exact add_bind_error rfl f
  · rw [if_neg h, if_neg h]
    exact add_bind_ok rfl f

def pushPackage (name : String) (flags : ItemFlags) (isStub : Bool) : Draft :=
  { d.push none (.ofVisibility .publicAccess) flags (!isStub) (.package { name }) with
    packages := d.packages.insert name d.nextId }

theorem add_package (name : String) (flags : ItemFlags) (isStub : Bool) :
    d.add (Addition.package name flags isStub) =
      if Text.isAllBlank name then (.error (.invalidName "package" "name is empty"), d)
      else match d.packages[name]? with
        | some id => (.ok id, d)
        | none => (.ok d.nextId, d.pushPackage name flags isStub) := by
  unfold Addition.package
  rw [add_requireName]
  congr 1
  simp only [add_bind, add_get]
  cases d.packages[name]? with
  | some id => rfl
  | none => rfl

theorem add_constructor (owner : ItemId) (spec : MethodSpec) :
    d.add (Addition.constructor owner spec) =
      match d.classInfo owner with
      | .ok info => (.ok d.nextId, d.pushMethod owner info true spec)
      | .error fault => (.error fault, d) := by
  unfold Addition.constructor
  simp only [add_bind, add_get, add_lift]
  cases d.classInfo owner with
  | ok info => rfl
  | error fault => rfl

theorem add_method (owner : ItemId) (spec : MethodSpec) :
    d.add (Addition.method owner spec) =
      if Text.isAllBlank spec.name then (.error (.invalidName "method" "name is empty"), d)
      else match d.classInfo owner with
        | .ok info => (.ok d.nextId, d.pushMethod owner info false spec)
        | .error fault => (.error fault, d) := by
  unfold Addition.method
  rw [add_requireName]
  congr 1
  simp only [add_bind, add_get, add_lift]
  cases d.classInfo owner with
  | ok info => rfl
  | error fault => rfl

theorem add_field (owner : ItemId) (spec : FieldSpec) :
    d.add (Addition.field owner spec) =
      if Text.isAllBlank spec.name then (.error (.invalidName "field" "name is empty"), d)
      else match d.classInfo owner with
        | .ok _ => (.ok d.nextId, d.pushField owner spec)
        | .error fault => (.error fault, d) := by
  unfold Addition.field
  rw [add_requireName]
  congr 1
  simp only [add_bind, add_get, add_lift]
  cases d.classInfo owner with
  | ok info => rfl
  | error fault => rfl

theorem add_classHead (package : ItemId) (outer : Option ItemId) (spec : ClassSpec) :
    d.add (Addition.classHead package outer spec) =
      if Text.isAllBlank spec.name then
        (.error (.invalidName "class" "qualified name is empty"), d)
      else if d.classes.contains (Text.trimmed spec.name) then
        (.error (.duplicateClass (Text.trimmed spec.name)), d)
      else (.ok d.nextId, d.pushClass package outer spec) := by
  unfold Addition.classHead
  rw [add_requireName]
  congr 1
  simp only [add_bind, add_get]
  split
  · rfl
  · rfl

theorem add_topLevelClass (package : ItemId) (spec : ClassSpec) :
    d.add (Addition.topLevelClass package spec) =
      match d.packageInfo package with
      | .ok _ => d.add (Addition.classIn package none spec)
      | .error fault => (.error fault, d) := by
  unfold Addition.topLevelClass
  simp only [add_bind, add_get, add_lift]
  cases d.packageInfo package with
  | ok info => rfl
  | error fault => rfl

theorem add_nestedClass (outer : ItemId) (spec : ClassSpec) :
    d.add (Addition.nestedClass outer spec) =
      match d.classInfo outer with
      | .ok info => d.add (Addition.classIn info.package (some outer) spec)
      | .error fault => (.error fault, d) := by
  unfold Addition.nestedClass
  simp only [add_bind, add_get, add_lift]
  cases d.classInfo outer with
  | ok info => rfl
  | error fault => rfl

/-! ## Additions that succeed -/

variable {d} {d' : Draft} {id owner package : ItemId}

theorem add_bind_eq_ok {a : Addition α} {f : α → Addition β} {y : β}
    (h : d.add (a >>= f) = (.ok y, d')) :
    ∃ x d₁, d.add a = (.ok x, d₁) ∧ d₁.add (f x) = (.ok y, d') := by
  rcases hr : d.add a with ⟨fault | x, d₁⟩
  · rw [add_bind_error hr] at h
    cases h
  · rw [add_bind_ok hr] at h
    exact ⟨x, d₁, rfl, h⟩

/-- The package has been there, or it is the last item. -/
theorem add_package_eq_ok {name : String} {flags : ItemFlags} {isStub : Bool}
    (h : d.add (Addition.package name flags isStub) = (.ok id, d')) :
    (d.packages[name]? = some id ∧ d' = d) ∨
      (d.packages[name]? = none ∧ id = d.nextId ∧ d' = d.pushPackage name flags isStub) := by
  rw [add_package] at h
  split at h
  · cases h
  · cases hname : d.packages[name]? with
    | some other =>
      rw [hname] at h
      cases h
      exact .inl ⟨rfl, rfl⟩
    | none =>
      rw [hname] at h
      cases h
      exact .inr ⟨rfl, rfl, rfl⟩

theorem add_constructor_eq_ok {spec : MethodSpec}
    (h : d.add (Addition.constructor owner spec) = (.ok id, d')) :
    ∃ info, d.classInfo owner = .ok info ∧ d' = d.pushMethod owner info true spec := by
  rw [add_constructor] at h
  cases hinfo : d.classInfo owner with
  | error fault => rw [hinfo] at h; cases h
  | ok info =>
    rw [hinfo] at h
    cases h
    exact ⟨info, rfl, rfl⟩

theorem add_method_eq_ok {spec : MethodSpec}
    (h : d.add (Addition.method owner spec) = (.ok id, d')) :
    ∃ info, d.classInfo owner = .ok info ∧ d' = d.pushMethod owner info false spec := by
  rw [add_method] at h
  split at h
  · cases h
  · cases hinfo : d.classInfo owner with
    | error fault => rw [hinfo] at h; cases h
    | ok info =>
      rw [hinfo] at h
      cases h
      exact ⟨info, rfl, rfl⟩

theorem add_field_eq_ok {spec : FieldSpec} (h : d.add (Addition.field owner spec) = (.ok id, d')) :
    d' = d.pushField owner spec := by
  rw [add_field] at h
  split at h
  · cases h
  · split at h
    · cases h
      rfl
    · cases h

theorem add_classHead_eq_ok {outer : Option ItemId} {spec : ClassSpec}
    (h : d.add (Addition.classHead package outer spec) = (.ok id, d')) :
    d.classes.contains (Text.trimmed spec.name) = false ∧ id = d.nextId ∧
      d' = d.pushClass package outer spec := by
  rw [add_classHead] at h
  split at h
  · cases h
  · split at h
    · cases h
    · next hname =>
      cases h
      exact ⟨Bool.not_eq_true _ ▸ hname, rfl, rfl⟩

theorem add_topLevelClass_eq_ok {spec : ClassSpec}
    (h : d.add (Addition.topLevelClass package spec) = (.ok id, d')) :
    (∃ info, d.packageInfo package = .ok info) ∧
      d.add (Addition.classIn package none spec) = (.ok id, d') := by
  rw [add_topLevelClass] at h
  cases hinfo : d.packageInfo package with
  | error fault => rw [hinfo] at h; cases h
  | ok info =>
    rw [hinfo] at h
    exact ⟨⟨info, rfl⟩, h⟩

/-! ## Additions that fail

What adds one item does so as a whole, or it leaves the draft as it is. -/

theorem eq_of_add_constructor_error {spec : MethodSpec} {fault : Fault}
    (h : d.add (Addition.constructor owner spec) = (.error fault, d')) : d' = d := by
  rw [add_constructor] at h
  split at h <;> cases h
  rfl

theorem eq_of_add_method_error {spec : MethodSpec} {fault : Fault}
    (h : d.add (Addition.method owner spec) = (.error fault, d')) : d' = d := by
  rw [add_method] at h
  split at h
  · cases h; rfl
  · split at h <;> cases h
    rfl

theorem eq_of_add_field_error {spec : FieldSpec} {fault : Fault}
    (h : d.add (Addition.field owner spec) = (.error fault, d')) : d' = d := by
  rw [add_field] at h
  split at h
  · cases h; rfl
  · split at h <;> cases h
    rfl

theorem eq_of_add_classHead_error {spec : ClassSpec} {outer : Option ItemId} {fault : Fault}
    (h : d.add (Addition.classHead package outer spec) = (.error fault, d')) : d' = d := by
  rw [add_classHead] at h
  split at h
  · cases h; rfl
  · split at h <;> cases h
    rfl

theorem eq_of_add_package_error {name : String} {flags : ItemFlags} {isStub : Bool} {fault : Fault}
    (h : d.add (Addition.package name flags isStub) = (.error fault, d')) : d' = d := by
  rw [add_package] at h
  split at h
  · cases h; rfl
  · split at h <;> cases h

end Draft

end ApiSurface
