import ApiSurface.Proofs.Fallbacks

/-! # Supertypes

What the walks over the class hierarchy find, whatever the order and the bounds in which they look. A walk
along interfaces in breadth reports the references of exactly the classes that can be reached from its
roots along references which the view resolves, also where the references form cycles. -/
namespace ApiSurface

open Surface

namespace View

variable {v : View} {d x : Decl} {roots queue : List Decl} {seen : List String} {use : InterfaceUse}

/-! ## Views of sound surfaces -/

def classNames (v : View) : List String := v.surfaces.flatMap fun s => s.classes.keys

/-- What a view finds under a name is a class of that name, and one that the view counts. -/
structure Sound (v : View) : Prop where
  name_eq : ∀ {name d}, v.findClass? name = some d → d.name = name
  isClass : ∀ {name d}, v.findClass? name = some d → d.asClass?.isSome
  counted : ∀ {name d}, v.findClass? name = some d → name ∈ v.classNames

theorem length_classNames (v : View) : v.classNames.length = v.classCount := by
  unfold classNames classCount
  induction v.surfaces with
  | nil => rfl
  | cons s rest ih =>
    rw [List.flatMap_cons, List.length_append, ih, Std.TreeMap.length_keys, List.foldr_cons]

theorem sound_of_built (h : ∀ s ∈ v.surfaces, s.Built) : v.Sound := by
  have hfound : ∀ {name d}, v.findClass? name = some d →
      ∃ s ∈ v.surfaces, s.Declares d ∧ d.asClass?.isSome ∧ d.name = name := by
    intro name d hd
    obtain ⟨s, hs, hd⟩ := List.exists_of_findSome?_eq_some hd
    exact ⟨s, hs, (findClass?_eq_some (h s hs).wellFormed).mp hd⟩
  refine ⟨fun hd => ?_, fun hd => ?_, fun hd => ?_⟩
  · obtain ⟨_, _, _, _, hname⟩ := hfound hd
    exact hname
  · obtain ⟨_, _, _, hc, _⟩ := hfound hd
    exact hc
  · obtain ⟨s, hs, hdecl, hc, rfl⟩ := hfound hd
    exact List.mem_flatMap.mpr ⟨s, hs, mem_keys_of_declares (h s hs).wellFormed hdecl hc⟩

/-- The number of classes of the view whose names are not among the seen ones. -/
def unmet (v : View) (seen : List String) : Nat :=
  v.classNames.countP fun name => !seen.contains name

theorem unmet_le (v : View) (seen : List String) : v.unmet seen ≤ v.classCount := by
  rw [← length_classNames]
  exact List.countP_le_length

/-- The class is the one that the view finds under its name. -/
def Knows (v : View) (d : Decl) : Prop := v.findClass? d.name = some d

theorem Sound.knows (hv : v.Sound) {name : String} (h : v.findClass? name = some d) : v.Knows d := by
  unfold Knows
  rw [hv.name_eq h]
  exact h

theorem Knows.eq {e : Decl} (h : v.Knows d) (h' : v.Knows e) (hname : d.name = e.name) : d = e := by
  unfold Knows at h h'
  rw [hname, h'] at h
  exact (Option.some.inj h).symm

theorem Sound.unmet_cons_lt (hv : v.Sound) (hd : v.Knows d) (hnew : seen.contains d.name = false) :
    v.unmet (d.name :: seen) < v.unmet seen :=
  countP_unseen_cons_lt (hv.counted hd) hnew

/-! ## Walks along interfaces -/

/-- The class is one of the roots, or an interface above them along references that the view resolves. -/
inductive Reaches (v : View) (roots : List Decl) : Decl → Prop
  | root {d : Decl} : d ∈ roots → Reaches v roots d
  | step {d above : Decl} {type : TypeRef} : Reaches v roots d → type ∈ d.interfaces →
      v.resolve type = some above → Reaches v roots above

theorem Reaches.trans {more : List Decl} (h : v.Reaches roots d) (hroots : ∀ x ∈ roots, v.Reaches more x) :
    v.Reaches more d := by
  induction h with
  | root hd => exact hroots _ hd
  | step _ htype hresolve ih => exact ih.step htype hresolve

theorem mem_interfaceUses :
    use ∈ v.interfaceUses d ↔ use.type ∈ d.interfaces ∧ use.target = v.resolve use.type := by
  constructor
  · intro h
    obtain ⟨type, htype, rfl⟩ := List.mem_map.mp h
    exact ⟨htype, rfl⟩
  · rintro ⟨htype, htarget⟩
    refine List.mem_map.mpr ⟨use.type, htype, ?_⟩
    rw [← htarget]

theorem Sound.knows_of_mem_interfaceUses (hv : v.Sound) (h : use ∈ v.interfaceUses d)
    (hx : use.target = some x) : v.Knows x := by
  rw [(mem_interfaceUses.mp h).2] at hx
  exact hv.knows hx

section Queue

variable {uses : List InterfaceUse} {state : List String × List Decl}

/-- A use whose target is unknown or was met changes nothing; another one joins the queue. -/
theorem enqueue_cases (state : List String × List Decl) (use : InterfaceUse) :
    (enqueue state use = state ∧ ∀ x, use.target = some x → x.name ∈ state.1) ∨
      ∃ next, use.target = some next ∧ state.1.contains next.name = false ∧
        enqueue state use = (next.name :: state.1, state.2 ++ [next]) := by
  unfold enqueue
  cases htarget : use.target with
  | none => exact .inl ⟨rfl, fun _ h => by cases h⟩
  | some next =>
    by_cases hmet : state.1.contains next.name = true
    · refine .inl ⟨if_pos hmet, fun x hx => ?_⟩
      cases hx
      exact List.contains_iff_mem.mp hmet
    · exact .inr ⟨next, rfl, Bool.eq_false_iff.mpr hmet, if_neg hmet⟩

theorem mem_foldl_enqueue (h : x ∈ (uses.foldl enqueue state).2) :
    x ∈ state.2 ∨ ∃ use ∈ uses, use.target = some x := by
  induction uses generalizing state with
  | nil => exact .inl h
  | cons use rest ih =>
    rcases ih h with hx | ⟨use', huse', hx⟩
    · rcases enqueue_cases state use with ⟨hsame, _⟩ | ⟨next, htarget, _, hnext⟩
      · rw [hsame] at hx
        exact .inl hx
      · rw [hnext] at hx
        rcases List.mem_append.mp hx with hx | hx
        · exact .inl hx
        · rw [List.mem_singleton.mp hx]
          exact .inr ⟨use, List.mem_cons_self, htarget⟩
    · exact .inr ⟨use', List.mem_cons_of_mem _ huse', hx⟩

theorem foldl_enqueue_keeps (uses : List InterfaceUse) (state : List String × List Decl) :
    state.1 ⊆ (uses.foldl enqueue state).1 ∧ state.2 ⊆ (uses.foldl enqueue state).2 := by
  induction uses generalizing state with
  | nil => exact ⟨List.Subset.refl _, List.Subset.refl _⟩
  | cons use rest ih =>
    obtain ⟨hseen, hqueue⟩ := ih (enqueue state use)
    rw [List.foldl_cons]
    rcases enqueue_cases state use with ⟨hsame, _⟩ | ⟨next, _, _, hnext⟩
    · rw [hsame] at hseen hqueue ⊢
      exact ⟨hseen, hqueue⟩
    · rw [hnext] at hseen hqueue ⊢
      exact ⟨List.Subset.trans (List.subset_cons_self _ _) hseen,
        List.Subset.trans (List.subset_append_left _ _) hqueue⟩

/-- The targets are met afterwards, and a name that is met only afterwards is that of a target that has
joined the queue. -/
theorem foldl_enqueue_meets (uses : List InterfaceUse) (state : List String × List Decl) :
    (∀ use ∈ uses, ∀ x, use.target = some x → x.name ∈ (uses.foldl enqueue state).1) ∧
      ∀ name ∈ (uses.foldl enqueue state).1, name ∈ state.1 ∨
        ∃ use ∈ uses, ∃ x, use.target = some x ∧ x.name = name ∧ x ∈ (uses.foldl enqueue state).2 := by
  induction uses generalizing state with
  | nil => exact ⟨fun _ h => (List.not_mem_nil h).elim, fun _ h => .inl h⟩
  | cons use rest ih =>
    obtain ⟨hmet, hback⟩ := ih (enqueue state use)
    obtain ⟨hseen, hqueue⟩ := foldl_enqueue_keeps rest (enqueue state use)
    rw [List.foldl_cons]
    refine ⟨fun use' huse' x hx => ?_, fun name hname => ?_⟩
    · rcases List.mem_cons.mp huse' with rfl | huse'
      · refine hseen ?_
        rcases enqueue_cases state use' with ⟨hsame, hold⟩ | ⟨next, htarget, _, hnext⟩
        · rw [hsame]
          exact hold x hx
        · rw [hnext]
          cases hx.symm.trans htarget
          exact List.mem_cons_self
      · exact hmet use' huse' x hx
    · rcases hback name hname with hname | ⟨use', huse', x, hx⟩
      · rcases enqueue_cases state use with ⟨hsame, _⟩ | ⟨next, htarget, _, hnext⟩
        · rw [hsame] at hname
          exact .inl hname
        · rw [hnext] at hname hqueue
          rcases List.mem_cons.mp hname with rfl | hname
          · refine .inr ⟨use, List.mem_cons_self, next, htarget, rfl, ?_⟩
            rw [hnext]
            exact hqueue (List.mem_append_right _ (List.mem_singleton.mpr rfl))
          · exact .inl hname
      · exact .inr ⟨use', List.mem_cons_of_mem _ huse', x, hx⟩

/-- What a queue gains, the names that were not met lose. -/
theorem Sound.foldl_enqueue_le (hv : v.Sound) (state : List String × List Decl)
    (huses : ∀ use ∈ uses, ∀ x, use.target = some x → v.Knows x) :
    (uses.foldl enqueue state).2.length + v.unmet (uses.foldl enqueue state).1 ≤
      state.2.length + v.unmet state.1 := by
  induction uses generalizing state with
  | nil => exact Nat.le_refl _
  | cons use rest ih =>
    refine Nat.le_trans (ih _ fun use' h => huses use' (List.mem_cons_of_mem _ h)) ?_
    rcases enqueue_cases state use with ⟨hsame, _⟩ | ⟨next, htarget, hnew, hnext⟩
    · rw [hsame]
    · have hlt := hv.unmet_cons_lt (huses use List.mem_cons_self next htarget) hnew
      rw [hnext]
      dsimp only
      rw [List.length_append, List.length_singleton]
      omega

end Queue

/-- A walk reports references of classes that can be reached from its queue. -/
theorem reaches_of_mem_interfaceWalk {bound : Nat} (h : use ∈ v.interfaceWalk bound seen queue) :
    ∃ d, v.Reaches queue d ∧ use ∈ v.interfaceUses d := by
  induction bound generalizing seen queue with
  | zero => cases h
  | succ bound ih =>
    cases queue with
    | nil => cases h
    | cons current queue =>
      have hcurrent : v.Reaches (current :: queue) current := .root List.mem_cons_self
      unfold interfaceWalk at h
      rcases List.mem_append.mp h with h | h
      · exact ⟨current, hcurrent, h⟩
      · obtain ⟨d, hd, huse⟩ := ih h
        refine ⟨d, hd.trans fun x hx => ?_, huse⟩
        rcases mem_foldl_enqueue hx with hx | ⟨use', huse', hx⟩
        · exact .root (List.mem_cons_of_mem _ hx)
        · obtain ⟨htype, htarget⟩ := mem_interfaceUses.mp huse'
          exact hcurrent.step htype (htarget.symm.trans hx)

/-- A walk with enough steps ahead reports the references of all classes in its queue, and those of the
target of every reference that it reports, unless that one was met before. -/
theorem Sound.interfaceWalk_closed (hv : v.Sound) {bound : Nat}
    (hbound : queue.length + v.unmet seen < bound) :
    (∀ d ∈ queue, v.interfaceUses d ⊆ v.interfaceWalk bound seen queue) ∧
      ∀ use ∈ v.interfaceWalk bound seen queue, ∀ x, use.target = some x →
        x.name ∈ seen ∨ v.interfaceUses x ⊆ v.interfaceWalk bound seen queue := by
  induction bound generalizing seen queue with
  | zero => omega
  | succ bound ih =>
    cases queue with
    | nil => exact ⟨fun _ h => (List.not_mem_nil h).elim, fun _ h => (List.not_mem_nil h).elim⟩
    | cons current queue =>
      have hknown : ∀ use ∈ v.interfaceUses current, ∀ x, use.target = some x → v.Knows x :=
        fun _ huse _ hx => hv.knows_of_mem_interfaceUses huse hx
      have hle := hv.foldl_enqueue_le (seen, queue) hknown
      obtain ⟨hmet, hback⟩ := foldl_enqueue_meets (v.interfaceUses current) (seen, queue)
      obtain ⟨_, hkeeps⟩ := foldl_enqueue_keeps (v.interfaceUses current) (seen, queue)
      rw [interfaceWalk]
      generalize (v.interfaceUses current).foldl enqueue (seen, queue) = state at *
      dsimp only at hle
      rw [List.length_cons] at hbound
      have hbound' : state.2.length + v.unmet state.1 < bound := by omega
      obtain ⟨hqueued, hclosed⟩ := ih hbound'
      -- a target met on this step is the class of that name in the new queue
      have hfresh : ∀ x, v.Knows x → x.name ∈ state.1 → x.name ∈ seen ∨
          v.interfaceUses x ⊆ v.interfaceUses current ++ v.interfaceWalk bound state.1 state.2 := by
        intro x hx hname
        rcases hback _ hname with hname | ⟨use, huse, y, hy, hname, hyq⟩
        · exact .inl hname
        · rw [(hknown use huse y hy).eq hx hname] at hyq
          exact .inr (List.Subset.trans (hqueued x hyq) (List.subset_append_right _ _))
      refine ⟨fun d hd => ?_, fun use huse x hx => ?_⟩
      · rcases List.mem_cons.mp hd with rfl | hd
        · exact List.subset_append_left _ _
        · exact List.Subset.trans (hqueued d (hkeeps hd)) (List.subset_append_right _ _)
      · rcases List.mem_append.mp huse with huse | huse
        · exact hfresh x (hknown use huse x hx) (hmet use huse x hx)
        · rcases hclosed use huse x hx with hname | hsub
          · obtain ⟨d, _, hd⟩ := reaches_of_mem_interfaceWalk huse
            exact hfresh x (hv.knows_of_mem_interfaceUses hd hx) hname
          · exact .inr (List.Subset.trans hsub (List.subset_append_right _ _))

/-- A walk from the roots reports the references of exactly the classes that can be reached. -/
theorem Sound.mem_interfacesAbove (hv : v.Sound) :
    use ∈ v.interfacesAbove roots ↔ ∃ d, v.Reaches roots d ∧ use ∈ v.interfaceUses d := by
  refine ⟨reaches_of_mem_interfaceWalk, ?_⟩
  rintro ⟨d, hd, huse⟩
  have hbound : roots.length + v.unmet [] < roots.length + v.classCount + 1 := by
    have hle := v.unmet_le []
    omega
  obtain ⟨hroots, hclosed⟩ := hv.interfaceWalk_closed hbound
  have hall : v.interfaceUses d ⊆ v.interfacesAbove roots := by
    clear huse
    induction hd with
    | root hd => exact hroots _ hd
    | step _ htype hresolve ih =>
      have hreported := ih (List.mem_map_of_mem htype)
      exact (hclosed _ hreported _ hresolve).resolve_left List.not_mem_nil
  exact hall huse

/-! ## What the questions come down to -/

/-- The classes in which an inherited interface may be named: a class with its superclasses, and all
interfaces above them. -/
def Inherits (v : View) (d x : Decl) : Prop := v.Reaches (d :: (v.superclassChain d).members) x

theorem Sound.any_interfacesAbove (hv : v.Sound) (roots : List Decl) (p : InterfaceUse → Bool) :
    (v.interfacesAbove roots).any p = true ↔
      ∃ x, v.Reaches roots x ∧ ∃ type ∈ x.interfaces, p ⟨type, v.resolve type⟩ = true := by
  simp only [List.any_eq_true, hv.mem_interfacesAbove]
  constructor
  · rintro ⟨use, ⟨x, hx, huse⟩, hp⟩
    obtain ⟨type, htype, rfl⟩ := List.mem_map.mp huse
    exact ⟨x, hx, type, htype, hp⟩
  · rintro ⟨x, hx, type, htype, hp⟩
    exact ⟨_, ⟨x, hx, List.mem_map_of_mem htype⟩, hp⟩

theorem Sound.all_interfacesAbove (hv : v.Sound) (roots : List Decl) (p : InterfaceUse → Bool) :
    (v.interfacesAbove roots).all p = true ↔
      ∀ x, v.Reaches roots x → ∀ type ∈ x.interfaces, p ⟨type, v.resolve type⟩ = true := by
  have hany := hv.any_interfacesAbove roots fun use => !p use
  rw [List.all_eq_not_any_not, Bool.not_eq_true', ← Bool.not_eq_true, hany]
  simp only [not_exists, not_and, Bool.not_eq_true', Bool.not_eq_false]

theorem implementsInterface_of_ne {name : String} (h : name ≠ TypeRef.objectName) :
    v.implementsInterface d name =
      let uses := v.interfacesAbove (d :: (v.superclassChain d).members)
      if uses.any fun use => use.type.baseName == name then some true
      else if (v.superclassChain d).isComplete && uses.all fun use => use.target.isSome then some false
      else none :=
  if_neg h

/-- A class implements what it, a superclass or an interface above them names. -/
theorem Sound.implementsInterface_eq_true (hv : v.Sound) {name : String} :
    v.implementsInterface d name = some true ↔ name = TypeRef.objectName ∨
      ∃ x, v.Inherits d x ∧ ∃ type ∈ x.interfaces, type.baseName = name := by
  by_cases hobject : name = TypeRef.objectName
  · simp only [implementsInterface, hobject, if_true, true_or]
  · have hnamed := hv.any_interfacesAbove (d :: (v.superclassChain d).members) fun use =>
      use.type.baseName == name
    simp only [beq_iff_eq] at hnamed
    rw [implementsInterface_of_ne hobject, or_iff_right hobject]
    unfold Inherits
    rw [← hnamed]
    dsimp only
    split
    · next h => exact ⟨fun _ => h, fun _ => rfl⟩
    · next h =>
      refine ⟨fun h' => ?_, fun h' => (h h').elim⟩
      split at h'
      · cases h'
      · cases h'

/-- A class does not implement what nobody names, provided that all of its supertypes are known. -/
theorem Sound.implementsInterface_eq_false (hv : v.Sound) {name : String} :
    v.implementsInterface d name = some false ↔ name ≠ TypeRef.objectName ∧
      (v.superclassChain d).isComplete = true ∧ ∀ x, v.Inherits d x → ∀ type ∈ x.interfaces,
        type.baseName ≠ name ∧ (v.resolve type).isSome := by
  by_cases hobject : name = TypeRef.objectName
  · simp [implementsInterface, hobject]
  · have hnamed := hv.any_interfacesAbove (d :: (v.superclassChain d).members) fun use =>
      use.type.baseName == name
    have hknown := hv.all_interfacesAbove (d :: (v.superclassChain d).members) fun use =>
      use.target.isSome
    simp only [beq_iff_eq] at hnamed
    rw [implementsInterface_of_ne hobject, and_iff_right hobject]
    unfold Inherits
    dsimp only
    split
    · next h =>
      obtain ⟨x, hx, type, htype, hname⟩ := hnamed.mp h
      exact ⟨fun h' => (by cases h'), fun h' => ((h'.2 x hx type htype).1 hname).elim⟩
    · next h =>
      rw [hnamed] at h
      split
      · next h' =>
        obtain ⟨hcomplete, hall⟩ := Bool.and_eq_true_iff.mp h'
        refine ⟨fun _ => ⟨hcomplete, fun x hx type htype => ⟨fun hname => ?_, ?_⟩⟩, fun _ => rfl⟩
        · exact h ⟨x, hx, type, htype, hname⟩
        · exact hknown.mp hall x hx type htype
      · next h' =>
        refine ⟨fun h'' => (by cases h''), fun hall => (h' ?_).elim⟩
        exact Bool.and_eq_true_iff.mpr
          ⟨hall.1, hknown.mpr fun x hx type htype => (hall.2 x hx type htype).2⟩

def searchedChain (v : View) (d : Decl) (superclasses : Bool) : List Decl :=
  if superclasses then (v.superclassChain d).members else []

/-- A search of the supertypes succeeds iff it does in a superclass, or in an interface above the class
or above one of the superclasses. -/
theorem Sound.isSome_searchSupertypes (hv : v.Sound) {superclasses interfaces : Bool}
    {search : Decl → Option Decl} :
    (v.searchSupertypes d superclasses interfaces search).isSome ↔
      (∃ x ∈ v.searchedChain d superclasses, (search x).isSome) ∨
        interfaces = true ∧ ∃ x, v.Reaches (d :: v.searchedChain d superclasses) x ∧
          ∃ type ∈ x.interfaces, ∃ above, v.resolve type = some above ∧ (search above).isSome := by
  have habove : ((v.interfacesAbove (d :: v.searchedChain d superclasses)).findSome? fun use =>
      use.target.bind search).isSome ↔ ∃ x, v.Reaches (d :: v.searchedChain d superclasses) x ∧
        ∃ type ∈ x.interfaces, ∃ above, v.resolve type = some above ∧ (search above).isSome := by
    rw [List.isSome_findSome?, hv.any_interfacesAbove]
    simp only [Option.isSome_bind, Option.any_eq_true]
  change ((v.searchedChain d superclasses).findSome? search |>.or _).isSome = true ↔ _
  rw [Option.isSome_or, Bool.or_eq_true, List.isSome_findSome?, List.any_eq_true]
  refine or_congr Iff.rfl ?_
  cases interfaces with
  | true => exact habove.trans (by simp)
  | false => simp

end View

end ApiSurface
