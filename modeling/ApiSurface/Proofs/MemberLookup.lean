import ApiSurface.Proofs.InterfaceVerdicts

/-! # Lookup of members

Where a member is looked for and which one is found. A class is asked first, then its superclasses from the
nearest one on, and then the interfaces above all of them in breadth. Several classes start the last of
these walks, references may lead back to them, and every interface is asked as often as it is referred to;
all the same the first hit is at the least distance, because what is in the queue is at one distance or at
the next one, and whatever was met before had nothing to offer. -/
namespace ApiSurface

namespace View

variable {v : View} {d x y above : Decl} {roots near far queue : List Decl} {seen : List String} {n m : Nat}

/-! ## Distances -/

/-- The class refers to an interface that the view resolves to `above`. -/
def RefersTo (v : View) (d above : Decl) : Prop := ∃ type ∈ d.interfaces, v.resolve type = some above

/-- From the first class a path of this many references to interfaces leads to the second one. -/
inductive Climbs (v : View) : Nat → Decl → Decl → Prop
  | stay {d : Decl} : Climbs v 0 d d
  | climb {n : Nat} {d above x : Decl} : v.RefersTo d above → Climbs v n above x → Climbs v (n + 1) d x

/-- From one of the roots a path of this many references to interfaces leads to the class. -/
def ReachesIn (v : View) (roots : List Decl) (n : Nat) (x : Decl) : Prop := ∃ d ∈ roots, v.Climbs n d x

theorem refersTo_iff : v.RefersTo d above ↔ ∃ use ∈ v.interfaceUses d, use.target = some above := by
  constructor
  · rintro ⟨type, htype, hresolve⟩
    exact ⟨⟨type, v.resolve type⟩, mem_interfaceUses.mpr ⟨htype, rfl⟩, hresolve⟩
  · rintro ⟨use, huse, htarget⟩
    obtain ⟨htype, hresolve⟩ := mem_interfaceUses.mp huse
    exact ⟨use.type, htype, hresolve.symm.trans htarget⟩

theorem Climbs.append_step (h : v.Climbs n d x) (hx : v.RefersTo x above) : v.Climbs (n + 1) d above := by
  induction h with
  | stay => exact .climb hx .stay
  | climb hd _ ih => exact .climb hd (ih hx)

theorem Climbs.exists_last (h : v.Climbs (n + 1) d y) : ∃ x, v.Climbs n d x ∧ v.RefersTo x y := by
  induction n generalizing d with
  | zero =>
    cases h with
    | climb hd hrest =>
      cases hrest
      exact ⟨d, .stay, hd⟩
  | succ n ih =>
    cases h with
    | climb hd hrest =>
      obtain ⟨x, hx, hlast⟩ := ih hrest
      exact ⟨x, .climb hd hx, hlast⟩

/-- What can be reached is what can be reached at some distance. -/
theorem reaches_iff_exists_reachesIn : v.Reaches roots x ↔ ∃ n, v.ReachesIn roots n x := by
  constructor
  · intro h
    induction h with
    | root hd => exact ⟨0, _, hd, .stay⟩
    | step _ htype hresolve ih =>
      obtain ⟨n, d, hd, hclimb⟩ := ih
      exact ⟨n + 1, d, hd, hclimb.append_step ⟨_, htype, hresolve⟩⟩
  · rintro ⟨n, d, hd, hclimb⟩
    have hroot : v.Reaches roots d := .root hd
    clear hd
    induction hclimb with
    | stay => exact hroot
    | climb hd _ ih =>
      obtain ⟨type, htype, hresolve⟩ := hd
      exact ih (hroot.step htype hresolve)

/-- An interface is above some of the classes that can be reached iff it is at a positive distance. -/
theorem exists_reaches_refersTo_iff :
    (∃ x, v.Reaches roots x ∧ v.RefersTo x y) ↔ ∃ n, 0 < n ∧ v.ReachesIn roots n y := by
  simp only [reaches_iff_exists_reachesIn]
  constructor
  · rintro ⟨x, ⟨n, d, hd, hclimb⟩, hlast⟩
    exact ⟨n + 1, Nat.succ_pos n, d, hd, hclimb.append_step hlast⟩
  · rintro ⟨n, hpos, d, hd, hclimb⟩
    obtain ⟨n, rfl⟩ := Nat.exists_eq_add_one_of_ne_zero (Nat.ne_of_gt hpos)
    obtain ⟨x, hx, hlast⟩ := hclimb.exists_last
    exact ⟨x, ⟨n, d, hd, hx⟩, hlast⟩

/-! ## The nearest hit -/

section Nearest

variable {search : Decl → Option Decl} {found : Decl} {uses : List InterfaceUse}
  {state : List String × List Decl}

/-- The hit is in one of the places that can be reached at the least positive distance from which a search
can return at all. -/
def IsNearestHit (reach : Nat → Decl → Prop) (search : Decl → Option Decl) (found : Decl) : Prop :=
  ∃ n x, 0 < n ∧ reach n x ∧ search x = some found ∧
    ∀ m y, 0 < m → reach m y → (search y).isSome → n ≤ m

/-- What a walk has before it: the classes of `near` with what is above them, and one reference further
those of `far` with what is above them. -/
def Ahead (v : View) (near far : List Decl) (n : Nat) (x : Decl) : Prop :=
  v.ReachesIn near n x ∨ ∃ m, n = m + 1 ∧ v.ReachesIn far m x

/-- A search that has found nothing on its way: there is nothing in the classes met so far, and each of
them is still in the queue or has had the interfaces that it refers to met too. -/
structure Fruitless (v : View) (search : Decl → Option Decl) (seen : List String) (queue : List Decl) :
    Prop where
  missed : ∀ x, v.Knows x → x.name ∈ seen → search x = none
  pending : ∀ x, v.Knows x → x.name ∈ seen → x ∈ queue ∨ ∀ above, v.RefersTo x above → above.name ∈ seen

theorem Sound.knows_of_refersTo (hv : v.Sound) (h : v.RefersTo d above) : v.Knows above := by
  obtain ⟨_, _, hresolve⟩ := h
  exact hv.knows hresolve

/-- The targets that join the queue stand at its end. -/
theorem foldl_enqueue_append (uses : List InterfaceUse) (state : List String × List Decl) :
    ∃ fresh, (uses.foldl enqueue state).2 = state.2 ++ fresh ∧
      ∀ x ∈ fresh, ∃ use ∈ uses, use.target = some x := by
  induction uses generalizing state with
  | nil => exact ⟨[], (List.append_nil _).symm, fun _ h => (List.not_mem_nil h).elim⟩
  | cons use rest ih =>
    obtain ⟨fresh, hqueue, hfresh⟩ := ih (enqueue state use)
    have hrest : ∀ x ∈ fresh, ∃ use' ∈ use :: rest, use'.target = some x := by
      intro x hx
      obtain ⟨use', huse', htarget⟩ := hfresh x hx
      exact ⟨use', List.mem_cons_of_mem _ huse', htarget⟩
    rw [List.foldl_cons, hqueue]
    rcases enqueue_cases state use with ⟨hsame, _⟩ | ⟨next, htarget, _, hnext⟩
    · rw [hsame]
      exact ⟨fresh, rfl, hrest⟩
    · rw [hnext]
      refine ⟨next :: fresh, List.append_assoc _ _ _, fun x hx => ?_⟩
      rcases List.mem_cons.mp hx with rfl | hx
      · exact ⟨use, List.mem_cons_self, htarget⟩
      · exact hrest x hx

/-- A class that leads nowhere is expanded, and the search stays fruitless. -/
theorem Fruitless.expand {current : Decl} (hv : v.Sound)
    (h : v.Fruitless search seen (current :: queue))
    (hmiss : ∀ above, v.RefersTo current above → search above = none) :
    v.Fruitless search ((v.interfaceUses current).foldl enqueue (seen, queue)).1
      ((v.interfaceUses current).foldl enqueue (seen, queue)).2 := by
  obtain ⟨hmet, hback⟩ := foldl_enqueue_meets (v.interfaceUses current) (seen, queue)
  obtain ⟨hseen, hqueue⟩ := foldl_enqueue_keeps (v.interfaceUses current) (seen, queue)
  generalize (v.interfaceUses current).foldl enqueue (seen, queue) = state at *
  have htargets : ∀ above, v.RefersTo current above → above.name ∈ state.1 := by
    intro above habove
    obtain ⟨use, huse, htarget⟩ := refersTo_iff.mp habove
    exact hmet use huse above htarget
  -- a class met on this step is the target of that name
  have hnew : ∀ x, v.Knows x → x.name ∈ state.1 → x.name ∈ seen ∨ v.RefersTo current x ∧ x ∈ state.2 := by
    intro x hx hname
    rcases hback _ hname with hname | ⟨use, huse, above, htarget, hname, hmem⟩
    · exact .inl hname
    · have hrefers : v.RefersTo current above := refersTo_iff.mpr ⟨use, huse, htarget⟩
      obtain rfl := (hv.knows_of_refersTo hrefers).eq hx hname
      exact .inr ⟨hrefers, hmem⟩
  refine ⟨fun x hx hname => ?_, fun x hx hname => ?_⟩
  · rcases hnew x hx hname with hname | ⟨hrefers, _⟩
    · exact h.missed x hx hname
    · exact hmiss x hrefers
  · rcases hnew x hx hname with hname | ⟨_, hmem⟩
    · rcases h.pending x hx hname with hmem | hall
      · rcases List.mem_cons.mp hmem with rfl | hmem
        · exact .inr htargets
        · exact .inl (hqueue hmem)
      · exact .inr fun above habove => hseen (hall above habove)
    · exact .inl hmem

/-- A path from a class met so far to a hit goes through the queue, and the rest of it is no longer. -/
theorem Fruitless.exists_in_queue (hv : v.Sound) (h : v.Fruitless search seen queue) (hx : v.Knows x)
    (hname : x.name ∈ seen) (hclimb : v.Climbs n x y) (hy : (search y).isSome) :
    ∃ q ∈ queue, ∃ m, 0 < m ∧ m ≤ n ∧ v.Climbs m q y := by
  induction hclimb with
  | stay =>
    rw [h.missed _ hx hname] at hy
    cases hy
  | @climb n x above y hrefers hrest ih =>
    rcases h.pending x hx hname with hmem | hall
    · exact ⟨x, hmem, n + 1, Nat.succ_pos n, Nat.le_refl _, .climb hrefers hrest⟩
    · obtain ⟨q, hq, m, hpos, hle, hpath⟩ := ih (hv.knows_of_refersTo hrefers) (hall above hrefers) hy
      exact ⟨q, hq, m, hpos, Nat.le_succ_of_le hle, hpath⟩

/-- What is ahead of the targets of a class at the end of the far level is ahead of the class. -/
theorem Ahead.of_expand {current : Decl} {fresh : List Decl}
    (hfresh : ∀ x ∈ fresh, v.RefersTo current x) (h : v.Ahead near (far ++ fresh) n x) :
    v.Ahead (current :: near) far n x := by
  rcases h with ⟨d, hd, hclimb⟩ | ⟨m, rfl, d, hd, hclimb⟩
  · exact .inl ⟨d, List.mem_cons_of_mem _ hd, hclimb⟩
  · rcases List.mem_append.mp hd with hd | hd
    · exact .inr ⟨m, rfl, d, hd, hclimb⟩
    · exact .inl ⟨current, List.mem_cons_self, .climb (hfresh d hd) hclimb⟩

/-- A hit that is ahead of a class is no further ahead once the class has been expanded in vain. -/
theorem Fruitless.exists_ahead {current : Decl} {fresh : List Decl} (hv : v.Sound)
    (h : v.Fruitless search seen (near ++ (far ++ fresh)))
    (hmet : ∀ above, v.RefersTo current above → above.name ∈ seen) (hpos : 0 < m)
    (hy : v.Ahead (current :: near) far m y) (hhit : (search y).isSome) :
    ∃ k, 0 < k ∧ k ≤ m ∧ v.Ahead near (far ++ fresh) k y := by
  rcases hy with ⟨d, hd, hclimb⟩ | ⟨k, rfl, d, hd, hclimb⟩
  · rcases List.mem_cons.mp hd with rfl | hd
    · cases hclimb with
      | stay => omega
      | @climb k _ above _ hrefers hrest =>
        obtain ⟨q, hq, i, hi, hle, hpath⟩ :=
          h.exists_in_queue hv (hv.knows_of_refersTo hrefers) (hmet above hrefers) hrest hhit
        rcases List.mem_append.mp hq with hq | hq
        · exact ⟨i, hi, Nat.le_succ_of_le hle, .inl ⟨q, hq, hpath⟩⟩
        · exact ⟨i + 1, Nat.succ_pos i, Nat.succ_le_succ hle, .inr ⟨i, rfl, q, hq, hpath⟩⟩
    · exact ⟨m, hpos, Nat.le_refl m, .inl ⟨d, hd, hclimb⟩⟩
  · exact ⟨k + 1, hpos, Nat.le_refl _, .inr ⟨k, rfl, d, List.mem_append_left _ hd, hclimb⟩⟩

/-- Where the near level is done, the far one takes its place. -/
theorem IsNearestHit.of_next_level (hfar : ∀ x ∈ far, search x = none)
    (h : IsNearestHit (v.Ahead far []) search found) : IsNearestHit (v.Ahead [] far) search found := by
  obtain ⟨n, x, hpos, hx, hfound, hleast⟩ := h
  have hreach : v.ReachesIn far n x := by
    rcases hx with hx | ⟨_, _, _, hd, _⟩
    · exact hx
    · cases hd
  refine ⟨n + 1, x, Nat.succ_pos n, .inr ⟨n, rfl, hreach⟩, hfound, fun m y _ hy hhit => ?_⟩
  rcases hy with ⟨_, hd, _⟩ | ⟨m, rfl, d, hd, hclimb⟩
  · cases hd
  · cases hclimb with
    | stay =>
      rw [hfar y hd] at hhit
      cases hhit
    | climb hrefers hrest =>
      exact Nat.succ_le_succ
        (hleast _ y (Nat.succ_pos _) (.inl ⟨d, hd, .climb hrefers hrest⟩) hhit)

/-- A run in breadth over two levels of classes finds a nearest hit, if it finds one. -/
theorem Sound.isNearestHit_of_run (hv : v.Sound) (hrun : v.InterfaceRun seen queue uses)
    (hqueue : queue = near ++ far) (hfruitless : v.Fruitless search seen queue)
    (hfar : ∀ x ∈ far, search x = none)
    (hfound : (uses.findSome? fun use => use.target.bind search) = some found) :
    IsNearestHit (v.Ahead near far) search found := by
  induction hrun generalizing near far with
  | done => cases hfound
  | @expand seen current queue uses hrun ih =>
    -- the first class of the queue is of the near level, perhaps after the next one has become that
    have key : ∀ {near far}, queue = near ++ far → (∀ x ∈ far, search x = none) →
        IsNearestHit (v.Ahead (current :: near) far) search found := by
      intro near far hqueue hfar
      cases hhere : (v.interfaceUses current).findSome? fun use => use.target.bind search with
      | some hit =>
        rw [List.findSome?_append, hhere] at hfound
        cases hfound
        obtain ⟨use, huse, hhit⟩ := List.exists_of_findSome?_eq_some hhere
        obtain ⟨above, htarget, hhit⟩ := Option.bind_eq_some_iff.mp hhit
        have hrefers : v.RefersTo current above := refersTo_iff.mpr ⟨use, huse, htarget⟩
        exact ⟨1, above, Nat.one_pos, .inl ⟨current, List.mem_cons_self, .climb hrefers .stay⟩, hhit,
          fun m y hpos _ _ => hpos⟩
      | none =>
        rw [List.findSome?_append, hhere, Option.none_or] at hfound
        have hmiss : ∀ above, v.RefersTo current above → search above = none := by
          intro above habove
          obtain ⟨use, huse, htarget⟩ := refersTo_iff.mp habove
          have hnone := List.findSome?_eq_none_iff.mp hhere use huse
          rwa [htarget, Option.bind_some] at hnone
        have hnext := hfruitless.expand hv hmiss
        obtain ⟨hmet, _⟩ := foldl_enqueue_meets (v.interfaceUses current) (seen, queue)
        obtain ⟨fresh, happend, hfresh⟩ := foldl_enqueue_append (v.interfaceUses current) (seen, queue)
        generalize (v.interfaceUses current).foldl enqueue (seen, queue) = state at *
        have hrefers : ∀ x ∈ fresh, v.RefersTo current x := fun x hx => refersTo_iff.mpr (hfresh x hx)
        have hlevels : state.2 = near ++ (far ++ fresh) := by
          rw [happend, hqueue, List.append_assoc]
        have hfar' : ∀ x ∈ far ++ fresh, search x = none := by
          intro x hx
          rcases List.mem_append.mp hx with hx | hx
          · exact hfar x hx
          · exact hmiss x (hrefers x hx)
        obtain ⟨n, x, hpos, hx, hhit, hleast⟩ := ih hlevels hnext hfar' hfound
        refine ⟨n, x, hpos, hx.of_expand hrefers, hhit, fun m y hm hy hsome => ?_⟩
        have htargets : ∀ above, v.RefersTo current above → above.name ∈ state.1 := by
          intro above habove
          obtain ⟨use, huse, htarget⟩ := refersTo_iff.mp habove
          exact hmet use huse above htarget
        rw [hlevels] at hnext
        obtain ⟨k, hk, hle, hahead⟩ := hnext.exists_ahead hv htargets hm hy hsome
        exact Nat.le_trans (hleast k y hk hahead hsome) hle
    cases near with
    | cons c near =>
      obtain ⟨rfl, hrest⟩ := List.cons.inj hqueue
      exact key hrest hfar
    | nil =>
      rw [List.nil_append] at hqueue
      subst hqueue
      exact (key (List.append_nil queue).symm fun _ h => nomatch h).of_next_level hfar

/-- A search of the interfaces above some classes finds a nearest hit, if it finds one. -/
theorem Sound.isNearestHit_interfacesAbove (hv : v.Sound)
    (hfound : ((v.interfacesAbove roots).findSome? fun use => use.target.bind search) = some found) :
    IsNearestHit (v.ReachesIn roots) search found := by
  have hfruitless : v.Fruitless search [] roots :=
    ⟨fun _ _ h => (List.not_mem_nil h).elim, fun _ _ h => (List.not_mem_nil h).elim⟩
  obtain ⟨n, x, hpos, hx, hhit, hleast⟩ := hv.isNearestHit_of_run (hv.interfaceRun_interfacesAbove roots)
    (List.append_nil roots).symm hfruitless (fun _ h => (List.not_mem_nil h).elim) hfound
  have hreach : v.ReachesIn roots n x := by
    rcases hx with hx | ⟨_, _, _, hd, _⟩
    · exact hx
    · cases hd
  exact ⟨n, x, hpos, hreach, hhit, fun m y hm hy => hleast m y hm (.inl hy)⟩

end Nearest

/-! ## The law of lookups -/

section Lookup

variable {superclasses interfaces : Bool} {search : Decl → Option Decl} {members : Decl → List Decl}
  {isHit : Decl → Bool}

def Lacks (members : Decl → List Decl) (isHit : Decl → Bool) (x : Decl) : Prop :=
  ∀ m ∈ members x, isHit m = false

/-- What a lookup among the members of a class and of its supertypes is to answer. -/
structure LookupLaw (v : View) (d : Decl) (superclasses interfaces : Bool) (members : Decl → List Decl)
    (isHit : Decl → Bool) (answer : Option Decl) : Prop where
  /-- There is no answer iff neither the class has a hit, nor a superclass, nor an interface above them,
  as far as they are asked. -/
  none_iff : answer = none ↔ Lacks members isHit d ∧
    (superclasses = true → ∀ c ∈ (v.superclassChain d).members, Lacks members isHit c) ∧
    (interfaces = true → ∀ n x, 0 < n → v.ReachesIn (d :: v.searchedChain d superclasses) n x →
      Lacks members isHit x)
  /-- The first hit of the class itself comes before all others. -/
  own : ∀ m, (members d).find? isHit = some m → answer = some m
  /-- Where the class has none, the first one of the nearest superclass that has one is the answer. -/
  superclass : Lacks members isHit d → superclasses = true → ∀ below c farther m,
    (v.superclassChain d).members = below ++ c :: farther → (∀ b ∈ below, Lacks members isHit b) →
    (members c).find? isHit = some m → answer = some m
  /-- Where no superclass has one either, the answer is the first hit of an interface at the least
  distance. -/
  interface : Lacks members isHit d →
    (superclasses = true → ∀ c ∈ (v.superclassChain d).members, Lacks members isHit c) →
    ∀ m, answer = some m → interfaces = true ∧
      IsNearestHit (v.ReachesIn (d :: v.searchedChain d superclasses))
        (fun x => (members x).find? isHit) m

theorem find?_eq_none_iff_lacks : (members x).find? isHit = none ↔ Lacks members isHit x := by
  simp only [List.find?_eq_none, Bool.not_eq_true]
  rfl

theorem mem_searchedChain :
    x ∈ v.searchedChain d superclasses ↔ superclasses = true ∧ x ∈ (v.superclassChain d).members := by
  cases superclasses with
  | true => exact (and_iff_right rfl).symm
  | false => exact ⟨fun h => (List.not_mem_nil h).elim, fun h => nomatch h.1⟩

theorem searchSupertypes_eq_or : v.searchSupertypes d superclasses interfaces search =
    ((v.searchedChain d superclasses).findSome? search).or
      (if interfaces then (v.interfacesAbove (d :: v.searchedChain d superclasses)).findSome? fun use =>
        use.target.bind search
      else none) := rfl

/-- A search of the supertypes is in vain iff neither a superclass nor an interface has a hit. -/
theorem Sound.searchSupertypes_eq_none_iff (hv : v.Sound) :
    v.searchSupertypes d superclasses interfaces search = none ↔
      (∀ c ∈ v.searchedChain d superclasses, search c = none) ∧
      (interfaces = true → ∀ n x, 0 < n → v.ReachesIn (d :: v.searchedChain d superclasses) n x →
        search x = none) := by
  have hreach : (∃ x, v.Reaches (d :: v.searchedChain d superclasses) x ∧
      ∃ type ∈ x.interfaces, ∃ above, v.resolve type = some above ∧ (search above).isSome) ↔
      ∃ n x, 0 < n ∧ v.ReachesIn (d :: v.searchedChain d superclasses) n x ∧ (search x).isSome := by
    constructor
    · rintro ⟨x, hx, type, htype, above, hresolve, hsome⟩
      obtain ⟨n, hpos, hn⟩ := exists_reaches_refersTo_iff.mp ⟨x, hx, type, htype, hresolve⟩
      exact ⟨n, above, hpos, hn, hsome⟩
    · rintro ⟨n, above, hpos, hn, hsome⟩
      obtain ⟨x, hx, type, htype, hresolve⟩ := exists_reaches_refersTo_iff.mpr ⟨n, hpos, hn⟩
      exact ⟨x, hx, type, htype, above, hresolve, hsome⟩
  rw [← Option.not_isSome_iff_eq_none, hv.isSome_searchSupertypes, hreach]
  simp only [not_or, not_exists, not_and, Option.not_isSome_iff_eq_none]

/-- A search of the supertypes that goes on to the interfaces finds a nearest hit. -/
theorem Sound.isNearestHit_of_searchSupertypes (hv : v.Sound) {found : Decl}
    (hchain : ∀ c ∈ v.searchedChain d superclasses, search c = none)
    (hfound : v.searchSupertypes d superclasses interfaces search = some found) :
    interfaces = true ∧
      IsNearestHit (v.ReachesIn (d :: v.searchedChain d superclasses)) search found := by
  rw [searchSupertypes_eq_or, List.findSome?_eq_none_iff.mpr hchain, Option.none_or] at hfound
  cases interfaces with
  | true => exact ⟨rfl, hv.isNearestHit_interfacesAbove hfound⟩
  | false => cases hfound

/-- A class and then its supertypes are asked as the law says. -/
theorem Sound.lookupLaw (hv : v.Sound) (d : Decl) (superclasses interfaces : Bool)
    (members : Decl → List Decl) (isHit : Decl → Bool) :
    v.LookupLaw d superclasses interfaces members isHit (((members d).find? isHit).or
      (v.searchSupertypes d superclasses interfaces fun x => (members x).find? isHit)) where
  none_iff := by
    rw [Option.or_eq_none_iff, hv.searchSupertypes_eq_none_iff]
    simp only [find?_eq_none_iff_lacks, mem_searchedChain, and_imp]
    exact and_congr_right' (and_congr_left' ⟨fun h hs c hc => h c hs hc, fun h c hs hc => h hs c hc⟩)
  own m hm := by rw [hm, Option.some_or]
  superclass hown hsuper below c farther m hchain hbelow hm := by
    have hsearched : v.searchedChain d superclasses = below ++ c :: farther := by
      rw [searchedChain, if_pos hsuper, hchain]
    have hnone : below.findSome? (fun x => (members x).find? isHit) = none :=
      List.findSome?_eq_none_iff.mpr fun b hb => find?_eq_none_iff_lacks.mpr (hbelow b hb)
    rw [find?_eq_none_iff_lacks.mpr hown, Option.none_or, searchSupertypes_eq_or, hsearched,
      List.findSome?_append, hnone, Option.none_or, List.findSome?_cons, hm, Option.some_or]
  interface hown hchain m hm := by
    rw [find?_eq_none_iff_lacks.mpr hown, Option.none_or] at hm
    refine hv.isNearestHit_of_searchSupertypes (fun c hc => ?_) hm
    obtain ⟨hsuper, hc⟩ := mem_searchedChain.mp hc
    exact find?_eq_none_iff_lacks.mpr (hchain hsuper c hc)

end Lookup

/-- A constructor is looked for among those of the class only. Methods are looked for as the law says, and
so are fields of a name. -/
theorem findMember_lawful (hv : ∀ s ∈ v.surfaces, s.Built) (d probe : Decl) (name : String)
    (superclasses interfaces : Bool) (accept : Decl → Bool) :
    (probe.isConstructor = true → v.findMethod? d probe superclasses interfaces accept =
        d.constructors.find? fun m => m.signatureMatches probe && accept m) ∧
      (probe.isConstructor = false → v.LookupLaw d superclasses interfaces Decl.methods
        (fun m => m.signatureMatches probe && accept m)
        (v.findMethod? d probe superclasses interfaces accept)) ∧
      v.LookupLaw d superclasses interfaces Decl.fields
        (fun f => (f.asField?.any fun info => info.name == name) && accept f)
        (v.findField? d name superclasses interfaces accept) := by
  have hsound := sound_of_built hv
  refine ⟨fun hprobe => ?_, fun hprobe => ?_, ?_⟩
  · exact if_pos hprobe
  · have hmethods : v.findMethod? d probe superclasses interfaces accept =
        (d.methods.find? fun m => m.signatureMatches probe && accept m).or
          (v.searchSupertypes d superclasses interfaces fun x =>
            x.methods.find? fun m => m.signatureMatches probe && accept m) :=
      if_neg (by rw [hprobe]; exact Bool.false_ne_true)
    rw [hmethods]
    exact hsound.lookupLaw d superclasses interfaces Decl.methods _
  · exact hsound.lookupLaw d superclasses interfaces Decl.fields _

end View

/-- A class with an interface two references below the method, and with a superclass whose interface, of
another surface, declares the method itself. The farther one of the two refers back to where it was met. -/
def View.detour : View :=
  { primary := Recipe.ofClasses [
      { name := "p.C", superclass := some ⟨"p.B"⟩, interfaces := [⟨"p.I"⟩] },
      { name := "p.B", interfaces := [⟨"p.K"⟩] },
      { name := "p.I", kind := .interfaceType, interfaces := [⟨"p.J"⟩] },
      { name := "p.J", kind := .interfaceType, interfaces := [⟨"p.I"⟩], methods := [.published "m"] }]
      |>.build 1 "s"
    fallbacks := [Recipe.ofClasses [
      { name := "p.K", kind := .interfaceType, methods := [.published "m"] }] |>.build 2 "t"] }

/-- The interface of the superclass is nearer than the one that the walk along interfaces meets first. -/
theorem View.findMember_lawful_detour :
    let v := View.detour
    ∃ d probe found, v.findClass? "p.C" = some d ∧ probe.isConstructor = false ∧
      v.findMethod? d probe true true = some found ∧ found.ownerName = "p.K" ∧
      v.LookupLaw d true true Decl.methods (fun m => m.signatureMatches probe && true) (some found) := by
  intro v
  have hv : ∀ s ∈ v.surfaces, s.Built := forall_built_of_pair ⟨_, _, _, rfl⟩ ⟨_, _, _, rfl⟩
  have hfacts : (v.findClass? "p.C").any (fun d =>
      ((v.findClass? "p.J").bind (·.methods.head?)).any fun probe => probe.isConstructor == false &&
        (v.findMethod? d probe true true).any fun found => found.ownerName == "p.K") = true := by
    decide +kernel
  obtain ⟨d, hd, hfacts⟩ := (Option.any_eq_true ..).mp hfacts
  obtain ⟨probe, _, hfacts⟩ := (Option.any_eq_true ..).mp hfacts
  obtain ⟨hprobe, hfacts⟩ := Bool.and_eq_true_iff.mp hfacts
  obtain ⟨found, hfound, howner⟩ := (Option.any_eq_true ..).mp hfacts
  refine ⟨d, probe, found, hd, eq_of_beq hprobe, hfound, eq_of_beq howner, ?_⟩
  have hlaw := (findMember_lawful hv d probe "" true true fun _ => true).2.1 (eq_of_beq hprobe)
  rwa [hfound] at hlaw

end ApiSurface
