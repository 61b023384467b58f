import Mathlib.Logic.Relation
import ApiSurface.Proofs.Ancestry
import ApiSurface.Proofs.Finishing

/-! # Effective flags

A flag holds for an item if it is the item's own or that of something the item lies in, and own flags are
those that the surface was made with and that were changed since. So a change of an own flag is seen within
its item only, and undone by one that puts the old value back. -/
namespace ApiSurface

open Arena Relation

theorem ItemFlags.set_set_get (flags : ItemFlags) (flag : Flag) (value : Bool) :
    (flags.set flag value).set flag (flags.get flag) = flags := by
  cases flag <;> rfl

namespace Surface

variable {s s' : Surface} {d x : Decl} {i j p : ItemId} {f g : Flag} {value : Bool}

def IsParent (s : Surface) (i p : ItemId) : Prop :=
  ∃ item, s.items[i.index]? = some item ∧ item.parent = some p

/-- The first item is the second one or lies inside it, at any depth. -/
def Within (s : Surface) : ItemId → ItemId → Prop := ReflTransGen s.IsParent

def ownFlag (s : Surface) (id : ItemId) (flag : Flag) : Bool :=
  s.items[id.index]?.any fun item => item.flags.get flag

def effectiveFlag (s : Surface) (id : ItemId) (flag : Flag) : Bool :=
  (s.decl? id).any fun d => d.isEffectively flag

/-- The value that the last change that succeeds gives to a flag of an item. -/
def lastValue? (s : Surface) (changes : List FlagChange) (id : ItemId) (flag : Flag) : Option Bool :=
  (changes.reverse.find? fun c =>
    (s.setFlag c.id c.flag c.value).isOk && c.id == id && c.flag == flag).map (·.value)

/-- What a successful change of an own flag does. -/
structure FlagStep (s : Surface) (j : ItemId) (g : Flag) (value : Bool) (s' : Surface) : Prop where
  /-- The flag is seen to change within the item only, and no other flag is. -/
  confined : ∀ i f, s'.effectiveFlag i f ≠ s.effectiveFlag i f → f = g ∧ s.Within i j
  /-- A flag that is set holds for all that lies within the item. -/
  spread : value = true → ∀ i, s.Within i j → s'.effectiveFlag i g = true
  /-- The old value makes the surface what it was. -/
  undone : s'.setFlag j g (s.ownFlag j g) = .ok s
  structureKept : { s' with items := s.items } = s
  size_eq : s'.size = s.size
  itemsKept : ∀ i item, s.items[i]? = some item → ∃ flags, s'.items[i]? = some { item with flags } ∧
    flags.declaredHidden = item.flags.declaredHidden ∧
    ∀ f, flags.get f = if i = j.index ∧ f = g then value else item.flags.get f

/-- What own flags and their changes are to the flags that hold. -/
structure FlagLaw (s : Surface) : Prop where
  /-- After any changes, a flag holds for an item if it is the own flag of something the item lies in. -/
  effective_iff : ∀ changes i f, (changes.foldl change s).effectiveFlag i f = true ↔
    ∃ a, s.Within i a ∧ (s.lastValue? changes a f).getD (s.ownFlag a f) = true
  step : ∀ j g value s', s.setFlag j g value = .ok s' → s.FlagStep j g value s'
  unknown : ∀ j g value fault,
    s.setFlag j g value = .error fault ↔ s.size ≤ j.index ∧ fault = .itemNotFound j.index
  unknown_kept : ∀ j g value, s.size ≤ j.index → s.change ⟨j, g, value⟩ = s

/-! ## The walk along parents reaches what an item lies in -/

theorem Declares.isParent_iff (hd : s.Declares d) : s.IsParent d.id p ↔ d.item.parent = some p := by
  constructor
  · rintro ⟨item, hitem, hp⟩
    cases hd.getElem?.symm.trans hitem
    exact hp
  · exact fun hp => ⟨d.item, hd.getElem?, hp⟩

theorem Declares.isParent_of_parent? (hd : s.Declares d) (h : d.parent? = some x) : s.IsParent d.id x.id := by
  obtain ⟨p, hp, hx⟩ := Option.bind_eq_some_iff.mp h
  obtain ⟨-, rfl, -⟩ := decl?_eq_some hx
  exact hd.isParent_iff.mpr hp

theorem Declares.exists_parent? (hs : s.WellFormed) (hd : s.Declares d) (h : s.IsParent d.id p) :
    ∃ x, d.parent? = some x ∧ s.Declares x ∧ x.id = p ∧ p.index < d.id.index := by
  have hp := hd.isParent_iff.mp h
  rcases hd.parent_cases hs with ⟨-, hnone⟩ | ⟨x, hdx, hx, hlt, -⟩
  · cases hnone.symm.trans hp
  · cases hx.symm.trans hp
    exact ⟨x, hd.parent?_eq hdx hx, hdx, rfl, hlt⟩

/-- The walk outwards from a declaration comes through all that it lies in. -/
theorem Declares.mem_lineage_iff (hs : s.WellFormed) (hd : s.Declares d) :
    x ∈ d.lineage ↔ s.Declares x ∧ s.Within d.id x.id := by
  induction d, hd using Declares.outward_induction with | step d hd ih => ?_
  constructor
  · intro hx
    rcases (hd.mem_lineage hs).mp hx with rfl | ⟨q, hq, hx⟩
    · exact ⟨hd, .refl⟩
    · obtain ⟨hdq, hlt⟩ := hd.parent? hs hq
      obtain ⟨hdx, hwithin⟩ := (ih q hdq hlt).mp hx
      exact ⟨hdx, .head (hd.isParent_of_parent? hq) hwithin⟩
  · rintro ⟨hdx, hwithin⟩
    rcases hwithin.cases_head with hself | ⟨p, hp, hwithin⟩
    · cases hd.eq_of_id hdx hself
      exact hd.self_mem_lineage hs
    · obtain ⟨q, hq, hdq, rfl, hlt⟩ := hd.exists_parent? hs hp
      exact (hd.mem_lineage hs).mpr (.inr ⟨q, hq, (ih q hdq hlt).mpr ⟨hdx, hwithin⟩⟩)

theorem ownFlag_eq_true_iff : s.ownFlag i f = true ↔ ∃ d, s.decl? i = some d ∧ d.flags.get f = true := by
  rw [ownFlag, Option.any_eq_true]
  constructor
  · rintro ⟨item, hitem, hflag⟩
    exact ⟨⟨s, i, item⟩, by rw [decl?, hitem]; rfl, hflag⟩
  · rintro ⟨d, hd, hflag⟩
    exact ⟨d.item, (decl?_eq_some hd).2.2, hflag⟩

theorem Within.exists_decl? (h : s.Within i x.id) (hx : s.Declares x) :
    ∃ d, s.Declares d ∧ d.id = i := by
  rcases h.cases_head with rfl | ⟨p, ⟨item, hitem, -⟩, -⟩
  · exact ⟨x, hx, rfl⟩
  · exact ⟨⟨s, i, item⟩, by rw [Declares, decl?, hitem]; rfl, rfl⟩

/-- A flag holds for an item if something the item lies in has it. -/
theorem effectiveFlag_iff (hs : s.WellFormed) :
    s.effectiveFlag i f = true ↔ ∃ a, s.Within i a ∧ s.ownFlag a f = true := by
  simp only [effectiveFlag, Option.any_eq_true, Decl.isEffectively, List.any_eq_true]
  constructor
  · rintro ⟨d, hd, x, hx, hflag⟩
    obtain ⟨-, rfl, -⟩ := decl?_eq_some hd
    obtain ⟨hdx, hwithin⟩ := (Declares.mem_lineage_iff hs hd).mp hx
    exact ⟨x.id, hwithin, ownFlag_eq_true_iff.mpr ⟨x, hdx, hflag⟩⟩
  · rintro ⟨a, hwithin, hown⟩
    obtain ⟨x, hx, hflag⟩ := ownFlag_eq_true_iff.mp hown
    obtain ⟨-, rfl, -⟩ := decl?_eq_some hx
    obtain ⟨d, hd, rfl⟩ := hwithin.exists_decl? hx
    exact ⟨d, hd, x, (hd.mem_lineage_iff hs).mpr ⟨hx, hwithin⟩, hflag⟩

/-! ## One change -/

theorem getElem?_change (c : FlagChange) (k : Nat) : (s.change c).items[k]? =
    s.items[k]?.map fun item =>
      if k = c.id.index then { item with flags := item.flags.set c.flag c.value } else item := by
  rw [change_eq, Array.getElem?_modify]
  split <;> split <;> simp_all

theorem size_change (c : FlagChange) : (s.change c).size = s.size := by
  rw [change_eq, size, Array.size_modify, size]

theorem within_change (c : FlagChange) : (s.change c).Within = s.Within := by
  have hparent : (s.change c).IsParent = s.IsParent := by
    funext i p
    refine propext ?_
    unfold IsParent
    rw [getElem?_change]
    cases s.items[i.index]? with
    | none => simp
    | some item => simp only [Option.map_some, Option.some.injEq, exists_eq_left']; split <;> rfl
  rw [Within, Within, hparent]

theorem setFlag_eq (c : FlagChange) : s.setFlag c.id c.flag c.value =
    if c.id.index < s.size then .ok (s.change c) else .error (.itemNotFound c.id.index) := by
  by_cases h : c.id.index < s.size
  · rw [if_pos h, change_eq]
    exact if_pos h
  · rw [if_neg h]
    exact if_neg h

theorem isOk_setFlag (c : FlagChange) :
    (s.setFlag c.id c.flag c.value).isOk = decide (c.id.index < s.size) := by
  rw [setFlag_eq]
  split
  · next h => exact (decide_eq_true h).symm
  · next h => exact (decide_eq_false h).symm

theorem ownFlag_change (c : FlagChange) : (s.change c).ownFlag i f =
    if c.id.index < s.size ∧ c.id = i ∧ c.flag = f then c.value else s.ownFlag i f := by
  unfold ownFlag
  rw [getElem?_change]
  cases hitem : s.items[i.index]? with
  | none =>
    have hout := Array.getElem?_eq_none_iff.mp hitem
    rw [if_neg]
    · rfl
    · rintro ⟨hlt, rfl, -⟩
      exact absurd hlt (Nat.not_lt.mpr hout)
  | some item =>
    obtain ⟨hlt, -⟩ := Array.getElem?_eq_some_iff.mp hitem
    rw [Option.map_some, Option.any_some, Option.any_some]
    by_cases hid : i = c.id
    · subst hid
      rw [if_pos rfl, ItemFlags.get_set]
      simp [hlt, size, eq_comm]
    · have hindex : i.index ≠ c.id.index := fun h => hid (congrArg ItemId.mk h)
      rw [if_neg hindex, if_neg fun h => hid h.2.1.symm]

/-- An effective flag can be told from the own flags around an item, so it changes only where one of these
does. -/
theorem effectiveFlag_change_eq (hs : s.WellFormed) (c : FlagChange) (h : ¬(f = c.flag ∧ s.Within i c.id)) :
    (s.change c).effectiveFlag i f = s.effectiveFlag i f := by
  rw [Bool.eq_iff_iff, effectiveFlag_iff (change_wellFormed hs c), effectiveFlag_iff hs, within_change]
  refine exists_congr fun a => and_congr_right fun hwithin => ?_
  rw [ownFlag_change, if_neg]
  rintro ⟨-, rfl, rfl⟩
  exact h ⟨rfl, hwithin⟩

theorem change_undone (c : FlagChange) :
    (s.change c).change { c with value := s.ownFlag c.id c.flag } = s := by
  let back : FlagChange := { c with value := s.ownFlag c.id c.flag }
  have hitems : ((s.change c).change back).items = s.items := by
    refine Array.ext_getElem? fun k => ?_
    rw [getElem?_change, getElem?_change]
    cases hitem : s.items[k]? with
    | none => rfl
    | some item =>
      by_cases hk : k = c.id.index
      · have hown : s.ownFlag c.id c.flag = item.flags.get c.flag := by
          rw [ownFlag, ← hk, hitem, Option.any_some]
        simp only [Option.map_some, back, hk, if_true, hown, ItemFlags.set_set_get]
      · simp only [Option.map_some, back, hk, if_false]
  calc (s.change c).change back
    _ = { s with items := ((s.change c).change back).items } := by rw [change_eq, change_eq]
    _ = s := by rw [hitems]

theorem flagStep_change (hs : s.WellFormed) (c : FlagChange) (hc : c.id.index < s.size) :
    s.FlagStep c.id c.flag c.value (s.change c) where
  confined i f hne := by
    by_contra h
    exact hne (effectiveFlag_change_eq hs c h)
  spread hvalue i hwithin := by
    refine (effectiveFlag_iff (change_wellFormed hs c)).mpr ⟨c.id, ?_, ?_⟩
    · rwa [within_change]
    · rw [ownFlag_change, if_pos ⟨hc, rfl, rfl⟩, hvalue]
  undone := by
    have h := setFlag_eq (s := s.change c) { c with value := s.ownFlag c.id c.flag }
    rwa [size_change, if_pos hc, change_undone] at h
  structureKept := by rw [change_eq]
  size_eq := size_change c
  itemsKept k item hitem := by
    rw [getElem?_change, hitem, Option.map_some]
    by_cases hk : k = c.id.index
    · refine ⟨item.flags.set c.flag c.value, by rw [if_pos hk], ItemFlags.declaredHidden_set .., fun f => ?_⟩
      simp only [ItemFlags.get_set, hk, true_and]
    · exact ⟨item.flags, by rw [if_neg hk], rfl, fun f => (if_neg fun h => hk h.1).symm⟩

/-! ## A run of changes -/

/-- Which changes succeed depends on the number of items only. -/
theorem lastValue?_of_size_eq (h : s'.size = s.size) : s'.lastValue? = s.lastValue? := by
  funext changes i f
  simp only [lastValue?, isOk_setFlag, h]

theorem lastValue?_cons (c : FlagChange) (rest : List FlagChange) : s.lastValue? (c :: rest) i f =
    ((s.change c).lastValue? rest i f).or
      (if c.id.index < s.size ∧ c.id = i ∧ c.flag = f then some c.value else none) := by
  rw [lastValue?_of_size_eq (size_change c)]
  simp only [lastValue?, isOk_setFlag, List.reverse_cons, List.find?_append, Option.map_or]
  congr 1
  rw [List.find?_singleton]
  simp only [Bool.and_eq_true, decide_eq_true_eq, beq_iff_eq, and_assoc]
  split <;> rfl

theorem ownFlag_foldl_change (changes : List FlagChange) :
    (changes.foldl change s).ownFlag i f = (s.lastValue? changes i f).getD (s.ownFlag i f) := by
  induction changes generalizing s with
  | nil => rfl
  | cons c rest ih =>
    rw [List.foldl_cons, ih, lastValue?_cons, ownFlag_change]
    cases (s.change c).lastValue? rest i f with
    | some value => rfl
    | none => split <;> rfl

theorem size_foldl_change (changes : List FlagChange) : (changes.foldl change s).size = s.size := by
  induction changes generalizing s with
  | nil => rfl
  | cons c rest ih => rw [List.foldl_cons, ih, size_change]

theorem within_foldl_change (changes : List FlagChange) : (changes.foldl change s).Within = s.Within := by
  induction changes generalizing s with
  | nil => rfl
  | cons c rest ih => rw [List.foldl_cons, ih, within_change]

theorem foldl_change_wellFormed (hs : s.WellFormed) (changes : List FlagChange) :
    (changes.foldl change s).WellFormed := by
  induction changes generalizing s with
  | nil => exact hs
  | cons c rest ih => exact ih (change_wellFormed hs c)

theorem WellFormed.flagLaw (hs : s.WellFormed) : s.FlagLaw where
  effective_iff changes i f := by
    rw [effectiveFlag_iff (foldl_change_wellFormed hs changes), within_foldl_change]
    simp only [ownFlag_foldl_change]
  step j g value s' h := by
    have heq := setFlag_eq (s := s) ⟨j, g, value⟩
    rw [h] at heq
    split at heq
    · next hlt =>
      cases heq
      exact flagStep_change hs ⟨j, g, value⟩ hlt
    · cases heq
  unknown j g value fault := by
    have heq := setFlag_eq (s := s) ⟨j, g, value⟩
    rw [heq]
    split
    · next hlt => simp [Nat.not_le.mpr hlt]
    · next hlt => simp [Nat.not_lt.mp hlt, eq_comm]
  unknown_kept j g value hj := by
    have h : s.setFlag j g value = .error (.itemNotFound j.index) := if_neg (Nat.not_lt.mpr hj)
    rw [change, h]

/-! ## Finishing keeps the flags that a draft has given -/

def flagsOf (items : Array Item) : List ItemFlags := items.toList.map Item.flags

theorem ownFlag_of_prefix {items : Array Item} {item : Item} (h : flagsOf items <+: flagsOf s.items)
    (hitem : items[i.index]? = some item) : s.ownFlag i f = item.flags.get f := by
  have hgiven : (flagsOf items)[i.index]? = some item.flags := by
    rw [flagsOf, List.getElem?_map, Array.getElem?_toList, hitem, Option.map_some]
  have hkept : (flagsOf s.items)[i.index]? = some item.flags := by
    obtain ⟨more, hmore⟩ := h
    rw [← hmore, List.getElem?_append_left (List.getElem?_eq_some_iff.mp hgiven).1, hgiven]
  rw [flagsOf, List.getElem?_map, Array.getElem?_toList, Option.map_eq_some_iff] at hkept
  obtain ⟨item', hitem', hflags⟩ := hkept
  rw [ownFlag, hitem', Option.any_some, hflags]

theorem flagsOf_map (items : Array Item) {f : Item → Item} (hf : ∀ item, (f item).flags = item.flags) :
    flagsOf (items.map f) = flagsOf items := by
  rw [flagsOf, Array.toList_map, List.map_map]
  exact List.map_congr_left fun item _ => hf item

theorem flagsOf_modify (items : Array Item) (k : Nat) {f : Item → Item}
    (hf : ∀ item, (f item).flags = item.flags) : flagsOf (items.modify k f) = flagsOf items := by
  apply List.ext_getElem?
  intro n
  simp only [flagsOf, List.getElem?_map, Array.getElem?_toList, Array.getElem?_modify]
  split
  · cases items[n]? with
    | none => rfl
    | some item => exact congrArg some (hf item)
  · rfl

theorem flagsOf_withMember (items : Array Item) (member : Item) (parameters : List Item) (owner id : ItemId)
    (slot : Slot) :
    flagsOf items <+: flagsOf (withMember items member parameters owner (Draft.linkClass slot id)) := by
  have hmodify := flagsOf_modify (items.push member ++ parameters.toArray) owner.index
    (f := Draft.linkClass slot id) fun _ => rfl
  rw [withMember, hmodify, flagsOf, flagsOf, Array.toList_append, Array.toList_push, List.append_assoc,
    List.map_append]
  exact List.prefix_append _ _

theorem flagsOf_addCopy (items : Array Item) (copy : InheritedCopy) :
    flagsOf items <+: flagsOf (addCopy items copy) := by
  cases hs : items[copy.source.index]? with
  | none => simp only [addCopy, hs, List.prefix_rfl]
  | some source =>
    cases hp : source.payload with
    | method info => rw [addCopy_method hs hp rfl]; exact flagsOf_withMember ..
    | field info => rw [addCopy_field hs hp]; exact flagsOf_withMember ..
    | _ => simp only [addCopy, hs, hp, List.prefix_rfl]

theorem flagsOf_noteOverridden (items : Array Item) (entry : ItemId × List ItemId) :
    flagsOf (noteOverridden items entry) = flagsOf items := by
  refine flagsOf_modify items _ fun item => ?_
  split <;> rfl

theorem flagsOf_finish (d : Draft) : flagsOf d.items <+: flagsOf d.finish.items := by
  have hcopies : ∀ (copies : List InheritedCopy) (items : Array Item),
      flagsOf items <+: flagsOf (copies.foldl addCopy items) := by
    intro copies
    induction copies with
    | nil => exact fun _ => List.prefix_rfl
    | cons copy rest ih => exact fun items => (flagsOf_addCopy items copy).trans (ih _)
  have hnotes : ∀ (entries : List (ItemId × List ItemId)) (items : Array Item),
      flagsOf (entries.foldl noteOverridden items) = flagsOf items := by
    intro entries
    induction entries with
    | nil => exact fun _ => rfl
    | cons entry rest ih => exact fun items => (ih _).trans (flagsOf_noteOverridden items entry)
  have hcanonical : flagsOf d.toSurface.items = flagsOf d.items := flagsOf_map d.items fun _ => rfl
  rw [← hcanonical, Draft.finish, withOverrides, hnotes]
  exact hcopies _ _

end Surface

/-- Whatever a recipe does, own flags alone decide which flags hold in its surface, and the own flags of what
its calls declare are those that they gave or the last ones set since. -/
theorem Recipe.build_flagLaw (r : Recipe) (serial : Nat) (location : String) :
    (r.build serial location).FlagLaw ∧
      ∀ i item f, (r.draft location).items[i.index]? = some item →
        (r.build serial location).ownFlag i f =
          ((r.build serial location).lastValue? r.changes i f).getD (item.flags.get f) := by
  refine ⟨(r.build_wellFormed serial location).flagLaw, fun i item f hitem => ?_⟩
  let s : Surface := { (r.draft location).finish with serial }
  have hown : s.ownFlag i f = item.flags.get f :=
    Surface.ownFlag_of_prefix (Surface.flagsOf_finish (r.draft location)) hitem
  change (r.changes.foldl Surface.change s).ownFlag i f =
    ((r.changes.foldl Surface.change s).lastValue? r.changes i f).getD _
  rw [Surface.lastValue?_of_size_eq (Surface.size_foldl_change r.changes), Surface.ownFlag_foldl_change, hown]

/-- A class with a copy of a method of a hidden superclass, which is removed and no longer deprecated. There is
no item 9. -/
def Recipe.copying : Recipe where
  calls := [.packageSpec
    { name := "p"
      classes := [
        { name := "p.H", flags := { hidden := true, deprecated := true }, methods := [.published "m"] },
        { name := "p.C", modifiers := .ofVisibility .publicAccess, superclass := some ⟨"p.H"⟩ }] }]
  changes := [⟨⟨1⟩, .removed, true⟩, ⟨⟨9⟩, .hidden, true⟩, ⟨⟨1⟩, .deprecated, false⟩]

theorem Recipe.build_flagLaw_copying :
    let s := Recipe.copying.build 1 "s"
    s.ownFlag ⟨1⟩ .deprecated = false ∧ s.effectiveFlag ⟨2⟩ .removed = true ∧
      s.effectiveFlag ⟨4⟩ .removed = false ∧
      ∃ s', s.setFlag ⟨3⟩ .removed true = .ok s' ∧ s'.effectiveFlag ⟨4⟩ .removed = true ∧
        s'.setFlag ⟨3⟩ .removed false = .ok s := by
  intro s
  obtain ⟨hlaw, hgiven⟩ := Recipe.build_flagLaw Recipe.copying 1 "s"
  have hitem : ((Recipe.copying.draft "s").items[1]?).isSome := by decide +kernel
  obtain ⟨item, hitem⟩ := Option.isSome_iff_exists.mp hitem
  have hlast : s.lastValue? Recipe.copying.changes ⟨1⟩ .deprecated = some false := by decide +kernel
  have hparent : (s.items[4]?).any fun item => item.parent = some ⟨3⟩ := by decide +kernel
  obtain ⟨member, hmember, hparent⟩ := (Option.any_eq_true ..).mp hparent
  have hwithin : s.Within ⟨4⟩ ⟨3⟩ := .single ⟨member, hmember, of_decide_eq_true hparent⟩
  have hstep := hlaw.step ⟨3⟩ .removed true _ (if_pos (by decide +kernel))
  have hown : s.ownFlag ⟨3⟩ .removed = false := by decide +kernel
  refine ⟨?_, by decide +kernel, by decide +kernel, _, if_pos (by decide +kernel), hstep.spread rfl _ hwithin,
    hown ▸ hstep.undone⟩
  rw [hgiven ⟨1⟩ item .deprecated hitem, hlast, Option.getD_some]

end ApiSurface
