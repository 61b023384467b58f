import Mathlib.Data.List.Chain
import ApiSurface.Proofs.InterfaceVerdicts
import ApiSurface.Proofs.SuperclassVerdicts

/-! # Superclass chains

The chain of superclasses is the longest walk along superclass references that meets no name twice, and
there is only one such walk. So walks that meet go on together, up to the place where one of them would
come back to a name that it has met. -/
namespace ApiSurface

/-- The class at which a walk from `d` with this chain ends. -/
def SuperclassChain.last (chain : SuperclassChain) (d : Decl) : Decl := chain.members.getLastD d

theorem SuperclassChain.last_cons (chain : SuperclassChain) (above d : Decl) :
    { chain with members := above :: chain.members }.last d = chain.last above := List.getLastD_cons

namespace View

variable {v : View} {d e x : Decl} {chain chain' : SuperclassChain} {seen : List String} {l l' : List Decl}

def above? (v : View) (d : Decl) : Option Decl := d.superclass?.bind v.resolve

/-- Each class is followed by the one that its superclass reference leads to. -/
def Linked (v : View) (classes : List Decl) : Prop := classes.IsChain fun a b => v.above? a = some b

/-- A walk up the superclasses of a class that goes on as long as it meets no name twice. -/
structure MaximalWalk (v : View) (d : Decl) (chain : SuperclassChain) : Prop where
  distinct : ((d :: chain.members).map Decl.name).Nodup
  linked : v.Linked (d :: chain.members)
  /-- The walk ends where a reference is missing or unknown or leads to a name that it has met. -/
  ends : ∀ above, v.above? (chain.last d) = some above → above.name ∈ (d :: chain.members).map Decl.name
  /-- The chain may be longer if it ends at an unknown class that is not the root. -/
  isOpen : chain.isComplete = false ↔ ∃ type, (chain.last d).superclass? = some type ∧
    v.resolve type = none ∧ type.baseName ≠ TypeRef.objectName

/-- The walk ends although the next class is known, because it has met a class of that name. -/
def CutShort (v : View) (d : Decl) : Prop := (v.above? ((v.superclassChain d).last d)).isSome

instance : Decidable (v.CutShort d) :=
  inferInstanceAs (Decidable ((v.above? ((v.superclassChain d).last d)).isSome = true))

/-! ## What a run collects -/

theorem above?_of_none (h : d.superclass? = none) : v.above? d = none := by
  rw [above?, h, Option.bind_none]

theorem above?_of_some {type : TypeRef} (h : d.superclass? = some type) : v.above? d = v.resolve type := by
  rw [above?, h, Option.bind_some]

theorem ChainRun.distinct (h : v.ChainRun seen d chain) :
    (chain.members.map Decl.name).Nodup ∧ ∀ name ∈ chain.members.map Decl.name, name ∉ seen := by
  induction h with
  | top | unknown | repeated => exact ⟨.nil, fun _ h => (List.not_mem_nil h).elim⟩
  | next _ _ hnew _ ih =>
    obtain ⟨hnodup, hfresh⟩ := ih
    refine ⟨List.nodup_cons.mpr ⟨fun hmem => hfresh _ hmem List.mem_cons_self, hnodup⟩, ?_⟩
    intro name hname hseen
    rcases List.mem_cons.mp hname with rfl | hname
    · exact hnew hseen
    · exact hfresh name hname (List.mem_cons_of_mem _ hseen)

theorem ChainRun.linked (h : v.ChainRun seen d chain) : v.Linked (d :: chain.members) := by
  induction h with
  | top | unknown | repeated => exact .singleton _
  | next hsuper hresolve _ _ ih => exact .cons_cons ((above?_of_some hsuper).trans hresolve) ih

theorem ChainRun.ends (h : v.ChainRun seen d chain) {above : Decl}
    (habove : v.above? (chain.last d) = some above) :
    above.name ∈ seen ∨ above.name ∈ chain.members.map Decl.name := by
  induction h with
  | top hnone =>
    rw [SuperclassChain.last, List.getLastD_nil, above?_of_none hnone] at habove
    cases habove
  | unknown hsuper hresolve =>
    rw [SuperclassChain.last, List.getLastD_nil, above?_of_some hsuper, hresolve] at habove
    cases habove
  | repeated hsuper hresolve hmet =>
    rw [SuperclassChain.last, List.getLastD_nil, above?_of_some hsuper, hresolve] at habove
    cases habove
    exact .inl hmet
  | next _ _ _ _ ih =>
    rw [SuperclassChain.last_cons] at habove
    rcases ih habove with hseen | hmem
    · rcases List.mem_cons.mp hseen with hname | hseen
      · exact .inr (List.mem_cons.mpr (.inl hname))
      · exact .inl hseen
    · exact .inr (List.mem_cons_of_mem _ hmem)

theorem ChainRun.isOpen (h : v.ChainRun seen d chain) : chain.isComplete = false ↔
    ∃ type, (chain.last d).superclass? = some type ∧ v.resolve type = none ∧
      type.baseName ≠ TypeRef.objectName := by
  induction h with
  | top hnone =>
    rw [SuperclassChain.last, List.getLastD_nil, hnone]
    simp
  | unknown hsuper hresolve =>
    rw [SuperclassChain.last, List.getLastD_nil, hsuper]
    simp [hresolve]
  | repeated hsuper hresolve =>
    rw [SuperclassChain.last, List.getLastD_nil, hsuper]
    simp [hresolve]
  | next _ _ _ _ ih =>
    rw [SuperclassChain.last_cons]
    exact ih

theorem ChainRun.maximalWalk (h : v.ChainRun [d.name] d chain) : v.MaximalWalk d chain where
  distinct := by
    obtain ⟨hnodup, hfresh⟩ := h.distinct
    exact List.nodup_cons.mpr ⟨fun hmem => hfresh _ hmem (List.mem_singleton.mpr rfl), hnodup⟩
  linked := h.linked
  ends above habove := by
    rw [List.map_cons]
    rcases h.ends habove with hself | hmem
    · exact List.mem_cons.mpr (.inl (List.mem_singleton.mp hself))
    · exact List.mem_cons_of_mem _ hmem
  isOpen := h.isOpen

/-! ## Walks from one class -/

/-- Two walks from a class are the same, or one of them goes on where the other one ends. -/
theorem Linked.cases (h : v.Linked (x :: l)) (h' : v.Linked (x :: l')) : l = l' ∨
    (∃ y rest, l' = l ++ y :: rest ∧ v.above? (l.getLastD x) = some y) ∨
      ∃ y rest, l = l' ++ y :: rest ∧ v.above? (l'.getLastD x) = some y := by
  induction l generalizing x l' with
  | nil =>
    cases l' with
    | nil => exact .inl rfl
    | cons y rest => exact .inr (.inl ⟨y, rest, rfl, h'.rel⟩)
  | cons a l ih =>
    cases l' with
    | nil => exact .inr (.inr ⟨a, l, rfl, h.rel⟩)
    | cons b l' =>
      have hab : a = b := Option.some.inj (h.rel.symm.trans h'.rel)
      subst hab
      rw [List.getLastD_cons, List.getLastD_cons]
      rcases ih h.tail h'.tail with rfl | ⟨y, rest, rfl, hy⟩ | ⟨y, rest, rfl, hy⟩
      · exact .inl rfl
      · exact .inr (.inl ⟨y, rest, rfl, hy⟩)
      · exact .inr (.inr ⟨y, rest, rfl, hy⟩)

/-- A maximal walk does not go on where another one ends, because it would meet a name twice. -/
theorem MaximalWalk.not_extended (h : v.MaximalWalk d chain) (h' : v.MaximalWalk d chain') {y : Decl}
    {rest : List Decl} (heq : chain'.members = chain.members ++ y :: rest)
    (hy : v.above? (chain.last d) = some y) : False := by
  have hmet := h.ends y hy
  have hdistinct := h'.distinct
  rw [heq, ← List.cons_append, List.map_append, List.nodup_append] at hdistinct
  exact hdistinct.2.2 _ hmet _ List.mem_cons_self rfl

theorem MaximalWalk.unique (h : v.MaximalWalk d chain) (h' : v.MaximalWalk d chain') : chain = chain' := by
  have hmembers : chain.members = chain'.members := by
    rcases h.linked.cases h'.linked with heq | ⟨y, rest, heq, hy⟩ | ⟨y, rest, heq, hy⟩
    · exact heq
    · exact (h.not_extended h' heq hy).elim
    · exact (h'.not_extended h heq hy).elim
  have hlast : chain.last d = chain'.last d := congrArg (·.getLastD d) hmembers
  have hopen := h.isOpen.trans (hlast ▸ h'.isOpen.symm)
  have hcomplete : chain.isComplete = chain'.isComplete := by
    rw [Bool.eq_iff_iff, ← Bool.not_eq_false, ← Bool.not_eq_false, hopen]
  cases chain
  cases chain'
  cases hmembers
  cases hcomplete
  rfl

/-- The part of a walk behind a class is a walk from that class, with the same end. -/
theorem Linked.of_append {before after : List Decl} (h : v.Linked (d :: (before ++ x :: after))) :
    v.Linked (x :: after) ∧ (before ++ x :: after).getLastD d = after.getLastD x := by
  refine ⟨h.suffix ((List.suffix_append before _).trans (List.suffix_cons d _)), ?_⟩
  clear h
  induction before generalizing d with
  | nil => exact List.getLastD_cons
  | cons first before ih => exact List.getLastD_cons.trans ih

/-- Walks that meet go on together if each of them ends where nothing is known above. -/
theorem Linked.suffix_eq {before before' after after' : List Decl}
    (h : v.Linked (d :: (before ++ x :: after))) (h' : v.Linked (e :: (before' ++ x :: after')))
    (hend : v.above? ((before ++ x :: after).getLastD d) = none)
    (hend' : v.above? ((before' ++ x :: after').getLastD e) = none) : after = after' := by
  obtain ⟨htail, hlast⟩ := h.of_append
  obtain ⟨htail', hlast'⟩ := h'.of_append
  rw [hlast] at hend
  rw [hlast'] at hend'
  rcases htail.cases htail' with heq | ⟨y, rest, _, hy⟩ | ⟨y, rest, _, hy⟩
  · exact heq
  · cases hend.symm.trans hy
  · cases hend'.symm.trans hy

/-- The walk up the superclasses ends by itself, in the only chain that is a maximal walk. The chains of two
classes agree behind a class that is on both, unless one of the walks was cut short. -/
theorem superclassChain_exact (hv : ∀ s ∈ v.surfaces, s.Built) (d e : Decl) :
    v.ChainRun [d.name] d (v.superclassChain d) ∧
      (∀ chain, chain = v.superclassChain d ↔ v.MaximalWalk d chain) ∧
      ∀ x before after before' after', (v.superclassChain d).members = before ++ x :: after →
        (v.superclassChain e).members = before' ++ x :: after' → ¬v.CutShort d → ¬v.CutShort e →
        after = after' := by
  have hsound := sound_of_built hv
  have hwalk := fun d => (hsound.chainRun_superclassChain d).maximalWalk
  refine ⟨hsound.chainRun_superclassChain d, fun chain => ⟨fun h => h ▸ hwalk d, fun h => h.unique (hwalk d)⟩, ?_⟩
  intro x before after before' after' hd he huncut huncut'
  have hlinked := (hwalk d).linked
  have hlinked' := (hwalk e).linked
  rw [CutShort, SuperclassChain.last, Option.not_isSome_iff_eq_none] at huncut huncut'
  rw [hd] at hlinked huncut
  rw [he] at hlinked' huncut'
  exact hlinked.suffix_eq hlinked' huncut huncut'

/-- A surface in which `p.A` and `p.B` extend each other, with a fallback that has another `p.A`. The walks
from that class and from `p.D` meet in `p.F`, which is in the first surface, and end at an unknown class. -/
def crossed : View where
  primary := Recipe.extending [("p.A", "p.B"), ("p.B", "p.A"), ("p.F", "p.G")] |>.build 1 "s"
  fallbacks := [Recipe.extending [("p.A", "p.F"), ("p.D", "p.F"), ("p.G", "q.Unknown")] |>.build 2 "t"]

theorem superclassChain_exact_crossed :
    let v := crossed
    ∃ a d f after after', v.fallbacks.findSome? (·.findClass? "p.A") = some a ∧ v.findClass? "p.D" = some d ∧
      (v.superclassChain a).members = f :: after ∧ (v.superclassChain d).members = f :: after' ∧
      after.map Decl.name = ["p.G"] ∧ after = after' ∧ v.MaximalWalk a (v.superclassChain a) := by
  intro v
  have hv : ∀ s ∈ v.surfaces, s.Built := forall_built_of_pair ⟨_, _, _, rfl⟩ ⟨_, _, _, rfl⟩
  have hfound : (v.fallbacks.findSome? (·.findClass? "p.A")).any fun a => (v.findClass? "p.D").any fun d =>
      a.superclass? = d.superclass? ∧ (v.superclassChain a).members.map Decl.name = ["p.F", "p.G"] ∧
      (v.superclassChain d).members.map Decl.name = ["p.F", "p.G"] ∧ ¬v.CutShort a ∧ ¬v.CutShort d := by
    decide +kernel
  obtain ⟨a, ha, hfound⟩ := (Option.any_eq_true ..).mp hfound
  obtain ⟨d, hd, hfound⟩ := (Option.any_eq_true ..).mp hfound
  obtain ⟨hsuper, hnames, hnames', huncut, huncut'⟩ := of_decide_eq_true hfound
  obtain ⟨f, after, hmembers, -, hafter⟩ := List.map_eq_cons_iff.mp hnames
  obtain ⟨f', after', hmembers', -, -⟩ := List.map_eq_cons_iff.mp hnames'
  obtain ⟨hrun, hunique, hmeet⟩ := superclassChain_exact hv a d
  obtain ⟨hrun', -, -⟩ := superclassChain_exact hv d d
  -- Both references lead to the same class, since they are the same.
  have hf : f = f' := by
    have hlinked := hrun.linked
    have hlinked' := hrun'.linked
    rw [hmembers] at hlinked
    rw [hmembers'] at hlinked'
    have habove : v.above? a = v.above? d := congrArg (·.bind v.resolve) hsuper
    exact Option.some.inj (hlinked.rel.symm.trans (habove.trans hlinked'.rel))
  subst hf
  exact ⟨a, d, f, after, after', ha, hd, hmembers, hmembers', hafter,
    hmeet f [] after [] after' hmembers hmembers' huncut huncut', (hunique _).mp rfl⟩

end View

end ApiSurface
