import ApiSurface.Proofs.AlikeViews
import ApiSurface.Proofs.Counterparts

/-! # Walks of the hierarchy meet counterparts

Two views whose surfaces correspond, one by one, answer alike about counterparts: every walk meets
counterparts, and what is looked up in a class are counterparts too. -/
namespace ApiSurface

open Arena Surface

/-- The surfaces of the views correspond in the order in which they are asked. -/
def Links.Views (l : Links) (v v' : View) : Prop :=
  List.Forall₂ l.Corresponds v.surfaces v'.surfaces

variable {l : Links} {v v' : View} {d d' m m' : Decl}

namespace Links.Views

theorem classCount (hv : l.Views v v') (hl : l.Sound) : v'.classCount = v.classCount := by
  unfold View.classCount
  have h : List.Forall₂ l.Corresponds v.surfaces v'.surfaces := hv
  generalize v.surfaces = surfaces at h
  generalize v'.surfaces = surfaces' at h
  induction h with
  | nil => rfl
  | cons h _ ih => rw [List.foldr_cons, List.foldr_cons, ih, h.size_classes hl]

/-- Views of surfaces that correspond answer alike about counterparts. -/
theorem alike (hv : l.Views v v') (hl : l.Sound) : View.Alike l.Counterpart v v' where
  name hd := (hd.namesake hl).name
  superclass? hd := (hd.namesake hl).superclass?
  interfaces hd := (hd.namesake hl).interfaces
  findClass? name := findSome?_rel hv fun _ _ h => h.findClass? hl name
  classCount := hv.classCount hl

end Links.Views

namespace View

theorem alone_single (s s' : Surface) : (Links.single s s').Views s.alone s'.alone :=
  .cons Links.corresponds_single .nil

/-- What is found for a method of a reordered surface are counterparts. -/
theorem findMethod?_counterpart (hv : l.Views v v') (hl : l.Sound) (hd : l.Counterpart d d')
    {pair : Surface × Surface} (h : pair ∈ l.reordered) (hm : pair.1.Twins pair.2 m m')
    (superclasses interfaces : Bool) {accept accept' : Decl → Bool}
    (haccept : ∀ d d', l.Counterpart d d' → accept' d' = accept d) :
    Option.Rel (l.Overload m) (v.findMethod? d m superclasses interfaces accept)
      (v'.findMethod? d' m' superclasses interfaces accept') := by
  have hn := (hl.mirrors _ h).namesake hm
  have hhit : ∀ d d', l.Overload m d d' → (d'.signatureMatches m' && accept' d') =
      (d.signatureMatches m && accept d) := by
    intro d d' hd
    rw [(hd.2.namesake hl).signatureMatches hn, haccept d d' hd.2]
  have hfind : ∀ c c', l.Counterpart c c' → Option.Rel (l.Overload m)
      ((c.overloads m).find? fun e => e.signatureMatches m && accept e)
      ((c'.overloads m').find? fun e => e.signatureMatches m' && accept' e) :=
    fun c c' hc => hc.find?_overloads hl h hm hhit fun e he => (Bool.and_eq_true_iff.mp he).1
  unfold findMethod?
  rw [hn.isConstructor]
  cases hconstructor : m.isConstructor with
  | true =>
    simpa only [Decl.overloads, hn.isConstructor, hconstructor, if_true] using hfind d d' hd
  | false =>
    simp only [Decl.overloads, hn.isConstructor, hconstructor, Bool.false_eq_true, if_false] at hfind ⊢
    exact rel_or (hfind d d' hd)
      ((hv.alike hl).searchSupertypes hd superclasses interfaces fun t t' ht => hfind t t' ht)

theorem findField?_counterpart (hv : l.Views v v') (hl : l.Sound) (hd : l.Counterpart d d')
    (name : String) (superclasses interfaces : Bool) {accept accept' : Decl → Bool}
    (haccept : ∀ d d', l.Counterpart d d' → accept' d' = accept d) :
    Option.Rel l.Counterpart (v.findField? d name superclasses interfaces accept)
      (v'.findField? d' name superclasses interfaces accept') := by
  have hnamed : ∀ d d' : Decl, d.Namesake d' → (d'.asField?.any fun info => info.name == name) =
      d.asField?.any fun info => info.name == name := by
    intro d d' hn
    have hf := congrArg (Option.any fun info : FieldInfo => info.name == name) hn.map_asField?
    rwa [Option.any_map, Option.any_map] at hf
  have hfind : ∀ c c', l.Counterpart c c' → Option.Rel l.Counterpart
      (c.fields.find? fun e => (e.asField?.any fun info => info.name == name) && accept e)
      (c'.fields.find? fun e => (e.asField?.any fun info => info.name == name) && accept' e) := by
    intro c c' hc
    refine hc.find?_fields hl name (fun e e' he => ?_) fun e he => ?_
    · rw [hnamed e e' (he.namesake hl), haccept e e' he]
    · obtain ⟨info, hinfo, hname⟩ := (Option.any_eq_true _ _).mp (Bool.and_eq_true_iff.mp he).1
      rw [Decl.name_of_asField? e hinfo, eq_of_beq hname]
  unfold findField?
  exact rel_or (hfind d d' hd)
    ((hv.alike hl).searchSupertypes hd superclasses interfaces fun t t' ht => hfind t t' ht)

end View

end ApiSurface
