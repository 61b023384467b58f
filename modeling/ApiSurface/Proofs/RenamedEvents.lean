import ApiSurface.Proofs.AlignedEvents
import ApiSurface.Proofs.Renaming

/-! # Comparisons of renamed surfaces

If a renaming of type parameters does not show where methods are paired, then a comparison matches every
declaration with its peer, and finds nothing removed or added. -/
namespace ApiSurface

open Comparison

/-- The renaming does not show where methods are paired. Type parameters keep their erasures, and the base
name of the type of a parameter changes only if it names a type parameter. Methods of one class that are one
after erasure, which no compiler accepts, keep the order of their texts. -/
structure Surface.KeepsPairing (s t : Surface) : Prop where
  erasures : ∀ d d', s.Peers t d d' → List.Forall₂
    (fun p p' => TypeRef.parameterErasure p' = TypeRef.parameterErasure p)
    d.ownTypeParameters d'.ownTypeParameters
  parameters : ∀ d d', s.Peers t d d' → d.asParameter?.isSome → ∀ a ∈ d.mainType?, ∀ b ∈ d'.mainType?,
    b.baseName = a.baseName ∨ (Rules.namedParameter a d.typeScope).isSome
  order : ∀ d d' e e', s.Peers t d d' → s.Peers t e e' → d.item.parent = e.item.parent →
    d.asMethod?.isSome → e.asMethod?.isSome → d.name = e.name →
      (MethodKey.ofDecl d).erased = (MethodKey.ofDecl e).erased →
        Ord.compare (MethodKey.ofDecl d').literal (MethodKey.ofDecl e').literal =
          Ord.compare (MethodKey.ofDecl d).literal (MethodKey.ofDecl e).literal

namespace Surface.Renamed

variable {s t : Surface} (h : s.Renamed t) (hp : s.KeepsPairing t)

include h hp

/-- A renaming that does not show where methods are paired pairs them alike. -/
theorem pairsAlike : s.PairsAlike t where
  erased := by
    intro d d' hd hparameter a ha b hb
    have htype := (h.renamed hd).mainType
    rw [ha, hb] at htype
    cases htype with | cons htype _ => ?_
    obtain ⟨hplain, hplain'⟩ := hd.plainNames h
    exact htype.erasureIn hplain hplain' (hd.typeScope h.aligned hp.erasures)
      (hp.parameters d d' hd hparameter a ha b hb)
  order := hp.order

/-- A comparison of renamed surfaces matches peers, and nothing else. -/
theorem ofPeers (hs : s.WellFormed) (ht : t.WellFormed) {e : Event} (he : e ∈ s.compare t .all) :
    e.OfPeers s t :=
  h.aligned.ofPeers (h.pairsAlike hp) hs ht he

end Surface.Renamed

end ApiSurface
