import ApiSurface.Proofs.Subjects
import ApiSurface.Proofs.Supertypes

/-! # Narrowed exceptions

A method may throw subclasses of the exceptions that it threw before. Whether a method throws an exception
is answered in both directions, each time by the superclasses of what it throws, so an exception that is
named in place of one of its superclasses is never missed. It is taken for an added one, though, unless the
old method threw a subclass of it as well or something whose superclasses are not all known. -/
namespace ApiSurface

open Arena Surface

namespace View

variable {v : View} {name : String} {type : TypeRef} {d : Decl}

/-- The type is called `name`, or one of its superclasses is, as far as the view knows them. -/
inductive Descends (v : View) (name : String) : TypeRef → Prop where
  | named {type : TypeRef} (h : type.baseName = name) : Descends v name type
  | above {type super : TypeRef} {d : Decl} (hd : v.resolve type = some d)
      (hsuper : d.superclass? = some super) (h : Descends v name super) : Descends v name type

/-- The type or one of its superclasses is not known to the view. -/
inductive LeadsOut (v : View) : TypeRef → Prop where
  | unknown {type : TypeRef} (h : v.resolve type = none) : LeadsOut v type
  | above {type super : TypeRef} {d : Decl} (hd : v.resolve type = some d)
      (hsuper : d.superclass? = some super) (h : LeadsOut v super) : LeadsOut v type

/-- An answer to a question on supertypes: yes, no if all that counts is known, and otherwise none. -/
inductive Answers (holds unsettled : Prop) : Option Bool → Prop where
  | yes (h : holds) : Answers holds unsettled (some true)
  | no (h : ¬holds) (hsettled : ¬unsettled) : Answers holds unsettled (some false)
  | unknown (h : ¬holds) (hunsettled : unsettled) : Answers holds unsettled none

namespace Answers

variable {answer : Option Bool} {holds unsettled holds' unsettled' : Prop}

theorem congr (h : Answers holds unsettled answer) (hh : holds ↔ holds') (hu : unsettled ↔ unsettled') :
    Answers holds' unsettled' answer := by
  rwa [hh, hu] at h

theorem eq_false_iff (h : Answers holds unsettled answer) :
    answer = some false ↔ ¬holds ∧ ¬unsettled := by
  cases h with
  | yes h => exact ⟨nofun, fun hh => (hh.1 h).elim⟩
  | no h hsettled => exact ⟨fun _ => ⟨h, hsettled⟩, fun _ => rfl⟩
  | unknown _ hunsettled => exact ⟨nofun, fun hh => (hh.2 hunsettled).elim⟩

end Answers

/-! ## One step up -/

theorem descends_iff_of_resolve (hd : v.resolve type = some d) (hname : type.baseName ≠ name) :
    v.Descends name type ↔ ∃ super, d.superclass? = some super ∧ v.Descends name super := by
  constructor
  · intro h
    cases h with
    | named h => exact (hname h).elim
    | above hd' hsuper h =>
      obtain rfl := Option.some.inj (hd.symm.trans hd')
      exact ⟨_, hsuper, h⟩
  · rintro ⟨super, hsuper, h⟩
    exact .above hd hsuper h

theorem leadsOut_iff_of_resolve (hd : v.resolve type = some d) :
    v.LeadsOut type ↔ ∃ super, d.superclass? = some super ∧ v.LeadsOut super := by
  constructor
  · intro h
    cases h with
    | unknown h => exact (Option.some_ne_none d (hd.symm.trans h)).elim
    | above hd' hsuper h =>
      obtain rfl := Option.some.inj (hd.symm.trans hd')
      exact ⟨_, hsuper, h⟩
  · rintro ⟨super, hsuper, h⟩
    exact .above hd hsuper h

/-- From each of the classes the superclass reference, which does not name `name`, leads to another one. -/
def Confined (v : View) (name : String) (classes rest : List Decl) : Prop :=
  ∀ x ∈ rest, ∃ type y, x.superclass? = some type ∧ type.baseName ≠ name ∧ v.resolve type = some y ∧
    y ∈ classes

/-- Nothing leaves a cycle, so nothing in it descends from a class outside or leads out. -/
theorem Confined.not_descends {classes : List Decl} (h : v.Confined name classes classes)
    (hname : type.baseName ≠ name) (hd : v.resolve type = some d) (hmem : d ∈ classes) :
    ¬v.Descends name type ∧ ¬v.LeadsOut type := by
  constructor
  · intro hdescends
    induction hdescends generalizing d with
    | named heq => exact hname heq
    | @above type super e hd' hsuper _ ih =>
      obtain rfl := Option.some.inj (hd.symm.trans hd')
      obtain ⟨next, y, hnext, hne, hy, hmem⟩ := h d hmem
      obtain rfl := Option.some.inj (hsuper.symm.trans hnext)
      exact ih hne hy hmem
  · intro hout
    induction hout generalizing d with
    | unknown hnone => exact Option.some_ne_none d (hd.symm.trans hnone)
    | @above type super e hd' hsuper _ ih =>
      obtain rfl := Option.some.inj (hd.symm.trans hd')
      obtain ⟨next, y, hnext, hne, hy, hmem⟩ := h d hmem
      obtain rfl := Option.some.inj (hsuper.symm.trans hnext)
      exact ih hne hy hmem

/-! ## The walk along the superclasses -/

/-- With enough steps ahead, the walk that looks for a name answers whether a class above the current one
has it. The classes that were passed form a trail, and a name that was met closes a cycle in it. -/
theorem Sound.extendsAbove_answers (hv : v.Sound) {bound : Nat} {current : Decl} {passed : List Decl}
    (hknown : ∀ x ∈ current :: passed, v.Knows x)
    (htrail : v.Confined name (current :: passed) passed)
    (hbound : v.unmet ((current :: passed).map Decl.name) < bound) :
    Answers (∃ super, current.superclass? = some super ∧ v.Descends name super)
      (∃ super, current.superclass? = some super ∧ v.LeadsOut super)
      (v.extendsAbove name bound ((current :: passed).map Decl.name) current) := by
  induction bound generalizing current passed with
  | zero => omega
  | succ bound ih =>
    unfold extendsAbove
    cases hsuper : current.superclass? with
    | none =>
      have hno : ∀ p : TypeRef → Prop, ¬∃ super, none = some super ∧ p super := by simp
      exact .no (hno _) (hno _)
    | some type =>
      have hone : ∀ p : TypeRef → Prop, (∃ super, some type = some super ∧ p super) ↔ p type := by simp
      rw [hone, hone]
      dsimp only
      by_cases hname : type.baseName = name
      · rw [if_pos hname]
        exact .yes (.named hname)
      · rw [if_neg hname]
        cases hresolve : v.resolve type with
        | none =>
          refine .unknown (fun h => ?_) (.unknown hresolve)
          cases h with
          | named h => exact hname h
          | above hd => exact Option.some_ne_none _ (hd.symm.trans hresolve)
        | some above =>
          dsimp only
          have habove := hv.knows hresolve
          split
          · next hmet =>
            obtain ⟨x, hx, hxname⟩ := List.mem_map.mp (List.contains_iff_mem.mp hmet)
            have hmem : above ∈ current :: passed := (hknown x hx).eq habove hxname ▸ hx
            have hcycle : v.Confined name (current :: passed) (current :: passed) :=
              List.forall_mem_cons.mpr ⟨⟨type, above, hsuper, hname, hresolve, hmem⟩, htrail⟩
            obtain ⟨hno, hsettled⟩ := hcycle.not_descends hname hresolve hmem
            exact .no hno hsettled
          · next hnew =>
            have hlt := hv.unmet_cons_lt habove (Bool.eq_false_iff.mpr hnew)
            have hknown' : ∀ x ∈ above :: current :: passed, v.Knows x :=
              List.forall_mem_cons.mpr ⟨habove, hknown⟩
            have htrail' : v.Confined name (above :: current :: passed) (current :: passed) := by
              refine List.forall_mem_cons.mpr
                ⟨⟨type, above, hsuper, hname, hresolve, List.mem_cons_self⟩, fun x hx => ?_⟩
              obtain ⟨next, y, hnext, hne, hy, hmem⟩ := htrail x hx
              exact ⟨next, y, hnext, hne, hy, List.mem_cons_of_mem _ hmem⟩
            refine (ih hknown' htrail' ?_).congr (descends_iff_of_resolve hresolve hname).symm
              (leadsOut_iff_of_resolve hresolve).symm
            change v.unmet (above.name :: (current :: passed).map Decl.name) < bound
            omega

/-- Whether a class that the view knows extends another one, as far as its superclasses are known. The root
of all hierarchies is above every class. -/
theorem Sound.extendsClass_answers (hv : v.Sound) (hd : v.resolve type = some d)
    (hname : type.baseName ≠ name) :
    Answers (name = TypeRef.objectName ∨ v.Descends name type) (v.LeadsOut type)
      (v.extendsClass d name) := by
  have hown : d.name ≠ name := fun h => hname (by rw [← h, hv.name_eq hd])
  unfold extendsClass
  by_cases hobject : name = TypeRef.objectName
  · rw [if_pos (.inl hobject)]
    exact .yes (.inl hobject)
  · rw [if_neg (not_or.mpr ⟨hobject, hown⟩), or_iff_right hobject, descends_iff_of_resolve hd hname,
      leadsOut_iff_of_resolve hd]
    have hle := v.unmet_le [d.name]
    have htrail : v.Confined name [d] [] := fun x hx => (List.not_mem_nil hx).elim
    exact hv.extendsAbove_answers (List.forall_mem_singleton.mpr (hv.knows hd)) htrail
      (Nat.lt_succ_of_le hle)

end View

namespace Rules

variable {v : View} {name : String} {type : TypeRef}

/-! ## What a method throws -/

/-- Whether an exception is one of the given name, as far as its superclasses are known. -/
theorem throwsAs_answers (hv : v.Sound) (name : String) (type : TypeRef) :
    View.Answers (v.Descends name type ∨ name = TypeRef.objectName ∧ (v.resolve type).isSome)
      (v.LeadsOut type) (throwsAs v name type) := by
  unfold throwsAs
  by_cases hname : type.baseName = name
  · rw [if_pos hname]
    exact .yes (.inl (.named hname))
  · rw [if_neg hname]
    cases hresolve : v.resolve type with
    | none =>
      refine .unknown ?_ (.unknown hresolve)
      rintro (h | ⟨_, h⟩)
      · cases h with
        | named h => exact hname h
        | above hd => exact Option.some_ne_none _ (hd.symm.trans hresolve)
      · cases h
    | some d =>
      refine (hv.extendsClass_answers hresolve hname).congr ?_ Iff.rfl
      simp only [Option.isSome_some, and_true, or_comm]

/-- A method does not throw an exception if none of its own ones is that or may be. -/
theorem methodThrows_eq_false_iff {method : Decl} {info : MethodInfo} (hinfo : method.asMethod? = some info) :
    methodThrows v method name = some false ↔ ∀ type ∈ info.throws, throwsAs v name type = some false := by
  have hall : ((info.throws.map (throwsAs v name)).all fun verdict => verdict == some false) = true ↔
      ∀ type ∈ info.throws, throwsAs v name type = some false := by
    simp
  unfold methodThrows
  rw [hinfo]
  dsimp only
  split
  · next hyes =>
    obtain ⟨type, htype, hthrows⟩ := List.mem_map.mp (List.contains_iff_mem.mp hyes)
    refine ⟨nofun, fun hno => ?_⟩
    exact absurd (hthrows.symm.trans (hno type htype)) (by decide)
  · split
    · next hno => exact ⟨fun _ => hall.mp hno, fun _ => rfl⟩
    · next hno => exact ⟨nofun, fun h => (hno (hall.mpr h)).elim⟩

/-- Whether the rule on exceptions passes over a matched pair. -/
def exemptsExceptions (old new : Decl) : Bool := isFinalizer old || isEnumAccessor new

/-- What is found about an exception that the new method throws and the old one did not. -/
def addedException (new : Decl) (type : TypeRef) : Finding :=
  { kind := .changedThrows, subject := new, message := new.title ++ " added thrown exception " ++ type.text }

/-- The new exceptions are the old ones or subclasses of them, and of each old one something is left. -/
structure Narrows (context : RuleContext) (was now : List TypeRef) : Prop where
  covered : ∀ type ∈ now, ∃ above ∈ was, context.oldView.Descends above.baseName type
  kept : ∀ type ∈ was, ∃ below ∈ now, context.newView.Descends type.baseName below

/-- The old exceptions leave room for another one: it is above one of them, or may be because the
superclasses of one are not all known. -/
def Foreseen (v : View) (was : List TypeRef) (type : TypeRef) : Prop :=
  type.baseName = TypeRef.objectName ∨ ∃ other ∈ was, v.Descends type.baseName other ∨ v.LeadsOut other

variable {context : RuleContext} {old new : Decl} {was now : MethodInfo}

/-- No exception is missed if something is left of each. -/
theorem methodThrows_of_kept (hv : context.newView.Sound) (hnow : new.asMethod? = some now)
    (h : ∃ below ∈ now.throws, context.newView.Descends type.baseName below) :
    methodThrows context.newView new type.baseName ≠ some false := by
  obtain ⟨below, hbelow, hdescends⟩ := h
  intro hfalse
  have hno := (methodThrows_eq_false_iff hnow).mp hfalse below hbelow
  exact ((throwsAs_answers hv _ below).eq_false_iff.mp hno).1 (.inl hdescends)

/-- An exception counts as added if the old ones leave no room for it. -/
theorem methodThrows_eq_false_iff_not_foreseen (hv : context.oldView.Sound)
    (hwas : old.asMethod? = some was) (hsome : was.throws ≠ []) :
    methodThrows context.oldView old type.baseName = some false ↔
      ¬Foreseen context.oldView was.throws type := by
  rw [methodThrows_eq_false_iff hwas, Foreseen, not_or]
  simp only [not_exists, not_and, not_or]
  constructor
  · intro h
    have hno := fun other hother => (throwsAs_answers hv _ other).eq_false_iff.mp (h other hother)
    refine ⟨fun hobject => ?_, fun other hother => ⟨fun hd => (hno other hother).1 (.inl hd),
      (hno other hother).2⟩⟩
    -- below the root is everything that is known, and what is not known leads out
    obtain ⟨other, rest, hcons⟩ := List.exists_cons_of_ne_nil hsome
    obtain ⟨hnot, hknown⟩ := hno other (hcons ▸ List.mem_cons_self)
    cases hresolve : context.oldView.resolve other with
    | none => exact hknown (.unknown hresolve)
    | some d => exact hnot (.inr ⟨hobject, Option.isSome_of_mem hresolve⟩)
  · rintro ⟨hobject, hno⟩ other hother
    obtain ⟨hnot, hknown⟩ := hno other hother
    refine (throwsAs_answers hv _ other).eq_false_iff.mpr ⟨?_, hknown⟩
    rintro (hd | ⟨h, _⟩)
    · exact hnot hd
    · exact hobject h

namespace Matched

theorem mem_raiseIf {condition : Bool} {kind : IssueKind} {subject : Decl} {message : String} {f : Finding} :
    f ∈ raiseIf condition kind subject message ↔ condition = true ∧ f = { kind, subject, message } := by
  unfold raiseIf
  cases condition <;> simp

/-- Where exceptions are narrowed, what is found about them are the new ones for which the old ones leave
no room. -/
theorem mem_exceptions_of_narrows (hold : context.oldView.Sound) (hnew : context.newView.Sound)
    (hwas : old.asMethod? = some was) (hnow : new.asMethod? = some now)
    (h : Narrows context was.throws now.throws) {f : Finding} :
    f ∈ exceptions context old new ↔ exemptsExceptions old new = false ∧
      ∃ type ∈ now.throws, ¬Foreseen context.oldView was.throws type ∧ f = addedException new type := by
  unfold exceptions exemptsExceptions
  rw [hwas, hnow]
  dsimp only
  cases hexempt : isFinalizer old || isEnumAccessor new with
  | true => simp
  | false =>
    simp only [Bool.false_eq_true, if_false, true_and, List.mem_append, List.mem_flatMap, mem_raiseIf,
      beq_iff_eq]
    have hkept : ¬∃ type ∈ was.throws, methodThrows context.newView new type.baseName = some false ∧
        f = { kind := .changedThrows, subject := new
              message := new.title ++ " no longer throws exception " ++ type.text } := by
      rintro ⟨type, htype, hfalse, _⟩
      exact methodThrows_of_kept hnew hnow (h.kept type htype) hfalse
    rw [or_iff_right hkept]
    refine exists_congr fun type => and_congr_right fun htype => and_congr_left fun _ => ?_
    obtain ⟨above, habove, _⟩ := h.covered type htype
    exact methodThrows_eq_false_iff_not_foreseen hold hwas (List.ne_nil_of_mem habove)

/-! ## Other rules do not speak of exceptions -/

def RaisesNo (kind : IssueKind) (findings : List Finding) : Prop := ∀ f ∈ findings, f.kind ≠ kind

namespace RaisesNo

variable {kind other : IssueKind} {findings more : List Finding} {condition : Bool} {subject : Decl}
  {message : String}

theorem nil : RaisesNo kind [] := fun _ h => (List.not_mem_nil h).elim

theorem append (h : RaisesNo kind findings) (h' : RaisesNo kind more) : RaisesNo kind (findings ++ more) :=
  List.forall_mem_append.mpr ⟨h, h'⟩

theorem singleton (h : other ≠ kind) : RaisesNo kind [{ kind := other, subject, message }] :=
  List.forall_mem_singleton.mpr h

theorem raiseIf (h : other ≠ kind) : RaisesNo kind (ApiSurface.raiseIf condition other subject message) := by
  unfold ApiSurface.raiseIf
  split
  · exact singleton h
  · exact nil

end RaisesNo

theorem nullability_raisesNo : RaisesNo .changedThrows (nullability old new) := by
  unfold nullability
  split
  · exact .nil
  · exact .raiseIf (by decide)
  · exact .raiseIf (by decide)

theorem methodFinality_raisesNo : RaisesNo .changedThrows (methodFinality old new) := by
  unfold methodFinality
  split
  · split
    · exact .singleton (by decide)
    · exact .singleton (by decide)
    · exact .nil
  · exact .nil

theorem returnType_raisesNo : RaisesNo .changedThrows (returnType context old new) := by
  unfold returnType
  split
  · exact .raiseIf (by decide)
  · exact .nil

/-- What is said of the exceptions of a matched pair is what the rule on exceptions finds. -/
theorem mem_findings_changedThrows (hnow : new.asMethod? = some now) {f : Finding} :
    f ∈ findings context old new ∧ f.kind = .changedThrows ↔ f ∈ exceptions context old new := by
  have hrules : findings context old new = deprecation old new ++ methodRules context old new := by
    unfold Decl.asMethod? at hnow
    unfold findings
    cases hpay : new.item.payload <;> rw [hpay] at hnow <;> first | rfl | cases hnow
  have hothers : RaisesNo .changedThrows (deprecation old new ++ (visibility old new ++
      (if new.isConstructor then [] else nullability old new) ++ methodFinality old new ++
      methodAbstract old new ++ methodDefault old new ++ staticQualifier old new ++
      returnType context old new)) := by
    refine .append (.raiseIf (by decide)) (.append (.append (.append (.append (.append (.append ?_ ?_) ?_)
      ?_) ?_) ?_) ?_)
    · exact .raiseIf (by decide)
    · split
      · exact .nil
      · exact nullability_raisesNo
    · exact methodFinality_raisesNo
    · exact .raiseIf (by decide)
    · exact .raiseIf (by decide)
    · exact .raiseIf (by decide)
    · exact returnType_raisesNo
  have hkind : ∀ f ∈ exceptions context old new, f.kind = .changedThrows := by
    unfold exceptions
    split
    · split
      · exact List.forall_mem_nil _
      · simp only [List.forall_mem_append, List.forall_mem_flatMap, mem_raiseIf]
        exact ⟨fun _ _ _ h => h.2 ▸ rfl, fun _ _ _ h => h.2 ▸ rfl⟩
    · exact List.forall_mem_nil _
  rw [hrules, methodRules, ← List.append_assoc, List.mem_append]
  constructor
  · rintro ⟨hf | hf, hthrows⟩
    · exact (hothers f hf hthrows).elim
    · exact hf
  · exact fun hf => ⟨.inr hf, hkind f hf⟩

end Matched

end Rules

/-! ## What a check reports -/

namespace RuleContext

variable {context : RuleContext} {old new : Decl} {was now : MethodInfo}

/-- Whatever is said about the exceptions of a new method is said about its pair. -/
theorem mem_reports_changedThrows (hs : context.oldView.primary.Built) (ht : context.newView.primary.Built)
    (severities : SeverityTable) (he : Event.matched old new ∈
      context.oldView.primary.compare context.newView.primary context.filter)
    (hnow : new.asMethod? = some now) {f : Finding} :
    f ∈ context.reports severities ∧ f.kind = .changedThrows ∧ f.subject = new ↔
      severities .changedThrows ≠ .hidden ∧ f ∈ Rules.Matched.exceptions context old new := by
  constructor
  · rintro ⟨hf, hkind, hsubject⟩
    obtain ⟨hf, hrecorded⟩ := List.mem_filter.mp hf
    obtain ⟨e, hmem, hf⟩ := List.mem_flatMap.mp hf
    have hon := on_new_of_mem_findings hf (by rw [hkind]; rfl)
    have heq : e = .matched old new := Comparison.eq_of_concerns hs.wellFormed ht.wellFormed hmem he
      (Event.concerns_iff.mpr ⟨_, hon, rfl⟩) (Event.concerns_iff.mpr ⟨new, rfl, by rw [hsubject]⟩)
    subst heq
    refine ⟨?_, (Rules.Matched.mem_findings_changedThrows hnow).mp ⟨hf, hkind⟩⟩
    rw [← hkind]
    exact bne_iff_ne.mp hrecorded
  · rintro ⟨hshown, hf⟩
    obtain ⟨hfinding, hkind⟩ := (Rules.Matched.mem_findings_changedThrows hnow).mpr hf
    refine ⟨List.mem_filter.mpr ⟨List.mem_flatMap.mpr ⟨_, he, hfinding⟩, ?_⟩, hkind,
      (Rules.Matched.findings_changesOf context old new f hfinding).1⟩
    exact bne_iff_ne.mpr (by rwa [hkind])

/-- Where exceptions are narrowed, a check reports the new ones for which the old ones leave no room. -/
theorem mem_reports_of_narrows (hold : ∀ s ∈ context.oldView.surfaces, s.Built)
    (hnew : ∀ s ∈ context.newView.surfaces, s.Built) (severities : SeverityTable)
    (he : Event.matched old new ∈
      context.oldView.primary.compare context.newView.primary context.filter)
    (hwas : old.asMethod? = some was) (hnow : new.asMethod? = some now)
    (h : Rules.Narrows context was.throws now.throws) {f : Finding} :
    f ∈ context.reports severities ∧ f.kind = .changedThrows ∧ f.subject = new ↔
      severities .changedThrows ≠ .hidden ∧ Rules.exemptsExceptions old new = false ∧
        ∃ type ∈ now.throws, ¬Rules.Foreseen context.oldView was.throws type ∧
          f = Rules.addedException new type := by
  rw [mem_reports_changedThrows (hold _ List.mem_cons_self) (hnew _ List.mem_cons_self) severities he hnow,
    Rules.Matched.mem_exceptions_of_narrows (View.sound_of_built hold) (View.sound_of_built hnew) hwas hnow
      h]

end RuleContext

/-- What a check says of a method whose exceptions are narrowed: each of its exceptions for which the old
ones leave no room is reported as added, nothing else is said of its exceptions, and so nothing at all iff
such changes are hidden, what the method throws does not count, or the old exceptions leave room for all
the new ones. -/
theorem check_narrowed (context : RuleContext) (hold : ∀ s ∈ context.oldView.surfaces, s.Built)
    (hnew : ∀ s ∈ context.newView.surfaces, s.Built) (severities : SeverityTable) :
    (check context.oldView context.newView context.filter severities).issues =
        (context.reports severities).map (Finding.issue severities) ∧
      ∀ old new was now, Event.matched old new ∈
          context.oldView.primary.compare context.newView.primary context.filter →
        old.asMethod? = some was → new.asMethod? = some now →
        Rules.Narrows context was.throws now.throws →
        (∀ f, f ∈ context.reports severities ∧ f.kind = .changedThrows ∧ f.subject = new ↔
          severities .changedThrows ≠ .hidden ∧ Rules.exemptsExceptions old new = false ∧
            ∃ type ∈ now.throws, ¬Rules.Foreseen context.oldView was.throws type ∧
              f = Rules.addedException new type) ∧
        ((∀ f ∈ context.reports severities, f.kind = .changedThrows → f.subject ≠ new) ↔
          severities .changedThrows = .hidden ∨ Rules.exemptsExceptions old new = true ∨
            ∀ type ∈ now.throws, Rules.Foreseen context.oldView was.throws type) := by
  refine ⟨check_issues _ _ _ _, fun old new was now he hwas hnow h => ?_⟩
  have hreports := fun f => context.mem_reports_of_narrows hold hnew severities he hwas hnow h (f := f)
  refine ⟨hreports, ?_⟩
  constructor
  · intro hsilent
    by_contra hloud
    simp only [not_or, not_forall, Bool.not_eq_true] at hloud
    obtain ⟨hshown, hcounts, type, htype, hadded⟩ := hloud
    obtain ⟨hf, hkind, hsubject⟩ := (hreports _).mpr ⟨hshown, hcounts, type, htype, hadded, rfl⟩
    exact hsilent _ hf hkind hsubject
  · intro hquiet f hf hkind hsubject
    obtain ⟨hshown, hcounts, type, htype, hadded, _⟩ := (hreports f).mp ⟨hf, hkind, hsubject⟩
    rcases hquiet with hhidden | hany | hall
    · exact hshown hhidden
    · exact Bool.false_ne_true (hcounts.symm.trans hany)
    · exact hadded (hall type htype)

/-- A class with a method that throws one exception, an exception with the given superclass, and one below
it. -/
def Recipe.throwing (superclass : Option TypeRef) (thrown : String) : Recipe :=
  { calls := [.packageSpec { name := "p", classes := [
      { name := "p.IoError", modifiers := .ofVisibility .publicAccess, superclass },
      { name := "p.MissingFile", modifiers := .ofVisibility .publicAccess, superclass := some ⟨"p.IoError"⟩ },
      { name := "p.C", modifiers := .ofVisibility .publicAccess
        methods := [{ MethodSpec.published "m" with throws := [⟨thrown⟩] }] }] }] }

/-- The method throws the lower one of the two exceptions now. -/
def RuleContext.narrowing (superclass : Option TypeRef) : RuleContext :=
  .published ((Recipe.throwing superclass "p.IoError").build 1 "old.json")
    ((Recipe.throwing superclass "p.MissingFile").build 2 "new.json")

theorem narrowing_built (superclass : Option TypeRef) :
    (∀ s ∈ (RuleContext.narrowing superclass).oldView.surfaces, s.Built) ∧
      ∀ s ∈ (RuleContext.narrowing superclass).newView.surfaces, s.Built := by
  have hs : ((Recipe.throwing superclass "p.IoError").build 1 "old.json").Built := ⟨_, _, _, rfl⟩
  have ht : ((Recipe.throwing superclass "p.MissingFile").build 2 "new.json").Built := ⟨_, _, _, rfl⟩
  exact ⟨List.forall_mem_cons.mpr ⟨hs, List.forall_mem_singleton.mpr ht⟩, List.forall_mem_singleton.mpr ht⟩

/-- The lower exception is below the other one in a view that knows its superclass. -/
theorem narrows_of_superclass {context : RuleContext}
    (hold : (context.oldView.resolve ⟨"p.MissingFile"⟩).bind Decl.superclass? = some ⟨"p.IoError"⟩)
    (hnew : (context.newView.resolve ⟨"p.MissingFile"⟩).bind Decl.superclass? = some ⟨"p.IoError"⟩) :
    Rules.Narrows context [⟨"p.IoError"⟩] [⟨"p.MissingFile"⟩] := by
  have hbelow : ∀ v : View, (v.resolve ⟨"p.MissingFile"⟩).bind Decl.superclass? = some ⟨"p.IoError"⟩ →
      v.Descends (TypeRef.baseName ⟨"p.IoError"⟩) ⟨"p.MissingFile"⟩ := by
    intro v h
    obtain ⟨d, hd, hsuper⟩ := Option.bind_eq_some_iff.mp h
    exact .above hd hsuper (.named rfl)
  exact
    { covered := List.forall_mem_singleton.mpr ⟨_, List.mem_cons_self, hbelow _ hold⟩
      kept := List.forall_mem_singleton.mpr ⟨_, List.mem_cons_self, hbelow _ hnew⟩ }

/-- The matched methods that throw the two exceptions. -/
def Event.narrows : Event → Bool
  | .matched old new => old.asMethod?.any (·.throws == [⟨"p.IoError"⟩]) &&
      new.asMethod?.any (·.throws == [⟨"p.MissingFile"⟩]) && !Rules.exemptsExceptions old new
  | _ => false

theorem exists_of_narrows {events : List Event} (h : events.any Event.narrows = true) :
    ∃ old new was now, Event.matched old new ∈ events ∧ old.asMethod? = some was ∧
      new.asMethod? = some now ∧ was.throws = [⟨"p.IoError"⟩] ∧ now.throws = [⟨"p.MissingFile"⟩] ∧
      Rules.exemptsExceptions old new = false := by
  obtain ⟨e, he, h⟩ := List.any_eq_true.mp h
  cases e with
  | removed _ _ => exact (Bool.false_ne_true h).elim
  | added _ => exact (Bool.false_ne_true h).elim
  | matched old new =>
    simp only [Event.narrows, Bool.and_eq_true, Option.any_eq_true, beq_iff_eq, Bool.not_eq_eq_eq_not,
      Bool.not_true] at h
    obtain ⟨⟨⟨was, hwas, hthrew⟩, now, hnow, hthrows⟩, hcounts⟩ := h
    exact ⟨old, new, was, now, he, hwas, hnow, hthrew, hthrows, hcounts⟩

theorem check_narrowed_openTop :
    let context := RuleContext.narrowing (some ⟨"java.lang.Exception"⟩)
    ∃ old new, Event.matched old new ∈
        context.oldView.primary.compare context.newView.primary context.filter ∧
      Rules.exemptsExceptions old new = false ∧
      Rules.Narrows context [⟨"p.IoError"⟩] [⟨"p.MissingFile"⟩] ∧
      ∀ f ∈ context.reports .standard, f.kind = .changedThrows → f.subject ≠ new := by
  intro context
  obtain ⟨hold, hnew⟩ := narrowing_built (some ⟨"java.lang.Exception"⟩)
  have hmatched : (context.oldView.primary.compare context.newView.primary context.filter).any
      Event.narrows = true := by decide +kernel
  obtain ⟨old, new, was, now, he, hwas, hnow, hthrew, hthrows, hcounts⟩ := exists_of_narrows hmatched
  have hnarrows : Rules.Narrows context [⟨"p.IoError"⟩] [⟨"p.MissingFile"⟩] :=
    narrows_of_superclass (by decide +kernel) (by decide +kernel)
  have hopen : context.oldView.LeadsOut ⟨"p.IoError"⟩ := by
    have hsuper : (context.oldView.resolve ⟨"p.IoError"⟩).bind Decl.superclass? =
        some ⟨"java.lang.Exception"⟩ := by decide +kernel
    obtain ⟨d, hd, hsuper⟩ := Option.bind_eq_some_iff.mp hsuper
    exact .above hd hsuper (.unknown (Option.isNone_iff_eq_none.mp (by decide +kernel)))
  refine ⟨old, new, he, hcounts, hnarrows, ?_⟩
  refine ((check_narrowed context hold hnew .standard).2 old new was now he hwas hnow
    (by rw [hthrew, hthrows]; exact hnarrows)).2.mpr (.inr (.inr fun type _ => .inr ⟨_, ?_, .inr hopen⟩))
  rw [hthrew]
  exact List.mem_cons_self

/-- Narrowed exceptions are reported if all their superclasses are known. -/
theorem check_narrowed_knownTop : ¬∀ (context : RuleContext),
    (∀ s ∈ context.oldView.surfaces, s.Built) → (∀ s ∈ context.newView.surfaces, s.Built) →
      ∀ (severities : SeverityTable) (old new : Decl) (was now : MethodInfo), Event.matched old new ∈
          context.oldView.primary.compare context.newView.primary context.filter →
        old.asMethod? = some was → new.asMethod? = some now →
        Rules.Narrows context was.throws now.throws →
        ∀ f ∈ context.reports severities, f.kind = .changedThrows → f.subject ≠ new := by
  intro h
  obtain ⟨hold, hnew⟩ := narrowing_built none
  have hmatched : ((RuleContext.narrowing none).oldView.primary.compare
      (RuleContext.narrowing none).newView.primary (RuleContext.narrowing none).filter).any
        Event.narrows = true := by decide +kernel
  obtain ⟨old, new, was, now, he, hwas, hnow, hthrew, hthrows, hcounts⟩ := exists_of_narrows hmatched
  have hnarrows : Rules.Narrows (.narrowing none) was.throws now.throws := by
    rw [hthrew, hthrows]
    exact narrows_of_superclass (by decide +kernel) (by decide +kernel)
  have hverdict : Rules.throwsAs (RuleContext.narrowing none).oldView "p.MissingFile" ⟨"p.IoError"⟩ =
      some false := by decide +kernel
  have hadded : ¬Rules.Foreseen (RuleContext.narrowing none).oldView was.throws ⟨"p.MissingFile"⟩ := by
    have hsome : was.throws ≠ [] := by rw [hthrew]; exact List.cons_ne_nil _ _
    rw [← Rules.methodThrows_eq_false_iff_not_foreseen (View.sound_of_built hold) hwas hsome,
      Rules.methodThrows_eq_false_iff hwas, hthrew]
    exact List.forall_mem_singleton.mpr hverdict
  have hthrown : ⟨"p.MissingFile"⟩ ∈ now.throws := by rw [hthrows]; exact List.mem_cons_self
  obtain ⟨hf, hkind, hsubject⟩ := (RuleContext.mem_reports_of_narrows hold hnew .standard he hwas hnow
    hnarrows).mpr ⟨by decide, hcounts, _, hthrown, hadded, rfl⟩
  exact h _ hold hnew .standard old new was now he hwas hnow hnarrows _ hf hkind hsubject

end ApiSurface
