import ApiSurface.Proofs.OverrideLinks

/-! # The search for overridden stubs

Whether an added method could be called before hangs on what it overrides at some distance. Links to overridden
methods are followed with a stack, and a method that was met before is passed over. The links may form cycles,
where classes claim to extend each other. The search ends all the same, because no method is expanded twice and
each turn takes one link off the stack, and it finds a stub iff the links lead to one. -/
namespace ApiSurface

open Relation Surface

variable {s : Surface} {d m current : Decl} {seen : List ItemId} {stack rest : List Decl} {bound turns : Nat}
  {answer : Bool}

namespace Rules

/-- A search that has met some ids and has a stack of methods before it takes so many turns and ends with this
answer. Nothing bounds its length. -/
inductive StubSearch : List ItemId → List Decl → Nat → Bool → Prop
  | exhausted {seen : List ItemId} : StubSearch seen [] 0 false
  | again {seen : List ItemId} {current : Decl} {rest : List Decl} {turns : Nat} {answer : Bool} :
      current.id ∈ seen → StubSearch seen rest turns answer →
      StubSearch seen (current :: rest) (turns + 1) answer
  | stub {seen : List ItemId} {current : Decl} {rest : List Decl} :
      current.id ∉ seen → current.isEmitted = false → StubSearch seen (current :: rest) 1 true
  | expand {seen : List ItemId} {current : Decl} {rest : List Decl} {turns : Nat} {answer : Bool} :
      current.id ∉ seen → current.isEmitted = true →
      StubSearch (current.id :: seen) (current.overridden.reverse ++ rest) turns answer →
      StubSearch seen (current :: rest) (turns + 1) answer

end Rules

/-! ## What is left to expand -/

namespace Surface

/-- The ids of the surface that are not among the seen ones. -/
def unmetIds (s : Surface) (seen : List ItemId) : List ItemId :=
  ((List.range s.size).map ItemId.mk).filter fun id => id ∉ seen

def linksFrom (s : Surface) (id : ItemId) : List Decl := (s.decl? id).elim [] Decl.overridden

/-- The number of links from items that are not among the seen ones. -/
def unmetLinks (s : Surface) (seen : List ItemId) : Nat := ((s.unmetIds seen).flatMap s.linksFrom).length

theorem unmetIds_cons (s : Surface) (id : ItemId) (seen : List ItemId) :
    s.unmetIds (id :: seen) = (s.unmetIds seen).erase id := by
  have hnodup : ((List.range s.size).map ItemId.mk).Nodup :=
    List.nodup_range.map fun i j h => congrArg ItemId.index h
  unfold unmetIds
  rw [(hnodup.filter _).erase_eq_filter, List.filter_filter]
  refine List.filter_congr fun other _ => ?_
  simp only [List.mem_cons, not_or, Bool.decide_and, decide_not]
  rfl

theorem Declares.mem_unmetIds (hd : s.Declares d) (hnew : d.id ∉ seen) : d.id ∈ s.unmetIds seen := by
  have hlt : d.id.index < s.size := (Array.getElem?_eq_some_iff.mp hd.getElem?).1
  exact List.mem_filter.mpr
    ⟨List.mem_map.mpr ⟨_, List.mem_range.mpr hlt, rfl⟩, decide_eq_true hnew⟩

theorem length_unmetIds_le (s : Surface) (seen : List ItemId) : (s.unmetIds seen).length ≤ s.size := by
  have hle := List.length_filter_le (fun id => id ∉ seen) ((List.range s.size).map ItemId.mk)
  rwa [List.length_map, List.length_range] at hle

theorem Declares.length_unmetIds_cons (hd : s.Declares d) (hnew : d.id ∉ seen) :
    (s.unmetIds (d.id :: seen)).length + 1 = (s.unmetIds seen).length := by
  rw [unmetIds_cons]
  exact List.length_erase_add_one (hd.mem_unmetIds hnew)

/-- To expand an item uses up its links. -/
theorem Declares.unmetLinks_cons (hd : s.Declares d) (hnew : d.id ∉ seen) :
    d.overridden.length + s.unmetLinks (d.id :: seen) = s.unmetLinks seen := by
  have hlinks : s.linksFrom d.id = d.overridden := by
    have hfound : s.decl? d.id = some d := hd
    rw [linksFrom, hfound]
    rfl
  have hperm := (List.perm_cons_erase (hd.mem_unmetIds hnew)).flatMap_right s.linksFrom
  rw [← unmetIds_cons, List.flatMap_cons, hlinks] at hperm
  unfold unmetLinks
  rw [hperm.length_eq, List.length_append]

end Surface

namespace Rules

/-- What stands on the stack after a method has been expanded is declared. -/
theorem declares_expanded (hstack : ∀ d ∈ current :: rest, s.Declares d) :
    ∀ d ∈ current.overridden.reverse ++ rest, s.Declares d := by
  obtain ⟨hcurrent, hrest⟩ := List.forall_mem_cons.mp hstack
  intro d hd
  rcases List.mem_append.mp hd with hd | hd
  · exact hcurrent.of_mem_overridden (List.mem_reverse.mp hd)
  · exact hrest d hd

/-- Every turn takes a method off the stack, and only links that were not followed before put any on it. -/
theorem exists_stubSearch (hstack : ∀ d ∈ stack, s.Declares d) :
    ∃ turns ≤ stack.length + s.unmetLinks seen, ∃ answer, StubSearch seen stack turns answer := by
  induction hleft : stack.length + s.unmetLinks seen using Nat.strong_induction_on
    generalizing seen stack with
  | _ left ih =>
    subst hleft
    cases stack with
    | nil => exact ⟨0, Nat.zero_le _, false, .exhausted⟩
    | cons current rest =>
      obtain ⟨hcurrent, hrest⟩ := List.forall_mem_cons.mp hstack
      rw [List.length_cons] at ih ⊢
      by_cases hmet : current.id ∈ seen
      · obtain ⟨turns, hturns, answer, hsearch⟩ :=
          ih (rest.length + s.unmetLinks seen) (by omega) hrest rfl
        exact ⟨turns + 1, by omega, answer, .again hmet hsearch⟩
      · cases hemitted : current.isEmitted with
        | false => exact ⟨1, by omega, true, .stub hmet hemitted⟩
        | true =>
          have hlinks := hcurrent.unmetLinks_cons hmet
          have hlength : (current.overridden.reverse ++ rest).length =
              current.overridden.length + rest.length := by
            rw [List.length_append, List.length_reverse]
          obtain ⟨turns, hturns, answer, hsearch⟩ :=
            ih ((current.overridden.reverse ++ rest).length + s.unmetLinks (current.id :: seen)) (by omega)
              (declares_expanded hstack) rfl
          exact ⟨turns + 1, by omega, answer, .expand hmet hemitted hsearch⟩

/-! ## The bounded walk -/

theorem overriddenClosure_met (hmet : current.id ∈ seen) (bound : Nat) (rest : List Decl) :
    overriddenClosure bound seen (current :: rest) = overriddenClosure bound seen rest := by
  have hdrop : (current :: rest).dropWhile (fun d => seen.contains d.id) =
      rest.dropWhile fun d => seen.contains d.id :=
    List.dropWhile_cons_of_pos (List.contains_iff_mem.mpr hmet)
  cases bound with
  | zero => rfl
  | succ bound => rw [overriddenClosure, overriddenClosure, hdrop]

theorem overriddenClosure_new (hnew : current.id ∉ seen) (bound : Nat) (rest : List Decl) :
    overriddenClosure (bound + 1) seen (current :: rest) =
      current :: overriddenClosure bound (current.id :: seen) (current.overridden.reverse ++ rest) := by
  have hdrop : (current :: rest).dropWhile (fun d => seen.contains d.id) = current :: rest :=
    List.dropWhile_cons_of_neg fun h => hnew (List.contains_iff_mem.mp h)
  rw [overriddenClosure, hdrop]

/-- A walk that may expand every method not met yet finds what the search finds. -/
theorem StubSearch.any_overriddenClosure (h : StubSearch seen stack turns answer)
    (hstack : ∀ d ∈ stack, s.Declares d) (hbound : (s.unmetIds seen).length < bound) :
    ((overriddenClosure bound seen stack).any fun above => !above.isEmitted) = answer := by
  obtain ⟨bound, rfl⟩ := Nat.exists_eq_succ_of_ne_zero (Nat.ne_of_gt (Nat.zero_lt_of_lt hbound))
  induction h generalizing bound with
  | exhausted => rfl
  | again hmet _ ih =>
    rw [overriddenClosure_met hmet]
    exact ih (List.forall_mem_cons.mp hstack).2 bound hbound
  | stub hnew hstub =>
    rw [overriddenClosure_new hnew, List.any_cons, hstub]
    rfl
  | @expand seen current rest turns answer hnew hemitted _ ih =>
    have hunmet := (hstack _ List.mem_cons_self).length_unmetIds_cons hnew
    obtain ⟨bound, rfl⟩ : ∃ n, bound = n + 1 := ⟨bound - 1, by omega⟩
    rw [overriddenClosure_new hnew, List.any_cons, hemitted]
    exact ih (declares_expanded hstack) bound (by omega)

/-- Every search among what a method overrides ends with the verdict on it. -/
theorem StubSearch.overridesStub_eq (hm : s.Declares m)
    (h : StubSearch [] m.overridden.reverse turns answer) : overridesStub m = answer := by
  have hstack : ∀ d ∈ m.overridden.reverse, s.Declares d := fun d hd =>
    hm.of_mem_overridden (List.mem_reverse.mp hd)
  have hle := s.length_unmetIds_le []
  rw [overridesStub, hm.surface]
  exact h.any_overriddenClosure hstack (by omega)

/-! ## What a search finds -/

/-- A stub that a search finds can be reached from its stack. -/
theorem StubSearch.exists_stub (h : StubSearch seen stack turns answer)
    (hstack : ∀ d ∈ stack, s.Declares d) (hfound : answer = true) :
    ∃ d ∈ stack, ∃ e, ReflTransGen s.Overrides d e ∧ e.isEmitted = false := by
  induction h with
  | exhausted => cases hfound
  | again _ _ ih =>
    obtain ⟨d, hd, hreach⟩ := ih (List.forall_mem_cons.mp hstack).2 hfound
    exact ⟨d, List.mem_cons_of_mem _ hd, hreach⟩
  | @stub _ current _ _ hstub => exact ⟨current, List.mem_cons_self, current, .refl, hstub⟩
  | @expand _ current _ _ _ _ _ _ ih =>
    obtain ⟨d, hd, e, hreach, he⟩ := ih (declares_expanded hstack) hfound
    rcases List.mem_append.mp hd with hd | hd
    · have hlink : s.Overrides current d := ⟨hstack _ List.mem_cons_self, List.mem_reverse.mp hd⟩
      exact ⟨current, List.mem_cons_self, e, .head hlink hreach, he⟩
    · exact ⟨d, List.mem_cons_of_mem _ hd, e, hreach, he⟩

/-- What has been met is emitted, and what it overrides has been met or stands on the stack. -/
def Explored (s : Surface) (seen : List ItemId) (stack : List Decl) : Prop :=
  ∀ d, s.Declares d → d.id ∈ seen →
    d.isEmitted = true ∧ ∀ e ∈ d.overridden, e.id ∈ seen ∨ e ∈ stack

theorem Explored.again (h : Explored s seen (current :: rest)) (hmet : current.id ∈ seen) :
    Explored s seen rest := by
  intro d hd hseen
  obtain ⟨hemitted, hlinks⟩ := h d hd hseen
  refine ⟨hemitted, fun e he => ?_⟩
  rcases hlinks e he with he | he
  · exact .inl he
  · rcases List.mem_cons.mp he with rfl | he
    · exact .inl hmet
    · exact .inr he

theorem Explored.expand (h : Explored s seen (current :: rest)) (hcurrent : s.Declares current)
    (hemitted : current.isEmitted = true) :
    Explored s (current.id :: seen) (current.overridden.reverse ++ rest) := by
  intro d hd hseen
  rcases List.mem_cons.mp hseen with hid | hseen
  · obtain rfl := hd.eq_of_id hcurrent hid
    exact ⟨hemitted, fun e he => .inr (List.mem_append_left _ (List.mem_reverse.mpr he))⟩
  · obtain ⟨hemitted, hlinks⟩ := h d hd hseen
    refine ⟨hemitted, fun e he => ?_⟩
    rcases hlinks e he with he | he
    · exact .inl (List.mem_cons_of_mem _ he)
    · rcases List.mem_cons.mp he with rfl | he
      · exact .inl List.mem_cons_self
      · exact .inr (List.mem_append_right _ he)

/-- Where nothing is left to explore, links lead from what has been met to nothing else. -/
theorem Explored.isEmitted {e : Decl} (h : Explored s seen []) (hd : s.Declares d) (hseen : d.id ∈ seen)
    (hreach : ReflTransGen s.Overrides d e) : e.isEmitted = true := by
  induction hreach using ReflTransGen.head_induction_on with
  | refl => exact (h _ hd hseen).1
  | head hlink _ ih =>
    have hmet := ((h _ hd hseen).2 _ hlink.2).resolve_right List.not_mem_nil
    exact ih (hd.of_mem_overridden hlink.2) hmet

/-- A search that finds no stub has met everything that can be reached from its stack. -/
theorem StubSearch.isEmitted {e : Decl} (h : StubSearch seen stack turns answer)
    (hexplored : Explored s seen stack) (hstack : ∀ d ∈ stack, s.Declares d) (hnone : answer = false)
    (hd : s.Declares d) (hmem : d.id ∈ seen ∨ d ∈ stack) (hreach : ReflTransGen s.Overrides d e) :
    e.isEmitted = true := by
  induction h with
  | exhausted => exact hexplored.isEmitted hd (hmem.resolve_right List.not_mem_nil) hreach
  | again hmet _ ih =>
    refine ih (hexplored.again hmet) (List.forall_mem_cons.mp hstack).2 hnone ?_
    rcases hmem with hseen | hmem
    · exact .inl hseen
    · rcases List.mem_cons.mp hmem with rfl | hmem
      · exact .inl hmet
      · exact .inr hmem
  | stub => cases hnone
  | expand _ hemitted _ ih =>
    refine ih (hexplored.expand (hstack _ List.mem_cons_self) hemitted) (declares_expanded hstack) hnone ?_
    rcases hmem with hseen | hmem
    · exact .inl (List.mem_cons_of_mem _ hseen)
    · rcases List.mem_cons.mp hmem with rfl | hmem
      · exact .inl List.mem_cons_self
      · exact .inr (List.mem_append_right _ hmem)

/-- A search among what a method overrides answers yes iff links lead from the method to a stub. -/
theorem StubSearch.answer_iff (hm : s.Declares m) (h : StubSearch [] m.overridden.reverse turns answer) :
    answer = true ↔ ∃ e, TransGen s.Overrides m e ∧ e.isEmitted = false := by
  have hstack : ∀ d ∈ m.overridden.reverse, s.Declares d := fun d hd =>
    hm.of_mem_overridden (List.mem_reverse.mp hd)
  constructor
  · intro hfound
    obtain ⟨d, hd, e, hreach, he⟩ := h.exists_stub hstack hfound
    exact ⟨e, .head' ⟨hm, List.mem_reverse.mp hd⟩ hreach, he⟩
  · rintro ⟨e, hreach, he⟩
    obtain ⟨d, ⟨_, hd⟩, hreach⟩ := TransGen.head'_iff.mp hreach
    have hexplored : Explored s [] m.overridden.reverse := fun _ _ hseen => (List.not_mem_nil hseen).elim
    refine Bool.eq_true_of_not_eq_false fun hnone => ?_
    rw [h.isEmitted hexplored hstack hnone (hm.of_mem_overridden hd) (.inr (List.mem_reverse.mpr hd)) hreach]
      at he
    cases he

/-! ## The verdict -/

/-- Links lead to methods of classes only. -/
theorem exists_mem_methods_of_transGen (hs : s.Built) {e : Decl} (h : TransGen s.Overrides m e) :
    ∃ c, s.Declares c ∧ e ∈ c.methods := by
  obtain ⟨d, _, hd, he⟩ := TransGen.tail'_iff.mp h
  obtain ⟨c, hc, hmem⟩ := hs.exists_mem_methods_of_overridden hd he
  obtain ⟨_, above, hlink⟩ := hs.exists_linkedIn hc hmem he
  exact ⟨above, (hlink.isBelow.declares hs.wellFormed).1, hlink.isMember⟩

/-- Whatever cycles the links of a built surface form, the search among what a method overrides ends, after no
more turns than there are links to follow, and every such search ends with the verdict on the method. The
verdict is yes iff one or more links lead from the method to one that is not emitted. -/
theorem overridesStub_exact (hs : s.Built) (hm : s.Declares m) :
    (∃ turns ≤ m.overridden.length + s.unmetLinks [],
        StubSearch [] m.overridden.reverse turns (overridesStub m)) ∧
      (∀ turns answer, StubSearch [] m.overridden.reverse turns answer → overridesStub m = answer) ∧
      (overridesStub m = true ↔
        ∃ c e, s.Declares c ∧ e ∈ c.methods ∧ TransGen s.Overrides m e ∧ e.isEmitted = false) := by
  have hstack : ∀ d ∈ m.overridden.reverse, s.Declares d := fun d hd =>
    hm.of_mem_overridden (List.mem_reverse.mp hd)
  obtain ⟨turns, hturns, answer, hsearch⟩ : ∃ turns ≤ m.overridden.reverse.length + s.unmetLinks [],
      ∃ answer, StubSearch [] m.overridden.reverse turns answer := exists_stubSearch hstack
  rw [List.length_reverse] at hturns
  obtain rfl := hsearch.overridesStub_eq hm
  refine ⟨⟨turns, hturns, hsearch⟩, fun _ _ h => h.overridesStub_eq hm, ?_⟩
  rw [hsearch.answer_iff hm]
  constructor
  · rintro ⟨e, hreach, he⟩
    obtain ⟨c, hc, hmem⟩ := exists_mem_methods_of_transGen hs hreach
    exact ⟨c, e, hc, hmem, hreach, he⟩
  · rintro ⟨_, e, _, _, hreach, he⟩
    exact ⟨e, hreach, he⟩

end Rules

/-- Two classes that claim to extend each other, so that their methods override each other. One of the methods
overrides that of a stub as well. -/
def Recipe.circling : Recipe := Recipe.ofClasses [
  { name := "p.A", superclass := some ⟨"p.B"⟩, methods := [.published "m", .published "n"] },
  { name := "p.B"
    superclass := some ⟨"p.A"⟩
    interfaces := [⟨"p.I"⟩]
    methods := [.published "m", .published "n"] },
  { name := "p.I", kind := .interfaceType, methods := [{ MethodSpec.published "m" with isStub := true }] }]

theorem Rules.overridesStub_exact_circling :
    let s := Recipe.circling.build 1 "s"
    ∃ a m n, s.findClass? "p.A" = some a ∧ a.methods = [m, n] ∧
      TransGen s.Overrides m m ∧ TransGen s.Overrides n n ∧
      (∃ c e, s.Declares c ∧ e ∈ c.methods ∧ TransGen s.Overrides m e ∧ e.isEmitted = false) ∧
      ¬∃ c e, s.Declares c ∧ e ∈ c.methods ∧ TransGen s.Overrides n e ∧ e.isEmitted = false := by
  intro s
  have hs : s.Built := ⟨_, _, _, rfl⟩
  have hfound : (s.findClass? "p.A").any fun a => a.methods.map overridesStub = [true, false] ∧
      a.methods.all fun m => m.overridden.any fun e => e.overridden.any fun m' => m'.id == m.id := by
    decide +kernel
  obtain ⟨a, ha, hfound⟩ := (Option.any_eq_true ..).mp hfound
  obtain ⟨hverdicts, hcycles⟩ := of_decide_eq_true hfound
  obtain ⟨ha', _⟩ := (findClass?_eq_some hs.wellFormed).mp ha
  have hcycle : ∀ m ∈ a.methods, s.Declares m ∧ TransGen s.Overrides m m := by
    intro m hm
    have hdm := (hs.mem_methods ha' hm).1
    obtain ⟨e, he, hback⟩ := List.any_eq_true.mp (List.all_eq_true.mp hcycles m hm)
    obtain ⟨m', hm', hid⟩ := List.any_eq_true.mp hback
    have hde := hdm.of_mem_overridden he
    obtain rfl := (hde.of_mem_overridden hm').eq_of_id hdm (eq_of_beq hid)
    exact ⟨hdm, .tail (.single ⟨hdm, he⟩) ⟨hde, hm'⟩⟩
  obtain ⟨m, n, hmethods⟩ : ∃ m n, a.methods = [m, n] :=
    List.length_eq_two.mp (by simpa using congrArg List.length hverdicts)
  rw [hmethods] at hverdicts hcycle
  obtain ⟨hdm, hmm⟩ := hcycle m List.mem_cons_self
  obtain ⟨hdn, hnn⟩ := hcycle n (List.mem_cons_of_mem _ List.mem_cons_self)
  obtain ⟨hyes, hno⟩ : overridesStub m = true ∧ overridesStub n = false := by simpa using hverdicts
  refine ⟨a, m, n, ha, hmethods, hmm, hnn, (overridesStub_exact hs hdm).2.2.mp hyes, fun hstub => ?_⟩
  rw [(overridesStub_exact hs hdn).2.2.mpr hstub] at hno
  cases hno

end ApiSurface
