import BundleCheck.Proofs.Check.Errors
import BundleCheck.Proofs.Check.Rules
import BundleCheck.Proofs.Check.Settings
import BundleCheck.Proofs.Relation

/-! # Findings about relations

The check goes through the relations of a bundle and keeps one of each that it has read. What it
reports at a position is given by rules that mention only the relation there and those listed
before it, and not what is kept. -/

namespace BundleCheck

namespace Relation

def isRead (r : Relation) : Bool :=
  r.endpoints.isOk

/-! ## Classes of relations -/

/-- Relations are told apart up to their orientation and the blanks around their sides. -/
def sameness : Setoid Relation :=
  ⟨fun r s => r.sameAs s = true, sameAs_refl, sameAs_symm, sameAs_trans⟩

instance : DecidableEq (Quotient sameness) :=
  @Quotient.decidableEq _ sameness fun r s => inferInstanceAs (Decidable (r.sameAs s = true))

def classes (rs : List Relation) : Finset (Quotient sameness) :=
  (rs.map (Quotient.mk sameness)).toFinset

theorem mem_classes_iff {rs : List Relation} {r : Relation} :
    Quotient.mk sameness r ∈ classes rs ↔ ∃ s ∈ rs, s.sameAs r = true := by
  rw [classes, List.mem_toFinset, List.mem_map]
  exact exists_congr fun s => and_congr_right fun _ => Quotient.eq

theorem classes_nil : classes [] = ∅ :=
  rfl

theorem classes_append (front back : List Relation) :
    classes (front ++ back) = classes front ∪ classes back := by
  simp [classes]

theorem classes_cons (r : Relation) (rs : List Relation) :
    classes (r :: rs) = insert (Quotient.mk sameness r) (classes rs) := by
  simp [classes]

end Relation

namespace Bundle

/-! ## What is wrong with a relation -/

/-- An issue with a relation that is listed behind others. -/
inductive IsRelationIssue (b : Bundle) (earlier : List Relation) (r : Relation) : Issue → Prop
  | unreadable {cause : EndpointError} (h : r.endpoints = .error cause) :
      IsRelationIssue b earlier r (.endpointInvalid cause)
  | undeclared {left right : Endpoint} {name : String} (h : r.endpoints = .ok (left, right))
      (hname : name = left.application ∨ name = right.application)
      (hrelates : ¬ b.Relates name) : IsRelationIssue b earlier r (.applicationUndeclared name)
  | self {left right : Endpoint} (h : r.endpoints = .ok (left, right))
      (hself : left.application = right.application) : IsRelationIssue b earlier r .selfRelation
  | repeated {left right : Endpoint} {s : Relation} (h : r.endpoints = .ok (left, right))
      (hs : s ∈ earlier) (hread : s.isRead = true) (hsame : s.sameAs r = true) :
      IsRelationIssue b earlier r .duplicateRelation

/-- A relation that cannot be read has this one issue. -/
theorem isRelationIssue_iff_of_error {b : Bundle} {earlier : List Relation} {r : Relation}
    {cause : EndpointError} (hcause : r.endpoints = .error cause) {issue : Issue} :
    b.IsRelationIssue earlier r issue ↔ issue = .endpointInvalid cause := by
  constructor
  · intro h
    cases h with
    | unreadable h =>
        rw [hcause] at h
        cases h
        rfl
    | undeclared h | self h | repeated h =>
        rw [hcause] at h
        cases h
  · rintro rfl
    exact .unreadable hcause

/-- The issues with a relation, given whether one that was kept is the same. -/
def issuesWith (b : Bundle) (r : Relation) (isRepeated : Bool) : List Issue :=
  match r.endpoints with
  | .error cause => [.endpointInvalid cause]
  | .ok (left, right) => relationIssues b left right isRepeated

theorem nodup_sides (left right : String) : (sides left right).Nodup := by
  unfold sides
  split
  · simp
  next h =>
    split
    · simpa using h
    · simpa using Ne.symm h

theorem nodup_issuesWith (b : Bundle) (r : Relation) (isRepeated : Bool) :
    (b.issuesWith r isRepeated).Nodup := by
  unfold issuesWith
  split
  · exact List.nodup_singleton _
  next left right _ =>
    have hsides := (nodup_sides left.application right.application).filter
      fun name => !b.isRelatable name
    have hnames := hsides.map fun (name name' : String) h => Issue.applicationUndeclared.inj h
    rw [relationIssues, List.nodup_append', List.nodup_append']
    refine ⟨⟨hnames, ?_, ?_⟩, ?_, ?_⟩
    · split <;> simp
    · split <;> simp
    · split <;> simp
    · split <;> split <;> simp

theorem mem_issuesWith_iff {b : Bundle} {earlier : List Relation} {r : Relation}
    {isRepeated : Bool}
    (hrepeated : isRepeated = true ↔ ∃ s ∈ earlier, s.isRead = true ∧ s.sameAs r = true)
    {issue : Issue} : issue ∈ b.issuesWith r isRepeated ↔ b.IsRelationIssue earlier r issue := by
  unfold issuesWith
  split
  next cause hcause =>
    rw [List.mem_singleton, isRelationIssue_iff_of_error hcause]
  next left right hends =>
    simp only [relationIssues, List.mem_append, List.mem_map, List.mem_filter, mem_sides,
      Bool.not_eq_true', ← Bool.not_eq_true, isRelatable_iff]
    constructor
    · rintro ((⟨name, ⟨hname, hrelates⟩, rfl⟩ | h) | h)
      · exact .undeclared hends hname hrelates
      · split at h
        next hself =>
          obtain rfl := List.mem_singleton.mp h
          exact .self hends hself
        · cases h
      · split at h
        next hrep =>
          obtain rfl := List.mem_singleton.mp h
          obtain ⟨s, hs, hread, hsame⟩ := hrepeated.mp hrep
          exact .repeated hends hs hread hsame
        · cases h
    · intro h
      cases h with
      | unreadable h =>
          rw [hends] at h
          cases h
      | undeclared h hname hrelates =>
          rw [hends] at h
          cases h
          exact .inl (.inl ⟨_, ⟨hname, hrelates⟩, rfl⟩)
      | self h hself =>
          rw [hends] at h
          cases h
          simp [hself]
      | repeated h hs hread hsame =>
          simp [hrepeated.mpr ⟨_, hs, hread, hsame⟩]

/-! ## What is kept -/

/-- What is kept when a relation was checked: the relation, if it was read and none that is the same
is kept. -/
def keepRelation (seen : List Relation) (r : Relation) : List Relation :=
  if r.isRead && !seen.any fun known => known.sameAs r then seen ++ [r] else seen

theorem keepRelation_of_unread {seen : List Relation} {r : Relation} (h : r.isRead = false) :
    keepRelation seen r = seen := by
  simp [keepRelation, h]

theorem keepRelation_of_known {seen : List Relation} {r : Relation}
    (h : (seen.any fun known => known.sameAs r) = true) : keepRelation seen r = seen := by
  simp [keepRelation, h]

theorem keepRelation_of_fresh {seen : List Relation} {r : Relation} (hread : r.isRead = true)
    (h : (seen.any fun known => known.sameAs r) = false) : keepRelation seen r = seen ++ [r] := by
  simp [keepRelation, hread, h]

theorem relationIssuesFrom_cons (b : Bundle) (seen : List Relation) (r : Relation)
    (rest : List Relation) :
    relationIssuesFrom b seen (r :: rest) =
      (b.issuesWith r (seen.any fun known => known.sameAs r)).map
        (fun issue => (.relation r, issue)) ++ relationIssuesFrom b (keepRelation seen r) rest := by
  rw [relationIssuesFrom, issuesWith, keepRelation, Relation.isRead]
  cases r.endpoints with
  | error cause => rfl
  | ok sides =>
      cases (seen.any fun known => known.sameAs r) <;> rfl

/-- Of the relations that were read earlier, one that is the same is kept, and no other ones are. -/
def Represents (seen earlier : List Relation) : Prop :=
  ∀ r, (seen.any fun known => known.sameAs r) = true ↔
    ∃ s ∈ earlier, s.isRead = true ∧ s.sameAs r = true

theorem Represents.keep {seen earlier : List Relation} (h : Represents seen earlier)
    (r : Relation) : Represents (keepRelation seen r) (earlier ++ [r]) := by
  intro t
  have hsplit : (∃ s ∈ earlier ++ [r], s.isRead = true ∧ s.sameAs t = true) ↔
      (seen.any fun known => known.sameAs t) = true ∨ r.isRead = true ∧ r.sameAs t = true := by
    rw [h t]
    simp [or_and_right, exists_or]
  rw [hsplit, keepRelation]
  split
  next hkept =>
    have hread : r.isRead = true := (Bool.and_eq_true_iff.mp hkept).1
    simp [hread]
  next hkept =>
    -- The relation was not read, or one that is the same is kept already.
    refine (or_iff_left_of_imp ?_).symm
    rintro ⟨hread, hsame⟩
    have hknown : (seen.any fun known => known.sameAs r) = true := by simpa [hread] using hkept
    obtain ⟨known, hknown, hr⟩ := List.any_eq_true.mp hknown
    exact List.any_eq_true.mpr ⟨known, hknown, Relation.sameAs_trans hr hsame⟩

/-! ## All relations -/

/-- The issues with relations in order, a part for each. -/
theorem exists_parts_relationIssuesFrom {b : Bundle} {seen earlier : List Relation}
    (h : Represents seen earlier) (rs : List Relation) :
    ∃ parts : List (List SubjectIssue), relationIssuesFrom b seen rs = parts.flatten ∧
      parts.length = rs.length ∧
      ∀ i r, rs[i]? = some r → ∃ part, parts[i]? = some part ∧ part.Nodup ∧
        ∀ e, e ∈ part ↔
          e.1 = .relation r ∧ b.IsRelationIssue (earlier ++ rs.take i) r e.2 := by
  induction rs generalizing seen earlier with
  | nil => exact ⟨[], rfl, rfl, by simp⟩
  | cons r rest ih =>
      obtain ⟨parts, hparts, hlength, hat⟩ := ih (h.keep r)
      rw [relationIssuesFrom_cons, hparts]
      refine ⟨_ :: parts, rfl, by simp [hlength], fun i t ht => ?_⟩
      cases i with
      | zero =>
          obtain rfl : r = t := by simpa using ht
          refine ⟨_, rfl, (nodup_issuesWith _ _ _).map fun _ _ h => (Prod.mk.inj h).2, fun e => ?_⟩
          rw [List.take_zero, List.append_nil, ← mem_issuesWith_iff (h r), List.mem_map]
          constructor
          · rintro ⟨issue, hissue, rfl⟩
            exact ⟨rfl, hissue⟩
          · rintro ⟨hsubject, hissue⟩
            exact ⟨e.2, hissue, Prod.ext hsubject.symm rfl⟩
      | succ i =>
          obtain ⟨part, hpart, hnodup, hmem⟩ := hat i t (by simpa using ht)
          refine ⟨part, by simpa using hpart, hnodup, fun e => ?_⟩
          rw [hmem, List.take_succ_cons, List.append_assoc, List.singleton_append]

theorem countP_issuesWith (b : Bundle) (r : Relation) (isRepeated : Bool) :
    (b.issuesWith r isRepeated).countP (fun issue => issue.rule = .relationDuplicate) =
      if r.isRead && isRepeated then 1 else 0 := by
  rw [issuesWith, Relation.isRead]
  cases r.endpoints with
  | error cause => rfl
  | ok sides =>
      have hnone : (((Bundle.sides sides.1.application sides.2.application).filter fun name =>
          !b.isRelatable name).map Issue.applicationUndeclared).countP
            (fun issue => issue.rule = .relationDuplicate) = 0 := by
        simp [List.countP_eq_zero, Issue.rule]
      have hself : (if sides.1.application = sides.2.application then [Issue.selfRelation]
          else []).countP (fun issue => issue.rule = .relationDuplicate) = 0 := by
        split <;> rfl
      simp only [relationIssues, List.countP_append, hnone, hself]
      cases isRepeated <;> rfl

/-- A relation that is read belongs to a class of what is kept afterwards. -/
theorem classes_keepRelation (seen : List Relation) {r : Relation} (hread : r.isRead = true) :
    Relation.classes (keepRelation seen r) =
      insert (Quotient.mk _ r) (Relation.classes seen) := by
  by_cases hknown : (seen.any fun known => known.sameAs r) = true
  · rw [keepRelation_of_known hknown, Finset.insert_eq_of_mem]
    exact Relation.mem_classes_iff.mpr (List.any_eq_true.mp hknown)
  · rw [keepRelation_of_fresh hread (Bool.eq_false_iff.mpr hknown), Relation.classes_append,
      Relation.classes_cons, Relation.classes_nil, Finset.union_insert, Finset.union_empty]

/-- It begins a class unless one that is the same is kept. -/
theorem card_classes_keepRelation (seen : List Relation) {r : Relation} (hread : r.isRead = true) :
    (Relation.classes (keepRelation seen r)).card = (Relation.classes seen).card +
      if seen.any fun known => known.sameAs r then 0 else 1 := by
  have hknown : Quotient.mk _ r ∈ Relation.classes seen ↔
      (seen.any fun known => known.sameAs r) = true := by
    rw [Relation.mem_classes_iff, List.any_eq_true]
  rw [classes_keepRelation seen hread, Finset.card_insert_eq_ite]
  simp only [hknown]
  split <;> rfl

/-- Every relation that is read either begins a class or is reported as repeated. -/
theorem countP_relationIssuesFrom (b : Bundle) (seen rs : List Relation) :
    (relationIssuesFrom b seen rs).countP (fun e => e.2.rule = .relationDuplicate) +
        (Relation.classes (seen ++ rs.filter Relation.isRead)).card =
      (Relation.classes seen).card + (rs.filter Relation.isRead).length := by
  induction rs generalizing seen with
  | nil => simp [relationIssuesFrom]
  | cons r rest ih =>
      have hstep := ih (keepRelation seen r)
      rw [relationIssuesFrom_cons, List.countP_append, List.countP_map]
      simp only [Function.comp_def, countP_issuesWith]
      by_cases hread : r.isRead = true
      · have hclasses : Relation.classes (seen ++ r :: rest.filter Relation.isRead) =
            Relation.classes (keepRelation seen r ++ rest.filter Relation.isRead) := by
          rw [Relation.classes_append, Relation.classes_cons, Relation.classes_append,
            classes_keepRelation seen hread, Finset.union_insert, Finset.insert_union]
        rw [card_classes_keepRelation seen hread] at hstep
        rw [List.filter_cons_of_pos hread, List.length_cons, hclasses, hread, Bool.true_and]
        by_cases hknown : (seen.any fun known => known.sameAs r) = true
        · rw [if_pos hknown] at hstep ⊢
          omega
        · rw [if_neg hknown] at hstep ⊢
          omega
      · rw [Bool.not_eq_true] at hread
        rw [keepRelation_of_unread hread] at hstep ⊢
        rw [List.filter_cons_of_neg (by simp [hread]), hread, Bool.false_and,
          if_neg Bool.false_ne_true]
        omega

/-! ## What is recorded -/

end Bundle

def Rule.aboutRelations : List Rule :=
  [.relationInvalidEndpoint, .relationUnknownApplication, .relationSelf, .relationDuplicate]

def Relation.finding (r : Relation) (issue : Issue) : Finding :=
  ⟨.relation r, issue, issue.rule.severity⟩

namespace Bundle

theorem filter_issues_aboutRelations (b : Bundle) :
    (b.issues.filter fun e => e.2.rule ∈ Rule.aboutRelations) = b.allRelationIssues := by
  have hrelations : (b.allRelationIssues.filter fun e => e.2.rule ∈ Rule.aboutRelations) =
      b.allRelationIssues :=
    List.filter_eq_self.mpr fun e he =>
      decide_eq_true (breakOnly_relationIssuesFrom b [] b.relations e he)
  simp only [issues, List.filter_append]
  rw [hrelations, (breakOnly_sectionIssues b).filter_mem_eq_nil (by decide),
    (breakOnly_allMachineIssues b).filter_mem_eq_nil (by decide),
    (breakOnly_allApplicationIssues b).filter_mem_eq_nil (by decide),
    (breakOnly_allPlacementIssues b).filter_mem_eq_nil (by decide)]
  simp

theorem filter_check_aboutRelations (b : Bundle) :
    ((Config.check {} b).filter fun f => f.rule ∈ Rule.aboutRelations) =
      b.allRelationIssues.map fun e => ⟨e.1, e.2, e.2.rule.severity⟩ := by
  rw [Config.check_default, List.filter_map, ← filter_issues_aboutRelations]
  rfl

theorem length_ofRule_relationDuplicate (b : Bundle) :
    ((Config.check {} b).ofRule .relationDuplicate).length =
      b.allRelationIssues.countP fun e => e.2.rule = .relationDuplicate := by
  have hamong : (Config.check {} b).ofRule .relationDuplicate =
      (((Config.check {} b).filter fun f => f.rule ∈ Rule.aboutRelations).filter
        fun f => f.rule = .relationDuplicate) := by
    rw [Report.ofRule, List.filter_filter]
    refine List.filter_congr fun f _ => ?_
    by_cases h : f.rule = .relationDuplicate
    · simp [h, Rule.aboutRelations]
    · simp [h]
  rw [hamong, filter_check_aboutRelations, List.filter_map, List.length_map,
    List.countP_eq_length_filter]
  rfl

/-- Each finding about relations belongs to the relation at some position. -/
theorem exists_parts_check (b : Bundle) :
    ∃ parts : List (List Finding),
      ((Config.check {} b).filter fun f => f.rule ∈ Rule.aboutRelations) = parts.flatten ∧
      parts.length = b.relations.length ∧
      ∀ i r, b.relations[i]? = some r → ∃ part, parts[i]? = some part ∧ part.Nodup ∧
        ∀ f, f ∈ part ↔
          ∃ issue, b.IsRelationIssue (b.relations.take i) r issue ∧ f = r.finding issue := by
  have hstart : Represents [] [] := by simp [Represents]
  obtain ⟨parts, hparts, hlength, hat⟩ := exists_parts_relationIssuesFrom hstart b.relations
  have hinj : Function.Injective fun e : SubjectIssue =>
      (⟨e.1, e.2, e.2.rule.severity⟩ : Finding) := by
    rintro ⟨s, issue⟩ ⟨s', issue'⟩ h
    injection h with hs hissue
    exact Prod.ext hs hissue
  refine ⟨parts.map (List.map fun e => ⟨e.1, e.2, e.2.rule.severity⟩), ?_, by simpa using hlength,
    fun i r hr => ?_⟩
  · rw [filter_check_aboutRelations, allRelationIssues, hparts, List.map_flatten]
  · obtain ⟨part, hpart, hnodup, hmem⟩ := hat i r hr
    refine ⟨_, by rw [List.getElem?_map, hpart]; rfl, hnodup.map hinj, fun f => ?_⟩
    rw [List.mem_map]
    constructor
    · rintro ⟨⟨_, issue⟩, he, rfl⟩
      obtain ⟨rfl, hissue⟩ := (hmem _).mp he
      exact ⟨issue, hissue, rfl⟩
    · rintro ⟨issue, hissue, rfl⟩
      exact ⟨(.relation r, issue), (hmem _).mpr ⟨rfl, hissue⟩, rfl⟩

/-- The findings about relations come in the order of the relations, a part for each, and what is in
the part of a relation is given by the relation and those before it. A relation with an endpoint
that cannot be read has that one finding. Any other one has a finding for each of its applications
that is neither declared nor offered, one if its applications are the same, and one if an earlier
relation that can be read is the same; no finding comes twice. So as many relations are reported as
repeated as can be read beyond one of each class. -/
theorem relationFindings_positions (b : Bundle) :
    (∃ parts : List (List Finding),
      ((Config.check {} b).filter fun f => f.rule ∈ Rule.aboutRelations) = parts.flatten ∧
      parts.length = b.relations.length ∧
      ∀ i r, b.relations[i]? = some r → ∃ part, parts[i]? = some part ∧ part.Nodup ∧
        (∀ f, f ∈ part ↔
          ∃ issue, b.IsRelationIssue (b.relations.take i) r issue ∧ f = r.finding issue) ∧
        ∀ cause, r.endpoints = .error cause → part = [r.finding (.endpointInvalid cause)]) ∧
      ((Config.check {} b).ofRule .relationDuplicate).length +
          (Relation.classes (b.relations.filter Relation.isRead)).card =
        (b.relations.filter Relation.isRead).length := by
  constructor
  · obtain ⟨parts, hparts, hlength, hat⟩ := b.exists_parts_check
    refine ⟨parts, hparts, hlength, fun i r hr => ?_⟩
    obtain ⟨part, hpart, hnodup, hmem⟩ := hat i r hr
    refine ⟨part, hpart, hnodup, hmem, fun cause hcause => ?_⟩
    rw [← List.perm_singleton, List.perm_ext_iff_of_nodup hnodup (List.nodup_singleton _)]
    intro f
    simp [hmem, isRelationIssue_iff_of_error hcause]
  · rw [length_ofRule_relationDuplicate, allRelationIssues]
    simpa [Relation.classes_nil] using countP_relationIssuesFrom b [] b.relations

end Bundle

end BundleCheck
