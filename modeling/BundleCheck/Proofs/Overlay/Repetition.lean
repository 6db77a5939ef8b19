import BundleCheck.Proofs.Bundle.Readable
import BundleCheck.Proofs.Check.Repetition
import BundleCheck.Proofs.Overlay.Documents
import BundleCheck.Proofs.Yaml.Equality

/-! # Overlays and repeated relations

Overlays never bring a relation that is there already. A list in which no relation comes twice
stays one through any number of overlays, so that the bundle it is decoded to has no repeated
relation to be reported. -/

namespace BundleCheck

open Yaml

namespace Overlay

/-! ## Appending -/

theorem distinct_foldl_addRelation {known : List Relation} (h : Relation.Distinct known)
    (added : List Relation) : Relation.Distinct (added.foldl addRelation known) := by
  induction added generalizing known with
  | nil => exact h
  | cons r rs ih =>
      refine ih ?_
      unfold addRelation
      split
      · exact h
      next hfresh =>
        refine List.pairwise_append.mpr ⟨h, List.pairwise_singleton _ _, fun s hs t ht => ?_⟩
        rw [List.mem_singleton.mp ht]
        simpa using List.any_eq_false.mp (Bool.eq_false_iff.mpr hfresh) s hs

/-- Relations that are there already change nothing. -/
theorem foldl_addRelation_eq_self {known added : List Relation}
    (h : ∀ r ∈ added, ∃ k ∈ known, k.sameAs r = true) : added.foldl addRelation known = known := by
  induction added with
  | nil => rfl
  | cons r rs ih =>
      obtain ⟨hr, hrs⟩ := List.forall_mem_cons.mp h
      rw [List.foldl_cons, addRelation, if_pos (List.any_eq_true.mpr hr), ih hrs]

/-- The appended list begins with the one that was there, holds each new relation in some form, and
stays as it is when the same relations are appended once more. -/
theorem appendRelations_spec {origin : String} {root root' : Mapping} {v : Value}
    (h : appendRelations origin root v = .ok root') :
    listed (root.getName? "relations") <+: listed (root'.getName? "relations") ∧
      (∀ added, readRelations v = Except.ok (ε := Mismatch) added → ∀ r ∈ added,
        ∃ s ∈ listed (root'.getName? "relations"), s.sameAs r = true) ∧
      appendRelations origin root' v = .ok root' := by
  rcases appendRelations_eq_ok_iff.mp h with ⟨rfl, rfl⟩ | ⟨hv, added, known, hadded, hknown, rfl⟩
  · refine ⟨List.prefix_refl _, fun added hadded => ?_, rfl⟩
    rw [readRelations_of_isNull rfl] at hadded
    cases hadded
    exact nofun
  · have hstored : (root.insert (.string "relations") (.sequence
        ((added.foldl addRelation known).map Relation.encode))).getName? "relations" =
        some (.sequence ((added.foldl addRelation known).map Relation.encode)) :=
      root.get?_insert_self (Value.distinctKeys_string _) _
    have hthere : ∀ r ∈ added, ∃ s ∈ added.foldl addRelation known, s.sameAs r = true :=
      fun r hr => exists_sameAs_of_mem known hr
    rw [hstored, listed_encode, listed_of_readRelations_getD hknown]
    refine ⟨prefix_foldl_addRelation known added, fun added' hadded' => ?_, ?_⟩
    · rw [hadded] at hadded'
      cases hadded'
      exact hthere
    · rw [appendRelations_eq_ok_iff]
      refine .inr ⟨hv, added, added.foldl addRelation known, hadded, ?_, ?_⟩
      · rw [hstored]
        exact readRelations_encode _
      · rw [foldl_addRelation_eq_self hthere, Mapping.insert_of_get?_eq_some hstored]

/-! ## Lists in a document -/

/-- No list of relations among the sections holds a relation twice. A key below a tag is read as
the name that it holds. -/
def ListsOnce (root : Mapping) : Prop :=
  ∀ e ∈ root, e.1.text? = some "relations" → Relation.Distinct (listed (some e.2))

instance (root : Mapping) : Decidable (ListsOnce root) :=
  inferInstanceAs (Decidable (∀ e ∈ root, e.1.text? = some "relations" →
    Relation.Distinct (listed (some e.2))))

theorem ListsOnce.of_getName? {root : Mapping} (h : ListsOnce root) :
    Relation.Distinct (listed (root.getName? "relations")) := by
  cases hget : root.getName? "relations" with
  | none => exact .nil
  | some v => exact h _ (Mapping.mem_of_getName?_eq_some hget) rfl

theorem ListsOnce.insert {root : Mapping} (h : ListsOnce root) (hroot : root.DistinctKeys)
    {k v : Value} (hk : k.DistinctKeys)
    (hv : k.text? = some "relations" → Relation.Distinct (listed (some v))) :
    ListsOnce (root.insert k v) := by
  intro e he hname
  rcases (Mapping.mem_insert_iff hroot hk).mp he with ⟨he, -⟩ | rfl
  · exact h e he hname
  · have hkey : (root.storedKey k).text? = k.text? := by
      rcases root.storedKey_cases k with ⟨f, -, hsame, hkey⟩ | ⟨-, hkey⟩
      · rw [hkey, text?_eq_of_same hsame]
      · rw [hkey]
    exact hv (hkey.symm.trans hname)

theorem distinct_listed_withoutRelationsOf (names : List String) {v? : Option Value}
    (h : Relation.Distinct (listed v?)) :
    Relation.Distinct (listed (withoutRelationsOf names v?)) := by
  cases htagged : isTaggedList v? with
  | true => rwa [withoutRelationsOf_of_isTaggedList names htagged]
  | false =>
      rw [listed_withoutRelationsOf names htagged]
      exact List.Pairwise.sublist List.filter_sublist h

theorem ListsOnce.removeRelations {root : Mapping} (h : ListsOnce root)
    (hroot : root.DistinctKeys) (name : String) :
    ListsOnce (Overlay.removeRelations root name) := by
  rcases removeRelations_eq root name with heq | ⟨items, hget, heq⟩
  · rwa [heq]
  · rw [heq]
    refine h.insert hroot (Value.distinctKeys_string _) fun _ => ?_
    have hlist := distinct_listed_withoutRelationsOf [name] h.of_getName?
    rw [hget] at hlist
    simpa [withoutRelationsOf] using hlist

theorem ListsOnce.foldl_removeRelations {root : Mapping} (h : ListsOnce root)
    (hroot : root.DistinctKeys) (names : List String) :
    ListsOnce (names.foldl Overlay.removeRelations root) := by
  induction names generalizing root with
  | nil => exact h
  | cons name names ih =>
      exact ih (h.removeRelations hroot name) (distinctKeys_removeRelations hroot name)

/-! ## Sections and overlays -/

/-- A section lists no relation again. -/
theorem SectionStep.listsOnce {key : String} (hkey : SectionKind.ofName key = .applications)
    {root root' : Mapping} {e : Value × Value} (h : SectionStep key root e root')
    (hroot : root.DistinctKeys) (he : e.1.DistinctKeys ∧ e.2.DistinctKeys)
    (honce : ListsOnce root) : ListsOnce root' := by
  have hname : ∀ {name : String}, SectionKind.ofName name ≠ .relations →
      (Value.string name).text? ≠ some "relations" := by
    rintro name hne h
    cases h
    exact hne rfl
  cases h with
  | null => exact honce
  | @applications k new existing hkind hexisting haccepts =>
      have hnew := Value.distinctKeys_mapping_iff.mp he.2
      have hdistinct := distinctKeys_of_entries? (distinctKeys_sectionOf hroot key) hexisting
      have hstored : ListsOnce (root.insert (.string key)
          ((sectionOf root key).withEntries (new.foldl mergePart existing))) :=
        honce.insert hroot (Value.distinctKeys_string key) fun htext =>
          absurd htext (hname (by simp [hkey]))
      exact hstored.foldl_removeRelations (hroot.insert (Value.distinctKeys_string key)
        (distinctKeys_withEntries (keyLocal_mergePart.foldl_distinctKeys hdistinct hnew))) _
  | machines hkind hexisting =>
      exact honce.insert hroot (Value.distinctKeys_string _) fun htext =>
        absurd htext (hname (by decide))
  | @relations k v added known hkind hvalue hadded hknown =>
      refine honce.insert hroot (Value.distinctKeys_string _) fun _ => ?_
      have hfirst := honce.of_getName?
      rw [listed_of_readRelations_getD hknown] at hfirst
      rw [listed_encode]
      exact distinct_foldl_addRelation hfirst added
  | @other k v hkind =>
      refine honce.insert hroot he.1 fun htext => ?_
      simp [sectionKind?, htext, SectionKind.ofName] at hkind

theorem SectionRun.listsOnce {key : String} (hkey : SectionKind.ofName key = .applications)
    {root root' sections : Mapping} (h : SectionRun key root sections root')
    (hroot : root.DistinctKeys)
    (hsections : ∀ e ∈ sections, e.1.DistinctKeys ∧ e.2.DistinctKeys)
    (honce : ListsOnce root) : ListsOnce root' := by
  refine (h.keeps (P := fun m => m.DistinctKeys ∧ ListsOnce m) ?_ ⟨hroot, honce⟩).2
  rintro e he m m' hstep ⟨hm, honce⟩
  exact ⟨hstep.distinctKeys hm (hsections e he), hstep.listsOnce hkey hm (hsections e he) honce⟩

theorem listsOnce_apply {origin : String} {base overlay d : Value} (hbase : base.DistinctKeys)
    (hoverlay : overlay.DistinctKeys) (h : apply origin base overlay = .ok d)
    (honce : ListsOnce (rootOf base)) : ListsOnce (rootOf d) :=
  (sectionRun_of_apply hbase hoverlay h).listsOnce (ofName_applicationKey (rootOf base))
    (distinctKeys_rootOf hbase) (distinctKeys_rootOf hoverlay).parts honce

/-! ## Decoding -/

theorem eq_relations_of_ofName? {name : String}
    (h : BundleField.ofName? name = some .relations) : name = "relations" := by
  unfold BundleField.ofName? at h
  split at h <;> simp_all

theorem readRelations_of_optional {collection part : Value} {rs : List Relation}
    (h : Source.optional readRelations collection part = Except.ok (ε := Mismatch) (some rs)) :
    readRelations part = Except.ok (ε := Mismatch) rs := by
  obtain ⟨part?, hpresent, h⟩ := bind_eq_ok_iff.mp h
  cases part? with
  | none => cases h
  | some part' =>
      obtain ⟨rs', hread, h⟩ := bind_eq_ok_iff.mp h
      cases h
      cases part <;> cases hpresent <;> exact hread

theorem distinct_relations_readField {document part : Value} {b b' : Bundle} {field : BundleField}
    (hb : Relation.Distinct b.relations)
    (hpart : field = .relations → Relation.Distinct (listed (some part)))
    (h : (Bundle.readField document b field part : Except Mismatch Bundle) = .ok b') :
    Relation.Distinct b'.relations := by
  cases field with
  | relations =>
      obtain ⟨rs?, hrs, h⟩ := bind_eq_ok_iff.mp h
      cases h
      cases rs? with
      | none => exact .nil
      | some rs =>
          rw [listed_of_readRelations (readRelations_of_optional hrs)] at hpart
          exact hpart rfl
  | _ =>
      obtain ⟨x, -, h⟩ := bind_eq_ok_iff.mp h
      cases h
      exact hb

/-- A document that lists no relation twice is decoded to a bundle that does not. -/
theorem distinct_relations_of_decode {d : Value} {b : Bundle} (h : Bundle.decode d = .ok b)
    (honce : ListsOnce (rootOf d)) : Relation.Distinct b.relations := by
  have hempty : Relation.Distinct ({} : Bundle).relations := .nil
  refine (Bundle.decode_preserves_of_mem (P := fun b => Relation.Distinct b.relations) hempty
    (fun _ _ _ _ _ _ _ hb => hb) (fun b b' name field e he hname hfield hb hread => ?_) h).1
  refine distinct_relations_readField hb (fun hrelations => honce e he ?_) hread
  rw [hrelations] at hfield
  rw [Source.text?_of_text hname, eq_relations_of_ofName? hfield]

/-! ## Any number of overlays -/

/-- Overlays that are applied one after the other list no relation again, so that the bundle that
is decoded at the end has no repeated relation; and whenever one of them appends relations, the
list begins with the one that was there, holds all that were to be appended, and stays as it is if
they are appended again. -/
theorem listsOnce_applyAll {base d : Value} {overlays : List (String × Value)}
    (hbase : base.DistinctKeys) (hoverlays : ∀ o ∈ overlays, o.2.DistinctKeys)
    (honce : ListsOnce (rootOf base))
    (h : overlays.foldlM (fun d o => apply o.1 d o.2) base = .ok d) :
    ListsOnce (rootOf d) ∧
      (∀ b, Bundle.decode d = .ok b → Relation.Distinct b.relations ∧
        ∀ config : Config, ∀ f ∈ config.check b, f.rule ≠ .relationDuplicate) ∧
      ∀ origin root root' v, appendRelations origin root v = .ok root' →
        listed (root.getName? "relations") <+: listed (root'.getName? "relations") ∧
        (∀ added, readRelations v = Except.ok (ε := Mismatch) added → ∀ r ∈ added,
          ∃ s ∈ listed (root'.getName? "relations"), s.sameAs r = true) ∧
        appendRelations origin root' v = .ok root' := by
  have hkept : d.DistinctKeys ∧ ListsOnce (rootOf d) := by
    refine foldlM_preserves (P := fun d => d.DistinctKeys ∧ ListsOnce (rootOf d))
      (fun m m' o ho hm happly => ?_) ⟨hbase, honce⟩ h
    exact ⟨distinctKeys_apply hm.1 (hoverlays o ho) happly,
      listsOnce_apply hm.1 (hoverlays o ho) happly hm.2⟩
  refine ⟨hkept.2, fun b hb => ?_, fun _ _ _ _ => appendRelations_spec⟩
  have hrelations := distinct_relations_of_decode hb hkept.2
  exact ⟨hrelations, Bundle.rule_check_ne_relationDuplicate hrelations⟩

def relatedDocument : Value :=
  .mapping
    [(.string "applications", .mapping
      [(.string "a", .mapping [(.string "charm", .string "x")]),
        (.string "b", .mapping [(.string "charm", .string "y")]),
        (.string "c", .mapping [(.string "charm", .string "z")])]),
      (.string "relations", .sequence
        [.sequence [.string "a:one", .string "b:one"],
          .sequence [.string "a:one", .string "c:one"]])]

/-- Gives a relation that is there the other way round, and a new one twice; then removes an
application. -/
def relatingOverlays : List (String × Value) :=
  [("first", .mapping [(.string "relations", .sequence
      [.sequence [.string " c:one", .string "a:one"],
        .sequence [.string "b:two", .string "c:two"],
        .sequence [.string "c:two", .string "b:two "]])]),
    ("second", .mapping [(.string "applications", .mapping [(.string "b", .null)])])]

theorem listsOnce_relatingOverlays :
    ∃ d, relatingOverlays.foldlM (fun d o => apply o.1 d o.2) relatedDocument = .ok d ∧
      ListsOnce (rootOf d) ∧
      (∀ b, Bundle.decode d = .ok b → Relation.Distinct b.relations ∧
        ∀ config : Config, ∀ f ∈ config.check b, f.rule ≠ .relationDuplicate) ∧
      ∀ origin root root' v, appendRelations origin root v = .ok root' →
        listed (root.getName? "relations") <+: listed (root'.getName? "relations") ∧
        (∀ added, readRelations v = Except.ok (ε := Mismatch) added → ∀ r ∈ added,
          ∃ s ∈ listed (root'.getName? "relations"), s.sameAs r = true) ∧
        appendRelations origin root' v = .ok root' := by
  have happly : relatingOverlays.foldlM (fun d o => apply o.1 d o.2) relatedDocument =
      .ok (.mapping
        [(.string "applications", .mapping
          [(.string "a", .mapping [(.string "charm", .string "x")]),
            (.string "c", .mapping [(.string "charm", .string "z")])]),
          (.string "relations", .sequence [.sequence [.string "a:one", .string "c:one"]])]) := by
    decide +kernel
  have hbase : relatedDocument.DistinctKeys := by decide +kernel
  have hoverlays : ∀ o ∈ relatingOverlays, o.2.DistinctKeys := by decide +kernel
  have honce : ListsOnce (rootOf relatedDocument) := by decide +kernel
  exact ⟨_, happly, listsOnce_applyAll hbase hoverlays honce happly⟩

end Overlay

end BundleCheck
