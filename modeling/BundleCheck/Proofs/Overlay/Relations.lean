import BundleCheck.Overlay
import BundleCheck.Proofs.Relation
import BundleCheck.Proofs.Yaml.Mapping

/-! # Relations of a document

An overlay changes the relations of a document in two ways: it removes those of an application,
and it appends relations that are not there yet, in either orientation. -/

namespace BundleCheck

open Yaml

namespace Overlay

/-! ## Appending -/

theorem prefix_foldl_addRelation (known added : List Relation) :
    known <+: added.foldl addRelation known := by
  induction added generalizing known with
  | nil => exact List.prefix_refl known
  | cons r rs ih =>
      refine List.IsPrefix.trans ?_ (ih (addRelation known r))
      unfold addRelation
      split
      · exact List.prefix_refl known
      · exact List.prefix_append known [r]

theorem mem_foldl_addRelation {known added : List Relation} {r : Relation}
    (h : r ∈ added.foldl addRelation known) : r ∈ known ∨ r ∈ added := by
  induction added generalizing known with
  | nil => exact .inl h
  | cons s rs ih =>
      rcases ih h with h | h
      · unfold addRelation at h
        split at h
        · exact .inl h
        · rcases List.mem_append.mp h with h | h
          · exact .inl h
          · exact .inr (by simp [List.mem_singleton.mp h])
      · exact .inr (by simp [h])

/-- A relation that is appended is there afterwards, possibly in another form. -/
theorem exists_sameAs_of_mem (known : List Relation) {added : List Relation} {r : Relation}
    (h : r ∈ added) : ∃ s ∈ added.foldl addRelation known, s.sameAs r = true := by
  induction added generalizing known with
  | nil => cases h
  | cons t rs ih =>
      rcases List.mem_cons.mp h with rfl | h
      · have hthere : ∃ s ∈ addRelation known r, s.sameAs r = true := by
          unfold addRelation
          split
          next hknown => exact List.any_eq_true.mp hknown
          · exact ⟨r, by simp, r.sameAs_refl⟩
        obtain ⟨s, hs, hsame⟩ := hthere
        exact ⟨s, (prefix_foldl_addRelation _ rs).subset hs, hsame⟩
      · exact ih _ h

/-! ## Appending again -/

/-- A relation is in a list, possibly in another form. -/
def hasRelation (known : List Relation) (r : Relation) : Bool :=
  known.any fun k => k.sameAs r

theorem hasRelation_congr {known : List Relation} {r s : Relation} (h : r.sameAs s = true) :
    hasRelation known r = hasRelation known s := by
  unfold hasRelation
  rw [Bool.eq_iff_iff, List.any_eq_true, List.any_eq_true]
  refine exists_congr fun k => and_congr_right fun _ => ?_
  exact ⟨fun hk => Relation.sameAs_trans hk h,
    fun hk => Relation.sameAs_trans hk (Relation.sameAs_symm h)⟩

theorem hasRelation_append (known known' : List Relation) (r : Relation) :
    hasRelation (known ++ known') r = (hasRelation known r || hasRelation known' r) :=
  List.any_append

/-- A part of a list that holds the relations with a property has those of the list that have it. -/
theorem hasRelation_filter {p : Relation → Bool}
    (hp : ∀ {r s : Relation}, r.sameAs s = true → p r = p s) (known : List Relation)
    (r : Relation) : hasRelation (known.filter p) r = (p r && hasRelation known r) := by
  unfold hasRelation
  rw [Bool.eq_iff_iff]
  simp only [List.any_eq_true, List.mem_filter, Bool.and_eq_true]
  constructor
  · rintro ⟨k, ⟨hk, hpk⟩, hkr⟩
    exact ⟨(hp hkr).symm.trans hpk, k, hk, hkr⟩
  · rintro ⟨hpr, k, hk, hkr⟩
    exact ⟨k, ⟨hk, (hp hkr).trans hpr⟩, hkr⟩

/-- Appending relations to a list adds those that are not in it, each once. -/
theorem foldl_addRelation_eq (known added : List Relation) :
    added.foldl addRelation known = known ++
      (added.foldl addRelation []).filter fun r => !hasRelation known r := by
  induction added using List.reverseRecOn with
  | nil => simp
  | append_singleton rs r ih =>
      rw [List.foldl_append, List.foldl_append, List.foldl_cons, List.foldl_nil, List.foldl_cons,
        List.foldl_nil, ih]
      generalize rs.foldl addRelation [] = fresh
      have hcongr : ∀ {r s : Relation}, r.sameAs s = true →
          (!hasRelation known r) = !hasRelation known s :=
        fun h => by rw [hasRelation_congr h]
      change (if hasRelation (known ++ _) r then _ else _) = known ++
        List.filter _ (if hasRelation fresh r then _ else _)
      rw [hasRelation_append, hasRelation_filter hcongr]
      by_cases hknown : hasRelation known r = true
      · by_cases hfresh : hasRelation fresh r = true <;> simp [hknown, hfresh]
      · by_cases hfresh : hasRelation fresh r = true <;> simp [hknown, hfresh]

/-- Relations that were appended, and of which some were removed before the others were appended
again and some after, come back, possibly in another order. -/
theorem foldl_addRelation_again {p q : Relation → Bool}
    (hp : ∀ {r s : Relation}, r.sameAs s = true → p r = p s)
    (hq : ∀ {r s : Relation}, r.sameAs s = true → q r = q s) {known : List Relation}
    (hknown : ∀ r ∈ known, p r = true) (added : List Relation) :
    ((added.foldl addRelation (((added.foldl addRelation known).filter q).filter p)).filter q).Perm
      ((added.foldl addRelation known).filter q) := by
  rw [foldl_addRelation_eq _ added, foldl_addRelation_eq known added]
  generalize added.foldl addRelation [] = fresh
  -- The new relations that have the second property, and so are there before the second time.
  obtain ⟨new, hnew⟩ : ∃ new, new = fresh.filter fun r => q r && !hasRelation known r := ⟨_, rfl⟩
  have hfirst : (known ++ fresh.filter fun r => !hasRelation known r).filter q =
      known.filter q ++ new := by
    rw [List.filter_append, List.filter_filter, hnew]
  have hkept : (known.filter q ++ new).filter p = known.filter q ++ new.filter p := by
    rw [List.filter_append,
      List.filter_eq_self.mpr fun r hr => hknown r (List.mem_of_mem_filter hr)]
  have hq' : (known.filter q ++ new.filter p).filter q = known.filter q ++ new.filter p := by
    refine List.filter_eq_self.mpr fun r hr => ?_
    rcases List.mem_append.mp hr with hr | hr
    · exact List.of_mem_filter hr
    · have hr' := List.mem_of_mem_filter hr
      rw [hnew, List.mem_filter, Bool.and_eq_true] at hr'
      exact hr'.2.1
  have hcongr : ∀ {r s : Relation}, r.sameAs s = true →
      (p r && (q r && !hasRelation known r)) = (p s && (q s && !hasRelation known s)) :=
    fun h => by rw [hp h, hq h, hasRelation_congr h]
  have hback : (fresh.filter fun r => !hasRelation (known.filter q ++ new.filter p) r).filter q =
      new.filter fun r => !p r := by
    rw [hnew, List.filter_filter, List.filter_filter, List.filter_filter]
    refine List.filter_congr fun r hr => ?_
    have hfresh : hasRelation fresh r = true := List.any_eq_true.mpr ⟨r, hr, r.sameAs_refl⟩
    rw [hasRelation_append, hasRelation_filter hq, hasRelation_filter hcongr, hfresh]
    cases p r <;> cases q r <;> cases hasRelation known r <;> rfl
  rw [hfirst, hkept, List.filter_append, hq', hback, List.append_assoc]
  exact (List.filter_append_perm p new).append_left _

/-! ## Reading the list -/

def relation? (item : Value) : Option Relation :=
  (Relation.read item : Except Mismatch Relation).toOption

theorem isRelationOf_eq (name : String) (item : Value) :
    isRelationOf name item = (relation? item).any fun r => r.involves name := by
  unfold isRelationOf relation?
  cases (Relation.read item : Except Mismatch Relation) with
  | error cause => rfl
  | ok r => rfl

/-- The items of a list of relations, below its tags. -/
def relationItems (v? : Option Value) : List Value :=
  match v?.map Value.untagged with
  | some (.sequence items) => items
  | _ => []

/-- The relations that are listed; items of another form are not looked at. -/
def listed (v? : Option Value) : List Relation :=
  (relationItems v?).filterMap relation?

theorem filterMap_of_mapM {items : List Value} {rs : List Relation}
    (h : items.mapM (Relation.read : Value → Except Mismatch Relation) = .ok rs) :
    items.filterMap relation? = rs := by
  induction items generalizing rs with
  | nil =>
      cases h
      rfl
  | cons item items ih =>
      rw [List.mapM_cons, bind_eq_ok_iff] at h
      obtain ⟨r, hr, h⟩ := h
      rw [bind_eq_ok_iff] at h
      obtain ⟨rest, hrest, h⟩ := h
      cases h
      have hitem : relation? item = some r := by
        rw [relation?, hr]
        rfl
      rw [List.filterMap_cons, hitem, ih hrest]

/-- What is read from a list are the relations that it lists. -/
theorem listed_of_readRelations {v : Value} {rs : List Relation}
    (h : (readRelations v : Except Mismatch (List Relation)) = .ok rs) : listed (some v) = rs := by
  rw [readRelations, bind_eq_ok_iff] at h
  obtain ⟨items, hitems, h⟩ := h
  have hlist : relationItems (some v) = items := by
    rw [relationItems, Option.map_some]
    rcases items_eq_ok_iff.mp hitems with hv | ⟨hv, rfl⟩
    · rw [hv]
    · rw [hv]
  rw [listed, hlist, filterMap_of_mapM h]

/-- An absent list is read as one that is null. -/
theorem listed_of_readRelations_getD {v? : Option Value} {rs : List Relation}
    (h : readRelations (v?.getD .null) = Except.ok (ε := Mismatch) rs) : listed v? = rs := by
  cases v? with
  | none => exact listed_of_readRelations h
  | some v => exact listed_of_readRelations h

theorem listed_encode (rs : List Relation) :
    listed (some (.sequence (rs.map Relation.encode))) = rs := by
  have hread : ∀ r : Relation, relation? r.encode = some r := fun _ => rfl
  simp [listed, relationItems, Value.untagged, List.filterMap_map, hread]

/-! ## Removing -/

/-- A list of relations without those of some applications; a list below a tag stays as it is. -/
def withoutRelationsOf (names : List String) (v? : Option Value) : Option Value :=
  match v? with
  | some (.sequence items) =>
      some (.sequence (items.filter fun item => names.all fun name => !isRelationOf name item))
  | _ => v?

theorem withoutRelationsOf_nil (v? : Option Value) : withoutRelationsOf [] v? = v? := by
  unfold withoutRelationsOf
  split <;> simp

theorem removeRelations_eq (root : Mapping) (name : String) :
    removeRelations root name = root ∨
      ∃ items, root.getName? "relations" = some (.sequence items) ∧
        removeRelations root name = root.insert (.string "relations")
          (.sequence (items.filter fun item => !isRelationOf name item)) := by
  unfold removeRelations
  split
  next items hget => exact .inr ⟨items, hget, rfl⟩
  · exact .inl rfl

theorem distinctKeys_removeRelations {root : Mapping} (hroot : root.DistinctKeys) (name : String) :
    (removeRelations root name).DistinctKeys := by
  rcases removeRelations_eq root name with h | ⟨items, hget, h⟩
  · rw [h]
    exact hroot
  · have hitems := Value.distinctKeys_sequence_iff.mp (hroot.of_get? hget)
    rw [h]
    refine hroot.insert (Value.distinctKeys_string _) (Value.distinctKeys_sequence_iff.mpr ?_)
    exact fun v hv => hitems v (List.mem_of_mem_filter hv)

theorem get?_removeRelations {root : Mapping} {name : String} {k : Value} (hk : k.DistinctKeys)
    (hne : k.same (.string "relations") = false) :
    (removeRelations root name).get? k = root.get? k := by
  rcases removeRelations_eq root name with h | ⟨items, -, h⟩
  · rw [h]
  · rw [h, Mapping.get?_insert_of_same_eq_false root hk (Value.distinctKeys_string _) hne]

theorem getName?_removeRelations (root : Mapping) (name : String) :
    (removeRelations root name).getName? "relations" =
      withoutRelationsOf [name] (root.getName? "relations") := by
  cases hget : root.getName? "relations" with
  | none => simp only [removeRelations, hget, withoutRelationsOf]
  | some v =>
      cases v with
      | sequence items =>
          simp only [removeRelations, hget, withoutRelationsOf]
          rw [Mapping.getName?, Mapping.get?_insert_self root (Value.distinctKeys_string _)]
          simp
      | _ => simp only [removeRelations, hget, withoutRelationsOf]

theorem withoutRelationsOf_append (names names' : List String) (v? : Option Value) :
    withoutRelationsOf names' (withoutRelationsOf names v?) =
      withoutRelationsOf (names ++ names') v? := by
  cases v? with
  | none => rfl
  | some v =>
      cases v with
      | sequence items => simp [withoutRelationsOf, List.filter_filter, Bool.and_comm]
      | _ => rfl

/-- What is removed depends on which applications are named, and not on how often or in which
order. -/
theorem withoutRelationsOf_congr {names names' : List String}
    (h : ∀ name, name ∈ names ↔ name ∈ names') (v? : Option Value) :
    withoutRelationsOf names v? = withoutRelationsOf names' v? := by
  have hall : ∀ item : Value, (names.all fun name => !isRelationOf name item) =
      names'.all fun name => !isRelationOf name item := by
    intro item
    rw [Bool.eq_iff_iff, List.all_eq_true, List.all_eq_true]
    simp only [h]
  unfold withoutRelationsOf
  split
  · simp only [hall]
  · rfl

/-- Nothing is left to remove the second time. -/
theorem withoutRelationsOf_twice (names : List String) (v? : Option Value) :
    withoutRelationsOf names (withoutRelationsOf names v?) = withoutRelationsOf names v? := by
  rw [withoutRelationsOf_append]
  exact withoutRelationsOf_congr (by simp) v?

/-- Removing applications one after the other removes the relations of all of them. -/
theorem getName?_foldl_removeRelations (root : Mapping) (names : List String) :
    (names.foldl removeRelations root).getName? "relations" =
      withoutRelationsOf names (root.getName? "relations") := by
  induction names generalizing root with
  | nil => exact (withoutRelationsOf_nil _).symm
  | cons name names ih =>
      rw [List.foldl_cons, ih, getName?_removeRelations, withoutRelationsOf_append]
      rfl

theorem distinctKeys_foldl_removeRelations {root : Mapping} (hroot : root.DistinctKeys)
    (names : List String) : Mapping.DistinctKeys (names.foldl removeRelations root) := by
  induction names generalizing root with
  | nil => exact hroot
  | cons name names ih => exact ih (distinctKeys_removeRelations hroot name)

theorem get?_foldl_removeRelations {root : Mapping} {names : List String} {k : Value}
    (hk : k.DistinctKeys) (hne : k.same (.string "relations") = false) :
    Mapping.get? (names.foldl removeRelations root) k = root.get? k := by
  induction names generalizing root with
  | nil => rfl
  | cons name names ih => rw [List.foldl_cons, ih, get?_removeRelations hk hne]

/-- Removal looks at untagged lists only. -/
def isTaggedList (v? : Option Value) : Bool :=
  match v? with
  | some (.tagged _ _) => true
  | _ => false

theorem isTaggedList_eq_false {v? : Option Value}
    (h : ∀ v, v? = some v → v.isUntagged = true) : isTaggedList v? = false := by
  cases v? with
  | none => rfl
  | some v =>
      cases v with
      | tagged tag w => cases h _ rfl
      | _ => rfl

theorem filterMap_relation?_filter (p : Relation → Bool) (q : Value → Bool)
    (hq : ∀ item, q item = (relation? item).all p) (items : List Value) :
    (items.filter q).filterMap relation? = (items.filterMap relation?).filter p := by
  induction items with
  | nil => rfl
  | cons item items ih =>
      rw [List.filter_cons, hq item]
      cases hitem : relation? item with
      | none => simp [hitem, ih]
      | some r => by_cases hp : p r <;> simp [hitem, hp, ih]

def keptWithout (names : List String) (r : Relation) : Bool :=
  names.all fun name => !r.involves name

theorem keptWithout_congr (names : List String) {r s : Relation} (h : r.sameAs s = true) :
    keptWithout names r = keptWithout names s := by
  simp only [keptWithout, Relation.involves_congr h]

/-- An item is kept unless it is a relation of one of the applications. -/
theorem all_not_isRelationOf (names : List String) (item : Value) :
    (names.all fun name => !isRelationOf name item) = (relation? item).all (keptWithout names) := by
  simp only [isRelationOf_eq]
  cases relation? item with
  | none => simp
  | some r => rfl

theorem withoutRelationsOf_encode (names : List String) (rs : List Relation) :
    withoutRelationsOf names (some (.sequence (rs.map Relation.encode))) =
      some (.sequence ((rs.filter (keptWithout names)).map Relation.encode)) := by
  have hencode : ∀ r : Relation, (names.all fun name => !isRelationOf name r.encode) =
      keptWithout names r := fun r => all_not_isRelationOf names r.encode
  rw [withoutRelationsOf, List.filter_map]
  exact congrArg (fun rs : List Relation => some (Value.sequence (rs.map Relation.encode)))
    (List.filter_congr fun r _ => hencode r)

theorem listed_withoutRelationsOf (names : List String) {v? : Option Value}
    (h : isTaggedList v? = false) : listed (withoutRelationsOf names v?) =
      (listed v?).filter (keptWithout names) := by
  cases v? with
  | none => rfl
  | some v =>
      cases v with
      | sequence items =>
          exact filterMap_relation?_filter _ _ (all_not_isRelationOf names) items
      | tagged tag v => cases h
      | _ => rfl

theorem withoutRelationsOf_of_isTaggedList (names : List String) {v? : Option Value}
    (h : isTaggedList v? = true) : withoutRelationsOf names v? = v? := by
  cases v? with
  | none => rfl
  | some v =>
      cases v with
      | sequence items => cases h
      | _ => rfl

theorem isTaggedList_withoutRelationsOf (names : List String) (v? : Option Value) :
    isTaggedList (withoutRelationsOf names v?) = isTaggedList v? := by
  cases v? with
  | none => rfl
  | some v => cases v <;> rfl

end Overlay

end BundleCheck
