import BundleCheck.Proofs.Overlay.Contents
import BundleCheck.Proofs.Yaml.Equality

/-! # Lists of relations, up to order and form

Two lists of relations match if they hold the same relations equally often, in whatever order,
orientation and spacing. Sections keep matching lists matching, and where neither section removes
an application of a relation that the other one lists, both orders of applying them give matching
lists. -/

namespace BundleCheck

open Yaml

/-- The ends of a relation, in no order and without the blanks around them. -/
def Relation.ends (r : Relation) : Sym2 String :=
  s(Text.trimmed r.left, Text.trimmed r.right)

theorem Relation.ends_eq_iff {r s : Relation} : r.ends = s.ends ↔ r.sameAs s = true := by
  rw [ends, ends, Sym2.eq_iff, sameAs_iff]

namespace Overlay

/-! ## Matching lists -/

/-- What counts of an item of a list: the ends of a relation that is written as such, or else the
item as it is. -/
def outline (item : Value) : Sym2 String ⊕ Value :=
  match relation? item with
  | some r => if item = r.encode then .inl r.ends else .inr item
  | none => .inr item

theorem outline_encode (r : Relation) : outline r.encode = .inl r.ends :=
  if_pos rfl

def outlineEnds? : Sym2 String ⊕ Value → Option (Sym2 String)
  | .inl ends => some ends
  | .inr item => (relation? item).map Relation.ends

theorem outlineEnds?_outline (item : Value) :
    outlineEnds? (outline item) = (relation? item).map Relation.ends := by
  unfold outline
  cases hitem : relation? item with
  | none => rw [outlineEnds?, hitem]
  | some r =>
      dsimp only
      split
      · rfl
      · rw [outlineEnds?, hitem]

/-- The lists are equal up to order, and up to the form in which relations are written. -/
def ListsMatch (v? w? : Option Value) : Prop :=
  v? = w? ∨ ∃ items items', v? = some (.sequence items) ∧ w? = some (.sequence items') ∧
    (items.map outline).Perm (items'.map outline)

theorem ListsMatch.refl (v? : Option Value) : ListsMatch v? v? :=
  .inl rfl

theorem ListsMatch.trans {u? v? w? : Option Value} (huv : ListsMatch u? v?)
    (hvw : ListsMatch v? w?) : ListsMatch u? w? := by
  rcases huv with rfl | ⟨items, items', hu, hv, hperm⟩
  · exact hvw
  · rcases hvw with rfl | ⟨items₁, items₂, hv', hw, hperm'⟩
    · exact .inr ⟨items, items', hu, hv, hperm⟩
    · obtain rfl : items' = items₁ := by
        rw [hv] at hv'
        exact Value.sequence.inj (Option.some.inj hv')
      exact .inr ⟨items, items₂, hu, hw, hperm.trans hperm'⟩

theorem listsMatch_encode {rs ss : List Relation}
    (h : (rs.map Relation.ends).Perm (ss.map Relation.ends)) :
    ListsMatch (some (.sequence (rs.map Relation.encode)))
      (some (.sequence (ss.map Relation.encode))) := by
  refine .inr ⟨_, _, rfl, rfl, ?_⟩
  have hmap : ∀ rs : List Relation,
      (rs.map Relation.encode).map outline = (rs.map Relation.ends).map Sum.inl := fun rs => by
    rw [List.map_map, List.map_map]
    exact List.map_congr_left fun r _ => outline_encode r
  rw [hmap, hmap]
  exact h.map _

/-- Lists that match list the same relations. -/
theorem ListsMatch.listed {v? w? : Option Value} (h : ListsMatch v? w?) :
    ((listed v?).map Relation.ends).Perm ((listed w?).map Relation.ends) := by
  rcases h with rfl | ⟨items, items', rfl, rfl, hperm⟩
  · exact .refl _
  · have hends : ∀ items : List Value,
        (Overlay.listed (some (.sequence items))).map Relation.ends =
          (items.map outline).filterMap outlineEnds? := by
      intro items
      rw [Overlay.listed, List.filterMap_map, List.map_filterMap]
      exact List.filterMap_congr fun item _ => (outlineEnds?_outline item).symm
    rw [hends, hends]
    exact hperm.filterMap _

/-! ## Adding relations -/

/-- Inserts ends into a list, each unless it is there. -/
def insertAll (known added : List (Sym2 String)) : List (Sym2 String) :=
  added.foldl (fun known x => known.insert x) known

theorem orderless_insert : Orderless (fun _ : List (Sym2 String) => True) (fun _ => True) List.Perm
    (fun known x => known.insert x) where
  refl := List.Perm.refl
  trans := List.Perm.trans
  keeps _ _ := trivial
  congr _ _ _ hperm := hperm.insert _

theorem insertAll_congr {known known' : List (Sym2 String)} (h : known.Perm known')
    (added : List (Sym2 String)) : (insertAll known added).Perm (insertAll known' added) :=
  orderless_insert.foldl_congr (fun _ _ => trivial) trivial trivial h

theorem insertAll_comm (known added added' : List (Sym2 String)) :
    (insertAll (insertAll known added) added').Perm (insertAll (insertAll known added') added) :=
  orderless_insert.foldl_comm (fun _ _ => trivial) (fun _ _ => trivial)
    (fun x _ y _ l _ => List.perm_insert_swap y x l) trivial

theorem map_ends_addRelation (known : List Relation) (r : Relation) :
    ((addRelation known r).map Relation.ends).Perm ((known.map Relation.ends).insert r.ends) := by
  have hmem : (known.any fun k => k.sameAs r) = true ↔ r.ends ∈ known.map Relation.ends := by
    rw [List.any_eq_true, List.mem_map]
    exact exists_congr fun k => and_congr_right fun _ => Relation.ends_eq_iff.symm
  unfold addRelation
  split
  next hknown => rw [List.insert_of_mem (hmem.mp hknown)]
  next hnew =>
    rw [List.insert_of_not_mem (fun h => hnew (hmem.mpr h)), List.map_append]
    exact List.perm_append_singleton r.ends (known.map Relation.ends)

/-- Relations are added to a list as their ends are inserted. -/
theorem map_ends_foldl_addRelation (known added : List Relation) :
    ((added.foldl addRelation known).map Relation.ends).Perm
      (insertAll (known.map Relation.ends) (added.map Relation.ends)) := by
  induction added generalizing known with
  | nil => exact .refl _
  | cons r rs ih => exact (ih _).trans (insertAll_congr (map_ends_addRelation known r) _)

/-- A property that all added relations have can be asked for before or after they are added. -/
theorem foldl_addRelation_filter {p : Relation → Bool}
    (hp : ∀ {r s : Relation}, r.sameAs s = true → p r = p s) {added : List Relation}
    (hadded : ∀ r ∈ added, p r = true) (known : List Relation) :
    (added.foldl addRelation known).filter p = added.foldl addRelation (known.filter p) := by
  rw [foldl_addRelation_eq known, foldl_addRelation_eq (known.filter p), List.filter_append,
    List.filter_filter]
  refine congrArg (known.filter p ++ ·) (List.filter_congr fun r hr => ?_)
  have hr' : p r = true :=
    hadded r ((mem_foldl_addRelation hr).resolve_left List.not_mem_nil)
  rw [hasRelation_filter hp, hr', Bool.true_and, Bool.true_and]

/-! ## One section -/

instance (e : Value × Value) : Decidable (WritesRelations e) :=
  inferInstanceAs (Decidable (sectionKind? e.1 = some .relations ∧ e.2 ≠ .null))

def listStep (v? : Option Value) (e : Value × Value) : Option Value :=
  if WritesRelations e then
    some (.sequence (((newRelations e).foldl addRelation (listed v?)).map Relation.encode))
  else withoutRelationsOf ((newApplications e).filterMap removedName?) v?

theorem SectionStep.relations_eq {key : String} (hkey : SectionKind.ofName key = .applications)
    {root root' : Mapping} {e : Value × Value} (h : SectionStep key root e root')
    (he : e.1.DistinctKeys) :
    root'.getName? "relations" = listStep (root.getName? "relations") e := by
  unfold listStep
  rcases h.relations_cases he hkey with ⟨hnot, -, hget⟩ | ⟨hwrites, -, hget⟩
  · rw [if_neg hnot, hget]
  · rw [if_pos hwrites, hget]

theorem SectionRun.relations_eq {key : String} (hkey : SectionKind.ofName key = .applications)
    {root root' sections : Mapping} (h : SectionRun key root sections root')
    (hsections : ∀ e ∈ sections, e.1.DistinctKeys ∧ e.2.DistinctKeys) :
    root'.getName? "relations" = sections.foldl listStep (root.getName? "relations") :=
  h.part_eq_foldl (fun m => m.getName? "relations") fun e he _ _ hstep =>
    hstep.relations_eq hkey (hsections e he).1

theorem isTaggedList_listStep {v? : Option Value} (h : isTaggedList v? = false)
    (e : Value × Value) : isTaggedList (listStep v? e) = false := by
  unfold listStep
  split
  · rfl
  · rw [isTaggedList_withoutRelationsOf, h]

/-- Whether an item is kept depends on its outline. -/
theorem keptItem_of_outline_eq {names : List String} {item item' : Value}
    (h : outline item = outline item') : keptItem names item = keptItem names item' := by
  have hends := congrArg outlineEnds? h
  rw [outlineEnds?_outline, outlineEnds?_outline] at hends
  rw [keptItem, keptItem, all_not_isRelationOf, all_not_isRelationOf]
  cases hitem : relation? item with
  | none =>
      cases hitem' : relation? item' with
      | none => rfl
      | some s => simp [hitem, hitem'] at hends
  | some r =>
      cases hitem' : relation? item' with
      | none => simp [hitem, hitem'] at hends
      | some s =>
          rw [hitem, hitem', Option.map_some, Option.map_some, Option.some.injEq,
            Relation.ends_eq_iff] at hends
          exact keptWithout_congr names hends

/-- A property that depends on what is compared can be asked for on both sides. -/
theorem perm_map_filter {α β : Type} {f : α → β} {p : α → Bool}
    (hp : ∀ {x y : α}, f x = f y → p x = p y) {xs ys : List α}
    (h : (xs.map f).Perm (ys.map f)) : ((xs.filter p).map f).Perm ((ys.filter p).map f) := by
  have hfactors : Function.FactorsThrough p f := fun _ _ hxy => hp hxy
  have hfilter : ∀ xs : List α,
      (xs.filter p).map f = (xs.map f).filter (Function.extend f p fun _ => false) := by
    intro xs
    rw [List.filter_map]
    exact congrArg (List.map f) (List.filter_congr fun x _ => (hfactors.extend_apply _ x).symm)
  rw [hfilter, hfilter]
  exact h.filter _

theorem ListsMatch.withoutRelationsOf {v? w? : Option Value} (h : ListsMatch v? w?)
    (names : List String) :
    ListsMatch (Overlay.withoutRelationsOf names v?) (Overlay.withoutRelationsOf names w?) := by
  rcases h with rfl | ⟨items, items', rfl, rfl, hperm⟩
  · exact .refl _
  · exact .inr ⟨_, _, rfl, rfl, perm_map_filter keptItem_of_outline_eq hperm⟩

theorem orderless_listStep : Orderless (fun v? => isTaggedList v? = false)
    (fun _ : Value × Value => True) ListsMatch listStep where
  refl := ListsMatch.refl
  trans := ListsMatch.trans
  keeps hv _ := isTaggedList_listStep hv _
  congr {v? w? e} _ _ _ hmatch := by
    unfold listStep
    split
    · refine listsMatch_encode ?_
      exact (map_ends_foldl_addRelation _ _).trans ((insertAll_congr hmatch.listed _).trans
        (map_ends_foldl_addRelation _ _).symm)
    · exact hmatch.withoutRelationsOf _

theorem withoutRelationsOf_comm (names names' : List String) (v? : Option Value) :
    withoutRelationsOf names' (withoutRelationsOf names v?) =
      withoutRelationsOf names (withoutRelationsOf names' v?) := by
  rw [withoutRelationsOf_append, withoutRelationsOf_append]
  exact withoutRelationsOf_congr (by simp [or_comm]) v?

/-- Neither section removes an application of a relation that the other one lists. -/
def KeepsRelations (e f : Value × Value) : Prop :=
  (∀ r ∈ newRelations e, keptWithout ((newApplications f).filterMap removedName?) r = true) ∧
    ∀ r ∈ newRelations f, keptWithout ((newApplications e).filterMap removedName?) r = true

/-- Adding relations and removing those of other applications can be done in either order. -/
theorem listStep_comm_of_not_writes {v? : Option Value} (hv : isTaggedList v? = false)
    {e f : Value × Value} (he : WritesRelations e) (hf : ¬ WritesRelations f)
    (hkeeps : ∀ r ∈ newRelations e,
      keptWithout ((newApplications f).filterMap removedName?) r = true) :
    listStep (listStep v? e) f = listStep (listStep v? f) e := by
  unfold listStep
  rw [if_pos he, if_neg hf, if_neg hf, if_pos he, withoutRelationsOf_encode,
    listed_withoutRelationsOf _ hv, foldl_addRelation_filter (keptWithout_congr _) hkeeps]

theorem listStep_comm {v? : Option Value} (hv : isTaggedList v? = false) {e f : Value × Value}
    (hkeeps : KeepsRelations e f) :
    ListsMatch (listStep (listStep v? e) f) (listStep (listStep v? f) e) := by
  by_cases he : WritesRelations e
  · by_cases hf : WritesRelations f
    · unfold listStep
      rw [if_pos he, if_pos hf, if_pos hf, if_pos he, listed_encode, listed_encode]
      refine listsMatch_encode ?_
      have hboth : ∀ (known added added' : List Relation),
          ((added'.foldl addRelation (added.foldl addRelation known)).map Relation.ends).Perm
            (insertAll (insertAll (known.map Relation.ends) (added.map Relation.ends))
              (added'.map Relation.ends)) := fun known added added' =>
        (map_ends_foldl_addRelation _ added').trans
          (insertAll_congr (map_ends_foldl_addRelation known added) _)
      exact (hboth _ _ _).trans ((insertAll_comm _ _ _).trans (hboth _ _ _).symm)
    · exact .inl (listStep_comm_of_not_writes hv he hf hkeeps.1)
  · by_cases hf : WritesRelations f
    · exact .inl (listStep_comm_of_not_writes hv hf he hkeeps.2).symm
    · unfold listStep
      rw [if_neg he, if_neg hf, if_neg hf, if_neg he]
      exact .inl (withoutRelationsOf_comm _ _ _)

end Overlay

end BundleCheck
