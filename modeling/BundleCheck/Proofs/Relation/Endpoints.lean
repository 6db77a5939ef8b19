import BundleCheck.Proofs.Relation
import BundleCheck.Proofs.Text

/-! # The endpoints of relations

A relation is given by two texts, which are also read as endpoints. What is found by the texts
alone is what the endpoints say: who takes part, with which peer, and which relations are the
same. -/

namespace BundleCheck

open Text

/-! ## Endpoints and their text -/

namespace Endpoint

theorem render_of_none {application : String} :
    render ⟨application, none⟩ = application :=
  rfl

theorem toList_render_of_some (application name : String) :
    (render ⟨application, some name⟩).toList = application.toList ++ ':' :: name.toList := by
  simp [render, String.toList_append, ToString.toString]

structure IsReadable (e : Endpoint) : Prop where
  application_ne : e.application.toList ≠ []
  no_colon : ':' ∉ e.application.toList
  name_ne : ∀ name, e.name = some name → name.toList ≠ []
  no_blank : ∀ c ∈ e.render.toList, isBlank c = false

theorem isReadable_of_parseTrimmed {cs : List Char} {e : Endpoint}
    (h : parseTrimmed cs = .ok e) : e.IsReadable ∧ e.render.toList = cs := by
  unfold parseTrimmed at h
  split at h
  · cases h
  next hempty =>
    split at h
    · cases h
    next hblank =>
      have hno : ∀ c ∈ cs, isBlank c = false := by simpa using hblank
      split at h
      next hcut =>
        cases h
        refine ⟨⟨by simpa using hempty, by simpa using cutFirst_eq_none.mp hcut, nofun, ?_⟩, ?_⟩
        · simpa [render_of_none] using hno
        · simp [render_of_none]
      next application name hcut =>
        obtain ⟨rfl, hcolon⟩ := cutFirst_eq_some.mp hcut
        split at h
        · cases h
        next happlication =>
          split at h
          · cases h
          next hname =>
            cases h
            have htext := toList_render_of_some (String.ofList application) (String.ofList name)
            simp only [String.toList_ofList] at htext
            refine ⟨⟨by simpa using happlication, by simpa using hcolon, ?_, ?_⟩, htext⟩
            · rintro _ ⟨⟩
              simpa using hname
            · rwa [htext]

theorem IsReadable.parseTrimmed_render {e : Endpoint} (h : e.IsReadable) :
    parseTrimmed e.render.toList = .ok e := by
  unfold parseTrimmed
  obtain ⟨application, name⟩ := e
  have hblank : (render ⟨application, name⟩).toList.any isBlank = false := by
    simpa using h.no_blank
  have happlication : application.toList ≠ [] := h.application_ne
  cases name with
  | none =>
      have hcut : cutFirst ':' application.toList = none := cutFirst_eq_none.mpr h.no_colon
      rw [render_of_none] at hblank ⊢
      simp [happlication, hblank, hcut]
  | some name =>
      have hname : name.toList ≠ [] := h.name_ne name rfl
      have hcut : cutFirst ':' (application.toList ++ ':' :: name.toList) =
          some (application.toList, name.toList) :=
        cutFirst_eq_some.mpr ⟨rfl, h.no_colon⟩
      rw [toList_render_of_some] at hblank ⊢
      simp [happlication, hblank, hname, hcut]

/-- Exactly what is readable is read, from the text that it is written as. -/
theorem parseTrimmed_eq_ok_iff {cs : List Char} {e : Endpoint} :
    parseTrimmed cs = .ok e ↔ e.IsReadable ∧ e.render.toList = cs := by
  constructor
  · exact isReadable_of_parseTrimmed
  · rintro ⟨h, rfl⟩
    exact h.parseTrimmed_render

/-- An endpoint is read from the text that it is written as, with blanks around it. -/
theorem parse_eq_ok_iff {s : String} {e : Endpoint} :
    parse s = .ok e ↔ e.IsReadable ∧ e.render = trimmed s := by
  rw [parse, parseTrimmed_eq_ok_iff, trimmed, ← String.toList_inj, String.toList_ofList]

/-- The application of a text is that of the endpoint it is read as. -/
theorem applicationOf_of_parse {s : String} {e : Endpoint} (h : parse s = .ok e) :
    applicationOf s = e.application := by
  obtain ⟨hreadable, htext⟩ := parse_eq_ok_iff.mp h
  have hchars : trim s.toList = e.render.toList := by rw [htext, trimmed, String.toList_ofList]
  rw [applicationOf, hchars]
  obtain ⟨application, name⟩ := e
  cases name with
  | none =>
      rw [render_of_none, cutFirst_eq_none.mpr hreadable.no_colon]
      simp
  | some name =>
      rw [toList_render_of_some, cutFirst_eq_some.mpr ⟨rfl, hreadable.no_colon⟩]
      simp

/-- What was read is read again from its own text. -/
theorem parse_render_of_parse {s : String} {e : Endpoint} (h : parse s = .ok e) :
    parse e.render = .ok e := by
  obtain ⟨hreadable, htext⟩ := parse_eq_ok_iff.mp h
  exact parse_eq_ok_iff.mpr ⟨hreadable, by rw [htext, trimmed_trimmed]⟩

/-- Endpoints that were read are equal if the trimmed texts are. -/
theorem eq_iff_trimmed_eq {s t : String} {e f : Endpoint} (hs : parse s = .ok e)
    (ht : parse t = .ok f) : e = f ↔ trimmed s = trimmed t := by
  obtain ⟨-, hse⟩ := parse_eq_ok_iff.mp hs
  obtain ⟨-, htf⟩ := parse_eq_ok_iff.mp ht
  constructor
  · rintro rfl
    rw [← hse, ← htf]
  · intro h
    have hrender : e.render = f.render := by rw [hse, htf, h]
    have hread := parse_render_of_parse hs
    rw [hrender, parse_render_of_parse ht] at hread
    exact (Except.ok.inj hread).symm

end Endpoint

namespace Relation

theorem endpoints_eq_ok_iff {r : Relation} {left right : Endpoint} :
    r.endpoints = .ok (left, right) ↔
      Endpoint.parse r.left = .ok left ∧ Endpoint.parse r.right = .ok right := by
  rw [endpoints, bind_eq_ok_iff]
  constructor
  · rintro ⟨left', hleft, h⟩
    obtain ⟨right', hright, h⟩ := bind_eq_ok_iff.mp h
    cases h
    exact ⟨hleft, hright⟩
  · rintro ⟨hleft, hright⟩
    exact ⟨left, hleft, bind_eq_ok_iff.mpr ⟨right, hright, rfl⟩⟩

/-- The text of a relation says the same as its two endpoints. -/
structure Agrees (r : Relation) (left right : Endpoint) : Prop where
  left_text : left.render = trimmed r.left
  right_text : right.render = trimmed r.right
  left_again : Endpoint.parse left.render = .ok left
  right_again : Endpoint.parse right.render = .ok right
  applications_eq : r.applications = (left.application, right.application)
  involves_iff : ∀ a, r.involves a = true ↔ a = left.application ∨ a = right.application
  isSome_peerOf : ∀ a, (r.peerOf? a).isSome = r.involves a
  peerOf_eq : ∀ a, r.peerOf? a =
    if a = left.application then some right.render
    else if a = right.application then some left.render
    else none

theorem agrees_of_endpoints {r : Relation} {left right : Endpoint}
    (h : r.endpoints = .ok (left, right)) : r.Agrees left right := by
  obtain ⟨hleft, hright⟩ := endpoints_eq_ok_iff.mp h
  have happlications : r.applications = (left.application, right.application) := by
    rw [applications, Endpoint.applicationOf_of_parse hleft,
      Endpoint.applicationOf_of_parse hright]
  have hleftText := (Endpoint.parse_eq_ok_iff.mp hleft).2
  have hrightText := (Endpoint.parse_eq_ok_iff.mp hright).2
  constructor
  case left_text => exact hleftText
  case right_text => exact hrightText
  case left_again => exact Endpoint.parse_render_of_parse hleft
  case right_again => exact Endpoint.parse_render_of_parse hright
  case applications_eq => exact happlications
  case involves_iff =>
    intro a
    rw [involves, happlications, Bool.or_eq_true, beq_iff_eq, beq_iff_eq, eq_comm (a := a),
      eq_comm (a := a)]
  case isSome_peerOf =>
    intro a
    unfold peerOf? involves
    split_ifs <;> simp_all
  case peerOf_eq =>
    intro a
    rw [peerOf?, happlications, hleftText, hrightText]
    simp only [eq_comm]

/-- Relations whose endpoints are read are the same if the pairs of endpoints are, in either
orientation. -/
theorem sameAs_iff_of_endpoints {r s : Relation} {left right left' right' : Endpoint}
    (hr : r.endpoints = .ok (left, right)) (hs : s.endpoints = .ok (left', right')) :
    r.sameAs s = true ↔ (left, right) = (left', right') ∨ (left, right) = (right', left') := by
  obtain ⟨hleft, hright⟩ := endpoints_eq_ok_iff.mp hr
  obtain ⟨hleft', hright'⟩ := endpoints_eq_ok_iff.mp hs
  rw [sameAs_iff, Prod.mk.injEq, Prod.mk.injEq, Endpoint.eq_iff_trimmed_eq hleft hleft',
    Endpoint.eq_iff_trimmed_eq hright hright', Endpoint.eq_iff_trimmed_eq hleft hright',
    Endpoint.eq_iff_trimmed_eq hright hleft']

/-- The text of a relation and its endpoints, where they are read, agree: on the text of each
endpoint, on the applications, on who takes part and with which peer, and on which relations are the
same. Sameness is an equivalence of all relations, whether their endpoints are read or not. -/
theorem endpoints_agree :
    (∀ (r : Relation) left right, r.endpoints = .ok (left, right) → r.Agrees left right) ∧
      Equivalence (fun r s : Relation => r.sameAs s = true) ∧
      ∀ (r s : Relation) left right left' right', r.endpoints = .ok (left, right) →
        s.endpoints = .ok (left', right') →
        (r.sameAs s = true ↔ (left, right) = (left', right') ∨ (left, right) = (right', left')) :=
  ⟨fun _ _ _ => agrees_of_endpoints, ⟨sameAs_refl, sameAs_symm, sameAs_trans⟩,
    fun _ _ _ _ _ _ => sameAs_iff_of_endpoints⟩

/-- Blanks around a side and a second colon in it, and an endpoint without a name. -/
def peers : Relation := ⟨" a:x:y ", "a"⟩

theorem endpoints_agree_peers :
    peers.endpoints = .ok (⟨"a", some "x:y"⟩, ⟨"a", none⟩) ∧
      peers.Agrees ⟨"a", some "x:y"⟩ ⟨"a", none⟩ ∧ peers.peerOf? "a" = some "a" ∧
      peers.sameAs ⟨"a", "a:x:y"⟩ = true ∧ peers.sameAs ⟨"a:x", "a"⟩ = false := by
  obtain ⟨hagrees, -, hsame⟩ := endpoints_agree
  have hread : peers.endpoints = .ok (⟨"a", some "x:y"⟩, ⟨"a", none⟩) := by decide +kernel
  have hother : endpoints ⟨"a:x", "a"⟩ = .ok (⟨"a", some "x"⟩, ⟨"a", none⟩) := by decide +kernel
  have hdiffer := mt (hsame _ _ _ _ _ _ hread hother).mp (by decide)
  refine ⟨hread, hagrees _ _ _ hread, ?_, ?_, by simpa using hdiffer⟩
  · rw [(hagrees _ _ _ hread).peerOf_eq]
    rfl
  · exact (hsame _ ⟨"a", "a:x:y"⟩ _ _ _ _ hread (by decide +kernel)).mpr (.inr rfl)

end Relation

end BundleCheck
