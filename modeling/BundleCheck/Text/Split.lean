/-! # Cutting at separators

Texts are cut at characters, and paths at bytes. -/

namespace BundleCheck.Text

variable {α : Type}

/-! ## Cutting once -/

section

variable [DecidableEq α]

/-- The text before and after the first `sep`, if there is one. -/
def cutFirst (sep : α) : List α → Option (List α × List α)
  | [] => none
  | c :: cs =>
      if c = sep then some ([], cs)
      else (cutFirst sep cs).map fun parts => (c :: parts.1, parts.2)

/-- The text before and after the last `sep`, if there is one. -/
def cutLast (sep : α) (cs : List α) : Option (List α × List α) :=
  (cutFirst sep cs.reverse).map fun parts => (parts.2.reverse, parts.1.reverse)

/-- A successful cut splits the text at a separator, and none stands before it. -/
theorem cutFirst_eq_some {sep : α} {cs before after : List α} :
    cutFirst sep cs = some (before, after) ↔ cs = before ++ sep :: after ∧ sep ∉ before := by
  induction cs generalizing before with
  | nil => simp [cutFirst]
  | cons c cs ih =>
      by_cases h : c = sep
      · subst h
        cases before with
        | nil => simp [cutFirst, eq_comm]
        | cons b bs =>
            simp only [cutFirst, if_true, Option.some.injEq, Prod.mk.injEq, List.cons_append,
              List.cons.injEq, List.mem_cons, not_or]
            constructor
            · rintro ⟨hbad, -⟩
              exact absurd hbad (by simp)
            · rintro ⟨⟨rfl, -⟩, hne, -⟩
              exact absurd rfl hne
      · cases before with
        | nil => simp [cutFirst, h]
        | cons b bs =>
            simp only [cutFirst, if_neg h, Option.map_eq_some_iff, Prod.mk.injEq, List.cons.injEq,
              List.cons_append, List.mem_cons, not_or]
            constructor
            · rintro ⟨⟨x, y⟩, hxy, ⟨rfl, rfl⟩, rfl⟩
              obtain ⟨rfl, hm⟩ := ih.mp hxy
              exact ⟨⟨rfl, rfl⟩, fun hc => h hc.symm, hm⟩
            · rintro ⟨⟨rfl, hcs⟩, -, hm⟩
              exact ⟨(bs, after), ih.mpr ⟨hcs, hm⟩, ⟨rfl, rfl⟩, rfl⟩

/-- A cut fails exactly on text without the separator. -/
theorem cutFirst_eq_none {sep : α} {cs : List α} : cutFirst sep cs = none ↔ sep ∉ cs := by
  induction cs with
  | nil => simp [cutFirst]
  | cons c cs ih =>
      by_cases h : c = sep
      · simp [cutFirst, h]
      · simp [cutFirst, h, ih, Ne.symm h]

end

/-! ## Cutting everywhere -/

/-- The pieces between the items that satisfy `p`; there is always at least one. -/
def pieces (p : α → Bool) : List α → List (List α)
  | [] => [[]]
  | c :: cs =>
      if p c then [] :: pieces p cs
      else
        match pieces p cs with
        | [] => [[c]]
        | piece :: rest => (c :: piece) :: rest

def joinWith (sep : List α) : List (List α) → List α
  | [] => []
  | [piece] => piece
  | piece :: rest => piece ++ sep ++ joinWith sep rest

/-! ## Openings and endings -/

def afterOpening? (opening cs : List Char) : Option (List Char) :=
  if opening.isPrefixOf cs then some (cs.drop opening.length) else none

end BundleCheck.Text
