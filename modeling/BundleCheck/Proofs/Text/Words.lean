import BundleCheck.Proofs.Text

/-! # Words of a text

The words of a text are told without cutting it: blanks are passed over, and a word goes on up to a
blank or to the end. -/

namespace BundleCheck.Text

/-- The words of a text in order, which are the longest runs of characters that are no blanks. -/
inductive IsWords : List Char → List (List Char) → Prop
  | nil : IsWords [] []
  | blank {c : Char} {cs : List Char} {ws : List (List Char)} (hc : isBlank c = true)
      (h : IsWords cs ws) : IsWords (c :: cs) ws
  | word {word cs : List Char} {ws : List (List Char)} (hne : word ≠ [])
      (hword : ∀ c ∈ word, isBlank c = false) (hend : ∀ c, cs.head? = some c → isBlank c = true)
      (h : IsWords cs ws) : IsWords (word ++ cs) (word :: ws)

theorem words_cons_of_isBlank {c : Char} (hc : isBlank c = true) (cs : List Char) :
    words (c :: cs) = words cs := by
  simp [words, pieces, hc]

theorem words_append {word cs : List Char} (hne : word ≠ [])
    (hword : ∀ c ∈ word, isBlank c = false) (hend : ∀ c, cs.head? = some c → isBlank c = true) :
    words (word ++ cs) = word :: words cs := by
  cases cs with
  | nil => simp [words, pieces_of_forall_eq_false hword, pieces, hne]
  | cons c cs =>
      have hc : isBlank c = true := hend c rfl
      rw [words_cons_of_isBlank hc, words, pieces_append_cons hword hc]
      simp [words, hne]

theorem isWords_words (cs : List Char) : IsWords cs (words cs) := by
  induction hlength : cs.length using Nat.strong_induction_on generalizing cs with
  | _ n ih =>
      cases cs with
      | nil => exact .nil
      | cons c cs =>
          by_cases hc : isBlank c = true
          · rw [words_cons_of_isBlank hc]
            exact .blank hc (ih cs.length (by simp [← hlength]) cs rfl)
          · -- The word at the beginning is what stands before the next blank.
            have hsplit := List.takeWhile_append_dropWhile (p := fun d => !isBlank d) (l := c :: cs)
            have hne : (c :: cs).takeWhile (fun d => !isBlank d) ≠ [] := by simp [hc]
            have hword : ∀ d ∈ (c :: cs).takeWhile (fun d => !isBlank d), isBlank d = false :=
              fun d hd => by simpa using List.mem_takeWhile_imp hd
            have hend : ∀ d, ((c :: cs).dropWhile (fun d => !isBlank d)).head? = some d →
                isBlank d = true := by
              intro d hd
              have hnot := List.head?_dropWhile_not (fun d => !isBlank d) (c :: cs)
              rw [hd] at hnot
              simpa using hnot
            have hshorter : ((c :: cs).dropWhile (fun d => !isBlank d)).length < n := by
              have hle := (List.dropWhile_suffix (l := cs) (fun d => !isBlank d)).length_le
              simp only [← hlength, List.dropWhile_cons, hc, Bool.not_false, if_true,
                List.length_cons]
              omega
            rw [← hsplit, words_append hne hword hend]
            exact .word hne hword hend (ih _ hshorter _ rfl)

theorem isWords_iff {cs : List Char} {ws : List (List Char)} : IsWords cs ws ↔ words cs = ws := by
  constructor
  · intro h
    induction h with
    | nil => rfl
    | blank hc _ ih => rw [words_cons_of_isBlank hc, ih]
    | word hne hword hend _ ih => rw [words_append hne hword hend, ih]
  · rintro rfl
    exact isWords_words cs

end BundleCheck.Text
