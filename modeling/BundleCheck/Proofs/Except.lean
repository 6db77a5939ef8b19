import Mathlib

/-! # Computations that succeed

A chain of computations succeeds exactly when each of its steps does, and fails as the first step
that fails. -/

namespace BundleCheck

variable {ε δ α β : Type}

theorem ok_bind (a : α) (f : α → Except ε β) : Except.ok a >>= f = f a :=
  rfl

theorem bind_eq_ok_iff {x : Except ε α} {f : α → Except ε β} {b : β} :
    x >>= f = .ok b ↔ ∃ a, x = .ok a ∧ f a = .ok b := by
  cases x with
  | error e => simp [bind, Except.bind]
  | ok a => simp [bind, Except.bind]

theorem bind_eq_error_iff {x : Except ε α} {f : α → Except ε β} {cause : ε} :
    x >>= f = .error cause ↔ x = .error cause ∨ ∃ a, x = .ok a ∧ f a = .error cause := by
  cases x with
  | error e => simp [bind, Except.bind]
  | ok a => simp [bind, Except.bind]

theorem map_eq_ok_iff {x : Except ε α} {f : α → β} {b : β} :
    x.map f = .ok b ↔ ∃ a, x = .ok a ∧ f a = b := by
  cases x with
  | error e => simp [Except.map]
  | ok a => simp [Except.map]

theorem map_eq_error_iff {x : Except ε α} {f : α → β} {cause : ε} :
    x.map f = .error cause ↔ x = .error cause := by
  cases x with
  | error e => simp [Except.map]
  | ok a => simp [Except.map]

theorem mapError_eq_ok_iff {x : Except ε α} {f : ε → δ} {a : α} :
    x.mapError f = .ok a ↔ x = .ok a := by
  cases x with
  | error e => simp [Except.mapError]
  | ok a => simp [Except.mapError]

theorem mapError_eq_error_iff {x : Except ε α} {f : ε → δ} {cause : δ} :
    x.mapError f = .error cause ↔ ∃ e, x = .error e ∧ f e = cause := by
  cases x with
  | error e => simp [Except.mapError]
  | ok a => simp [Except.mapError]

theorem exists_eq_error_iff {x : Except ε α} : (∃ cause, x = .error cause) ↔ ∀ a, x ≠ .ok a := by
  cases x <;> simp

theorem map_bind {γ : Type} (x : Except ε α) (f : α → β) (g : β → Except ε γ) :
    x.map f >>= g = x >>= fun a => g (f a) := by
  cases x <;> rfl

theorem bind_map {γ : Type} (x : Except ε α) (f : α → Except ε β) (g : β → γ) :
    (x >>= f).map g = x >>= fun a => (f a).map g := by
  cases x <;> rfl

theorem bind_congr_ok {x : Except ε α} {f g : α → Except ε β} (h : ∀ a, x = .ok a → f a = g a) :
    x >>= f = x >>= g := by
  cases x with
  | error e => rfl
  | ok a => exact h a rfl

/-- Whether a computation succeeds with a given value is decided without looking at errors. -/
instance decidableEqOk [DecidableEq α] (x : Except ε α) (a : α) : Decidable (x = .ok a) :=
  match x with
  | .ok b => decidable_of_iff (b = a) (by simp)
  | .error _ => isFalse nofun

/-- What holds at the start and is kept by every step holds at the end. -/
theorem foldlM_preserves {P : β → Prop} {step : β → α → Except ε β} {items : List α}
    (hstep : ∀ b b', ∀ item ∈ items, P b → step b item = .ok b' → P b') {b b' : β} (hb : P b)
    (h : items.foldlM step b = .ok b') : P b' := by
  induction items generalizing b with
  | nil =>
      rw [List.foldlM_nil] at h
      cases h
      exact hb
  | cons item items ih =>
      rw [List.foldlM_cons, bind_eq_ok_iff] at h
      obtain ⟨c, hc, hrest⟩ := h
      have hnext : P c := hstep b c item (by simp) hb hc
      exact ih (fun b b' i hi => hstep b b' i (by simp [hi])) hnext hrest

/-- A map that the steps respect, as long as something holds that they keep, is respected by the
run. -/
theorem foldlM_map (I : β → Prop) (σ : β → β) {step step' : β → α → Except ε β} {items : List α}
    (hstep : ∀ b, ∀ item ∈ items, I b → step' (σ b) item = (step b item).map σ)
    (hkeeps : ∀ b b', ∀ item ∈ items, I b → step b item = .ok b' → I b') {b : β} (hb : I b) :
    items.foldlM step' (σ b) = (items.foldlM step b).map σ := by
  induction items generalizing b with
  | nil => rfl
  | cons item items ih =>
      rw [List.foldlM_cons, List.foldlM_cons, hstep b item (by simp) hb]
      cases hnext : step b item with
      | error cause => rfl
      | ok next =>
          exact ih (fun b i hi => hstep b i (by simp [hi]))
            (fun b b' i hi => hkeeps b b' i (by simp [hi])) (hkeeps b next item (by simp) hb hnext)

/-- Steps that first read their item make a run exactly if each item is read, and the items that
were read make one. -/
theorem foldlM_bind_eq_ok_iff {γ : Type} {read : α → Except ε γ} {step : β → γ → Except ε β}
    {items : List α} {b b' : β} :
    items.foldlM (fun b item => read item >>= step b) b = .ok b' ↔
      ∃ cs, List.Forall₂ (fun item c => read item = .ok c) items cs ∧
        cs.foldlM step b = .ok b' := by
  induction items generalizing b with
  | nil => simp
  | cons item items ih =>
      simp only [List.foldlM_cons, bind_eq_ok_iff, ih]
      constructor
      · rintro ⟨next, ⟨c, hc, hnext⟩, cs, hcs, h⟩
        refine ⟨c :: cs, .cons hc hcs, ?_⟩
        rw [List.foldlM_cons, hnext, ok_bind, h]
      · rintro ⟨_, hread, h⟩
        cases hread with
        | cons hc hcs =>
            obtain ⟨next, hnext, h⟩ := bind_eq_ok_iff.mp h
            exact ⟨next, ⟨_, hc, hnext⟩, _, hcs, h⟩

/-- Items that are read one by one are read together. -/
theorem mapM_ok {f : α → Except ε β} {g : β → α} {xs : List β}
    (h : ∀ x ∈ xs, f (g x) = .ok x) : (xs.map g).mapM f = .ok xs := by
  induction xs with
  | nil => rfl
  | cons x xs ih =>
      rw [List.map_cons, List.mapM_cons, h x (by simp), ih fun y hy => h y (by simp [hy])]
      rfl

/-- Items that are read together are read one by one. -/
theorem forall₂_of_mapM {f : α → Except ε β} {xs : List α} {ys : List β}
    (h : xs.mapM f = .ok ys) : List.Forall₂ (fun x y => f x = .ok y) xs ys := by
  induction xs generalizing ys with
  | nil =>
      cases h
      exact .nil
  | cons x xs ih =>
      rw [List.mapM_cons, bind_eq_ok_iff] at h
      obtain ⟨y, hy, h⟩ := h
      obtain ⟨zs, hzs, h⟩ := bind_eq_ok_iff.mp h
      cases h
      exact .cons hy (ih hzs)

/-- Items are read together exactly if they are read one by one. -/
theorem mapM_eq_ok_iff {f : α → Except ε β} {xs : List α} {ys : List β} :
    xs.mapM f = .ok ys ↔ List.Forall₂ (fun x y => f x = .ok y) xs ys := by
  refine ⟨forall₂_of_mapM, fun h => ?_⟩
  induction h with
  | nil => rfl
  | cons hxy _ ih =>
      rw [List.mapM_cons, hxy, ok_bind, ih]
      rfl

theorem exists_mapM_eq_ok_iff {f : α → Except ε β} {xs : List α} :
    (∃ ys, xs.mapM f = .ok ys) ↔ ∀ x ∈ xs, ∃ y, f x = .ok y := by
  simp only [mapM_eq_ok_iff]
  induction xs with
  | nil => exact iff_of_true ⟨[], .nil⟩ nofun
  | cons x xs ih =>
      rw [List.forall_mem_cons, ← ih]
      constructor
      · rintro ⟨_, _ | ⟨hxy, hrest⟩⟩
        exact ⟨⟨_, hxy⟩, _, hrest⟩
      · rintro ⟨⟨y, hy⟩, ys, hys⟩
        exact ⟨y :: ys, .cons hy hys⟩

/-- Items that can be read one by one, with something in common, can be read together. -/
theorem exists_mapM_forall₂ {f : α → Except ε β} {R : β → α → Prop} {xs : List α}
    (h : ∀ x ∈ xs, ∃ y, f x = .ok y ∧ R y x) :
    ∃ ys, xs.mapM f = .ok ys ∧ List.Forall₂ R ys xs := by
  induction xs with
  | nil => exact ⟨[], rfl, .nil⟩
  | cons x xs ih =>
      obtain ⟨⟨y, hxy, hyx⟩, hrest⟩ := List.forall_mem_cons.mp h
      obtain ⟨ys, hys, hall⟩ := ih hrest
      refine ⟨y :: ys, ?_, .cons hyx hall⟩
      rw [List.mapM_cons, hxy, ok_bind, hys]
      rfl

theorem forall₂_of_mapM_eq_some {f : α → Option β} {xs : List α} {ys : List β}
    (h : xs.mapM f = some ys) : List.Forall₂ (fun x y => f x = some y) xs ys := by
  induction xs generalizing ys with
  | nil =>
      cases h
      exact .nil
  | cons x xs ih =>
      rw [List.mapM_cons, Option.bind_eq_bind, Option.bind_eq_some_iff] at h
      obtain ⟨y, hy, h⟩ := h
      obtain ⟨zs, hzs, h⟩ := Option.bind_eq_some_iff.mp h
      cases h
      exact .cons hy (ih hzs)

/-- In lists that are in step, what stands in the second belongs to something in the first. -/
theorem exists_of_mem_right {R : α → β → Prop} {xs : List α} {ys : List β}
    (h : List.Forall₂ R xs ys) {y : β} (hy : y ∈ ys) : ∃ x ∈ xs, R x y := by
  induction h with
  | nil => cases hy
  | cons hxy _ ih =>
      rcases List.mem_cons.mp hy with rfl | hy
      · exact ⟨_, by simp, hxy⟩
      · obtain ⟨x, hx, hxy⟩ := ih hy
        exact ⟨x, by simp [hx], hxy⟩

theorem forall_mem_of_mapM {P : β → Prop} {f : α → Except ε β} {xs : List α} {ys : List β}
    (hf : ∀ x ∈ xs, ∀ y, f x = .ok y → P y) (h : xs.mapM f = .ok ys) : ∀ y ∈ ys, P y := by
  intro y hy
  obtain ⟨x, hx, hxy⟩ := exists_of_mem_right (forall₂_of_mapM h) hy
  exact hf x hx y hxy

theorem mapM_congr {f g : α → Except ε β} {xs : List α} (h : ∀ x ∈ xs, f x = g x) :
    xs.mapM f = xs.mapM g := by
  induction xs with
  | nil => rfl
  | cons x xs ih =>
      rw [List.mapM_cons, List.mapM_cons, h x (by simp), ih fun y hy => h y (by simp [hy])]

theorem foldlM_congr {step step' : β → α → Except ε β} {items : List α}
    (h : ∀ b, ∀ item ∈ items, step b item = step' b item) (b : β) :
    items.foldlM step b = items.foldlM step' b := by
  induction items generalizing b with
  | nil => rfl
  | cons item items ih =>
      rw [List.foldlM_cons, List.foldlM_cons, h b item (by simp)]
      exact bind_congr fun c => ih (fun b i hi => h b i (by simp [hi])) c

/-- A run that fails does so at one of its steps. -/
theorem exists_of_foldlM_eq_error {step : β → α → Except ε β} {items : List α} {b : β} {cause : ε}
    (h : items.foldlM step b = .error cause) : ∃ c, ∃ item ∈ items, step c item = .error cause := by
  induction items generalizing b with
  | nil => cases h
  | cons item items ih =>
      rw [List.foldlM_cons, bind_eq_error_iff] at h
      rcases h with h | ⟨c, -, h⟩
      · exact ⟨b, item, by simp, h⟩
      · obtain ⟨c, i, hi, hc⟩ := ih h
        exact ⟨c, i, by simp [hi], hc⟩

/-! ## Runs of checks -/

theorem forM_eq_ok_iff {check : α → Except ε Unit} {xs : List α} :
    xs.forM check = .ok () ↔ ∀ x ∈ xs, check x = .ok () := by
  induction xs with
  | nil => exact iff_of_true rfl nofun
  | cons x xs ih =>
      rw [List.forM, bind_eq_ok_iff, List.forall_mem_cons, ← ih]
      exact ⟨fun ⟨(), hx, hxs⟩ => ⟨hx, hxs⟩, fun ⟨hx, hxs⟩ => ⟨(), hx, hxs⟩⟩

/-- The first item that fails decides how the run fails. -/
theorem forM_eq_error_iff {check : α → Except ε Unit} {xs : List α} {cause : ε} :
    xs.forM check = .error cause ↔ ∃ front x back, xs = front ++ x :: back ∧
      (∀ y ∈ front, check y = .ok ()) ∧ check x = .error cause := by
  induction xs with
  | nil => exact iff_of_false nofun (by simp)
  | cons x xs ih =>
      rw [List.forM, bind_eq_error_iff, ih]
      constructor
      · rintro (hx | ⟨⟨⟩, hx, front, y, back, rfl, hfront, hy⟩)
        · exact ⟨[], x, xs, rfl, nofun, hx⟩
        · exact ⟨x :: front, y, back, rfl, List.forall_mem_cons.mpr ⟨hx, hfront⟩, hy⟩
      · rintro ⟨front, y, back, hsplit, hfront, hy⟩
        cases front with
        | nil =>
            cases hsplit
            exact .inl hy
        | cons z front =>
            cases hsplit
            obtain ⟨hx, hfront⟩ := List.forall_mem_cons.mp hfront
            exact .inr ⟨(), hx, front, y, back, rfl, hfront, hy⟩

theorem forM_flatMap {γ : Type} (xs : List γ) (f : γ → List α) (check : α → Except ε Unit) :
    (xs.flatMap f).forM check = xs.forM fun x => (f x).forM check := by
  induction xs with
  | nil => rfl
  | cons x xs ih =>
      simp only [List.forM_eq_forM] at ih ⊢
      rw [List.flatMap_cons, List.forM_append, List.forM_cons, ih]

/-- Whether a computation succeeds, and how it fails. -/
def verdict (x : Except ε α) : Except ε Unit :=
  x.map fun _ => ()

theorem verdict_eq_ok_iff {x : Except ε α} : verdict x = .ok () ↔ ∃ a, x = .ok a := by
  simp [verdict, map_eq_ok_iff]

theorem verdict_eq_error_iff {x : Except ε α} {cause : ε} :
    verdict x = .error cause ↔ x = .error cause :=
  map_eq_error_iff

theorem verdict_map (x : Except ε α) (f : α → β) : verdict (x.map f) = verdict x := by
  cases x <;> rfl

theorem verdict_mapM (xs : List α) (f : α → Except ε β) :
    verdict (xs.mapM f) = xs.forM fun x => verdict (f x) := by
  induction xs with
  | nil => rfl
  | cons x xs ih =>
      rw [List.mapM_cons, List.forM, ← ih]
      cases f x with
      | error cause => rfl
      | ok y => cases xs.mapM f <;> rfl

/-! ## Results without reasons -/

theorem toOption_eq_some_iff {x : Except ε α} {a : α} : x.toOption = some a ↔ x = .ok a := by
  cases x <;> simp [Except.toOption]

theorem toOption_mapError (x : Except ε α) (f : ε → δ) :
    (x.mapError f).toOption = x.toOption := by
  cases x <;> rfl

theorem toOption_bind (x : Except ε α) (f : α → Except ε β) :
    (x >>= f).toOption = x.toOption.bind fun a => (f a).toOption := by
  cases x <;> rfl

theorem toOption_map (x : Except ε α) (f : α → β) :
    (x.map f).toOption = x.toOption.map f := by
  cases x <;> rfl

/-- Steps that succeed alike, with the same results, make runs that do. -/
theorem toOption_foldlM_congr {step : β → α → Except ε β} {step' : β → α → Except δ β}
    {items : List α} (h : ∀ b, ∀ item ∈ items, (step b item).toOption = (step' b item).toOption)
    (b : β) : (items.foldlM step b).toOption = (items.foldlM step' b).toOption := by
  induction items generalizing b with
  | nil => rfl
  | cons item items ih =>
      rw [List.foldlM_cons, List.foldlM_cons, toOption_bind, toOption_bind, h b item (by simp)]
      refine Option.bind_congr fun c _ => ?_
      exact ih (fun b i hi => h b i (by simp [hi])) c

end BundleCheck
