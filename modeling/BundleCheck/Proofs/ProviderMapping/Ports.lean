import BundleCheck.Proofs.Except
import BundleCheck.Proofs.ProviderMapping.Entries

/-! # Data ports

A text of data ports is read exactly if its entries agree on the bridge of every port and none of
them lacks a side. What is read is the set of the entries, and so their order does not matter. -/

namespace BundleCheck.ProviderMapping

open Text

/-! ## Assignments -/

/-- The entry is `bridge:port`. Its first colon ends the bridge; the port may hold others. -/
def Assigns (entry : List Char) (bridge port : String) : Prop :=
  entry = bridge.toList ++ ':' :: port.toList ∧ ':' ∉ bridge.toList

instance (entry : List Char) (bridge port : String) : Decidable (Assigns entry bridge port) :=
  inferInstanceAs (Decidable (_ ∧ _))

/-- The entry has a colon, and the text before its first colon or the text behind it is empty. -/
def LacksSide (entry : List Char) : Prop :=
  ∃ bridge port, Assigns entry bridge port ∧ (bridge = "" ∨ port = "")

def AssignOnce (es : List (List Char)) : Prop :=
  ∀ e ∈ es, ∀ f ∈ es, ∀ bridge other port,
    Assigns e bridge port → Assigns f other port → bridge = other

theorem assigns_iff_cutFirst {entry : List Char} {bridge port : String} :
    Assigns entry bridge port ↔ cutFirst ':' entry = some (bridge.toList, port.toList) :=
  cutFirst_eq_some.symm

theorem assigns_unique {entry : List Char} {bridge port bridge' port' : String}
    (h : Assigns entry bridge port) :
    Assigns entry bridge' port' ↔ bridge = bridge' ∧ port = port' := by
  rw [assigns_iff_cutFirst, assigns_iff_cutFirst.mp h]
  simp [String.toList_inj]

theorem lacksSide_iff_of_assigns {entry : List Char} {bridge port : String}
    (h : Assigns entry bridge port) : LacksSide entry ↔ bridge = "" ∨ port = "" := by
  simp only [LacksSide, assigns_unique h]
  simp

/-- An entry without a colon gives no port to a bridge. -/
theorem not_assigns_of_cutFirst {entry : List Char} (h : cutFirst ':' entry = none)
    (bridge port : String) : ¬ Assigns entry bridge port := by
  simp [assigns_iff_cutFirst, h]

theorem exists_assigns_of_cutFirst {entry left right : List Char}
    (h : cutFirst ':' entry = some (left, right)) :
    Assigns entry (String.ofList left) (String.ofList right) := by
  simp [assigns_iff_cutFirst, h]

/-! ## Adding ports -/

/-- The port is on the bridge already, or an entry to come puts it there. -/
def Placed (ports : SortedMap String String) (es : List (List Char)) (port bridge : String) :
    Prop :=
  ports.get? port = some bridge ∨ ∃ entry ∈ es, Assigns entry bridge port

theorem addPorts_cons_of_cutFirst {entry : List Char} (h : cutFirst ':' entry = none)
    (ports : SortedMap String String) (rest : List (List Char)) :
    addPorts ports (entry :: rest) = addPorts ports rest := by
  simp [addPorts, h]

/-- An entry is added if it has both sides and its port is on no other bridge. -/
theorem addPorts_cons_eq_ok_iff {entry : List Char} {bridge port : String}
    (h : Assigns entry bridge port) {ports m : SortedMap String String}
    {rest : List (List Char)} :
    addPorts ports (entry :: rest) = .ok m ↔
      ¬ LacksSide entry ∧ (∀ known, ports.get? port = some known → known = bridge) ∧
        addPorts (ports.insert port bridge) rest = .ok m := by
  rw [lacksSide_iff_of_assigns h, addPorts, assigns_iff_cutFirst.mp h]
  simp only [String.ofList_toList]
  by_cases hside : bridge = "" ∨ port = ""
  · have hempty : (bridge.toList.isEmpty || port.toList.isEmpty) = true := by simpa using hside
    simp [hempty, hside]
  · have hfull : (bridge.toList.isEmpty || port.toList.isEmpty) = false := by simpa using hside
    cases hget : ports.get? port with
    | none => simp [hfull, hside]
    | some known =>
        by_cases hknown : known = bridge
        · simp [hfull, hside, hknown]
        · simp [hfull, hside, hknown]

/-- A port that is on no other bridge may be put there beforehand. -/
theorem placed_insert_iff {entry : List Char} {bridge port : String}
    (h : Assigns entry bridge port) {ports : SortedMap String String}
    (hports : ∀ known, ports.get? port = some known → known = bridge) {rest : List (List Char)}
    {port' bridge' : String} :
    Placed (ports.insert port bridge) rest port' bridge' ↔
      Placed ports (entry :: rest) port' bridge' := by
  simp only [Placed, List.exists_mem_cons_iff, assigns_unique h, SortedMap.get?_insert, ← or_assoc]
  refine or_congr_left ?_
  by_cases hport : port = port'
  · subst hport
    simp only [if_true, Option.some.injEq, and_true]
    exact ⟨.inr, fun h => h.elim (fun hget => (hports bridge' hget).symm) id⟩
  · simp [hport]

/-- Ports are added exactly if no entry lacks a side and what was and what comes makes a map, which
is then the result. -/
theorem addPorts_eq_ok_iff {ports m : SortedMap String String} {es : List (List Char)} :
    addPorts ports es = .ok m ↔ (∀ entry ∈ es, ¬ LacksSide entry) ∧
      ∀ port bridge, m.get? port = some bridge ↔ Placed ports es port bridge := by
  induction es generalizing ports with
  | nil =>
      simp only [addPorts, Except.ok.injEq, Placed, List.not_mem_nil, false_and, exists_false,
        or_false, false_implies, implies_true, true_and]
      constructor
      · intro h
        simp [h]
      · intro h
        exact SortedMap.ext_get? fun port => Option.ext fun bridge => (h port bridge).symm
  | cons entry rest ih =>
      cases hcut : cutFirst ':' entry with
      | none =>
          have hnone := not_assigns_of_cutFirst hcut
          simp [addPorts_cons_of_cutFirst hcut, ih, Placed, LacksSide, hnone]
      | some sides =>
          obtain ⟨left, right⟩ := sides
          have hassigns := exists_assigns_of_cutFirst hcut
          rw [addPorts_cons_eq_ok_iff hassigns, ih, List.forall_mem_cons, and_assoc]
          refine and_congr_right fun _ => ?_
          constructor
          · intro ⟨hports, hsides, hm⟩
            refine ⟨hsides, fun port bridge => ?_⟩
            rw [hm, placed_insert_iff hassigns hports]
          · intro ⟨hsides, hm⟩
            have hports : ∀ known, ports.get? (String.ofList right) = some known →
                known = String.ofList left := by
              intro known hknown
              have hfirst := (hm _ known).mpr (.inl hknown)
              have hsecond := (hm _ _).mpr (.inr ⟨entry, by simp, hassigns⟩)
              exact Option.some.inj (hfirst.symm.trans hsecond)
            refine ⟨hports, hsides, fun port bridge => ?_⟩
            rw [hm, placed_insert_iff hassigns hports]

/-! ## Entries by their right side -/

/-- An entry with a colon is kept, with its right side as the key. -/
theorem keyedByRight_eq_some_iff {entry : List Char} {bridge port : String} :
    ((cutFirst ':' entry).map fun parts => (String.ofList parts.2, String.ofList parts.1)) =
      some (port, bridge) ↔ Assigns entry bridge port := by
  rw [Option.map_eq_some_iff, assigns_iff_cutFirst]
  constructor
  · rintro ⟨⟨left, right⟩, hcut, heq⟩
    cases heq
    simpa using hcut
  · intro hcut
    exact ⟨_, hcut, by simp⟩

theorem mem_byRight_entries_iff {value port bridge : String} :
    (port, bridge) ∈ (entries value).filterMap (fun entry =>
      (cutFirst ':' entry).map fun parts => (String.ofList parts.2, String.ofList parts.1)) ↔
        ∃ entry ∈ entries value, Assigns entry bridge port := by
  simp only [List.mem_filterMap, keyedByRight_eq_some_iff]

theorem get?_byRight_eq_some_iff {value : String} (h : AssignOnce (entries value))
    {port bridge : String} :
    (byRight value).get? port = some bridge ↔
      ∃ entry ∈ entries value, Assigns entry bridge port := by
  rw [byRight, SortedMap.get?_ofList_eq_some_iff, mem_byRight_entries_iff]
  intro ⟨port, bridge⟩ hbridge ⟨port', other⟩ hother hport
  obtain rfl : port = port' := hport
  obtain ⟨e, he, hbridge⟩ := mem_byRight_entries_iff.mp hbridge
  obtain ⟨f, hf, hother⟩ := mem_byRight_entries_iff.mp hother
  exact h e he f hf bridge other port hbridge hother

/-- The order of entries that agree does not matter. -/
theorem byRight_perm {value other : String} (h : AssignOnce (entries value))
    (hperm : (entries other).Perm (entries value)) : byRight other = byRight value := by
  have hother : AssignOnce (entries other) := by simpa only [AssignOnce, hperm.mem_iff] using h
  refine SortedMap.ext_get? fun port => Option.ext fun bridge => ?_
  rw [get?_byRight_eq_some_iff hother, get?_byRight_eq_some_iff h]
  simp only [hperm.mem_iff]

/-! ## Texts of data ports -/

theorem dataPorts_of_entries_eq_nil {value : String} (h : entries value = []) (bridge : String) :
    dataPorts value bridge = .ok .empty := by
  simp [dataPorts, h]

theorem dataPorts_of_forall_not_mem {value : String} {first : List Char}
    {rest : List (List Char)} (h : entries value = first :: rest)
    (hbare : ∀ entry ∈ entries value, ':' ∉ entry) (bridge : String) :
    dataPorts value bridge = .ok (SortedMap.empty.insert (String.ofList first) bridge) := by
  have hall : ((first :: rest).all fun entry => !entry.contains ':') = true := by
    simpa [h] using hbare
  simp only [dataPorts, h, hall, if_true]

theorem dataPorts_of_exists_mem {value : String} (h : ∃ entry ∈ entries value, ':' ∈ entry)
    (bridge : String) : dataPorts value bridge = addPorts .empty (entries value) := by
  cases hentries : entries value with
  | nil => simp [hentries] at h
  | cons first rest =>
      have hall : ((first :: rest).all fun entry => !entry.contains ':') = false := by
        rw [← Bool.not_eq_true, List.all_eq_true]
        intro hall
        obtain ⟨entry, hentry, hcolon⟩ := h
        simpa [hcolon] using hall entry (hentries ▸ hentry)
      simp only [dataPorts, hentries, hall, Bool.false_eq_true, if_false]

/-- Entries with a colon are read exactly if none lacks a side and all agree, and then as the map of
what stands before their first colons by what stands behind them. -/
theorem dataPorts_eq_ok_iff {value bridge : String} (h : ∃ entry ∈ entries value, ':' ∈ entry)
    {m : SortedMap String String} :
    dataPorts value bridge = .ok m ↔ (∀ entry ∈ entries value, ¬ LacksSide entry) ∧
      AssignOnce (entries value) ∧ m = byRight value := by
  have hplaced : ∀ port bridge, Placed .empty (entries value) port bridge ↔
      ∃ entry ∈ entries value, Assigns entry bridge port := by
    intro port bridge
    simp [Placed, SortedMap.get?, SortedMap.empty]
  rw [dataPorts_of_exists_mem h, addPorts_eq_ok_iff]
  simp only [hplaced]
  refine and_congr_right fun _ => ?_
  constructor
  · intro hm
    have honce : AssignOnce (entries value) := by
      intro e he f hf bridge other port hbridge hother
      have hfirst := (hm port bridge).mpr ⟨e, he, hbridge⟩
      have hsecond := (hm port other).mpr ⟨f, hf, hother⟩
      exact Option.some.inj (hfirst.symm.trans hsecond)
    refine ⟨honce, SortedMap.ext_get? fun port => Option.ext fun bridge => ?_⟩
    rw [hm, get?_byRight_eq_some_iff honce]
  · rintro ⟨honce, hm⟩ port bridge
    rw [hm, get?_byRight_eq_some_iff honce]

/-- How the entries of a text are read of which some have a colon. -/
structure ReadsAssignments (value bridge : String) : Prop where
  fails_iff : (∃ cause, dataPorts value bridge = .error cause) ↔
    (∃ entry ∈ entries value, LacksSide entry) ∨
      ∃ e ∈ entries value, ∃ f ∈ entries value, ∃ bridge other port,
        Assigns e bridge port ∧ Assigns f other port ∧ bridge ≠ other
  get?_iff : ∀ m, dataPorts value bridge = .ok m → ∀ port bridge,
    m.get? port = some bridge ↔ ∃ entry ∈ entries value, Assigns entry bridge port
  eq_byRight : ∀ m, dataPorts value bridge = .ok m → m = byRight value
  perm : ∀ other, (entries other).Perm (entries value) →
    (dataPorts other bridge).toOption = (dataPorts value bridge).toOption

theorem readsAssignments_of_exists_mem {value : String}
    (h : ∃ entry ∈ entries value, ':' ∈ entry) (bridge : String) :
    ReadsAssignments value bridge where
  fails_iff := by
    simp only [exists_eq_error_iff, ne_eq, dataPorts_eq_ok_iff h, AssignOnce]
    constructor
    · intro hnone
      by_contra hneither
      push Not at hneither
      exact hnone _ ⟨hneither.1, hneither.2, rfl⟩
    · intro hbad m ⟨hsides, honce, _⟩
      rcases hbad with ⟨entry, hentry, hlacks⟩ | ⟨e, he, f, hf, _, _, _, hbridge, hother, hne⟩
      · exact hsides entry hentry hlacks
      · exact hne (honce e he f hf _ _ _ hbridge hother)
  get?_iff m hm port bridge := by
    obtain ⟨-, honce, rfl⟩ := (dataPorts_eq_ok_iff h).mp hm
    exact get?_byRight_eq_some_iff honce
  eq_byRight m hm := ((dataPorts_eq_ok_iff h).mp hm).2.2
  perm other hperm := by
    have hother : ∃ entry ∈ entries other, ':' ∈ entry := by simpa only [hperm.mem_iff] using h
    refine Option.ext fun m => ?_
    simp only [toOption_eq_some_iff, dataPorts_eq_ok_iff h, dataPorts_eq_ok_iff hother, AssignOnce,
      hperm.mem_iff]
    refine and_congr_right fun _ => and_congr_right fun honce => ?_
    rw [byRight_perm honce hperm]

/-- A text of data ports without entries is the empty map. One whose entries have no colons puts the
first of them on the given bridge. Any other is read exactly if no entry lacks a side of its first
colon and no port is given to two bridges, and then has exactly the ports of its entries, which is
what the plain reading by the right side gives, whatever their order. -/
theorem dataPorts_characterized (value bridge : String) :
    (entries value = [] → dataPorts value bridge = .ok .empty) ∧
      (∀ first rest, entries value = first :: rest → (∀ entry ∈ entries value, ':' ∉ entry) →
        (dataPorts value bridge).map (·.entries) = .ok [(String.ofList first, bridge)]) ∧
      ((∃ entry ∈ entries value, ':' ∈ entry) → ReadsAssignments value bridge) := by
  refine ⟨fun h => dataPorts_of_entries_eq_nil h bridge, ?_,
    fun h => readsAssignments_of_exists_mem h bridge⟩
  intro first rest h hbare
  rw [dataPorts_of_forall_not_mem h hbare]
  rfl

/-- An entry that is repeated, with colons in its port, beside one without a colon. -/
theorem dataPorts_characterized_repeated :
    dataPorts "br:00:16 eth9 br:00:16" "br-data" = .ok (byRight "br:00:16 eth9 br:00:16") ∧
      (byRight "br:00:16 eth9 br:00:16").get? "00:16" = some "br" := by
  have hok : dataPorts "br:00:16 eth9 br:00:16" "br-data" =
      .ok (byRight "br:00:16 eth9 br:00:16") := by decide +kernel
  have hmem : "br:00:16".toList ∈ entries "br:00:16 eth9 br:00:16" := by decide +kernel
  have hreads := (dataPorts_characterized "br:00:16 eth9 br:00:16" "br-data").2.2
    ⟨_, hmem, by decide +kernel⟩
  exact ⟨hok, (hreads.get?_iff _ hok "00:16" "br").mpr ⟨_, hmem, by decide +kernel⟩⟩

end BundleCheck.ProviderMapping
