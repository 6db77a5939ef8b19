import BundleCheck.Load
import BundleCheck.Proofs.Bundle.RoundTrip
import BundleCheck.Proofs.Yaml.Records

/-! # Shapes of bundle documents

One bundle can be written in several shapes. What may be changed in a document at one place is
stated for machines, for applications and for the sections of a bundle; a document is decoded alike
however many of these changes are made to it. -/

namespace BundleCheck

open Yaml Yaml.Source

/-! ## Texts that may be numbers -/

def scalarText? : Value → Option String
  | .string s => some s
  | .number (.int n) => some (toString n)
  | _ => none

theorem scalarText?_eq_some_iff {v : Value} {s : String} :
    scalarText? v = some s ↔ v = .string s ∨ ∃ n, v = .number (.int n) ∧ toString n = s := by
  unfold scalarText?
  split <;> simp_all

theorem readScalarText_of_scalarText? {v : Value} {s : String} (h : scalarText? v = some s) :
    readScalarText v = Except.ok (ε := Mismatch) s := by
  obtain rfl | ⟨n, rfl, rfl⟩ := scalarText?_eq_some_iff.mp h <;> rfl

theorem MachineId.read_congr {v v' : Value} {s s' : String} (h : scalarText? v = some s)
    (h' : scalarText? v' = some s') (htrim : Text.trimmed s = Text.trimmed s') :
    (MachineId.read v : Except Mismatch MachineId) = MachineId.read v' := by
  have htrim' : Text.trim s.toList = Text.trim s'.toList := String.ofList_injective htrim
  have hid : MachineId.ofText s = MachineId.ofText s' := MachineId.ext htrim
  rw [MachineId.read, MachineId.read, readScalarText_of_scalarText? h,
    readScalarText_of_scalarText? h', ok_bind, ok_bind, htrim', hid]
  rfl

/-! ## Placements -/

/-- One directive is written as a list, or an item of a list with the same text. -/
inductive PlacementsReshaped : Value → Value → Prop
  | one {v : Value} {s : String} (h : scalarText? v = some s) :
      PlacementsReshaped v (.sequence [v])
  | item (before after : List Value) {x x' : Value} {s : String} (h : scalarText? x = some s)
      (h' : scalarText? x' = some s) :
      PlacementsReshaped (.sequence (before ++ x :: after)) (.sequence (before ++ x' :: after))

theorem readPlacements_reshaped {v v' : Value} (h : PlacementsReshaped v v') :
    (readPlacements v : Except Mismatch (List String)) = readPlacements v' := by
  cases h with
  | @one v s h =>
      have hlist : readPlacements (Value.sequence [v]) = Except.ok (ε := Mismatch) [s] := by
        change [v].mapM readScalarText = _
        rw [List.mapM_cons, readScalarText_of_scalarText? h]
        rfl
      rw [hlist]
      obtain rfl | ⟨n, rfl, rfl⟩ := scalarText?_eq_some_iff.mp h <;> rfl
  | item before after h h' =>
      change (before ++ _ :: after).mapM readScalarText = (before ++ _ :: after).mapM readScalarText
      rw [List.mapM_append, List.mapM_append, List.mapM_cons, List.mapM_cons,
        readScalarText_of_scalarText? h, readScalarText_of_scalarText? h']

/-! ## Machines -/

/-- A value that has entries is not null. -/
theorem optional_of_entries? {α : Type} {read : Value → Except Mismatch α} {collection v : Value}
    {es : Mapping} (h : v.entries? = some es) :
    optional read collection v = (read v).map some := by
  cases v with
  | null => cases h
  | _ => rfl

theorem Machine.eq_take_of_readField {collection part : Value} {a a' : Machine}
    {field : MachineField}
    (h : (Machine.readField collection a field part : Except Mismatch Machine) = .ok a') :
    a' = a'.take a field := by
  cases field
  all_goals
    obtain ⟨x, -, hx⟩ := bind_eq_ok_iff.mp h
    cases hx
    rfl

/-- The fields of a machine are read from its entries, whatever tags these stand under. -/
theorem Machine.read_eq {v : Value} {es : Mapping} (h : v.entries? = some es) :
    (Machine.read v : Except Mismatch Machine) =
      readFields MachineField.ofName? MachineField.name (Machine.readField Value.null)
        (fun b _ _ => .ok b) [] {} es := by
  have hfield : (Machine.readField v : Machine → MachineField → Value → Except Mismatch Machine) =
      Machine.readField .null := by
    funext a field part
    cases field <;> rfl
  rw [Machine.read, entries_of_entries? h, ok_bind, hfield, readEntries_eq_readFields]

/-- A machine with a null for a field that it leaves out. -/
def MachineReshaped (v v' : Value) : Prop :=
  ∃ field, InEntries (NullAdded (fieldOf? MachineField.ofName?) field) v v'

theorem Machine.read_reshaped {v v' : Value} (h : MachineReshaped v v') :
    (Machine.read v : Except Mismatch Machine) = Machine.read v' := by
  obtain ⟨field, es, es', hes, hnull, rfl⟩ := h
  rw [Machine.read_eq hes, Machine.read_eq (entries?_withEntries v es')]
  refine readFields_nullAdded Machine.take_comm (fun _ _ _ _ => Machine.eq_take_of_readField) ?_ ?_
    ?_ hnull
  · intro a
    cases field <;> rfl
  · rintro a a' name part ha h
    cases h
    exact ha
  · cases field <;> rfl

/-- An entry of the machines with another spelling of its key, or another shape of its body. -/
inductive MachineEntryReshaped : Value × Value → Value × Value → Prop
  | key {k k' v : Value} {s s' : String} (h : scalarText? k = some s)
      (h' : scalarText? k' = some s') (htrim : Text.trimmed s = Text.trimmed s') :
      MachineEntryReshaped (k, v) (k', v)
  | empty (k : Value) : MachineEntryReshaped (k, .null) (k, .mapping [])
  | body {k v v' : Value} (h : MachineReshaped v v') : MachineEntryReshaped (k, v) (k, v')

theorem MachineEntryReshaped.read_eq {e e' : Value × Value} (h : MachineEntryReshaped e e') :
    (MachineId.read e.1 : Except Mismatch MachineId) = MachineId.read e'.1 ∧
      (optional Machine.read .null e.2).map (·.getD {}) =
        (optional Machine.read .null e'.2 : Except Mismatch _).map (·.getD {}) := by
  cases h with
  | key h h' htrim => exact ⟨MachineId.read_congr h h' htrim, rfl⟩
  | empty k => exact ⟨rfl, rfl⟩
  | body h =>
      have hread := Machine.read_reshaped h
      obtain ⟨field, es, es', hes, -, rfl⟩ := h
      refine ⟨rfl, ?_⟩
      rw [optional_of_entries? hes, optional_of_entries? (entries?_withEntries _ es'), hread]

theorem readMachines_reshaped {v v' : Value} (h : InEntries (Replaced MachineEntryReshaped) v v') :
    (readMachines v : Except Mismatch _) = readMachines v' := by
  refine uniqueMap_inEntries (optional Machine.read)
    (fun m : SortedMap MachineId (Option Machine) => m.map fun _ a => a.getD {}) (fun _ => rfl) h ?_
  rintro _ _ ⟨before, after, hentry⟩
  obtain ⟨hkey, hbody⟩ := hentry.read_eq
  rw [readUnique_map, readUnique_map, readUnique_replaced hkey hbody]

/-! ## Applications -/

theorem Application.eq_take_of_readField {collection part : Value}
    {a a' : Option String × Application} {field : ApplicationField}
    (h : (Application.readField collection a field part : Except Mismatch _) = .ok a') :
    a' = Application.take a' a field := by
  obtain ⟨charm, app⟩ := a
  cases field
  all_goals
    obtain ⟨x, -, hx⟩ := bind_eq_ok_iff.mp h
    cases hx
    rfl

/-- An application is complete if its charm is known. -/
def Application.complete : Option String × Application → Except Mismatch Application
  | (some charm, app) => .ok { app with charm }
  | (none, _) => .error (.missingField "charm")

/-- The fields of an application are read from its entries, whatever tags these stand under. -/
theorem Application.read_eq {v : Value} {es : Mapping} (h : v.entries? = some es) :
    (Application.read v : Except Mismatch Application) =
      readFields ApplicationField.ofName? ApplicationField.name (Application.readField Value.null)
        (fun b _ _ => .ok b) [] (none, { charm := "" }) es >>= Application.complete := by
  have hfield : (Application.readField v :
      _ → ApplicationField → Value → Except Mismatch (Option String × Application)) =
      Application.readField .null := by
    funext a field part
    cases field <;> rfl
  rw [Application.read, entries_of_entries? h, ok_bind, hfield, readEntries_eq_readFields]
  refine bind_congr fun a => ?_
  obtain ⟨charm | charm, app⟩ := a <;> rfl

def ApplicationField.isNullable : ApplicationField → Bool
  | .charm => false
  | .expose => false
  | _ => true

/-- A null is added for an option or a field that is left out, or the placements have another
shape. -/
inductive ApplicationReshaped : Mapping → Mapping → Prop
  | null {field : ApplicationField} (hfield : field.isNullable = true) {es es' : Mapping}
      (h : NullAdded (fieldOf? ApplicationField.ofName?) field es es') : ApplicationReshaped es es'
  | option (before after : Mapping) {k v v' : Value} {name : String}
      (hkey : fieldOf? ApplicationField.ofName? k = some .options)
      (h : InEntries (NullAdded Value.text? name) v v') :
      ApplicationReshaped (before ++ (k, v) :: after) (before ++ (k, v') :: after)
  | placements (before after : Mapping) {k v v' : Value}
      (hkey : fieldOf? ApplicationField.ofName? k = some .placements)
      (h : PlacementsReshaped v v') :
      ApplicationReshaped (before ++ (k, v) :: after) (before ++ (k, v') :: after)

theorem readOptions_nullAdded {v v' : Value} {name : String}
    (h : InEntries (NullAdded Value.text? name) v v') :
    (readOptions v : Except Mismatch _) = readOptions v' := by
  refine uniqueMap_inEntries (optional OptionValue.read) (fun m => m.filterMap fun _ v => v)
    (fun _ => rfl) h ?_
  rintro _ _ ⟨before, after, hkey, hnew⟩
  refine (readUnique_dropped (x := none) rfl (text_of_text? hkey) rfl ?_ rfl).symm
  exact fun e he htext => hnew e he (text?_of_text htext)

theorem Application.read_reshaped {v v' : Value} (h : InEntries ApplicationReshaped v v') :
    (Application.read v : Except Mismatch Application) = Application.read v' := by
  obtain ⟨es, es', hes, hchange, rfl⟩ := h
  rw [Application.read_eq hes, Application.read_eq (entries?_withEntries v es')]
  refine congrArg (· >>= Application.complete) ?_
  cases hchange with
  | @null field hfield _ _ hnull =>
      refine readFields_nullAdded Application.take_comm
        (fun _ _ _ _ => Application.eq_take_of_readField) ?_ ?_ ?_ hnull
      · intro a
        cases field <;> first | rfl | cases hfield
      · rintro a a' name part ha h
        cases h
        exact ha
      · cases field <;> rfl
  | option before after hkey h =>
      refine readFields_replaced hkey (fun a => ?_) [] _
      simp only [Application.readField, readOptions_nullAdded h]
  | placements before after hkey h =>
      refine readFields_replaced hkey (fun a => ?_) [] _
      simp only [Application.readField, readPlacements_reshaped h]

def ApplicationEntryReshaped (e e' : Value × Value) : Prop :=
  e.1 = e'.1 ∧ InEntries ApplicationReshaped e.2 e'.2

theorem readApplications_reshaped {v v' : Value}
    (h : InEntries (Replaced ApplicationEntryReshaped) v v') :
    (readApplications v : Except Mismatch _) = readApplications v' := by
  have hmap : Except.map (id : SortedMap String Application → _) (readApplications v) =
      Except.map (ε := Mismatch) id (readApplications v') := by
    refine uniqueMap_inEntries (fun _ => Application.read) id (fun _ => rfl) h ?_
    rintro _ _ ⟨before, after, hkey, hbody⟩
    rw [readUnique_replaced (congrArg _ hkey) (Application.read_reshaped hbody)]
  simpa only [Except.map_id, id_eq] using hmap

/-! ## Bundles -/

theorem Bundle.eq_take_of_readField {document part : Value} {b b' : Bundle} {field : BundleField}
    (h : (Bundle.readField document b field part : Except Mismatch Bundle) = .ok b') :
    b' = b'.take b field := by
  cases field
  all_goals
    obtain ⟨x, -, hx⟩ := bind_eq_ok_iff.mp h
    cases hx
    rfl

/-- Keeps a section without a meaning of its own. -/
def Bundle.keep (b : Bundle) (name : String) (part : Value) : Except Mismatch Bundle := do
  let value ← sectionValue part
  return { b with extra := b.extra ++ [(name, value)] }

theorem Bundle.readSections_eq_readFields (document : Value) (seen : List BundleField) (b : Bundle)
    (es : Mapping) :
    Bundle.readSections document seen b es =
      readFields BundleField.ofName? BundleField.label (Bundle.readField Value.null) Bundle.keep
        seen b es := by
  have hfield : ∀ b field part, (Bundle.readField document b field part : Except Mismatch Bundle) =
      Bundle.readField .null b field part := by
    intro b field part
    cases field <;> rfl
  induction es generalizing seen b with
  | nil => rfl
  | cons e es ih =>
      rw [Bundle.readSections, readFields]
      simp only [ih, hfield, Bundle.keep, bind_assoc, pure_bind]
      refine bind_congr fun name => ?_
      cases BundleField.ofName? name <;> rfl

/-- A bundle is complete if no key of a section that is kept comes twice. -/
def Bundle.complete (b : Bundle) : Except Mismatch Bundle :=
  match b.sections.repeatedKey? with
  | some key => .error (.duplicateEntry key)
  | none => .ok b

theorem Bundle.decode_eq {d : Value} {es : Mapping} (h : d.entries? = some es) :
    Bundle.decode d =
      readFields BundleField.ofName? BundleField.label (Bundle.readField Value.null) Bundle.keep
        [] {} es >>= Bundle.complete := by
  rw [Bundle.decode, Bundle.read, entries_of_entries? h, ok_bind, Bundle.readSections_eq_readFields]
  refine bind_congr fun b => ?_
  rw [Bundle.complete]
  cases b.sections.repeatedKey? <;> rfl

/-- A null is added for a section that is left out, or a machine or an application has another
shape. -/
inductive BundleReshaped : Mapping → Mapping → Prop
  | null {field : BundleField} {es es' : Mapping}
      (h : NullAdded (fieldOf? BundleField.ofName?) field es es') : BundleReshaped es es'
  | machines (before after : Mapping) {k v v' : Value}
      (hkey : fieldOf? BundleField.ofName? k = some .machines)
      (h : InEntries (Replaced MachineEntryReshaped) v v') :
      BundleReshaped (before ++ (k, v) :: after) (before ++ (k, v') :: after)
  | applications (before after : Mapping) {k v v' : Value}
      (hkey : fieldOf? BundleField.ofName? k = some .applications)
      (h : InEntries (Replaced ApplicationEntryReshaped) v v') :
      BundleReshaped (before ++ (k, v) :: after) (before ++ (k, v') :: after)

theorem Bundle.decode_reshaped {d d' : Value} (h : InEntries BundleReshaped d d') :
    Bundle.decode d = Bundle.decode d' := by
  obtain ⟨es, es', hes, hchange, rfl⟩ := h
  rw [Bundle.decode_eq hes, Bundle.decode_eq (entries?_withEntries d es')]
  refine congrArg (· >>= Bundle.complete) ?_
  cases hchange with
  | @null field _ _ hnull =>
      refine readFields_nullAdded Bundle.take_comm (fun _ _ _ _ => Bundle.eq_take_of_readField)
        ?_ ?_ ?_ hnull
      · intro b
        cases field <;> rfl
      · intro b b' name part hb h
        obtain ⟨value, -, hvalue⟩ := bind_eq_ok_iff.mp h
        cases hvalue
        rw [← hb]
        cases field <;> rfl
      · cases field <;> rfl
  | machines before after hkey h =>
      refine readFields_replaced hkey (fun b => ?_) [] _
      simp only [Bundle.readField, readMachines_reshaped h]
  | applications before after hkey h =>
      refine readFields_replaced hkey (fun b => ?_) [] _
      simp only [Bundle.readField, readApplications_reshaped h]

/-- Documents that differ in any number of changes of shape describe the same bundle, or are refused
for the same reason. -/
theorem decodeDocument_reshaped {d d' : Value}
    (h : Relation.EqvGen (InEntries BundleReshaped) d d') (origin : String) :
    decodeDocument origin d = decodeDocument origin d' := by
  have hdecode : Bundle.decode d = Bundle.decode d' :=
    Setoid.eqvGen_le (s := Setoid.ker Bundle.decode) (fun _ _ => Bundle.decode_reshaped) h
  rw [decodeDocument, decodeDocument, hdecode]

def placedApplication (placements : Value) : Value :=
  .mapping [(.string "charm", .string "x"), (.string "to", placements)]

def shapedBundle (key body placements : Value) (others : Mapping) : Value :=
  .mapping ((.string "machines", .mapping [(key, body)]) ::
    (.string "services", .mapping [(.string "a", placedApplication placements)]) :: others)

/-- A key and a body, placements and a section are changed, one after the other. -/
theorem decodeDocument_reshaped_handWritten :
    (decodeDocument "b.yaml"
      (shapedBundle (.number (.int 0)) .null (.number (.int 0))
        [(.string "relations", .null)])).toOption.map (fun b => (b.machines, b.applications)) =
      some (.insert .empty (.ofText "0") {},
        .insert .empty "a" { charm := "x", placements := ["0"] }) ∧
    decodeDocument "b.yaml"
        (shapedBundle (.number (.int 0)) .null (.number (.int 0)) [(.string "relations", .null)]) =
      decodeDocument "b.yaml"
        (shapedBundle (.string " 0 ") (.mapping []) (.sequence [.number (.int 0)]) []) := by
  refine ⟨by decide +kernel, decodeDocument_reshaped ?_ "b.yaml"⟩
  have hkey : ∀ body placements others, InEntries BundleReshaped
      (shapedBundle (.number (.int 0)) body placements others)
      (shapedBundle (.string " 0 ") body placements others) := fun _ _ _ =>
    ⟨_, _, rfl, .machines [] _ rfl ⟨_, _, rfl, .intro [] [] (.key rfl rfl (by decide)), rfl⟩, rfl⟩
  have hbody : ∀ key placements others, InEntries BundleReshaped
      (shapedBundle key .null placements others)
      (shapedBundle key (.mapping []) placements others) := fun _ _ _ =>
    ⟨_, _, rfl, .machines [] _ rfl ⟨_, _, rfl, .intro [] [] (.empty _), rfl⟩, rfl⟩
  have hentry : ApplicationEntryReshaped (.string "a", placedApplication (.number (.int 0)))
      (.string "a", placedApplication (.sequence [.number (.int 0)])) :=
    ⟨rfl, _, _, rfl, .placements [_] [] rfl (.one rfl), rfl⟩
  have hplacements : ∀ key body others, InEntries BundleReshaped
      (shapedBundle key body (.number (.int 0)) others)
      (shapedBundle key body (.sequence [.number (.int 0)]) others) := fun _ _ _ =>
    ⟨_, _, rfl, .applications [_] _ rfl ⟨_, _, rfl, .intro [] [] hentry, rfl⟩, rfl⟩
  have hsection : ∀ key body placements, InEntries BundleReshaped
      (shapedBundle key body placements [])
      (shapedBundle key body placements [(.string "relations", .null)]) := by
    intro key body placements
    refine ⟨_, _, rfl, .null (.intro [_, _] [] rfl ?_), rfl⟩
    simp [fieldOf?, Value.text?, Value.untagged, BundleField.ofName?]
  exact ((Relation.EqvGen.rel _ _ (hkey _ _ _)).trans _ _ _ (.rel _ _ (hbody _ _ _))).trans _ _ _
    ((Relation.EqvGen.rel _ _ (hplacements _ _ _)).trans _ _ _
      ((Relation.EqvGen.rel _ _ (hsection _ _ _)).symm))

end BundleCheck
