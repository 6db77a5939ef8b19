import BundleCheck.Proofs.Except
import BundleCheck.Yaml.Json

/-! # Reading JSON

A reader goes through a JSON text from left to right and keeps a stack of the collections that are
open. What is written for texts, truth values and collections of them is read back by it. -/

namespace BundleCheck.Yaml.Json

/-! ## The reader -/

/-- An open collection with what it holds so far, the last part first, and the key of the entry
whose value comes next. -/
inductive Frame
  | items (done : List Value)
  | entries (done : Mapping)
  | entry (done : Mapping) (key : Value)

inductive Mode
  | between
  | word (rest : List Char) (v : Value)
  | text (done : List Char)
  | escape (done : List Char)
  | code (done : List Char) (digits : Nat) (value : Nat)

/-- What was read so far: the collections that are open, the innermost one first, and the value
before the next separator. -/
structure Reader where
  frames : List Frame := []
  value? : Option Value := none
  mode : Mode := .between

/-- The characters that stand for others behind a backslash. -/
def escapes : List (Char × Char) :=
  [('"', '"'), ('\\', '\\'), ('/', '/'), ('b', '\x08'), ('f', '\x0c'), ('n', '\n'), ('r', '\r'),
    ('t', '\t')]

def hexDigit? (c : Char) : Option Nat :=
  "0123456789abcdef".toList.findIdx? (· == c.toLower)

namespace Reader

def endPart (r : Reader) : Option Reader :=
  match r.frames, r.value? with
  | .items done :: frames, some v => some { frames := .items (v :: done) :: frames }
  | .entry done key :: frames, some v =>
      some { frames := .entries ((key, v) :: done) :: frames }
  | _, _ => none

def endKey (r : Reader) : Option Reader :=
  match r.frames, r.value? with
  | .entries done :: frames, some (.string key) =>
      some { frames := .entry done (.string key) :: frames }
  | _, _ => none

def endSequence (r : Reader) : Option Reader :=
  match r.frames, r.value? with
  | .items [] :: frames, none => some { frames, value? := some (.sequence []) }
  | .items done :: frames, some v =>
      some { frames, value? := some (.sequence (v :: done).reverse) }
  | _, _ => none

def endMapping (r : Reader) : Option Reader :=
  match r.frames, r.value? with
  | .entries [] :: frames, none => some { frames, value? := some (.mapping []) }
  | .entry done key :: frames, some v =>
      some { frames, value? := some (.mapping ((key, v) :: done).reverse) }
  | _, _ => none

def beginValue (r : Reader) (c : Char) : Option Reader :=
  if c = '[' then some { frames := .items [] :: r.frames }
  else if c = '\x7b' then some { frames := .entries [] :: r.frames }
  else if c = '"' then some { r with mode := .text [] }
  else if c = 't' then some { r with mode := .word ['r', 'u', 'e'] (.bool true) }
  else if c = 'f' then some { r with mode := .word ['a', 'l', 's', 'e'] (.bool false) }
  else if c = 'n' then some { r with mode := .word ['u', 'l', 'l'] .null }
  else none

def stepBetween (r : Reader) (c : Char) : Option Reader :=
  if c = ' ' ∨ c = '\n' ∨ c = '\r' ∨ c = '\t' then some r
  else if c = ',' then r.endPart
  else if c = ':' then r.endKey
  else if c = ']' then r.endSequence
  else if c = '\x7d' then r.endMapping
  else if r.value?.isNone then r.beginValue c
  else none

def step (r : Reader) (c : Char) : Option Reader :=
  match r.mode with
  | .between => r.stepBetween c
  | .word [] _ => none
  | .word [d] v => if c = d then some { frames := r.frames, value? := some v } else none
  | .word (d :: rest) v => if c = d then some { r with mode := .word rest v } else none
  | .text done =>
      if c = '"' then
        some { frames := r.frames, value? := some (.string (String.ofList done.reverse)) }
      else if c = '\\' then some { r with mode := .escape done }
      else if c.toNat < 0x20 then none
      else some { r with mode := .text (c :: done) }
  | .escape done =>
      if c = 'u' then some { r with mode := .code done 0 0 }
      else (escapes.lookup c).map fun d => { r with mode := .text (d :: done) }
  | .code done digits value => do
      let value := 16 * value + (← hexDigit? c)
      if digits < 3 then some { r with mode := .code done (digits + 1) value }
      else if value.isValidChar then some { r with mode := .text (Char.ofNat value :: done) }
      else none

def run (r : Reader) (cs : List Char) : Option Reader :=
  cs.foldlM step r

/-- The value that was read, if nothing is left open. -/
def result? (r : Reader) : Option Value :=
  match r.frames, r.mode with
  | [], .between => r.value?
  | _, _ => none

end Reader

/-- The value that a JSON text stands for. Numbers, and characters written as pairs of codes, are
not read. -/
def read? (text : String) : Option Value :=
  (Reader.run {} text.toList).bind Reader.result?

example : read? "[\"\\u0001\\n\", [], null]" =
    some (.sequence [.string "\x01\n", .sequence [], .null]) := by rfl

example : read? "[true,]" = none := by rfl

/-! ## Reading what was written -/

namespace Reader

variable {frames : List Frame} {v? : Option Value} {done : List Char}

theorem run_append (r : Reader) (cs ds : List Char) :
    r.run (cs ++ ds) = (r.run cs).bind fun r => r.run ds :=
  List.foldlM_append ..

theorem run_cons (r : Reader) (c : Char) (cs : List Char) :
    r.run (c :: cs) = (r.step c).bind fun r => r.run cs :=
  List.foldlM_cons ..

theorem run_newLine (level : Nat) :
    run ⟨frames, v?, .between⟩ (newLine level) = some ⟨frames, v?, .between⟩ := by
  have hblank : ∀ n, run ⟨frames, v?, .between⟩ (List.replicate n ' ') =
      some ⟨frames, v?, .between⟩ := by
    intro n
    induction n with
    | zero => rfl
    | succ n ih =>
        rw [List.replicate_succ, run_cons]
        exact ih
  rw [newLine, run_cons]
  exact hblank _

/-- A character below `0x20` is read back from its four digits. -/
theorem run_code {n : Nat} (hn : n < 0x20) :
    run ⟨frames, v?, .text done⟩ ('\\' :: 'u' :: '0' :: '0' ::
      (if n < 0x10 then '0' :: Nat.toDigits 16 n else Nat.toDigits 16 n)) =
        some ⟨frames, v?, .text (Char.ofNat n :: done)⟩ := by
  interval_cases n <;> rfl

theorem run_escaped {c d : Char} (h : (d, c) ∈ escapes) :
    run ⟨frames, v?, .text done⟩ ['\\', d] = some ⟨frames, v?, .text (c :: done)⟩ := by
  fin_cases h <;> rfl

theorem run_stringChar (c : Char) :
    run ⟨frames, v?, .text done⟩ (stringChar c) = some ⟨frames, v?, .text (c :: done)⟩ := by
  have hcode : ∀ {n : Nat}, (c.toNat == n) = true → c = Char.ofNat n := fun h => by
    rw [← eq_of_beq h, Char.ofNat_toNat]
  have heq : ∀ {d : Char}, (c == d) = true → c = d := eq_of_beq
  -- Quotes and backslashes, five characters with letters, other controls, and the rest.
  fun_cases stringChar c with
  | case1 h =>
      obtain h | h := Bool.or_eq_true_iff.mp h <;> exact run_escaped (by simp [escapes, heq h])
  | case2 _ _ h => exact run_escaped (by rw [hcode h]; decide)
  | case3 _ _ _ h => exact run_escaped (by rw [hcode h]; decide)
  | case4 _ _ _ _ h => exact run_escaped (by rw [heq h]; decide)
  | case5 _ _ _ _ _ h => exact run_escaped (by rw [heq h]; decide)
  | case6 _ _ _ _ _ _ h => exact run_escaped (by rw [heq h]; decide)
  | case7 _ _ _ _ _ _ _ h =>
      have hchar : Char.ofNat c.toNat = c := Char.ofNat_toNat c
      exact (run_code h).trans (by rw [hchar])
  | case8 _ hmark _ _ _ _ _ h =>
      obtain ⟨hquote, hslash⟩ : c ≠ '"' ∧ c ≠ '\\' := by simpa using hmark
      have hlow : 0x20 ≤ c.toNat := Nat.not_lt.mp h
      rw [run_cons, step]
      simp [hquote, hslash, hlow, run]

end Reader

/-- The text is read as the value, whatever it stands in. -/
def Reads (cs : List Char) (v : Value) : Prop :=
  ∀ frames, Reader.run ⟨frames, none, .between⟩ cs = some ⟨frames, some v, .between⟩

/-- A text that is a line of its own stands for its value. -/
theorem read?_of_reads {cs : List Char} {v : Value} (h : Reads cs v) :
    read? (String.ofList cs ++ "\n") = some v := by
  rw [read?, String.toList_append, String.toList_ofList, Reader.run_append, h []]
  rfl

theorem reads_bool (b : Bool) : Reads (bool b) (.bool b) := by
  cases b <;> exact fun frames => rfl

theorem reads_string (s : String) : Reads (string s.toList) (.string s) := by
  intro frames
  have hchars : ∀ (cs done : List Char),
      Reader.run ⟨frames, none, .text done⟩ (cs.flatMap stringChar) =
        some ⟨frames, none, .text (cs.reverse ++ done)⟩ := by
    intro cs
    induction cs with
    | nil => exact fun done => rfl
    | cons c cs ih =>
        intro done
        rw [List.flatMap_cons, Reader.run_append, Reader.run_stringChar, Option.bind_some, ih]
        simp
  rw [string, List.cons_append, Reader.run_cons]
  change Reader.run ⟨frames, none, .text []⟩ _ = _
  rw [Reader.run_append, hchars, Option.bind_some, Reader.run_cons]
  simp [Reader.step, Reader.run]

/-- The parts of a collection are read one after the other. Before a part, the open collections are
`before` the parts that are done; after it, they are `after` them and this part. -/
theorem run_bracketed {α : Type} {opening closing : Char} {frames : List Frame}
    (before : List α → List Frame) (after : List α → α → List Frame) (last : α → Value)
    (whole : List α → Value) {IsPart : List Char → α → Prop}
    (hopen : Reader.step ⟨frames, none, .between⟩ opening = some ⟨before [], none, .between⟩)
    (hpart : ∀ part x, IsPart part x → ∀ done,
      Reader.run ⟨before done, none, .between⟩ part =
        some ⟨after done x, some (last x), .between⟩)
    (hcomma : ∀ done x, Reader.step ⟨after done x, some (last x), .between⟩ ',' =
      some ⟨before (x :: done), none, .between⟩)
    (hempty : Reader.step ⟨before [], none, .between⟩ closing =
      some ⟨frames, some (whole []), .between⟩)
    (hclose : ∀ done x, Reader.step ⟨after done x, some (last x), .between⟩ closing =
      some ⟨frames, some (whole (x :: done).reverse), .between⟩)
    (level : Nat) {parts : List (List Char)} {xs : List α} (h : List.Forall₂ IsPart parts xs) :
    Reader.run ⟨frames, none, .between⟩ (bracketed opening closing level parts) =
      some ⟨frames, some (whole xs), .between⟩ := by
  have hline : ∀ {part x}, IsPart part x → ∀ done rest,
      Reader.run ⟨before done, none, .between⟩ (newLine (level + 1) ++ (part ++ rest)) =
        Reader.run ⟨after done x, some (last x), .between⟩ rest := by
    intro part x hx done rest
    rw [Reader.run_append, Reader.run_newLine, Option.bind_some, Reader.run_append,
      hpart part x hx, Option.bind_some]
  have hrest : ∀ {parts xs}, List.Forall₂ IsPart parts xs → ∀ done x,
      Reader.run ⟨after done x, some (last x), .between⟩
        (parts.flatMap (fun part => ',' :: (newLine (level + 1) ++ part)) ++
          (newLine level ++ [closing])) =
        some ⟨frames, some (whole ((x :: done).reverse ++ xs)), .between⟩ := by
    intro parts xs h
    induction h with
    | nil =>
        intro done x
        rw [List.flatMap_nil, List.nil_append, Reader.run_append, Reader.run_newLine,
          Option.bind_some, Reader.run_cons, hclose, List.append_nil]
        rfl
    | cons hy _ ih =>
        intro done x
        rw [List.flatMap_cons, List.append_assoc, List.cons_append, Reader.run_cons, hcomma,
          Option.bind_some, List.append_assoc, hline hy, ih]
        simp
  cases h with
  | nil =>
      rw [bracketed, Reader.run_cons, hopen, Option.bind_some, Reader.run_cons, hempty]
      rfl
  | cons hx hxs =>
      dsimp only [bracketed]
      rw [List.append_assoc, List.append_assoc, List.cons_append, Reader.run_cons, hopen,
        Option.bind_some, List.append_assoc, hline hx, hrest hxs]
      rfl

theorem reads_sequence (level : Nat) {parts : List (List Char)} {xs : List Value}
    (h : List.Forall₂ Reads parts xs) :
    Reads (bracketed '[' ']' level parts) (.sequence xs) := by
  intro frames
  refine run_bracketed (fun done => .items done :: frames) (fun done _ => .items done :: frames) id
    .sequence rfl (fun part x hx done => hx _) (fun done x => rfl) rfl (fun done x => ?_) level h
  cases done <;> rfl

/-- The text is that of an entry whose key is a text. -/
def ReadsEntry (cs : List Char) (e : Value × Value) : Prop :=
  ∃ s text, e.1 = .string s ∧ cs = entry (string s.toList) text ∧ Reads text e.2

theorem reads_mapping (level : Nat) {parts : List (List Char)} {es : Mapping}
    (h : List.Forall₂ ReadsEntry parts es) :
    Reads (bracketed '\x7b' '\x7d' level parts) (.mapping es) := by
  intro frames
  refine run_bracketed (fun done => .entries done :: frames)
    (fun done e => .entry done e.1 :: frames) Prod.snd .mapping rfl (fun part e hpart done => ?_)
    (fun done e => rfl) rfl (fun done e => rfl) level h
  obtain ⟨s, text, hkey, rfl, htext⟩ := hpart
  rw [entry, Reader.run_append, reads_string, Option.bind_some, hkey]
  exact htext _

/-! ## Plain values -/

/-- A value without numbers and tags whose keys are texts. -/
inductive IsPlain : Value → Prop
  | null : IsPlain .null
  | bool (b : Bool) : IsPlain (.bool b)
  | string (s : String) : IsPlain (.string s)
  | sequence {xs : List Value} (h : ∀ x ∈ xs, IsPlain x) : IsPlain (.sequence xs)
  | mapping {es : Mapping} (hkeys : ∀ e ∈ es, ∃ s, e.1 = .string s) (h : ∀ e ∈ es, IsPlain e.2) :
      IsPlain (.mapping es)

theorem items_eq_mapM (level : Nat) (xs : List Value) : items level xs = xs.mapM (value level) := by
  induction xs with
  | nil => rfl
  | cons x xs ih => rw [items, ih, List.mapM_cons]

theorem entries_eq_mapM (level : Nat) (es : Mapping) :
    entries level es = es.mapM fun e => do return entry (← key e.1) (← value level e.2) := by
  induction es with
  | nil => rfl
  | cons e es ih => rw [entries, ih, List.mapM_cons]; simp only [bind_assoc, pure_bind]

/-- A plain value has a text, which is read as the value. -/
theorem IsPlain.exists_value {v : Value} (h : IsPlain v) (level : Nat) :
    ∃ text, value level v = .ok text ∧ Reads text v := by
  induction h generalizing level with
  | null => exact ⟨_, rfl, fun frames => rfl⟩
  | bool b => exact ⟨_, rfl, reads_bool b⟩
  | string s => exact ⟨_, rfl, reads_string s⟩
  | sequence _ ih =>
      obtain ⟨parts, hparts, hreads⟩ := exists_mapM_forall₂ fun x hx => ih x hx (level + 1)
      refine ⟨_, ?_, reads_sequence level hreads⟩
      rw [value, items_eq_mapM, hparts]
      rfl
  | @mapping es hkeys _ ih =>
      have hentries : ∀ e ∈ es, ∃ part, (do return entry (← key e.1) (← value (level + 1) e.2)) =
          (.ok part : Except JsonError _) ∧ ReadsEntry part e := by
        intro e he
        obtain ⟨s, hs⟩ := hkeys e he
        obtain ⟨text, htext, hreads⟩ := ih e he (level + 1)
        exact ⟨_, by rw [hs, htext]; rfl, s, text, hs, rfl, hreads⟩
      obtain ⟨parts, hparts, hreads⟩ := exists_mapM_forall₂ hentries
      refine ⟨_, ?_, reads_mapping level hreads⟩
      rw [value, entries_eq_mapM, hparts]
      rfl

/-- A plain value is written as a line, and reading the line gives the value. -/
theorem IsPlain.read?_writeJson {v : Value} (h : IsPlain v) :
    ∃ text, v.writeJson = .ok text ∧ read? (text ++ "\n") = some v := by
  obtain ⟨cs, hcs, hreads⟩ := h.exists_value 0
  exact ⟨String.ofList cs, by rw [Value.writeJson, hcs]; rfl, read?_of_reads hreads⟩

end BundleCheck.Yaml.Json
