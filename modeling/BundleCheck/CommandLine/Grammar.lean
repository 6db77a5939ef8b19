/-! # Grammars of command lines

A grammar lists the options and the places for values that a command line may have. Words are
read from left to right; values are accepted when the next option or place begins, so that of
several faults the first one to be accepted is reported. -/

namespace BundleCheck.CommandLine

/-! ## Faults -/

inductive Stop
  | missingArgument
  | missingCommand
  | unknownArgument
  | unknownCommand
  | invalidValue
  | surplusValue
  | repeatedArgument
  | help
  | version
  | helpForNothing
  deriving DecidableEq

/-- Stopping to show help or the version is no failure. -/
def Stop.exitCode : Stop → Nat
  | .help => 0
  | .version => 0
  | _ => 2

/-! ## Grammars -/

/-- How often an argument may be given, and whether it has a value. -/
inductive Kind
  | flag
  | counter
  | single
  | many
  | help
  | version
  deriving DecidableEq

def Kind.takesValue : Kind → Bool
  | .single => true
  | .many => true
  | _ => false

/-- An option, or a place for a value. -/
structure Argument where
  name : String
  short : Option Char := none
  kind : Kind
  accepts : String → Bool := fun _ => true

/-- What a command line may hold. A command's own arguments have a grammar of their own. -/
structure Grammar where
  options : List Argument
  places : List Argument := []
  required : List String := []
  commands : List String := []

namespace Grammar

def long? (g : Grammar) (name : String) : Option Argument :=
  g.options.find? fun a => a.name == name

def short? (g : Grammar) (c : Char) : Option Argument :=
  g.options.find? fun a => a.short == some c

end Grammar

/-! ## Reading -/

/-- What was read so far: the accepted arguments with their values, the argument whose values
come in, and the places that are still open. -/
structure Progress where
  accepted : List (String × List String) := []
  pending : Option (Argument × List String) := none
  awaitsValue : Bool := false
  places : List Argument
  onlyValues : Bool := false

namespace Progress

def values? (p : Progress) (name : String) : Option (List String) :=
  let found := p.accepted.filter fun e => e.1 == name
  if found.isEmpty then none else some (found.flatMap (·.2))

def count (p : Progress) (name : String) : Nat :=
  p.accepted.countP fun e => e.1 == name

def accept (p : Progress) (a : Argument) (values : List String) : Except Stop Progress :=
  let accepted := p.accepted ++ [(a.name, values)]
  let isRepeated := (p.values? a.name).isSome
  match a.kind with
  | .help => .error .help
  | .version => .error .version
  | .counter => .ok { p with accepted }
  | .flag => if isRepeated then .error .repeatedArgument else .ok { p with accepted }
  | .single =>
      if values.isEmpty then .error .invalidValue
      else if isRepeated then .error .repeatedArgument
      else if values.all a.accepts then .ok { p with accepted }
      else .error .invalidValue
  | .many =>
      if values.isEmpty || !values.all a.accepts then .error .invalidValue
      else .ok { p with accepted }

/-- Accepts the argument whose values came in. -/
def settle (p : Progress) : Except Stop Progress :=
  match p.pending with
  | some (a, values) => accept { p with pending := none, awaitsValue := false } a values
  | none => .ok p

def add (p : Progress) (a : Argument) (values : List String) : Except Stop Progress := do
  (← p.settle).accept a values

def await (p : Progress) (a : Argument) : Except Stop Progress := do
  return { ← p.settle with pending := some (a, []), awaitsValue := true }

/-! ### Words -/

/-- Reads a long option without its hyphens. -/
def readLong (g : Grammar) (p : Progress) (name : String) (value? : Option String) :
    Except Stop Progress :=
  match g.long? name with
  | none => .error .unknownArgument
  | some a =>
      match a.kind.takesValue, value? with
      | true, some value => p.add a [value]
      | true, none => p.await a
      | false, some _ => .error .surplusValue
      | false, none => p.add a []

/-- Reads a row of short options; what follows one that takes a value is its value. -/
def readShort (g : Grammar) (p : Progress) : List Char → Except Stop Progress
  | [] => .ok p
  | c :: rest =>
      match g.short? c with
      | none => .error .unknownArgument
      | some a =>
          if a.kind.takesValue then
            match rest with
            | [] => p.await a
            | '=' :: value => p.add a [String.ofList value]
            | value => p.add a [String.ofList value]
          else do readShort g (← p.add a []) rest

def takeValue (p : Progress) (word : String) : Progress :=
  { p with
    pending := p.pending.map fun e => (e.1, e.2 ++ [word])
    awaitsValue := false }

/-- The next open place takes a value; a place for many values stays open. -/
def fillPlace (g : Grammar) (p : Progress) (word : String) : Except Stop Progress :=
  match p.places with
  | [] =>
      if g.commands.isEmpty || (p.onlyValues && g.commands.contains word) then
        .error .unknownArgument
      else .error .unknownCommand
  | a :: rest =>
      match a.kind, p.pending with
      | .many, some (b, values) =>
          if b.name == a.name then .ok { p with pending := some (a, values ++ [word]) }
          else do return { ← p.settle with pending := some (a, [word]) }
      | .many, none => .ok { p with pending := some (a, [word]) }
      | _, _ => do return { ← p.settle with pending := some (a, [word]), places := rest }

def splitLong (option : List Char) : String × Option String :=
  match option.dropWhile (· != '=') with
  | _ :: value => (String.ofList (option.takeWhile (· != '=')), some (String.ofList value))
  | [] => (String.ofList option, none)

/-- Reads a word that is no command. -/
def readWord (g : Grammar) (p : Progress) (word : String) : Except Stop Progress :=
  if p.onlyValues then fillPlace g p word
  else
    match word.toList with
    | ['-', '-'] => .ok { p with onlyValues := true }
    | '-' :: '-' :: option =>
        let (name, value?) := splitLong option
        readLong g p name value?
    | '-' :: c :: row => readShort g p (c :: row)
    | _ => if p.awaitsValue then .ok (p.takeValue word) else fillPlace g p word

end Progress

/-- A command and the words after it. -/
structure Rest where
  command : String
  words : List String

def readWords (g : Grammar) (p : Progress) : List String → Except Stop (Progress × Option Rest)
  | [] => .ok (p, none)
  | word :: words =>
      if !p.onlyValues && !p.awaitsValue && g.commands.contains word then
        .ok (p, some ⟨word, words⟩)
      else do readWords g (← p.readWord g word) words

/-- Accepts the values of an argument from elsewhere, unless the command line has it. -/
def fallBack (p : Progress) (a : Argument) (value : Option String) : Except Stop Progress :=
  match value with
  | some value => if (p.values? a.name).isSome then .ok p else p.accept a [value]
  | none => .ok p

def checkRequired (g : Grammar) (p : Progress) : Except Stop Unit :=
  if g.required.all fun name => (p.values? name).isSome then .ok ()
  else .error .missingArgument

end BundleCheck.CommandLine
