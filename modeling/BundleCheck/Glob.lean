import BundleCheck.Glob.WellFormed
import BundleCheck.Text.LetterCase

/-! # Glob patterns

A pattern is matched against a whole text, whose components are separated by slashes. Matching
goes from token to token and keeps all texts that may be left over. -/

namespace BundleCheck

open Text

namespace Glob

/-! ## Remainders -/

/-- The texts that are left when characters which satisfy `p` are taken away. -/
def dropSome (p : Char → Bool) : List Char → List (List Char)
  | [] => [[]]
  | c :: cs => (c :: cs) :: if p c then dropSome p cs else []

/-- The text left after a first character that satisfies `p`. -/
def dropOne (p : Char → Bool) : List Char → List (List Char)
  | [] => []
  | c :: cs => if p c then [cs] else []

def isInTree (c : Char) : Bool :=
  c != '\n'

def isInComponent (c : Char) : Bool :=
  c != '/'

/-- What is left after any number of components, the last one complete. -/
def dropComponents (s : List Char) : List (List Char) :=
  (dropSome isInTree s).flatMap (dropOne (· == '/'))

/-! ## Characters -/

def matchesLiteral (ignoresCase : Bool) (c d : Char) : Bool :=
  if ignoresCase then sameLetter c d else c == d

def inClass (ranges : List (Char × Char)) (code : Nat) : Bool :=
  ranges.any fun range => range.1.toNat ≤ code && code ≤ range.2.toNat

/-- A class matches a character; no class matches a slash. -/
def matchesClass (ignoresCase negated : Bool) (ranges : List (Char × Char)) (c : Char) : Bool :=
  let codes := if ignoresCase then caseVariants c else [c.toNat]
  c != '/' && (codes.any (inClass ranges)) != negated

/-! ## Trees -/

inductive Place
  | only
  | first
  | middle
  | last
  deriving DecidableEq

def Place.of (isFirst isLast : Bool) : Place :=
  match isFirst, isLast with
  | true, true => .only
  | true, false => .first
  | false, false => .middle
  | false, true => .last

def dropInnerTree (s : List Char) : List (List Char) :=
  let inside := dropOne (· == '/') s
  inside ++ inside.flatMap dropComponents

/-- What a tree wildcard leaves; `outer` is the place of the outermost brackets around it. -/
def dropTree (rooted : Bool) (outer : Option Place) (place : Place) (s : List Char) :
    List (List Char) :=
  let slash := dropOne (· == '/') s
  match place with
  | .only => dropSome isInTree s
  | .first =>
      if outer == some .middle || outer == some .last then dropInnerTree s
      else if rooted then
        let inside := slash.flatMap (dropSome isInTree)
        inside ++ inside.flatMap (dropOne (· == '/'))
      else s :: slash ++ dropComponents s
  | .middle => dropInnerTree s
  | .last =>
      if outer == some .first || outer == some .middle then dropInnerTree s
      else s :: slash ++ slash.flatMap (dropSome isInTree)

/-! ## Repetition -/

/-- Repeats a step on remainders, but stops when more rounds would change nothing. -/
def rounds (step : List (List Char) → List (List Char)) :
    Nat → List (List Char) → List (List Char)
  | 0, ss => ss
  | n + 1, ss => rounds step n (step ss)

def upToRounds (step : List (List Char) → List (List Char)) :
    Nat → List (List Char) → List (List Char)
  | 0, ss => ss
  | n + 1, ss => upToRounds step n ((ss ++ step ss).eraseDups)

/-- The number of rounds after which every remainder that a step can reach is reached. -/
def roundsOf (ss : List (List Char)) : Nat :=
  (ss.map List.length).foldl max 0 + 1

def repeatStep (step : List (List Char) → List (List Char)) (least : Nat) (most : Option Nat)
    (ss : List (List Char)) : List (List Char) :=
  let limit := roundsOf ss
  let more := most.elim limit fun most => min (most - least) limit
  upToRounds step more (rounds step (min least limit) ss)

/-! ## Matching -/

/-- Whether letters after the token match in either case; only literals change that. -/
def Token.foldsAfter (folds : Bool) : Token → Bool
  | .literal _ ignoresCase => ignoresCase
  | _ => folds

mutual

/-- What a token leaves of each text. -/
def Token.drop (folds : Bool) (outer : Option Place) (place : Place) :
    Token → List (List Char) → List (List Char)
  | .literal c ignoresCase, ss => ss.flatMap (dropOne (matchesLiteral ignoresCase c))
  | .one, ss => ss.flatMap (dropOne isInComponent)
  | .many, ss => ss.flatMap (dropSome isInComponent)
  | .tree rooted, ss => ss.flatMap (dropTree rooted outer place)
  | .separator, ss => ss.flatMap (dropOne (· == '/'))
  | .oneOf negated ranges, ss => ss.flatMap (dropOne (matchesClass folds negated ranges))
  | .alternatives branches, ss => dropAny folds (outer <|> some place) branches ss
  | .repeated body least most, ss =>
      repeatStep (dropAll folds (outer <|> some place) true body) least most ss

def dropAll (folds : Bool) (outer : Option Place) (isFirst : Bool) :
    List Token → List (List Char) → List (List Char)
  | [], ss => ss
  | t :: rest, ss =>
      dropAll (t.foldsAfter folds) outer false rest
        (t.drop folds outer (Place.of isFirst rest.isEmpty) ss).eraseDups

def dropAny (folds : Bool) (outer : Option Place) :
    List (List Token) → List (List Char) → List (List Char)
  | [], _ => []
  | branch :: rest, ss => dropAll folds outer true branch ss ++ dropAny folds outer rest ss

end

end Glob

structure Glob where
  tokens : List Glob.Token
  tokens_wellFormed : Glob.wellFormed tokens = true

namespace Glob

def parse? (s : String) : Option Glob :=
  match readTokens s.toList with
  | some tokens => if h : wellFormed tokens then some ⟨tokens, h⟩ else none
  | none => none

def isMatch (glob : Glob) (s : String) : Bool :=
  (dropAll false none true glob.tokens [s.toList]).any List.isEmpty

end Glob

end BundleCheck
