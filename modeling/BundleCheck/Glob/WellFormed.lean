import BundleCheck.Glob.Token

/-! # Well-formed patterns

Some sequences of tokens have no sensible meaning: two boundaries of path components in a row,
two wildcards for many characters in a row, or bounds that no number satisfies. What stands
next to a token inside brackets is also what stands next to the brackets. -/

namespace BundleCheck.Glob

namespace Token

/-! ## Kinds of token -/

/-- The token stands between path components. -/
def isBoundary : Token → Bool
  | .separator => true
  | .tree _ => true
  | _ => false

def isSeparator : Token → Bool
  | .separator => true
  | _ => false

def isTree : Token → Bool
  | .tree _ => true
  | _ => false

def isMany : Token → Bool
  | .many => true
  | _ => false

/-- A path that begins with the token is absolute. -/
def isRoot : Token → Bool
  | .separator => true
  | .tree rooted => rooted
  | _ => false

/-! ## First and last tokens -/

mutual

/-- The token, or the first one in its brackets, satisfies `p`. -/
def begins (p : Token → Bool) : Token → Bool
  | .alternatives branches => p (.alternatives branches) || anyBegins p branches
  | .repeated body least most => p (.repeated body least most) || headBegins p body
  | t => p t

def headBegins (p : Token → Bool) : List Token → Bool
  | [] => false
  | t :: _ => begins p t

def anyBegins (p : Token → Bool) : List (List Token) → Bool
  | [] => false
  | branch :: rest => headBegins p branch || anyBegins p rest

end

mutual

/-- The token, or the last one in its brackets, satisfies `p`. -/
def ends (p : Token → Bool) : Token → Bool
  | .alternatives branches => p (.alternatives branches) || anyEnds p branches
  | .repeated body least most => p (.repeated body least most) || lastEnds p body
  | t => p t

def lastEnds (p : Token → Bool) : List Token → Bool
  | [] => false
  | [t] => ends p t
  | _ :: rest => lastEnds p rest

def anyEnds (p : Token → Bool) : List (List Token) → Bool
  | [] => false
  | branch :: rest => lastEnds p branch || anyEnds p rest

end

end Token

open Token

/-! ## Bracketed sequences -/

/-- The tokens before and after a pair of brackets. -/
structure Context where
  left : Option Token := none
  right : Option Token := none

/-- The context of brackets inside others: what is not inside is outside. -/
def Context.within (outer : Context) (left right : Option Token) : Context :=
  ⟨left <|> outer.left, right <|> outer.right⟩

/-- A boundary or a wildcard for many characters meets another one across a bracket. -/
def clashes (context : Context) (first last : Token) (single : Bool) : Bool :=
  let afterBoundary := context.left.any (ends isBoundary)
  let beforeBoundary := context.right.any (begins isBoundary)
  (first.isSeparator && afterBoundary) || (last.isSeparator && beforeBoundary) ||
  (single && first.isTree) ||
  (first.isTree && afterBoundary) || (last.isTree && beforeBoundary) ||
  (first.isMany && context.left.any (ends isMany)) ||
  (last.isMany && context.right.any (begins isMany))

/-- A branch begins with a root where no other branch has to. -/
def branchClashes (context : Context) (first : Token) : Bool :=
  context.left.isNone && first.isRoot

/-- Rounds of a repetition clash with each other, or it may leave out the root. -/
def roundsClash (context : Context) (first last : Token) (single : Bool) (least : Nat) : Bool :=
  (context.left.isNone && least == 0 && first.isRoot) ||
  (if single then first.isSeparator || first.isMany else first.isBoundary && last.isBoundary)

/-- Some number of rounds satisfies the bounds, and one of them is not zero. -/
def satisfiable (least : Nat) (most : Option Nat) : Bool :=
  most.all fun most => least ≤ most && most != 0

def boundariesApart : List Token → Bool
  | t :: u :: rest => !(t.isBoundary && u.isBoundary) && boundariesApart (u :: rest)
  | _ => true

/-! ## Size -/

/-- The number of bytes from which a fixed text is too long. -/
def sizeLimit : Nat := Text.wordSize 16

mutual

/-- The size of what a token matches, if that is fixed. -/
def size? : Token → Option Nat
  | .literal c _ => some c.utf8Size
  | .separator => some 1
  | .alternatives branches => commonSize? branches
  | .repeated body least most =>
      if most == some least then (totalSize? body).map (· * least) else none
  | _ => none

def totalSize? : List Token → Option Nat
  | [] => some 0
  | t :: rest =>
      match size? t, totalSize? rest with
      | some m, some n => some (m + n)
      | _, _ => none

def commonSize? : List (List Token) → Option Nat
  | [] => none
  | [branch] => totalSize? branch
  | branch :: rest =>
      match totalSize? branch, commonSize? rest with
      | some m, some n => if m == n then some m else none
      | _, _ => none

end

/-! ## Patterns -/

mutual

def isWellFormed (context : Context) : Token → Bool
  | .alternatives branches => areBranches context branches
  | .repeated body least most =>
      satisfiable least most && ((size? (.repeated body least most)).all (· < sizeLimit)) &&
      (match body.head?, body.getLast? with
        | some first, some last =>
            let single := body.length == 1
            !clashes context first last single && !roundsClash context first last single least
        | _, _ => true) &&
      boundariesApart body && areWellFormed context none body
  | _ => true

/-- Well-formed tokens of a sequence; `previous` stands before it. -/
def areWellFormed (outer : Context) (previous : Option Token) : List Token → Bool
  | [] => true
  | t :: rest =>
      isWellFormed (outer.within previous rest.head?) t && areWellFormed outer (some t) rest

def areBranches (context : Context) : List (List Token) → Bool
  | [] => true
  | branch :: rest =>
      (match branch.head?, branch.getLast? with
        | some first, some last =>
            !clashes context first last (branch.length == 1) && !branchClashes context first
        | _, _ => true) &&
      boundariesApart branch && areWellFormed context none branch && areBranches context rest

end

def wellFormed (tokens : List Token) : Bool :=
  boundariesApart tokens && areWellFormed {} none tokens

end BundleCheck.Glob
