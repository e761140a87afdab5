import RouteMigration.Text.Basic

set_option autoImplicit false

namespace RouteMigration

namespace Glob

inductive CharacterSet where
  | single (c : Char)
  | range (low high : Char)
  deriving DecidableEq

inductive Token where
  | character (c : Char)
  | anyCharacter
  | anySequence
  | anyComponents
  | within (sets : List CharacterSet)
  | except (sets : List CharacterSet)
  deriving DecidableEq

abbrev Pattern := List Token

inductive PatternFault where
  | wildcards
  | recursiveWildcards
  | invalidRange
  deriving DecidableEq

structure PatternError where
  position : Nat
  fault : PatternFault
  deriving DecidableEq

def PatternFault.describe : PatternFault → Text
  | .wildcards => "wildcards are either regular `*` or recursive `**`".toList
  | .recursiveWildcards => "recursive wildcards must form a single path component".toList
  | .invalidRange => "invalid range pattern".toList

def PatternError.describe (error : PatternError) : Text :=
  "Pattern syntax error near position ".toList ++ Text.ofNat error.position ++ ": ".toList ++
    error.fault.describe

def characterSets : Text → List CharacterSet
  | low :: '-' :: high :: rest => .range low high :: characterSets rest
  | c :: rest => .single c :: characterSets rest
  | [] => []

/-- What the head of a pattern adds, and how many of the characters that follow belong to it. -/
structure Reading where
  token : Option Token
  following : Nat

-- A second `**` right after a first one adds nothing, unless the first one opens the pattern.
def componentsToken (done : List Token) : Option Token :=
  match done with
  | .anyComponents :: _ :: _ => none
  | _ => some .anyComponents

def readStars (position : Nat) (before : Option Char) (done : List Token) (rest : Text) :
    Except PatternError Reading :=
  match (rest.takeWhile (· == '*')).length with
  | 0 => .ok { token := some .anySequence, following := 0 }
  | 1 =>
    if before = none ∨ before = some '/' then
      match rest.drop 1 with
      | [] => .ok { token := componentsToken done, following := 1 }
      | '/' :: _ => .ok { token := componentsToken done, following := 2 }
      | _ => .error { position := position + 2, fault := .recursiveWildcards }
    else .error { position := position - 1, fault := .recursiveWildcards }
  | _ => .error { position := position + 2, fault := .wildcards }

-- The first character of a set may be a closing bracket.
def readBracket (position : Nat) (rest : Text) : Except PatternError Reading :=
  let closed (first : Char) (later : Text) (make : List CharacterSet → Token) (skipped : Nat) :=
    let inside := later.takeWhile (· != ']')
    if inside.length < later.length then
      .ok { token := some (make (characterSets (first :: inside))),
            following := skipped + inside.length + 2 }
    else .error { position, fault := .invalidRange }
  match rest with
  | '!' :: first :: later => closed first later .except 1
  | '!' :: _ => .error { position, fault := .invalidRange }
  | first :: later => closed first later .within 0
  | [] => .error { position, fault := .invalidRange }

def readToken (position : Nat) (before : Option Char) (done : List Token) (c : Char) (rest : Text) :
    Except PatternError Reading :=
  match c with
  | '?' => .ok { token := some .anyCharacter, following := 0 }
  | '*' => readStars position before done rest
  | '[' => readBracket position rest
  | _ => .ok { token := some (.character c), following := 0 }

def readTokens (position : Nat) (before : Option Char) (done : List Token) :
    Nat → Text → Except PatternError Pattern
  | _, [] => .ok done.reverse
  | passed + 1, c :: rest => readTokens (position + 1) (some c) done passed rest
  | 0, c :: rest =>
    match readToken position before done c rest with
    | .error error => .error error
    | .ok reading =>
      readTokens (position + 1) (some c) (reading.token.toList ++ done) reading.following rest

def Pattern.ofText (text : Text) : Except PatternError Pattern :=
  readTokens 0 none [] 0 text

end Glob

end RouteMigration
