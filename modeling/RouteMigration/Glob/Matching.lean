import RouteMigration.Glob.Pattern

set_option autoImplicit false

namespace RouteMigration

namespace Glob

-- Once the text has run out, no longer stretch for an earlier wildcard can help.
inductive Verdict where
  | matches
  | fails
  | runsOut
  deriving DecidableEq

def Verdict.orElse (first : Verdict) (second : Unit → Verdict) : Verdict :=
  match first with
  | .fails => second ()
  | verdict => verdict

def CharacterSet.holds (c : Char) : CharacterSet → Bool
  | .single expected => c == expected
  | .range low high => low ≤ c && c ≤ high

def Token.admits (c : Char) : Token → Bool
  | .character expected => c == expected
  | .within sets => sets.any (CharacterSet.holds c)
  | .except sets => !sets.any (CharacterSet.holds c)
  | .anyCharacter | .anySequence | .anyComponents => true

def stretch (mayStop : Char → Bool) (following : Text → Verdict) : Text → Verdict
  | [] => following []
  | c :: rest =>
    if mayStop c then (following rest).orElse fun _ => stretch mayStop following rest
    else stretch mayStop following rest

def verdict : Pattern → Text → Verdict
  | [], [] => .matches
  | [], _ :: _ => .fails
  | .anySequence :: following, text =>
    (verdict following text).orElse fun _ => stretch (fun _ => true) (verdict following) text
  | .anyComponents :: following, text =>
    (verdict following text).orElse fun _ => stretch (· == '/') (verdict following) text
  | _ :: _, [] => .runsOut
  | token :: following, c :: rest => if token.admits c then verdict following rest else .fails

def Pattern.matchesText (pattern : Pattern) (text : Text) : Bool :=
  verdict pattern text == .matches

end Glob

end RouteMigration
