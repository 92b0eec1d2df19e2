import StreamBroker.Text.Character
import StreamBroker.Text.Token

/-!
# Subjects and patterns

A subject names what a message is about: `orders.us.created`.  A pattern is written like a subject
and may use `*` for exactly one token and, as its last token, `>` for one or more tokens.

The comparisons `subjectMatches`, `patternsOverlap` and `patternIsSubset` are defined on every text,
also on one that no check would accept: an unchecked `>` answers for everything after it wherever
it stands.

## Main definitions

* `SubjectError`, `SubjectError.message`: why a text is no subject or pattern, and in what words.
* `checkSubject`, `checkPattern`: the two checks.
* `subjectMatches`: a subject is among those a pattern stands for.
* `patternsOverlap`: some subject is among those both patterns stand for.
* `patternIsSubset`: every subject of one pattern is a subject of the other.
-/

namespace StreamBroker

/-- Why a text is not a subject, or not a pattern. -/
inductive SubjectError where
  | empty
  /-- A token holds white space or control characters. -/
  | invalidCharacters (detail : String)
  /-- A wildcard stands where only literal text is allowed. -/
  | containsWildcards (detail : String)
  /-- A token is not usable as it stands. -/
  | invalidToken (detail : String)
  /-- A wildcard stands at a wrong place of a pattern. -/
  | invalidWildcard (detail : String)
  deriving DecidableEq, Repr

namespace SubjectError

def label : SubjectError → String
  | empty => "Empty"
  | invalidCharacters _ => "InvalidCharacters"
  | containsWildcards _ => "ContainsWildcards"
  | invalidToken _ => "InvalidToken"
  | invalidWildcard _ => "InvalidWildcard"

def message : SubjectError → String
  | empty => "Subject cannot be empty"
  | invalidCharacters detail => "Subject contains invalid characters: " ++ detail
  | containsWildcards detail => "Subject cannot contain wildcards: " ++ detail
  | invalidToken detail => "Invalid token in subject: " ++ detail
  | invalidWildcard detail => "Invalid wildcard usage: " ++ detail

end SubjectError

/-! ## The checks -/

/-- A token without wildcards: not empty, no wildcard character, no blank, no control character;
the first of these that fails is reported. -/
def checkLiteral (t : Token) : Except SubjectError Unit :=
  if t.isEmpty then
    .error (.invalidToken "Empty token between dots")
  else if t.any (fun c => c == '*' || c == '>') then
    .error (.containsWildcards
      ("Token '" ++ t.text ++ "' mixes wildcards with literal characters"))
  else if t.any (fun c => Text.isBlank c || Text.isControl c) then
    .error (.invalidCharacters
      ("Token '" ++ t.text ++ "' contains whitespace or control characters"))
  else .ok ()

/-- A token of a subject: literal, and told apart when it is a whole wildcard. -/
def checkSubjectToken (t : Token) : Except SubjectError Unit :=
  if t == Token.star || t == Token.rest then
    .error (.containsWildcards "Use SubjectPattern for wildcards")
  else checkLiteral t

/-- The tokens of a subject, from left to right. -/
def checkSubjectTokens : List Token → Except SubjectError Unit
  | [] => .ok ()
  | t :: ts => do
    checkSubjectToken t
    checkSubjectTokens ts

/-- The tokens of a pattern, from left to right: a wildcard for the rest must be the last. -/
def checkPatternTokens : List Token → Except SubjectError Unit
  | [] => .ok ()
  | t :: ts =>
    if t == Token.rest then
      if ts.isEmpty then .ok ()
      else .error (.invalidWildcard "'>' wildcard must be the last token")
    else if t == Token.star then checkPatternTokens ts
    else do
      checkLiteral t
      checkPatternTokens ts

/-- Accepts the subjects. -/
def checkSubject (s : String) : Except SubjectError Unit :=
  if s.isEmpty then .error .empty else checkSubjectTokens (tokens s)

/-- Accepts the patterns. -/
def checkPattern (s : String) : Except SubjectError Unit :=
  if s.isEmpty then .error .empty else checkPatternTokens (tokens s)

/-- Whether a text has a token that is a wildcard. -/
def hasWildcards (s : String) : Bool :=
  (tokens s).any fun t => t == Token.star || t == Token.rest

/-! ## The comparisons -/

/-- A list of subject tokens against a list of pattern tokens: the wildcard for the rest needs at
least one token. -/
def tokensMatch : List Token → List Token → Bool
  | [], [] => true
  | _ :: _, [] => false
  | [], _ :: _ => false
  | s :: ss, p :: ps =>
    if p == Token.rest then true
    else if p == Token.star then tokensMatch ss ps
    else if p == s then tokensMatch ss ps
    else false

/-- Two lists of pattern tokens that some list of subject tokens could match. -/
def tokensOverlap : List Token → List Token → Bool
  | [], [] => true
  | _ :: _, [] => false
  | [], _ :: _ => false
  | a :: as, b :: bs =>
    if a == Token.rest || b == Token.rest then true
    else if a == Token.star || b == Token.star then tokensOverlap as bs
    else if a == b then tokensOverlap as bs
    else false

/-- A list of pattern tokens whose every match is a match of the other. -/
def tokensSubset : List Token → List Token → Bool
  | [], [] => true
  | _ :: _, [] => false
  | [], _ :: _ => false
  | a :: as, b :: bs =>
    if b == Token.rest then true
    else if a == Token.rest then false
    else if a == Token.star then
      if b == Token.star then tokensSubset as bs else false
    else if b == Token.star then tokensSubset as bs
    else if a == b then tokensSubset as bs
    else false

/-- Whether a subject is among those that a pattern stands for. -/
def subjectMatches (subject pattern : String) : Bool :=
  tokensMatch (tokens subject) (tokens pattern)

/-- Whether some subject is among those that both patterns stand for. -/
def patternsOverlap (a b : String) : Bool :=
  tokensOverlap (tokens a) (tokens b)

/-- Whether every subject of the first pattern is a subject of the second. -/
def patternIsSubset (sub sup : String) : Bool :=
  tokensSubset (tokens sub) (tokens sup)

end StreamBroker
