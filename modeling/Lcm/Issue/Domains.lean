import Lcm.Platform

/-!
# Text of ACME orders

Normalisation and validation of the DNS names of an order, and the one-line reason of a
failed one. Texts are taken apart as lists of characters, so that the functions compute.
-/

namespace Lcm.Issue

variable (P : Platform)

/-- `invalid`: a client-safe rejection naming the field. -/
def invalid (field message : String) : Err := .invalid field message

def hasPrefix (s p : String) : Bool := p.toList.isPrefixOf s.toList

def hasSuffix (s p : String) : Bool := p.toList.isSuffixOf s.toList

def contains (s p : String) : Bool := s.toList.tails.any fun t => p.toList.isPrefixOf t

/-- Keep the first occurrence of each name and drop empty ones. -/
def distinctNames (names : List String) : List String :=
  names.foldl (fun out d => if d ≠ "" ∧ d ∉ out then out ++ [d] else out) []

def normaliseDomains (names : List String) : List String :=
  distinctNames (names.map fun d => P.toLower (P.trimSpace d))

/-- `strings.TrimSuffix(d, ".")`. -/
def trimDot (d : String) : String :=
  match d.toList.reverse with
  | '.' :: cs => String.ofList cs.reverse
  | _ => d

/-- `strings.Split(s, ".")`. -/
def splitDots : List Char → List (List Char)
  | [] => [[]]
  | c :: cs =>
    if c = '.' then [] :: splitDots cs
    else match splitDots cs with
      | [] => [[c]]
      | l :: ls => (c :: l) :: ls

def maxDomains : Nat := 100

def labelChar (c : Char) : Bool := ('a' ≤ c && c ≤ 'z') || ('0' ≤ c && c ≤ '9') || c == '-'

/-- `labelProblem`: what is wrong with a label, or the empty text. -/
def labelProblem (l : List Char) : String :=
  if l = [] then "has an empty label"
  else if l = ['*'] then "may only use a wildcard as its whole first label (*.example.org)"
  else if (String.ofList l).utf8ByteSize > 63 then "has a label longer than 63 characters"
  else if l.head? = some '-' ∨ l.getLast? = some '-' then
    "has a label starting or ending with a hyphen"
  else match l.find? fun c => !labelChar c with
    | none => ""
    | some c =>
      if c = '*' then "may only use a wildcard as its whole first label (*.example.org)"
      else "contains a character other than letters, digits and hyphens"

/-- `strings.TrimPrefix(d, "*.")`. -/
def trimWildcard : List Char → List Char
  | '*' :: '.' :: cs => cs
  | cs => cs

def domainProblem (d : String) : String :=
  if d.utf8ByteSize > 253 then "is longer than 253 characters"
  else
    let labels := splitDots (trimWildcard d.toList)
    if labels.length < 2 then "needs at least two labels (e.g. example.org)"
    else ((labels.map labelProblem).find? fun m => m ≠ "").getD ""

/-- The text after the first dot, if there is one. -/
def afterDot : List Char → Option (List Char)
  | [] => none
  | c :: cs => if c = '.' then some cs else afterDot cs

/-- The wildcard of the order that already covers the name. -/
def coveredBy (names : List String) (d : String) : Option String :=
  match afterDot d.toList with
  | none => none
  | some parent =>
    if !hasPrefix d "*." ∧ ("*." ++ String.ofList parent) ∈ names then some (String.ofList parent)
    else none

def validateACMEDomains (domains : List String) : Except Err (List String) :=
  let names := distinctNames (domains.map fun d => trimDot (P.toLower (P.trimSpace d)))
  if names.length = 0 then .error (invalid "domains" "at least one DNS domain is required")
  else if names.length > maxDomains then
    .error (invalid "domains" ("at most " ++ toString maxDomains ++ " domains per order"))
  else match names.find? fun d => domainProblem d ≠ "" with
    | some d => .error (invalid "domains" ("domain \"" ++ d ++ "\" " ++ domainProblem d))
    | none =>
      match names.find? fun d => (coveredBy names d).isSome with
      | some d => .error (invalid "domains" ("domain \"" ++ d ++
          "\" is already covered by the wildcard \"*." ++ (coveredBy names d).getD "" ++
          "\"; remove one of them"))
      | none => .ok names

def isSpace (c : Char) : Bool :=
  c.toNat ∈ [0x09, 0x0a, 0x0b, 0x0c, 0x0d, 0x20, 0x85, 0xa0, 0x1680, 0x2028, 0x2029, 0x202f,
    0x205f, 0x3000] || (0x2000 ≤ c.toNat && c.toNat ≤ 0x200a)

def fields : List Char → List (List Char)
  | [] => []
  | c :: cs =>
    if isSpace c then fields cs
    else match cs, fields cs with
      | [], fs => [c] :: fs
      | c' :: _, fs =>
        if isSpace c' then [c] :: fs
        else match fs with
          | [] => [[c]]
          | f :: fs => (c :: f) :: fs

/-- `maxFailReason`, in runes. -/
def maxFailReason : Nat := 500

/-- `FailReason`: the error on a single line, bounded. -/
def failReason (e : Err) : String :=
  let oneLine := e.text.toList.flatMap fun c => if c = '\n' then [';', ' '] else [c]
  String.ofList ((List.intercalate [' '] (fields oneLine)).take maxFailReason)

end Lcm.Issue
