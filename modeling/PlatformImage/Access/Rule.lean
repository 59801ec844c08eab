import PlatformImage.Access.Pattern
/-! Access rules: which types of an entry may be used. The first rule whose
pattern matches the path of a type decides about it. -/
namespace PlatformImage.Access

inductive Kind where
  | accessible
  | discouraged
  | nonAccessible
  deriving DecidableEq, Repr

namespace Kind

/-- The kind as the phrase that goes between the type and the entry. -/
def phrase : Kind → String
  | .accessible => "allowed"
  | .discouraged => "discouraged"
  | .nonAccessible => "not accessible"

end Kind

structure Rule where
  pattern : String
  kind : Kind
  deriving DecidableEq, Repr

def Rule.matches (r : Rule) (typePath : String) : Bool := pathMatches r.pattern typePath

/-- A rule held against a type that an entry supplied. -/
structure Restriction where
  rule : Rule
  entryName : String
  deriving DecidableEq, Repr

namespace Restriction

def isForbidden (r : Restriction) : Bool := r.rule.kind == .nonAccessible

def message (r : Restriction) : String :=
  "access to '" ++ r.rule.pattern ++ "' is " ++ r.rule.kind.phrase ++ " by " ++ r.entryName

end Restriction

/-- The rules of an entry, in order, and the name the entry goes by in a
    restriction. -/
structure RuleSet where
  rules : List Rule
  entryName : String
  deriving DecidableEq, Repr

namespace RuleSet

def isEmpty (rs : RuleSet) : Bool := rs.rules.isEmpty

/-- The rule that decides about a type path. -/
def decisive? (rs : RuleSet) (typePath : String) : Option Rule :=
  rs.rules.find? (·.matches typePath)

/-- The restriction on a type: that of the decisive rule, unless it says that
    the type is accessible. -/
def restriction? (rs : RuleSet) (typePath : String) : Option Restriction :=
  match rs.decisive? typePath with
  | none => none
  | some rule => if rule.kind = .accessible then none else some ⟨rule, rs.entryName⟩

end RuleSet

end PlatformImage.Access
