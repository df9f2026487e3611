import Gatehouse.Json.Codec

/-!
# Kinds of tokens and of accounts

A token is issued to an administrator or to a system. The kind decides the table of its record, whose name also starts
the token's id.
-/

namespace Gatehouse

/-- The kind of account that a token was issued to. -/
inductive TokenKind where
  | admin
  | system
deriving DecidableEq

namespace TokenKind

/-- Every kind, in the order in which records are restored. -/
def all : List TokenKind := [.admin, .system]

/-- The table of the records; also what comes before the colon of an id. -/
def table : TokenKind → String
  | .admin => "admin_access_tokens"
  | .system => "system_access_tokens"

/-- The short name of a kind. -/
def label : TokenKind → String
  | .admin => "admin"
  | .system => "system"

/-- What comes before the first colon of an id, if it has one. -/
def tableOf? (id : String) : Option String :=
  if ':' ∈ id.toList then some (String.ofList (id.toList.takeWhile (· ≠ ':'))) else none

/-- The kind whose table an id names. -/
def ofId? (id : String) : Option TokenKind := do
  let table ← tableOf? id
  all.find? fun k => k.table = table

/-- The names of the kinds in stored records. -/
def names : List (String × TokenKind) := all.map fun k => (k.label, k)

end TokenKind

instance : Json.ToJson TokenKind := ⟨fun k => .text k.label⟩
instance : Json.FromJson TokenKind := ⟨Json.Scanner.choice TokenKind.names⟩

/-- The type of account that a token names in its claims. -/
inductive AccountType where
  | admin
  | system
deriving DecidableEq

namespace AccountType

/-- Every type of account. -/
def all : List AccountType := [.admin, .system]

/-- The name of a type of account. -/
def label : AccountType → String
  | .admin => "admin"
  | .system => "system"

/-- The names of the types of account. -/
def names : List (String × AccountType) := all.map fun t => (t.label, t)

/-- The type of account of a name. -/
def ofName? (name : String) : Option AccountType := names.lookup name

end AccountType

instance : Json.ToJson AccountType := ⟨fun t => .text t.label⟩
instance : Json.FromJson AccountType := ⟨Json.Scanner.choice AccountType.names⟩

end Gatehouse
