import TopdeskMcp.Lib.Json
import Mathlib.Data.List.Infix

/-!
# Redacting before logging (`core/sanitizer.rs`)

A member whose key looks like that of a secret has its value replaced. Keys are compared in lower
case, and `isSensitiveKey` looks for texts of ASCII in them.
-/

namespace TopdeskMcp.Sanitizer

open Json

def sensitiveKeySubstrings : List String :=
  ["password", "token", "secret", "authorization", "apikey", "api_key", "api-key", "credential"]

/-- `to_lowercase`, as far as a search for ASCII can tell: there is ASCII in the lower case of
ASCII, of the Kelvin sign and of the capital I with a dot, and of no other character. -/
def toLowercase (c : Char) : List Char :=
  if c = Char.ofNat 0x212a then ['k']
  else if c = Char.ofNat 0x130 then ['i', Char.ofNat 0x307]
  else [c.toLower]

def isSensitiveKey (key : String) : Bool :=
  let lower := key.toList.flatMap toLowercase
  sensitiveKeySubstrings.any fun needle => needle.toList <:+: lower

def redacted : Value := .string "[REDACTED]"

mutual

def sanitize : Value → Value
  | .array items => .array (sanitizeItems items)
  | .object members => .object (sanitizeMembers members)
  | other => other

def sanitizeItems : List Value → List Value
  | [] => []
  | item :: items => sanitize item :: sanitizeItems items

def sanitizeMembers : List (String × Value) → List (String × Value)
  | [] => []
  | (key, val) :: members =>
      (key, if isSensitiveKey key then redacted else sanitize val) :: sanitizeMembers members

end

theorem sanitizeItems_eq_map (items : List Value) : sanitizeItems items = items.map sanitize := by
  induction items with
  | nil => rfl
  | cons item items ih => rw [sanitizeItems, ih, List.map_cons]

theorem sanitizeMembers_eq_map (members : List (String × Value)) :
    sanitizeMembers members = members.map fun member =>
      (member.1, if isSensitiveKey member.1 then redacted else sanitize member.2) := by
  induction members with
  | nil => rfl
  | cons member members ih => rw [sanitizeMembers, ih, List.map_cons]

example : isSensitiveKey "X-To\u212aen" = true := by decide

end TopdeskMcp.Sanitizer
