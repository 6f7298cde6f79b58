import TopdeskMcp.Lib.Hex
import Mathlib.Data.List.Infix
import Mathlib.Tactic.Common

/-!
# The tokens of Rust source text

Tokens with their text, as far as it takes to tell code from comments and literals. A list of
tokens is `Lexed` when each is well formed and ends where it is: nothing that follows it would
still be part of it. Prefixes of literals other than raw strings, suffixes and raw identifiers
are words of their own.

Which characters past ASCII may be in an identifier is a parameter (`xid`).
-/

namespace Rust

/-- Between the quotes of a string. What follows the first character of an escape is read like
other characters. -/
inductive StringItem where
  | plain (c : Char)
  | escape (c : Char)
  deriving DecidableEq

inductive CharBody where
  | plain (c : Char)
  | escape (c : Char)
  | hex (high low : Char)
  | unicode (digits : List Char)
  deriving DecidableEq

inductive RawPrefix where
  | r
  | br
  | cr
  deriving DecidableEq

inductive Token where
  | lineComment (body : List Char)
  | blockComment (body : List Char)
  | string (items : List StringItem)
  | rawString (start : RawPrefix) (hashes : Nat) (body : List Char)
  | char (body : CharBody)
  | lifetime (name : List Char)
  /-- An identifier, a keyword or a number. -/
  | word (name : List Char)
  | other (c : Char)
  deriving DecidableEq

/-! ## Text -/

def StringItem.text : StringItem → List Char
  | .plain c => [c]
  | .escape c => ['\\', c]

def CharBody.text : CharBody → List Char
  | .plain c => [c]
  | .escape c => ['\\', c]
  | .hex high low => ['\\', 'x', high, low]
  | .unicode digits => '\\' :: 'u' :: '{' :: digits ++ ['}']

def RawPrefix.text : RawPrefix → List Char
  | .r => ['r']
  | .br => ['b', 'r']
  | .cr => ['c', 'r']

/-- What ends a raw string. -/
def terminator (hashes : Nat) : List Char := '"' :: List.replicate hashes '#'

def Token.text : Token → List Char
  | .lineComment body => '/' :: '/' :: body
  | .blockComment body => '/' :: '*' :: body ++ ['*', '/']
  | .string items => '"' :: items.flatMap StringItem.text ++ ['"']
  | .rawString start hashes body =>
      start.text ++ List.replicate hashes '#' ++ '"' :: body ++ terminator hashes
  | .char body => '\'' :: body.text ++ ['\'']
  | .lifetime name => '\'' :: name
  | .word name => name
  | .other c => [c]

def textOf (tokens : List Token) : List Char := tokens.flatMap Token.text

@[simp] theorem textOf_nil : textOf [] = [] := rfl

@[simp] theorem textOf_cons (token : Token) (tokens : List Token) :
    textOf (token :: tokens) = token.text ++ textOf tokens := rfl

@[simp] theorem textOf_append (front back : List Token) :
    textOf (front ++ back) = textOf front ++ textOf back := List.flatMap_append

/-! ## Well-formedness -/

/-- The body of a block comment: what opens a comment in it is closed in it. -/
inductive Nested : List Char → Prop where
  | nil : Nested []
  | char {c : Char} {body : List Char} (hopen : c = '/' → (body ++ ['*']).head? ≠ some '*')
      (hclose : c = '*' → body.head? ≠ some '/') (h : Nested body) : Nested (c :: body)
  | nest {inner body : List Char} (hinner : Nested inner) (h : Nested body) :
      Nested ('/' :: '*' :: inner ++ '*' :: '/' :: body)

def StringItem.WellFormed : StringItem → Prop
  | .plain c => c ≠ '"' ∧ c ≠ '\\'
  | .escape _ => True

def isHexDigit (c : Char) : Bool := (Hex.value c).isSome

def CharBody.WellFormed : CharBody → Prop
  | .plain c => c ≠ '\'' ∧ c ≠ '\\' ∧ c ≠ '\n'
  | .escape c => c ∈ ['n', 'r', 't', '\\', '0', '\'', '"']
  | .hex high low => isHexDigit high ∧ isHexDigit low
  | .unicode digits => ∀ c ∈ digits, isHexDigit c ∨ c = '_'

section

variable (xid : Char → Bool)

def isIdent (c : Char) : Bool :=
  c.isAlphanum || c = '_' || (127 < c.toNat && xid c)

def Token.WellFormed : Token → Prop
  | .lineComment body => '\n' ∉ body
  | .blockComment body => Nested body
  | .string items => ∀ item ∈ items, item.WellFormed
  | .rawString _ hashes body => ¬ terminator hashes <:+: body
  | .char body => body.WellFormed
  | .lifetime name => name ≠ [] ∧ ∀ c ∈ name, isIdent xid c
  | .word name => name ≠ [] ∧ ∀ c ∈ name, isIdent xid c
  | .other c => c ≠ '"' ∧ c ≠ '\'' ∧ ¬ isIdent xid c

/-- The token ends where `rest` begins. -/
def Token.Ends (rest : List Char) : Token → Prop
  | .lineComment _ => ∀ c ∈ rest.head?, c = '\n'
  | .lifetime _ => ∀ c ∈ rest.head?, ¬ isIdent xid c ∧ c ≠ '\''
  | .word _ => ∀ c ∈ rest.head?, ¬ isIdent xid c
  | .other c => c = '/' → ∀ d ∈ rest.head?, d ≠ '/' ∧ d ≠ '*'
  | .blockComment _ | .string _ | .rawString _ _ _ | .char _ => True

/-- A word is admitted directly before a string, also `r`, which Rust reads together with the string
as a raw one. -/
inductive Lexed : List Token → Prop where
  | nil : Lexed []
  | cons {token : Token} {tokens : List Token} (hwell : token.WellFormed xid)
      (hends : token.Ends xid (textOf tokens)) (h : Lexed tokens) : Lexed (token :: tokens)

end

end Rust
