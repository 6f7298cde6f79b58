import TopdeskMcp.Lib.Hex
import Mathlib.Tactic.Common

/-!
# Socket addresses

The text of an IP address, and the parser of socket addresses:

* the text of a version 4 address is read back (`readIpv4Addr_text`), so with a port after it
  the parser has the address and the port (`parse_ipv4`);
* the text of a version 6 address has a colon after its first group (`Ipv6Addr.text_eq`). As
  the parser wants such an address in brackets, it is never one of a socket address by itself
  (`parse_ipv6`).
-/

namespace Net

structure Ipv4Addr where
  a : UInt8
  b : UInt8
  c : UInt8
  d : UInt8
  deriving DecidableEq

structure Ipv6Addr where
  segments : Vector UInt16 8
  deriving DecidableEq

inductive IpAddr where
  | v4 (ip : Ipv4Addr)
  | v6 (ip : Ipv6Addr)
  deriving DecidableEq

inductive SocketAddr where
  | v4 (ip : Ipv4Addr) (port : UInt16)
  | v6 (ip : Ipv6Addr) (port : UInt16) (flowinfo scopeId : UInt32)
  deriving DecidableEq

def SocketAddr.new (ip : IpAddr) (port : UInt16) : SocketAddr :=
  match ip with
  | .v4 ip => .v4 ip port
  | .v6 ip => .v6 ip port 0 0

/-! ## Text -/

def Ipv4Addr.text (ip : Ipv4Addr) : List Char :=
  Nat.toDigits 10 ip.a.toNat ++ '.' :: (Nat.toDigits 10 ip.b.toNat ++ '.' ::
    (Nat.toDigits 10 ip.c.toNat ++ '.' :: Nat.toDigits 10 ip.d.toNat))

/-- The address that is mapped to a version 6 address. -/
def Ipv6Addr.toIpv4Mapped (ip : Ipv6Addr) : Option Ipv4Addr :=
  match ip.segments.toList with
  | [0, 0, 0, 0, 0, 0xffff, high, low] =>
      some ⟨(high >>> 8).toUInt8, high.toUInt8, (low >>> 8).toUInt8, low.toUInt8⟩
  | _ => none

structure Span where
  start : Nat := 0
  len : Nat := 0

/-- The first of the longest runs of zeroes among the segments from `i`. -/
def longestZeroes : List UInt16 → Nat → Span → Span → Span
  | [], _, _, longest => longest
  | segment :: rest, i, current, longest =>
      if segment = 0 then
        let current := if current.len = 0 then ⟨i, 1⟩ else ⟨current.start, current.len + 1⟩
        longestZeroes rest (i + 1) current (if longest.len < current.len then current else longest)
      else
        longestZeroes rest (i + 1) {} longest

/-- Groups with colons between them. -/
def groupsText : List UInt16 → List Char
  | [] => []
  | [group] => Nat.toDigits 16 group.toNat
  | group :: rest => Nat.toDigits 16 group.toNat ++ ':' :: groupsText rest

def Ipv6Addr.text (ip : Ipv6Addr) : List Char :=
  match ip.toIpv4Mapped with
  | some mapped => "::ffff:".toList ++ mapped.text
  | none =>
      let zeroes := longestZeroes ip.segments.toList 0 {} {}
      if 1 < zeroes.len then
        groupsText (ip.segments.toList.take zeroes.start) ++ ':' :: ':' ::
          groupsText (ip.segments.toList.drop (zeroes.start + zeroes.len))
      else groupsText ip.segments.toList

def IpAddr.text : IpAddr → List Char
  | .v4 ip => ip.text
  | .v6 ip => ip.text

/-! ## The parser

A reader returns what it has read and the text that is left.
-/

def toDigit (radix : Nat) (c : Char) : Option Nat := (Hex.value c).filter (· < radix)

def isDigit (radix : Nat) (c : Char) : Bool := (toDigit radix c).isSome

def ofDigits (radix : Nat) (digits : List Char) : Nat :=
  digits.foldl (fun n c => n * radix + (toDigit radix c).getD 0) 0

/-- The digits up to the first other character, as a number below `bound`. -/
def readNumber (radix : Nat) (maxDigits : Option Nat) (allowZeroPrefix : Bool) (bound : Nat)
    (text : List Char) : Option (Nat × List Char) :=
  let digits := text.takeWhile (isDigit radix)
  if digits = [] ∨ maxDigits.any (· < digits.length) ∨
      (allowZeroPrefix = false ∧ digits.head? = some '0' ∧ 1 < digits.length) ∨
      bound ≤ ofDigits radix digits then none
  else some (ofDigits radix digits, text.dropWhile (isDigit radix))

def readGivenChar (target : Char) : List Char → Option (List Char)
  | [] => none
  | c :: rest => if c = target then some rest else none

def readOctet (text : List Char) : Option (UInt8 × List Char) :=
  (readNumber 10 (some 3) false UInt8.size text).map fun (n, rest) => (UInt8.ofNat n, rest)

def readIpv4Addr (text : List Char) : Option (Ipv4Addr × List Char) := do
  let (a, text) ← readOctet text
  let text ← readGivenChar '.' text
  let (b, text) ← readOctet text
  let text ← readGivenChar '.' text
  let (c, text) ← readOctet text
  let text ← readGivenChar '.' text
  let (d, text) ← readOctet text
  return (⟨a, b, c, d⟩, text)

/-- At most `left` groups, each but the first after a colon. The last two of them may be written
as an address of version 4, and then the flag is set. -/
def readGroups : Nat → Bool → List Char → List UInt16 × Bool × List Char
  | 0, _, text => ([], false, text)
  | left + 1, first, text =>
      let next := if first then some text else readGivenChar ':' text
      match if 0 < left then next.bind readIpv4Addr else none with
      | some (ip, text) =>
          ([ip.a.toUInt16 <<< 8 ||| ip.b.toUInt16, ip.c.toUInt16 <<< 8 ||| ip.d.toUInt16], true,
            text)
      | none =>
          match next.bind (readNumber 16 (some 4) true UInt16.size) with
          | some (group, text) =>
              let (groups, ipv4, text) := readGroups left false text
              (UInt16.ofNat group :: groups, ipv4, text)
          | none => ([], false, text)

/-- Zeroes stand between the groups before `::` and those after it. -/
def Ipv6Addr.ofGroups (head tail : List UInt16) : Ipv6Addr where
  segments := Vector.ofFn fun i =>
    (head ++ List.replicate (8 - head.length - tail.length) 0 ++ tail).getD i 0

def readIpv6Addr (text : List Char) : Option (Ipv6Addr × List Char) :=
  let (head, headIpv4, text) := readGroups 8 true text
  if head.length = 8 then some (.ofGroups head [], text)
  else if headIpv4 then none
  else do
    let text ← readGivenChar ':' text
    let text ← readGivenChar ':' text
    -- At least one group is left out.
    let (tail, _, text) := readGroups (8 - (head.length + 1)) true text
    return (.ofGroups head tail, text)

def readPort (text : List Char) : Option (UInt16 × List Char) := do
  let text ← readGivenChar ':' text
  let (port, text) ← readNumber 10 none true UInt16.size text
  return (UInt16.ofNat port, text)

def readScopeId (text : List Char) : Option (UInt32 × List Char) := do
  let text ← readGivenChar '%' text
  let (scopeId, text) ← readNumber 10 none true UInt32.size text
  return (UInt32.ofNat scopeId, text)

def readSocketAddrV4 (text : List Char) : Option (SocketAddr × List Char) := do
  let (ip, text) ← readIpv4Addr text
  let (port, text) ← readPort text
  return (.v4 ip port, text)

def readSocketAddrV6 (text : List Char) : Option (SocketAddr × List Char) := do
  let text ← readGivenChar '[' text
  let (ip, text) ← readIpv6Addr text
  let (scopeId, text) := (readScopeId text).getD (0, text)
  let text ← readGivenChar ']' text
  let (port, text) ← readPort text
  return (.v6 ip port 0 scopeId, text)

/-- The whole text is that of a socket address. -/
def SocketAddr.parse (text : List Char) : Option SocketAddr :=
  match (readSocketAddrV4 text).or (readSocketAddrV6 text) with
  | some (addr, []) => some addr
  | _ => none

/-! ## Numbers are read back -/

theorem toDigit_of_isDigit {c : Char} (h : c.isDigit) :
    toDigit 10 c = some (c.toNat - '0'.toNat) := by
  have hle : '0' ≤ c ∧ c ≤ '9' := by
    simpa [Char.isDigit, Char.le_def] using h
  have hlt : c.toNat - '0'.toNat < 10 := by
    have h9 : c.toNat ≤ 57 := hle.2
    have h0 : '0'.toNat = 48 := rfl
    omega
  rw [toDigit, Hex.value, if_pos hle, Option.filter_some, if_pos (decide_eq_true hlt)]

theorem isDigit_of_isDigit {c : Char} (h : c.isDigit) : isDigit 10 c := by
  rw [isDigit, toDigit_of_isDigit h]
  rfl

theorem isDigit_toDigits {n : Nat} {c : Char} (h : c ∈ Nat.toDigits 10 n) : isDigit 10 c :=
  isDigit_of_isDigit (Nat.isDigit_of_mem_toDigits (by omega) (by omega) h)

theorem ofDigits_toDigits (n : Nat) : ofDigits 10 (Nat.toDigits 10 n) = n := by
  have hfold : ∀ (digits : List Char) (m : Nat), (∀ c ∈ digits, c.isDigit) →
      digits.foldl (fun n c => n * 10 + (toDigit 10 c).getD 0) m =
        Nat.ofDigitChars 10 digits m := by
    intro digits
    induction digits with
    | nil => simp
    | cons c digits ih =>
        intro m hall
        rw [List.forall_mem_cons] at hall
        rw [List.foldl_cons, Nat.ofDigitChars_cons, toDigit_of_isDigit hall.1, Option.getD_some,
          ih _ hall.2, Nat.mul_comm]
  rw [ofDigits, hfold _ _ fun c hc => Nat.isDigit_of_mem_toDigits (by omega) (by omega) hc]
  exact Nat.ofDigitChars_ten_toDigits

/-- Only zero is written with a zero in front. -/
theorem eq_zero_of_head {n : Nat} (h : (Nat.toDigits 10 n).head? = some '0') : n = 0 := by
  induction n using Nat.strongRecOn with
  | ind n ih =>
      rw [Nat.toDigits_eq_if (by omega)] at h
      split at h
      · rename_i hlt
        have hall : ∀ d : Fin 10, Nat.digitChar d = '0' → d = 0 := by decide
        simpa using congrArg Fin.val (hall ⟨n, hlt⟩ (by simpa using h))
      · rw [List.head?_append_of_ne_nil _ Nat.toDigits_ne_nil] at h
        have := ih (n / 10) (by omega) h
        omega

/-- The digits end where the text goes on with another character. -/
theorem span_digits {radix : Nat} {digits rest : List Char} (hall : ∀ c ∈ digits, isDigit radix c)
    (hrest : ∀ c ∈ rest.head?, ¬ isDigit radix c) :
    (digits ++ rest).takeWhile (isDigit radix) = digits ∧
      (digits ++ rest).dropWhile (isDigit radix) = rest := by
  rw [List.takeWhile_append_of_pos hall, List.dropWhile_append_of_pos hall]
  cases rest with
  | nil => simp
  | cons c rest =>
      rw [List.takeWhile_cons_of_neg (hrest c rfl), List.dropWhile_cons_of_neg (hrest c rfl)]
      simp

/-- A number is read back up to the first character that is no digit. -/
theorem readNumber_toDigits {n bound : Nat} {maxDigits : Option Nat} {allowZeroPrefix : Bool}
    {rest : List Char} (hbound : n < bound)
    (hmax : ∀ max ∈ maxDigits, (Nat.toDigits 10 n).length ≤ max)
    (hrest : ∀ c ∈ rest.head?, ¬ isDigit 10 c) :
    readNumber 10 maxDigits allowZeroPrefix bound (Nat.toDigits 10 n ++ rest) = some (n, rest) := by
  have hall : ∀ c ∈ Nat.toDigits 10 n, isDigit 10 c := fun c => isDigit_toDigits
  obtain ⟨htake, hdrop⟩ := span_digits hall hrest
  simp only [readNumber, htake, hdrop, ofDigits_toDigits]
  refine if_neg ?_
  rintro (hnil | hlong | ⟨-, hzero, hlength⟩ | hlarge)
  · exact Nat.toDigits_ne_nil hnil
  · cases maxDigits with
    | none => simp at hlong
    | some max =>
        have hle := hmax max rfl
        have hlt : max < (Nat.toDigits 10 n).length := by simpa using hlong
        omega
  · rw [eq_zero_of_head hzero] at hlength
    exact absurd hlength (by decide)
  · omega

theorem readGivenChar_cons (c : Char) (rest : List Char) :
    readGivenChar c (c :: rest) = some rest := by
  rw [readGivenChar, if_pos rfl]

/-! ## Version 4 -/

theorem readOctet_toDigits (n : UInt8) {rest : List Char}
    (hrest : ∀ c ∈ rest.head?, ¬ isDigit 10 c) :
    readOctet (Nat.toDigits 10 n.toNat ++ rest) = some (n, rest) := by
  have hlength : (Nat.toDigits 10 n.toNat).length ≤ 3 := by
    rw [Nat.length_toDigits_le_iff (by omega) (by omega)]
    have := n.toNat_lt
    omega
  rw [readOctet, readNumber_toDigits n.toNat_lt (by simpa using hlength) hrest]
  simp

/-- An address is read back up to a character that is no digit. -/
theorem readIpv4Addr_text (ip : Ipv4Addr) {rest : List Char}
    (hrest : ∀ c ∈ rest.head?, ¬ isDigit 10 c) :
    readIpv4Addr (ip.text ++ rest) = some (ip, rest) := by
  have hdot : ∀ tail : List Char, ∀ c ∈ ('.' :: tail).head?, ¬ isDigit 10 c := by
    intro tail c hc
    obtain rfl : '.' = c := by simpa using hc
    decide
  simp only [Ipv4Addr.text, List.append_assoc, List.cons_append, readIpv4Addr,
    readOctet_toDigits _ (hdot _), readOctet_toDigits _ hrest, readGivenChar_cons,
    Option.bind_eq_bind, Option.bind_some, Option.pure_def]

theorem readPort_toDigits (port : UInt16) :
    readPort (':' :: Nat.toDigits 10 port.toNat) = some (port, []) := by
  have hread : readNumber 10 none true UInt16.size (Nat.toDigits 10 port.toNat ++ []) =
      some (port.toNat, []) := readNumber_toDigits port.toNat_lt (by simp) (by simp)
  rw [List.append_nil] at hread
  simp [readPort, readGivenChar_cons, hread]

theorem parse_ipv4 (ip : Ipv4Addr) (port : UInt16) :
    SocketAddr.parse (ip.text ++ ':' :: Nat.toDigits 10 port.toNat) = some (.v4 ip port) := by
  have hread : readIpv4Addr (ip.text ++ ':' :: Nat.toDigits 10 port.toNat) =
      some (ip, ':' :: Nat.toDigits 10 port.toNat) := by
    refine readIpv4Addr_text ip ?_
    intro c hc
    obtain rfl : ':' = c := by simpa using hc
    decide
  simp [SocketAddr.parse, readSocketAddrV4, hread, readPort_toDigits]

/-! ## Version 6 -/

/-- A digit of a group. -/
theorem value_of_mem_toDigits {n : Nat} {c : Char} (h : c ∈ Nat.toDigits 16 n) :
    (Hex.value c).isSome := by
  induction n using Nat.strongRecOn with
  | ind n ih =>
      have hall : ∀ d : Fin 16, (Hex.value (Nat.digitChar d)).isSome := by decide
      rw [Nat.toDigits_eq_if (by omega)] at h
      split at h
      · rename_i hlt
        obtain rfl := List.mem_singleton.mp h
        exact hall ⟨n, hlt⟩
      · rcases List.mem_append.mp h with hmem | hmem
        · exact ih (n / 16) (by omega) hmem
        · obtain rfl := List.mem_singleton.mp hmem
          exact hall ⟨n % 16, by omega⟩

/-- Digits, perhaps none, and a colon. -/
def Grouped (text : List Char) : Prop :=
  ∃ digits rest, text = digits ++ ':' :: rest ∧ ∀ c ∈ digits, (Hex.value c).isSome

theorem Grouped.append {text : List Char} (h : Grouped text) (rest : List Char) :
    Grouped (text ++ rest) := by
  obtain ⟨digits, tail, rfl, hall⟩ := h
  exact ⟨digits, tail ++ rest, by simp, hall⟩

theorem grouped_groupsText (groups : List UInt16) (rest : List Char) :
    Grouped (groupsText groups ++ ':' :: rest) := by
  match groups with
  | [] => exact ⟨[], rest, rfl, by simp⟩
  | [group] => exact ⟨_, rest, rfl, fun c => value_of_mem_toDigits⟩
  | group :: next :: groups =>
      refine ⟨Nat.toDigits 16 group.toNat, groupsText (next :: groups) ++ ':' :: rest, ?_,
        fun c => value_of_mem_toDigits⟩
      simp [groupsText]

theorem Ipv6Addr.grouped_text (ip : Ipv6Addr) : Grouped ip.text := by
  unfold Ipv6Addr.text
  split
  · exact ⟨[], _, rfl, by simp⟩
  · dsimp only
    split
    · exact grouped_groupsText _ _
    · have hlength : ip.segments.toList.length = 8 := by simp
      match ip.segments.toList, hlength with
      | group :: next :: groups, _ =>
          exact ⟨Nat.toDigits 16 group.toNat, groupsText (next :: groups), rfl,
            fun c => value_of_mem_toDigits⟩

/-- After the decimal digits of a group comes a letter or the colon. -/
theorem readGivenChar_dot_grouped {text : List Char} (h : Grouped text) :
    readGivenChar '.' (text.dropWhile (isDigit 10)) = none := by
  obtain ⟨digits, rest, rfl, hall⟩ := h
  induction digits with
  | nil =>
      have hcolon : ¬ isDigit 10 ':' := by decide
      rw [List.nil_append, List.dropWhile_cons_of_neg hcolon]
      rfl
  | cons c digits ih =>
      rw [List.forall_mem_cons] at hall
      by_cases hdigit : isDigit 10 c
      · rw [List.cons_append, List.dropWhile_cons_of_pos hdigit]
        exact ih hall.2
      · have hdot : c ≠ '.' := by
          rintro rfl
          exact absurd hall.1 (by decide)
        rw [List.cons_append, List.dropWhile_cons_of_neg hdigit, readGivenChar, if_neg hdot]

theorem rest_of_readOctet {text rest : List Char} {n : UInt8}
    (h : readOctet text = some (n, rest)) : rest = text.dropWhile (isDigit 10) := by
  obtain ⟨⟨m, tail⟩, hread, hmap⟩ := Option.map_eq_some_iff.mp h
  simp only [readNumber] at hread
  split at hread
  · simp at hread
  · rw [← (Prod.mk.inj hmap).2, ← (Prod.mk.inj (Option.some.inj hread)).2]

theorem readIpv4Addr_grouped {text : List Char} (h : Grouped text) : readIpv4Addr text = none := by
  unfold readIpv4Addr
  cases hread : readOctet text with
  | none => rfl
  | some octet =>
      have hdot := readGivenChar_dot_grouped h
      rw [← rest_of_readOctet hread] at hdot
      simp [hdot]

theorem readSocketAddrV6_grouped {text : List Char} (h : Grouped text) :
    readSocketAddrV6 text = none := by
  have hbracket : readGivenChar '[' text = none := by
    obtain ⟨digits, rest, rfl, hall⟩ := h
    cases digits with
    | nil => rfl
    | cons c digits =>
        have hne : c ≠ '[' := by
          rintro rfl
          exact absurd (hall '[' List.mem_cons_self) (by decide)
        rw [List.cons_append, readGivenChar, if_neg hne]
  rw [readSocketAddrV6, hbracket]
  rfl

/-- Without brackets. -/
theorem parse_ipv6 (ip : Ipv6Addr) (rest : List Char) :
    SocketAddr.parse (ip.text ++ rest) = none := by
  have hgrouped := ip.grouped_text.append rest
  simp [SocketAddr.parse, readSocketAddrV4, readIpv4Addr_grouped hgrouped,
    readSocketAddrV6_grouped hgrouped]

end Net
