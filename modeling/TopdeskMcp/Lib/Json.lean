import TopdeskMcp.Lib.Hex

/-!
# Compact JSON

Writing JSON without whitespace, and reading the objects of strings so written.

* `escapeChar` and `writeString` produce string literals;
* `Value` is a JSON value, a number being kept as the text it is written as, and
  `Value.write` its text;
* `readChars` and `readObject` read a literal and an object of strings off the
  front of a text. Each returns what is left, reads back what the writer wrote,
  and does not look beyond its end (`readObject_append`), so no proper prefix of
  an object is an object.
-/

namespace Json

/-- A JSON value. -/
inductive Value where
  | null
  | bool (value : Bool)
  | number (text : String)
  | string (text : String)
  | array (items : List Value)
  | object (members : List (String × Value))

/-! ## String literals -/

/-- Quotes, backslashes and control characters are escaped. -/
def escapeChar (c : Char) : List Char :=
  if c = '"' then ['\\', '"']
  else if c = '\\' then ['\\', '\\']
  else if c.toNat = 0x08 then ['\\', 'b']
  else if c.toNat = 0x09 then ['\\', 't']
  else if c.toNat = 0x0a then ['\\', 'n']
  else if c.toNat = 0x0c then ['\\', 'f']
  else if c.toNat = 0x0d then ['\\', 'r']
  else if c.toNat < 0x20 then
    ['\\', 'u', '0', '0', Hex.digit (c.toNat / 16), Hex.digit (c.toNat % 16)]
  else [c]

def writeString (chars : List Char) : List Char :=
  '"' :: chars.flatMap escapeChar ++ ['"']

mutual

/-- The text of a value. -/
def Value.write : Value → List Char
  | .null => "null".toList
  | .bool true => "true".toList
  | .bool false => "false".toList
  | .number text => text.toList
  | .string text => writeString text.toList
  | .array items => '[' :: writeItems items ++ [']']
  | .object members => '{' :: writeEntries members ++ ['}']

def writeItems : List Value → List Char
  | [] => []
  | [item] => item.write
  | item :: next :: items => item.write ++ ',' :: writeItems (next :: items)

def writeEntries : List (String × Value) → List Char
  | [] => []
  | [(key, value)] => writeString key.toList ++ ':' :: value.write
  | (key, value) :: next :: members =>
      writeString key.toList ++ ':' :: value.write ++ ',' :: writeEntries (next :: members)

end

/-- The member of an object under a key. -/
def Value.get (v : Value) (key : String) : Option Value :=
  match v with
  | .object members => members.lookup key
  | _ => none

def Value.asArray : Value → Option (List Value)
  | .array items => some items
  | _ => none

def Value.asStr : Value → Option String
  | .string text => some text
  | _ => none

/-- A text, or null. -/
def Value.ofOption : Option String → Value
  | none => .null
  | some text => .string text

theorem Value.asStr_eq_some {value : Value} {text : String} (h : value.asStr = some text) :
    value = .string text := by
  cases value with
  | string => rw [Option.some.inj h]
  | null | bool | number | array | object => simp [Value.asStr] at h

example : (Value.object [("a", .array [.number "1", .null])]).write =
    "\x7b\"a\":[1,null]\x7d".toList := by decide

/-- The character a one-letter escape stands for. -/
def simpleEscape (c : Char) : Option Char :=
  if c = '"' ∨ c = '\\' ∨ c = '/' then some c
  else if c = 'b' then some (Char.ofNat 0x08)
  else if c = 't' then some (Char.ofNat 0x09)
  else if c = 'n' then some (Char.ofNat 0x0a)
  else if c = 'f' then some (Char.ofNat 0x0c)
  else if c = 'r' then some (Char.ofNat 0x0d)
  else none

/-- The character of a `u` escape; a surrogate is none on its own. -/
def unicodeEscape (a b c d : Char) : Option Char :=
  (Hex.value a).bind fun a => (Hex.value b).bind fun b => (Hex.value c).bind fun c =>
    (Hex.value d).bind fun d =>
      let n := ((a * 16 + b) * 16 + c) * 16 + d
      if n.isValidChar then some (Char.ofNat n) else none

/-- The rest of a string literal, after its opening quote. -/
def readChars : List Char → Option (List Char × List Char)
  | [] => none
  | c :: rest =>
      if c = '"' then some ([], rest)
      else if c = '\\' then
        match rest with
        | [] => none
        | e :: rest =>
            if e = 'u' then
              match rest with
              | a :: b :: c :: d :: rest =>
                  (unicodeEscape a b c d).bind fun x =>
                    (readChars rest).map fun p => (x :: p.1, p.2)
              | _ => none
            else (simpleEscape e).bind fun x => (readChars rest).map fun p => (x :: p.1, p.2)
      else if c.toNat < 0x20 then none
      else (readChars rest).map fun p => (c :: p.1, p.2)

theorem unicodeEscape_low {c : Char} (h : c.toNat < 0x20) :
    unicodeEscape '0' '0' (Hex.digit (c.toNat / 16)) (Hex.digit (c.toNat % 16)) = some c := by
  have hzero : Hex.value '0' = some 0 := by decide
  have hhigh := Hex.value_digit (show c.toNat / 16 < 16 by omega)
  have hlow := Hex.value_digit (show c.toNat % 16 < 16 by omega)
  have hsum : ((0 * 16 + 0) * 16 + c.toNat / 16) * 16 + c.toNat % 16 = c.toNat := by omega
  have hvalid : c.toNat.isValidChar := Or.inl (by omega)
  simp only [unicodeEscape, hzero, hhigh, hlow, Option.bind_some, hsum, hvalid, if_true,
    Char.ofNat_toNat]

/-- The three forms of an escaped character. -/
theorem escapeChar_cases (c : Char) :
    (∃ e, e ≠ 'u' ∧ simpleEscape e = some c ∧ escapeChar c = ['\\', e]) ∨
      (∃ w x y z, unicodeEscape w x y z = some c ∧ escapeChar c = ['\\', 'u', w, x, y, z]) ∨
      (c ≠ '"' ∧ c ≠ '\\' ∧ ¬ c.toNat < 0x20 ∧ escapeChar c = [c]) := by
  have hcode : ∀ n, c.toNat = n → c = Char.ofNat n := fun n h => by rw [← h, Char.ofNat_toNat]
  unfold escapeChar
  split_ifs with h₁ h₂ h₃ h₄ h₅ h₆ h₇ h₈
  · exact .inl ⟨'"', by decide, by rw [h₁]; decide, rfl⟩
  · exact .inl ⟨'\\', by decide, by rw [h₂]; decide, rfl⟩
  · exact .inl ⟨'b', by decide, by rw [hcode _ h₃]; decide, rfl⟩
  · exact .inl ⟨'t', by decide, by rw [hcode _ h₄]; decide, rfl⟩
  · exact .inl ⟨'n', by decide, by rw [hcode _ h₅]; decide, rfl⟩
  · exact .inl ⟨'f', by decide, by rw [hcode _ h₆]; decide, rfl⟩
  · exact .inl ⟨'r', by decide, by rw [hcode _ h₇]; decide, rfl⟩
  · exact .inr (.inl ⟨_, _, _, _, unicodeEscape_low h₈, rfl⟩)
  · exact .inr (.inr ⟨h₁, h₂, h₈, rfl⟩)

theorem readChars_quote (rest : List Char) : readChars ('"' :: rest) = some ([], rest) := by
  unfold readChars
  simp

theorem readChars_simple {e c : Char} (hu : e ≠ 'u') (he : simpleEscape e = some c)
    (rest : List Char) :
    readChars ('\\' :: e :: rest) = (readChars rest).map fun p => (c :: p.1, p.2) := by
  rw [readChars.eq_def]
  simp [hu, he]

theorem readChars_unicode {w x y z c : Char} (h : unicodeEscape w x y z = some c)
    (rest : List Char) :
    readChars ('\\' :: 'u' :: w :: x :: y :: z :: rest) =
      (readChars rest).map fun p => (c :: p.1, p.2) := by
  rw [readChars.eq_def]
  simp [h]

theorem readChars_plain {c : Char} (hq : c ≠ '"') (hb : c ≠ '\\') (hctl : ¬ c.toNat < 0x20)
    (rest : List Char) :
    readChars (c :: rest) = (readChars rest).map fun p => (c :: p.1, p.2) := by
  rw [readChars.eq_def]
  simp [hq, hb, hctl]

/-- One escaped character reads as itself. -/
theorem readChars_escapeChar (c : Char) (rest : List Char) :
    readChars (escapeChar c ++ rest) = (readChars rest).map fun p => (c :: p.1, p.2) := by
  rcases escapeChar_cases c with ⟨e, hu, he, hc⟩ | ⟨w, x, y, z, hu, hc⟩ | ⟨hq, hb, hctl, hc⟩
  · rw [hc]
    exact readChars_simple hu he rest
  · rw [hc]
    exact readChars_unicode hu rest
  · rw [hc]
    exact readChars_plain hq hb hctl rest

theorem readChars_escaped (chars rest : List Char) :
    readChars (chars.flatMap escapeChar ++ '"' :: rest) = some (chars, rest) := by
  induction chars with
  | nil => exact readChars_quote rest
  | cons c chars ih => rw [List.flatMap_cons, List.append_assoc, readChars_escapeChar, ih]; rfl

/-- A literal's reader does not look beyond its end. -/
theorem readChars_append {text chars rest : List Char} (h : readChars text = some (chars, rest))
    (more : List Char) : readChars (text ++ more) = some (chars, rest ++ more) := by
  -- each form of a character is read first, and then the rest of the literal
  have hstep : ∀ {c : Char} {text' text chars rest : List Char},
      (∀ {chars rest}, readChars text' = some (chars, rest) →
        readChars (text' ++ more) = some (chars, rest ++ more)) →
      readChars (text ++ more) = (readChars (text' ++ more)).map (fun p => (c :: p.1, p.2)) →
      (readChars text').map (fun p => (c :: p.1, p.2)) = some (chars, rest) →
      readChars (text ++ more) = some (chars, rest ++ more) := by
    intro c text' text chars rest ih htext h
    obtain ⟨p, hp, hpair⟩ := Option.map_eq_some_iff.mp h
    obtain ⟨rfl, rfl⟩ := Prod.mk.inj hpair
    rw [htext, ih hp]
    rfl
  fun_induction readChars text generalizing chars rest with
  | case1 => simp at h
  | case2 => simp_all [readChars_quote]
  | case3 => simp at h
  | case4 w x y z text hb ih =>
      obtain ⟨c, hc, h⟩ := Option.bind_eq_some_iff.mp h
      exact hstep ih (readChars_unicode hc _) h
  | case5 => simp at h
  | case6 e text hu hb ih =>
      obtain ⟨c, hc, h⟩ := Option.bind_eq_some_iff.mp h
      exact hstep ih (readChars_simple hu hc _) h
  | case7 => simp at h
  | case8 c text hq hb hctl ih => exact hstep ih (readChars_plain hq hb hctl _) h

/-! ## Objects of strings -/

def writeMember (member : String × String) : List Char :=
  writeString member.1.toList ++ ':' :: writeString member.2.toList

def writeMembers : List (String × String) → List Char
  | [] => []
  | [member] => writeMember member
  | member :: next :: members => writeMember member ++ ',' :: writeMembers (next :: members)

/-- The text of an object whose values are strings. -/
def writeObject (members : List (String × String)) : List Char :=
  '{' :: writeMembers members ++ ['}']

/-- A string literal at the front of a text. -/
def readString : List Char → Option (String × List Char)
  | '"' :: rest => (readChars rest).map fun p => (String.ofList p.1, p.2)
  | _ => none

def readMember (text : List Char) : Option ((String × String) × List Char) :=
  (readString text).bind fun key =>
    match key.2 with
    | ':' :: rest => (readString rest).map fun value => ((key.1, value.1), value.2)
    | _ => none

/-- The members of a nonempty object and its closing brace; the fuel bounds how
many there are. -/
def readMembers : Nat → List Char → Option (List (String × String) × List Char)
  | 0, _ => none
  | fuel + 1, text =>
      (readMember text).bind fun member =>
        match member.2 with
        | '}' :: rest => some ([member.1], rest)
        | ',' :: rest => (readMembers fuel rest).map fun p => (member.1 :: p.1, p.2)
        | _ => none

def readObject : List Char → Option (List (String × String) × List Char)
  | '{' :: '}' :: rest => some ([], rest)
  | '{' :: rest => readMembers rest.length rest
  | _ => none

/-- A whole text that is one object of strings. -/
def parseObject (text : List Char) : Option (List (String × String)) :=
  match readObject text with
  | some (members, []) => some members
  | _ => none

theorem readString_write (text : String) (rest : List Char) :
    readString (writeString text.toList ++ rest) = some (text, rest) := by
  simp [writeString, readString, readChars_escaped]

theorem readMember_write (member : String × String) (rest : List Char) :
    readMember (writeMember member ++ rest) = some (member, rest) := by
  simp [readMember, writeMember, readString_write]

theorem readMembers_write {members : List (String × String)} (hne : members ≠ [])
    (rest : List Char) (fuel : Nat) (hfuel : members.length ≤ fuel) :
    readMembers fuel (writeMembers members ++ '}' :: rest) = some (members, rest) := by
  induction fuel generalizing members with
  | zero => simp_all
  | succ fuel ih =>
      match members, hne with
      | [member], _ => simp [writeMembers, readMembers, readMember_write]
      | member :: next :: members, _ =>
          have hrest : next :: members ≠ [] := by simp
          have htail := ih hrest (by simpa using hfuel)
          simp [writeMembers, readMembers, readMember_write, htail]

theorem length_le_writeMembers (members : List (String × String)) :
    members.length ≤ (writeMembers members).length := by
  induction members with
  | nil => simp
  | cons member members ih =>
      cases members with
      | nil => simp [writeMembers, writeMember, writeString]
      | cons next members =>
          simp only [writeMembers, List.length_append, List.length_cons] at ih ⊢
          omega

theorem writeMembers_ne_brace {members : List (String × String)} (hne : members ≠ [])
    (rest : List Char) : ∃ c text, writeMembers members ++ '}' :: rest = c :: text ∧ c ≠ '}' := by
  match members, hne with
  | [member], _ => exact ⟨'"', _, by simp [writeMembers, writeMember, writeString]; rfl, by decide⟩
  | member :: next :: members, _ =>
      exact ⟨'"', _, by simp [writeMembers, writeMember, writeString]; rfl, by decide⟩

/-- An object reads back as the members it was written from. -/
theorem readObject_write (members : List (String × String)) (rest : List Char) :
    readObject (writeObject members ++ rest) = some (members, rest) := by
  by_cases hne : members = []
  · subst hne
    simp [writeObject, writeMembers, readObject]
  · -- the first member's quote tells the object from an empty one
    obtain ⟨c, text, htext, hc⟩ := writeMembers_ne_brace hne rest
    have hlen : members.length ≤ (c :: text).length := by
      have := length_le_writeMembers members
      rw [← htext, List.length_append]
      omega
    have hread := readMembers_write hne rest _ hlen
    rw [htext] at hread
    simp only [writeObject, List.cons_append, List.append_assoc, List.nil_append, htext]
    simpa [readObject, hc] using hread

theorem parseObject_write (members : List (String × String)) :
    parseObject (writeObject members) = some members := by
  have h := readObject_write members []
  rw [List.append_nil] at h
  simp [parseObject, h]

theorem readString_append {text rest : List Char} {value : String}
    (h : readString text = some (value, rest)) (more : List Char) :
    readString (text ++ more) = some (value, rest ++ more) := by
  unfold readString at h
  split at h
  · obtain ⟨p, hp, hpair⟩ := Option.map_eq_some_iff.mp h
    obtain ⟨rfl, rfl⟩ := Prod.mk.inj hpair
    simp [readString, readChars_append hp]
  · simp at h

theorem readMember_append {text rest : List Char} {member : String × String}
    (h : readMember text = some (member, rest)) (more : List Char) :
    readMember (text ++ more) = some (member, rest ++ more) := by
  obtain ⟨⟨key, text'⟩, hkey, h⟩ := Option.bind_eq_some_iff.mp h
  dsimp only at h
  split at h
  · rename_i text''
    obtain ⟨p, hp, hpair⟩ := Option.map_eq_some_iff.mp h
    obtain ⟨rfl, rfl⟩ := Prod.mk.inj hpair
    simp [readMember, readString_append hkey, readString_append hp]
  · simp at h

theorem readMembers_append {fuel fuel' : Nat} {text rest : List Char}
    {members : List (String × String)} (h : readMembers fuel text = some (members, rest))
    (hfuel : fuel ≤ fuel') (more : List Char) :
    readMembers fuel' (text ++ more) = some (members, rest ++ more) := by
  induction fuel generalizing fuel' text members rest with
  | zero => simp [readMembers] at h
  | succ fuel ih =>
      obtain ⟨n, rfl⟩ : ∃ n, fuel' = n + 1 := ⟨fuel' - 1, by omega⟩
      obtain ⟨⟨member, text'⟩, hmember, h⟩ := Option.bind_eq_some_iff.mp h
      dsimp only at h
      split at h
      · obtain ⟨rfl, rfl⟩ := Prod.mk.inj (Option.some.inj h)
        simp [readMembers, readMember_append hmember]
      · rename_i text''
        obtain ⟨p, hp, hpair⟩ := Option.map_eq_some_iff.mp h
        obtain ⟨rfl, rfl⟩ := Prod.mk.inj hpair
        simp [readMembers, readMember_append hmember, ih hp (by omega : fuel ≤ n)]
      · simp at h

/-- An object's reader does not look beyond its end. -/
theorem readObject_append {text rest : List Char} {members : List (String × String)}
    (h : readObject text = some (members, rest)) (more : List Char) :
    readObject (text ++ more) = some (members, rest ++ more) := by
  unfold readObject at h
  split at h
  · obtain ⟨rfl, rfl⟩ := Prod.mk.inj (Option.some.inj h)
    simp [readObject]
  · rename_i text' hbrace
    have hlen : text'.length ≤ (text' ++ more).length := by simp
    have hread := readMembers_append h hlen more
    cases text' with
    | nil => simp [readMembers] at h
    | cons c text' =>
        have hc : c ≠ '}' := by
          rintro rfl
          exact hbrace _ rfl
        simpa [readObject, hc] using hread
  · simp at h

/-- No proper prefix of an object is an object. -/
theorem parseObject_prefix {members : List (String × String)} {text more : List Char}
    (h : text ++ more = writeObject members) (hmore : more ≠ []) : parseObject text = none := by
  unfold parseObject
  split
  · rename_i found hread
    have hfull := readObject_append hread more
    have hwrite := readObject_write members []
    rw [List.append_nil, ← h, hfull] at hwrite
    simp [hmore] at hwrite
  · rfl

end Json
