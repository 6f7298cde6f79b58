import TopdeskMcp.Theorems.Paths

/-!
# Path templates of any shape

`parts` reads a template as literal characters and placeholders, whatever its shape:
`apply_path_params` renders one after the other (`applyPathParams_eq_flatMap`). Where every
placeholder ends at a character that cannot be part of an encoded argument, the rendering can
be taken apart again, so that different arguments have different paths (`path_faithful`).
-/

namespace TopdeskMcp.Theorems.Templates

open TopdeskMcp Paths

/-- The parts of a template; a placeholder that is not closed runs to the end. -/
def parts : Option (List Char) → List Char → List Part
  | none, [] => []
  | none, c :: chars =>
      if c = '{' then parts (some []) chars else .literal [c] :: parts none chars
  | some name, [] => [.placeholder name]
  | some name, c :: chars =>
      if c = '}' then .placeholder name :: parts none chars else parts (some (name ++ [c])) chars

def template (endpoint : EndpointRecord) : List Part := parts none endpoint.path.toList

example : template ⟨"/a/\x7bid\x7d.x", "GET", .null⟩ =
    ["/", "a", "/"].map (.literal ·.toList) ++ .placeholder "id".toList ::
      [".", "x"].map (.literal ·.toList) := by rfl

/-- Every opening brace has a closing one behind it. -/
def Closed : List Char → Prop
  | [] => True
  | c :: path => (c = '{' → '}' ∈ path) ∧ Closed path

instance Closed.decide : (path : List Char) → Decidable (Closed path)
  | [] => isTrue trivial
  | c :: path =>
      have := Closed.decide path
      inferInstanceAs (Decidable ((c = '{' → '}' ∈ path) ∧ Closed path))

/-- A character that no encoded argument has. -/
def Separates (c : Char) : Prop := ¬ (c.isAlphanum ∨ c = '%')

instance : DecidablePred Separates := fun c =>
  inferInstanceAs (Decidable (¬ (c.isAlphanum ∨ c = '%')))

/-- What may follow a part: after a placeholder, only a character that separates. -/
def Follows : Part → Part → Prop
  | .placeholder _, .literal text => ∃ c ∈ text.head?, Separates c
  | .placeholder _, .placeholder _ => False
  | .literal _, _ => True

instance : DecidableRel Follows
  | .placeholder _, .literal text =>
      inferInstanceAs (Decidable (∃ c ∈ text.head?, Separates c))
  | .placeholder _, .placeholder _ => isFalse id
  | .literal _, _ => isTrue trivial

/-- Each placeholder is followed by the end or by a separating character. -/
def Separated (endpoint : EndpointRecord) : Prop := (template endpoint).IsChain Follows

section

variable {args args' : Args}

/-! ## The scan -/

theorem scanPath_eq_flatMap (args : Args) (state : Option (List Char)) (path : List Char) :
    scanPath args state path = (parts state path).flatMap (Part.render args) := by
  induction path generalizing state with
  | nil =>
      cases state with
      | none => rfl
      | some name => simp [scanPath, parts, Part.render]
  | cons c path ih =>
      cases state with
      | none =>
          rw [scanPath, parts]
          split
          · exact ih (some [])
          · show c :: scanPath args none path = c :: (parts none path).flatMap (Part.render args)
            rw [ih]
      | some name =>
          rw [scanPath, parts]
          split
          · rw [List.flatMap_cons, ih]
            rfl
          · exact ih (some (name ++ [c]))

theorem applyPathParams_eq_flatMap (endpoint : EndpointRecord) (args : Args) :
    applyPathParams endpoint args = (template endpoint).flatMap (Part.render args) :=
  scanPath_eq_flatMap args none endpoint.path.toList

/-- The parts of a closed template are all of it; inside a placeholder, the name so far comes
first. -/
theorem source_parts {path : List Char} (h : Closed path) :
    (parts none path).flatMap Part.source = path ∧
      ∀ name, '}' ∈ path → (parts (some name) path).flatMap Part.source = '{' :: name ++ path := by
  induction path with
  | nil =>
      refine ⟨rfl, ?_⟩
      intro name hmem
      simp at hmem
  | cons c path ih =>
      obtain ⟨houtside, hinside⟩ := ih h.2
      constructor
      · rw [parts]
        split
        · rename_i hopen
          subst hopen
          exact hinside [] (h.1 rfl)
        · show c :: (parts none path).flatMap Part.source = c :: path
          rw [houtside]
      · intro name hmem
        rw [parts]
        split
        · rename_i hclose
          subst hclose
          rw [List.flatMap_cons, houtside]
          simp [Part.source]
        · rename_i hne
          have hlater : '}' ∈ path := (List.mem_cons.mp hmem).resolve_left (Ne.symm hne)
          rw [hinside (name ++ [c]) hlater]
          simp

/-- A literal part is one character and opens nothing, and a name does not go past its brace. -/
def Shaped : Part → Prop
  | .literal text => ∃ c, c ≠ '{' ∧ text = [c]
  | .placeholder name => '}' ∉ name

theorem shaped_parts {state : Option (List Char)} {path : List Char}
    (hstate : ∀ name ∈ state, '}' ∉ name) : ∀ part ∈ parts state path, Shaped part := by
  induction path generalizing state with
  | nil =>
      intro part hpart
      cases state with
      | none => simp [parts] at hpart
      | some name =>
          rw [parts, List.mem_singleton] at hpart
          subst hpart
          exact hstate name rfl
  | cons c path ih =>
      intro part hpart
      cases state with
      | none =>
          rw [parts] at hpart
          split at hpart
          · exact ih (by rintro _ ⟨⟩; simp) part hpart
          · rename_i hopen
            cases List.mem_cons.mp hpart with
            | inl heq =>
                subst heq
                exact ⟨c, hopen, rfl⟩
            | inr hlater => exact ih (by simp) part hlater
      | some name =>
          have hname := hstate name rfl
          rw [parts] at hpart
          split at hpart
          · cases List.mem_cons.mp hpart with
            | inl heq =>
                subst heq
                exact hname
            | inr hlater => exact ih (by simp) part hlater
          · rename_i hclose
            have hlonger : '}' ∉ name ++ [c] := by
              rw [List.mem_append, List.mem_singleton, not_or]
              exact ⟨hname, Ne.symm hclose⟩
            exact ih (by rintro _ ⟨⟩; exact hlonger) part hpart

/-! ## Taking a path apart -/

/-- Where a run of a class of characters ends is determined by what follows it. -/
theorem append_inj_of_class {p : Char → Prop} [DecidablePred p] {x y rest rest' : List Char}
    (hx : ∀ c ∈ x, p c) (hy : ∀ c ∈ y, p c) (hrest : ∀ c ∈ rest.head?, ¬ p c)
    (hrest' : ∀ c ∈ rest'.head?, ¬ p c) (h : x ++ rest = y ++ rest') : x = y ∧ rest = rest' := by
  have hrun : ∀ z tail : List Char, (∀ c ∈ z, p c) → (∀ c ∈ tail.head?, ¬ p c) →
      (z ++ tail).takeWhile (fun c => decide (p c)) = z := by
    intro z tail hz htail
    rw [List.takeWhile_append_of_pos (by simpa using hz)]
    cases tail with
    | nil => simp
    | cons c tail =>
        have hc : ¬ p c := htail c rfl
        simp [hc]
  have heq : x = y := by
    rw [← hrun x rest hx hrest, ← hrun y rest' hy hrest', h]
  subst heq
  exact ⟨rfl, List.append_cancel_left h⟩

/-- The encoding of an argument tells which one it is. -/
theorem encodeArg_inj {value value' : String} (h : encodeArg value = encodeArg value') :
    value = value' := by
  have hdecode : ∀ text : String, Percent.decode (encodeArg text) = Utf8.encode text := by
    intro text
    exact Percent.decode_encode (by decide) text.toList
  have hbytes : Utf8.encode value = Utf8.encode value' := by
    rw [← hdecode value, ← hdecode value', h]
  have hdecoded := congrArg Utf8.decode hbytes
  rw [Utf8.decode_encode, Utf8.decode_encode] at hdecoded
  exact Option.some.inj hdecoded

/-- What is rendered after a placeholder does not continue its argument. -/
theorem head_render {t : List Part} {name : List Char}
    (h : (Part.placeholder name :: t).IsChain Follows) (args : Args) :
    ∀ c ∈ (t.flatMap (Part.render args)).head?, ¬ (c.isAlphanum ∨ c = '%') := by
  intro c hc
  cases t with
  | nil => simp at hc
  | cons part t =>
      have hfollows := (List.isChain_cons_cons.mp h).1
      cases part with
      | placeholder next => exact hfollows.elim
      | literal text =>
          obtain ⟨d, hd, hsep⟩ := hfollows
          cases text with
          | nil => simp at hd
          | cons e text =>
              obtain rfl : e = d := Option.some.inj hd
              obtain rfl : e = c := Option.some.inj hc
              exact hsep

/-- Two renderings of separated parts are equal only if the arguments at every placeholder are. -/
theorem plainArg_eq_of_render {t : List Part} (hsep : t.IsChain Follows)
    (h : t.flatMap (Part.render args) = t.flatMap (Part.render args')) :
    ∀ name, Part.placeholder name ∈ t →
      plainArg args (String.ofList name) = plainArg args' (String.ofList name) := by
  induction t with
  | nil =>
      intro name hmem
      simp at hmem
  | cons part t ih =>
      have htail := List.IsChain.of_cons hsep
      rw [List.flatMap_cons, List.flatMap_cons] at h
      cases part with
      | literal text =>
          intro name hmem
          have hlater : Part.placeholder name ∈ t := by simpa using hmem
          exact ih htail (List.append_cancel_left h) name hlater
      | placeholder first =>
          obtain ⟨hfirst, hrest⟩ := append_inj_of_class (fun c hc => encodeArg_chars hc)
            (fun c hc => encodeArg_chars hc) (head_render hsep args) (head_render hsep args') h
          intro name hmem
          cases List.mem_cons.mp hmem with
          | inl heq =>
              obtain rfl : name = first := Part.placeholder.inj heq
              exact encodeArg_inj hfirst
          | inr hlater => exact ih htail hrest name hlater

/-- **Paths are faithful.** A closed template is the sequence of its parts, and its path the
sequence of their renderings: a literal character itself, a placeholder letters, digits and
percent signs. If each placeholder is followed by the end or by another character than these,
two calls have the same path only if the arguments at every placeholder are the same. -/
theorem path_faithful (endpoint : EndpointRecord) (args args' : Args)
    (hclosed : Closed endpoint.path.toList) (hsep : Separated endpoint) :
    (template endpoint).flatMap Part.source = endpoint.path.toList ∧
    (∀ part ∈ template endpoint, Shaped part) ∧
    applyPathParams endpoint args = (template endpoint).flatMap (Part.render args) ∧
    (∀ text, Part.literal text ∈ template endpoint → Part.render args (.literal text) = text) ∧
    (∀ name, Part.placeholder name ∈ template endpoint →
      ∀ c ∈ Part.render args (.placeholder name), c.isAlphanum ∨ c = '%') ∧
    (applyPathParams endpoint args = applyPathParams endpoint args' →
      ∀ name, Part.placeholder name ∈ template endpoint →
        plainArg args (String.ofList name) = plainArg args' (String.ofList name)) := by
  refine ⟨(source_parts hclosed).1, shaped_parts (by simp), applyPathParams_eq_flatMap endpoint args,
    ?_, ?_, ?_⟩
  · intro text _
    rfl
  · intro name _ c hc
    exact encodeArg_chars hc
  · intro h
    rw [applyPathParams_eq_flatMap, applyPathParams_eq_flatMap] at h
    exact plainArg_eq_of_render hsep h

end

namespace Incident

open Paths.Incident

/-- A slash in an argument and its escape have different paths. -/
theorem path_faithful_incident :
    applyPathParams endpoint (argsMap (args "a/b")) ≠
      applyPathParams endpoint (argsMap (args "a%2Fb")) := by
  intro h
  have hsep : Separated endpoint := by
    unfold Separated
    decide
  obtain ⟨-, -, -, -, -, hsame⟩ :=
    path_faithful endpoint (argsMap (args "a/b")) (argsMap (args "a%2Fb")) (by decide) hsep
  have hmem : Part.placeholder "id".toList ∈ "/incidents/".toList.map (fun c => Part.literal [c]) ++
      [Part.placeholder "id".toList] := List.mem_append_right _ (List.mem_singleton_self _)
  exact absurd (hsame h "id".toList hmem) (by decide)

end Incident

end TopdeskMcp.Theorems.Templates
