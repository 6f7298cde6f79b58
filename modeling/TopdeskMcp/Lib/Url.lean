import TopdeskMcp.Lib.Percent
import Mathlib.Data.List.DropRight

/-!
# Web addresses

Reading and resolving `http` and `https` addresses as the WHATWG URL standard
does.

* `clean`, `splitScheme`, `cut`, `splitPath` and `addSegments` are the pieces of
  the standard's state machine: what it strips and drops, where its states end,
  and how it treats a path segment that is a spelling of `.` or `..`;
* `Host.parse` reads an absolute address and `Host.join` resolves a reference
  against a base. How an authority is read, and addresses of every other scheme,
  are the parameter `Host`;
* `join_of_clean` says where a reference without surprises leads, and
  `weight_join_le` bounds the path every other reference leads to: nothing but
  the characters of the reference is added to the base.
-/

namespace Whatwg

/-! ## Pieces -/

def c0OrSpace (c : Char) : Bool := c.toNat ≤ 0x20

def tabOrNewline (c : Char) : Bool := c == '\t' || c == '\n' || c == '\r'

/-- Control characters and spaces at both ends are stripped, tabs and line breaks
dropped everywhere. -/
def clean (text : List Char) : List Char :=
  ((text.dropWhile c0OrSpace).rdropWhile c0OrSpace).filter fun c => !tabOrNewline c

inductive Scheme where
  | http
  | https
  deriving DecidableEq, Repr

def Scheme.name : Scheme → List Char
  | .http => "http".toList
  | .https => "https".toList

def Scheme.ofName (name : List Char) : Option Scheme :=
  if name = Scheme.http.name then some .http
  else if name = Scheme.https.name then some .https
  else none

def schemeChar (c : Char) : Bool := c.isAlphanum || c == '+' || c == '-' || c == '.'

/-- The scheme, in lower case, and what follows its colon. -/
def splitScheme : List Char → Option (List Char × List Char)
  | [] => none
  | c :: rest =>
      if c.isAlpha then
        match rest.dropWhile schemeChar with
        | ':' :: after => some ((c :: rest.takeWhile schemeChar).map Char.toLower, after)
        | _ => none
      else none

/-- In these schemes a backslash is a slash. -/
def isSlash (c : Char) : Bool := c == '/' || c == '\\'

/-- Cut a text at the first mark. -/
def cut (mark : Char) (text : List Char) : List Char × Option (List Char) :=
  (text.takeWhile (· != mark),
    match text.dropWhile (· != mark) with
    | [] => none
    | _ :: rest => some rest)

def c0Control (c : Char) : Bool := c.toNat ≤ 0x1f || 0x7e < c.toNat

/-- What each part of an address may hold unencoded. -/
def fragmentChar (c : Char) : Bool := !(c0Control c || [' ', '"', '<', '>', '`'].contains c)

def queryChar (c : Char) : Bool :=
  !(c0Control c || [' ', '"', '#', '<', '>', '\''].contains c)

/-- The standard as it is now also encodes a circumflex here; `url` 2.5.8 leaves it as it is. -/
def pathChar (c : Char) : Bool :=
  !(c0Control c || [' ', '"', '#', '<', '>', '?', '^', '`', '{', '}'].contains c)

def pathEncode (text : List Char) : List Char := Percent.encode pathChar text

def isSingleDot (segment : List Char) : Bool :=
  [".".toList, "%2e".toList].contains (segment.map Char.toLower)

def isDoubleDot (segment : List Char) : Bool :=
  ["..".toList, ".%2e".toList, "%2e.".toList, "%2e%2e".toList].contains
    (segment.map Char.toLower)

/-- The segment is one of the spellings of `.` and `..`. -/
def IsDot (segment : List Char) : Prop := isSingleDot segment ∨ isDoubleDot segment

instance (segment : List Char) : Decidable (IsDot segment) := by unfold IsDot; infer_instance

def splitPath (text : List Char) : List (List Char) := text.splitOnP isSlash

/-- The path state: a double-dot segment removes the last one, a single-dot
segment adds nothing, and either leaves an empty segment when it ends the path. -/
def addSegments (path : List (List Char)) : List (List Char) → List (List Char)
  | [] => path
  | segment :: rest =>
      let last := if rest = [] then [[]] else []
      if isDoubleDot segment then addSegments (path.dropLast ++ last) rest
      else if isSingleDot segment then addSegments (path ++ last) rest
      else addSegments (path ++ [pathEncode segment]) rest

/-! ## Addresses -/

/-- An `http` or `https` address; the authority is the user, host and port. -/
structure Url where
  scheme : Scheme
  authority : List Char
  path : List (List Char)
  query : Option (List Char)
  fragment : Option (List Char)
  deriving DecidableEq, Repr

/-- An address of another scheme is kept as its text. -/
inductive Href where
  | web (url : Url)
  | foreign (text : List Char)

/-- Reading authorities, and everything about other schemes. -/
structure Host where
  authority : Scheme → List Char → Option (List Char)
  parseForeign : List Char → Option (List Char)
  joinForeign : List Char → List Char → Option Href
  appendForeign : List Char → String → String → List Char

def dropSlash : List Char → List Char
  | [] => []
  | c :: rest => if isSlash c then rest else c :: rest

/-- Path, query and fragment of an address whose path so far is `base`. -/
def withTail (scheme : Scheme) (authority : List Char) (base : List (List Char))
    (tail : List Char) : Url :=
  -- a question mark after the number sign is part of the fragment
  let (front, fragment) := cut '#' tail
  let (pathText, query) := cut '?' front
  { scheme, authority
    path := addSegments base (splitPath pathText)
    query := query.map (Percent.encode queryChar)
    fragment := fragment.map (Percent.encode fragmentChar) }

def endsAuthority (c : Char) : Bool := isSlash c || c == '?' || c == '#'

namespace Host

variable (H : Host)

/-- What follows the scheme of an absolute address: any number of slashes, the
authority, and the rest. -/
def absolute (scheme : Scheme) (after : List Char) : Option Url :=
  let text := after.dropWhile isSlash
  let host := text.takeWhile fun c => !endsAuthority c
  let tail := text.dropWhile fun c => !endsAuthority c
  if host = [] then none
  else (H.authority scheme host).map fun authority =>
    withTail scheme authority [] (dropSlash tail)

def parse (text : List Char) : Option Href :=
  match splitScheme (clean text) with
  | none => none
  | some (name, after) =>
      match Scheme.ofName name with
      | some scheme => (H.absolute scheme after).map .web
      | none => (H.parseForeign text).map .foreign

/-- A reference without a scheme of its own: two slashes start an authority, one
starts a path at the root, and otherwise the last segment of the base is
replaced, or kept when there is no path. -/
def relative (base : Url) (reference : List Char) : Option Url :=
  match (reference.takeWhile isSlash).length with
  | 0 =>
      let (front, fragment) := cut '#' reference
      if (cut '?' front).1 = [] then some
        { base with
          query := match (cut '?' front).2 with
            | none => base.query
            | some query => some (Percent.encode queryChar query)
          fragment := fragment.map (Percent.encode fragmentChar) }
      else some (withTail base.scheme base.authority base.path.dropLast reference)
  | 1 => some (withTail base.scheme base.authority [] (dropSlash reference))
  | _ => H.absolute base.scheme reference

def join (base : Href) (reference : List Char) : Option Href :=
  match base with
  | .foreign text => H.joinForeign text reference
  | .web base =>
      match splitScheme (clean reference) with
      | none => (H.relative base (clean reference)).map .web
      | some (name, after) =>
          match Scheme.ofName name with
          | none => (H.parseForeign reference).map .foreign
          | some scheme =>
              -- the base's own scheme, without an authority after it, is as good as none
              if scheme = base.scheme ∧ (after.takeWhile isSlash).length < 2 then
                (H.relative base after).map .web
              else (H.absolute scheme after).map .web

/-- One byte of a form value: a space is a plus sign. -/
def formEncode (text : String) : List Char :=
  text.toList.flatMap fun c =>
    if c = ' ' then ['+']
    else Percent.encodeChar (fun c => c.isAlphanum || ['*', '-', '.', '_'].contains c) c

/-- Append a pair to the query. -/
def appendPair (href : Href) (key value : String) : Href :=
  match href with
  | .foreign text => .foreign (H.appendForeign text key value)
  | .web url =>
      let before := match url.query with
        | none | some [] => []
        | some query => query ++ ['&']
      .web { url with query := some (before ++ formEncode key ++ '=' :: formEncode value) }

end Host

/-- The text of an address. -/
def Url.toChars (url : Url) : List Char :=
  url.scheme.name ++ "://".toList ++ url.authority ++ url.path.flatMap (fun s => '/' :: s) ++
    (match url.query with | none => [] | some query => '?' :: query) ++
    (match url.fragment with | none => [] | some fragment => '#' :: fragment)

def Href.toChars : Href → List Char
  | .web url => url.toChars
  | .foreign text => text

/-! ## Slashes, spaces and dots cannot be part of a triple -/

theorem plain_of_isSlash {c : Char} (h : isSlash c) : Percent.Plain c := by
  simp only [isSlash, Bool.or_eq_true, beq_iff_eq] at h
  rcases h with rfl | rfl <;> decide

theorem plain_of_control {c : Char} (h : c.toNat ≤ 0x20 ∨ 0x7e < c.toNat) :
    Percent.Plain c where
  ne_percent := by
    rintro rfl
    exact absurd h (by decide)
  no_value := Hex.value_eq_none (by
    have h0 : '0'.toNat = 48 := rfl
    have hf : 'f'.toNat = 102 := rfl
    omega)

theorem plain_of_tabOrNewline {c : Char} (h : tabOrNewline c) : Percent.Plain c := by
  simp only [tabOrNewline, Bool.or_eq_true, beq_iff_eq] at h
  rcases h with (rfl | rfl) | rfl <;> decide

theorem plain_of_not_pathChar {c : Char} (h : pathChar c = false) : Percent.Plain c := by
  simp only [pathChar, c0Control, Bool.not_eq_false', Bool.or_eq_true, decide_eq_true_eq] at h
  rcases h with hctl | hmem
  · exact plain_of_control (by omega)
  · have hmem := List.contains_iff_mem.mp hmem
    simp only [List.mem_cons, List.not_mem_nil, or_false] at hmem
    rcases hmem with rfl | rfl | rfl | rfl | rfl | rfl | rfl | rfl | rfl | rfl <;> decide

/-! ## Paths -/

/-- How much a path holds: its decoded segments, and one for each. -/
def weight : List (List Char) → Nat
  | [] => 0
  | segment :: path => (Percent.decode segment).length + 1 + weight path

@[simp] theorem weight_nil : weight [] = 0 := rfl

@[simp] theorem weight_cons (segment : List Char) (path : List (List Char)) :
    weight (segment :: path) = (Percent.decode segment).length + 1 + weight path := rfl

@[simp] theorem weight_append (path path' : List (List Char)) :
    weight (path ++ path') = weight path + weight path' := by
  induction path with
  | nil => simp
  | cons segment path ih =>
      simp only [List.cons_append, weight_cons, ih]
      omega

theorem weight_dropLast_le (path : List (List Char)) : weight path.dropLast ≤ weight path := by
  cases path using List.reverseRecOn with
  | nil => exact Nat.le_refl _
  | append_singleton path segment => simp

/-- A text's segments hold what the text does: a slash weighs what a segment costs. -/
theorem weight_splitPath (text : List Char) :
    weight (splitPath text) = (Percent.decode text).length + 1 := by
  -- by induction on the text, behind the start of its first segment
  have hsplit : ∀ before, (∀ c ∈ before, isSlash c = false) →
      weight (splitPath (before ++ text)) = (Percent.decode (before ++ text)).length + 1 := by
    induction text with
    | nil =>
        intro before hbefore
        rw [List.append_nil, splitPath, List.splitOnP_eq_singleton hbefore]
        simp
    | cons c text ih =>
        intro before hbefore
        cases hc : isSlash c with
        | true =>
            have hone : (String.utf8EncodeChar c).length = 1 := by
              simp only [isSlash, Bool.or_eq_true, beq_iff_eq] at hc
              rcases hc with rfl | rfl <;> decide
            have hrest := ih [] (by simp)
            rw [splitPath, List.splitOnP_append_cons _ _ hc, List.splitOnP_eq_singleton hbefore,
              Percent.decode_append_cons (plain_of_isSlash hc)]
            simp only [List.nil_append, splitPath] at hrest
            simp only [List.cons_append, List.nil_append, weight_cons, hrest, List.length_append,
              hone]
            omega
        | false =>
            have hmore := ih (before ++ [c]) (by
              intro d hd
              rcases List.mem_append.mp hd with hd | hd
              · exact hbefore d hd
              · rwa [List.mem_singleton.mp hd])
            simpa using hmore
  exact hsplit [] (by simp)

theorem decode_pathEncode (text : List Char) :
    Percent.decode (pathEncode text) = Percent.decode text :=
  Percent.decode_encode_of_keep (fun _ => plain_of_not_pathChar) text

theorem IsDot.ne_nil {segment : List Char} (h : IsDot segment) : segment ≠ [] := by
  rintro rfl
  exact absurd h (by decide)

/-- Appending segments adds no more than they hold, and less when one is a dot
segment. -/
theorem weight_addSegments_le (path segments : List (List Char)) :
    weight (addSegments path segments) ≤ weight path + weight segments ∧
      ((∃ segment ∈ segments, IsDot segment) →
        weight (addSegments path segments) < weight path + weight segments) := by
  induction segments generalizing path with
  | nil => exact ⟨Nat.le_refl _, by simp⟩
  | cons segment rest ih =>
      have hlast : weight (if rest = [] then [[]] else []) ≤ 1 := by
        split
        · decide
        · simp
      -- a dot segment adds at most the empty segment that ends the path, and weighs more
      have hdot : IsDot segment → ∀ path', weight path' ≤ weight path →
          weight (addSegments (path' ++ if rest = [] then [[]] else []) rest) <
            weight path + weight (segment :: rest) := by
        intro hdot path' hpath'
        have hpos := Percent.decode_pos hdot.ne_nil
        have := (ih (path' ++ if rest = [] then [[]] else [])).1
        simp only [weight_append, weight_cons] at this ⊢
        omega
      unfold addSegments
      by_cases hdouble : isDoubleDot segment
      · have hlt := hdot (.inr hdouble) _ (weight_dropLast_le path)
        simp only [hdouble, if_true]
        exact ⟨hlt.le, fun _ => hlt⟩
      · by_cases hsingle : isSingleDot segment
        · have hlt := hdot (.inl hsingle) path (Nat.le_refl _)
          simp only [hdouble, hsingle, if_true, if_false, Bool.false_eq_true]
          exact ⟨hlt.le, fun _ => hlt⟩
        · obtain ⟨hle, hlt⟩ := ih (path ++ [pathEncode segment])
          simp only [hdouble, hsingle, if_false, Bool.false_eq_true]
          simp only [weight_append, weight_cons, weight_nil, decode_pathEncode] at hle hlt ⊢
          refine ⟨by omega, ?_⟩
          rintro ⟨segment', hmem, hisDot⟩
          rcases List.mem_cons.mp hmem with rfl | hmem
          · exact absurd hisDot (by simp [IsDot, hdouble, hsingle])
          · have := hlt ⟨segment', hmem, hisDot⟩
            omega

/-- Without dot segments the path grows by its segments. -/
theorem addSegments_of_no_dots {segments : List (List Char)} (h : ∀ s ∈ segments, ¬ IsDot s)
    (path : List (List Char)) : addSegments path segments = path ++ segments.map pathEncode := by
  induction segments generalizing path with
  | nil => simp [addSegments]
  | cons segment rest ih =>
      have hnot := h segment (by simp)
      simp only [IsDot, not_or, Bool.not_eq_true] at hnot
      simp [addSegments, hnot, ih fun s hs => h s (by simp [hs])]

/-! ## Cleaning -/

theorem clean_split (text : List Char) : ∃ front middle back, text = front ++ middle ++ back ∧
    (∀ c ∈ front, Percent.Plain c) ∧ (∀ c ∈ back, Percent.Plain c) ∧
    clean text = middle.filter fun c => !tabOrNewline c := by
  have hplain : ∀ c : Char, c0OrSpace c → Percent.Plain c := fun c hc =>
    plain_of_control (.inl (by simpa [c0OrSpace] using hc))
  refine ⟨text.takeWhile c0OrSpace, (text.dropWhile c0OrSpace).rdropWhile c0OrSpace,
    (text.dropWhile c0OrSpace).rtakeWhile c0OrSpace, ?_, ?_, ?_, rfl⟩
  · rw [List.append_assoc, List.rdropWhile_append_rtakeWhile, List.takeWhile_append_dropWhile]
  · intro c hc
    exact hplain c (List.mem_takeWhile_imp hc)
  · intro c hc
    exact hplain c (List.mem_rtakeWhile_imp hc)

theorem mem_of_mem_clean {text : List Char} {c : Char} (h : c ∈ clean text) : c ∈ text := by
  obtain ⟨front, middle, back, htext, -, -, hclean⟩ := clean_split text
  rw [hclean] at h
  rw [htext]
  simp [(List.mem_filter.mp h).1]

/-- Cleaning makes a text that is not clean decode to less. -/
theorem length_decode_clean (text : List Char) :
    (Percent.decode (clean text)).length ≤ (Percent.decode text).length ∧
      (clean text ≠ text →
        (Percent.decode (clean text)).length < (Percent.decode text).length) := by
  obtain ⟨front, middle, back, htext, hfront, hback, hclean⟩ := clean_split text
  have hplain : ∀ c, (!tabOrNewline c) = false → Percent.Plain c := fun c hc =>
    plain_of_tabOrNewline (by simpa using hc)
  have hfilter := Percent.length_decode_filter_le hplain [] middle
  have hmiddle := Percent.length_decode_middle hfront hback middle
  rw [hclean]
  simp only [List.nil_append, ← htext] at hfilter hmiddle
  refine ⟨by omega, fun hne => ?_⟩
  -- something was stripped at an end, or dropped in the middle
  by_cases hends : front = [] ∧ back = []
  · obtain ⟨rfl, rfl⟩ := hends
    obtain rfl : text = middle := by simpa using htext
    exact Percent.length_decode_filter_lt hplain hne
  · have : 0 < front.length + back.length := by
      rcases not_and_or.mp hends with h | h <;> have := List.length_pos_iff.mpr h <;> omega
    omega

/-! ## References without a scheme, a query or a fragment -/

/-- A reference that is a path: no character starts another part of an address. -/
structure PathOnly (text : List Char) : Prop where
  no_colon : ':' ∉ text
  no_question : '?' ∉ text
  no_hash : '#' ∉ text

theorem PathOnly.mono {text text' : List Char} (h : PathOnly text)
    (hsub : ∀ c ∈ text', c ∈ text) : PathOnly text' where
  no_colon := fun hc => h.no_colon (hsub _ hc)
  no_question := fun hc => h.no_question (hsub _ hc)
  no_hash := fun hc => h.no_hash (hsub _ hc)

theorem cut_of_not_mem {mark : Char} {text : List Char} (h : mark ∉ text) :
    cut mark text = (text, none) := by
  have hall : ∀ c ∈ text, (c != mark) = true := by
    intro c hc
    simpa using fun heq : c = mark => h (heq ▸ hc)
  rw [cut, List.takeWhile_eq_self_iff.mpr hall, List.dropWhile_eq_nil_iff.mpr hall]

theorem splitScheme_of_not_mem {text : List Char} (h : ':' ∉ text) : splitScheme text = none := by
  unfold splitScheme
  split
  · rfl
  · rename_i c rest
    split
    · split
      · rename_i after heq
        have hmem : ':' ∈ rest.dropWhile schemeChar := by simp [heq]
        exact absurd (List.mem_cons_of_mem c ((List.dropWhile_sublist _).mem hmem)) h
      · rfl
    · rfl

theorem withTail_of_no_marks {tail : List Char} (hquestion : '?' ∉ tail) (hhash : '#' ∉ tail)
    (scheme : Scheme) (authority : List Char) (base : List (List Char)) :
    withTail scheme authority base tail =
      { scheme, authority, path := addSegments base (splitPath tail), query := none,
        fragment := none } := by
  simp [withTail, cut_of_not_mem hhash, cut_of_not_mem hquestion]

/-- An address that stands for a directory: its path ends in a slash. -/
structure IsDir (url : Url) (dir : List (List Char)) : Prop where
  path : url.path = dir ++ [[]]
  query : url.query = none
  fragment : url.fragment = none

namespace Host

variable {H : Host} {base url : Url} {dir : List (List Char)} {reference : List Char}

theorem relative_of_no_slash (hbase : IsDir base dir) (hquestion : '?' ∉ reference)
    (hhash : '#' ∉ reference) (hslash : reference.takeWhile isSlash = []) :
    H.relative base reference = some
      { base with path := addSegments dir (splitPath reference) } := by
  have hdir : base.path.dropLast = dir := by simp [hbase.path]
  unfold relative
  rw [hslash]
  simp only [List.length_nil, cut_of_not_mem hhash, cut_of_not_mem hquestion]
  split
  · rename_i hnil
    have hsame : addSegments dir (splitPath []) = base.path := hbase.path.symm
    rw [hnil, hsame]
    simp [hbase.fragment]
  · rw [withTail_of_no_marks hquestion hhash, hdir]
    simp [hbase.query, hbase.fragment]

/-- A clean path without a scheme, and without a slash in front, continues the base. -/
theorem join_of_no_scheme (hbase : IsDir base dir) (hscheme : splitScheme reference = none)
    (hquestion : '?' ∉ reference) (hhash : '#' ∉ reference)
    (hclean : clean reference = reference) (hslash : reference.takeWhile isSlash = []) :
    H.join (.web base) reference = some
      (.web { base with path := addSegments dir (splitPath reference) }) := by
  simp [join, hclean, hscheme, relative_of_no_slash hbase hquestion hhash hslash]

theorem join_of_clean (hbase : IsDir base dir) (hpath : PathOnly reference)
    (hclean : clean reference = reference) (hslash : reference.takeWhile isSlash = []) :
    H.join (.web base) reference = some
      (.web { base with path := addSegments dir (splitPath reference) }) :=
  join_of_no_scheme hbase (splitScheme_of_not_mem hpath.no_colon) hpath.no_question hpath.no_hash
    hclean hslash

theorem dropSlash_suffix (text : List Char) : dropSlash text <:+ text := by
  cases text with
  | nil => exact List.suffix_refl _
  | cons c rest =>
      rw [dropSlash]
      split
      · exact List.suffix_cons c rest
      · exact List.suffix_refl _

/-- A path from the root holds no more than the text it is at the end of. -/
theorem weight_withTail_le {before tail : List Char} (hpath : PathOnly (before ++ tail))
    (hslash : ∀ c rest, tail = c :: rest → isSlash c) (scheme : Scheme) (authority : List Char) :
    weight (withTail scheme authority [] (dropSlash tail)).path ≤
      (Percent.decode (before ++ tail)).length + 1 := by
  have hdrop : PathOnly (dropSlash tail) := hpath.mono fun c hc =>
    List.mem_append_right before ((dropSlash_suffix tail).mem hc)
  rw [withTail_of_no_marks hdrop.no_question hdrop.no_hash]
  refine (weight_addSegments_le _ _).1.trans ?_
  rw [weight_splitPath, weight_nil]
  cases tail with
  | nil => simp [dropSlash, Percent.decode]
  | cons c rest =>
      have hc := hslash c rest rfl
      rw [Percent.decode_append_cons (plain_of_isSlash hc), dropSlash, if_pos hc]
      simp only [List.length_append]
      omega

theorem weight_absolute_le {scheme : Scheme} {after : List Char} (hpath : PathOnly after)
    (h : H.absolute scheme after = some url) :
    weight url.path ≤ (Percent.decode after).length + 1 := by
  unfold absolute at h
  dsimp only at h
  split at h
  · simp at h
  · obtain ⟨authority, -, rfl⟩ := Option.map_eq_some_iff.mp h
    -- slashes, authority and the rest are the text in this order
    have hafter := List.takeWhile_append_dropWhile (p := isSlash) (l := after)
    have htext := List.takeWhile_append_dropWhile (p := fun c => !endsAuthority c)
      (l := after.dropWhile isSlash)
    have hends := List.head?_dropWhile_not (fun c => !endsAuthority c) (after.dropWhile isSlash)
    generalize after.takeWhile isSlash = slashes at hafter
    generalize (after.dropWhile isSlash).takeWhile (fun c => !endsAuthority c) = host at htext
    generalize (after.dropWhile isSlash).dropWhile (fun c => !endsAuthority c) = tail at *
    rw [← htext, ← List.append_assoc] at hafter
    subst hafter
    refine weight_withTail_le hpath ?_ scheme authority
    rintro c rest rfl
    have hc : endsAuthority c := by simpa using hends
    simp only [endsAuthority, Bool.or_eq_true, beq_iff_eq] at hc
    rcases hc with (hc | rfl) | rfl
    · exact hc
    · exact absurd (by simp) hpath.no_question
    · exact absurd (by simp) hpath.no_hash

/-- However a path resolves, what it adds to the base is no more than it holds. -/
theorem weight_relative_le (hbase : IsDir base dir) (hpath : PathOnly reference)
    (h : H.relative base reference = some url) :
    weight url.path ≤ weight dir + (Percent.decode reference).length + 1 := by
  cases hslashes : reference.takeWhile isSlash with
  | nil =>
      rw [relative_of_no_slash hbase hpath.no_question hpath.no_hash hslashes] at h
      obtain rfl := Option.some.inj h
      have := (weight_addSegments_le dir (splitPath reference)).1
      rw [weight_splitPath] at this
      omega
  | cons c slashes =>
      unfold relative at h
      rw [hslashes] at h
      cases slashes with
      | nil =>
          -- one slash: the path starts at the root, whatever the base is
          obtain rfl := Option.some.inj h
          have hhead : ∀ d rest, reference = d :: rest → isSlash d := by
            rintro d rest rfl
            by_contra hd
            simp [hd] at hslashes
          have hwhole : PathOnly ([] ++ reference) := hpath
          have hle := weight_withTail_le hwhole hhead base.scheme base.authority
          rw [List.nil_append] at hle
          omega
      | cons c' slashes =>
          -- two slashes: the text names an authority of its own
          have := weight_absolute_le hpath h
          omega

theorem weight_join_le {href : Href} (hbase : IsDir base dir) (hpath : PathOnly reference)
    (h : H.join (.web base) reference = some href) :
    ∃ url, href = .web url ∧
      weight url.path ≤ weight dir + (Percent.decode (clean reference)).length + 1 := by
  have hclean : PathOnly (clean reference) := hpath.mono fun _ => mem_of_mem_clean
  simp only [join, splitScheme_of_not_mem hclean.no_colon] at h
  obtain ⟨url, hurl, rfl⟩ := Option.map_eq_some_iff.mp h
  exact ⟨url, rfl, weight_relative_le hbase hclean hurl⟩

/-! ## Addresses that end in a slash -/

theorem getLast?_of_suffix {text text' : List Char} (h : text <:+ text') (hne : text ≠ []) :
    text.getLast? = text'.getLast? := by
  obtain ⟨before, rfl⟩ := h
  rw [List.getLast?_append, List.getLast?_eq_some_getLast hne]
  rfl

theorem clean_append_slash (text : List Char) :
    ∃ text', clean (text ++ ['/']) = text' ++ ['/'] := by
  have hdrop : (text ++ ['/']).dropWhile c0OrSpace = text.dropWhile c0OrSpace ++ ['/'] := by
    rw [List.dropWhile_append]
    split
    · rename_i hnil
      rw [List.isEmpty_iff.mp hnil]
      decide
    · rfl
  have hrdrop := List.rdropWhile_concat_neg c0OrSpace (text.dropWhile c0OrSpace) '/' (by decide)
  rw [clean, hdrop, hrdrop, List.filter_append]
  exact ⟨_, rfl⟩

theorem splitScheme_suffix {text name after : List Char}
    (h : splitScheme text = some (name, after)) : ':' :: after <:+ text := by
  unfold splitScheme at h
  split at h
  · simp at h
  · rename_i c rest
    split at h
    · split at h
      · rename_i after' heq
        obtain ⟨-, rfl⟩ := Prod.mk.inj (Option.some.inj h)
        rw [← heq]
        exact (List.dropWhile_suffix _).trans (List.suffix_cons c rest)
      · simp at h
    · simp at h

theorem cut_eq_none {mark : Char} {text : List Char} (h : (cut mark text).2 = none) :
    mark ∉ text := by
  intro hmem
  cases hdrop : text.dropWhile (· != mark) with
  | nil => exact absurd (List.dropWhile_eq_nil_iff.mp hdrop mark hmem) (by simp)
  | cons c rest => simp [cut, hdrop] at h

theorem splitPath_append_slash (text : List Char) :
    splitPath (text ++ ['/']) = splitPath text ++ [[]] := by
  rw [splitPath, List.splitOnP_append_cons _ _ (by decide)]
  rfl

theorem addSegments_append_nil (path segments : List (List Char)) :
    ∃ dir, addSegments path (segments ++ [[]]) = dir ++ [[]] := by
  induction segments generalizing path with
  | nil => exact ⟨path, by simp [addSegments, isDoubleDot, isSingleDot, pathEncode]⟩
  | cons segment rest ih =>
      rw [List.cons_append, addSegments]
      split_ifs <;> exact ih _

theorem withTail_dir {scheme : Scheme} {authority tail : List Char}
    (htail : tail.getLast? = some '/')
    (hquery : (withTail scheme authority [] (dropSlash tail)).query = none)
    (hfragment : (withTail scheme authority [] (dropSlash tail)).fragment = none) :
    ∃ dir, IsDir (withTail scheme authority [] (dropSlash tail)) dir := by
  have hhash := cut_eq_none (Option.map_eq_none_iff.mp hfragment)
  have hcut := cut_of_not_mem hhash
  have hpath : (withTail scheme authority [] (dropSlash tail)).path =
      addSegments [] (splitPath (dropSlash tail)) := by
    have hquestion := hquery
    simp only [withTail, hcut] at hquestion ⊢
    rw [cut_of_not_mem (cut_eq_none (Option.map_eq_none_iff.mp hquestion))]
  by_cases hnil : dropSlash tail = []
  · -- nothing but the slash: the root itself
    rw [hnil] at hpath hquery hfragment ⊢
    exact ⟨[], hpath, hquery, hfragment⟩
  · have hlast := (getLast?_of_suffix (dropSlash_suffix tail) hnil).trans htail
    obtain ⟨text, htext⟩ := List.getLast?_eq_some_iff.mp hlast
    obtain ⟨dir, hdir⟩ := addSegments_append_nil [] (splitPath text)
    refine ⟨dir, ?_, hquery, hfragment⟩
    rw [hpath, htext, splitPath_append_slash, hdir]

theorem absolute_dir {scheme : Scheme} {after : List Char} (hafter : after.getLast? = some '/')
    (h : H.absolute scheme after = some url) (hquery : url.query = none)
    (hfragment : url.fragment = none) : ∃ dir, IsDir url dir := by
  unfold absolute at h
  dsimp only at h
  split at h
  · simp at h
  · rename_i hhost
    obtain ⟨authority, -, rfl⟩ := Option.map_eq_some_iff.mp h
    refine withTail_dir ?_ hquery hfragment
    have htext : after.dropWhile isSlash ≠ [] := fun hnil => hhost (by rw [hnil]; rfl)
    have hlast := (getLast?_of_suffix (List.dropWhile_suffix _) htext).trans hafter
    have htail : (after.dropWhile isSlash).dropWhile (fun c => !endsAuthority c) ≠ [] :=
      fun hnil => absurd (List.dropWhile_eq_nil_iff.mp hnil '/' (List.mem_of_getLast? hlast))
        (by decide)
    exact (getLast?_of_suffix (List.dropWhile_suffix _) htail).trans hlast

/-- A text that ends in a slash and has no query or fragment is read as a directory. -/
theorem parse_dir {text : List Char} (h : H.parse (text ++ ['/']) = some (.web url))
    (hquery : url.query = none) (hfragment : url.fragment = none) : ∃ dir, IsDir url dir := by
  obtain ⟨text', hclean⟩ := clean_append_slash text
  rw [parse, hclean] at h
  split at h
  · simp at h
  · rename_i name after hscheme
    have hlast : (':' :: after).getLast? = some '/' := by
      rw [getLast?_of_suffix (splitScheme_suffix hscheme) (by simp)]
      simp
    split at h
    · rename_i scheme hname
      obtain ⟨url', habsolute, heq⟩ := Option.map_eq_some_iff.mp h
      obtain rfl : url' = url := by simpa using heq
      cases after with
      | nil => exact absurd hlast (by decide)
      | cons c after =>
          rw [List.getLast?_cons_cons] at hlast
          exact absolute_dir hlast habsolute hquery hfragment
    · simp at h

end Host

end Whatwg
