import TopdeskMcp.Lib.Url

/-!
# Slashes after a base, colons in a reference

* A base that does not end in a slash stands for a directory, and slashes after it add empty
  segments to that directory (`parse_append_slashes`);
* a reference whose first segment reads as a scheme loses a colon on the way, wherever it leads
  (`colons_join_lt`).
-/

namespace Whatwg

def pathText (path : List (List Char)) : List Char := path.flatMap ('/' :: ·)

/-- A path without the empty segment it may end in. -/
def directory (path : List (List Char)) : List (List Char) :=
  if path.getLast? = some [] then path.dropLast else path

/-- What an address may be written with: nothing that is stripped, dropped or taken for a slash. -/
def addressChar (c : Char) : Bool := 0x20 < c.toNat && c != '\\'

/-- An address without query and fragment that does not end in a slash. -/
structure IsBase (H : Host) (text : List Char) (base : Url) : Prop where
  parse : H.parse text = some (.web base)
  chars : ∀ c ∈ text, addressChar c
  last : text.getLast? ≠ some '/'
  query : base.query = none
  fragment : base.fragment = none

/-! ## Slashes at the end -/

theorem clean_of_chars {text : List Char} (h : ∀ c ∈ text, addressChar c) : clean text = text := by
  have hspace : ∀ c ∈ text, c0OrSpace c = false := by
    intro c hc
    have hchar := h c hc
    simp only [addressChar, Bool.and_eq_true, decide_eq_true_eq] at hchar
    simp only [c0OrSpace, decide_eq_false_iff_not]
    omega
  have htab : ∀ c ∈ text, tabOrNewline c = false := by
    intro c hc
    by_contra htab
    simp only [tabOrNewline, Bool.not_eq_false, Bool.or_eq_true, beq_iff_eq] at htab
    have hchar := h c hc
    rcases htab with (rfl | rfl) | rfl <;> exact absurd hchar (by decide)
  have hdrop : text.dropWhile c0OrSpace = text := by
    rw [List.dropWhile_eq_self_iff]
    intro hlen
    simp [hspace _ (List.getElem_mem hlen)]
  have hrdrop : text.rdropWhile c0OrSpace = text := by
    rw [List.rdropWhile_eq_self_iff]
    intro hne
    simp [hspace _ (List.getLast_mem hne)]
  rw [clean, hdrop, hrdrop, List.filter_eq_self]
  intro c hc
  simp [htab c hc]

/-- A scan that stops within a text, or right after it, stops there whatever comes then. -/
theorem stop_append (p : Char → Bool) {text : List Char} (more : List Char)
    (h : text.dropWhile p = [] → ∀ c ∈ more.head?, p c = false) :
    (text ++ more).takeWhile p = text.takeWhile p ∧
      (text ++ more).dropWhile p = text.dropWhile p ++ more := by
  have hsplit := congrArg List.length (List.takeWhile_append_dropWhile (p := p) (l := text))
  rw [List.length_append] at hsplit
  rw [List.takeWhile_append, List.dropWhile_append]
  by_cases hdrop : text.dropWhile p = []
  · have hall : text.takeWhile p = text := by
      simpa [hdrop] using List.takeWhile_append_dropWhile (p := p) (l := text)
    rw [hdrop, hall]
    cases more with
    | nil => simp
    | cons c more => simp [h hdrop c rfl]
  · have hpos := List.length_pos_iff.mpr hdrop
    rw [if_neg (by omega), if_neg (by simpa using hdrop)]
    exact ⟨rfl, rfl⟩

theorem splitScheme_append {text name after : List Char} (h : splitScheme text = some (name, after))
    (more : List Char) : splitScheme (text ++ more) = some (name, after ++ more) := by
  unfold splitScheme at h
  split at h
  · simp at h
  · rename_i c rest
    split at h
    · rename_i halpha
      split at h
      · rename_i after' hdrop
        obtain ⟨rfl, rfl⟩ := Prod.mk.inj (Option.some.inj h)
        obtain ⟨htake, hmore⟩ := stop_append schemeChar more
          (fun hnil : rest.dropWhile schemeChar = [] => by simp [hnil] at hdrop)
        rw [hdrop] at hmore
        simp [splitScheme, halpha, hmore, htake]
      · simp at h
    · simp at h

theorem splitPath_append_slashes (text : List Char) (k : Nat) :
    splitPath (text ++ List.replicate k '/') = splitPath text ++ List.replicate k [] := by
  induction k with
  | zero => simp
  | succ k ih =>
      rw [List.replicate_succ', ← List.append_assoc, Host.splitPath_append_slash, ih,
        List.append_assoc, ← List.replicate_succ']

theorem splitPath_cons (c : Char) (text : List Char) :
    splitPath (c :: text) =
      if isSlash c then [] :: splitPath text else (splitPath text).modifyHead (c :: ·) :=
  List.splitOnP_cons_eq_if_modifyHead ..

theorem splitPath_ne_nil (text : List Char) : splitPath text ≠ [] := List.splitOnP_ne_nil _ _

theorem getLast?_splitPath {text : List Char} (hne : text ≠ [])
    (hlast : ∀ c, text.getLast? = some c → isSlash c = false) :
    (splitPath text).getLast? ≠ some [] := by
  induction text with
  | nil => exact absurd rfl hne
  | cons c text ih =>
      rw [splitPath_cons]
      cases text with
      | nil =>
          rw [if_neg (by simp [hlast c rfl])]
          simp [splitPath]
      | cons d text =>
          have htext := ih (by simp) fun e he => hlast e (by rwa [List.getLast?_cons_cons])
          cases hsplit : splitPath (d :: text) with
          | nil => exact absurd hsplit (splitPath_ne_nil _)
          | cons segment segments =>
              rw [hsplit] at htext
              split
              · rwa [List.getLast?_cons_cons]
              · cases segments with
                | nil => simp
                | cons next segments => simpa using htext

theorem directory_concat_nil (path : List (List Char)) : directory (path ++ [[]]) = path := by
  simp [directory]

theorem directory_concat {segment : List Char} (h : segment ≠ []) (path : List (List Char)) :
    directory (path ++ [segment]) = path ++ [segment] := by
  simp [directory, h]

theorem pathEncode_ne_nil {segment : List Char} (h : segment ≠ []) : pathEncode segment ≠ [] := by
  intro hnil
  have hpos := Percent.decode_pos h
  rw [← decode_pathEncode, hnil] at hpos
  simp [Percent.decode] at hpos

theorem addSegments_replicate (path : List (List Char)) (k : Nat) :
    addSegments path (List.replicate k []) = path ++ List.replicate k [] := by
  rw [addSegments_of_no_dots]
  · simp [pathEncode]
  · intro segment hsegment
    rw [List.eq_of_mem_replicate hsegment]
    decide

/-- Slashes after a path end its directory, and more of them add empty segments. -/
theorem addSegments_append_slashes {segments : List (List Char)} (hne : segments ≠ [])
    (hlast : segments.getLast? ≠ some []) (path : List (List Char)) (k : Nat) :
    addSegments path (segments ++ List.replicate (k + 1) []) =
      directory (addSegments path segments) ++ List.replicate (k + 1) [] := by
  induction segments generalizing path with
  | nil => exact absurd rfl hne
  | cons segment rest ih =>
      have hmore : rest ++ List.replicate (k + 1) [] ≠ [] := by simp
      rw [List.cons_append, addSegments, addSegments]
      simp only [if_neg hmore]
      cases rest with
      | nil =>
          have hsegment : segment ≠ [] := by simpa using hlast
          simp only [List.nil_append, if_true, addSegments_replicate, List.append_nil]
          split_ifs
          · rw [addSegments, directory_concat_nil]
          · rw [addSegments, directory_concat_nil]
          · rw [addSegments, directory_concat (pathEncode_ne_nil hsegment)]
      | cons next rest =>
          rw [List.getLast?_cons_cons] at hlast
          have hnext := ih (by simp) hlast
          simp only [reduceCtorEq, if_false]
          split_ifs <;> exact hnext _

/-! ## Colons -/

/-- The colons in a path; encoding leaves them alone. -/
def colons (path : List (List Char)) : Nat := path.flatten.count ':'

theorem colons_append (path path' : List (List Char)) :
    colons (path ++ path') = colons path + colons path' := by
  rw [colons, List.flatten_append, List.count_append]
  rfl

theorem colons_replicate (k : Nat) : colons (List.replicate k []) = 0 := by
  simp [colons]

theorem count_pathText (path : List (List Char)) : (pathText path).count ':' = colons path := by
  induction path with
  | nil => rfl
  | cons segment path ih =>
      rw [pathText, List.flatMap_cons, List.cons_append, List.count_cons_of_ne (by decide),
        List.count_append, colons, List.flatten_cons, List.count_append]
      exact congrArg (_ + ·) ih

theorem count_pathEncode_le (text : List Char) : (pathEncode text).count ':' ≤ text.count ':' := by
  induction text with
  | nil => exact Nat.le_refl _
  | cons c text ih =>
      rw [pathEncode, Percent.encode_cons, List.count_append, ← List.singleton_append,
        List.count_append]
      refine Nat.add_le_add ?_ ih
      by_cases hkeep : pathChar c
      · simp [Percent.encodeChar, hkeep]
      · have hnone : ':' ∉ Percent.encodeChar pathChar c := by
          intro hmem
          have hencoded : ':' ∈ Percent.encode pathChar [c] := by simpa [Percent.encode] using hmem
          rcases Percent.mem_encode hencoded with ⟨hc, hchar⟩ | hc | ⟨n, hn, hc⟩
          · exact hkeep (List.mem_singleton.mp hc ▸ hchar)
          · exact absurd hc (by decide)
          · have hall : ∀ n : Fin 16, ':' ≠ Hex.upperDigit n := by decide
            exact hall ⟨n, hn⟩ hc
        rw [List.count_eq_zero.mpr hnone]
        exact Nat.zero_le _

theorem colons_dropLast_le (path : List (List Char)) : colons path.dropLast ≤ colons path := by
  cases path using List.reverseRecOn with
  | nil => exact Nat.le_refl _
  | append_singleton path segment =>
      rw [List.dropLast_concat, colons_append]
      exact Nat.le_add_right _ _

theorem colons_addSegments_le (path segments : List (List Char)) :
    colons (addSegments path segments) ≤ colons path + colons segments := by
  induction segments generalizing path with
  | nil => exact Nat.le_refl _
  | cons segment rest ih =>
      have hlast : colons (if rest = [] then [[]] else []) = 0 := by split <;> rfl
      have hcons : colons (segment :: rest) = segment.count ':' + colons rest := by
        rw [colons, List.flatten_cons, List.count_append]
        rfl
      rw [addSegments, hcons]
      generalize (if rest = [] then [[]] else []) = last at hlast ⊢
      split_ifs
      · have hle := ih (path.dropLast ++ last)
        rw [colons_append, hlast] at hle
        have hdrop := colons_dropLast_le path
        omega
      · have hle := ih (path ++ last)
        rw [colons_append, hlast] at hle
        omega
      · have hle := ih (path ++ [pathEncode segment])
        have hone : colons [pathEncode segment] = (pathEncode segment).count ':' := by
          simp [colons]
        rw [colons_append, hone] at hle
        have hencode := count_pathEncode_le segment
        omega

theorem colons_splitPath_le (text : List Char) : colons (splitPath text) ≤ text.count ':' := by
  induction text with
  | nil => exact Nat.le_refl _
  | cons c text ih =>
      rw [splitPath_cons]
      split
      · exact ih.trans List.count_le_count_cons
      · cases hsplit : splitPath text with
        | nil => exact absurd hsplit (splitPath_ne_nil text)
        | cons segment segments =>
            rw [hsplit] at ih
            simp only [colons, List.modifyHead_cons, List.flatten_cons, List.cons_append] at ih ⊢
            rw [List.count_cons, List.count_cons]
            omega

theorem colons_withTail_le (scheme : Scheme) (authority : List Char) (path : List (List Char))
    (tail : List Char) :
    colons (withTail scheme authority path tail).path ≤ colons path + tail.count ':' := by
  have hfront : ((tail.takeWhile (· != '#')).takeWhile (· != '?')).count ':' ≤ tail.count ':' :=
    ((List.takeWhile_sublist _).trans (List.takeWhile_sublist _)).count_le _
  have hsegments := colons_splitPath_le ((tail.takeWhile (· != '#')).takeWhile (· != '?'))
  have hle := colons_addSegments_le path
    (splitPath ((tail.takeWhile (· != '#')).takeWhile (· != '?')))
  show colons (addSegments path (splitPath _)) ≤ _
  omega

namespace Host

variable {H : Host} {base url : Url} {after reference name : List Char} {scheme : Scheme}

theorem colons_absolute_le (h : H.absolute scheme after = some url) :
    colons url.path ≤ after.count ':' := by
  unfold absolute at h
  dsimp only at h
  split at h
  · simp at h
  · obtain ⟨authority, -, rfl⟩ := Option.map_eq_some_iff.mp h
    refine (colons_withTail_le ..).trans ?_
    rw [show colons [] = 0 from rfl, Nat.zero_add]
    exact ((dropSlash_suffix _).trans ((List.dropWhile_suffix _).trans
      (List.dropWhile_suffix _))).sublist.count_le _

theorem colons_relative_le (h : H.relative base reference = some url) :
    colons url.path ≤ colons base.path + reference.count ':' := by
  unfold relative at h
  split at h
  · dsimp only at h
    split at h
    · obtain rfl := Option.some.inj h
      exact Nat.le_add_right _ _
    · obtain rfl := Option.some.inj h
      have hdrop := colons_dropLast_le base.path
      exact (colons_withTail_le ..).trans (Nat.add_le_add_right hdrop _)
  · obtain rfl := Option.some.inj h
    have hsuffix := (dropSlash_suffix reference).sublist.count_le ':'
    refine (colons_withTail_le ..).trans ?_
    rw [show colons [] = 0 from rfl]
    omega
  · exact (colons_absolute_le h).trans (Nat.le_add_left _ _)

/-- The colon of the scheme is not part of the path. -/
theorem colons_join_lt (hscheme : splitScheme reference = some (name, after))
    (hclean : clean reference = reference) (h : H.join (.web base) reference = some (.web url)) :
    colons url.path < colons base.path + reference.count ':' := by
  have hcount := (splitScheme_suffix hscheme).sublist.count_le ':'
  rw [List.count_cons_self] at hcount
  have hle : colons url.path ≤ colons base.path + after.count ':' := by
    simp only [join, hclean, hscheme] at h
    split at h
    · simp at h
    · split at h
      · obtain ⟨url', hrelative, heq⟩ := Option.map_eq_some_iff.mp h
        obtain rfl := Href.web.inj heq
        exact colons_relative_le hrelative
      · obtain ⟨url', habsolute, heq⟩ := Option.map_eq_some_iff.mp h
        obtain rfl := Href.web.inj heq
        exact (colons_absolute_le habsolute).trans (Nat.le_add_left _ _)
  omega

end Host

/-! ## Bases -/

namespace Host

variable {H : Host} {base url : Url} {text after : List Char} {scheme : Scheme}

theorem no_marks_of_withTail {authority tail : List Char} {path : List (List Char)}
    (hquery : (withTail scheme authority path tail).query = none)
    (hfragment : (withTail scheme authority path tail).fragment = none) :
    '?' ∉ tail ∧ '#' ∉ tail := by
  have hhash := cut_eq_none (Option.map_eq_none_iff.mp hfragment)
  refine ⟨?_, hhash⟩
  simp only [withTail, cut_of_not_mem hhash] at hquery
  exact cut_eq_none (Option.map_eq_none_iff.mp hquery)

/-- Slashes after what follows the authority. -/
theorem withTail_append_slashes {authority tail : List Char} (hback : '\\' ∉ tail)
    (hends : ∀ c ∈ tail.head?, endsAuthority c) (hlast : tail.getLast? ≠ some '/')
    (hquery : (withTail scheme authority [] (dropSlash tail)).query = none)
    (hfragment : (withTail scheme authority [] (dropSlash tail)).fragment = none) (k : Nat) :
    withTail scheme authority [] (dropSlash (tail ++ List.replicate (k + 1) '/')) =
      { withTail scheme authority [] (dropSlash tail) with
        path := directory (withTail scheme authority [] (dropSlash tail)).path ++
          List.replicate (k + 1) [] } := by
  obtain ⟨hquestion, hhash⟩ := no_marks_of_withTail hquery hfragment
  rw [withTail_of_no_marks hquestion hhash]
  cases tail with
  | nil =>
      show withTail scheme authority [] (List.replicate k '/') = _
      have hempty := splitPath_append_slashes [] k
      rw [withTail_of_no_marks (by simp) (by simp), ← List.nil_append (List.replicate k '/'),
        hempty]
      show Url.mk scheme authority (addSegments [] (List.replicate (k + 1) [])) none none = _
      rw [addSegments_replicate]
      rfl
  | cons c rest =>
      have hc : endsAuthority c := hends c rfl
      simp only [endsAuthority, isSlash, Bool.or_eq_true, beq_iff_eq] at hc
      rcases hc with ((rfl | rfl) | rfl) | rfl
      · have hrest : rest ≠ [] := by
          rintro rfl
          exact hlast rfl
        have hslash : ∀ c, rest.getLast? = some c → isSlash c = false := by
          intro c hc
          rw [List.getLast?_cons, hc] at hlast
          have hne : c ≠ '\\' := by
            rintro rfl
            exact hback (List.mem_cons_of_mem _ (List.mem_of_getLast? hc))
          simp_all [isSlash]
        have hquestion : '?' ∉ rest := hquestion
        have hhash : '#' ∉ rest := hhash
        show withTail scheme authority [] (rest ++ List.replicate (k + 1) '/') = _
        rw [withTail_of_no_marks (by simpa using hquestion) (by simpa using hhash),
          splitPath_append_slashes,
          addSegments_append_slashes (splitPath_ne_nil rest) (getLast?_splitPath hrest hslash)]
        rfl
      · simp at hback
      · simp [dropSlash, isSlash] at hquestion
      · simp [dropSlash, isSlash] at hhash

theorem absolute_append_slashes (h : H.absolute scheme after = some url) (hback : '\\' ∉ after)
    (hlast : after.getLast? ≠ some '/') (hquery : url.query = none)
    (hfragment : url.fragment = none) (k : Nat) :
    H.absolute scheme (after ++ List.replicate (k + 1) '/') =
      some { url with path := directory url.path ++ List.replicate (k + 1) [] } := by
  unfold absolute at h ⊢
  dsimp only at h ⊢
  split at h
  · simp at h
  · rename_i hhost
    obtain ⟨authority, hauthority, rfl⟩ := Option.map_eq_some_iff.mp h
    have htext : after.dropWhile isSlash ≠ [] := fun hnil => hhost (by rw [hnil]; rfl)
    obtain ⟨-, hdrop⟩ := stop_append isSlash (List.replicate (k + 1) '/')
      fun hnil : after.dropWhile isSlash = [] => absurd hnil htext
    have hstop : (after.dropWhile isSlash).dropWhile (fun c => !endsAuthority c) = [] →
        ∀ c ∈ (List.replicate (k + 1) '/').head?, (!endsAuthority c) = false := by
      intro _
      simp [List.replicate_succ, endsAuthority, isSlash]
    obtain ⟨htake, htail⟩ := stop_append _ _ hstop
    rw [hdrop, htake, htail, if_neg hhost, hauthority, Option.map_some]
    congr 1
    have hsuffix : (after.dropWhile isSlash).dropWhile (fun c => !endsAuthority c) <:+ after :=
      (List.dropWhile_suffix _).trans (List.dropWhile_suffix _)
    have hends := List.head?_dropWhile_not (fun c => !endsAuthority c) (after.dropWhile isSlash)
    refine withTail_append_slashes (fun hmem => hback (hsuffix.mem hmem)) ?_ ?_ hquery hfragment k
    · intro c hc
      rw [Option.mem_def.mp hc] at hends
      simpa using hends
    · intro hslash
      have hne : (after.dropWhile isSlash).dropWhile (fun c => !endsAuthority c) ≠ [] := by
        intro hnil
        rw [hnil] at hslash
        simp at hslash
      exact hlast ((getLast?_of_suffix hsuffix hne).symm.trans hslash)

theorem parse_append_slashes (h : IsBase H text base) (k : Nat) :
    H.parse (text ++ List.replicate (k + 1) '/') =
      some (.web { base with path := directory base.path ++ List.replicate (k + 1) [] }) := by
  have hchars : ∀ c ∈ text ++ List.replicate (k + 1) '/', addressChar c := by
    intro c hc
    rcases List.mem_append.mp hc with hc | hc
    · exact h.chars c hc
    · rw [List.eq_of_mem_replicate hc]
      decide
  have hparse := h.parse
  unfold parse at hparse ⊢
  rw [clean_of_chars h.chars] at hparse
  rw [clean_of_chars hchars]
  split at hparse
  · simp at hparse
  · rename_i name after hscheme
    rw [splitScheme_append hscheme]
    dsimp only
    split at hparse
    · rename_i scheme hname
      obtain ⟨url, habsolute, heq⟩ := Option.map_eq_some_iff.mp hparse
      obtain rfl : url = base := Href.web.inj heq
      have hsuffix := splitScheme_suffix hscheme
      have hback : '\\' ∉ after := by
        intro hmem
        exact absurd (h.chars _ (hsuffix.mem (List.mem_cons_of_mem _ hmem))) (by decide)
      have hlast : after.getLast? ≠ some '/' := by
        intro hslash
        refine h.last ?_
        rw [← getLast?_of_suffix hsuffix (by simp), List.getLast?_cons, hslash]
        rfl
      rw [absolute_append_slashes habsolute hback hlast h.query h.fragment]
      rfl
    · simp at hparse

end Host

end Whatwg
