import TopdeskMcp.Lib.Reference
import TopdeskMcp.Theorems.Paths

/-!
# Joining a base and a path

`build_api_url` adds a slash to a base without one, keeps all slashes of a base that has some, and
takes all slashes off the path. So the slashes of the path do not matter, and those of the base
matter from the second one on; and a path whose first segment reads as a scheme is no path any
more (`joins_iff`).
-/

namespace TopdeskMcp.Theorems.Joining

open Whatwg

/-- A path of non-empty segments, none of them a dot segment, of characters that an address keeps
as they are. -/
structure IsPath (path : List Char) (segments : List (List Char)) : Prop where
  eq : path = ['/'].intercalate segments
  nonempty : segments ≠ []
  segment : ∀ s ∈ segments, s ≠ [] ∧ ¬ IsDot s
  chars : ∀ s ∈ segments, ∀ c ∈ s, pathChar c ∧ isSlash c = false

/-- The address of a base with `m` slashes after it and a path with `n` slashes before it. -/
def build (H : Host) (text path : List Char) (query : List (String × String)) (m n : Nat) :
    Option Href :=
  resolveApiUrl (.whatwg H) (text ++ List.replicate m '/') (List.replicate n '/' ++ path) query

/-- The address is the base, one slash and the path, and its text is the one without slashes. -/
structure Joins (H : Host) (text : List Char) (base : Url) (path : List Char)
    (query : List (String × String)) (m n : Nat) : Prop where
  address : ∃ url, build H text path query m n = some (.web url) ∧ url.scheme = base.scheme ∧
    url.authority = base.authority ∧
    pathText url.path = pathText (directory base.path) ++ '/' :: path
  same : buildApiUrl (.whatwg H) (text ++ List.replicate m '/') (List.replicate n '/' ++ path)
    query = buildApiUrl (.whatwg H) text path query

section

variable {H : Host} {text path : List Char} {base : Url} {segments : List (List Char)}
  {query : List (String × String)} {m n : Nat}

/-! ## The path -/

theorem pathText_eq (h : IsPath path segments) : pathText segments = '/' :: path := by
  rw [h.eq]
  have hne := h.nonempty
  clear h
  induction segments with
  | nil => exact absurd rfl hne
  | cons segment rest ih =>
      cases rest with
      | nil => simp [pathText]
      | cons next rest =>
          rw [List.intercalate_cons_cons, List.append_assoc, List.singleton_append,
            ← ih (by simp)]
          rfl

theorem pathEncode_of_chars {segment : List Char} (h : ∀ c ∈ segment, pathChar c) :
    pathEncode segment = segment := by
  induction segment with
  | nil => rfl
  | cons c segment ih =>
      obtain ⟨hc, hsegment⟩ := List.forall_mem_cons.mp h
      have hrest : Percent.encode pathChar segment = segment := ih hsegment
      rw [pathEncode, Percent.encode_cons, hrest, Percent.encodeChar, if_pos hc]
      rfl

theorem pathEncode_eq (h : IsPath path segments) : segments.map pathEncode = segments := by
  have hall : ∀ s ∈ segments, pathEncode s = s := fun s hs =>
    pathEncode_of_chars fun c hc => (h.chars s hs c hc).1
  rw [List.map_congr_left hall, List.map_id']

theorem splitPath_eq (h : IsPath path segments) : splitPath path = segments := by
  rw [h.eq]
  exact Paths.intercalate_split h.nonempty fun s hs c hc => (h.chars s hs c hc).2

theorem chars_path (h : IsPath path segments) {c : Char} (hc : c ∈ path) :
    c = '/' ∨ pathChar c ∧ isSlash c = false := by
  rw [h.eq] at hc
  rcases Paths.mem_intercalate hc with hslash | ⟨segment, hsegment, hmem⟩
  · exact .inl hslash
  · exact .inr (h.chars segment hsegment c hmem)

theorem notMem_path (h : IsPath path segments) {c : Char} (hslash : c ≠ '/')
    (hchar : pathChar c = false) : c ∉ path := by
  intro hc
  rcases chars_path h hc with heq | ⟨hpath, -⟩
  · exact hslash heq
  · rw [hchar] at hpath
    simp at hpath

theorem clean_path (h : IsPath path segments) : clean path = path := by
  refine clean_of_chars fun c hc => ?_
  rcases chars_path h hc with rfl | ⟨hchar, hslash⟩
  · decide
  · simp only [pathChar, c0Control, Bool.not_eq_true', Bool.or_eq_false_iff,
      decide_eq_false_iff_not] at hchar
    have hspace : c ≠ ' ' := by
      rintro rfl
      simp at hchar
    have hne : c.toNat ≠ 0x20 := fun heq => hspace (Char.toNat_inj.mp heq)
    have hback : c ≠ '\\' := by
      rintro rfl
      simp [isSlash] at hslash
    simp only [addressChar, Bool.and_eq_true, decide_eq_true_eq, bne_iff_ne]
    exact ⟨by omega, hback⟩

/-- The first segment comes first. -/
theorem head_path (h : IsPath path segments) : ∀ c ∈ path.head?, isSlash c = false := by
  rw [h.eq]
  cases hsegments : segments with
  | nil => exact absurd hsegments h.nonempty
  | cons segment rest =>
      have hmem : segment ∈ segments := by simp [hsegments]
      cases hsegment : segment with
      | nil => exact absurd hsegment (h.segment segment hmem).1
      | cons d segment' =>
          have hd : isSlash d = false := (h.chars segment hmem d (by simp [hsegment])).2
          intro c hc
          cases rest with
          | nil =>
              obtain rfl : d = c := by simpa using hc
              exact hd
          | cons next rest =>
              obtain rfl : d = c := by simpa [List.intercalate_cons_cons] using hc
              exact hd

/-! ## The address -/

theorem trimSlashes_append (h : IsPath path segments) (n : Nat) :
    trimSlashes (List.replicate n '/' ++ path) = path := by
  induction n with
  | zero =>
      rw [List.replicate_zero, List.nil_append, Paths.trimSlashes_eq_self_iff]
      rintro rest rfl
      exact absurd (head_path h '/' rfl) (by decide)
  | succ n ih => exact ih

theorem withSlash_append (hlast : text.getLast? ≠ some '/') (m : Nat) :
    withSlash (text ++ List.replicate m '/') = text ++ List.replicate (m - 1 + 1) '/' := by
  cases m with
  | zero => simp [withSlash, hlast]
  | succ m => simp [withSlash, List.getLast?_append, List.getLast?_replicate]

/-- Both are read at once: the base as a directory with empty segments, the path as it is. -/
theorem build_eq (hbase : IsBase H text base) (h : IsPath path segments)
    (query : List (String × String)) (m n : Nat) :
    build H text path query m n =
      (H.join (.web { base with
        path := directory base.path ++ List.replicate (m - 1 + 1) [] }) path).map fun href =>
          query.foldl (fun href pair => H.appendPair href pair.1 pair.2) href := by
  have hparse : (UrlCrate.whatwg H).parse (withSlash (text ++ List.replicate m '/')) = _ :=
    (congrArg H.parse (withSlash_append hbase.last m)).trans (Host.parse_append_slashes hbase (m - 1))
  rw [build, resolveApiUrl, hparse, trimSlashes_append h, Option.map_eq_bind]
  rfl

/-- A path without a scheme goes after the empty segments. -/
theorem build_of_no_scheme (hbase : IsBase H text base) (h : IsPath path segments)
    (hscheme : splitScheme path = none) (query : List (String × String)) (m n : Nat) :
    ∃ queryText, build H text path query m n = some (.web { base with
      path := directory base.path ++ List.replicate (m - 1) [] ++ segments
      query := queryText }) := by
  have hdir : IsDir { base with path := directory base.path ++ List.replicate (m - 1 + 1) [] }
      (directory base.path ++ List.replicate (m - 1) []) :=
    ⟨by rw [List.replicate_succ', List.append_assoc], hbase.query, hbase.fragment⟩
  have hslash : path.takeWhile isSlash = [] := by
    cases hpath : path with
    | nil => rfl
    | cons c rest =>
        have hc := head_path h c (by rw [hpath]; rfl)
        simp [hc]
  have hdots : ∀ s ∈ segments, ¬ IsDot s := fun s hs => (h.segment s hs).2
  rw [build_eq hbase h, Host.join_of_no_scheme hdir hscheme (notMem_path h (by decide) (by decide))
    (notMem_path h (by decide) (by decide)) (clean_path h) hslash, splitPath_eq h,
    addSegments_of_no_dots hdots, pathEncode_eq h, Option.map_some]
  obtain ⟨queryText, hquery⟩ := Paths.appendPairs_web (H := H) { base with
    path := directory base.path ++ List.replicate (m - 1) [] ++ segments } query
  exact ⟨queryText, congrArg some hquery⟩

theorem pathText_append (path path' : List (List Char)) :
    pathText (path ++ path') = pathText path ++ pathText path' := List.flatMap_append

theorem joins_of (hbase : IsBase H text base) (h : IsPath path segments) (hm : m ≤ 1)
    (hscheme : splitScheme path = none) : Joins H text base path query m n := by
  obtain ⟨queryText, hbuild⟩ := build_of_no_scheme hbase h hscheme query m n
  refine ⟨⟨_, hbuild, rfl, rfl, ?_⟩, ?_⟩
  · rw [show m - 1 = 0 by omega, List.replicate_zero, List.append_nil, pathText_append,
      pathText_eq h]
  · have hsame : build H text path query m n = build H text path query 0 0 := by
      rw [build_eq hbase h, build_eq hbase h, show m - 1 = 0 - 1 by omega]
    have hzero : build H text path query 0 0 = resolveApiUrl (.whatwg H) text path query := by
      show resolveApiUrl _ (text ++ []) path query = _
      rw [List.append_nil]
    exact congrArg (Option.map _) (hsame.trans hzero)

/-- A second slash after the base is one slash too many. -/
theorem le_one_of_joins (hbase : IsBase H text base) (h : IsPath path segments)
    (hscheme : splitScheme path = none) (hjoins : Joins H text base path query m n) : m ≤ 1 := by
  obtain ⟨url, hurl, -, -, htext⟩ := hjoins.address
  obtain ⟨queryText, hbuild⟩ := build_of_no_scheme hbase h hscheme query m n
  obtain rfl := Href.web.inj (Option.some.inj (hurl.symm.trans hbuild))
  have hlength := congrArg List.length htext
  have hempty : (pathText (List.replicate (m - 1) [])).length = m - 1 := by
    simp [pathText, List.flatMap_replicate]
  rw [pathText_append, pathText_append, pathText_eq h, List.length_append, List.length_append,
    List.length_append, hempty] at hlength
  omega

theorem appendPairs_foreign (text : List Char) (query : List (String × String)) :
    ∃ text', query.foldl (fun href pair => H.appendPair href pair.1 pair.2) (.foreign text) =
      .foreign text' := by
  induction query generalizing text with
  | nil => exact ⟨text, rfl⟩
  | cons pair query ih => exact ih _

/-- A path that starts with a scheme leads somewhere else, or loses its colon. -/
theorem no_scheme_of_joins (hbase : IsBase H text base) (h : IsPath path segments)
    (hjoins : Joins H text base path query m n) : splitScheme path = none := by
  by_contra hscheme
  obtain ⟨⟨name, after⟩, hscheme⟩ := Option.ne_none_iff_exists'.mp hscheme
  obtain ⟨url, hurl, -, -, htext⟩ := hjoins.address
  rw [build_eq hbase h] at hurl
  obtain ⟨href, hjoin, hquery⟩ := Option.map_eq_some_iff.mp hurl
  cases href with
  | foreign text' =>
      obtain ⟨text'', happend⟩ := appendPairs_foreign (H := H) text' query
      rw [happend] at hquery
      simp at hquery
  | web url' =>
      obtain ⟨queryText, happend⟩ := Paths.appendPairs_web (H := H) url' query
      obtain rfl := Href.web.inj (hquery.symm.trans happend)
      have hlt := Host.colons_join_lt hscheme (clean_path h) hjoin
      have hcount := congrArg (List.count ':') htext
      rw [count_pathText, List.count_append, count_pathText, List.count_cons_of_ne (by decide)]
        at hcount
      rw [colons_append, colons_replicate] at hlt
      dsimp only at hcount
      omega

/-- **Joining.** For a base that does not end in a slash and a path of plain segments, with `m`
slashes after the one and `n` before the other: the address is the base, one slash and the path,
the same for all such `m` and `n`, if and only if there is at most one slash after the base and
the path does not start with a scheme. -/
theorem joins_iff (hbase : IsBase H text base) (h : IsPath path segments)
    (query : List (String × String)) (m n : Nat) :
    Joins H text base path query m n ↔ m ≤ 1 ∧ splitScheme path = none := by
  constructor
  · intro hjoins
    have hscheme := no_scheme_of_joins hbase h hjoins
    exact ⟨le_one_of_joins hbase h hscheme hjoins, hscheme⟩
  · rintro ⟨hm, hscheme⟩
    exact joins_of hbase h hm hscheme

end

namespace Desk

/-- A parser that takes every authority, and every address of another scheme, as it stands. -/
def host : Host where
  authority _ text := some text
  parseForeign text := some text
  joinForeign _ reference := some (.foreign reference)
  appendForeign text _ _ := text

def text : List Char := "https://desk.example/api".toList

def base : Url where
  scheme := .https
  authority := "desk.example".toList
  path := ["api".toList]
  query := none
  fragment := none

theorem isBase : IsBase host text base where
  parse := rfl
  chars := by
    have hall : text.all (fun c => addressChar c) = true := rfl
    simpa using hall
  last := by decide
  query := rfl
  fragment := rfl

theorem isPath_singleton {segment : List Char} (hne : segment ≠ []) (hdot : ¬ IsDot segment)
    (hchars : segment.all (fun c => pathChar c && !isSlash c) = true) :
    IsPath segment [segment] where
  eq := (List.intercalate_singleton ..).symm
  nonempty := by simp
  segment := by simpa using ⟨hne, hdot⟩
  chars := by simpa using hchars

/-- One slash after the base does no harm, two before the path do not either. -/
theorem joins_incidents : Joins host text base "incidents".toList [("pageSize", "10")] 1 2 :=
  (joins_iff isBase (isPath_singleton (by decide) (by decide) rfl) _ 1 2).mpr
    ⟨by decide, by decide⟩

/-- With two slashes after the base the path has an empty segment, and a path with a colon is an
address of its own. -/
theorem joins_fails :
    (∃ segments, IsPath "incidents".toList segments ∧
      ¬ Joins host text base "incidents".toList [] 2 0) ∧
    ∃ segments, IsPath "incidents:search".toList segments ∧
      ¬ Joins host text base "incidents:search".toList [] 0 0 := by
  refine ⟨⟨_, isPath_singleton (by decide) (by decide) rfl, fun h => ?_⟩,
    ⟨_, isPath_singleton (by decide) (by decide) rfl, fun h => ?_⟩⟩
  · exact absurd h.same (by decide)
  · obtain ⟨url, hurl, -⟩ := h.address
    have hforeign : build host text "incidents:search".toList [] 0 0 =
        some (.foreign "incidents:search".toList) := rfl
    rw [hforeign] at hurl
    simp at hurl

end Desk

end TopdeskMcp.Theorems.Joining
