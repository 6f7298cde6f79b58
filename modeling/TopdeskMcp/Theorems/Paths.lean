import TopdeskMcp.Services.ApiClient
import TopdeskMcp.Theorems.Credentials

/-!
# Where a call can go

A path template is a sequence of segments, each made of literal text and
placeholders. Its rendering is what `apply_path_params` makes of it
(`applyPathParams_eq`); the call is confined when the address it is sent to
continues the base with exactly these segments.

* Arguments are encoded, so no argument can add a slash. But resolving the path
  against the base reads the spellings of `.` and `..` through the encoding, drops
  leading empty segments, and cleans the text.
* `confined_iff`: a call is confined exactly when its rendered path holds none of
  these. Whatever else the resolver does, what is not `Safe` loses weight on the
  way, and a confined address weighs all that its template does
  (`safe_of_confined`).
-/

namespace TopdeskMcp.Theorems.Paths

open Whatwg

/-- A piece of a segment. -/
inductive Part where
  | literal (text : List Char)
  | placeholder (name : List Char)

/-- Literal text has no brace that opens a placeholder and none of `/?#:\`; a name
ends at the closing brace. -/
def Part.WellFormed : Part → Prop
  | .literal text => ∀ c ∈ text, c ∉ ['{', '/', '?', '#', ':', '\\']
  | .placeholder name => '}' ∉ name

/-- The piece in the template. -/
def Part.source : Part → List Char
  | .literal text => text
  | .placeholder name => '{' :: name ++ ['}']

/-- The piece with its argument filled in. -/
def Part.render (args : Args) : Part → List Char
  | .literal text => text
  | .placeholder name => encodeArg (plainArg args (String.ofList name))

abbrev Segment := List Part

def Segment.source (segment : Segment) : List Char := segment.flatMap Part.source

def Segment.render (args : Args) (segment : Segment) : List Char :=
  segment.flatMap (Part.render args)

/-- A path template: segments between slashes, with or without one in front. -/
structure PathTemplate where
  leadingSlash : Bool
  segments : List Segment
  nonempty : segments ≠ []
  wellFormed : ∀ segment ∈ segments, ∀ part ∈ segment, part.WellFormed

namespace PathTemplate

def source (t : PathTemplate) : List Char :=
  (if t.leadingSlash then ['/'] else []) ++ ['/'].intercalate (t.segments.map Segment.source)

/-- The segments with their arguments filled in. -/
def rendered (t : PathTemplate) (args : Args) : List Char :=
  ['/'].intercalate (t.segments.map (Segment.render args))

end PathTemplate

/-! ## What the scan makes of a template -/

theorem scanPath_literal (args : Args) {text : List Char} (h : '{' ∉ text) (rest : List Char) :
    scanPath args none (text ++ rest) = text ++ scanPath args none rest := by
  induction text with
  | nil => rfl
  | cons c text ih =>
      rw [List.mem_cons, not_or] at h
      rw [List.cons_append, scanPath, if_neg (Ne.symm h.1), ih h.2]
      rfl

theorem scanPath_name (args : Args) {name : List Char} (h : '}' ∉ name) (before rest : List Char) :
    scanPath args (some before) (name ++ '}' :: rest) =
      encodeArg (plainArg args (String.ofList (before ++ name))) ++ scanPath args none rest := by
  induction name generalizing before with
  | nil => simp [scanPath]
  | cons c name ih =>
      rw [List.mem_cons, not_or] at h
      rw [List.cons_append, scanPath, if_neg (Ne.symm h.1), ih h.2]
      simp

theorem scanPath_part (args : Args) {part : Part} (h : part.WellFormed) (rest : List Char) :
    scanPath args none (part.source ++ rest) = part.render args ++ scanPath args none rest := by
  cases part with
  | literal text =>
      have hbrace : '{' ∉ text := fun hmem => h '{' hmem (by simp)
      exact scanPath_literal args hbrace rest
  | placeholder name =>
      have hname := scanPath_name args h [] rest
      simpa [Part.source, Part.render, scanPath] using hname

theorem scanPath_segment (args : Args) {segment : Segment}
    (h : ∀ part ∈ segment, part.WellFormed) (rest : List Char) :
    scanPath args none (segment.source ++ rest) =
      segment.render args ++ scanPath args none rest := by
  induction segment with
  | nil => rfl
  | cons part segment ih =>
      have hsegment := ih fun part hpart => h part (by simp [hpart])
      simp only [Segment.source, Segment.render, List.flatMap_cons, List.append_assoc] at hsegment ⊢
      rw [scanPath_part args (h part (by simp)), hsegment]

theorem scanPath_segments (args : Args) {segments : List Segment}
    (h : ∀ segment ∈ segments, ∀ part ∈ segment, part.WellFormed) :
    scanPath args none (['/'].intercalate (segments.map Segment.source)) =
      ['/'].intercalate (segments.map (Segment.render args)) := by
  induction segments with
  | nil => rfl
  | cons segment rest ih =>
      have hsegment := h segment (by simp)
      cases rest with
      | nil =>
          have hone := scanPath_segment args hsegment []
          simpa [scanPath] using hone
      | cons next rest =>
          -- the slash between two segments is copied
          have hrest := ih fun s hs => h s (by simp [hs])
          simp only [List.map_cons, List.intercalate_cons_cons] at hrest ⊢
          rw [List.append_assoc, scanPath_segment args hsegment, List.append_assoc]
          simp [scanPath, hrest]

/-- The path of a call is its template with every segment filled in. -/
theorem applyPathParams_eq (t : PathTemplate) {endpoint : EndpointRecord}
    (hpath : endpoint.path.toList = t.source) (args : Args) :
    applyPathParams endpoint args =
      (if t.leadingSlash then ['/'] else []) ++ t.rendered args := by
  have hsegments := scanPath_segments args t.wellFormed
  rw [applyPathParams, hpath, PathTemplate.source, PathTemplate.rendered, ← hsegments]
  cases t.leadingSlash with
  | false => rfl
  | true => exact scanPath_literal args (show '{' ∉ ['/'] by decide) _

/-! ## What a rendered path can hold -/

theorem encodeArg_chars {value : String} {c : Char} (h : c ∈ encodeArg value) :
    c.isAlphanum ∨ c = '%' := by
  rcases Percent.mem_encode h with ⟨-, hc⟩ | hc | ⟨n, hn, rfl⟩
  · exact .inl hc
  · exact .inr hc
  · have hall : ∀ n : Fin 16, (Hex.upperDigit n).isAlphanum := by decide
    exact .inl (hall ⟨n, hn⟩)

/-- Neither literal text nor an encoded argument has a delimiter. -/
theorem render_plain {segment : Segment} (h : ∀ part ∈ segment, part.WellFormed) (args : Args)
    {c : Char} (hc : c ∈ segment.render args) : c ∉ ['/', '?', '#', ':', '\\'] := by
  obtain ⟨part, hpart, hc⟩ := List.mem_flatMap.mp hc
  intro hmem
  cases part with
  | literal text => exact h _ hpart c hc (List.mem_cons_of_mem _ hmem)
  | placeholder name =>
      have hkept := encodeArg_chars hc
      simp only [List.mem_cons, List.not_mem_nil, or_false] at hmem
      rcases hmem with rfl | rfl | rfl | rfl | rfl <;> exact absurd hkept (by decide)

theorem mem_intercalate {sep c : Char} {segments : List (List Char)}
    (h : c ∈ [sep].intercalate segments) : c = sep ∨ ∃ segment ∈ segments, c ∈ segment := by
  induction segments with
  | nil => simp [List.intercalate] at h
  | cons segment rest ih =>
      cases rest with
      | nil => exact .inr ⟨segment, by simp, by simpa using h⟩
      | cons next rest =>
          rw [List.intercalate_cons_cons, List.mem_append, List.mem_append] at h
          rcases h with (h | h) | h
          · exact .inr ⟨segment, by simp, h⟩
          · exact .inl (List.mem_singleton.mp h)
          · rcases ih h with h | ⟨segment', hsegment', hc⟩
            · exact .inl h
            · exact .inr ⟨segment', by simp [hsegment'], hc⟩

theorem notMem_rendered (t : PathTemplate) (args : Args) {c : Char} (hslash : c ≠ '/')
    (hc : c ∈ ['/', '?', '#', ':', '\\']) : c ∉ t.rendered args := by
  intro hmem
  rcases mem_intercalate hmem with rfl | ⟨rendered, hrendered, hmem⟩
  · exact hslash rfl
  · obtain ⟨segment, hsegment, rfl⟩ := List.mem_map.mp hrendered
    exact render_plain (t.wellFormed segment hsegment) args hmem hc

theorem rendered_pathOnly (t : PathTemplate) (args : Args) : PathOnly (t.rendered args) where
  no_colon := notMem_rendered t args (by decide) (by decide)
  no_question := notMem_rendered t args (by decide) (by decide)
  no_hash := notMem_rendered t args (by decide) (by decide)

theorem intercalate_split {segments : List (List Char)} (hne : segments ≠ [])
    (h : ∀ segment ∈ segments, ∀ c ∈ segment, isSlash c = false) :
    splitPath (['/'].intercalate segments) = segments := by
  induction segments with
  | nil => exact absurd rfl hne
  | cons segment rest ih =>
      have hsegment := h segment (by simp)
      cases rest with
      | nil => simpa [splitPath] using List.splitOnP_eq_singleton hsegment
      | cons next rest =>
          have hrest := ih (by simp) fun s hs => h s (by simp [hs])
          rw [List.intercalate_cons_cons, List.append_assoc, splitPath]
          show List.splitOnP isSlash (segment ++ '/' :: _) = _
          rw [List.splitOnP_append_cons _ _ (by decide), List.splitOnP_eq_singleton hsegment]
          exact congrArg (segment :: ·) hrest

/-- The resolver splits the rendered path back into the template's segments. -/
theorem splitPath_rendered (t : PathTemplate) (args : Args) :
    splitPath (t.rendered args) = t.segments.map (Segment.render args) := by
  refine intercalate_split (by simpa using t.nonempty) ?_
  intro rendered hrendered c hc
  obtain ⟨segment, hsegment, rfl⟩ := List.mem_map.mp hrendered
  have hplain := render_plain (t.wellFormed segment hsegment) args hc
  by_contra hslash
  simp only [isSlash, Bool.not_eq_false, Bool.or_eq_true, beq_iff_eq] at hslash
  rcases hslash with rfl | rfl <;> simp at hplain

/-! ## Confinement -/

/-- The text of a path segment is that of a template's segment: a single placeholder
percent-decodes to the plain string of its argument, anything else is the filled-in
segment as an address spells it. -/
def SegmentOf (args : Args) : Segment → List Char → Prop
  | [.placeholder name], text =>
      Percent.decode text = Utf8.encode (plainArg args (String.ofList name))
  | segment, text => text = pathEncode (segment.render args)

/-- The address continues the base with exactly the template's segments: they stand
where the base has the empty segment after its last slash. -/
structure Confined (base : Url) (args : Args) (t : PathTemplate) (url : Url) : Prop where
  scheme : url.scheme = base.scheme
  authority : url.authority = base.authority
  path : ∃ texts, url.path = base.path.dropLast ++ texts ∧
    List.Forall₂ (SegmentOf args) t.segments texts

/-- No filled-in segment is a spelling of `.` or `..`, the first of several is not
empty, and the path has nothing that reading an address strips or drops. -/
structure Safe (args : Args) (t : PathTemplate) : Prop where
  no_dots : ∀ segment ∈ t.segments, ¬ IsDot (segment.render args)
  first : ∀ head next rest, t.segments = head :: next :: rest → head.render args ≠ []
  clean : clean (t.rendered args) = t.rendered args

theorem decode_render_placeholder (args : Args) (name : List Char) :
    Percent.decode (Segment.render args [.placeholder name]) =
      Utf8.encode (plainArg args (String.ofList name)) := by
  have hrender : Segment.render args [.placeholder name] =
      encodeArg (plainArg args (String.ofList name)) := List.append_nil _
  rw [hrender]
  exact Percent.decode_encode (by decide) _

theorem SegmentOf.decode {args : Args} {segment : Segment} {text : List Char}
    (h : SegmentOf args segment text) :
    Percent.decode text = Percent.decode (segment.render args) := by
  unfold SegmentOf at h
  split at h
  · rw [h, decode_render_placeholder]
  · rw [h, decode_pathEncode]

theorem segmentOf_pathEncode (args : Args) (segment : Segment) :
    SegmentOf args segment (pathEncode (segment.render args)) := by
  unfold SegmentOf
  split
  · rw [decode_pathEncode, decode_render_placeholder]
  · rfl

theorem weight_of_forall₂ {args : Args} {segments : List Segment} {texts : List (List Char)}
    (h : List.Forall₂ (SegmentOf args) segments texts) :
    weight texts = weight (segments.map (Segment.render args)) := by
  induction h with
  | nil => rfl
  | cons hsegment _ ih => rw [List.map_cons, weight_cons, weight_cons, ih, hsegment.decode]

theorem weight_rendered (t : PathTemplate) (args : Args) :
    weight (t.segments.map (Segment.render args)) =
      (Percent.decode (t.rendered args)).length + 1 := by
  rw [← splitPath_rendered, weight_splitPath]

theorem length_decode_trimSlashes (path : List Char) :
    (Percent.decode (trimSlashes path)).length ≤ (Percent.decode path).length ∧
      (trimSlashes path ≠ path →
        (Percent.decode (trimSlashes path)).length < (Percent.decode path).length) := by
  have hplain : ∀ c ∈ path.takeWhile (· == '/'), Percent.Plain c := by
    intro c hc
    rw [beq_iff_eq.mp (List.mem_takeWhile_imp (p := fun c => c == '/') hc)]
    decide
  have hsplit : path.takeWhile (· == '/') ++ trimSlashes path = path :=
    List.takeWhile_append_dropWhile
  have hnone : ∀ c ∈ ([] : List Char), Percent.Plain c := by simp
  have hle := Percent.length_decode_middle hplain hnone (trimSlashes path)
  rw [List.append_nil, hsplit, List.length_nil, Nat.add_zero] at hle
  refine ⟨by omega, fun hne => ?_⟩
  have hpos : 0 < (path.takeWhile (· == '/')).length := by
    refine List.length_pos_iff.mpr fun hnil => hne ?_
    rwa [hnil] at hsplit
  omega

theorem trimSlashes_eq_self_iff {path : List Char} :
    trimSlashes path = path ↔ ∀ rest, path ≠ '/' :: rest := by
  cases path with
  | nil => simp [trimSlashes]
  | cons c path =>
      by_cases hc : c = '/'
      · subst hc
        have hlen := (List.dropWhile_sublist (· == '/') (l := path)).length_le
        refine ⟨fun h => ?_, fun h => absurd rfl (h path)⟩
        have : (trimSlashes ('/' :: path)).length = path.length + 1 := by rw [h]; rfl
        have hdrop : trimSlashes ('/' :: path) = path.dropWhile (· == '/') := rfl
        rw [hdrop] at this
        omega
      · simp [trimSlashes, hc]

theorem trimSlashes_rendered_iff (t : PathTemplate) (args : Args) :
    trimSlashes (t.rendered args) = t.rendered args ↔
      ∀ head next rest, t.segments = head :: next :: rest → head.render args ≠ [] := by
  have hplain : ∀ segment ∈ t.segments, ∀ rest, Segment.render args segment ≠ '/' :: rest := by
    intro segment hsegment rest heq
    have hmem : '/' ∈ segment.render args := by simp [heq]
    exact render_plain (t.wellFormed segment hsegment) args hmem (by decide)
  rw [trimSlashes_eq_self_iff, PathTemplate.rendered]
  match h : t.segments, t.nonempty with
  -- a single segment has no slash after it that could come to the front
  | [segment], _ =>
      have hone : ['/'].intercalate ([segment].map (Segment.render args)) = segment.render args :=
        List.intercalate_singleton ..
      rw [hone]
      exact ⟨fun _ _ _ _ h => by simp at h, fun _ => hplain segment (by simp [h])⟩
  | head :: next :: rest, _ =>
      have hhead := hplain head (by simp [h])
      simp only [List.map_cons, List.intercalate_cons_cons, List.append_assoc,
        List.singleton_append]
      constructor
      · intro hne head' next' rest' heq hnil
        obtain ⟨rfl, -⟩ := List.cons.inj heq
        exact hne _ (by rw [hnil]; rfl)
      · intro hne text heq
        cases hrender : head.render args with
        | nil => exact hne head next rest rfl hrender
        | cons c tail =>
            rw [hrender] at heq
            exact hhead tail (by rw [hrender, (List.cons.inj heq).1])

/-- A rendered path that loses no slash does not start with one of either kind. -/
theorem takeWhile_isSlash_rendered {t : PathTemplate} {args : Args}
    (h : trimSlashes (t.rendered args) = t.rendered args) :
    (t.rendered args).takeWhile isSlash = [] := by
  have hbackslash := notMem_rendered t args (c := '\\') (by decide) (by decide)
  have hslash := trimSlashes_eq_self_iff.mp h
  cases hrendered : t.rendered args with
  | nil => rfl
  | cons c rest =>
      have hc : ¬ isSlash c := by
        simp only [isSlash, Bool.or_eq_true, beq_iff_eq]
        rintro (rfl | rfl)
        · exact hslash rest hrendered
        · exact hbackslash (by simp [hrendered])
      simp [hc]

variable {H : Host} {base : Url} {dir : List (List Char)} {href : Href}

theorem join_rendered (hbase : IsDir base dir) {t : PathTemplate} {args : Args}
    (htrim : trimSlashes (t.rendered args) = t.rendered args)
    (hclean : clean (t.rendered args) = t.rendered args) :
    H.join (.web base) (trimSlashes (t.rendered args)) = some
      (.web { base with path := addSegments dir (t.segments.map (Segment.render args)) }) := by
  rw [htrim, Host.join_of_clean hbase (rendered_pathOnly t args) hclean
    (takeWhile_isSlash_rendered htrim), splitPath_rendered]

/-- Resolving a safe path appends its segments to the base. -/
theorem confined_of_safe (hbase : IsDir base dir) {t : PathTemplate} {args : Args} {url : Url}
    (hjoin : H.join (.web base) (trimSlashes (t.rendered args)) = some (.web url))
    (hsafe : Safe args t) : Confined base args t url := by
  have htrim := (trimSlashes_rendered_iff t args).mpr hsafe.first
  have hdots : ∀ text ∈ t.segments.map (Segment.render args), ¬ IsDot text := by
    intro text htext
    obtain ⟨segment, hsegment, rfl⟩ := List.mem_map.mp htext
    exact hsafe.no_dots segment hsegment
  rw [join_rendered hbase htrim hsafe.clean, addSegments_of_no_dots hdots] at hjoin
  obtain rfl := Href.web.inj (Option.some.inj hjoin)
  refine ⟨rfl, rfl, (t.segments.map (Segment.render args)).map pathEncode, ?_, ?_⟩
  · simp [hbase.path]
  · rw [List.map_map, List.forall₂_map_right_iff]
    exact List.forall₂_same.mpr fun segment _ => segmentOf_pathEncode args segment

/-- A path that resolves to its template's segments lost nothing on the way. -/
theorem safe_of_confined (hbase : IsDir base dir) {t : PathTemplate} {args : Args} {url : Url}
    (hjoin : H.join (.web base) (trimSlashes (t.rendered args)) = some (.web url))
    (hconfined : Confined base args t url) : Safe args t := by
  obtain ⟨texts, htexts, hsegments⟩ := hconfined.path
  -- a confined address weighs as much as the base and the whole rendered path
  have htotal : weight url.path = weight dir + (Percent.decode (t.rendered args)).length + 1 := by
    rw [htexts, hbase.path, List.dropLast_concat, weight_append, weight_of_forall₂ hsegments,
      weight_rendered]
    omega
  have hpath : PathOnly (trimSlashes (t.rendered args)) :=
    (rendered_pathOnly t args).mono fun _ hc => (List.dropWhile_sublist _).mem hc
  obtain ⟨url', heq, hweight⟩ := Host.weight_join_le hbase hpath hjoin
  obtain rfl : url = url' := by simpa using heq
  obtain ⟨htrimLe, htrimLt⟩ := length_decode_trimSlashes (t.rendered args)
  obtain ⟨hcleanLe, hcleanLt⟩ := length_decode_clean (trimSlashes (t.rendered args))
  -- so no slash was trimmed, nothing was cleaned away
  have htrim : trimSlashes (t.rendered args) = t.rendered args := by
    by_contra hne
    have := htrimLt hne
    omega
  have hclean : clean (t.rendered args) = t.rendered args := by
    rw [htrim] at hcleanLt hcleanLe hweight
    by_contra hne
    have := hcleanLt hne
    omega
  refine ⟨fun segment hsegment hdot => ?_, (trimSlashes_rendered_iff t args).mp htrim, hclean⟩
  -- and no segment was read as a dot segment
  rw [join_rendered hbase htrim hclean] at hjoin
  obtain rfl := Href.web.inj (Option.some.inj hjoin)
  have hlt := (weight_addSegments_le dir (t.segments.map (Segment.render args))).2
    ⟨_, List.mem_map_of_mem hsegment, hdot⟩
  rw [weight_rendered] at hlt
  dsimp only at htotal
  omega

/-! ## Calls -/

theorem appendPairs_web (url : Url) (query : List (String × String)) :
    ∃ queryText, query.foldl (fun href pair => H.appendPair href pair.1 pair.2) (.web url) =
      .web { url with query := queryText } := by
  induction query generalizing url with
  | nil => exact ⟨url.query, rfl⟩
  | cons pair query ih => exact ih _

/-- The query does not matter to confinement. -/
theorem confined_query {args : Args} {t : PathTemplate} {url : Url} {query : Option (List Char)} :
    Confined base args t { url with query } ↔ Confined base args t url := by
  constructor
  · intro h
    exact ⟨h.scheme, h.authority, h.path⟩
  · intro h
    exact ⟨h.scheme, h.authority, h.path⟩

theorem trimSlashes_applyPathParams (t : PathTemplate) {endpoint : EndpointRecord}
    (hpath : endpoint.path.toList = t.source) (args : Args) :
    trimSlashes (applyPathParams endpoint args) = trimSlashes (t.rendered args) := by
  rw [applyPathParams_eq t hpath]
  cases t.leadingSlash <;> rfl

/-- The address of a call that reaches `dispatch` continues the base with exactly the
segments of its template if and only if the filled-in path is safe. -/
theorem confined_iff (H : Host) {client : ApiClient} {endpoint : EndpointRecord}
    {args : Json.Value} {requestOverride : Option RequestCredentials} {env : CallEnv}
    {auth : AuthState} {request : Request} {t : PathTemplate} {base : Url}
    (hbase : H.parse (withSlash client.config.url.toList) = some (.web base))
    (hquery : base.query = none) (hfragment : base.fragment = none)
    (hpath : endpoint.path.toList = t.source)
    (h : (client.execute (.whatwg H) endpoint args requestOverride env auth).1.dispatched =
      some request) :
    ∃ url, resolveApiUrl (.whatwg H) client.config.url.toList
        (applyPathParams endpoint (argsMap args))
        (pickByLocation endpoint (argsMap args) "query") = some (.web url) ∧
      request.url = url.toChars ∧
      (Confined base (argsMap args) t url ↔ Safe (argsMap args) t) := by
  obtain ⟨text, -, hurl, -, rfl⟩ := ApiClient.prepare_eq_ok (ApiClient.execute_dispatched h)
  obtain ⟨href, hresolve, rfl⟩ := Option.map_eq_some_iff.mp hurl
  -- the base ends in a slash, so it is a directory
  obtain ⟨basetext, hslash⟩ := withSlash_eq client.config.url.toList
  obtain ⟨dir, hdir⟩ := Host.parse_dir (hslash ▸ hbase) hquery hfragment
  obtain ⟨parsed, hparsed, hjoined⟩ := Option.bind_eq_some_iff.mp hresolve
  obtain rfl : Href.web base = parsed := Option.some.inj (hbase.symm.trans hparsed)
  obtain ⟨joined, hjoin, hpairs⟩ := Option.bind_eq_some_iff.mp hjoined
  rw [trimSlashes_applyPathParams t hpath] at hjoin
  have htrimmed : PathOnly (trimSlashes (t.rendered (argsMap args))) :=
    (rendered_pathOnly t _).mono fun _ hc => (List.dropWhile_sublist _).mem hc
  obtain ⟨url, rfl, -⟩ := Host.weight_join_le hdir htrimmed hjoin
  -- the query arguments come last and leave the path alone
  obtain ⟨query, hweb⟩ := appendPairs_web (H := H) url
    (pickByLocation endpoint (argsMap args) "query")
  obtain rfl : Href.web { url with query } = href := hweb.symm.trans (Option.some.inj hpairs)
  exact ⟨_, hresolve, rfl, confined_query.trans
    ⟨safe_of_confined hdir hjoin, confined_of_safe hdir hjoin⟩⟩

/-! ### The addresses of an incident -/

namespace Incident

/-- A parser that takes every authority as it stands. -/
def host : Host where
  authority _ text := some text
  parseForeign _ := none
  joinForeign _ _ := none
  appendForeign text _ _ := text

def client : ApiClient :=
  .new { url := "https://desk.example/api", authMethod := .basic, transport := .http }

def baseUrl : Url where
  scheme := .https
  authority := "desk.example".toList
  path := ["api".toList, []]
  query := none
  fragment := none

def endpoint : EndpointRecord where
  path := "/incidents/\x7bid\x7d"
  method := "GET"
  inputSchema := .null

def template : PathTemplate where
  leadingSlash := true
  segments := [[.literal "incidents".toList], [.placeholder "id".toList]]
  nonempty := by simp
  wellFormed := by simp [Part.WellFormed]

def args (id : String) : Json.Value := .object [("id", .string id)]

def basicHeader : RequestCredentials := { headerName := "Authorization", value := "Basic YTpi" }

def env : CallEnv where
  start := 0
  finish := 0
  outcomes := [.response 200 none]
  auth := {
    platform := Credentials.plain
    base64 := fun _ => ""
    username := none
    password := none
    loadKeychain := .noEntry
    loadIo := .healthy
    save := { keychain := .available, io := .healthy, nonce := Credentials.zeroNonce } }

def auth : AuthState where
  manager := .new .basic
  stores := Credentials.empty

def run (id : String) : Executed :=
  (client.execute (.whatwg host) endpoint (args id) (some basicHeader) env auth).1

example : (run "a/b ?").dispatched.map Request.url =
    some "https://desk.example/api/incidents/a%2Fb%20%3F".toList := by decide

/-- An argument spelled `..` sends the call to the base itself. -/
theorem confined_fails : ∃ request, (run "..").dispatched = some request ∧
    host.parse (withSlash client.config.url.toList) = some (.web baseUrl) ∧
    endpoint.path.toList = template.source ∧
    resolveApiUrl (.whatwg host) client.config.url.toList
      (applyPathParams endpoint (argsMap (args "..")))
      (pickByLocation endpoint (argsMap (args "..")) "query") = some (.web baseUrl) ∧
    request.url = baseUrl.toChars ∧ ¬ Confined baseUrl (argsMap (args "..")) template baseUrl := by
  refine ⟨_, rfl, rfl, rfl, rfl, rfl, fun h => ?_⟩
  obtain ⟨texts, hpath, hsegments⟩ := h.path
  have hlength := hsegments.length_eq
  have hdir : ["api".toList] ++ [[]] = ["api".toList] ++ texts := hpath
  rw [← List.append_cancel_left hdir] at hlength
  exact absurd hlength (by decide)

theorem safe_number : Safe (argsMap (args "42")) template where
  no_dots := by decide
  first := by
    rintro head next rest heq
    obtain ⟨rfl, -⟩ := List.cons.inj heq
    decide
  clean := by decide

theorem confined_iff_number : ∃ request url, (run "42").dispatched = some request ∧
    request.url = url.toChars ∧ Confined baseUrl (argsMap (args "42")) template url := by
  have hbase : host.parse (withSlash client.config.url.toList) = some (.web baseUrl) := rfl
  have hpath : endpoint.path.toList = template.source := rfl
  have hsent : (client.execute (.whatwg host) endpoint (args "42") (some basicHeader) env
      auth).1.dispatched = some _ := rfl
  obtain ⟨url, -, hurl, hiff⟩ := confined_iff host hbase rfl rfl hpath hsent
  exact ⟨_, url, rfl, hurl, hiff.mpr safe_number⟩

end Incident

end TopdeskMcp.Theorems.Paths
