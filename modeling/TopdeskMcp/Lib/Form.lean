import TopdeskMcp.Lib.Url

/-!
# Form-encoded queries

The reader of `application/x-www-form-urlencoded` text, up to the decoding of its bytes as
text: plus signs become spaces before the triples are decoded. `pairs_appendPair` says that an
address to which a pair is appended has its old pairs and then that one, as they were given.
-/

namespace Whatwg

namespace Form

def plusToSpace (text : List Char) : List Char := text.map fun c => if c = '+' then ' ' else c

def decode (text : List Char) : Bytes := Percent.decode (plusToSpace text)

/-- A name and a value, between them the first equals sign. -/
def parsePair (text : List Char) : Bytes × Bytes :=
  (decode (cut '=' text).1, decode ((cut '=' text).2.getD []))

def parse (query : List Char) : List (Bytes × Bytes) :=
  ((query.splitOn '&').filter (· ≠ [])).map parsePair

/-- What is left as it is in a form value. -/
def formChar (c : Char) : Bool := c.isAlphanum || ['*', '-', '.', '_'].contains c

theorem upperDigit_formChar {n : Nat} (h : n < 16) : formChar (Hex.upperDigit n) = true := by
  have hall : ∀ n : Fin 16, formChar (Hex.upperDigit n) = true := by decide
  exact hall ⟨n, h⟩

/-- The characters of an encoding. -/
theorem mem_encodeChar {c d : Char} (h : d ∈ Percent.encodeChar formChar c) :
    formChar d = true ∨ d = '%' := by
  have hmem : d ∈ Percent.encode formChar [c] := by
    rw [Percent.encode_cons, Percent.encode_nil, List.append_nil]
    exact h
  rcases Percent.mem_encode hmem with ⟨-, hkeep⟩ | hpercent | ⟨n, hn, rfl⟩
  · exact .inl hkeep
  · exact .inr hpercent
  · exact .inl (upperDigit_formChar hn)

theorem mem_formEncode {text : String} {d : Char} (h : d ∈ Host.formEncode text) :
    formChar d = true ∨ d = '%' ∨ d = '+' := by
  obtain ⟨c, -, hd⟩ := List.mem_flatMap.mp h
  split at hd
  · exact .inr (.inr (List.mem_singleton.mp hd))
  · cases mem_encodeChar hd with
    | inl hkeep => exact .inl hkeep
    | inr hpercent => exact .inr (.inl hpercent)

/-- No encoding has one of the marks between pairs and their parts. -/
theorem notMem_formEncode {mark : Char} (hmark : formChar mark = false) (hpercent : mark ≠ '%')
    (hplus : mark ≠ '+') (text : String) : mark ∉ Host.formEncode text := by
  intro hmem
  rcases mem_formEncode hmem with hkeep | heq | heq
  · rw [hmark] at hkeep
    simp at hkeep
  · exact hpercent heq
  · exact hplus heq

/-- With its plus signs replaced, an encoding is one that keeps the spaces. -/
theorem plusToSpace_formEncode (text : String) : plusToSpace (Host.formEncode text) =
    Percent.encode (fun c => c == ' ' || formChar c) text.toList := by
  unfold Host.formEncode Percent.encode plusToSpace
  rw [List.map_flatMap]
  congr 1
  funext c
  by_cases hspace : c = ' '
  · subst hspace
    rfl
  · rw [if_neg hspace]
    have hnone : ∀ d ∈ Percent.encodeChar formChar c, (if d = '+' then ' ' else d) = d := by
      intro d hd
      rw [if_neg]
      intro hplus
      subst hplus
      exact absurd (mem_encodeChar hd) (by decide)
    show (Percent.encodeChar formChar c).map (fun c => if c = '+' then ' ' else c) = _
    rw [List.map_congr_left hnone, List.map_id']
    unfold Percent.encodeChar
    simp [hspace]

theorem decode_formEncode (text : String) : decode (Host.formEncode text) = Utf8.encode text := by
  unfold decode
  rw [plusToSpace_formEncode, Percent.decode_encode (by decide)]
  rfl

theorem parsePair_formEncode (key value : String) :
    parsePair (Host.formEncode key ++ '=' :: Host.formEncode value) =
      (Utf8.encode key, Utf8.encode value) := by
  have hkey : '=' ∉ Host.formEncode key :=
    notMem_formEncode (by decide) (by decide) (by decide) key
  have hcut : cut '=' (Host.formEncode key ++ '=' :: Host.formEncode value) =
      (Host.formEncode key, some (Host.formEncode value)) := by
    have hall : ∀ c ∈ Host.formEncode key, (c != '=') = true := by
      intro c hc
      exact bne_iff_ne.mpr fun heq => hkey (heq ▸ hc)
    unfold cut
    rw [List.takeWhile_append_of_pos hall, List.dropWhile_append_of_pos hall]
    simp
  unfold parsePair
  rw [hcut]
  show (decode (Host.formEncode key), decode (Host.formEncode value)) = _
  rw [decode_formEncode, decode_formEncode]

/-- A pair on its own is one field. -/
theorem parse_pair (key value : String) :
    parse (Host.formEncode key ++ '=' :: Host.formEncode value) =
      [(Utf8.encode key, Utf8.encode value)] := by
  have hnone : '&' ∉ Host.formEncode key ++ '=' :: Host.formEncode value := by
    rw [List.mem_append, List.mem_cons, not_or, not_or]
    exact ⟨notMem_formEncode (by decide) (by decide) (by decide) key, by decide,
      notMem_formEncode (by decide) (by decide) (by decide) value⟩
  unfold parse
  rw [List.splitOn_eq_singleton hnone]
  simp [parsePair_formEncode]

theorem parse_append (query rest : List Char) :
    parse (query ++ '&' :: rest) = parse query ++ parse rest := by
  unfold parse
  rw [List.splitOn_append_cons_self, List.filter_append, List.map_append]

end Form

/-- The pairs of the query. -/
def Url.pairs (url : Url) : List (Bytes × Bytes) := (url.query.map Form.parse).getD []

/-- The pair that is appended is the last one, and the others stay. -/
theorem pairs_appendPair (H : Host) (url : Url) (key value : String) :
    ∃ query, H.appendPair (.web url) key value = .web { url with query } ∧
      ({ url with query } : Url).pairs = url.pairs ++ [(Utf8.encode key, Utf8.encode value)] := by
  refine ⟨_, rfl, ?_⟩
  unfold Url.pairs
  cases hquery : url.query with
  | none => exact Form.parse_pair key value
  | some query =>
      cases query with
      | nil => exact Form.parse_pair key value
      | cons c query =>
          show Form.parse (c :: query ++ ['&'] ++ Host.formEncode key ++
            '=' :: Host.formEncode value) = Form.parse (c :: query) ++ _
          rw [List.append_assoc, List.append_assoc]
          show Form.parse (c :: query ++ '&' :: (Host.formEncode key ++
            '=' :: Host.formEncode value)) = _
          rw [Form.parse_append, Form.parse_pair]

theorem pairs_appendPairs (H : Host) (url : Url) (added : List (String × String)) :
    ∃ query, added.foldl (fun href pair => H.appendPair href pair.1 pair.2) (.web url) =
        .web { url with query } ∧
      ({ url with query } : Url).pairs =
        url.pairs ++ added.map fun pair => (Utf8.encode pair.1, Utf8.encode pair.2) := by
  induction added generalizing url with
  | nil => exact ⟨url.query, rfl, (List.append_nil _).symm⟩
  | cons pair added ih =>
      obtain ⟨query, hone, hpairs⟩ := pairs_appendPair H url pair.1 pair.2
      obtain ⟨query', hrest, hpairs'⟩ := ih { url with query }
      refine ⟨query', ?_, ?_⟩
      · rw [List.foldl_cons, hone]
        exact hrest
      · rw [hpairs] at hpairs'
        rw [List.map_cons, List.append_cons]
        exact hpairs'

end Whatwg
