import TopdeskMcp.Lib.Url

/-!
# Building the address of a call (`core/api_url_builder.rs`)

The base gets a trailing slash, the path loses its leading ones, and `Url::join`
puts them together. The `url` crate is the parameter `UrlCrate`; `whatwg` is the
crate as the URL standard describes it.
-/

namespace TopdeskMcp

/-- `Url::parse`, `Url::join`, `query_pairs_mut().append_pair` and `to_string`. -/
structure UrlCrate where
  Url : Type
  parse : List Char → Option Url
  join : Url → List Char → Option Url
  appendPair : Url → String → String → Url
  toStr : Url → List Char

def UrlCrate.whatwg (H : Whatwg.Host) : UrlCrate where
  Url := Whatwg.Href
  parse := H.parse
  join := H.join
  appendPair := H.appendPair
  toStr := Whatwg.Href.toChars

def withSlash (baseUrl : List Char) : List Char :=
  if baseUrl.getLast? = some '/' then baseUrl else baseUrl ++ ['/']

/-- `trim_start_matches('/')`. -/
def trimSlashes (path : List Char) : List Char := path.dropWhile (· == '/')

/-- The address before it becomes text. -/
def resolveApiUrl (U : UrlCrate) (baseUrl path : List Char) (query : List (String × String)) :
    Option U.Url := do
  let base ← U.parse (withSlash baseUrl)
  let url ← U.join base (trimSlashes path)
  return query.foldl (fun url pair => U.appendPair url pair.1 pair.2) url

def buildApiUrl (U : UrlCrate) (baseUrl path : List Char) (query : List (String × String)) :
    Option (List Char) :=
  (resolveApiUrl U baseUrl path query).map U.toStr

/-- The base as it is parsed always ends in a slash. -/
theorem withSlash_eq (baseUrl : List Char) : ∃ text, withSlash baseUrl = text ++ ['/'] := by
  unfold withSlash
  split
  · rename_i hlast
    exact List.getLast?_eq_some_iff.mp hlast
  · exact ⟨baseUrl, rfl⟩

end TopdeskMcp
