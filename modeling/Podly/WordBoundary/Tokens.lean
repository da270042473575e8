import Podly.Serde.Value

/-! Words, phrases and where a phrase is found among words, as both refiners compute them. -/
namespace Podly.WordBoundary

/-- What the two languages bring of Unicode: white space and lower case. -/
structure Text where
  isSpace : Char → Bool
  lower : String → String

/-- The white space of Rust's `char::is_whitespace`. -/
def isWhitespace (c : Char) : Bool :=
  let n := c.toNat
  (9 ≤ n && n ≤ 13) || n = 32 || n = 0x85 || n = 0xA0 || n = 0x1680 ||
    (0x2000 ≤ n && n ≤ 0x200A) || n = 0x2028 || n = 0x2029 || n = 0x202F || n = 0x205F ||
    n = 0x3000

/-- Drop the characters that match from both ends. -/
def trimBoth (p : Char → Bool) (s : String) : String :=
  String.ofList ((s.toList.dropWhile p).reverse.dropWhile p).reverse

/-- A letter or digit of ASCII, or the apostrophe. -/
def isTokenChar (c : Char) : Bool := c.isAlphanum || c.toNat = 39

/-- `wb_normalize_token`, `_normalize_token`. -/
def normalizeToken (token : String) : String := trimBoth (fun c => !isTokenChar c) token

variable (T : Text)

def Text.trim (s : String) : String := trimBoth T.isSpace s

/-- `wb_split_words`, `_split_words`. -/
def splitWords (text : String) : List String :=
  let rawTokens := (text.toList.splitOnP T.isSpace).filter (· ≠ [])
  (rawTokens.map (fun t => normalizeToken (String.ofList t))).filter (· ≠ "")

/-- `wb_split_words_lower`. -/
def splitWordsLower (text : String) : List String := (splitWords T text).map T.lower

/-- `wb_has_text`. -/
def hasText (s : Option String) : Bool :=
  match s with
  | none => false
  | some s => T.trim s ≠ ""

/-- `wb_find_subsequence`, `_find_subsequence`. -/
def findSubsequence (words target : List String) (chooseLast : Bool) : Option (ℕ × ℕ) :=
  if target = [] ∨ words.length < target.length then none
  else
    let k := target.length
    let found := (List.range (words.length - k + 1)).filter
      (fun i => (words.drop i).take k = target)
    (if chooseLast then found.getLast? else found.head?).map (fun i => (i,i + k - 1))

/-- The lengths a phrase is tried at, longest first. -/
def phraseLengths (n : ℕ) : List ℕ := ((List.range n).map (· + 1)).reverse

/-- `wb_find_phrase_match`, `_find_phrase_match`: the first words of the phrase, shrinking from the
right, or its last ones, shrinking from the left. -/
def findPhraseMatch (words phraseTokens : List String) (directionEnd : Bool) (maxWords : ℕ) :
    Option (ℕ × ℕ) :=
  if words = [] ∨ phraseTokens = [] then none
  else if directionEnd then
    let base := phraseTokens.drop (phraseTokens.length - maxWords)
    (phraseLengths base.length).findSome?
      (fun k => findSubsequence words (base.drop (base.length - k)) true)
  else
    let base := phraseTokens.take maxWords
    (phraseLengths base.length).findSome? (fun k => findSubsequence words (base.take k) false)

/-- A word with its stored times. -/
structure TimedWord where
  token : String
  start : Option ℚ
  stop : Option ℚ
deriving DecidableEq

/-- `wb_exact_phrase_boundary_time`, `_exact_phrase_boundary_time`. -/
def exactPhraseBoundaryTime (timedWords : List TimedWord) (found : ℕ × ℕ) (directionEnd : Bool) :
    Option ℚ :=
  if directionEnd then timedWords[found.2]? >>= TimedWord.stop
  else timedWords[found.1]? >>= TimedWord.start

/-- `wb_resolve_word_index`, `_resolve_word_index`: the named word, else the index into the list,
clamped. -/
def resolveWordIndex (words : List String) (word occurrence : Option String)
    (wordIndex : Option ℤ) : ℕ :=
  let target := match word with
    | none => ""
    | some raw => T.lower (normalizeToken (T.trim raw))
  let found := (List.range words.length).filter
    (fun i => (words[i]?).map T.lower = some target)
  match (if target = "" then [] else found) with
  | [] => (max 0 (min (wordIndex.getD 0) (words.length - 1))).toNat
  | first::rest =>
    if T.lower (T.trim (occurrence.getD "")) = "last" then rest.getLastD first else first

end Podly.WordBoundary
