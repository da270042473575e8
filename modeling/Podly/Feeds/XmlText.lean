import Podly.Strings.Replace
import Podly.WordBoundary.Tokens

/-! Text that the sidecar writes into a feed, escaped or as character data, and how it reads text
back from an element. A text is the list of its characters. -/
namespace Podly.Feeds
open Strings WordBoundary

/-- `xml_escape`: one replacement of a character after the other. -/
def xmlEscape (value : List Char) : List Char :=
  let replace := fun (c : Char) (entity : String) (text : List Char) =>
    text.flatMap (fun x => if x = c then entity.toList else [x])
  replace '"' "&quot;" (replace '>' "&gt;" (replace '<' "&lt;" (replace '&' "&amp;" value)))

/-- `decode_xml_text`: one entity after the other, the ampersand first. -/
def decodeXmlText (value : List Char) : List Char :=
  let replace := fun (entity : String) (c : Char) (text : List Char) =>
    replaceAll entity.toList [c] text
  replace "&apos;" '\'' (replace "&quot;" '"' (replace "&gt;" '>' (replace "&lt;" '<'
    (replace "&amp;" '&' value))))

/-- What opens character data. -/
def cdataStart : List Char := "<![CDATA[".toList

/-- What ends character data. -/
def cdataEnd : List Char := "]]>".toList

/-- `str::trim`. -/
def trimText (value : List Char) : List Char :=
  ((value.dropWhile isWhitespace).reverse.dropWhile isWhitespace).reverse

/-- `strip_cdata`. -/
def stripCdata (value : List Char) : List Char :=
  let trimmed := trimText value
  if cdataStart <+: trimmed ∧ cdataEnd <:+ trimmed then
    trimEndMatches cdataEnd (trimStartMatches cdataStart trimmed)
  else trimmed

/-- The name of an element in angle brackets. -/
def openingTag (name : List Char) : List Char := '<'::name ++ ['>']

def closingTag (name : List Char) : List Char := '<':: '/'::name ++ ['>']

/-- `push_cdata_element`. -/
def pushCdataElement (xml name value : List Char) : List Char :=
  xml ++ openingTag name ++ cdataStart ++
    replaceAll cdataEnd (("]]".toList ++ cdataEnd) ++ cdataStart ++ ['>']) value ++ cdataEnd ++
    closingTag name

/-- A character matches a lower-case letter of a name, or another sign, in any case. Besides the
capital two further characters fold to a letter of ASCII. -/
def matchesAnyCase (c x : Char) : Bool :=
  x.toLower = c || (c = 's' && x = 'ſ') || (c = 'k' && x = 'K')

/-- The text begins with a pattern, in any case. -/
def startsAnyCase : List Char → List Char → Bool
  | [], _ => true
  | _::_, [] => false
  | c::pattern, x::text => matchesAnyCase c x && startsAnyCase pattern text

/-- What stands before the first closing tag. -/
def upToClosing (name : List Char) : List Char → Option (List Char)
  | [] => none
  | x::text =>
    if startsAnyCase (closingTag name) (x::text) then some []
    else (upToClosing name text).map (x :: ·)

/-- What follows an opening tag at the beginning of the text, attributes included; no character of a
word follows the name. -/
def afterOpening (isWord : Char → Bool) (name text : List Char) : Option (List Char) :=
  if startsAnyCase ('<'::name) text then
    let rest := text.drop (name.length + 1)
    if (rest.head?.map isWord).getD false then none
    else
      match rest.dropWhile (· ≠ '>') with
      | [] => none
      | _::content => some content
  else none

/-- `block_regex`: the content of the first element of that name. -/
def captureBlock (isWord : Char → Bool) (name : List Char) : List Char → Option (List Char)
  | [] => none
  | x::text =>
    match (afterOpening isWord name (x::text)).bind (upToClosing name) with
    | some content => some content
    | none => captureBlock isWord name text

/-- `xml_text`. -/
def xmlText (isWord : Char → Bool) (xml name : List Char) : Option (List Char) :=
  (captureBlock isWord name xml).map (fun raw => decodeXmlText (stripCdata (trimText raw)))

/-- The elements that hold a description. -/
def descriptionElements : List (List Char) := ["content:encoded".toList,"description".toList]

end Podly.Feeds
