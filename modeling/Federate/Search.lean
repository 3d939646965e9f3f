import Federate.Core
import Federate.Library.Lines
import Federate.Library.Lossy

/-!
# The search index

Pages are indexed by the words of their text and title, unless they opt out, and a query ranks the
pages that have one of its words. The index and the scores are hash maps, which are iterated in any
order. Unicode's character classes are a parameter.
-/

namespace Federate

/-- The Unicode tables that the standard library reads. -/
class Unicode where
  /-- `char::is_alphanumeric`. -/
  isAlphanumeric : Char → Bool
  /-- `str::to_lowercase`. -/
  toLowercase : String → String

/-! ## Opting out -/

/-- The part of a tag before the first `>`, without white space and quotes. -/
def normalizedTag (tag : List Char) : List Char :=
  (tag.takeWhile (· ≠ '>')).filter fun c =>
    !Text.isWhitespace c && c ≠ Char.ofNat 34 && c ≠ Char.ofNat 39

/-- What `opted_out` looks for in a piece behind a `<`. -/
def tagOptsOut (tag : List Char) : Bool :=
  "meta".toList.isPrefixOf tag &&
    ((decide ("name=robots".toList <:+: normalizedTag tag) ||
      decide ("name=federate".toList <:+: normalizedTag tag)) &&
      decide ("noindex".toList <:+: normalizedTag tag))

/-- `opted_out`. -/
def optedOut (html : String) : Bool :=
  ((Text.toAsciiLowercase html).toList.splitOn '<').any tagOptsOut

/-! ## Text and title -/

/-- `&html[i..]`, with the index in bytes: nothing inside a character. -/
def sliceFrom : List Char → ℕ → Option (List Char)
  | chars, 0 => some chars
  | [], _ + 1 => none
  | c :: rest, i + 1 => if i + 1 < c.utf8Size then none else sliceFrom rest (i + 1 - c.utf8Size)

/-- The state of the loop of `strip_tags`. -/
structure StripState where
  /-- The text so far. -/
  out : List Char
  /-- Inside a tag. -/
  inTag : Bool
  /-- Inside a script or a style element. -/
  skipBlock : Bool
  /-- The index, in bytes. -/
  i : ℕ

/-- Whether a block is skipped from a `<` on. -/
def blockFrom (skipBlock : Bool) (rest : List Char) : Bool :=
  if "<script".toList.isPrefixOf rest || "<style".toList.isPrefixOf rest then true
  else if "</script".toList.isPrefixOf rest || "</style".toList.isPrefixOf rest then false
  else skipBlock

/-- The loop of `strip_tags` at a byte, with the text in lowercase: nothing when it panics. -/
def StripState.step (html lower : List Char) (byte : UInt8) (st : StripState) :
    Option StripState :=
  if !st.inTag && byte == 0x3C then do
    let rest ← sliceFrom lower st.i
    return ⟨st.out, true, blockFrom st.skipBlock rest, st.i + 1⟩
  else if st.inTag && byte == 0x3E then return ⟨st.out ++ [' '], false, st.skipBlock, st.i + 1⟩
  else if !st.inTag && !st.skipBlock then do
    let rest ← sliceFrom html st.i
    let c ← rest.head?
    return ⟨st.out ++ [c], st.inTag, st.skipBlock, st.i + c.utf8Size⟩
  else return ⟨st.out, st.inTag, st.skipBlock, st.i + 1⟩

/-- The loop of `strip_tags`, at most so many rounds. -/
def stripLoop (html lower : List Char) (bytes : Bytes) : ℕ → StripState → Option StripState
  | 0, st => if st.i < bytes.length then none else some st
  | fuel + 1, st =>
    match bytes[st.i]? with
    | none => some st
    | some byte => do
      let next ← st.step html lower byte
      stripLoop html lower bytes fuel next

/-- `strip_tags`; nothing when it panics. Every round goes on by a byte at least. -/
def stripTags (html : String) : Option String := do
  let bytes := Utf8.encode html
  let st ← stripLoop html.toList (Text.toAsciiLowercase html).toList bytes bytes.length
    ⟨[], false, false, 0⟩
  return String.ofList st.out

/-- `extract_title`. Lowercasing keeps the places of the characters. -/
def extractTitle (html : String) : Option String := do
  let lower := (Text.toAsciiLowercase html).toList
  let start ← Text.findText "<title".toList lower
  let opened ← Text.findText ['>'] (html.toList.drop start)
  let openEnd := opened + start + 1
  let length ← Text.findText "</title>".toList (lower.drop openEnd)
  return Text.trim (String.ofList ((html.toList.drop openEnd).take length))

section Index

variable [Unicode]

/-- `tokenize`. -/
def tokenize (text : String) : List String :=
  (((Unicode.toLowercase text).toList.splitOnP fun c => !Unicode.isAlphanumeric c).map
    String.ofList).filter fun t => 2 ≤ Text.byteLen t

/-! ## The index -/

/-- `PageDoc`. -/
structure PageDoc where
  /-- Its domain. -/
  domain : String
  /-- Its path. -/
  path : String
  /-- Its title. -/
  title : String
  /-- Its text, with single spaces. -/
  text : String

/-- `SearchResult`. -/
structure SearchResult where
  /-- The domain of the page. -/
  domain : String
  /-- Its path. -/
  path : String
  /-- Its title. -/
  title : String
  /-- The beginning of its text. -/
  snippet : String
  /-- Its score. -/
  score : ℕ
  deriving DecidableEq

/-- `SearchIndex`. -/
structure SearchIndex where
  /-- The pages. -/
  docs : List PageDoc
  /-- Term, page and how often the page has the term. -/
  inverted : Table String (Table ℕ UInt32)

/-- A page that is to be indexed. -/
structure Page where
  /-- Its domain. -/
  domain : String
  /-- Its path. -/
  path : String
  /-- Its content. -/
  html : String

/-- `*entry(term).or_default().entry(doc_id).or_insert(0) += 1`. -/
def countTerm (docId : ℕ) (inverted : Table String (Table ℕ UInt32)) (term : String) :
    Table String (Table ℕ UInt32) :=
  let postings := inverted.getD term ∅
  inverted.insert term (postings.insert docId (postings.getD docId 0 + 1))

/-- `SearchIndex::default`. -/
def SearchIndex.empty : SearchIndex := ⟨[], ∅⟩

/-- `SearchIndex::index_html`; nothing when it panics. -/
def SearchIndex.indexHtml (s : SearchIndex) (page : Page) : Option (Bool × SearchIndex) :=
  if optedOut page.html then some (false, s)
  else do
    let text ← stripTags page.html
    let title := (extractTitle page.html).getD page.domain
    let inverted := (tokenize text ++ tokenize title).foldl (countTerm s.docs.length) s.inverted
    let doc := ⟨page.domain, page.path, title, String.intercalate " " (Text.splitWhitespace text)⟩
    return (true, ⟨s.docs ++ [doc], inverted⟩)

/-! ## Queries -/

/-- The scores while a query is evaluated: page, sum of the frequencies, matches. -/
abbrev Scores : Type := Table ℕ (ℕ × ℕ)

/-- One posting of a term of the query. -/
def addPosting (scores : Scores) (posting : ℕ × UInt32) : Scores :=
  let entry := scores.getD posting.1 (0, 0)
  scores.insert posting.1 (entry.1 + posting.2.toNat, entry.2 + 1)

/-- One term of the query. Sums do not depend on the order of the postings. -/
def addTerm (inverted : Table String (Table ℕ UInt32)) (scores : Scores) (term : String) : Scores :=
  match inverted[term]? with
  | none => scores
  | some postings => postings.toList.foldl addPosting scores

/-- The scores of a query. -/
def SearchIndex.scores (s : SearchIndex) (query : String) : Scores :=
  (tokenize query).foldl (addTerm s.inverted) ∅

/-- The pages by descending score, when the scores are iterated in this order. The sort is
stable. -/
def rankedBy (order : List (ℕ × ℕ × ℕ)) : List (ℕ × ℕ) :=
  (order.map fun entry => (entry.1, entry.2.1 * entry.2.2)).mergeSort fun a b => b.2 ≤ a.2

/-- The result for a page. -/
def PageDoc.result (d : PageDoc) (score : ℕ) : SearchResult :=
  ⟨d.domain, d.path, d.title, String.ofList (d.text.toList.take 180), score⟩

/-- `SearchIndex::search`, when the scores are iterated in this order, with scores as exact
integers; nothing when it panics. -/
def SearchIndex.searchIn (s : SearchIndex) (order : List (ℕ × ℕ × ℕ)) (query : String)
    (limit : ℕ) : Option (List SearchResult) :=
  if tokenize query = [] then some []
  else ((rankedBy order).take limit).mapM fun ranked => do
    let d ← s.docs[ranked.1]?
    return d.result ranked.2

end Index

end Federate
