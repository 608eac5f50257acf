import CatalogQuery.Text.Blank
import CatalogQuery.Text.Lowercase

/-!
# Responses of a model

`Response.clean` takes off a response what surrounds the query in it: blanks, and the fence of a
code block. `Response.declines` says whether a response contains the sentinel by which the model
declares a question unanswerable, whatever the case of its letters.
-/

namespace CatalogQuery.Response

/-- The mark that begins and ends a code block. -/
def fence : List Char := "```".toList

/-- A text after a beginning that it has. -/
def stripStart? (start cs : List Char) : Option (List Char) :=
  if start.isPrefixOf cs then some (cs.drop start.length) else none

/-- A text before an ending, if it has that ending. -/
def stripEnd (ending cs : List Char) : List Char :=
  if ending.isSuffixOf cs then cs.take (cs.length - ending.length) else cs

/-- A text after its first line break; all of it, if there is none. -/
def afterFirstLine (cs : List Char) : List Char :=
  match cs.dropWhile (· != '\n') with
  | [] => cs
  | _ :: rest => rest

/-- The query in a response, as characters. The rest of the line on which a fence opens names the
language of the block and is dropped. -/
def cleanChars (response : List Char) : List Char :=
  let trimmed := Text.trim response
  match stripStart? fence trimmed with
  | none => trimmed
  | some rest => Text.trim (stripEnd fence (afterFirstLine rest))

/-- The query in a response. -/
def clean (response : String) : String := String.ofList (cleanChars response.toList)

/-- Whether one text occurs in another. -/
def occursIn (sought : List Char) : List Char → Bool
  | [] => sought.isEmpty
  | c :: cs => sought.isPrefixOf (c :: cs) || occursIn sought cs

/-- Whether a response contains the sentinel. An empty sentinel is contained in none. -/
def declines (response sentinel : String) : Bool :=
  !sentinel.isEmpty
    && occursIn (Text.toLowercase sentinel.toList) (Text.toLowercase response.toList)

end CatalogQuery.Response
