/-!
# Conversations with a language model

A conversation is a list of messages, the earliest first. A `Model` answers a conversation with a
text, or fails.
-/

namespace CatalogQuery

/-- Who speaks in a message. -/
inductive Role where
  | system
  | user
  | assistant
  deriving DecidableEq, Repr

def Role.label : Role → String
  | system => "system"
  | user => "user"
  | assistant => "assistant"

/-- One turn of a conversation. -/
structure Message where
  role : Role
  content : String
  deriving DecidableEq, Repr

/-- Why a model gave no text. -/
inductive ModelError where
  | emptyResponse
  | request (reason : String)
  deriving DecidableEq, Repr

def ModelError.message : ModelError → String
  | emptyResponse => "No response from language model"
  | request reason => "Language model request failed: " ++ reason

/-- What answers a conversation. -/
abbrev Model := List Message → Except ModelError String

end CatalogQuery
