import CatalogQuery.Agent.Message
import CatalogQuery.Catalog
import CatalogQuery.Query.Value
import CatalogQuery.QueryError

/-!
# What the model is told

A conversation opens with the rules of the language, the functions of the catalog and the contexts,
followed by the question. A response that is no valid query is answered with the reason.
-/

namespace CatalogQuery.Prompt

/-- The rules for a boolean combination of calls. -/
def filterRules : String := "You are an expert at translating natural language questions into IQL filter expressions.

IQL is a subset of Python expression syntax:
- Call the functions listed below with positional arguments only.
- Combine calls with `and`, `or` and `not`; use parentheses to group.
- Arguments are literals: strings ('text'), integers, floats, True, False, None, or lists of literals ([1, 2]).
- A context alias listed below may be passed as a bare name where the parameter type names its context type.
- Comparisons, arithmetic, attribute access, keyword arguments and any function not listed are invalid.

Examples:
filter_by_city('Cracow') and not filter_by_age(30)
(filter_by_name(['John', 'Anne']) or filter_by_city('Paris')) and filter_by_employer(my_company)"

/-- The rules for a single call. -/
def aggregationRules : String := "You are an expert at translating natural language questions into IQL aggregation expressions.

IQL is a subset of Python expression syntax:
- Answer with exactly one call of a function listed below, using positional arguments only.
- Do not combine calls: `and`, `or` and `not` are invalid in an aggregation.
- Arguments are literals: strings ('text'), integers, floats, True, False, None, or lists of literals ([1, 2]).
- A context alias listed below may be passed as a bare name where the parameter type names its context type.

Examples:
count_by_city('Cracow')
mean_salary(['engineering', 'sales'])"

/-- The section that lists the contexts, if there are any. -/
def contextSection (contexts : List Context) : String :=
  if contexts.isEmpty then ""
  else "\n\n## Available contexts\n\n"
    ++ "\n".intercalate (contexts.map fun c => c.name ++ ": " ++ c.typeName)

/-- What the model is told before the question. -/
def system (rules : String) (catalog : Catalog) (contexts : List Context) (sentinel : String) :
    String :=
  rules ++ "\n\n## Available functions\n\n" ++ catalog.describe ++ contextSection contexts
    ++ "\n\nIf the question cannot be answered with the functions above, respond with exactly `"
    ++ sentinel ++ "`.\nReturn ONLY the expression, no explanations."

/-- The messages that open a conversation. -/
def opening (rules question : String) (catalog : Catalog) (contexts : List Context)
    (sentinel : String) : List Message :=
  [⟨.system, system rules catalog contexts sentinel⟩, ⟨.user, question⟩]

/-- The answer to a response that is no valid query. -/
def feedback (question query : String) (error : QueryError) : Message :=
  ⟨.user, "The expression you generated for the question \"" ++ question
    ++ "\" is invalid.\n\nExpression: " ++ query ++ "\nError: " ++ error.message
    ++ "\n\nPlease fix the expression and return ONLY the corrected IQL."⟩

end CatalogQuery.Prompt
