import CatalogQuery.Mismatch
import CatalogQuery.Query.Value

/-!
# Checking values against types

`Value.validate type value` is the value as its parameter gets it, or why it does not fit. The only
cast is that an integer stands for a floating-point number where one is declared. A union takes the
first member that fits; if none does, the reason is that of its first member.
-/

namespace CatalogQuery.Value

/-- Applies a check to each item, counted from `index`; the first item that fails decides. -/
def validateItems (check : Value → Except Mismatch Value) (index : Nat) :
    List Value → Except Mismatch (List Value)
  | [] => .ok []
  | v :: rest =>
    match check v with
    | .ok w => (validateItems check (index + 1) rest).map (w :: ·)
    | .error why => .error (.element index why)

mutual

/-- The value as a parameter of the type gets it. -/
def validate : ParamType → Value → Except Mismatch Value
  | .int, .int n => .ok (.int n)
  | .float, .float x => .ok (.float x)
  | .float, .int n => .ok (.float (Binary.ofInt n.toInt))
  | .str, .str s => .ok (.str s)
  | .bool, .bool b => .ok (.bool b)
  | .list t, .list items => (validateItems (validate t) 0 items).map .list
  | .optional _, .none => .ok .none
  | .optional t, v => validate t v
  | .context name, .context c =>
    if c.typeName = name then .ok (.context c)
    else .error (.expected (.context name) (Value.context c).kind)
  | .union [], v => .error (.expected (.union []) v.kind)
  | .union (t :: rest), v =>
    match validate t v with
    | .ok w => .ok w
    | .error why => validateAny why rest v
  | t, v => .error (.expected t v.kind)

/-- The value as the first of several members that takes it gets it; `why` is the reason if none
does. -/
def validateAny (why : Mismatch) : List ParamType → Value → Except Mismatch Value
  | [], _ => .error why
  | t :: rest, v =>
    match validate t v with
    | .ok w => .ok w
    | .error _ => validateAny why rest v

end

end CatalogQuery.Value
