/-!
# JSON values

The values that JSON texts denote. A number that is no natural number below 2^64 is only known to
be one, since nothing here computes with it.
-/

namespace Packrat

/-- A JSON value. -/
inductive JsonValue where
  | null
  | bool (value : Bool)
  | natural (value : Nat)
  | otherNumber
  | string (text : String)
  | array (items : List JsonValue)
  | object (fields : List (String × JsonValue))
  deriving Repr, Inhabited

/-- Why a text is not what was to be read: it ends too early, it is no JSON, or it is JSON of
another shape. -/
inductive JsonFault where
  | unfinished
  | malformed
  | misshapen
  deriving Repr, DecidableEq

end Packrat
