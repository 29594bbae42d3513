/-!
# TOML values

Numbers with a fraction, dates and times are kept as they are written: no setting has such a value.
-/

namespace FmTuner.Toml

inductive Value where
  | string (s : String)
  | integer (i : Int)
  | boolean (b : Bool)
  | float (literal : String)
  | datetime (literal : String)
  | array (items : List Value)
  | table (fields : List (String × Value))
  deriving Repr, Inhabited

end FmTuner.Toml
