import FmTuner.Text.Blank
import FmTuner.Text.Words

/-!
# Names of backends

Names are compared by their words: the case of ASCII letters and the sort and number of separators
make no difference.
-/

namespace FmTuner.Backend

def isSeparator (c : Char) : Bool :=
  c == '-' || c == '_' || c == '.' || Text.isBlank c

def words (name : String) : List (List Char) :=
  (Text.words isSeparator name.toList).map fun word ↦ word.map Char.toLower

/-- The normal form of a name: its words in lower case, joined by hyphens. -/
def key (name : String) : String :=
  String.ofList (List.intercalate ['-'] (words name))

end FmTuner.Backend
