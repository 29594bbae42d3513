/-!
# Words

The words of a text are its maximal runs of characters that are no separators.
-/

namespace FmTuner.Text

/-- The runs between separators, the empty ones included. There is always one. -/
def runs (separator : Char → Bool) : List Char → List (List Char)
  | [] => [[]]
  | c :: cs =>
      if separator c then [] :: runs separator cs
      else
        match runs separator cs with
        | [] => [[c]]
        | run :: rest => (c :: run) :: rest

def words (separator : Char → Bool) (cs : List Char) : List (List Char) :=
  (runs separator cs).filter fun run ↦ !run.isEmpty

end FmTuner.Text
