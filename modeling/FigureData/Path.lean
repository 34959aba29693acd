/-
  Paths as texts with slashes.
-/
import FigureData.Text.Split

namespace FigureData.Path

def isAbsolute (path : String) : Bool := path.toList.head? = some '/'

/-- Continues `base` by `part`, with one slash between them unless `base` is
empty or ends in one; an absolute part stands alone. -/
def join (base part : String) : String :=
  if isAbsolute part then part
  else if base.isEmpty || base.toList.getLast? = some '/' then base ++ part
  else base ++ "/" ++ part

end FigureData.Path
