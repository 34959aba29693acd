/-
  The drawing of a curve as a wire value: a record that names its branch.
-/
import FigureData.Statistics.Distribution
import FigureData.Wire.Fields
import FigureData.Wire.Value

namespace FigureData.CurveBranch

def encode : CurveBranch → Wire
  | .bounded => .record [("branch", .text "bounded")]
  | .withOutliers maxRatio fraction =>
    .record [("branch", .text "with-outliers"), ("max_ratio", .float maxRatio),
      ("fraction_less_equal_one", .float fraction)]

/-- The bounded branch has no fields of its own: members are ignored, elements refused. -/
def hasNoElements : Json → Bool
  | .array items => items.isEmpty
  | _ => true

def decode? (j : Json) : Option CurveBranch := do
  match ← j.tagged? "branch" with
  | ("bounded", content) => if hasNoElements content then some .bounded else none
  | ("with-outliers", content) =>
    let fields ← Fields.read? ["max_ratio", "fraction_less_equal_one"] content
    return .withOutliers (← fields.required "max_ratio" Json.number?)
      (← fields.required "fraction_less_equal_one" Json.number?)
  | _ => none

end FigureData.CurveBranch
