import WaveAccess.Path
import WaveAccess.Text.Basic

/-!
# Destinations and formats of reports
-/

namespace WaveAccess

/-- Where reports go. -/
inductive Destination where
  | console
  | file (path : Path)
  deriving DecidableEq, Repr

namespace Destination

/-- The destination that a text names: the console, or the file at the text's normal path. -/
def ofText (text : String) : Destination :=
  let text := Text.trim text
  if text = "" ∨ text = "console" then .console else .file (Path.normalize ⟨text⟩)

/-- The text of a destination. -/
def text : Destination → String
  | .console => "console"
  | .file path => path.text

end Destination

/-- The form of reports: a listing for readers or a document for programs. -/
inductive ReportFormat where
  | text
  | json
  deriving DecidableEq, Repr

namespace ReportFormat

/-- The name of a format. -/
def name : ReportFormat → String
  | text => "text"
  | json => "json"

/-- The format of a name. -/
def ofName? (s : String) : Option ReportFormat :=
  [text, json].find? (·.name == s)

/-- The text about a name that is no format's. -/
def unknownNameMessage : String := "Matching variant not found"

end ReportFormat

end WaveAccess
