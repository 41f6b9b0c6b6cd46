import BuildPlan.Bindings
import BuildPlan.Text.Json
import BuildPlan.Text.Lines
import BuildPlan.Text.Style

/-!
# Listings of a namespace

A namespace can be shown in three ways: one entry a line, where the name is in bold if the stream
can show that and the further lines of a value are indented by four spaces; as a JSON object without
spacing; and as a JSON object with one member a line. All keep the order of the names.
-/

namespace BuildPlan.Listing

/-- One entry: the name in bold, ` = ` and the value, its further lines indented by four spaces. -/
def entry (style : Style) (name value : Text) : Text :=
  style.bold name ++ " = " ++ replaceNewlines "\n    " value ++ ['\n']

/-- One entry after the other. -/
def text (style : Style) (ns : Namespace) : Text := ns.entries.flatMap fun (n, v) => entry style n v

/-- A JSON object without spaces. -/
def compactJson (ns : Namespace) : Text :=
  let members := ns.entries.map fun (n, v) => Json.string n ++ ':' :: Json.string v
  '\x7b' :: [','].intercalate members ++ ['\x7d']

/-- A JSON object with one member a line, indented by two spaces. -/
def indentedJson (ns : Namespace) : Text :=
  if ns.entries.isEmpty then ['\x7b', '\x7d']
  else
    let members := ns.entries.map fun (n, v) => "\n  " ++ Json.string n ++ ": " ++ Json.string v
    '\x7b' :: [','].intercalate members ++ ['\n', '\x7d']

end BuildPlan.Listing
