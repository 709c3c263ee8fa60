import StyleTokens.Text.Basic

/-!
# Comma-separated records

A record is a line of fields with commas between them. A field that holds a comma, a double
quote or a line feed stands between double quotes, and its own double quotes are doubled.

## Main definitions

* `Csv.field`: a field
* `Csv.record`: a record with its line feed
-/

namespace StyleTokens.Csv

/-- Whether a field has to stand between quotes. -/
def needsQuotes (t : Text) : Bool :=
  t.any fun c => c = ',' || c = '"' || c = '\n'

/-- The text with every double quote doubled. -/
def doubleQuotes (t : Text) : Text :=
  t.flatMap fun c => if c = '"' then ['"', '"'] else [c]

/-- A written field. -/
def field (t : Text) : Text :=
  if needsQuotes t then '"' :: doubleQuotes t ++ ['"'] else t

/-- A written record. -/
def record (fields : List Text) : Text :=
  Text.joined [','] (fields.map field) ++ ['\n']

end StyleTokens.Csv
