import GreenCommunity.Infrastructure.Collation

/-!
# Patterns in the database

`LIKE` compares a text with a pattern character by character: `%` stands for any
characters, `_` for one, and a backslash takes the next character of the pattern
literally.
-/

namespace GreenCommunity.Infrastructure

/-- `same` compares two characters. -/
def like (same : Char → Char → Bool) : List Char → List Char → Bool
  | [], text => text.isEmpty
  | '%' :: pattern, [] => like same pattern []
  | '%' :: pattern, char :: text =>
      like same pattern (char :: text) || like same ('%' :: pattern) text
  | '_' :: pattern, _ :: text => like same pattern text
  | '\\' :: literal :: pattern, char :: text => same literal char && like same pattern text
  | literal :: pattern, char :: text => same literal char && like same pattern text
  | _ :: _, [] => false
termination_by pattern text => pattern.length + text.length

/-- `column.contains(text)`, which does not escape the text. -/
def Collation.contains (coll : Collation) (column text : String) : Bool :=
  like (fun a b => coll.same (String.singleton a) (String.singleton b))
    ('%' :: text.toList ++ ['%']) column.toList

end GreenCommunity.Infrastructure
