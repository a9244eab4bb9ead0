/-
# The text of comments

A line comment says what follows its `//`, without the white space around it.
A block comment says what stands between `/*` and `*/`, line by line: each line
loses the white space around it and one `*` in front, and the whole loses the
white space around it.
-/

import ProtoAtlas.Source.Segment

namespace ProtoAtlas
namespace Segment

/-- A line of a block comment without its frame. -/
def unframe (line : Text) : Text :=
  let line := line.dropWhile CodePoint.isBlank
  match line with
  | c :: cs => if c = CodePoint.ofChar '*' then Text.trim cs else Text.trim line
  | [] => []

/-- What a line comment says. -/
def lineCommentText (t : Text) : Text :=
  Text.trim (t.drop 2)

/-- What a block comment says. -/
def blockCommentText (t : Text) : Text :=
  let lines := (blockBody (t.drop 2)).splitOn '\n'
  Text.trim (Text.join "\n" (lines.map unframe))

/-- What a segment says, if it is a comment. -/
def comment? (s : Segment) : Option Text :=
  match s.shape with
  | .lineComment => some (lineCommentText s.text)
  | .blockComment => some (blockCommentText s.text)
  | _ => none

end Segment
end ProtoAtlas
