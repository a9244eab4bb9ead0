/-
# Tokens

The tokens of a source text are its token segments with their places and with
the comments that belong to them.  A comment that starts on the line where the
last token before it ends, with no line feed outside of comments in between,
trails that token; any other comment leads the next token.  The end of the text
is a token of its own, so that comments at the end lead something too.

Trailing comments of one token are joined by line feeds; an empty one at the
front is forgotten as soon as another follows.
-/

import ProtoAtlas.Source.Comment
import ProtoAtlas.Source.Position
import ProtoAtlas.Text.Quoted

namespace ProtoAtlas

/-- A token with its place and its comments. -/
structure Token where
  kind : TokenKind
  /-- The source text of the token; a string keeps its quotes. -/
  text : Text
  span : Span
  leading : Option Text
  trailing : Option Text
  deriving DecidableEq

/-- The tokens of a text: a list, and the token at the end of the file. -/
structure TokenStream where
  tokens : List Token
  finish : Token
  deriving DecidableEq

/-- A segment with its place. -/
structure PlacedSegment where
  segment : Segment
  span : Span

namespace Token

/-- Whether a token is a given word. -/
def isWord (t : Token) (word : Text) : Bool :=
  t.kind = .identifier && t.text = word

/-- The comments in front of a token, as one text. -/
def joinLeading (comments : List Text) : Option Text :=
  if comments.isEmpty then none else some (Text.join "\n" comments)

/-- A token with one more trailing comment. -/
def addTrailing (t : Token) (comment : Text) : Token :=
  match t.trailing with
  | some (c :: cs) => { t with trailing := some (c :: cs ++ "\n" ++ comment) }
  | _ => { t with trailing := some comment }

/-- The name of a kind of token. -/
def kindName : TokenKind → String
  | .identifier => "IDENT"
  | .number => "NUMBER"
  | .string => "STRING"
  | .leftBrace => "LBRACE"
  | .rightBrace => "RBRACE"
  | .leftBracket => "LBRACKET"
  | .rightBracket => "RBRACKET"
  | .leftParen => "LPAREN"
  | .rightParen => "RPAREN"
  | .leftAngle => "LANGLE"
  | .rightAngle => "RANGLE"
  | .semicolon => "SEMI"
  | .comma => "COMMA"
  | .equals => "EQUALS"
  | .dot => "DOT"
  | .colon => "COLON"
  | .minus => "MINUS"
  | .plus => "PLUS"
  | .endOfFile => "EOF"

/-- A token as a line of a listing: kind, quoted text and zero-based place. -/
def describe (t : Token) : Text :=
  "Token(" ++ Text.ofString (kindName t.kind) ++ ", " ++ Text.quoted t.text ++ ", " ++
    Text.ofNat t.span.start.line ++ ":" ++ Text.ofNat t.span.start.character ++ ")"

end Token

/-- Whether a segment is a line feed by itself. -/
def Segment.isLineFeed (s : Segment) : Bool :=
  s.shape = .blank && s.text = "\n"

namespace TokenStream

/-- Segments with their places, from a given position on. -/
def place (p : Position) : List Segment → List PlacedSegment
  | [] => []
  | s :: rest =>
    let stop := p.after s.text
    ⟨s, ⟨p, stop⟩⟩ :: place stop rest

/-- Gives the comments to the tokens.  `last` is the latest token, which may
still get trailing comments, `near` tells whether no line feed has come since, and
`pending` are the comments that wait for the next one.  The result has the tokens
and the comments left over. -/
def attach (near : Bool) (last : Option Token) (pending : List Text) :
    List PlacedSegment → List Token × List Text
  | [] => (last.toList, pending)
  | s :: rest =>
    match s.segment.shape with
    | .token kind =>
      let next : Token := ⟨kind, s.segment.text, s.span, Token.joinLeading pending, none⟩
      let (tokens, left) := attach true (some next) [] rest
      (last.toList ++ tokens, left)
    | _ =>
      match s.segment.comment?, last with
      | none, _ => attach (near && !s.segment.isLineFeed) last pending rest
      | some comment, none => attach near none (pending ++ [comment]) rest
      | some comment, some token =>
        if near ∧ token.span.stop.line = s.span.start.line then
          attach near (some (token.addTrailing comment)) pending rest
        else attach near (some token) (pending ++ [comment]) rest

/-- The tokens of a source text. -/
def ofText (t : Text) : TokenStream :=
  let (tokens, left) := attach false none [] (place Position.zero (Segment.segments t))
  let stop := Position.zero.after t
  ⟨tokens, ⟨.endOfFile, [], ⟨stop, stop⟩, Token.joinLeading left, none⟩⟩

/-- All tokens, the end of the file last. -/
def all (s : TokenStream) : List Token :=
  s.tokens ++ [s.finish]

end TokenStream

end ProtoAtlas
