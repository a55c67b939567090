import SkyQuery.Source.Span
import SkyQuery.Token.Kind

/-!
# Tokens

A token is a piece of the text with its kind and the places where it begins and ends.
-/

namespace SkyQuery

structure Token where
  kind : Kind
  text : String
  start : Place
  stop : Place
  deriving DecidableEq, Repr

namespace Token

def span (t : Token) : Span := Span.between t.start t.stop

/-- The token that stands for the end of the text. -/
def atEnd (p : Place) : Token := ⟨.endOfText, "", p, p⟩

end Token

end SkyQuery
