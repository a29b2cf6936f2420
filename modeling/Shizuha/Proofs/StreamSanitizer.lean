import Shizuha.Agent.DsmlSalvage
import Shizuha.Machine

/-!
# Sanitizing a stream

The sanitizer keeps the text it is given, in what it has shown and in what it
holds back, as long as it does not strip. Stripping is where a stream and its
text can part: it works on blocks and trims the ends, and on a part of the text
a block may be half there and an end may be no end. If the only source that is
ever stripped is the whole text, the stream shows what `stripDsmlMarkup` makes
of it.
-/

namespace Shizuha.Agent

open Js Machine

/-- The pieces of a text between white space. -/
def words (s : Text) : List Text := (s.splitOnP isSpace).filter (· ≠ [])

variable {s : Sanitizer} {whole delta : Text} {chunks : List Text}

end Shizuha.Agent
