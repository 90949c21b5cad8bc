import BuildInputs.Text.WhiteSpace

namespace BuildInputs
namespace GoProxy

/-!
# Taking Go proxies out of a configuration

A configuration for the prefetch tool may fix the proxy for Go modules.  The lines that do so
are taken out, and all others stay as they are, since comments and layout matter to people.  The
text is read line by line and not as a document: a line is judged by how it begins after white
space is taken off, and a `gomod:` line opens a block that lasts as long as lines begin with a
space or a tab.
-/

/-- What a line is, judged by how it begins. -/
def beginsWith (key : Text) (line : Text) : Bool :=
  key.isPrefixOf (Text.trim line)

/-- A line that sets the proxy of the top level.  How far it is indented is not looked at. -/
def isTopLevelProxy (line : Text) : Bool :=
  beginsWith "goproxy_url:".toList line

def opensBlock (line : Text) : Bool :=
  beginsWith "gomod:".toList line

def isBlockProxy (line : Text) : Bool :=
  beginsWith "proxy_url:".toList line

def isIndented (line : Text) : Bool :=
  line.head? = some ' ' || line.head? = some '\t'

/-- The lines that stay.  `inBlock` says whether the lines before left a block open. -/
def keep (inBlock : Bool) : List Text -> List Text
  | [] => []
  | line :: lines =>
      if isTopLevelProxy line then keep inBlock lines
      else if opensBlock line then line :: keep true lines
      else if inBlock && isIndented line then
        if isBlockProxy line then keep true lines else line :: keep true lines
      else line :: keep false lines

def drop (content : Text) : Text :=
  Text.joinWith '\n' (keep false (Text.fields '\n' content))

end GoProxy
end BuildInputs
