import Typeahead.Text

/-!
# Paths

Path texts are parted by slashes.  Extensions and parent directories are read off the text alone.
-/

namespace Typeahead.Path

def dropSlashes (path : Text) : Text := (path.reverse.dropWhile (· == 0x2F)).reverse

def base (path : Text) : Text := ((dropSlashes path).reverse.takeWhile (· != 0x2F)).reverse

/-- The last dot of the base and what follows it.  A dot at the start of the base begins no
extension, and neither does the second one of `..`. -/
def ext (path : Text) : Text :=
  let name := base path
  let after := name.reverse.takeWhile (· != 0x2E)
  if name == [0x2E, 0x2E] || name.length ≤ after.length + 1 then []
  else 0x2E :: after.reverse

def parent (path : Text) : Text :=
  let front := (dropSlashes path).reverse.dropWhile (· != 0x2F)
  match front with
  | [] => if path.head? == some 0x2F then [0x2F] else [0x2E]
  | [_] => [0x2F]
  | [_, 0x2F] => [0x2F, 0x2F]
  | _ :: rest => rest.reverse

def child (dir name : Text) : Text := dropSlashes dir ++ 0x2F :: name

def hasExt (path : Text) (names : List String) : Bool :=
  names.any fun name => (ext path).toLower == Text.ofString name

end Typeahead.Path
