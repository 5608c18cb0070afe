/-!
# Contents of files

What a program has when it has tried to read a file: its bytes, or the reason why there are none.
-/

namespace LinOpt.Lp

/-- Why the contents of a file could not be had. -/
inductive ReadFailure where
  | notFound
  | invalidUtf8
  | other (reason : String)
  deriving Repr, DecidableEq

namespace ReadFailure

def message : ReadFailure → String
  | .notFound => "No such file or directory (os error 2)"
  | .invalidUtf8 => "stream did not contain valid UTF-8"
  | .other reason => reason

end ReadFailure

/-- The text of a file, when its bytes are UTF-8. -/
def decode (contents : Except ReadFailure ByteArray) : Except ReadFailure String :=
  contents.bind fun bytes => match String.fromUTF8? bytes with
    | some source => .ok source
    | none => .error .invalidUtf8

end LinOpt.Lp
