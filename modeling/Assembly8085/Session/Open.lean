import Assembly8085.Session

/-!
# Opening a session

A session is opened on a source that is given or read under the name of its file. What reads a
file is up to the caller; it may fail for reasons of its own, or because the contents are no text.
-/
namespace Assembly8085

/-- Why a source cannot be read. -/
inductive ReadFailure
  /-- Nothing has the name. -/
  | notFound
  /-- A file is used as if it were a directory. -/
  | notDirectory
  /-- A directory is used as if it were a file. -/
  | isDirectory
  /-- The contents are no text in UTF-8. -/
  | invalidText
  /-- Anything else, in the words of the system. -/
  | other (text : String)
  deriving DecidableEq

/-- The wording of a failure to read. -/
def ReadFailure.message : ReadFailure → String
  | .notFound => "No such file or directory (os error 2)"
  | .notDirectory => "Not a directory (os error 20)"
  | .isDirectory => "Is a directory (os error 21)"
  | .invalidText => "stream did not contain valid UTF-8"
  | .other text => text

/-- The characters of a text in UTF-8. -/
def decodeText (bytes : ByteArray) : Except ReadFailure (List Char) :=
  match String.fromUTF8? bytes with
  | some text => .ok text.toList
  | none => .error .invalidText

/-- How a session is to be opened. -/
structure Options where
  /-- Whether every notice is kept; otherwise the first error ends the work. -/
  debug : Bool := false
  /-- The source, if it is not to be read. -/
  source : Option (List Char) := none
  /-- Whether scans pass over layout. -/
  skipTrivia : Bool := false

/-- A source that could not be read. -/
structure OpenFailure where
  /-- The name of its file. -/
  file : String
  /-- What went wrong. -/
  cause : ReadFailure
  deriving DecidableEq

/-- The wording of a failure to open a source. -/
def OpenFailure.message (failure : OpenFailure) : String :=
  "unable to open input file `" ++ failure.file ++ "`: " ++ failure.cause.message

/-- Opens a session on a file, with a reader for the case that no source is given. -/
def Session.openWith (file : String) (options : Options)
    (read : String → Except ReadFailure (List Char)) : Except OpenFailure Session :=
  match options.source.elim (read file) .ok with
  | .ok source =>
    let mode := if options.debug then .debug else .failFast
    .ok ((Session.ofSource file source mode).setSkipTrivia options.skipTrivia)
  | .error cause => .error ⟨file, cause⟩

end Assembly8085
