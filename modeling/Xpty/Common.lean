/- What the modules share of `error.rs` and `lib.rs`: the error type, with every
   formatted message kept as its pieces, and `ExitStatus`. A message is the list
   of the literal texts and displayed values that `format!` puts together, so two
   messages are equal only if the same values were formatted in the same places. -/
namespace Xpty

abbrev RawFd := Int

/-- A raw OS error number, as `io::Error::last_os_error` captures it. -/
abbrev Errno := Nat

def ENOENT : Errno := 2
def EACCES : Errno := 13

/-- One piece of a formatted message: a literal, `{}` of a path, `{:?}` of a
string, or `{err:#}` of an errno. -/
inductive Frag (S : Type) where
  | text (t : String)
  | display (p : S)
  | debug (p : S)
  | errno (e : Errno)
  deriving DecidableEq, Repr

abbrev Message (S : Type) := List (Frag S)

/-- `errors.join(sep)` on formatted messages. -/
def joinMessages {S : Type} (sep : Message S) : List (Message S) → Message S
  | [] => []
  | [m] => m
  | m :: ms => m ++ sep ++ joinMessages sep ms

/-- `error::Error`. -/
inductive Error (S : Type) where
  | io (e : Errno)
  | writerAlreadyTaken
  | commandNotFound (msg : Message S)
  | notExecutable (msg : Message S)
  | isDirectory (msg : Message S)
  | pathResolution (msg : Message S)
  | invalidUtf8
  | hresult (code : Int)
  | other (msg : Message S)
  deriving DecidableEq, Repr

/-- `ExitStatus`: the code, and the name of the signal that ended the process. -/
structure ExitStatus where
  code : UInt32
  signal : Option String
  deriving DecidableEq, Repr

def ExitStatus.withExitCode (code : UInt32) : ExitStatus := { code, signal := none }

end Xpty
