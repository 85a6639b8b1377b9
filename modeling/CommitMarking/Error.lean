import CommitMarking.Value

namespace CommitMarking

inductive SystemError
  | notFound
  | permissionDenied
  | fileExists
  | notDirectory
  | isDirectory
  | nameTooLong
  | argumentTooLong
  | nulInArgument
  | nulInPath
  | other (message : String)
  deriving DecidableEq, Repr

def SystemError.message : SystemError → String
  | notFound => "No such file or directory (os error 2)"
  | permissionDenied => "Permission denied (os error 13)"
  | fileExists => "File exists (os error 17)"
  | notDirectory => "Not a directory (os error 20)"
  | isDirectory => "Is a directory (os error 21)"
  | nameTooLong => "File name too long (os error 36)"
  | argumentTooLong => "Argument list too long (os error 7)"
  | nulInArgument => "nul byte found in provided data"
  | nulInPath => "file name contained an unexpected NUL byte"
  | other message => message

/-- The directory of a process is handed over like one of its arguments. -/
def SystemError.inArgument : SystemError → SystemError
  | nulInPath => nulInArgument
  | e => e

/-- Why a process could not be run. A timeout or an exit code is no error. -/
inductive ProcessError
  | invalidCommand (reason : String)
  | spawn (program : String) (source : SystemError)
  | wait (program : String) (source : SystemError)
  | unsafePath (path : String)
  | io (source : SystemError)
  deriving DecidableEq, Repr

def ProcessError.message : ProcessError → String
  | invalidCommand reason => "invalid command: " ++ reason
  | spawn program source => "failed to start " ++ program ++ ": " ++ source.message
  | wait program source => "failed waiting for " ++ program ++ ": " ++ source.message
  | unsafePath path => "refusing to check out path outside the work directory: " ++ path
  | io source => "io error: " ++ source.message

inductive ArithmeticFault
  | divisionByZero (task : String)
  | overflow (task : String)
  | other (message : String)
  deriving DecidableEq, Repr

def ArithmeticFault.message : ArithmeticFault → String
  | divisionByZero task => "division by zero in " ++ task
  | overflow task => "overflow in " ++ task
  | other message => message

inductive GitError
  | notStarted (source : SystemError)
  | failed (args : List String) (complaint : String)
  | recordWithoutPath (header : String)
  | malformedRecord (header : String)
  | other (message : String)
  deriving DecidableEq, Repr

def GitError.message : GitError → String
  | notStarted source => "failed to run git: " ++ source.message
  | failed args complaint => "git " ++ " ".intercalate args ++ " failed: " ++ complaint
  | recordWithoutPath header => "diff record without path: " ++ header
  | malformedRecord header => "malformed diff record: " ++ header
  | other message => message

inductive MarkError
  | unboundVariable (name : String)
  | typeMismatch (name : String) (expected : Kind)
  | arithmetic (fault : ArithmeticFault)
  | process (source : ProcessError)
  | git (source : GitError)
  | io (source : SystemError)
  deriving DecidableEq, Repr

def MarkError.message : MarkError → String
  | unboundVariable name => "unbound variable: " ++ name
  | typeMismatch name expected => "variable " ++ name ++ " is not " ++ expected.text
  | arithmetic fault => "arithmetic fault: " ++ fault.message
  | process source => "process error: " ++ source.message
  | git source => "git error: " ++ source.message
  | io source => "io error: " ++ source.message

inductive HostError
  | unknownSuite (name : String)
  | encode (source : SystemError)
  | io (source : SystemError)
  deriving DecidableEq, Repr

def HostError.message : HostError → String
  | unknownSuite name => "unknown test suite: " ++ name
  | encode source => "failed to encode suite report: " ++ source.message
  | io source => "failed to write suite report: " ++ source.message

end CommitMarking
