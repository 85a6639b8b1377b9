namespace CommitMarking

inductive LogLevel
  | info
  | debug
  deriving DecidableEq, Repr

def LogLevel.text : LogLevel → String
  | info => "INFO"
  | debug => "DEBUG"

def LogLevel.ofVerbose (verbose : Bool) : LogLevel := if verbose then debug else info

end CommitMarking
