import IslandScript.Text.Search

/-!
# The command line

Without a file the command starts a session; with one it runs the file. A request for help is
answered as soon as it is met, and so is anything that cannot be understood.
-/

namespace IslandScript.Command

/-- What the command runs: a file, or a session if there is none, with the core link or
without. -/
structure Options where
  withCore : Bool
  file : Option String
  deriving DecidableEq, Repr

/-- What the arguments ask for. -/
inductive Invocation where
  | help
  | misuse
  | run (o : Options)
  deriving DecidableEq, Repr

/-- Reads the arguments that are left, given what those before them have chosen. -/
def Invocation.read : Options → List String → Invocation
  | o, [] => .run o
  | o, arg :: rest =>
    if arg == "-h" || arg == "--help" then .help
    else if arg == "--no-prelude" then read { o with withCore := false } rest
    else if ['-'].isPrefixOf arg.toList || o.file.isSome then .misuse
    else read { o with file := some arg } rest

/-- Reads the arguments of the command. -/
def Invocation.ofArgs (args : List String) : Invocation := .read ⟨true, none⟩ args

/-- How the command is used. -/
def usage : String :=
  Text.join "\n"
    ["Usage: oahu [--no-prelude] [file.oahu]",
     "",
     "With no file, starts an interactive session.",
     "",
     "Options:",
     "  --no-prelude   Do not import the core link",
     "  -h, --help     Show this message",
     "",
     "Environment:",
     "  RUST_LOG       Log filter, e.g. RUST_LOG=oahu_eval=debug",
     "  OAHU_LOG_TREE  Print logs as an indented span tree",
     ""]

end IslandScript.Command
