import DeployManifest.Logging.Filter

/-!
# Setting up logging

Messages go to the output and, if a directory is given, to a file in it.  Which messages are logged is
up to a filter; if none is given, or it cannot be read, those of at least level `info` are.

Logging is set up once.  It is the first message that tells whether there is a file.

- `activeFilter`: the filter of a configuration.
- `setup`: whether logging can be set up.
- `logged`, `files`: the messages that are logged, and what is in the files after that.
-/

namespace DeployManifest.Logging

/-- A directory for a file, as messages show it, and whether files can be made in it. -/
structure Directory where
  shown : String
  isUsable : Bool
  deriving DecidableEq, Repr

/-- How logging is configured. -/
structure Config where
  filter : Option String
  directory : Option Directory
  deriving DecidableEq, Repr

/-- Why logging cannot be set up. -/
inductive SetupError where
  | fileAppender (directory : String)
  /-- It has been set up before. -/
  | alreadyInstalled
  deriving DecidableEq, Repr

/-- What is reported when logging could not be set up. -/
def SetupError.message : SetupError → String
  | .fileAppender directory => "failed to initialize rolling file appender in " ++ directory
  | .alreadyInstalled => "failed to install global tracing subscriber"

/-- The filter of those who do not give one. -/
def defaultFilter : Filter := [⟨none, false, [], false, Level.info.rank⟩]

namespace Config

/-- The filter that counts. -/
def activeFilter (config : Config) : Filter :=
  (config.filter.bind Filter.parse?).getD defaultFilter

/-- The name of the component that sets up logging. -/
def target : String := "bosh_resolver::logging"

/-- The message that tells whether there is a file. -/
def greeting (config : Config) : Message :=
  match config.directory with
  | some d =>
    ⟨.info, target, "file logging enabled directory=" ++ d.shown, ["message", "directory"]⟩
  | none =>
    ⟨.debug, target, "file logging disabled, because no log directory set", ["message"]⟩

/-- Sets up logging; `isInstalled` tells whether that was done before. -/
def setup (config : Config) (isInstalled : Bool) : Except SetupError Unit :=
  match config.directory with
  | some d =>
    if !d.isUsable then .error (.fileAppender d.shown)
    else if isInstalled then .error .alreadyInstalled
    else .ok ()
  | none => if isInstalled then .error .alreadyInstalled else .ok ()

/-- The messages that are logged, of those sent after setting up logging. -/
def logged (config : Config) (sent : List Message) : List Message :=
  match config.setup false with
  | .ok _ => (config.greeting :: sent).filter config.activeFilter.enables
  | .error _ => []

/-- The files that are written: their names and the messages in them. -/
def files (config : Config) (name : String) (sent : List Message) :
    List (String × List Message) :=
  match config.directory, config.setup false with
  | some _, .ok _ => [(name ++ ".log", config.logged sent)]
  | _, _ => []

end Config
end DeployManifest.Logging
