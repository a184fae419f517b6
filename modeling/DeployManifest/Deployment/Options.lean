import DeployManifest.Text.Search
import DeployManifest.Deployment.Resolver

/-!
# Options of a resolver

A resolver is configured by two flags, given as arguments or in the environment.  A flag among the
arguments is set, whatever the environment says of it; a variable of the environment has to be `true`
or `false`.  The first argument that is wrong decides which error there is; the environment is looked
at last.

- `Flag`: the flags, with the names they have among the arguments and in the environment.
- `arguments`: what the arguments set, or the first error among them.
- `read`: the options that arguments and environment give together.
- `resolver`: a resolver with these options.
-/

namespace DeployManifest

/-- The flags that a resolver knows: whether a failure while ops files are applied is blamed on one of them,
    and whether every explicit variable must have a value. -/
inductive Flag where
  | detailedOpsEvaluation
  | expectAllExplicitKeys
  deriving DecidableEq, Repr

namespace Flag

/-- All flags that there are. -/
def all : List Flag := [.detailedOpsEvaluation, .expectAllExplicitKeys]

/-- The name of the flag among the arguments, behind two dashes. -/
def argument : Flag → String
  | .detailedOpsEvaluation => "detailed-ops-evaluation"
  | .expectAllExplicitKeys => "expect-all-explicit-keys"

/-- The name of the flag in the environment. -/
def environment : Flag → String
  | .detailedOpsEvaluation => "DETAILED_OPS_EVALUATION"
  | .expectAllExplicitKeys => "EXPECT_ALL_EXPLICIT_KEYS"

end Flag

/-- Why options cannot be read. -/
inductive OptionsError where
  | unknownArgument
  | repeatedFlag
  /-- A flag is given a value. -/
  | unexpectedValue
  | helpRequested
  /-- A variable of the environment is neither true nor false. -/
  | invalidValue
  deriving DecidableEq, Repr

/-- The flags of a resolver. -/
structure ResolverOptions where
  detailedOpsEvaluation : Bool
  expectAllExplicitKeys : Bool
  deriving DecidableEq, Repr

namespace ResolverOptions

/-- Reads an argument behind two dashes: a flag, or the wish for help. -/
def long (given : List Flag) (name : String) (value? : Option (List Char)) :
    Except OptionsError (List Flag) :=
  let flag? := Flag.all.find? fun flag => flag.argument == name
  if flag?.isNone && name != "help" then .error .unknownArgument
  else if value?.isSome then .error .unexpectedValue
  else match flag? with
    | none => .error .helpRequested
    | some flag => if given.contains flag then .error .repeatedFlag else .ok (flag :: given)

/-- Reads one argument. -/
def argument (given : List Flag) (text : List Char) : Except OptionsError (List Flag) :=
  match text with
  | '-' :: '-' :: rest =>
    match Text.splitOnce? '=' rest with
    | some (name, value) => long given (String.ofList name) (some value)
    | none => long given (String.ofList rest) none
  | '-' :: 'h' :: _ => .error .helpRequested
  | _ => .error .unknownArgument

/-- The flags among the arguments.  Nothing may follow two dashes that stand alone. -/
def arguments (given : List Flag) : List String → Except OptionsError (List Flag)
  | [] => .ok given
  | first :: rest =>
    if first == "--" then
      if rest.isEmpty then .ok given else .error .unknownArgument
    else match argument given first.toList with
      | .error e => .error e
      | .ok given => arguments given rest

/-- Whether a flag is set, among the arguments or in the environment. -/
def isSet (given : List Flag) (environment : String → Option String) (flag : Flag) :
    Except OptionsError Bool :=
  if given.contains flag then .ok true
  else match environment flag.environment with
    | none => .ok false
    | some text =>
      if text == "true" then .ok true
      else if text == "false" then .ok false
      else .error .invalidValue

/-- Reads the options. -/
def read (args : List String) (environment : String → Option String) :
    Except OptionsError ResolverOptions := do
  let given ← arguments [] args
  return {
    detailedOpsEvaluation := ← isSet given environment .detailedOpsEvaluation
    expectAllExplicitKeys := ← isSet given environment .expectAllExplicitKeys }

/-- The resolver that the options configure. -/
def resolver (options : ResolverOptions) (world : World) : Resolver :=
  ⟨world, options.detailedOpsEvaluation, options.expectAllExplicitKeys⟩

end ResolverOptions
end DeployManifest
