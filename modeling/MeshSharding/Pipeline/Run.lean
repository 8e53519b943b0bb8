import MeshSharding.Program.Module
import MeshSharding.Program.Text
import MeshSharding.Reshard.Run

/-!
# Pipelines of passes

A pass changes one function at a time. One pass makes functions consistent; any
other is given by the change it makes. A pipeline runs its passes one after the
other over all functions of a module. By its options it prints functions around
passes, verifies the module after each pass and reports counters at the end.

The first error ends a run. What has been changed up to then stays changed: the
functions before the one at fault, and that one as far as the pass got with it.
Counters of a function are added to those of its pass only if the pass is done
with the function.
-/

set_option autoImplicit false

namespace MeshSharding

/-- Why a pipeline ends early. -/
inductive PipelineError where
  /-- A function cannot be made consistent. -/
  | reshard (cause : ReshardError)
  /-- The module does not verify after a pass. -/
  | verification (pass : String) (cause : ProgramError)
  /-- A pass gives up. -/
  | failed (pass message : String)
  /-- A pass makes an edit that is refused. -/
  | program (cause : ProgramError)
  deriving DecidableEq

/-- The text of a pipeline error. -/
def PipelineError.message : PipelineError → String
  | .reshard cause => cause.message
  | .verification pass cause =>
    "IR verification failed after pass '" ++ pass ++ "': " ++ cause.message
  | .failed pass message => "pass '" ++ pass ++ "' failed: " ++ message
  | .program cause => cause.message

/-- What a pass does to a function. -/
inductive PassAction where
  /-- Makes the function consistent. -/
  | reshard
  /-- Changes the function, and possibly gives up after that. -/
  | custom (change : SymbolTable → Function → Function × Option PipelineError)

/-- A named action with the counters of all its runs. -/
structure Pass where
  name : String
  argument : Option String
  description : Option String
  action : PassAction
  tally : Tally

namespace Pass

/-- The pass that makes functions consistent. -/
def reshard : Pass where
  name := "InsertExplicitReshardsPass"
  argument := some "sdy-insert-explicit-reshards"
  description := some ("Inserts explicit reshards to make all operations have compatible " ++
    "shardings, i.e., to make every factor sharded the same way across all operands and " ++
    "results of an operation.")
  action := .reshard
  tally := .zero

/-- A pass that makes a given change. -/
def custom (name : String) (argument description : Option String)
    (change : SymbolTable → Function → Function × Option PipelineError) : Pass :=
  ⟨name, argument, description, .custom change, .zero⟩

/-- The counters of a pass with their names. -/
def statistics (pass : Pass) : List (String × Nat) :=
  match pass.action with
  | .reshard => pass.tally.named
  | .custom _ => []

end Pass

/-- When functions are printed. -/
structure PrintOptions where
  before : Bool
  after : Bool
  /-- Afterwards only functions whose text has changed. -/
  onlyOnChange : Bool
  deriving DecidableEq

/-- Printing before every pass, and after those that change something. -/
def PrintOptions.standard : PrintOptions := ⟨true, true, true⟩

/-- What a pipeline does besides running its passes. -/
structure PipelineOptions where
  verify : Bool
  printing : Option PrintOptions
  statistics : Bool
  deriving DecidableEq

/-- Verification after every pass and nothing else. -/
def PipelineOptions.standard : PipelineOptions := ⟨true, none, false⟩

/-- The weight of an event. -/
inductive Level where
  | trace
  | debug
  | info
  deriving DecidableEq

/-- Levels by increasing weight. -/
def Level.weight : Level → Nat
  | .trace => 0
  | .debug => 1
  | .info => 2

/-- The word for a level. -/
def Level.text : Level → String
  | .trace => "TRACE"
  | .debug => "DEBUG"
  | .info => "INFO"

/-- Something that happens while a pipeline runs. -/
inductive PipelineEvent where
  /-- A function is printed before a pass. -/
  | before (pass function text : String)
  /-- A function is printed after a pass. -/
  | after (pass function text : String)
  /-- A counter is reported. -/
  | statistic (pass name : String) (value : Nat)
  /-- Something happens while a function is made consistent. -/
  | reshard (event : ReshardEvent)
  deriving DecidableEq

/-- The level of an event. -/
def PipelineEvent.level : PipelineEvent → Level
  | .before .. | .after .. => .debug
  | .statistic .. => .info
  | .reshard (.committed _) | .reshard (.visited ..) => .trace
  | .reshard _ => .debug

/-- The words for an event. -/
def PipelineEvent.message : PipelineEvent → String
  | .before _ _ text => "IR before pass:\n" ++ text
  | .after _ _ text => "IR after pass:\n" ++ text
  | .statistic .. => "pass statistic"
  | .reshard (.committed _) => "committed factor axes"
  | .reshard (.agreed _) => "resolved factor sharding"
  | .reshard (.reshardedOperand ..) => "inserted reshard before operation"
  | .reshard (.reshardedResult ..) => "inserted reshard after operation"
  | .reshard (.visited ..) => "visited operation"

/-! ## Running a pipeline -/

/-- A pass and a function after the pass has run on it, with what happened. -/
structure FunctionRun where
  pass : Pass
  function : Function
  events : List PipelineEvent
  error : Option PipelineError

namespace Pass

/-- The action of a pass on a function. -/
def act (meshes : SymbolTable) (pass : Pass) (function : Function) : FunctionRun :=
  match pass.action with
  | .reshard =>
    let run := function.reshard meshes
    let events := run.events.map PipelineEvent.reshard
    match run.error with
    | some cause => ⟨pass, run.function, events, some (.reshard cause)⟩
    | none => ⟨{ pass with tally := pass.tally.add run.tally }, run.function, events, none⟩
  | .custom change =>
    let changed := change meshes function
    ⟨pass, changed.1, [], changed.2⟩

/-- The printing of a function before a pass. -/
def printBefore (printing : Option PrintOptions) (pass : Pass) (function : Function) :
    List PipelineEvent :=
  match printing with
  | some options =>
    if options.before then [.before pass.name function.name function.text] else []
  | none => []

/-- The printing of a function after a pass has changed it. -/
def printAfter (printing : Option PrintOptions) (pass : Pass) (function changed : Function) :
    List PipelineEvent :=
  match printing with
  | some options =>
    if options.after && (!options.onlyOnChange || changed.text != function.text) then
      [.after pass.name function.name changed.text]
    else []
  | none => []

/-- A run of a pass on a function, with the printing around it. -/
def runOn (printing : Option PrintOptions) (meshes : SymbolTable) (pass : Pass)
    (function : Function) : FunctionRun :=
  let run := pass.act meshes function
  let after := if run.error.isNone then printAfter printing pass function run.function else []
  { run with events := printBefore printing pass function ++ run.events ++ after }

end Pass

/-- A pass and functions after the pass has run on them in order, with what happened. -/
structure FunctionsRun where
  pass : Pass
  functions : List Function
  events : List PipelineEvent
  error : Option PipelineError

/-- A run of a pass on functions in order, up to the first error. -/
def Pass.runOnAll (printing : Option PrintOptions) (meshes : SymbolTable) (pass : Pass) :
    List Function → FunctionsRun
  | [] => ⟨pass, [], [], none⟩
  | function :: rest =>
    let run := pass.runOn printing meshes function
    match run.error with
    | some cause => ⟨run.pass, run.function :: rest, run.events, some cause⟩
    | none =>
      let later := run.pass.runOnAll printing meshes rest
      ⟨later.pass, run.function :: later.functions, run.events ++ later.events, later.error⟩

/-- Passes and a module after a run, with what happened. -/
structure PipelineRun where
  passes : List Pass
  module : Module
  events : List PipelineEvent
  error : Option PipelineError

/-- The error of a module that is to be verified after a pass and does not verify. -/
def verificationError? (options : PipelineOptions) (pass : Pass) (module : Module) :
    Option PipelineError :=
  if options.verify then
    match module.verify with
    | .ok () => none
    | .error cause => some (.verification pass.name cause)
  else none

/-- A run of passes on a module in order, up to the first error. -/
def runPasses (options : PipelineOptions) (module : Module) : List Pass → PipelineRun
  | [] => ⟨[], module, [], none⟩
  | pass :: rest =>
    let run := pass.runOnAll options.printing module.meshes module.functions
    let changed := { module with functions := run.functions }
    match run.error.or (verificationError? options pass changed) with
    | some cause => ⟨run.pass :: rest, changed, run.events, some cause⟩
    | none =>
      let later := runPasses options changed rest
      ⟨run.pass :: later.passes, later.module, run.events ++ later.events, later.error⟩

/-- The report of the counters of passes. -/
def statisticEvents (passes : List Pass) : List PipelineEvent :=
  passes.flatMap fun pass =>
    pass.statistics.map fun entry => .statistic pass.name entry.1 entry.2

/-- A run of a pipeline on a module. -/
def runPipeline (options : PipelineOptions) (passes : List Pass) (module : Module) :
    PipelineRun :=
  let run := runPasses options module passes
  if run.error.isNone && options.statistics then
    { run with events := run.events ++ statisticEvents run.passes }
  else run

end MeshSharding
