import BuildPlan.Command.Arguments
import BuildPlan.Log.Trace

/-!
# Runs of the program

A run takes arguments and a workspace, and ends with an exit status, what it wrote to the two output
streams, and the workspace as it left it. The log comes first on the error stream: warnings, and
with `-v` all events. Status 1 is a command that failed, status 2 a misuse of the command line.
-/

namespace BuildPlan

namespace Trace

/-- The events of writing a manifest. -/
def generate (cond : Conditions) (ws : Workspace) (config output : Text) : List Event :=
  evaluationOfFile ws config
    ++ onSuccess (evaluateFile ws config) fun e =>
      edges ws e.manifest
        ++ onSuccess (Command.manifestFor ws config) fun (text, _, count) =>
          let bytes := (Utf8.encode text).size
          .renderedManifest count bytes
            :: onSuccess (ws.replaceFile cond.refused output text).2 fun _ =>
              [.wroteManifest output bytes]

/-- The events of printing a manifest. -/
def showManifest (ws : Workspace) (config : Text) : List Event :=
  evaluationOfFile ws config
    ++ onSuccess (evaluateFile ws config) fun e => edges ws e.manifest

/-- The events of a command. -/
def command (cond : Conditions) (ws : Workspace) (config : Text) : Command → List Event
  | .gen output => generate cond ws config output
  | .show => showManifest ws config
  | .vars _ => evaluationOfFile ws config

end Trace

/-- How a run ends. -/
structure Outcome where
  exit : Nat
  stdout : Text
  stderr : Text
  workspace : Workspace

/-- The name and the version of the program. -/
def versionText : Text := "ninjagen 0.1.0\n"

/-- How the program is used. -/
def usageText : Text :=
  "Usage: ninjagen [-v] [-c PATH] gen [-o PATH] | show | vars [--output-format text|json]\n"

/-- The log of an invocation: the warnings, and all other events if they were asked for. -/
def Invocation.log (cond : Conditions) (ws : Workspace) (i : Invocation) : Text :=
  let events := Trace.command cond ws i.config i.command
  (events.filter fun e => i.verbose || e.level = .warn).flatMap Event.line

/-- What is reported about a command that failed. -/
def failureReport (style : Style) (e : CommandError) : Text :=
  style.red "✗" ++ " " ++ style.red (": ".toList.intercalate e.chain) ++ "\n"

/-- Carry out an invocation. -/
def Invocation.run (cond : Conditions) (ws : Workspace) (i : Invocation) : Outcome :=
  let log := i.log cond ws
  match i.command.execute cond ws i.config with
  | (after, .ok printed) => ⟨0, printed, log, after⟩
  | (after, .error e) => ⟨1, [], log ++ failureReport cond.stderr e, after⟩

/-- Run the program with some arguments. -/
def run (cond : Conditions) (ws : Workspace) (args : List Text) : Outcome :=
  match Arguments.read args with
  | .run i => i.run cond ws
  | .version => ⟨0, versionText, [], ws⟩
  | .help => ⟨0, usageText, [], ws⟩
  | .refused => ⟨2, [], usageText, ws⟩

end BuildPlan
