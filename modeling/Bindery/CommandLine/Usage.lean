import Bindery.CommandLine.Grammar
import Bindery.Text.Braces

/-!
# Help and completions

What the program says about itself.
-/

namespace Bindery.CommandLine
set_option autoImplicit false

/-- The name under which the program is called. -/
def programName : String := "docbind"

/-- The answer to a question for the version. -/
def versionText : String := programName ++ " 0.1.0\n"

/-- What a verb asks for, in words. -/
def Verb.summary : Verb → String
  | .init => "Write a default settings file"
  | .generate => "Generate the client bindings"
  | .check => "Bind every document without writing anything"
  | .list => "List the commands found in the reference documents"
  | .completions => "Generate shell completions"
  | .help => "Print this message"

/-- What a switch does, in words. -/
def Switch.summary : Switch → String
  | .verbose => "Say more"
  | .help => "Print help"
  | .version => "Print the version"
  | .settings => "Path to the settings file"
  | .output => "Output directory"
  | .dryRun => "Print the generated code instead of writing it"
  | .json => "Print the diagnostics as JSON"

/-- A name and what it means, on one line. -/
def helpLine (name summary : String) : String :=
  "  " ++ name ++ String.ofList (List.replicate (14 - name.length) ' ') ++ summary ++ "\n"

/-- The answer to a request for help. -/
def helpText : String :=
  "Compile reference documentation into a typed TypeScript RPC client\n\nUsage: " ++ programName ++
    " [OPTIONS] <COMMAND>\n\nCommands:\n" ++
    String.join (Verb.all.map fun verb => helpLine verb.name verb.summary) ++ "\nOptions:\n" ++
    String.join ([Switch.verbose, .help, .version, .settings, .output, .dryRun, .json].map
      fun switch => helpLine ("--" ++ switch.long) switch.summary)

/-- What completes the verbs in a shell. -/
def completions (shell : Shell) : String :=
  let verbs := " ".intercalate (Verb.all.map Verb.name)
  match shell with
  | .bash => "complete -W '" ++ verbs ++ "' " ++ programName ++ "\n"
  | .elvish => "set edit:completion:arg-completer[" ++ programName ++ "] = " ++
      Text.openBrace ++ "|@words| put " ++ verbs ++ " " ++ Text.closeBrace ++ "\n"
  | .fish => "complete -c " ++ programName ++ " -f -a '" ++ verbs ++ "'\n"
  | .powershell => "Register-ArgumentCompleter -Native -CommandName " ++ programName ++
      " -ScriptBlock " ++ Text.inBraces ("'" ++ verbs ++ "' -split ' '") ++ "\n"
  | .zsh => "compctl -k '(" ++ verbs ++ ")' " ++ programName ++ "\n"

end Bindery.CommandLine
