import StackScript.Session

/-!
# The command line

`[SCRIPT] [-e TEXT | --eval TEXT] [--dump] [--max-call-depth N]`: compile and run a script file or
a text, print the listing first if asked to, and print the final stack, one value a line.

* `Invocation.parse` — the arguments are read from left to right, and the first one that does not
  fit decides.  A value follows its option as the next argument or is attached to it; one that
  starts with a dash has to be attached.  After `--` every argument is a script path.
* Exactly one of script and text has to be given, and no option twice.
* `Invocation.run` — the exit code and everything printed.
-/

set_option autoImplicit false

namespace StackScript

/-- Where the program comes from: a script file, or a text on the command line. -/
inductive Source where
  | file (path : String)
  | text (source : String)
deriving DecidableEq, Repr

/-- What the command line asks for: the program to run, whether its listing is printed first, and how many
calls may be in progress at a time. -/
structure Invocation where
  source : Source
  dump : Bool
  callLimit : Nat
deriving DecidableEq, Repr

/-- Why nothing is run: the user asked for help, or the arguments make no sense. -/
inductive Refusal where
  | help
  | usage
deriving DecidableEq, Repr

/-- What a command line does: its exit code and what it prints. -/
structure Transcript where
  exitCode : Nat
  stdout : String
  stderr : String
deriving DecidableEq, Repr

namespace Invocation

/-- The arguments read so far. -/
structure Draft where
  script : Option String
  text : Option String
  dump : Bool
  callLimit : Option Nat

/-- An option that takes a value: the text to run, or the limit on calls. -/
inductive ValueOption where
  | text
  | callLimit

/-- A single argument.  An option has its value attached, or the next argument is its value; behind the
separator there are script paths only. -/
inductive Argument where
  | attached (option : ValueOption) (value : String)
  | pending (option : ValueOption)
  | dump
  | help
  | separator
  | path (path : String)
  | unknown

/-- What follows `--`: the name of an option, and a value after an equals sign. -/
def longArgument (text : List Char) : Argument :=
  let name := String.ofList (text.takeWhile (· != '='))
  match name, text.dropWhile (· != '=') with
  | "eval", [] => .pending .text
  | "eval", _ :: value => .attached .text (String.ofList value)
  | "max-call-depth", [] => .pending .callLimit
  | "max-call-depth", _ :: value => .attached .callLimit (String.ofList value)
  | "dump", [] => .dump
  | "help", [] => .help
  | _, _ => .unknown

def argument (text : String) : Argument :=
  match text.toList with
  | ['-', '-'] => .separator
  | '-' :: '-' :: rest => longArgument rest
  | ['-', 'e'] => .pending .text
  | '-' :: 'e' :: '=' :: value => .attached .text (String.ofList value)
  | '-' :: 'e' :: value => .attached .text (String.ofList value)
  | '-' :: 'h' :: _ => .help
  | ['-'] => .path text
  | '-' :: _ => .unknown
  | _ => .path text

/-- Does the argument look like an option, so that it can not be the value of one? -/
def looksLikeOption (text : String) : Bool :=
  match text.toList with
  | '-' :: _ :: _ => true
  | _ => false

/-- The largest limit that can be asked for: the largest number of 64 bits. -/
def largestLimit : Nat := 0xFFFFFFFFFFFFFFFF

/-- A limit: decimal digits, with a plus sign in front or without, up to the largest limit. -/
def readLimit? (text : String) : Option Nat :=
  let digits :=
    match text.toList with
    | '+' :: digits => digits
    | digits => digits
  if !digits.isEmpty && digits.all Char.isDigit then
    let limit := Nat.ofDigitChars 10 digits 0
    if limit ≤ largestLimit then some limit else none
  else none

namespace Draft

def empty : Draft := ⟨none, none, false, none⟩

/-- Give an option its value, once. -/
def set (draft : Draft) (option : ValueOption) (value : String) : Except Refusal Draft :=
  match option with
  | .text => if draft.text.isSome then .error .usage else .ok { draft with text := some value }
  | .callLimit =>
    match draft.callLimit, readLimit? value with
    | none, some limit => .ok { draft with callLimit := some limit }
    | _, _ => .error .usage

def setDump (draft : Draft) : Except Refusal Draft :=
  if draft.dump then .error .usage else .ok { draft with dump := true }

def setScript (draft : Draft) (path : String) : Except Refusal Draft :=
  if draft.script.isSome || path.isEmpty then .error .usage
  else .ok { draft with script := some path }

def addPaths : Draft → List String → Except Refusal Draft
  | draft, [] => .ok draft
  | draft, path :: rest =>
    match draft.setScript path with
    | .error refusal => .error refusal
    | .ok draft => addPaths draft rest

/-- Read the arguments from left to right. -/
def addArguments : Draft → List String → Except Refusal Draft
  | draft, [] => .ok draft
  | draft, text :: rest =>
    match argument text with
    | .separator => draft.addPaths rest
    | .help => .error .help
    | .unknown => .error .usage
    | .dump =>
      match draft.setDump with
      | .error refusal => .error refusal
      | .ok draft => addArguments draft rest
    | .path path =>
      match draft.setScript path with
      | .error refusal => .error refusal
      | .ok draft => addArguments draft rest
    | .attached option value =>
      match draft.set option value with
      | .error refusal => .error refusal
      | .ok draft => addArguments draft rest
    | .pending option =>
      match rest with
      | [] => .error .usage
      | value :: rest =>
        if looksLikeOption value then .error .usage
        else
          match draft.set option value with
          | .error refusal => .error refusal
          | .ok draft => addArguments draft rest

end Draft

/-- What the arguments ask for. -/
def parse (arguments : List String) : Except Refusal Invocation :=
  match Draft.empty.addArguments arguments with
  | .error refusal => .error refusal
  | .ok draft =>
    let callLimit := draft.callLimit.getD defaultCallLimit
    match draft.script, draft.text with
    | some path, none => .ok ⟨.file path, draft.dump, callLimit⟩
    | none, some source => .ok ⟨.text source, draft.dump, callLimit⟩
    | _, _ => .error .usage

/-- The program that is asked for, given how to read files. -/
def program (invocation : Invocation) (read : String → Except ReadProblem String) :
    Except Fault Program :=
  match invocation.source with
  | .file path => Program.ofFile path (read path)
  | .text source => Program.compile "<eval>" source

/-- The final stack, bottom first, one value a line. -/
def stackLines (state : State HostWord) : String :=
  String.join (state.stack.reverse.map fun value => state.quoted value ++ "\n")

/-- The end of a command line that fails after printing `stdout`. -/
def failure (stdout : String) (fault : Fault) : Transcript :=
  ⟨1, stdout, "Error: " ++ fault.report ++ "\n"⟩

def run (fuel : Nat) (read : String → Except ReadProblem String) (invocation : Invocation) :
    Option Transcript :=
  match invocation.program read with
  | .error fault => some (failure "" fault)
  | .ok program =>
    let dumped :=
      if invocation.dump then "Compiled " ++ program.name ++ ":\n" ++ program.listing ++ "\n"
      else ""
    let state :=
      State.initial HostWord.demonstration (.collecting "") invocation.callLimit
    (program.launch hostRoutine fuel state.scope state).map fun
      | .done state => ⟨0, dumped ++ state.sink.written ++ stackLines state, ""⟩
      | .failed fault state => failure (dumped ++ state.sink.written) fault

end Invocation

/-- How the command line is used. -/
def usageText : String :=
  "Usage: stackscript [--dump] [--max-call-depth N] (SCRIPT | -e TEXT)\n"

def Refusal.transcript : Refusal → Transcript
  | .help => ⟨0, "Compile and run a script\n\n" ++ usageText, ""⟩
  | .usage => ⟨2, "", usageText⟩

/-- What a command line does, given how to read files. -/
def command (fuel : Nat) (read : String → Except ReadProblem String) (arguments : List String) :
    Option Transcript :=
  match Invocation.parse arguments with
  | .error refusal => some refusal.transcript
  | .ok invocation => invocation.run fuel read

end StackScript
