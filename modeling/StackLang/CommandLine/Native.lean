import StackLang.Compile

/-!
# Native builds

A program can be built by a C compiler of the system and run there. What the system has, and how the
processes end that it is asked to start, is up to its tools.
-/

namespace StackLang

inductive ProcessEnd where
  | exited (status : Int) (errorOutput : String)
  | timedOut
  | refused (reason : Failure)
deriving DecidableEq

structure Tools where
  /-- The compiler that the user asks for. -/
  preferred : Option String
  /-- The path of the program with a name. -/
  locate : String → Option String
  programPath : String
  assemblyPath : String
  /-- Starts a compiler by a command line, with the assembly in its file. -/
  build : List String → String → ProcessEnd
  start : String → ProcessEnd

namespace Tools

def absent : Tools where
  preferred := none
  locate := fun _ => none
  programPath := ""
  assemblyPath := ""
  build := fun _ _ => .timedOut
  start := fun _ => .timedOut

def candidates : List String :=
  ["cc", "gcc", "clang"]

def buildTimeout : Nat := 60

def runTimeout : Nat := 10

/-- The compiler asked for, if there is one of that name, else the first candidate there is. -/
def compiler? (t : Tools) : Option String :=
  let given := t.preferred.filter fun name => !name.isEmpty
  (given.toList ++ candidates).findSome? fun name =>
    (t.locate name).filter fun path => !path.isEmpty

def buildProgram (t : Tools) (assembly : String) : List Event × Except Failure String :=
  match t.compiler? with
  | none =>
    let tried := String.intercalate ", " candidates
    ([], .error (.report (.toolchain s!"no C compiler found (tried {tried})")))
  | some compiler =>
    let command := [compiler, "-o", t.programPath, t.assemblyPath]
    let result :=
      match t.build command assembly with
      | .timedOut => .error (.report (.toolchain s!"build timed out after {buildTimeout}s"))
      | .refused (.missingFile _) =>
        .error (.report (.toolchain s!"C compiler not found: {compiler}"))
      | .refused reason => .error reason
      | .exited status errorOutput =>
        if status = 0 then .ok t.programPath
        else .error (.report
          (.toolchain s!"build failed with status {status}" (some status) (some errorOutput)))
    ([.running (String.intercalate " " command)], result)

/-- Runs a program that was built. A status below zero stands for the signal that killed it. -/
def runProgram (t : Tools) (path : String) : List Event × Except Failure Nat :=
  let result :=
    match t.start path with
    | .timedOut => .error (.report (.toolchain s!"program timed out after {runTimeout}s"))
    | .refused reason => .error (.report (.toolchain s!"cannot run {path}: {reason.message}"))
    | .exited status errorOutput =>
      if 0 ≤ status then .ok status.toNat
      else .error (.report
        (.toolchain s!"program killed by signal {-status}" (some status) (some errorOutput)))
  ([.running path], result)

def compileAndRun (t : Tools) (assembly : String) : List Event × Except Failure Nat :=
  match t.buildProgram assembly with
  | (events, .error f) => (events, .error f)
  | (events, .ok path) =>
    let (more, status) := t.runProgram path
    (events ++ more, status)

end Tools

end StackLang
