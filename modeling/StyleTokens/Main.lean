import StyleTokens.Command

/-!
# The program

The first argument is the command, and the others are its own. The files below the working
directory are loaded, the command runs on them, and what it changed is stored.
-/

namespace StyleTokens.Program

/-- The content of bytes. -/
def contentOf (bytes : ByteArray) : Content :=
  match String.fromUTF8? bytes with
  | some s => .text s.toList
  | none => .binary bytes.toList

/-- The bytes of a content. -/
def bytesOf : Content → ByteArray
  | .text t => (String.ofList t).toUTF8
  | .binary bytes => ⟨bytes.toArray⟩

/-- The tree with an entry of a directory, and all that lies below it. -/
partial def load (place : List Text) (tree : FileTree) (entry : IO.FS.DirEntry) : IO FileTree := do
  let place := place ++ [entry.fileName.toList]
  match (← entry.path.symlinkMetadata).type with
  | .dir => (← entry.path.readDir).foldlM (load place) (tree.put place .directory)
  | .file => return tree.put place (.file (contentOf (← IO.FS.readBinFile entry.path)))
  | _ => return tree

/-- The path of an entry, seen from the working directory. -/
def nameOf (place : List Text) : String :=
  String.ofList (Path.textOf place)

/-- An entry, stored. A file is written beside its place and then moved there. -/
def save (place : List Text) : Node → IO Unit
  | .directory => IO.FS.createDirAll (nameOf place)
  | .file content => do
    let draft := nameOf place ++ ".tmp"
    IO.FS.writeBinFile draft (bytesOf content)
    IO.FS.rename draft (nameOf place)

/-- An entry, taken away. -/
def discard (place : List Text) : Node → IO Unit
  | .directory => IO.FS.removeDirAll (nameOf place)
  | .file _ => IO.FS.removeFile (nameOf place)

/-- The variables that the commands know. -/
def variableNames : List String :=
  ["TOKEN_AUDIT_ROOT", "TOKEN_AUDIT_EXTENSIONS", "TOKEN_AUDIT_DIR", "TOKEN_AUDIT_PROTECTED",
    "TOKEN_AUDIT_WORKERS", "TOKEN_AUDIT_DEBUG", "TOKEN_AUDIT_THRESHOLD", "TOKEN_AUDIT_PRIORITY"]

/-- The environment of the program. -/
def environment : IO Environment :=
  variableNames.filterMapM fun name => do
    return (← IO.getEnv name).map fun v => (name.toList, v.toList)

/-- The files below the working directory. -/
def loadWorking : IO FileTree := do
  let here ← IO.currentDir
  let tree : FileTree := { working := Path.segmentsOf here.toString.toList }
  (← here.readDir).foldlM (load []) tree

/-- The exit code of a command on the files below the working directory. -/
def runOn (surroundings : Surroundings) (command : Command) (arguments : List String) :
    IO UInt32 := do
  let tree ← loadWorking
  let (result, world) := (command.run surroundings (arguments.map String.toList)).run { tree }
  for (place, node) in tree.altered world.tree do
    save place node
  for (place, node) in tree.gone world.tree do
    discard place node
  for message in world.out do
    IO.println (String.ofList message.text)
  for message in world.err do
    IO.eprintln (String.ofList message.text)
  match result with
  | .ok code => return code.toUInt32
  | .error failure =>
    IO.eprintln (String.ofList failure.words)
    return 1

/-- The exit code of the program with its arguments. -/
def run (arguments : List String) : IO UInt32 := do
  let env ← environment
  match arguments, Settings.ofEnv 1 env with
  | _, .error e =>
    IO.eprintln (String.ofList e.message)
    return 1
  | word :: rest, .ok settings =>
    match Command.ofWord? word.toList with
    | some command => runOn { settings, env } command rest
    | none =>
      IO.eprintln ("unknown command: " ++ word)
      return 2
  | [], .ok _ =>
    IO.eprintln (String.ofList (Text.joined [' '] (Command.all.map Command.word)))
    return 2

end StyleTokens.Program

/-- The program: a command with its arguments. -/
def main (arguments : List String) : IO UInt32 :=
  StyleTokens.Program.run arguments
