/-
Files, as far as channels need them.  A path is looked up component by
component, from the root or from the working directory; what is found there
decides whether a configuration can be loaded from it or a channel can be
opened to it.
-/
import BoardQuery.Channel.Socket
import BoardQuery.Text.Shown

namespace BoardQuery

/-- What a name in a directory can stand for. -/
inductive FileNode where
  | file (content : Bytes)
  | listener
  | directory (entries : List (String × FileNode))

def maxFileName : Nat := 255

def maxPath : Nat := 4095

/-- The node behind the components of a path that are left, where `above` are
the directories above `node`, the nearest one first. -/
def FileNode.follow (above : List FileNode) (node : FileNode) :
    List String → Except SystemFailure FileNode
  | [] => .ok node
  | name :: names =>
      match node with
      | .directory entries =>
          if name = "" ∨ name = "." then follow above node names
          else if name = ".." then
            match above with
            | [] => follow [] node names
            | parent :: above => follow above parent names
          else if maxFileName < name.utf8ByteSize then .error .nameTooLong
          else
            match entries.lookup name with
            | none => .error .notFound
            | some next => follow (node :: above) next names
      | _ => .error .notADirectory

/-- The files that can be reached, with the names that lead from the root to the
working directory. -/
structure FileTree where
  root : FileNode
  workingDirectory : List String := []

namespace FileTree

/-- The names that lead from the root along a path. -/
def namesAlong (files : FileTree) (path : String) : List String :=
  let names := path.splitOn "/"
  if path.startsWith "/" then names else files.workingDirectory ++ names

def find (files : FileTree) (path : String) : Except SystemFailure FileNode :=
  if path.contains '\x00' then .error .invalidInput
  else if path.isEmpty then .error .notFound
  else if maxPath < path.utf8ByteSize then .error .nameTooLong
  else FileNode.follow [] files.root (files.namesAlong path)

end FileTree

/-- Loads a configuration from a file and checks it. -/
def ChannelConfig.load (files : FileTree) (path : String) :
    Except Error ChannelConfig :=
  let refused (failure : SystemFailure) : Error :=
    .system s!"open config file {shown path}" failure
  match files.find path with
  | .error failure => .error (refused failure)
  | .ok (.file content) => ofFile content
  | .ok (.directory _) => .error (.json .unreadable)
  | .ok .listener => .error (refused (.other "no such device or address"))

def maxSocketPath : Nat := 107

/-- Connects to the socket at a path. -/
def FileTree.connect (files : FileTree) (path : String) :
    Except SystemFailure ByteStream :=
  if path.isEmpty ∨ maxSocketPath < path.utf8ByteSize then .error .invalidInput
  else
    match files.find path with
    | .error failure => .error failure
    | .ok .listener => .ok {}
    | .ok _ => .error .connectionRefused

/-- Opens a channel to the socket that the configuration names. -/
def SocketChannel.connect (files : FileTree) (config : ChannelConfig) :
    Except Error SocketChannel := do
  let terminal ← Terminal.ofConfig config
  match files.connect config.socketPath with
  | .error failure =>
      throw (.system s!"connect to socket {shown config.socketPath}" failure)
  | .ok stream => return { terminal with stream }

end BoardQuery
