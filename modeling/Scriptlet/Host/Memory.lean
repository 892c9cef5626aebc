import Scriptlet.Host

/-! Files held in memory, on which commands can be carried out without any effect elsewhere. -/
namespace Scriptlet

/-- What stands at a path. -/
inductive FileNode where
  | file (text : String)
  | directory

/-- Files and directories below the current directory, by the parts of their paths. -/
structure FileTree where
  nodes : List (List String × FileNode)

namespace FileTree

/-- Puts something at the place of that path, all parts of which are names. -/
def set (t : FileTree) (path : List String) (node : FileNode) : FileTree :=
  ⟨(path, node) :: t.nodes.filter fun (p, _) => p != path⟩

/-- Puts something at a path. Parts that name the place itself do not count. -/
def add (t : FileTree) (path : String) (node : FileNode) : FileTree :=
  t.set ((path.splitOn "/").filter fun part => part ≠ "" && part ≠ ".") node

/-- What stands at a path. A path that others lead through is a directory. -/
def node? (t : FileTree) (path : List String) : Option FileNode :=
  match t.nodes.lookup path with
  | some node => some node
  | none =>
    if path.isEmpty || t.nodes.any fun (p, _) => path.isPrefixOf p then some .directory else none

/-- Where a path leads. -/
inductive Place where
  | within (path : List String)
  /-- A directory that is not below the current one. -/
  | outside

/-- The greatest size of a name in bytes. -/
def maxNameSize : Nat := 255

/-- The greatest size of a path in bytes. -/
def maxPathSize : Nat := 4095

/-- Follows one part of a path, which is possible from a directory only. Nothing is known of what
stands outside. -/
def follow (t : FileTree) (part : String) : Place → Except FileFault Place
  | .outside =>
    if part = "" || part = "." || part = ".." then .ok .outside
    else if maxNameSize < part.utf8ByteSize then .error .nameTooLong
    else .error .notFound
  | .within path =>
    match t.node? path with
    | none => .error .notFound
    | some (.file _) => .error .notADirectory
    | some .directory =>
      if part = "" || part = "." then .ok (.within path)
      else if part = ".." then .ok (if path.isEmpty then .outside else .within path.dropLast)
      else if maxNameSize < part.utf8ByteSize then .error .nameTooLong
      else .ok (.within (path ++ [part]))

/-- The place of a path, at which there need not be anything yet. -/
def locate (t : FileTree) (path : String) : Except FileFault Place :=
  if path.toList.contains '\x00' then .error .nameWithNul
  else if path.isEmpty then .error .notFound
  else if maxPathSize < path.utf8ByteSize then .error .nameTooLong
  else
    let start : Place := if path.startsWith "/" then .outside else .within []
    (path.splitOn "/").foldlM (fun place part => t.follow part place) start

def read (t : FileTree) (path : String) : Except FileFault String := do
  match ← t.locate path with
  | .outside => throw .isDirectory
  | .within p =>
    match t.node? p with
    | some (.file text) => return text
    | some .directory => throw .isDirectory
    | none => throw .notFound

/-- Replaces or makes a file, where there is a directory for it and none in its place. -/
def write (t : FileTree) (path text : String) : FileTree :=
  match t.locate path with
  | .ok (.within p) =>
    match t.node? p with
    | some .directory => t
    | _ => t.set p (.file text)
  | _ => t

/-- All work takes no time. -/
def host : Host (StateM FileTree) where
  read path := do return (← get).read path
  write path text := modify (·.write path text)
  timed f := pure (f (), 0)

end FileTree
end Scriptlet
