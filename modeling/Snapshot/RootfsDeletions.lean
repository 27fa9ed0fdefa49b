import Mathlib.Data.List.ReduceOption
import Snapshot.FileTree
import Snapshot.Utf8

/-! Files that a container deleted: `CaptureDeletedFiles` reads them off the whiteouts of the
overlay's upper directory and writes their paths to the checkpoint, `ApplyDeletedFiles` removes them
from the root that a checkpoint is restored to. Between the two the paths are strings, taken apart
and put together by name. -/
namespace RootfsDeletions

open LexicalPath

variable {γ : Type}

/-! ## Capture -/

/-- The name prefix of a whiteout. -/
def whiteoutPrefix : Bytes := [46, 119, 104, 46]

/-- What `filepath.Walk` hands to its callback. -/
structure Visit where
  path : Bytes
  name : Bytes

/-- The directory itself comes first, under the last component of its name. -/
def walk (upperDir : Bytes) (tree : FileTree γ) : List Visit :=
  ⟨upperDir, base upperDir⟩ ::
    tree.paths.map fun p => ⟨p.foldl join upperDir, p.getLast?.getD []⟩

inductive CaptureError where
  /-- A path could not be made relative to the upper directory. -/
  | relative (path : Bytes)

def hasPrefix (s start : Bytes) : Bool := start.isPrefixOf s

def trimPrefix (s start : Bytes) : Bytes := if hasPrefix s start then s.drop start.length else s

/-- The deleted path that one visited entry stands for. -/
def deletedPath (upperDir : Bytes) (v : Visit) : Except CaptureError (Option Bytes) :=
  if hasPrefix v.name whiteoutPrefix then
    match rel upperDir v.path with
    | none => .error (.relative v.path)
    | some relPath =>
      let deletedFile := trimPrefix v.name whiteoutPrefix
      .ok (some (if dir relPath ≠ dot then join (dir relPath) deletedFile else deletedFile))
  else .ok none

def findWhiteoutFiles (upperDir : Bytes) (tree : FileTree γ) : Except CaptureError (List Bytes) := do
  let found ← (walk upperDir tree).mapM (deletedPath upperDir)
  return found.reduceOption

/-- The strings of the checkpoint's list of deleted files, once it is written. A JSON string holds
text only. -/
structure Checkpoint where
  deletedFiles : Option (List Bytes)

def captureDeletedFiles (upperDir : Bytes) (tree : FileTree γ) (c : Checkpoint) :
    Except CaptureError (Bool × Checkpoint) := do
  if upperDir = [] then return (false, c)
  let whiteouts ← findWhiteoutFiles upperDir tree
  if whiteouts = [] then return (false, c)
  return (true, ⟨some (whiteouts.map Utf8.coerce)⟩)

/-! ## Application -/

/-- A process in a file system. -/
structure Host (γ : Type) where
  cwd : Path
  tree : FileTree γ

inductive ApplyError where
  /-- A relative root needs a working directory. -/
  | workingDirectory

/-- Whether the working directory still exists. -/
def Host.located (h : Host γ) : Bool :=
  match h.tree.node h.cwd with
  | some .directory => true
  | _ => false

def Host.abs (h : Host γ) (s : Bytes) : Option Bytes :=
  if rooted s || h.located then some (LexicalPath.abs h.cwd s) else none

def Host.stat (h : Host γ) (s : Bytes) : Option (FileNode γ) := h.tree.node (resolve h.cwd s)

def endsWithDot (s : Bytes) : Bool := s = dot || [sep, 46].isSuffixOf s

/-- `RemoveAll` refuses the working directory by its name; it empties a directory that it reaches by
going up, and the root, and then fails to remove it. -/
def Host.removeAll (h : Host γ) (s : Bytes) : Host γ :=
  if endsWithDot s then h
  else { h with tree := h.tree.remove (s = [sep] || (split s).getLast? = some dotdot) (resolve h.cwd s) }

def applyDeletedFile (targetRoot targetRootAbs : Bytes) (h : Host γ) (f : Bytes) : Host γ :=
  if f = [] then h
  else
    let target := join targetRoot f
    match h.abs target with
    | none => h
    | some targetAbs =>
      if targetAbs ≠ targetRootAbs ∧ ¬ hasPrefix targetAbs (targetRootAbs ++ [sep]) then h
      else
        match h.stat target with
        | none => h
        | some _ => h.removeAll target

def applyDeletedFiles (c : Checkpoint) (targetRoot : Bytes) (h : Host γ) : Except ApplyError (Host γ) :=
  match c.deletedFiles with
  | none => .ok h
  | some deletedFiles =>
    match h.abs targetRoot with
    | none => .error .workingDirectory
    | some targetRootAbs => .ok (deletedFiles.foldl (applyDeletedFile targetRoot targetRootAbs) h)

end RootfsDeletions
