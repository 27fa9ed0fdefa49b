import Snapshot.ByteText
import Snapshot.Utf8

/-! # The CRIU configuration of a restore

CRIU applies its configuration file over the options the agent passes by RPC. The file is built from
the settings recorded in the checkpoint and then its `libdir` lines are replaced. What CRIU reads from
it is what the agent intended exactly if the recorded directory brings no line of its own. -/
namespace RestoreConf

open LexicalPath (Bytes join)
open ByteText (literal)

/-- The settings that reach the file. -/
structure CRIUSettings where
  libDir : Bytes
  allowUprobes : Bool
  skipInFlight : Bool
  deriving DecidableEq, Repr

def newline : UInt8 := 10

def buildCRIUConf : Option CRIUSettings → Bytes
  | none => []
  | some c =>
    (if c.libDir ≠ [] then literal "libdir " ++ c.libDir ++ [newline] else [])
      ++ (if c.allowUprobes then literal "allow-uprobes" ++ [newline] else [])
      ++ (if c.skipInFlight then literal "skip-in-flight" ++ [newline] else [])

def isLibDirLine (line : Bytes) : Bool :=
  let trimmed := Utf8.trimSpace line
  (literal "libdir ").isPrefixOf trimmed || (literal "libdir\t").isPrefixOf trimmed

def overrideLibDir (conf libDir : Bytes) : Bytes :=
  let lines := conf.splitOn newline
  let written := lines.map fun line => if isLibDirLine line then literal "libdir " ++ libDir else line
  [newline].intercalate
    (if lines.any isLibDirLine then written else written ++ [literal "libdir " ++ libDir])

inductive ConfError where
  | emptyScratchDir
  | write (path : Bytes)
  deriving DecidableEq, Repr

/-- The bundle's plugins. -/
def pluginDir (criuBundleDir : Bytes) : Bytes := join criuBundleDir (literal "criu-plugins")

/-- The path of the file and what is written to it; `writes` is whether the file system takes it. -/
def writeRestoreCRIUConf (writes : Bytes → Bytes → Bool) (settings : Option CRIUSettings)
    (scratchDir criuBundleDir : Bytes) : Except ConfError (Bytes × Bytes) :=
  if scratchDir = [] then .error .emptyScratchDir
  else
    let confPath := join scratchDir (literal "criu-restore.conf")
    let conf := overrideLibDir (buildCRIUConf settings) (pluginDir criuBundleDir)
    if writes confPath conf then .ok (confPath, conf) else .error (.write confPath)

/-! ## What CRIU reads -/

variable {c : CRIUSettings} {criuBundleDir : Bytes}

section Written

variable (hbundle : newline ∉ criuBundleDir)
include hbundle

end Written

theorem written_eq {writes : Bytes → Bytes → Bool} {settings : Option CRIUSettings}
    {scratchDir path conf : Bytes}
    (h : writeRestoreCRIUConf writes settings scratchDir criuBundleDir = .ok (path, conf)) :
    conf = overrideLibDir (buildCRIUConf settings) (pluginDir criuBundleDir) := by
  rw [writeRestoreCRIUConf] at h
  split at h
  · cases h
  · dsimp only at h
    split at h
    · cases h
      rfl
    · cases h

/-- A checkpoint of an agent with its own plugins. -/
def recorded : CRIUSettings := ⟨literal "/usr/lib/criu", true, false⟩

end RestoreConf
