import ZZ9K.Archive.Entry
import ZZ9K.Framework.Ask

namespace ZZ9K.Archive

open ZZ9K.Framework

inductive Platform
  | amiga
  | windows
  | posix
  deriving DecidableEq

/-- The path `zz9k_archive_open_discard_file` opens: "NIL:", "NUL" or "/dev/null" -/
def Platform.discard : Platform → CString
  | amiga => [0x4e,0x49,0x4c,0x3a]
  | windows => [0x4e,0x55,0x4c]
  | posix => [0x2f,0x64,0x65,0x76,0x2f,0x6e,0x75,0x6c,0x6c]

/-- The options of the command line that extraction looks at -/
structure ToolOptions where
  overwriteOutputs : Bool := false
  skipExistingOutputs : Bool := false
  dryRunOutputs : Bool := false
  stripComponents : Nat := 0
  matchFilter : Option CString := none
  platform : Platform := .amiga

/-- Whether an output that exists may be replaced -/
def ToolOptions.mayReplace (opts : ToolOptions) : Bool :=
  opts.overwriteOutputs ∧ opts.dryRunOutputs = false ∧ opts.skipExistingOutputs = false

/-- How making a directory ends: it is made, something has its name already, or it fails. -/
inductive MakeDirResult
  | made
  | taken
  | failed
  deriving DecidableEq

/-- What the extraction code asks of the file system and the C library. A file open for writing is
known by a number, one open for reading by its path. `tmpfile` is open for both. -/
inductive ToolCall
  | pathExists (path : CString)
  | pathIsDir (path : CString)
  | sameFile (a b : CString)
  | makeDir (path : CString)
  | openWrite (path : CString)
  | write (file : Nat) (data : Bytes)
  | close (file : Nat)
  | rename (a b : CString)
  | remove (path : CString)
  | openRead (path : CString)
  | seek (path : CString) (offset : Nat)
  | read (path : CString) (length : Nat)
  | tmpfile
  | malloc (size : Nat)
  | probeSeed
  | cancelled
  deriving DecidableEq

def ToolCall.Answer : ToolCall → Type
  | makeDir _ => MakeDirResult
  | openWrite _ => Option Nat
  | tmpfile => Option Nat
  | read _ _ => Option Bytes
  | probeSeed => Nat
  | _ => Bool

abbrev Tool (α : Type) : Type := Ask ToolCall ToolCall.Answer α

namespace Tool

def pathExists (path : CString) : Tool Bool := .ask (.pathExists path) .ret
def pathIsDir (path : CString) : Tool Bool := .ask (.pathIsDir path) .ret
def sameFile (a b : CString) : Tool Bool := .ask (.sameFile a b) .ret
def makeDir (path : CString) : Tool MakeDirResult := .ask (.makeDir path) .ret
def openWrite (path : CString) : Tool (Option Nat) := .ask (.openWrite path) .ret
def write (file : Nat) (data : Bytes) : Tool Bool := .ask (.write file data) .ret
def close (file : Nat) : Tool Bool := .ask (.close file) .ret
def rename (a b : CString) : Tool Bool := .ask (.rename a b) .ret
def remove (path : CString) : Tool Bool := .ask (.remove path) .ret
def openRead (path : CString) : Tool Bool := .ask (.openRead path) .ret
def seek (path : CString) (offset : Nat) : Tool Bool := .ask (.seek path offset) .ret
def read (path : CString) (length : Nat) : Tool (Option Bytes) := .ask (.read path length) .ret
def tmpfile : Tool (Option Nat) := .ask .tmpfile .ret
def malloc (size : Nat) : Tool Bool := .ask (.malloc size) .ret
def probeSeed : Tool Nat := .ask .probeSeed .ret
def cancelled : Tool Bool := .ask .cancelled .ret

end Tool

end ZZ9K.Archive
