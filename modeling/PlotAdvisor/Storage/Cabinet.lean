import PlotAdvisor.Fault
import PlotAdvisor.Table
import PlotAdvisor.Text.Basic

/-! A cabinet keeps values under names, each in a file of its own in one folder. -/
set_option autoImplicit false

namespace PlotAdvisor.Storage

def joinPath (folder name : String) : String :=
  if Text.startsWith name "/" then name
  else if folder == "" || Text.endsWith folder "/" then folder ++ name
  else folder ++ "/" ++ name

structure Cabinet (ν : Type) where
  folder : String
  files : Table String ν := .empty

namespace Cabinet

variable {ν : Type}

def fileName (s : Cabinet ν) (name : String) : String :=
  joinPath s.folder (if Text.endsWith name ".pickle" then name else name ++ ".pickle")

def savedLine (file : String) : String := "Saved to " ++ file ++ "\n"

def restoredLine (file : String) : String := "Restored from " ++ file ++ "\n"

def save (s : Cabinet ν) (name : String) (v : ν) : Cabinet ν × String :=
  let file := s.fileName name
  ({ s with files := s.files.set file v }, savedLine file)

def load (s : Cabinet ν) (name : String) : Except Fault (ν × String) :=
  let file := s.fileName name
  match s.files.get? file with
  | some v => .ok (v, restoredLine file)
  | none => .error (.broken ("file " ++ file ++ " does not exist"))

def has (s : Cabinet ν) (name : String) : Bool := s.files.contains (s.fileName name)

end Cabinet

end PlotAdvisor.Storage
