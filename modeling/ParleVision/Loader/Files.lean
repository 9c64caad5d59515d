import ParleVision.Loader.Sound

namespace ParleVision.Loader
open Lib ParleVision.Graph

/-- What a file name leads to. A document is what the XML reader leaves of the
contents, well-formed or not. -/
inductive File where
  | missing
  | unreadable
  | document (doc : Document)
deriving DecidableEq, Repr

namespace Pipeline

def isEmpty (s : Pipeline P) : Bool := s.m_children.isEmpty

def deserializeFile (R : Registry P) (files : String → File) (filename : String)
    (s : Pipeline P) : Option (Pipeline P × Except LoadError Unit) :=
  match files filename with
  | .missing => some (s, .error .doesNotExist)
  | .unreadable => some (s, .error .cannotOpen)
  | .document doc => s.deserialize R doc

/-- `Pipeline::load`; a pipeline that is not empty ignores it (and stops a debug build). -/
def load (R : Registry P) (files : String → File) (filename : String) (s : Pipeline P) :
    Option (Pipeline P × Bool) :=
  if ¬ s.isEmpty then some (s, false)
  else match deserializeFile R files filename { s with m_filename := filename } with
  | none => none
  | some (s, .ok ()) => some (s, true)
  | some (s, .error _) => some (s, false)

/-- `PipelineLoader::serialize` to a file. Opening the file truncates it, so that it is
empty when a getter throws afterwards. -/
def serializeFile (R : Registry P) (files : String → File) (canOpen : Bool) (s : Pipeline P) :
    (String → File) × Bool :=
  if ¬ canOpen then (files, false)
  else match s.serialize R with
  | none => (Function.update files s.m_filename (.document ⟨[], []⟩), false)
  | some doc => (Function.update files s.m_filename (.document doc), true)

def save (R : Registry P) (files : String → File) (canOpen : Bool) (s : Pipeline P) :
    Pipeline P × (String → File) × Bool :=
  if s.m_changed then
    match s.serializeFile R files canOpen with
    | (files, true) => ({ s with m_changed := false }, files, true)
    | (files, false) => (s, files, false)
  else (s, files, true)

def saveAs (R : Registry P) (files : String → File) (canOpen : Bool) (filename : String)
    (s : Pipeline P) : Pipeline P × (String → File) × Bool :=
  let s := if s.m_filename ≠ filename then { s with m_filename := filename } else s
  s.save R files canOpen

end Pipeline

end ParleVision.Loader
