/-! What can go wrong. Every operation of the library that can fail returns `Except Fault`; a fault
names its cause, and those causes that have something to tell carry the text. -/
set_option autoImplicit false

namespace PlotAdvisor

inductive Fault where
  | wrongKind
  | noAttribute
  /-- A position outside a sequence. -/
  | outOfRange
  | noKey (shown : String)
  | badValue (reason : String)
  /-- A condition that the data should satisfy does not hold. -/
  | broken (reason : String)
  | unsupported (reason : String)
  | stuck (reason : String)
  | unparsable
  | unfinishedToken
  | noFile
  | unreachable
  | undecodable
  | unencodable
  | unknownEncoding
  | unboundName
  | unboundLocal
  | zeroDivision
  | exhausted
  | endOfInput
  | shortRecord
  | badUsage
  | tooLarge
  | endless
  | unending
  | quit (code : Int)
  deriving Repr, DecidableEq, Inhabited

def Fault.message : Fault → Option String
  | .noKey shown => some shown
  | .badValue reason => some reason
  | .broken reason => some reason
  | .unsupported reason => some reason
  | .stuck reason => some reason
  | _ => none

def ensure (holds : Bool) (reason : String) : Except Fault Unit :=
  if holds then .ok () else .error (.broken reason)

def orFault {α : Type} (x : Option α) (f : Fault) : Except Fault α :=
  match x with
  | some a => .ok a
  | none => .error f

end PlotAdvisor
