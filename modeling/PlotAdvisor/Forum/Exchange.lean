import PlotAdvisor.Forum.Command
import PlotAdvisor.Markup.Writer

/-! The steps of cleaning on values of any kind, and the filters of questions and answers. -/
set_option autoImplicit false

namespace PlotAdvisor.Forum

def plainBy (known : List (String × List Markup.Event)) (text : String) : String :=
  Markup.plainText ((known.lookup text).getD [])

inductive Step where
  | elements (tag : String)
  | code
  | markup
  | words
  | whole

def Step.apply (plain : String → String) : Step → Datum → Except Fault Datum
  | .elements tag, .text s => .ok (toDatum (stripElements tag s))
  | .code, .text s => .ok (toDatum (stripCode s))
  | .markup, .text s => .ok (toDatum (plain s))
  | .words, .text s => .ok (toDatum (tokenized s))
  | .whole, .text s => .ok (toDatum (cleaned plain s))
  | .elements _, _ | .code, _ => .error (.broken "")
  | _, _ => .error .wrongKind

def cleanedThread (plain : String → String) (title body : Option String) (answers : List (Option String)) :
    Except Fault Datum :=
  let t : Thread := ⟨0, title, body, none, answers.map fun b => ⟨0, b, none⟩⟩
  toDatum <$> t.cleaned plain

def filterOf : Option String → Except Fault Filter
  | none | some "" => .ok {}
  | some text => Filter.read text

def blocksOf : Datum → Except Fault Datum
  | .text s => .ok (toDatum (codeBlocks s))
  | _ => .error (.broken "")

end PlotAdvisor.Forum
