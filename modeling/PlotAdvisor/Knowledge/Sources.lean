import PlotAdvisor.Csv
import PlotAdvisor.Knowledge.Shipped
import PlotAdvisor.Numeric

/-! The texts that the library works from, and what earlier runs have saved. Each text is the one that comes
with the library, or a heading alone, until another is put in its place. -/
set_option autoImplicit false

namespace PlotAdvisor.Knowledge

structure Sources where
  shortForms : String
  returnTypes : String
  furtherDocs : String
  furtherReferences : String
  functionDocs : String
  argumentDocs : String
  elementDocs : String
  plottingSummary : String
  plottingModule : String
  emptyWords : String
  expectations : String
  deriving Inhabited

def moduleOfSummary (summary : String) : String :=
  String.join (((Text.fieldsAtNewline summary).drop 1).map fun line =>
    "def " ++ (Text.splitOnce line ",").1 ++ "(x):\n")

def Sources.shipped : Sources where
  shortForms := Knowledge.shortForms
  returnTypes := Knowledge.returnTypes
  furtherDocs := Knowledge.furtherDocs
  furtherReferences := Knowledge.furtherReferences
  functionDocs := "Function,Utterance\n"
  argumentDocs := "Function,Argument,Utterance\n"
  elementDocs := "elem_id,name,full_name,type,parent_id,rtype,count,utter,utter_expand\n"
  plottingSummary := Knowledge.plottingSummary
  plottingModule := moduleOfSummary Knowledge.plottingSummary
  emptyWords := Knowledge.emptyWords
  expectations := "File,Query,Expected,Remarks\n"

/-- What earlier runs have saved: counts of elements and of their values, average positions, collections of
codes, and counts of elements that occur together. -/
structure Saved where
  elementCounts : Table String Int := .empty
  valueCounts : Table String (List (String × Int)) := .empty
  positions : Table String Numeric := .empty
  answerCodes : Option (List String) := none
  repositoryCodes : Option (List String) := none
  webCodes : Option (List String) := none
  pairCounts : Option (Table (String × String) Int) := none

end PlotAdvisor.Knowledge
