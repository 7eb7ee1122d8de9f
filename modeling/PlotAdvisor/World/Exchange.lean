import PlotAdvisor.Models.Elements.Exchange
import PlotAdvisor.World.Basic

/-! How the world is exchanged. -/
set_option autoImplicit false

namespace PlotAdvisor

open Knowledge

namespace World

def sourcesOf (files : Datum) : Sources :=
  let own (path shipped : String) : String := files.getD path shipped
  let s := Sources.shipped
  let dir := "docstring_parse/"
  { shortForms := own (dir ++ "annotation/stype_map.csv") s.shortForms
    returnTypes := own (dir ++ "annotation/rtype_map.csv") s.returnTypes
    furtherDocs := own (dir ++ "annotation/additional_doc.csv") s.furtherDocs
    furtherReferences := own (dir ++ "annotation/additional_ref.csv") s.furtherReferences
    functionDocs := own (dir ++ "fu.csv") s.functionDocs
    argumentDocs := own (dir ++ "fau.csv") s.argumentDocs
    elementDocs := own (dir ++ "doc_polished/elem_docs.csv") s.elementDocs
    plottingSummary := own (dir ++ "pyplot_fu.csv") s.plottingSummary
    plottingModule := own "lib/matplotlib/pyplot.py" s.plottingModule
    emptyWords := own "models/stopwords-en.txt" s.emptyWords
    expectations := own "models/data/gt-0924.csv" s.expectations }

def savedOf (b : Datum) : Saved where
  elementCounts := (b.field "elem_pyplot_counts_0404").table
  valueCounts := Table.ofList (b.getD "elem_pyplot_value_counts_0404" [])
  positions := (b.field "pos_ave").table
  answerCodes := b.get? _ "all_codes"
  repositoryCodes := b.get? _ "all_codes_github_1k_repo_0322"
  webCodes := b.get? _ "codes_shiyan_0331_web"
  pairCounts := (b.get? (List (String × String × Int)) "coke_0329").map fun rows =>
    Table.ofList (rows.map fun (a, b, n) => ((a, b), n))

def vectorsOf (d : Datum) : Option (Models.Vectors.WordVectors Float) := do
  let rows ← d.get? (List (List Float)) "vecs"
  return ⟨← d.get? (List String) "words", rows, (rows.head?.map List.length).getD 0, (d.field "null_word").truthy⟩

instance : FromDatum Sample := ⟨fun d => do
  let (f, c, p) ← (fromDatum d : Option (String × String × Option String))
  return ⟨f, c, p⟩⟩

def ofDatum (tokenizer : Wording.Tokenizer) (d : Datum) : World where
  sources := sourcesOf (d.field "files")
  saved := savedOf (d.field "backup")
  files := (d.field "files").table
  vectors := vectorsOf (d.field "w2v")
  trained := Models.Elements.Model.ofDatum? (d.field "model")
  tokenizer := tokenizer
  stemmers := ⟨((d.field "stem").field "porter").table, ((d.field "stem").field "lemma").table⟩
  samples := (d.field "db").getD "example" []
  located := (d.field "locate").table

end World

end PlotAdvisor
