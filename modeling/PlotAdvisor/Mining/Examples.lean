import PlotAdvisor.Knowledge.Sources
import PlotAdvisor.Storage.Cabinet

/-! The examples that are mined: three collections of codes, each loaded when its turn comes. -/
set_option autoImplicit false

namespace PlotAdvisor.Mining

open Knowledge Storage

/-- What happens while the examples are gone through. -/
inductive Happening where
  | told (text : String)
  | code (text : String)
  | failed (f : Fault)

structure Collection where
  folder : String
  name : String
  /-- What is told before loading. -/
  announcement : String
  /-- Where the examples are from. -/
  origin : String
  codes : Option (List String)

def collections (s : Saved) : List Collection := [
  ⟨"experimental/code_suggest", "all_codes", "Loading SO code examples...", "SO", s.answerCodes⟩,
  ⟨"experimental/code_suggest/output/backup", "all_codes_github_1k_repo_0322", "Loading GitHub code examples...",
    "GitHub", s.repositoryCodes⟩,
  ⟨"experimental/mining/output", "codes_shiyan_0331_web", "Loading Web code examples", "Web Shiyan", s.webCodes⟩]

namespace Collection

def cabinet (c : Collection) : Cabinet (List String) :=
  let empty : Cabinet (List String) := ⟨c.folder, .empty⟩
  match c.codes with
  | some codes => (empty.save c.name codes).1
  | none => empty

def happenings (again : Bool) (c : Collection) : List Happening :=
  match c.cabinet.load c.name with
  | .error f => [.told (c.announcement ++ "\n"), .failed f]
  | .ok (codes, said) =>
    let telling :=
      if again && !codes.isEmpty then []
      else [.told (c.announcement ++ "\n" ++ said ++ toString codes.length ++ " examples from " ++ c.origin ++ "\n")]
    telling ++ codes.map Happening.code

end Collection

def examples (again : Bool) (s : Saved) : List Happening := (collections s).flatMap (Collection.happenings again)

def gather : List Happening → Except Fault (List String × String)
  | [] => .ok ([], "")
  | .told t :: rest => do
    let (codes, said) ← gather rest
    return (codes, t ++ said)
  | .code c :: rest => do
    let (codes, said) ← gather rest
    return (c :: codes, said)
  | .failed f :: _ => .error f

end PlotAdvisor.Mining
