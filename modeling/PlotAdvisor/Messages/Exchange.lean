import PlotAdvisor.Messages.Message

/-! Steps on named records, as they are exchanged. -/
set_option autoImplicit false

namespace PlotAdvisor.Messages

def attributesOf (d : Datum) : List (String × Value) := (fromDatum d).getD []

abbrev NamedRecords := List (String × Record)

namespace NamedRecords

def find (env : NamedRecords) (name : String) : Except Fault Record :=
  orFault (env.lookup name) (.noKey (Text.quoted name))

def keep (env : NamedRecords) (name : String) (r : Record) : Except Fault (Datum × NamedRecords) :=
  .ok (toDatum r.render, (name, r) :: env)

def step (env : NamedRecords) : List Datum → Except Fault (Datum × NamedRecords)
  | [.text "new", .text name, .text "TextRange", range] => do
    let (l, c, el, ec) ← orFault (fromDatum range : Option (Int × Int × Int × Int)) .wrongKind
    env.keep name (Record.range l c el ec)
  | [.text "new", .text name, .text cls, kw] => do env.keep name (← Record.make cls (attributesOf kw))
  | [.text "new", .text name, .text cls, what, kw] => do
    env.keep name (← Record.command cls (Value.ofDatum what) (attributesOf kw))
  | [.text "update", .text name, kw] => do env.keep name (← (← env.find name).update (attributesOf kw))
  | [.text "fill", .text name, kw] => do
    env.keep name (← (← env.find name).setMissing (attributesOf kw))
  | [.text "shown", .text name] => do return (toDatum (← env.find name).render, env)
  | [.text "plain", .text name] => do return (Datum.ofPoints (← env.find name).plain, env)
  | [.text "desc", .text name] => do return (Datum.ofPoints (← (← env.find name).description), env)
  | [.text "eq", .text a, .text b] => do return (toDatum ((← env.find a).same (← env.find b)), env)
  | [.text "ne", .text a, .text b] => do return (toDatum (!(← env.find a).same (← env.find b)), env)
  | [.text "same_hash", .text a, .text b] => do
    return (toDatum ((← env.find a).render == (← env.find b).render), env)
  | _ => .error .wrongKind

end NamedRecords

end PlotAdvisor.Messages
