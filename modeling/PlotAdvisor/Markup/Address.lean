import PlotAdvisor.Fault
import PlotAdvisor.Text.LowerCase
import PlotAdvisor.Text.Basic

/-! Web addresses: their parts, and an address that is relative to another. -/
set_option autoImplicit false

namespace PlotAdvisor.Markup

structure Address where
  scheme : String
  host : String
  path : String
  params : String
  query : String
  fragment : String
  deriving Inhabited, DecidableEq

namespace Address

def relativeSchemes : List String :=
  ["", "ftp", "http", "gopher", "nntp", "imap", "wais", "file", "https", "shttp", "mms", "prospero", "rtsp",
    "rtsps", "rtspu", "sftp", "svn", "svn+ssh", "ws", "wss"]

def hostSchemes : List String :=
  ["", "ftp", "http", "gopher", "nntp", "telnet", "imap", "wais", "file", "mms", "https", "shttp", "snews",
    "prospero", "rtsp", "rtsps", "rtspu", "rsync", "svn", "svn+ssh", "sftp", "nfs", "git", "git+ssh", "ws",
    "wss"]

def paramSchemes : List String :=
  ["", "ftp", "hdl", "prospero", "http", "imap", "https", "shttp", "rtsp", "rtsps", "rtspu", "sip", "sips",
    "mms", "sftp", "tel"]

def isSchemeChar (c : Char) : Bool := c.isAlphanum || c == '+' || c == '-' || c == '.'

/-- The scheme in front of a colon, in lower case, and what follows. -/
def cutScheme (cs : List Char) : Option (List Char × List Char) :=
  match Text.Chars.cutAt [':'] cs with
  | some (s, rest) =>
    match s with
    | c :: _ => if c.isAlpha && s.all isSchemeChar then some (s.map Char.toLower, rest) else none
    | [] => none
  | none => none

def checkHost (host : List Char) : Except Fault Unit :=
  if host.contains '[' == host.contains ']' then .ok () else .error (.badValue "Invalid IPv6 URL")

def cutParams (path : List Char) : List Char × List Char :=
  let dir := (Text.Chars.findLast? ['/'] path).getD 0
  match Text.Chars.cutAt [';'] (path.drop dir) with
  | some (before, after) => (path.take dir ++ before, after)
  | none => (path, [])

def parse (scheme url : String) : Except Fault Address := do
  let cs := (url.toList.dropWhile fun c => decide (c.toNat ≤ 32)).filter fun c =>
    !(c == '\t' || c == '\r' || c == '\n')
  let (scheme, cs) := (cutScheme cs).getD (scheme.toList, cs)
  let (host, cs) :=
    match cs with
    | '/' :: '/' :: rest =>
      let host := rest.takeWhile fun c => !(c == '/' || c == '?' || c == '#')
      (host, rest.drop host.length)
    | cs => ([], cs)
  checkHost host
  let (cs, fragment) := (Text.Chars.cutAt ['#'] cs).getD (cs, [])
  let (cs, query) := (Text.Chars.cutAt ['?'] cs).getD (cs, [])
  let (path, params) :=
    if paramSchemes.contains (String.ofList scheme) then cutParams cs else (cs, [])
  return ⟨String.ofList scheme, String.ofList host, String.ofList path, String.ofList params,
    String.ofList query, String.ofList fragment⟩

def render (a : Address) : String :=
  let path := if a.params != "" then a.path ++ ";" ++ a.params else a.path
  let path :=
    if a.host != "" || (a.scheme != "" && hostSchemes.contains a.scheme) || Text.startsWith path "//" then
      "//" ++ a.host ++ (if path != "" && !Text.startsWith path "/" then "/" ++ path else path)
    else path
  (if a.scheme != "" then a.scheme ++ ":" else "") ++ path ++
    (if a.query != "" then "?" ++ a.query else "") ++
    (if a.fragment != "" then "#" ++ a.fragment else "")

def resolve : List String → List String → List String
  | done, [] => done.reverse
  | done, ".." :: rest => resolve (done.drop 1) rest
  | done, "." :: rest => resolve done rest
  | done, seg :: rest => resolve (seg :: done) rest

def joinPaths (base path : String) : String :=
  let dir := Text.splitOn base "/"
  let dir := if dir.getLast? == some "" then dir else dir.dropLast
  let own := Text.splitOn path "/"
  let segments :=
    if Text.startsWith path "/" then own
    else
      match dir ++ own with
      | [] => []
      | first :: rest => first :: ((rest.dropLast.filter (· != "")) ++ rest.getLast?.toList)
  let resolved := resolve [] segments
  let last := segments.getLast?.getD ""
  let resolved := if last == "." || last == ".." then resolved ++ [""] else resolved
  let joined := Text.join "/" resolved
  if joined == "" then "/" else joined

def join (base url : String) : Except Fault String := do
  if base == "" then return url
  if url == "" then return base
  let b ← parse "" base
  let a ← parse b.scheme url
  if a.scheme != b.scheme || !relativeSchemes.contains a.scheme then return url
  if hostSchemes.contains a.scheme && a.host != "" then return a.render
  let a := if hostSchemes.contains a.scheme then { a with host := b.host } else a
  if a.path == "" && a.params == "" then
    return { a with
      path := b.path, params := b.params, query := if a.query == "" then b.query else a.query }.render
  return { a with path := joinPaths b.path a.path }.render

end Address

end PlotAdvisor.Markup
