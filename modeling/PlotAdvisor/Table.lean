/-! Tables: entries by key, in the order in which the keys were first set. -/
set_option autoImplicit false

namespace PlotAdvisor

structure Table (κ ν : Type) where
  entries : List (κ × ν)
  deriving Inhabited

namespace Table

variable {κ ν : Type} [BEq κ]

def empty : Table κ ν := ⟨[]⟩

def get? (t : Table κ ν) (k : κ) : Option ν := t.entries.lookup k

def getD (t : Table κ ν) (k : κ) (default : ν) : ν := (t.get? k).getD default

def contains (t : Table κ ν) (k : κ) : Bool := (t.get? k).isSome

def keys (t : Table κ ν) : List κ := t.entries.map Prod.fst

def values (t : Table κ ν) : List ν := t.entries.map Prod.snd

def size (t : Table κ ν) : Nat := t.entries.length

def setIn (k : κ) (v : ν) : List (κ × ν) → List (κ × ν)
  | [] => [(k, v)]
  | (j, w) :: rest => if j == k then (j, v) :: rest else (j, w) :: setIn k v rest

def set (t : Table κ ν) (k : κ) (v : ν) : Table κ ν := ⟨setIn k v t.entries⟩

/-- Changes the entry of a key, which starts from `default`. -/
def alter (t : Table κ ν) (k : κ) (default : ν) (f : ν → ν) : Table κ ν :=
  t.set k (f (t.getD k default))

def ofList (es : List (κ × ν)) : Table κ ν := es.foldl (fun t e => t.set e.1 e.2) empty

def count (t : Table κ Nat) (k : κ) : Table κ Nat := t.alter k 0 (· + 1)

def push {α : Type} (t : Table κ (List α)) (k : κ) (a : α) : Table κ (List α) :=
  t.alter k [] (· ++ [a])

def mapValues {μ : Type} (f : ν → μ) (t : Table κ ν) : Table κ μ :=
  ⟨t.entries.map fun e => (e.1, f e.2)⟩

end Table

end PlotAdvisor
