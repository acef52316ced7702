/-!
# Entries with keys

Lists of keys and values in which each key stands once. `Entries.insert` keeps the order: a key that
is there keeps its position and gets the new value, any other key comes last. `List.lookup` reads
them.
-/

namespace LintTypes.Entries

variable {κ α : Type} [DecidableEq κ]

/-- Puts a value under a key: in the place of its value if the key is there, at the end if not. -/
def insert (key : κ) (value : α) : List (κ × α) → List (κ × α)
  | [] => [(key, value)]
  | (k, v) :: entries =>
    if k = key then (k, value) :: entries else (k, v) :: insert key value entries

/-- The entries with each key once: at its first position, with its last value. -/
def unique (entries : List (κ × α)) : List (κ × α) :=
  entries.foldl (fun kept (key, value) => insert key value kept) []

/-- Whether there is an entry with the key. -/
def hasKey (key : κ) (entries : List (κ × α)) : Bool := entries.any fun entry => entry.1 = key

end LintTypes.Entries
