/-!
# Documents

Settings are read from documents of the kind that JSON describes: values that
are nested in lists and in records with named fields.

A document with the settings of something is a record in which each setting has
its name, or a list in which each has its place. A setting that is missing keeps
its default. Names that mean nothing are passed over, but a list must not be
longer than there are settings.

## Main definitions

* `Document`: A value.
* `Document.settings?`: The settings of some names.
* `Document.flag?`, `Document.natBelow?`: What a single setting has to be.
* `jsonObject`: A record in JSON.
-/

namespace VideoTransport

/-- A value in a document. -/
inductive Document where
  | null
  | flag (b : Bool)
  /-- A number that is written without a point and without an exponent. -/
  | whole (n : Int)
  /-- Any other number. -/
  | fraction
  | text (s : String)
  | list (items : List Document)
  | record (fields : List (String × Document))

namespace Document

/-- The settings of some names in a document, in the order of the names. A
    setting that is missing is none. There are no settings at all in what is
    neither a record nor a list, and in a list that is too long. -/
def settings? (names : List String) : Document → Option (List (Option Document))
  | record fields => some (names.map fun name => fields.lookup name)
  | list items =>
    if names.length < items.length then none
    else some (items.map some ++ List.replicate (names.length - items.length) none)
  | _ => none

/-- A value that is true or false. -/
def flag? : Document → Option Bool
  | flag b => some b
  | _ => none

/-- A value that is a natural number below a bound. -/
def natBelow? (bound : Nat) : Document → Option Nat
  | whole n => if 0 ≤ n ∧ n < bound then some n.toNat else none
  | _ => none

/-- A setting, read as what it has to be. The default if it is missing, and
    nothing if it is something else. -/
def orDefault {α : Type} (read : Document → Option α) (default : α) :
    Option Document → Option α
  | none => some default
  | some d => read d

end Document

/-- A record in JSON, from names and from values in JSON. The names must not
    contain what JSON escapes. -/
def jsonObject (fields : List (String × String)) : String :=
  "\x7b" ++ String.intercalate "," (fields.map fun (name, value) => "\"" ++ name ++ "\":" ++ value)
    ++ "\x7d"

end VideoTransport
