/-!
# Tables of settings

Settings are written as tables of strings, arrays and further tables; of other values it is only
known that they are there. The reader of a settings file defines a table bit by bit: under headers,
through dotted keys and in braces. Each table remembers how it was defined, because nothing may be
defined twice.
-/

namespace Bindery
set_option autoImplicit false

/-- How a table came to be. -/
inductive Toml.Origin where
  /-- It leads to a table named in a header. -/
  | implied
  /-- It is named in a header. -/
  | header
  /-- It leads to a value with a dotted key. -/
  | dotted
  /-- It is written in braces and complete. -/
  | inline
deriving Repr, DecidableEq, Inhabited

/-- A setting. -/
inductive Toml where
  | string (value : String)
  /-- A number, a truth value or a date. -/
  | other
  /-- An array in brackets, or the tables of a repeated header. -/
  | array (ofTables : Bool) (items : List Toml)
  | table (origin : Toml.Origin) (entries : List (String × Toml))
deriving Repr, Inhabited

namespace Toml

/-- The entries of a table. -/
abbrev Entries := List (String × Toml)

/-- Changes what a key holds, or adds the key; none if `change` refuses. -/
def Entries.modify? (key : String) (change : Option Toml → Option Toml) :
    Entries → Option Entries
  | [] => (change none).map fun value => [(key, value)]
  | (k, value) :: rest =>
    if k = key then (change (some value)).map fun value => (k, value) :: rest
    else (modify? key change rest).map ((k, value) :: ·)

/-- Changes the entries of a table, of the last table of a repeated header, or of a new table. -/
def within (fresh : Origin) (change : Entries → Option Entries) : Option Toml → Option Toml
  | none => (change []).map (.table fresh)
  | some (.table origin entries) =>
    if origin = .inline then none else (change entries).map (.table origin)
  | some (.array true items) =>
    match items.getLast? with
    | some (.table origin entries) =>
      (change entries).map fun entries => .array true (items.dropLast ++ [.table origin entries])
    | _ => none
  | some _ => none

/-- Changes what the last of some keys holds; the others lead from table to table. -/
def atHeader (change : Option Toml → Option Toml) : List String → Entries → Option Entries
  | [], _ => none
  | [key], entries => entries.modify? key change
  | key :: keys, entries => entries.modify? key (within .implied (atHeader change keys))

/-- Begins the table of a header. It may exist only as a way to other headers. -/
def openTable : Option Toml → Option Toml
  | none => some (.table .header [])
  | some (.table .implied entries) => some (.table .header entries)
  | some _ => none

/-- Begins another table of a repeated header. -/
def openItem : Option Toml → Option Toml
  | none => some (.array true [.table .header []])
  | some (.array true items) => some (.array true (items ++ [.table .header []]))
  | some _ => none

/-- Sets a dotted key that is not there yet. The tables on the way come from dotted keys or headers
further in. -/
def setDotted (value : Toml) : List String → Entries → Option Entries
  | [], _ => none
  | [key], entries => entries.modify? key fun
    | none => some value
    | some _ => none
  | key :: keys, entries => entries.modify? key fun
    | none => (setDotted value keys []).map (.table .dotted)
    | some (.table .dotted inner) => (setDotted value keys inner).map (.table .dotted)
    | some (.table .implied inner) => (setDotted value keys inner).map (.table .implied)
    | some _ => none

/-- Sets a dotted key in the table of a header. -/
def setUnder (header keys : List String) (value : Toml) (entries : Entries) : Option Entries :=
  if header = [] then setDotted value keys entries
  else atHeader (within .header (setDotted value keys)) header entries

end Toml

end Bindery
