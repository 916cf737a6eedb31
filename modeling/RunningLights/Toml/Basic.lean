/-!
# Settings documents

The values of a settings document and its tables.  A table remembers how it came to be, because that decides what may
still be added to it: one that a header has opened is complete in itself, one that only lies on the way to another
may be opened once, one that dotted keys have made takes more dotted keys, and one in braces is closed.

* `Entries.add?` — adds a value under a dotted key;
* `Entries.openTable?`, `Entries.openItem?` — opens a table or the next one of a list of tables.
-/

namespace RunningLights

/-- How a table came to be. -/
inductive Toml.TableKind where
  | header
  | onTheWay
  | dotted
  | braces
  deriving Repr, DecidableEq, Inhabited

/-- A value without parts. -/
inductive Toml.Scalar where
  | text (s : String)
  | int (n : Int64)
  | float (x : Float)
  | bool (b : Bool)
  deriving Inhabited

/-- A value of a settings document. -/
inductive Toml where
  | scalar (s : Toml.Scalar)
  /-- A date, a time, or both. -/
  | moment
  | array (items : List Toml)
  | table (kind : Toml.TableKind) (entries : List (String × Toml))
  /-- A list of tables that headers have opened. -/
  | tables (items : List (List (String × Toml)))
  deriving Inhabited

namespace Toml

/-- The entries of a table, in their order. -/
abbrev Entries := List (String × Toml)

namespace Entries

/-- Replaces the value of a key that the table has. -/
def replace (key : String) (v : Toml) (t : Entries) : Entries :=
  t.map fun (k, old) => (k, if k == key then v else old)

/-- Changes the table that keys lead to, making those on the way.  Of a list of tables it is the last. -/
def within? (f : Entries → Option Entries) : List String → Entries → Option Entries
  | [], t => f t
  | key :: keys, t =>
    match List.lookup key t with
    | none => (within? f keys []).map fun inner => t ++ [(key, .table .onTheWay inner)]
    | some (.table .braces _) => none
    | some (.table kind inner) => (within? f keys inner).map fun inner => replace key (.table kind inner) t
    | some (.tables items) =>
      match items.getLast? with
      | none => none
      | some inner => (within? f keys inner).map fun inner => replace key (.tables (items.dropLast ++ [inner])) t
    | some _ => none

/-- Opens a table by its name within another.  One that is there must only have been on the way. -/
def openHere? (key : String) (t : Entries) : Option Entries :=
  match List.lookup key t with
  | none => some (t ++ [(key, .table .header [])])
  | some (.table .onTheWay inner) => some (replace key (.table .header inner) t)
  | some _ => none

/-- Opens the next table of a list within another table. -/
def openItemHere? (key : String) (t : Entries) : Option Entries :=
  match List.lookup key t with
  | none => some (t ++ [(key, .tables [[]])])
  | some (.tables items) => some (replace key (.tables (items ++ [[]])) t)
  | some _ => none

/-- Opens the table of a header. -/
def openTable? (path : List String) (t : Entries) : Option Entries :=
  match path.getLast? with
  | none => none
  | some key => within? (openHere? key) path.dropLast t

/-- Opens the next table of a list that a header names. -/
def openItem? (path : List String) (t : Entries) : Option Entries :=
  match path.getLast? with
  | none => none
  | some key => within? (openItemHere? key) path.dropLast t

/-- Adds a value under a dotted key, which must not be there. -/
def add? (v : Toml) : List String → Entries → Option Entries
  | [], _ => none
  | [key], t => if (List.lookup key t).isSome then none else some (t ++ [(key, v)])
  | key :: next :: keys, t =>
    match List.lookup key t with
    | none => (add? v (next :: keys) []).map fun inner => t ++ [(key, .table .dotted inner)]
    | some (.table .dotted inner) =>
      (add? v (next :: keys) inner).map fun inner => replace key (.table .dotted inner) t
    | some (.table .onTheWay inner) =>
      if keys.isEmpty then none
      else (add? v (next :: keys) inner).map fun inner => replace key (.table .onTheWay inner) t
    | some (.tables items) =>
      match keys, items.getLast? with
      | _ :: _, some inner =>
        (add? v (next :: keys) inner).map fun inner => replace key (.tables (items.dropLast ++ [inner])) t
      | _, _ => none
    | some _ => none

end Entries

end Toml

end RunningLights
