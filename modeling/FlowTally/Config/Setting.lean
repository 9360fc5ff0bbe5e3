import FlowTally.Json.Basic

/-!
# Settings

A configuration is read from one of two formats. Both give a tree of settings, in
which a scalar says how it can be taken: as a text, as a word of a fixed choice, as an
integer, as a truth value. A structure is named by a table or, by position, by a list.
A setting can refer to another one; a reading follows such references, and how many it
follows is bounded by the size of the whole.
-/

namespace FlowTally

/-- The ways in which a scalar can be taken. -/
structure Scalar where
  /-- As a text. -/
  text? : Option String
  /-- As a word of a fixed choice. -/
  word? : Option String
  /-- As an integer. -/
  integer? : Option Int
  /-- As a truth value. -/
  bool? : Option Bool
  /-- Whether nothing was written, which stands for an empty table or list. -/
  isVoid : Bool
deriving DecidableEq, Repr

/-- A setting. -/
inductive Setting where
  /-- A scalar. -/
  | scalar (s : Scalar)
  /-- A list of settings; a positional one can stand for a structure. -/
  | list (positional : Bool) (items : List Setting)
  /-- Settings named by settings; `word?` is the word that the table can be taken for. -/
  | table (word? : Option String) (entries : List (Setting × Setting))
  /-- The shared setting of a number. -/
  | reference (number : Nat)
deriving Repr

/-- A tree of settings with all that it refers to. -/
structure Settings where
  /-- The outermost setting. -/
  root : Setting
  /-- The shared settings with their numbers. Of two with one number the first counts. -/
  shared : List (Nat × Setting)
  /-- How many references a reading may follow. -/
  limit : Nat
deriving Repr

namespace Setting

/-- A scalar that is only a text. -/
def ofText (s : String) : Setting := .scalar ⟨some s, some s, none, none, false⟩

mutual
/-- The setting of a JSON value. An object with one null member can be taken for the
name of that member. -/
def ofJson : Json → Setting
  | .null => .scalar ⟨none, none, none, none, false⟩
  | .bool b => .scalar ⟨none, none, none, some b, false⟩
  | .num (.integer i) => .scalar ⟨none, none, some i, none, false⟩
  | .num (.float _) => .scalar ⟨none, none, none, none, false⟩
  | .str s => ofText s
  | .arr items => .list true (ofItems items)
  | .obj members =>
    let word? := match members with
      | [(name, .null)] => some name
      | _ => none
    .table word? (ofMembers members)

/-- The settings of several JSON values. -/
def ofItems : List Json → List Setting
  | [] => []
  | item :: rest => ofJson item :: ofItems rest

/-- The settings of the members of a JSON object. -/
def ofMembers : List (String × Json) → List (Setting × Setting)
  | [] => []
  | (name, value) :: rest => (ofText name, ofJson value) :: ofMembers rest
end

/-- A reading, which can fail. It knows the whole tree and counts the references that it
has followed. -/
abbrev Reading := ReaderT Settings (StateT Nat Option)

/-- The setting itself or what it refers to. -/
def follow : Setting → Reading Setting
  | .reference number => do
    let settings ← read
    let followed ← get
    if settings.limit ≤ followed then failure
    set (followed + 1)
    settings.shared.lookup number
  | s => pure s

/-- The setting as a text. -/
def text (s : Setting) : Reading String := do
  match ← s.follow with
  | .scalar s => s.text?
  | _ => failure

/-- The setting as one of the words that stand for something. -/
def choice {α : Type} (ofWord? : String → Option α) (s : Setting) : Reading α := do
  match ← s.follow with
  | .scalar s => s.word?.bind ofWord?
  | .table word? _ => word?.bind ofWord?
  | _ => failure

/-- The setting as a truth value. -/
def bool (s : Setting) : Reading Bool := do
  match ← s.follow with
  | .scalar s => s.bool?
  | _ => failure

/-- The setting as a natural number below a bound. -/
def natBelow (bound : Nat) (s : Setting) : Reading Nat := do
  match ← s.follow with
  | .scalar s => s.integer?.bind fun i => if 0 ≤ i ∧ i < bound then some i.toNat else none
  | _ => failure

/-- The setting as a list. -/
def items (s : Setting) : Reading (List Setting) := do
  match ← s.follow with
  | .list _ items => pure items
  | .scalar s => if s.isVoid then pure [] else failure
  | _ => failure

/-- The one entry of a name, `none` inside if there is none, and `none` if there are
several. -/
def named? (entries : List (String × Setting)) (name : String) : Option (Option Setting) :=
  match entries.filter fun e => decide (e.1 = name) with
  | [] => some none
  | [e] => some (some e.2)
  | _ => none

/-- The settings of the given names in their order. A table names each at most once and
may hold other names; a positional list gives the first of them and nothing else. -/
def members (names : List String) (s : Setting) : Reading (List (Option Setting)) := do
  match ← s.follow with
  | .table _ entries =>
    let entries ← entries.mapM fun (name, value) => do pure (← name.text, value)
    names.mapM fun name => liftM (named? entries name)
  | .list positional items =>
    if positional ∧ items.length ≤ names.length then
      pure (items.map some ++ List.replicate (names.length - items.length) none)
    else failure
  | .scalar s => if s.isVoid then pure (names.map fun _ => none) else failure
  | _ => failure

/-- A setting with a default for a missing one. -/
def orDefault {α : Type} (reading : Setting → Reading α) (default : α) :
    Option Setting → Reading α
  | none => pure default
  | some s => reading s

end Setting

namespace Settings

/-- The tree of a JSON value, which has no references. -/
def ofJson (value : Json) : Settings := ⟨.ofJson value, [], 0⟩

/-- What a reading of the outermost setting gives. -/
def readAs? {α : Type} (s : Settings) (reading : Setting → Setting.Reading α) : Option α :=
  ((reading s.root).run s).run' 0

end Settings

end FlowTally
