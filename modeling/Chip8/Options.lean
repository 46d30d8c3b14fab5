import Chip8.Text.Blank

/-!
# Command-line arguments

An argument that starts with two hyphens is an option, any other is a positional. An option
`--name=value` with a name and a one-line value gives that value to the name; any other option gives
`1` to all that stands behind the hyphens. The last value given to a name counts. The reserved name
`__proto__` cannot be given a value.

A record of options comes with members of its own, so that reading a name answers more than what was
given: a name without a value may be the name of such a member (`Options.read`).
-/

namespace Chip8

/-- Option names with their values. A name stands in it once. -/
structure Options where
  entries : List (String × String)
deriving DecidableEq

namespace Options

def empty : Options := ⟨[]⟩

/-- The value that a name has been given. -/
def given? (o : Options) (name : String) : Option String := o.entries.lookup name

/-- What reading a name answers. -/
inductive Answer
  | text (value : String)
  /-- A member that every record of options comes with. It is no text. -/
  | builtIn
  | absent
deriving DecidableEq

def Answer.text? : Answer → Option String
  | text value => some value
  | builtIn => none
  | absent => none

/-- The name that cannot be given a value. -/
def reserved : String := "__proto__"

/-- The names of the members that every record of options comes with. -/
def builtIns : List String :=
  ["constructor", "__defineGetter__", "__defineSetter__", "hasOwnProperty", "__lookupGetter__",
    "__lookupSetter__", "isPrototypeOf", "propertyIsEnumerable", "toString", "valueOf",
    "toLocaleString", reserved]

/-- Reads a name. A value that it has been given hides a member that the record came with. -/
def read (o : Options) (name : String) : Answer :=
  match o.given? name with
  | some value => .text value
  | none => if name ∈ builtIns then .builtIn else .absent

/-- The text that is read under a name. Commands read names that are none of the built-in ones. -/
def get? (o : Options) (name : String) : Option String := (o.read name).text?

theorem get?_eq_given? (o : Options) (name : String) : o.get? name = o.given? name := by
  unfold get? read
  cases o.given? name with
  | none =>
    dsimp only
    split <;> rfl
  | some value => rfl

theorem read_eq_text_iff {o : Options} {name value : String} :
    o.read name = .text value ↔ o.get? name = some value := by
  rw [get?_eq_given?, read]
  cases o.given? name with
  | none =>
    dsimp only
    split <;> exact iff_of_false nofun nofun
  | some value' => simp only [Answer.text.injEq, Option.some.injEq]

@[simp] theorem get?_empty (name : String) : empty.get? name = none := get?_eq_given? empty name

/-- Where no value has been given, the built-in names still answer. -/
theorem read_of_get?_eq_none {o : Options} {name : String} (none : o.get? name = none) :
    o.read name = if name ∈ builtIns then .builtIn else .absent := by
  rw [get?_eq_given?] at none
  rw [read, none]

theorem read_congr {o o' : Options} {name : String} (same : o'.get? name = o.get? name) :
    o'.read name = o.read name := by
  rw [get?_eq_given?, get?_eq_given?] at same
  rw [read, read, same]

def set (o : Options) (name value : String) : Options :=
  ⟨(name, value) :: o.entries.filter (·.1 ≠ name)⟩

theorem given?_set (o : Options) (name value key : String) :
    (o.set name value).given? key = if key = name then some value else o.given? key := by
  unfold set given?
  by_cases h : key = name
  · simp [h]
  · have miss : (key == name) = false := beq_eq_false_iff_ne.2 h
    simp only [List.lookup_cons, miss, h, ite_false]
    generalize o.entries = entries
    induction entries with
    | nil => rfl
    | cons e rest ih =>
      obtain ⟨k, v⟩ := e
      by_cases hk : k = name
      · have miss : (key == k) = false := beq_eq_false_iff_ne.2 (hk ▸ h)
        simp only [List.lookup_cons, miss, ← ih]
        simp [hk]
      · have kept : ((k, v) :: rest).filter (·.1 ≠ name) = (k, v) :: rest.filter (·.1 ≠ name) := by
          simp [hk]
        rw [kept, List.lookup_cons, List.lookup_cons, ih]

theorem get?_set (o : Options) (name value key : String) :
    (o.set name value).get? key = if key = name then some value else o.get? key := by
  rw [get?_eq_given?, get?_eq_given?, given?_set]

end Options

/-- The arguments of a command, sorted into options and the rest. -/
structure Arguments where
  options : Options
  positionals : List String
deriving DecidableEq

namespace Arguments

def empty : Arguments := ⟨.empty, []⟩

/-- The name and the value that an argument denotes, if it is an option. -/
def option? : List Char → Option (List Char × List Char)
  | '-' :: '-' :: rest =>
    let name := rest.takeWhile (· ≠ '=')
    match rest.dropWhile (· ≠ '=') with
    | [] => some (rest, ['1'])
    | _ :: value =>
      if name ≠ [] ∧ value.all (!Text.isLineEnd ·) then some (name, value) else some (rest, ['1'])
  | _ => none

/-- One argument more. -/
def add (a : Arguments) (arg : String) : Arguments :=
  match option? arg.toList with
  | some (name, value) =>
    let name := String.ofList name
    if name = Options.reserved then a
    else { a with options := a.options.set name (String.ofList value) }
  | none => { a with positionals := a.positionals ++ [arg] }

def parse (args : List String) : Arguments := args.foldl add empty

end Arguments

end Chip8
