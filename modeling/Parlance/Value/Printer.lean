import Parlance.Number.Decimal
import Parlance.Number.Integer
import Parlance.Value.Basic

/-!
# The text of values

* `Value.display`   the written form: strings and characters in quotation marks, doubles with three
                    places, lists and maps in square brackets;
* `Value.raw`       the same without the quotation marks of a string or a character;
* `Value.message`   the text of a chat message: the items of a list with spaces between them, the
                    entries of a map with commas.
-/

namespace Parlance.Value

/-- the characters of a list as they stand between quotation marks -/
def quotedChars (items : List Value) : String :=
  "\"" ++ String.ofList (items.filterMap char?) ++ "\""

/-- the written form of a function: its name and its type -/
def functionText (c : Command) : String := c.name ++ ": " ++ c.signature.ty.display

mutual

/-- the written form of a value -/
def display : Value → String
  | void => "()"
  | bool b => if b then "true" else "false"
  | char c => "'" ++ String.singleton c ++ "'"
  | int i => Integer.display i
  | dbl d => String.ofList d.placesText
  | list elem items =>
    if elem = .char then quotedChars items else "[" ++ displayItems items ++ "]"
  | map _ _ entries => "[" ++ displayEntries entries ++ "]"
  | function c => functionText c

/-- the written forms of several values, with commas between them -/
def displayItems : List Value → String
  | [] => ""
  | [v] => v.display
  | v :: vs => v.display ++ ", " ++ displayItems vs

/-- the written forms of several bindings, with commas between them -/
def displayEntries : List (Value × Value) → String
  | [] => ""
  | [(k, v)] => k.display ++ ": " ++ v.display
  | (k, v) :: rest => k.display ++ ": " ++ v.display ++ ", " ++ displayEntries rest

end

/-- the written form without the quotation marks of a string or a character -/
def raw : Value → String
  | char c => String.singleton c
  | v => v.text?.getD v.display

/-- the text of a chat message -/
def message (v : Value) : String :=
  match v with
  | list elem items => if elem = .char then v.raw else " ".intercalate (items.map raw)
  | map _ _ entries => ", ".intercalate (entries.map fun e => e.1.raw ++ ":" ++ e.2.raw)
  | v => v.raw

@[simp] theorem raw_ofString (s : String) : (ofString s).raw = s := by
  show (ofString s).text?.getD (ofString s).display = s
  rw [text?_ofString]; rfl

@[simp] theorem message_ofString (s : String) : (ofString s).message = s := raw_ofString s

end Parlance.Value
