/-!
# Positions in bytes

Positions and lengths of source text are counted in the bytes of its UTF-8 form.

* `Text.byteLength cs`   the number of bytes of a text;
* `Text.lineAt cs n`     the number, from 1, of the line on which byte `n` stands.
-/

namespace Parlance.Text

def byteLength : List Char → Nat
  | [] => 0
  | c :: cs => c.utf8Size + byteLength cs

@[simp] theorem byteLength_nil : byteLength [] = 0 := rfl

@[simp] theorem byteLength_cons (c : Char) (cs : List Char) :
    byteLength (c :: cs) = c.utf8Size + byteLength cs := rfl

@[simp] theorem byteLength_append (cs ds : List Char) :
    byteLength (cs ++ ds) = byteLength cs + byteLength ds := by
  induction cs with
  | nil => simp
  | cons c cs ih => simp [ih, Nat.add_assoc]

theorem byteLength_ofList (cs : List Char) : (String.ofList cs).utf8ByteSize = byteLength cs := by
  induction cs with
  | nil => simp
  | cons c cs ih =>
    rw [String.ofList_cons, String.utf8ByteSize_append, String.utf8ByteSize_singleton, ih]
    rfl

/-- the bytes of a string are those of its characters -/
theorem byteLength_toList (s : String) : byteLength s.toList = s.utf8ByteSize := by
  rw [← byteLength_ofList, String.ofList_toList]

/-- The line of the character that starts at byte `n`: one more than the line ends before it. -/
def lineAt : List Char → Nat → Nat
  | [], _ => 1
  | c :: cs, n =>
    if n < c.utf8Size then 1
    else lineAt cs (n - c.utf8Size) + if c == '\n' then 1 else 0

end Parlance.Text
