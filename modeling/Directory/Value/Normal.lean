import Directory.Text.Integer

/-!
# Normal values

The canonical form that a value takes before it is compared or indexed. Integers come before
texts, integers in numeric order and texts in the order of their code points.
-/

namespace Directory

/-- The canonical form of an attribute value. -/
inductive NormalValue where
  | integer (n : Int)
  | text (s : String)
  deriving DecidableEq, Repr, Inhabited

namespace NormalValue

/-- The text, unless the value is an integer. -/
def text? : NormalValue → Option String
  | integer _ => none
  | text s => some s

/-- The value as it is shown: decimal digits, or the text itself. -/
def display : NormalValue → String
  | integer n => String.ofList (Text.showInteger n)
  | text s => s

/-- Integers before texts, each kind in its own order. -/
protected def compare : NormalValue → NormalValue → Ordering
  | integer a, integer b => compare a b
  | integer _, text _ => .lt
  | text _, integer _ => .gt
  | text a, text b => compare a b

instance : Ord NormalValue := ⟨NormalValue.compare⟩

@[simp] theorem compare_integer (a b : Int) : compare (integer a) (integer b) = compare a b := rfl
@[simp] theorem compare_integer_text (a : Int) (b : String) :
    compare (integer a) (text b) = .lt := rfl
@[simp] theorem compare_text_integer (a : String) (b : Int) :
    compare (text a) (integer b) = .gt := rfl
@[simp] theorem compare_text (a b : String) : compare (text a) (text b) = compare a b := rfl

instance : Std.OrientedOrd NormalValue where
  eq_swap {a b} := by
    cases a <;> cases b
    · exact Std.OrientedOrd.eq_swap (α := Int)
    · rfl
    · rfl
    · exact Std.OrientedOrd.eq_swap (α := String)

instance : Std.TransOrd NormalValue where
  isLE_trans {a b c} hab hbc := by
    cases a <;> cases b <;> cases c <;> simp_all
    · exact Std.TransOrd.isLE_trans hab hbc
    · exact Std.TransOrd.isLE_trans hab hbc

instance : Std.LawfulEqOrd NormalValue where
  eq_of_compare {a b} h := by
    cases a <;> cases b <;> simp_all

end NormalValue

end Directory
