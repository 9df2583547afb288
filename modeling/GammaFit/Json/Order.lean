import GammaFit.Json.Convert

/-! # Order, likeness and iteration of values

Values are ordered as the settings check orders them. Numbers compare by their exact value
whatever their form: an integer beyond the doubles is not rounded to one, a truth value counts
as `0` or `1`, and a NaN is in no order with anything. Texts compare character by character.
Lists compare item by item: the first pair of items that are not alike decides, and when one list
runs out first the shorter is the lesser. No other pair of values has an order, and comparing
one fails with the operator and the two types in the message.

Values are alike when they are numbers of one value, equal texts, both `null`, lists of alike
items, or objects with the same keys holding alike values. Every NaN of a document is alike to
every other, since a document's NaN is one and the same value wherever it stands.

Iterating a value gives a list's items, a text's characters or an object's keys; nothing else can
be iterated. A value read as an integer is cut toward zero exactly, and NaN and the infinities
have no integer.
-/

namespace GammaFit.Decimal

/-- The signed value `(-1)^neg · mant · 2^exp` as a numerator over a power of two. -/
def Binary.ratio (v : Binary) : Int × Nat :=
  let m : Int := if v.neg then -(v.mant : Int) else v.mant
  if 0 ≤ v.exp then (m * (Nat.pow 2 v.exp.toNat : Nat), 1) else (m, Nat.pow 2 (-v.exp).toNat)

/-- The value cut toward zero to an integer. -/
def Binary.truncate (v : Binary) : Int :=
  let m : Nat :=
    if 0 ≤ v.exp then v.mant * Nat.pow 2 v.exp.toNat else v.mant / Nat.pow 2 (-v.exp).toNat
  if v.neg then -(m : Int) else m

/-- The order of an integer against the value, decided exactly on the common denominator. -/
def Binary.orderFrom (n : Int) (v : Binary) : Ordering :=
  compare (n * (v.ratio.2 : Int)) v.ratio.1

end GammaFit.Decimal

namespace GammaFit.Json

/-! ## Numbers -/

/-- A number as it is compared: an integer exactly, or a double. -/
inductive Number where
  | int (n : Int)
  | float (x : Float)

/-- The number a value stands for; a truth value is `0` or `1`. -/
def Value.number? : Value → Option Number
  | .int n => some (.int n)
  | .bool b => some (.int (if b then 1 else 0))
  | .num x => some (.float x)
  | _ => none

/-- The order of an integer against a double, exactly; none against NaN. -/
def intFloatOrder (n : Int) (x : Float) : Option Ordering :=
  match Decimal.kind x with
  | .nan => none
  | .inf neg => some (if neg then .gt else .lt)
  | .finite v => some (Decimal.Binary.orderFrom n v)

/-- The order of two doubles; none when either is NaN. -/
def floatOrder (x y : Float) : Option Ordering :=
  if x < y then some .lt else if y < x then some .gt else if x == y then some .eq else none

/-- The exact order of two numbers; none when one of them is NaN. -/
def Number.order : Number → Number → Option Ordering
  | .int m, .int n => some (compare m n)
  | .int m, .float y => intFloatOrder m y
  | .float x, .int n => (intFloatOrder n x).map Ordering.swap
  | .float x, .float y => floatOrder x y

/-- The comparison operators. -/
inductive Op where
  | lt
  | le
  | gt
  | ge

/-- The operator as it is written. -/
def Op.text : Op → String
  | .lt => "<"
  | .le => "<="
  | .gt => ">"
  | .ge => ">="

/-- Whether an order satisfies the operator; outside any order nothing does. -/
def Op.holds : Op → Option Ordering → Bool
  | .lt, some o => o == .lt
  | .le, some o => o != .gt
  | .gt, some o => o == .gt
  | .ge, some o => o != .lt
  | _, none => false

/-! ## Likeness and order -/

mutual
/-- Whether two values are alike: equal numbers (a NaN alike to a NaN), equal texts, both
`null`, lists of alike items, or objects whose keys name alike values. -/
def Value.alike : Value → Value → Bool
  | .null, .null => true
  | .str s, .str t => s == t
  | .arr xs, .arr ys => alikeItems xs ys
  | .obj fs, .obj gs => fs.length == gs.length && alikeFields gs fs
  | a, b =>
    match a.number?, b.number? with
    | some (.float x), some (.float y) => x.isNaN && y.isNaN || x == y
    | some m, some n => m.order n == some .eq
    | _, _ => false

/-- Two lists of alike items, pair by pair. -/
def alikeItems : List Value → List Value → Bool
  | [], [] => true
  | x :: xs, y :: ys => x.alike y && alikeItems xs ys
  | _, _ => false

/-- Every field names a value of `gs` under its key that is alike to its own. -/
def alikeFields (gs : List (String × Value)) : List (String × Value) → Bool
  | [] => true
  | (k, v) :: rest =>
    (match gs.lookup k with
      | some w => v.alike w
      | none => false) && alikeFields gs rest
end

mutual
/-- `a op b` in the order of values, or the failure for a pair that has no order. -/
def Value.compare (op : Op) : Value → Value → Outcome Bool
  | .str s, .str t => .ok (op.holds (some (compareOfLessAndEq s t)))
  | .arr xs, .arr ys => compareItems op xs ys
  | a, b =>
    match a.number?, b.number? with
    | some m, some n => .ok (op.holds (m.order n))
    | _, _ => .error (.wrongType (quoteName op.text ++ " not supported between instances of " ++
        quoteName a.typeName ++ " and " ++ quoteName b.typeName))

/-- Two lists in the order of values: the first pair of items that are not alike decides, and
otherwise their lengths do. -/
def compareItems (op : Op) : List Value → List Value → Outcome Bool
  | x :: xs, y :: ys => if x.alike y then compareItems op xs ys else Value.compare op x y
  | xs, ys => .ok (op.holds (some (compare xs.length ys.length)))
end

/-! ## Iteration and integers -/

/-- The values that iterating over `v` gives: a list's items, a text's characters, an object's
keys. -/
def Value.iterate : Value → Outcome (List Value)
  | .arr items => .ok items
  | .str s => .ok (s.toList.map fun c => .str (String.singleton c))
  | .obj fields => .ok (fields.map fun e => .str e.1)
  | v => .error (.wrongType (quoteName v.typeName ++ " object is not iterable"))

/-- A double cut toward zero to the integer it holds, exactly; NaN and the infinities hold
none. -/
def truncate (x : Float) : Outcome Int :=
  match Decimal.kind x with
  | .nan => .error (.invalid "cannot convert float NaN to integer")
  | .inf _ => .error (.overflow "cannot convert float infinity to integer")
  | .finite v => .ok v.truncate

/-- The integer a text writes in decimal, between blanks, with an optional sign and single
underscores between digits. -/
def parseInt? (s : String) : Option Int :=
  let cs := (s.toList.dropWhile Decimal.isBlank).reverse.dropWhile Decimal.isBlank |>.reverse
  let (neg, body) := match cs with
    | '-' :: r => (true, r)
    | '+' :: r => (false, r)
    | r => (false, r)
  match Decimal.takeDigits true body 0 0 with
  | (v, _ + 1, []) => some (if neg then -(v : Int) else v)
  | _ => none

/-- A value read as an integer: an integer as it is, a truth value as `0` or `1`, a double cut
toward zero, a text that writes an integer. -/
def Value.toInt : Value → Outcome Int
  | .int n => .ok n
  | .bool b => .ok (if b then 1 else 0)
  | .num x => truncate x
  | .str s =>
    match parseInt? s with
    | some n => .ok n
    | none => .error (.invalid ("invalid literal for int() with base 10: " ++ quoteName s))
  | v => .error (.wrongType
      ("int() argument must be a string, a bytes-like object or a real number, not " ++
        quoteName v.typeName))

end GammaFit.Json
