import AgriFi.Binary64

/-
  Values of JavaScript, as far as JSON and `undefined` go. Numbers are doubles with NaN and the
  infinities (and one zero). Reading a property of `null` or `undefined` throws; what a string or an
  object is as a number, a date or a text is given as a `Coercions`.
-/

namespace AgriFi.JsValue

open AgriFi.Binary64

/-! ## Numbers -/

inductive Number where
  | nan
  | infinity (negative : Bool)
  | finite (q : Rat)
  deriving DecidableEq

namespace Number

/-- The double nearest to `q`. -/
def ofRat (q : Rat) : Number :=
  if 2 ^ 1024 ≤ |toDouble q| then .infinity (q < 0) else .finite (toDouble q)

def isNegative : Number → Bool
  | .nan => false
  | .infinity negative => negative
  | .finite q => q < 0

def isZero (n : Number) : Bool := n = .finite 0

def add : Number → Number → Number
  | .finite p, .finite q => ofRat (p + q)
  | .infinity a, .finite _ => .infinity a
  | .finite _, .infinity b => .infinity b
  | .infinity a, .infinity b => if a = b then .infinity a else .nan
  | .nan, _ | _, .nan => .nan

def neg : Number → Number
  | .nan => .nan
  | .infinity negative => .infinity !negative
  | .finite q => .finite (-q)

def sub (m n : Number) : Number := add m (neg n)

def mul : Number → Number → Number
  | .finite p, .finite q => ofRat (p * q)
  | .nan, _ | _, .nan => .nan
  | m, n => if m.isZero || n.isZero then .nan else .infinity (m.isNegative != n.isNegative)

/-- `n / k`, for a number `k` other than zero. -/
def divBy (n : Number) (k : Rat) : Number :=
  match n with
  | .nan => .nan
  | .infinity negative => .infinity (negative != (k < 0))
  | .finite q => ofRat (q / k)

/-- `m < n`. -/
def lt : Number → Number → Bool
  | .finite p, .finite q => p < q
  | .infinity a, .infinity b => a && !b
  | .infinity a, .finite _ => a
  | .finite _, .infinity b => !b
  | .nan, _ | _, .nan => false

end Number

/-! ## Values -/

inductive Value where
  | undefined
  | null
  | bool (b : Bool)
  | num (n : Number)
  | str (s : String)
  | arr (elements : List Value)
  | obj (entries : List (String × Value))

namespace Value

mutual

def decEq : (v w : Value) → Decidable (v = w)
  | .undefined, w =>
    match w with
    | .undefined => isTrue rfl
    | .null | .bool _ | .num _ | .str _ | .arr _ | .obj _ => isFalse (by simp)
  | .null, w =>
    match w with
    | .null => isTrue rfl
    | .undefined | .bool _ | .num _ | .str _ | .arr _ | .obj _ => isFalse (by simp)
  | .bool a, w =>
    match w with
    | .bool b => decidable_of_iff (a = b) (by simp)
    | .undefined | .null | .num _ | .str _ | .arr _ | .obj _ => isFalse (by simp)
  | .num m, w =>
    match w with
    | .num n => decidable_of_iff (m = n) (by simp)
    | .undefined | .null | .bool _ | .str _ | .arr _ | .obj _ => isFalse (by simp)
  | .str s, w =>
    match w with
    | .str t => decidable_of_iff (s = t) (by simp)
    | .undefined | .null | .bool _ | .num _ | .arr _ | .obj _ => isFalse (by simp)
  | .arr xs, w =>
    match w with
    | .arr ys => @decidable_of_iff _ (xs = ys) (by simp) (decEqElements xs ys)
    | .undefined | .null | .bool _ | .num _ | .str _ | .obj _ => isFalse (by simp)
  | .obj xs, w =>
    match w with
    | .obj ys => @decidable_of_iff _ (xs = ys) (by simp) (decEqEntries xs ys)
    | .undefined | .null | .bool _ | .num _ | .str _ | .arr _ => isFalse (by simp)

def decEqElements : (xs ys : List Value) → Decidable (xs = ys)
  | [], [] => isTrue rfl
  | [], _ :: _ | _ :: _, [] => isFalse (by simp)
  | x :: xs, y :: ys =>
    @decidable_of_iff _ (x = y ∧ xs = ys) (by simp)
      (@instDecidableAnd _ _ (decEq x y) (decEqElements xs ys))

def decEqEntries : (xs ys : List (String × Value)) → Decidable (xs = ys)
  | [], [] => isTrue rfl
  | [], _ :: _ | _ :: _, [] => isFalse (by simp)
  | (k, x) :: xs, (l, y) :: ys =>
    @decidable_of_iff _ (k = l ∧ x = y ∧ xs = ys) (by simp [and_assoc])
      (@instDecidableAnd _ _ inferInstance
        (@instDecidableAnd _ _ (decEq x y) (decEqEntries xs ys)))

end

instance : DecidableEq Value := decEq

/-- `v.key`; `none` when that throws. Only an object's own properties are looked at. -/
def get (key : String) : Value → Option Value
  | .undefined | .null => none
  | .obj entries => some ((entries.lookup key).getD .undefined)
  | .bool _ | .num _ | .str _ | .arr _ => some .undefined

def setEntry (key : String) (v : Value) : List (String × Value) → List (String × Value)
  | [] => [(key, v)]
  | (k, w) :: entries => if k = key then (k, v) :: entries else (k, w) :: setEntry key v entries

/-- The object with `v.key = w`. -/
def set (key : String) (w : Value) : Value → Value
  | .obj entries => .obj (setEntry key w entries)
  | v => v

/-- What `if (v)` asks. -/
def truthy : Value → Bool
  | .undefined | .null => false
  | .bool b => b
  | .num n => n ≠ .nan && !n.isZero
  | .str s => s ≠ ""
  | .arr _ | .obj _ => true

/-- `v === w`, for two values that share no object. -/
def strictEq : Value → Value → Bool
  | .undefined, .undefined | .null, .null => true
  | .bool a, .bool b => a = b
  | .num m, .num n => m ≠ .nan && m = n
  | .str s, .str t => s = t
  | _, _ => false

/-- The elements of an array. -/
def elements : Value → List Value
  | .arr elements => elements
  | _ => []

theorem strictEq_str {v : Value} {s : String} : v.strictEq (.str s) = true ↔ v = .str s := by
  cases v <;> simp [strictEq]

theorem eq_of_strictEq {v w : Value} (h : v.strictEq w = true) : v = w := by
  unfold strictEq at h
  split at h
  · rfl
  · rfl
  · rw [of_decide_eq_true h]
  · rw [Bool.and_eq_true, decide_eq_true_iff, decide_eq_true_iff] at h
    rw [h.2]
  · rw [of_decide_eq_true h]
  · cases h

end Value

/-- What is not a number, a date or a text already, read as one; `date` is `none` for an invalid
    date. -/
structure Coercions where
  toNumber : Value → Number
  date : Value → Option Int
  text : Value → String

namespace Coercions

/-- `Number(v)`. -/
def number (js : Coercions) : Value → Number
  | .num n => n
  | v => js.toNumber v

/-- `a > b` on dates: false where one is invalid. -/
def isAfter (js : Coercions) (a b : Value) : Bool :=
  match js.date a, js.date b with
  | some s, some t => t < s
  | _, _ => false

end Coercions

end AgriFi.JsValue
