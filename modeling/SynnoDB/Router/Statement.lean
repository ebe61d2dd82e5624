import Mathlib

/-!
# Parsed statements

| here | there |
| --- | --- |
| `Expr`                 | the sqlglot tree the router inspects, as far as it tells node classes apart |
| `Expr.node`            | any other class; `head` = the class, its flags and the names of its arguments |
| `Marker.bare i`        | the `i`-th `?` of the text (`:synpN` after `_name_anonymous_placeholders`) |
| `Expr.constants`       | the constants in text order |
| `Expr.walk`            | the constants in the order of `Expression.walk()`: level by level |
| `Expr.shape`           | the statement with its constants numbered in text order |
| `Const`, `PyValue`     | the Python values `_node_value` and `_value_of` return |
| `Lit.value`            | `_node_value`, with `Literal.to_py` |

Arguments are listed in text order. The literal inside a numbered `$1` is not a node here.
-/

namespace SynnoDB.Router

/-! ## Values -/

/-- `dec c e` is the `Decimal` `c · 10 ^ e`. -/
inductive Const where
  | str (s : String)
  | int (i : Int)
  | dec (coeff exp : Int)
  | bool (b : Bool)
  | null
deriving DecidableEq, Repr

/-- A whole-list `IN ?` is bound to a tuple. -/
inductive PyValue where
  | one (c : Const)
  | tuple (cs : List Const)
deriving DecidableEq, Repr

/-- What fits the default decimal context. -/
def decimalPrec : Nat := 10 ^ 28

def roundHalfEven (n d : Nat) : Nat :=
  if d < 2 * (n % d) ∨ 2 * (n % d) = d ∧ n / d % 2 = 1 then n / d + 1 else n / d

/-- The leading 28 digits and how many were dropped. -/
def roundDigits (n : Nat) : Nat × Nat :=
  let k := Nat.log 10 n + 1 - 28
  let q := roundHalfEven n (10 ^ k)
  if q = decimalPrec then (10 ^ 27, k + 1) else (q, k)

/-- A `Decimal` rounded to the context. -/
def decRound (c e : Int) : Const :=
  if c.natAbs < decimalPrec then .dec c e
  else .dec (c.sign * (roundDigits c.natAbs).1) (e + (roundDigits c.natAbs).2)

namespace Const

/-- Python's unary minus; `none` = `TypeError`. -/
def neg : Const → Option Const
  | .int i => some (.int (-i))
  | .dec c e => some (decRound (-c) e)
  | .bool b => some (.int (if b then -1 else 0))
  | .str _ | .null => none

/-- SQL's unary minus on a number. -/
def minus : Const → Option Const
  | .int i => some (.int (-i))
  | .dec c e => some (.dec (-c) e)
  | _ => none

def number : Const → Option (Int × Int)
  | .int i => some (i, 0)
  | .dec c e => some (c, e)
  | .bool b => some (if b then 1 else 0, 0)
  | _ => none

/-- Python's `==`. -/
def pyEq (a b : Const) : Bool :=
  match a.number, b.number with
  | some (c, e), some (d, f) =>
    let m := min e f
    c * 10 ^ (e - m).toNat = d * 10 ^ (f - m).toNat
  | none, none => a = b
  | _, _ => false

/-- `Decimal.__str__`. -/
def decStr (c e : Int) : String :=
  let digits := toString c.natAbs
  let n : Int := digits.length
  let left := e + n
  let plain := e ≤ 0 ∧ -6 < left
  let dot := if plain then left else 1
  let body :=
    if dot ≤ 0 then "0." ++ "".pushn '0' (-dot).toNat ++ digits
    else if n ≤ dot then digits.pushn '0' (dot - n).toNat
    else String.ofList (digits.toList.take dot.toNat) ++ "." ++ String.ofList (digits.toList.drop dot.toNat)
  let ex := if plain then "" else "E" ++ (if left - dot < 0 then "" else "+") ++ toString (left - dot)
  (if c < 0 then "-" else "") ++ body ++ ex

/-- `str()`. -/
def pyStr : Const → String
  | .str s => s
  | .int i => toString i
  | .dec c e => decStr c e
  | .bool b => if b then "True" else "False"
  | .null => "None"

/-- `repr()`. -/
def pyRepr : Const → String
  | .str s =>
    let q := if '\'' ∈ s.toList ∧ '"' ∉ s.toList then '"' else '\''
    let esc := fun c => if c = '\\' ∨ c = q then ['\\', c] else if c = '\n' then ['\\', 'n'] else [c]
    String.ofList (q :: s.toList.flatMap esc ++ [q])
  | .dec c e => "Decimal('" ++ decStr c e ++ "')"
  | c => c.pyStr

end Const

namespace PyValue

def pyEq : PyValue → PyValue → Bool
  | .one a, .one b => a.pyEq b
  | .tuple as, .tuple bs => as.length = bs.length && (as.zip bs).all fun p => p.1.pyEq p.2
  | _, _ => false

def pyStr : PyValue → String
  | .one c => c.pyStr
  | .tuple [c] => "(" ++ c.pyRepr ++ ",)"
  | .tuple cs => "(" ++ ", ".intercalate (cs.map Const.pyRepr) ++ ")"

end PyValue

def digitsValue (cs : List Char) : Nat := cs.foldl (fun n c => 10 * n + (c.toNat - 48)) 0

def exponentValue : List Char → Int
  | '-' :: r => -digitsValue r
  | '+' :: r => digitsValue r
  | r => digitsValue r

/-- `int(text)`, or `Decimal(text)` where that is no integer. -/
def numberValue (text : String) : Const :=
  let cs := text.toList
  if cs ≠ [] ∧ cs.all Char.isDigit then .int (digitsValue cs)
  else
    let mantissa := cs.takeWhile fun c => c ≠ 'e' ∧ c ≠ 'E'
    let exponent := (cs.drop mantissa.length).drop 1
    let whole := mantissa.takeWhile (· ≠ '.')
    let fraction := (mantissa.drop whole.length).drop 1
    .dec (digitsValue (whole ++ fraction)) (exponentValue exponent - fraction.length)

/-- `exp.Literal`, `exp.Boolean`, `exp.Null`. -/
inductive Lit where
  | literal (isString : Bool) (text : String)
  | boolean (b : Bool)
  | null
deriving DecidableEq, Repr

namespace Lit

def isLiteral : Lit → Bool
  | .literal _ _ => true
  | _ => false

def value : Lit → Const
  | .literal true text => .str text
  | .literal false text => numberValue text
  | .boolean b => .bool b
  | .null => .null

end Lit

/-! ## Trees -/

inductive Marker where
  | bare (i : Nat)
  | named (name : String)
deriving DecidableEq, Repr

/-- `exp.DataType`: `DECIMAL(10, 2)` has two literals as parameters. -/
structure SqlType (κ : Type) where
  name : String
  params : List κ := []
deriving DecidableEq, Repr

inductive Expr (κ : Type) where
  | const (k : κ)
  | placeholder (m : Marker)
  | parameter (name : String)
  | paren (e : Expr κ)
  | neg (e : Expr κ)
  | cast (e : Expr κ) (ty : SqlType κ)
  | isIn (e : Expr κ) (members : List (Expr κ))
  | inField (e field : Expr κ)
  | node (head : String) (args : List (Expr κ))
deriving Repr

abbrev Statement := Expr Lit

def SqlType.map {κ μ : Type} (f : κ → μ) (t : SqlType κ) : SqlType μ := ⟨t.name, t.params.map f⟩

/-- Two walks side by side, level by level. -/
def joinLevels {α : Type} : List (List α) → List (List α) → List (List α)
  | [], ys => ys
  | xs, [] => xs
  | x :: xs, y :: ys => (x ++ y) :: joinLevels xs ys

namespace Expr

variable {κ μ : Type}

mutual
def map (f : κ → μ) : Expr κ → Expr μ
  | .const k => .const (f k)
  | .placeholder m => .placeholder m
  | .parameter n => .parameter n
  | .paren e => .paren (map f e)
  | .neg e => .neg (map f e)
  | .cast e ty => .cast (map f e) (ty.map f)
  | .isIn e ms => .isIn (map f e) (mapL f ms)
  | .inField e g => .inField (map f e) (map f g)
  | .node h args => .node h (mapL f args)
def mapL (f : κ → μ) : List (Expr κ) → List (Expr μ)
  | [] => []
  | e :: es => map f e :: mapL f es
end

mutual
def constants : Expr κ → List κ
  | .const k => [k]
  | .placeholder _ | .parameter _ => []
  | .paren e | .neg e => constants e
  | .cast e ty => constants e ++ ty.params
  | .isIn e ms => constants e ++ constantsL ms
  | .inField e f => constants e ++ constants f
  | .node _ args => constantsL args
def constantsL : List (Expr κ) → List κ
  | [] => []
  | e :: es => constants e ++ constantsL es
end

mutual
/-- The constants at each depth; a type's parameters are three levels below its cast. -/
def levels : Expr κ → List (List κ)
  | .const k => [[k]]
  | .placeholder _ | .parameter _ => []
  | .paren e | .neg e => [] :: levels e
  | .cast e ty => [] :: joinLevels (levels e) [[], [], ty.params]
  | .isIn e ms => [] :: joinLevels (levels e) (levelsL ms)
  | .inField e f => [] :: joinLevels (levels e) (levels f)
  | .node _ args => [] :: levelsL args
def levelsL : List (Expr κ) → List (List κ)
  | [] => []
  | e :: es => joinLevels (levels e) (levelsL es)
end

def walk (e : Expr κ) : List κ := (levels e).flatten

mutual
/-- The constants replaced by `k`, `k + 1`, … in text order. -/
def number : Expr κ → Nat → Expr Nat
  | .const _, k => .const k
  | .placeholder m, _ => .placeholder m
  | .parameter n, _ => .parameter n
  | .paren e, k => .paren (number e k)
  | .neg e, k => .neg (number e k)
  | .cast e ty, k => .cast (number e k) ⟨ty.name, List.range' (k + (constants e).length) ty.params.length⟩
  | .isIn e ms, k => .isIn (number e k) (numberL ms (k + (constants e).length))
  | .inField e f, k => .inField (number e k) (number f (k + (constants e).length))
  | .node h args, k => .node h (numberL args k)
def numberL : List (Expr κ) → Nat → List (Expr Nat)
  | [], _ => []
  | e :: es, k => number e k :: numberL es (k + (constants e).length)
end

def shape (e : Expr κ) : Expr Nat := number e 0

/-! ## Replacing the constants -/

mutual
theorem constants_map (f : κ → μ) : ∀ e : Expr κ, constants (map f e) = (constants e).map f
  | .const _ | .placeholder _ | .parameter _ => rfl
  | .paren e | .neg e => constants_map f e
  | .cast e ty => by simp [map, constants, constants_map f e, SqlType.map]
  | .isIn e ms => by simp [map, constants, constants_map f e, constants_mapL f ms]
  | .inField e g => by simp [map, constants, constants_map f e, constants_map f g]
  | .node _ args => constants_mapL f args
theorem constants_mapL (f : κ → μ) : ∀ es : List (Expr κ), constantsL (mapL f es) = (constantsL es).map f
  | [] => rfl
  | e :: es => by simp [mapL, constantsL, constants_map f e, constants_mapL f es]
end

theorem joinLevels_map (f : κ → μ) : ∀ xs ys : List (List κ),
    joinLevels (xs.map (·.map f)) (ys.map (·.map f)) = (joinLevels xs ys).map (·.map f)
  | [], ys => by simp [joinLevels]
  | x :: xs, [] => by simp [joinLevels]
  | x :: xs, y :: ys => by simp [joinLevels, joinLevels_map f xs ys]

mutual
theorem levels_map (f : κ → μ) : ∀ e : Expr κ, levels (map f e) = (levels e).map (·.map f)
  | .const _ | .placeholder _ | .parameter _ => rfl
  | .paren e | .neg e => by simp [map, levels, levels_map f e]
  | .cast e ty => by
    have h := joinLevels_map f (levels e) [[], [], ty.params]
    simpa [map, levels, levels_map f e, SqlType.map] using h
  | .isIn e ms => by simp [map, levels, levels_map f e, levels_mapL f ms, joinLevels_map]
  | .inField e g => by simp [map, levels, levels_map f e, levels_map f g, joinLevels_map]
  | .node _ args => by simp [map, levels, levels_mapL f args]
theorem levels_mapL (f : κ → μ) : ∀ es : List (Expr κ), levelsL (mapL f es) = (levelsL es).map (·.map f)
  | [] => rfl
  | e :: es => by simp [mapL, levelsL, levels_map f e, levels_mapL f es, joinLevels_map]
end

/-- The walk does not look at the constants. -/
theorem walk_map (f : κ → μ) (e : Expr κ) : walk (map f e) = (walk e).map f := by
  rw [walk, walk, levels_map, List.map_flatten]

open scoped List in
theorem joinLevels_perm {α : Type} : ∀ xs ys : List (List α),
    (joinLevels xs ys).flatten.Perm (xs.flatten ++ ys.flatten)
  | [], ys => by simp [joinLevels]
  | x :: xs, [] => by simp [joinLevels]
  | x :: xs, y :: ys => by
    have h := joinLevels_perm xs ys
    simp only [joinLevels, List.flatten_cons]
    calc x ++ y ++ (joinLevels xs ys).flatten
        _ ~ x ++ y ++ (xs.flatten ++ ys.flatten) := h.append_left _
        _ ~ x ++ xs.flatten ++ (y ++ ys.flatten) := by
          rw [List.append_assoc, List.append_assoc]
          refine List.Perm.append_left x ?_
          rw [← List.append_assoc, ← List.append_assoc]
          exact List.perm_append_comm.append_right _

mutual
/-- The walk meets every constant once. -/
theorem levels_perm : ∀ e : Expr κ, (levels e).flatten.Perm (constants e)
  | .const _ | .placeholder _ | .parameter _ => by simp [levels, constants]
  | .paren e | .neg e => by simpa [levels, constants] using levels_perm e
  | .cast e ty => by
    have h := (joinLevels_perm (levels e) [[], [], ty.params]).trans ((levels_perm e).append_right _)
    simpa [levels, constants] using h
  | .isIn e ms => by
    have h := (joinLevels_perm (levels e) (levelsL ms)).trans ((levels_perm e).append (levels_permL ms))
    simpa [levels, constants] using h
  | .inField e f => by
    have h := (joinLevels_perm (levels e) (levels f)).trans ((levels_perm e).append (levels_perm f))
    simpa [levels, constants] using h
  | .node _ args => by simpa [levels, constants] using levels_permL args
theorem levels_permL : ∀ es : List (Expr κ), (levelsL es).flatten.Perm (constantsL es)
  | [] => by simp [levelsL, constantsL]
  | e :: es => by
    have h := (joinLevels_perm (levels e) (levelsL es)).trans ((levels_perm e).append (levels_permL es))
    simpa [levelsL, constantsL] using h
end

theorem walk_perm (e : Expr κ) : (walk e).Perm (constants e) := levels_perm e

mutual
theorem number_map (f : κ → μ) : ∀ (e : Expr κ) (k : Nat), number (map f e) k = number e k
  | .const _, _ | .placeholder _, _ | .parameter _, _ => rfl
  | .paren e, k | .neg e, k => by simp [map, number, number_map f e k]
  | .cast e ty, k => by simp [map, number, number_map f e, constants_map, SqlType.map]
  | .isIn e ms, k => by simp [map, number, number_map f e, number_mapL f ms, constants_map]
  | .inField e g, k => by simp [map, number, number_map f e, number_map f g, constants_map]
  | .node _ args, k => by simp [map, number, number_mapL f args k]
theorem number_mapL (f : κ → μ) : ∀ (es : List (Expr κ)) (k : Nat), numberL (mapL f es) k = numberL es k
  | [], _ => rfl
  | e :: es, k => by simp [mapL, numberL, number_map f e, number_mapL f es, constants_map]
end

mutual
theorem constants_number : ∀ (e : Expr κ) (k : Nat), constants (number e k) = List.range' k (constants e).length
  | .const _, _ | .placeholder _, _ | .parameter _, _ => rfl
  | .paren e, k | .neg e, k => constants_number e k
  | .cast e ty, k => by simp [number, constants, constants_number e, List.range'_append_1]
  | .isIn e ms, k => by simp [number, constants, constants_number e, constants_numberL ms, List.range'_append_1]
  | .inField e f, k => by simp [number, constants, constants_number e, constants_number f, List.range'_append_1]
  | .node _ args, k => constants_numberL args k
theorem constants_numberL : ∀ (es : List (Expr κ)) (k : Nat),
    constantsL (numberL es k) = List.range' k (constantsL es).length
  | [], _ => rfl
  | e :: es, k => by simp [numberL, constantsL, constants_number e, constants_numberL es, List.range'_append_1]
end

/-- `g` gives back the constants that were numbered from `k` on. -/
def Restores (g : Nat → κ) (k : Nat) (cs : List κ) : Prop := ∀ i c, cs[i]? = some c → g (k + i) = c

theorem Restores.left {g : Nat → κ} {k : Nat} {as bs : List κ} (h : Restores g k (as ++ bs)) : Restores g k as := by
  intro i c hc
  refine h i c ?_
  rw [List.getElem?_append_left (List.getElem?_eq_some_iff.1 hc).1, hc]

theorem Restores.right {g : Nat → κ} {k : Nat} {as bs : List κ} (h : Restores g k (as ++ bs)) :
    Restores g (k + as.length) bs := by
  intro i c hc
  rw [Nat.add_assoc]
  refine h _ c ?_
  rw [List.getElem?_append_right (Nat.le_add_right ..), Nat.add_sub_cancel_left, hc]

theorem Restores.map_range {g : Nat → κ} : ∀ {cs : List κ} {k : Nat}, Restores g k cs →
    (List.range' k cs.length).map g = cs
  | [], _, _ => rfl
  | c :: cs, k, h => by
    have h0 : g k = c := h 0 c rfl
    have ht : Restores g (k + 1) cs := by
      intro i d hd
      have := h (i + 1) d (by simpa using hd)
      rwa [Nat.add_assoc, Nat.add_comm 1 i]
    simp [List.range'_succ, h0, ht.map_range]

mutual
theorem map_number {g : Nat → κ} : ∀ (e : Expr κ) (k : Nat), Restores g k (constants e) → map g (number e k) = e
  | .const c, k, h => by simpa [number, map] using h 0 c rfl
  | .placeholder _, _, _ | .parameter _, _, _ => rfl
  | .paren e, k, h | .neg e, k, h => by simp [number, map, map_number e k h]
  | .cast e ty, k, h => by
    obtain ⟨name, params⟩ := ty
    simp [number, map, map_number e k h.left, SqlType.map, h.right.map_range]
  | .isIn e ms, k, h => by simp [number, map, map_number e k h.left, map_numberL ms _ h.right]
  | .inField e f, k, h => by simp [number, map, map_number e k h.left, map_number f _ h.right]
  | .node _ args, k, h => by simp [number, map, map_numberL args k h]
theorem map_numberL {g : Nat → κ} : ∀ (es : List (Expr κ)) (k : Nat), Restores g k (constantsL es) →
    mapL g (numberL es k) = es
  | [], _, _ => rfl
  | e :: es, k, h => by simp [numberL, mapL, map_number e k h.left, map_numberL es _ h.right]
end

/-- **A statement is its shape with its constants put back.** -/
theorem exists_map_shape [Inhabited κ] (e : Expr κ) : ∃ g : Nat → κ, map g (shape e) = e := by
  refine ⟨fun i => (constants e).getD i default, map_number e 0 fun i c hc => ?_⟩
  simp [List.getD, hc]

theorem shape_map (f : κ → μ) (e : Expr κ) : shape (map f e) = shape e := number_map f e 0

theorem constants_shape (e : Expr κ) : constants (shape e) = List.range (constants e).length := by
  rw [shape, constants_number, List.range_eq_range']

end Expr

end SynnoDB.Router
