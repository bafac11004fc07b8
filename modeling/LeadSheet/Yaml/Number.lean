/-!
# Numbers in documents

Whole numbers with a sign and in four bases, and decimals as the doubles nearest to them.
-/

namespace LeadSheet.Yaml
set_option autoImplicit false

def digit? (base : Nat) (c : Char) : Option Nat :=
  let value :=
    if '0' ≤ c ∧ c ≤ '9' then c.toNat - 48
    else if 'a' ≤ c ∧ c ≤ 'f' then c.toNat - 87
    else if 'A' ≤ c ∧ c ≤ 'F' then c.toNat - 55
    else 16
  if value < base then some value else none

def digits? (base : Nat) : List Char → Option Nat
  | [] => none
  | cs => cs.foldl (fun n c => do return (← n) * base + (← digit? base c)) (some 0)

/-- A magnitude, in base ten or after a mark of another base. Zeros in front make a text of digits
that is no number. -/
def magnitude? : List Char → Option Nat
  | '0' :: 'x' :: cs => digits? 16 cs
  | '0' :: 'o' :: cs => digits? 8 cs
  | '0' :: 'b' :: cs => digits? 2 cs
  | '0' :: _ :: _ => none
  | cs => digits? 10 cs

def signed? : List Char → Option Int
  | '-' :: cs => do return -(← magnitude? cs : Int)
  | '+' :: cs => do return (← magnitude? cs : Nat)
  | cs => do return (← magnitude? cs : Nat)

/-- A whole number that has no minus sign, even when it is 0. -/
def unsigned? : List Char → Option Nat
  | '-' :: _ => none
  | '+' :: cs => magnitude? cs
  | cs => magnitude? cs

def exponent? : List Char → Option Int
  | [] => some 0
  | e :: cs =>
    if e = 'e' ∨ e = 'E' then
      match cs with
      | '-' :: cs => do return -(← digits? 10 cs : Int)
      | '+' :: cs => do return (← digits? 10 cs : Nat)
      | cs => do return (← digits? 10 cs : Nat)
    else none

/-- A decimal magnitude as digits and a power of ten. There is a digit on one side of the point. -/
def decimal? (cs : List Char) : Option (Nat × Int) := do
  let isDigit (c : Char) : Bool := '0' ≤ c && c ≤ '9'
  let whole := cs.takeWhile isDigit
  let rest := cs.dropWhile isDigit
  let (fraction, rest) :=
    match rest with
    | '.' :: rest => (rest.takeWhile isDigit, rest.dropWhile isDigit)
    | rest => ([], rest)
  let coefficient ← digits? 10 (whole ++ fraction)
  return (coefficient, (← exponent? rest) - fraction.length)

/-- The double nearest to a decimal. An exponent beyond all doubles is cut there. -/
def nearest (coefficient : Nat) (exponent : Int) : Float :=
  if coefficient = 0 then 0
  else if 400 < exponent then 1 / 0
  else if exponent < -20000 then 0
  else if 0 ≤ exponent then Float.ofScientific coefficient false exponent.toNat
  else Float.ofScientific coefficient true (-exponent).toNat

def finite? (cs : List Char) : Option Float := do
  let (negative, cs) :=
    match cs with
    | '-' :: cs => (true, cs)
    | '+' :: cs => (false, cs)
    | cs => (false, cs)
  let (coefficient, exponent) ← decimal? cs
  let x := nearest coefficient exponent
  if x.isFinite then some (if negative then -x else x) else none

/-- A double; infinities have names, and a whole number is one too. -/
def double? (cs : List Char) : Option Float :=
  let text := String.ofList cs
  if [".inf", ".Inf", ".INF", "+.inf", "+.Inf", "+.INF"].contains text then some (1 / 0)
  else if ["-.inf", "-.Inf", "-.INF"].contains text then some (-1 / 0)
  else if [".nan", ".NaN", ".NAN"].contains text then some (0 / 0)
  else finite? cs

end LeadSheet.Yaml
