import SqlCompletion.Text.Blank
set_option autoImplicit false

/-!
# Server versions

A version is held as one number, `8.0.16` as `80016`, so that versions compare as numbers do. It
is read from `major.minor` or `major.minor.patch`; anything after the digits of a component is
passed over (`8.0.36-log`), and minor and patch have at most two digits' worth.

The number of a version is meant to fit in 32 bits, and up to there this is exact. It is not bounded
here. Where it is held in a word of 32 bits a greater one overflows: a major component from 429497
on does so, and each component that is read may go up to the last number of 32 bits. A build with
checked arithmetic stops at such a version; one without keeps the number modulo `2 ^ 32`, so that
the order of versions is lost.
-/

namespace SqlCompletion

/-- A server version, as the number `major * 10000 + minor * 100 + patch`. The versions of servers
are below `2 ^ 32`; what is said of greater numbers is not said of a number in a 32-bit word. -/
structure Version where
  number : Nat
  deriving DecidableEq, Repr, Inhabited

namespace Version

/-- The version with these components. In 32 bits this overflows where the number does not fit; here
it is just the number. -/
def of (major minor patch : Nat) : Version := ⟨major * 10000 + minor * 100 + patch⟩

/-- The version that is assumed when none is given: 8.0.0. -/
def standard : Version := of 8 0 0

instance : LE Version := ⟨fun a b => a.number ≤ b.number⟩

instance : LT Version := ⟨fun a b => a.number < b.number⟩

instance (a b : Version) : Decidable (a ≤ b) := inferInstanceAs (Decidable (a.number ≤ b.number))

instance (a b : Version) : Decidable (a < b) := inferInstanceAs (Decidable (a.number < b.number))

theorem lt_iff (a b : Version) : a < b ↔ a.number < b.number := Iff.rfl

theorem not_le (a b : Version) : ¬ a ≤ b ↔ b < a := Nat.not_le

/-- The part of the number in front of minor and patch. -/
def major (v : Version) : Nat := v.number / 10000

/-- The middle component. -/
def minor (v : Version) : Nat := v.number / 100 % 100

/-- The last component. -/
def patch (v : Version) : Nat := v.number % 100

/-- The version as `major.minor.patch`. -/
def text (v : Version) : String :=
  v.major.repr ++ "." ++ v.minor.repr ++ "." ++ v.patch.repr

/-! ## Reading a version -/

/-- The value of a list of decimal digits. -/
def digitsValue (digits : List Char) : Nat :=
  digits.foldl (fun n c => n * 10 + (c.toNat - '0'.toNat)) 0

/-- The number at the start of the text; there must be one, and it must fit in 32 bits. -/
def component? (cs : List Char) : Option Nat :=
  let digits := cs.takeWhile Char.isDigit
  let value := digitsValue digits
  if digits.isEmpty || decide (0x100000000 ≤ value) then none else some value

/-- The text in front of the first point, and the text behind it if there is one. -/
def cutAtPoint (cs : List Char) : List Char × Option (List Char) :=
  match cs.dropWhile (· != '.') with
  | [] => (cs, none)
  | _ :: rest => (cs.takeWhile (· != '.'), some rest)

/-- The components `(major, minor, patch)` that a text gives, patch 0 when it is missing. -/
def components? (text : String) : Option (Nat × Nat × Nat) := do
  let (first, rest) := cutAtPoint (Text.trimBlanks text.toList)
  let major ← component? first
  let (second, rest) := cutAtPoint (← rest)
  let minor ← component? second
  let patch ←
    match rest with
    | none => some 0
    | some third => component? third
  if minor ≤ 99 ∧ patch ≤ 99 then some (major, minor, patch) else none

/-- Reads a version from a text, blanks around it passed over. A component must fit in 32 bits, the
number that the components make need not: see `Version.of`. -/
def parse? (text : String) : Option Version :=
  (components? text).map fun (major, minor, patch) => of major minor patch

end Version

end SqlCompletion
