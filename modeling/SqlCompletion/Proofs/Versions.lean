import Mathlib.Data.List.TakeWhile
import SqlCompletion.Server.Version
set_option autoImplicit false

/-!
# Versions as texts

A text that is read as a version has two or three parts with points in between, and each part starts
with a number (`Version.Written`). Nothing else about the text matters: blanks around it, and
whatever stands behind the digits of a part, are passed over (`Version.parse?_eq_some_iff`). Major
has to fit in 32 bits and minor and patch in two digits, or nothing is read.

The text of a version is written like that, and is read back as the version (`Version.parse?_text`),
as long as the number of the version fits in 32 bits. A number of more bits has a text too, whose
major may be too large to be read.

* A text is cut at its points (`cutAtPoint_spec`), and the digits that a part starts with give its
  number (`component?_of_leads`).
* A text names a version by one set of components only (`Written.unique`), so that reading is a
  function of what is written.
* The decimal digits of a number lead back to it (`leads_digits`).

How versions compare is told in another module.
-/

namespace SqlCompletion

namespace Text

theorem isBlank_of_isDigit {c : Char} (h : c.isDigit = true) : isBlank c = false := by
  simp only [Char.isDigit, Bool.and_eq_true, decide_eq_true_eq, ge_iff_le,
    UInt32.le_iff_toNat_le] at h
  change 48 ≤ c.toNat ∧ c.toNat ≤ 57 at h
  rw [Bool.eq_false_iff]
  intro hblank
  obtain ⟨r, hr, hle⟩ := (CodePoints.contains_iff blanks c).1 hblank
  simp only [blanks, List.mem_cons, List.not_mem_nil, or_false] at hr
  rcases hr with rfl | rfl | rfl | rfl | rfl | rfl | rfl | rfl | rfl | rfl <;> omega

/-- Nothing is trimmed from a text that has nothing of what is trimmed. -/
theorem trimBoth_of_forall {p : Char → Bool} {cs : List Char} (h : ∀ c ∈ cs, p c = false) :
    trimBoth p cs = cs := by
  have hkeep : ∀ ds : List Char, (∀ c ∈ ds, p c = false) → ds.dropWhile p = ds := by
    intro ds hds
    cases ds with
    | nil => rfl
    | cons c ds => exact List.dropWhile_cons_of_neg (by simp [hds c List.mem_cons_self])
  unfold trimBoth
  rw [hkeep cs h, hkeep cs.reverse fun c hc => h c (List.mem_reverse.1 hc), List.reverse_reverse]

end Text

namespace Version

/-! ## How a version is written -/

/-- The components of a version. -/
structure Components where
  major : Nat
  minor : Nat
  patch : Nat
  deriving DecidableEq, Repr

/-- The version with these components. -/
def Components.version (x : Components) : Version := of x.major x.minor x.patch

/-- The components can be read: major fits in 32 bits, and minor and patch in two digits. -/
structure Components.Fits (x : Components) : Prop where
  major : x.major < 0x100000000
  minor : x.minor ≤ 99
  patch : x.patch ≤ 99

/-- The text starts with the number, in decimal digits. What comes behind the digits does not
matter. -/
inductive Leads : List Char → Nat → Prop
  | mk {digits rest : List Char} (nonempty : digits ≠ []) (all : ∀ c ∈ digits, c.isDigit = true)
      (ends : ∀ c ∈ rest.head?, c.isDigit = false) :
      Leads (digits ++ rest) (Nat.ofDigitChars 10 digits 0)

/-- The text is made of two or three parts with points in between, which start with the components.
Where the third part is missing, the patch is 0. -/
inductive Written : List Char → Components → Prop
  | two {first second : List Char} {major minor : Nat} (hfirst : Leads first major)
      (hfirstPoint : '.' ∉ first) (hsecond : Leads second minor) (hsecondPoint : '.' ∉ second) :
      Written (first ++ '.' :: second) ⟨major, minor, 0⟩
  | three {first second third : List Char} {major minor patch : Nat} (hfirst : Leads first major)
      (hfirstPoint : '.' ∉ first) (hsecond : Leads second minor) (hsecondPoint : '.' ∉ second)
      (hthird : Leads third patch) :
      Written (first ++ '.' :: (second ++ '.' :: third)) ⟨major, minor, patch⟩

/-- The text names a version by these components, with or without blanks around it. -/
def Names (text : String) (x : Components) : Prop := Written (Text.trimBlanks text.toList) x

/-! ## Reading one part -/

theorem digitsValue_eq (digits : List Char) :
    digitsValue digits = Nat.ofDigitChars 10 digits 0 := by
  rw [Nat.ofDigitChars_eq_foldl, digitsValue]
  simp only [Nat.mul_comm]

theorem Leads.takeWhile {digits rest : List Char} (all : ∀ c ∈ digits, c.isDigit = true)
    (ends : ∀ c ∈ rest.head?, c.isDigit = false) :
    (digits ++ rest).takeWhile Char.isDigit = digits := by
  rw [List.takeWhile_append_of_pos all]
  cases rest with
  | nil => exact List.append_nil _
  | cons c rest => rw [List.takeWhile_cons_of_neg (by simp [ends c rfl]), List.append_nil]

/-- The number that a text starts with is the value of all the digits there. -/
theorem Leads.eq_digitsValue {cs : List Char} {n : Nat} (h : Leads cs n) :
    n = digitsValue (cs.takeWhile Char.isDigit) := by
  obtain ⟨-, hall, hends⟩ := h
  rw [Leads.takeWhile hall hends, digitsValue_eq]

/-- The number that a part starts with is read, if it fits in 32 bits. -/
theorem component?_of_leads {cs : List Char} {n : Nat} (h : Leads cs n) (hn : n < 0x100000000) :
    component? cs = some n := by
  have hvalue := h.eq_digitsValue
  obtain ⟨hne, hall, hends⟩ := h
  rw [Leads.takeWhile hall hends] at hvalue
  simp only [component?, Leads.takeWhile hall hends, ← hvalue, List.isEmpty_eq_false_iff.2 hne,
    Bool.false_or, decide_eq_true_eq]
  exact if_neg (Nat.not_le.2 hn)

theorem leads_of_component? {cs : List Char} {n : Nat} (h : component? cs = some n) :
    Leads cs n ∧ n < 0x100000000 := by
  unfold component? at h
  dsimp only at h
  split at h
  · cases h
  · rename_i hfits
    simp only [Bool.or_eq_true, List.isEmpty_iff, decide_eq_true_eq, not_or, Nat.not_le] at hfits
    obtain rfl := Option.some.inj h
    have hends : ∀ c ∈ (cs.dropWhile Char.isDigit).head?, c.isDigit = false := by
      intro c hc
      have hnot := List.head?_dropWhile_not Char.isDigit cs
      rw [hc] at hnot
      exact hnot
    have hleads := Leads.mk hfits.1 (fun c hc => List.all_eq_true.1 List.all_takeWhile c hc) hends
    rw [List.takeWhile_append_dropWhile, ← digitsValue_eq] at hleads
    exact ⟨hleads, hfits.2⟩

/-! ## Cutting a text into its parts -/

theorem ne_point_of_not_mem {cs : List Char} (h : '.' ∉ cs) : ∀ c ∈ cs, (c != '.') = true := by
  intro c hc
  rw [bne_iff_ne]
  rintro rfl
  exact h hc

/-- A text is cut at its first point. -/
theorem cutAtPoint_append {first : List Char} (h : '.' ∉ first) (rest : List Char) :
    cutAtPoint (first ++ '.' :: rest) = (first, some rest) := by
  have hne := ne_point_of_not_mem h
  rw [cutAtPoint, List.dropWhile_append_of_pos hne, List.takeWhile_append_of_pos hne]
  simp

theorem cutAtPoint_of_not_mem {cs : List Char} (h : '.' ∉ cs) : cutAtPoint cs = (cs, none) := by
  have hnil : cs.dropWhile (· != '.') = [] :=
    List.dropWhile_eq_nil_iff.2 (ne_point_of_not_mem h)
  rw [cutAtPoint, hnil]

/-- What is in front of the cut has no point, and behind it the text goes on as it did. -/
theorem cutAtPoint_spec {cs first : List Char} {rest? : Option (List Char)}
    (h : cutAtPoint cs = (first, rest?)) :
    '.' ∉ first ∧ cs = first ++ (rest?.elim [] ('.' :: ·)) := by
  by_cases hpoint : '.' ∈ cs
  · obtain ⟨front, behind, rfl, hfront⟩ := List.eq_append_cons_of_mem hpoint
    rw [cutAtPoint_append hfront] at h
    obtain ⟨rfl, rfl⟩ := Prod.mk.inj h
    exact ⟨hfront, rfl⟩
  · rw [cutAtPoint_of_not_mem hpoint] at h
    obtain ⟨rfl, rfl⟩ := Prod.mk.inj h
    exact ⟨hpoint, (List.append_nil _).symm⟩

/-- A text names a version by one set of components only. -/
theorem Written.unique {cs : List Char} {x y : Components} (hx : Written cs x) (hy : Written cs y) :
    x = y := by
  have hcut : ∀ {first first' rest rest' : List Char}, '.' ∉ first → '.' ∉ first' →
      first ++ '.' :: rest = first' ++ '.' :: rest' → first = first' ∧ rest = rest' := by
    intro first first' rest rest' hfirst hfirst' heq
    have hsame := cutAtPoint_append hfirst rest
    rw [heq, cutAtPoint_append hfirst' rest'] at hsame
    obtain ⟨rfl, hrest⟩ := Prod.mk.inj hsame
    exact ⟨rfl, (Option.some.inj hrest).symm⟩
  have hvalue : ∀ {part : List Char} {n m : Nat}, Leads part n → Leads part m → n = m :=
    fun hn hm => hn.eq_digitsValue.trans hm.eq_digitsValue.symm
  obtain @⟨first, second, major, minor, hmajor, hfirst, hminor, hsecond⟩ |
    @⟨first, second, third, major, minor, patch, hmajor, hfirst, hminor, hsecond, hpatch⟩ := hx
  · generalize hcs : first ++ '.' :: second = cs at hy
    cases hy with
    | two hmajor' hfirst' hminor' hsecond' =>
      obtain ⟨rfl, rfl⟩ := hcut hfirst hfirst' hcs
      rw [hvalue hmajor hmajor', hvalue hminor hminor']
    | three hmajor' hfirst' hminor' hsecond' hpatch' =>
      obtain ⟨rfl, rfl⟩ := hcut hfirst hfirst' hcs
      simp at hsecond
  · generalize hcs : first ++ '.' :: (second ++ '.' :: third) = cs at hy
    cases hy with
    | two hmajor' hfirst' hminor' hsecond' =>
      obtain ⟨rfl, rfl⟩ := hcut hfirst hfirst' hcs
      simp at hsecond'
    | three hmajor' hfirst' hminor' hsecond' hpatch' =>
      obtain ⟨rfl, hrest⟩ := hcut hfirst hfirst' hcs
      obtain ⟨rfl, rfl⟩ := hcut hsecond hsecond' hrest
      rw [hvalue hmajor hmajor', hvalue hminor hminor', hvalue hpatch hpatch']

/-! ## Reading a version -/

theorem lt_of_le_99 {n : Nat} (h : n ≤ 99) : n < 0x100000000 := Nat.lt_of_le_of_lt h (by decide)

/-- The components of a text that is written like a version are read, if they fit. -/
theorem components?_of_written {text : String} {x : Components}
    (h : Written (Text.trimBlanks text.toList) x) (hx : x.Fits) :
    components? text = some (x.major, x.minor, x.patch) := by
  unfold components?
  obtain ⟨hmajor, hminor, hpatch⟩ := hx
  generalize Text.trimBlanks text.toList = cs at h ⊢
  cases h with
  | two hfirst hfirstPoint hsecond hsecondPoint =>
    simp only [cutAtPoint_append hfirstPoint, cutAtPoint_of_not_mem hsecondPoint,
      component?_of_leads hfirst hmajor, component?_of_leads hsecond (lt_of_le_99 hminor),
      Option.bind_eq_bind, Option.bind_some]
    exact if_pos ⟨hminor, hpatch⟩
  | three hfirst hfirstPoint hsecond hsecondPoint hthird =>
    simp only [cutAtPoint_append hfirstPoint, cutAtPoint_append hsecondPoint,
      component?_of_leads hfirst hmajor, component?_of_leads hsecond (lt_of_le_99 hminor),
      component?_of_leads hthird (lt_of_le_99 hpatch), Option.bind_eq_bind, Option.bind_some]
    exact if_pos ⟨hminor, hpatch⟩

/-- A text that is read is written like a version. -/
theorem written_of_components? {text : String} {major minor patch : Nat}
    (h : components? text = some (major, minor, patch)) :
    Written (Text.trimBlanks text.toList) ⟨major, minor, patch⟩ ∧
      (Components.mk major minor patch).Fits := by
  unfold components? at h
  generalize Text.trimBlanks text.toList = cs at h ⊢
  obtain ⟨first, rest?, hcut⟩ : ∃ first rest?, cutAtPoint cs = (first, rest?) := ⟨_, _, rfl⟩
  obtain ⟨hfirstPoint, rfl⟩ := cutAtPoint_spec hcut
  simp only [hcut, Option.bind_eq_bind, Option.bind_eq_some_iff] at h
  obtain ⟨n, hfirst, rest, rfl, m, hsecond, hbehind⟩ := h
  obtain ⟨second, third?, hcut'⟩ : ∃ second third?, cutAtPoint rest = (second, third?) :=
    ⟨_, _, rfl⟩
  obtain ⟨hsecondPoint, rfl⟩ := cutAtPoint_spec hcut'
  rw [hcut'] at hsecond hbehind
  obtain ⟨hleads, hn⟩ := leads_of_component? hfirst
  obtain ⟨hleads', -⟩ := leads_of_component? hsecond
  cases third? with
  | none =>
    obtain ⟨k, hk, hbounds⟩ := Option.bind_eq_some_iff.1 hbehind
    obtain rfl := Option.some.inj hk
    obtain ⟨⟨hminor, hpatch⟩, hsame⟩ := Option.ite_none_right_eq_some.1 hbounds
    cases hsame
    refine ⟨?_, hn, hminor, hpatch⟩
    simpa using Written.two hleads hfirstPoint hleads' hsecondPoint
  | some third =>
    obtain ⟨k, hthird, hbounds⟩ := Option.bind_eq_some_iff.1 hbehind
    obtain ⟨⟨hminor, hpatch⟩, hsame⟩ := Option.ite_none_right_eq_some.1 hbounds
    cases hsame
    obtain ⟨hleads'', -⟩ := leads_of_component? hthird
    exact ⟨.three hleads hfirstPoint hleads' hsecondPoint hleads'', hn, hminor, hpatch⟩

/-- A text is read as a version if it is written like one, with components that fit. -/
theorem parse?_eq_some_iff {text : String} {v : Version} :
    parse? text = some v ↔ ∃ x, Names text x ∧ x.Fits ∧ v = x.version := by
  constructor
  · intro h
    obtain ⟨⟨major, minor, patch⟩, hread, rfl⟩ := Option.map_eq_some_iff.1 h
    obtain ⟨hwritten, hfits⟩ := written_of_components? hread
    exact ⟨_, hwritten, hfits, rfl⟩
  · rintro ⟨x, hnames, hfits, rfl⟩
    rw [parse?, components?_of_written hnames hfits]
    rfl

/-! ## The text of a version -/

/-- The decimal digits of a number. -/
def digits (n : Nat) : List Char := Nat.toDigits 10 n

theorem isDigit_of_mem_digits {n : Nat} {c : Char} (h : c ∈ digits n) : c.isDigit = true :=
  Nat.isDigit_of_mem_toDigits (by decide) (by decide) h

theorem point_not_mem_digits (n : Nat) : '.' ∉ digits n := fun h => by
  cases isDigit_of_mem_digits h

/-- A number can be read off its digits. -/
theorem leads_digits (n : Nat) : Leads (digits n) n := by
  have hleads : Leads (digits n ++ []) (Nat.ofDigitChars 10 (digits n) 0) :=
    .mk Nat.toDigits_ne_nil (fun _ hc => isDigit_of_mem_digits hc) (by simp)
  rw [List.append_nil] at hleads
  have hvalue : Nat.ofDigitChars 10 (digits n) 0 = n := Nat.ofDigitChars_ten_toDigits
  rwa [hvalue] at hleads

/-- The components of a version. -/
def components (v : Version) : Components := ⟨v.major, v.minor, v.patch⟩

theorem toList_text (v : Version) :
    v.text.toList = digits v.major ++ '.' :: (digits v.minor ++ '.' :: digits v.patch) := by
  simp [text, digits, Nat.repr_eq_ofList_toDigits]

theorem trimBlanks_text (v : Version) : Text.trimBlanks v.text.toList = v.text.toList := by
  refine Text.trimBoth_of_forall fun c hc => ?_
  rw [toList_text] at hc
  simp only [List.mem_append, List.mem_cons] at hc
  rcases hc with hc | rfl | hc | rfl | hc
  · exact Text.isBlank_of_isDigit (isDigit_of_mem_digits hc)
  · decide
  · exact Text.isBlank_of_isDigit (isDigit_of_mem_digits hc)
  · decide
  · exact Text.isBlank_of_isDigit (isDigit_of_mem_digits hc)

/-- The text of a version names it by its components. -/
theorem names_text (v : Version) : Names v.text v.components := by
  rw [Names, trimBlanks_text, toList_text]
  exact .three (leads_digits _) (point_not_mem_digits _) (leads_digits _) (point_not_mem_digits _)
    (leads_digits _)

theorem fits_components {v : Version} (h : v.number < 0x100000000) : v.components.Fits where
  major := Nat.lt_of_le_of_lt (Nat.div_le_self _ _) h
  minor := Nat.le_of_lt_succ (Nat.mod_lt _ (by decide))
  patch := Nat.le_of_lt_succ (Nat.mod_lt _ (by decide))

theorem version_components (v : Version) : v.components.version = v := by
  have hnumber : v.number / 10000 * 10000 + v.number / 100 % 100 * 100 + v.number % 100 =
      v.number := by omega
  exact congrArg Version.mk hnumber

/-- The text of a version is read as the version. -/
theorem parse?_text {v : Version} (h : v.number < 0x100000000) : parse? v.text = some v :=
  parse?_eq_some_iff.2 ⟨v.components, names_text v, fits_components h, (version_components v).symm⟩

end Version

end SqlCompletion
