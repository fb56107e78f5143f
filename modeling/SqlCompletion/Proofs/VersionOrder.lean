import SqlCompletion.Candidate.Walk
import SqlCompletion.Proofs.Versions
set_option autoImplicit false

/-!
# Versions compare as their components do

A version is held as one number, and minor and patch have two digits of it each. So the versions
that texts name are in the order of the components of the texts (`Components.version_lt_iff`), and a
part of the grammar that is open since a version, or up to one, is open at just the versions that
this order says.

The main result takes together what is to be known of versions (`Version.read_back_in_order`): that
their texts are read back, that what is read names the version by its components, and that both
comparisons, of numbers and in gates, are those of the components. The numbers of versions in it fit
in 32 bits.

The order of components is told by the first ones that differ (`Components.Precedes`) and not by a
number, so that no carry is hidden in it. A gate is told by the walk through its element: it is the
walk through what is inside, or it ends at once (`walk_since`, `walk_before`).
-/

namespace SqlCompletion

namespace Version

namespace Components

/-- The order of versions: the first components that differ decide. -/
def Precedes (x y : Components) : Prop :=
  x.major < y.major ∨
    (x.major = y.major ∧ (x.minor < y.minor ∨ (x.minor = y.minor ∧ x.patch < y.patch)))

instance (x y : Components) : Decidable (x.Precedes y) :=
  inferInstanceAs (Decidable (_ ∨ _))

/-- No carry from patch to minor or from minor to major gets in the way of the order. -/
theorem version_lt_iff {x y : Components} (hx : x.Fits) (hy : y.Fits) :
    x.version < y.version ↔ x.Precedes y := by
  have hxMinor := hx.minor
  have hxPatch := hx.patch
  have hyMinor := hy.minor
  have hyPatch := hy.patch
  simp only [version, of, lt_iff, Precedes]
  omega

end Components

/-- A text that is read names the version by its components. -/
theorem eq_version_of_names {text : String} {v : Version} {x : Components}
    (h : parse? text = some v) (hx : Names text x) : x.Fits ∧ v = x.version := by
  obtain ⟨y, hy, hfits, rfl⟩ := parse?_eq_some_iff.1 h
  obtain rfl := hx.unique hy
  exact ⟨hfits, rfl⟩

/-- Texts that are read give versions in the order of their components. -/
theorem lt_iff_precedes {text text' : String} {v v' : Version} {x x' : Components}
    (h : parse? text = some v) (h' : parse? text' = some v') (hx : Names text x)
    (hx' : Names text' x') : v < v' ↔ x.Precedes x' := by
  obtain ⟨hfits, rfl⟩ := eq_version_of_names h hx
  obtain ⟨hfits', rfl⟩ := eq_version_of_names h' hx'
  exact Components.version_lt_iff hfits hfits'

/-! ## Gates -/

section Gates

variable (c : Walk.Setting) (path : Walk.Path) (visit : Rule → Nat → Walk.Step Positions)

/-- A part that is there since a version is passed over at the versions before. -/
theorem walk_since (v : Version) (e : Element) (start : Nat) (follow : List Element) :
    Walk.walk c path visit (.since v e) start follow =
      if c.version < v then pure ∅ else Walk.walk c path visit e start follow := by
  rw [Walk.walk]
  by_cases hlt : c.version < v
  · rw [if_pos hlt, if_neg ((not_le v c.version).2 hlt)]
  · rw [if_neg hlt, if_pos (Decidable.not_not.1 fun hle => hlt ((not_le v c.version).1 hle))]

/-- A part that is there before a version is passed over from that version on. -/
theorem walk_before (v : Version) (e : Element) (start : Nat) (follow : List Element) :
    Walk.walk c path visit (.before v e) start follow =
      if c.version < v then Walk.walk c path visit e start follow else pure ∅ := by
  rw [Walk.walk]

end Gates

/-- The text of every version is read as the version, so that one that was read can be written and
read again. Every text that is read names its version by components, patch 0 where it is missing;
the versions of two such texts are in the order of their components, and it is by this order that
parts of the grammar are open. -/
theorem read_back_in_order :
    (∀ n < 0x100000000, parse? (text ⟨n⟩) = some ⟨n⟩) ∧
    (∀ (t : String) (v : Version), parse? t = some v → v.number < 0x100000000 →
      parse? v.text = some v) ∧
    (∀ (t : String) (v : Version), parse? t = some v → ∃ x, Names t x ∧ v = x.version) ∧
    ∀ (t t' : String) (v v' : Version) (x x' : Components), parse? t = some v →
      parse? t' = some v' → v.number < 0x100000000 → v'.number < 0x100000000 → Names t x →
      Names t' x' →
      (v < v' ↔ x.Precedes x') ∧
      ∀ (c : Walk.Setting) (path : Walk.Path) (visit : Rule → Nat → Walk.Step Positions)
        (e : Element) (start : Nat) (follow : List Element), c.version = v →
        (Walk.walk c path visit (.since v' e) start follow =
          if x.Precedes x' then pure ∅ else Walk.walk c path visit e start follow) ∧
        Walk.walk c path visit (.before v' e) start follow =
          if x.Precedes x' then Walk.walk c path visit e start follow else pure ∅ := by
  refine ⟨fun n hn => parse?_text hn, fun t v _ hv => parse?_text hv, fun t v h => ?_,
    fun t t' v v' x x' h h' _ _ hx hx' => ?_⟩
  · obtain ⟨x, hx, -, rfl⟩ := parse?_eq_some_iff.1 h
    exact ⟨x, hx, rfl⟩
  · have horder := lt_iff_precedes h h' hx hx'
    refine ⟨horder, ?_⟩
    rintro c path visit e start follow rfl
    rw [walk_since, walk_before]
    exact ⟨if_congr horder rfl rfl, if_congr horder rfl rfl⟩

/-- `8.0.36-log` comes behind ` 8.0`, whose patch is 0. -/
theorem read_back_in_order_logSuffix :
    parse? " 8.0" = some ⟨80000⟩ ∧ parse? "8.0.36-log" = some ⟨80036⟩ ∧
      parse? (text ⟨80036⟩) = some ⟨80036⟩ ∧ (⟨80000⟩ : Version) < ⟨80036⟩ := by
  obtain ⟨-, hback, -, horder⟩ := read_back_in_order
  have hshort : parse? " 8.0" = some ⟨80000⟩ := by decide +kernel
  have hlong : parse? "8.0.36-log" = some ⟨80036⟩ := by decide +kernel
  have hmajor : Leads ['8'] 8 := @Leads.mk ['8'] [] (by simp) (by simp) (by simp)
  have hminor : Leads ['0'] 0 := @Leads.mk ['0'] [] (by simp) (by simp) (by simp)
  have hpatch : Leads ['3', '6', '-', 'l', 'o', 'g'] 36 :=
    @Leads.mk ['3', '6'] ['-', 'l', 'o', 'g'] (by simp) (by simp) (by simp)
  have hnames : Names " 8.0" ⟨8, 0, 0⟩ := .two hmajor (by decide) hminor (by decide)
  have hnames' : Names "8.0.36-log" ⟨8, 0, 36⟩ :=
    .three hmajor (by decide) hminor (by decide) hpatch
  exact ⟨hshort, hlong, hback _ _ hlong (by decide),
    (horder _ _ _ _ _ _ hshort hlong (by decide) (by decide) hnames hnames').1.2 (by decide)⟩

end Version

end SqlCompletion
