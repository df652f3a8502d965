import Montage.Proofs.Measure.Words
import Montage.Style.Edges

/-!
# Passages between counts

What is computed with one kind of pixel counts, and the same with another kind.

**Input.** A function between two kinds of counts that keeps their arithmetic and their order.

**Algorithm.** All that is made of counts passes with them: lengths, edges, and what is computed with
these. Only what is told apart needs more: words that stand for one number are the same if they are
found.

**Results.**
* `Word.passage`: words pass to the whole numbers beside them.
* `Dividing.passage`: words pass to words with another quotient by what is not positive.
* `Length.recount_resolve`, `Length.parse_recount`: lengths pass as they are read and resolved.
-/

namespace Montage

open PixelCount

/-- A function from one kind of counts to another that keeps arithmetic and order. -/
structure Passage {π ρ : Type} [PixelCount π] [PixelCount ρ] (f : π → ρ) : Prop where
  zero : f 0 = 0
  add : ∀ a b, f (a + b) = f a + f b
  sub : ∀ a b, f (a - b) = f a - f b
  mul : ∀ a b, f (a * b) = f a * f b
  max : ∀ a b, f (max a b) = max (f a) (f b)
  quotient : ∀ a b, 0 < b → f (PixelCount.quotient a b) = PixelCount.quotient (f a) (f b)
  le_iff : ∀ {a b}, f a ≤ f b ↔ a ≤ b
  lt_iff : ∀ {a b}, f a < f b ↔ a < b
  two_pos : 0 < (PixelCount.ofInt 2 : π)
  ofInt : ∀ n, f (PixelCount.ofInt n) = PixelCount.ofInt n
  toInt : ∀ a, PixelCount.toInt (f a) = PixelCount.toInt a

/-- Passages after each other are a passage. -/
theorem Passage.comp {π ρ σ : Type} [PixelCount π] [PixelCount ρ] [PixelCount σ] {g : ρ → σ}
    {f : π → ρ} (G : Passage g) (F : Passage f) : Passage (g ∘ f) where
  zero := (congrArg g F.zero).trans G.zero
  add a b := (congrArg g (F.add a b)).trans (G.add _ _)
  sub a b := (congrArg g (F.sub a b)).trans (G.sub _ _)
  mul a b := (congrArg g (F.mul a b)).trans (G.mul _ _)
  max a b := (congrArg g (F.max a b)).trans (G.max _ _)
  quotient a b hb := by
    have hb' : 0 < f b := by rwa [← F.zero, F.lt_iff]
    exact (congrArg g (F.quotient a b hb)).trans (G.quotient _ _ hb')
  le_iff := G.le_iff.trans F.le_iff
  lt_iff := G.lt_iff.trans F.lt_iff
  two_pos := F.two_pos
  ofInt n := (congrArg g (F.ofInt n)).trans (G.ofInt n)
  toInt a := (G.toInt (f a)).trans (F.toInt a)

/-- A passage that tells counts apart that are found, and finds them again. -/
structure Passage.IsFaithful {π ρ : Type} [PixelCount π] [PixelCount ρ] (f : π → ρ) : Prop
    extends Passage f where
  found_zero : IsFound (0 : π)
  found : ∀ {a}, IsFound a → IsFound (f a)
  inj : ∀ {a b}, IsFound a → IsFound b → f a = f b → a = b

/-- The first calculation that stops a program stops it again on the way to the counts that these pass
to, unless it stops it on the way to a count and not on the way to the one that this passes to. -/
theorem Passage.IsFaithful.firstMishap?_map {π ρ : Type} [PixelCount π] [PixelCount ρ] {f : π → ρ}
    (F : Passage.IsFaithful f) {ns : List π} {c : Calculation} (h : firstMishap? ns = some c) :
    firstMishap? (ns.map f) = some c ∨
      ∃ n : π, PixelCount.mishap? n = some c ∧ PixelCount.mishap? (f n) ≠ some c := by
  obtain ⟨before, n, after, rfl, hn, hbefore⟩ := List.findSome?_eq_some_iff.1 h
  by_cases hsame : PixelCount.mishap? (f n) = some c
  · refine Or.inl (List.findSome?_eq_some_iff.2 ⟨before.map f, f n, after.map f, by simp, hsame, ?_⟩)
    exact List.forall_mem_map.2 fun m hm => F.found (hbefore m hm)
  · exact Or.inr ⟨n, hn, hsame⟩

/-- A function between counts after which the same calculations stop a program. -/
def KeepsMishaps {π ρ : Type} [PixelCount π] [PixelCount ρ] (f : π → ρ) : Prop :=
  ∀ n, PixelCount.mishap? (f n) = PixelCount.mishap? n

/-- Words pass to the whole numbers beside them. -/
theorem Word.passage : Passage.IsFaithful Word.value where
  zero := rfl
  add _ _ := rfl
  sub _ _ := rfl
  mul _ _ := rfl
  max := Word.value_max
  quotient a b _ := Word.value_quotient a b
  le_iff := Iff.rfl
  lt_iff := Iff.rfl
  two_pos := by decide
  ofInt _ := rfl
  toInt _ := rfl
  found_zero := Word.isFound_zero
  found _ := rfl
  inj := Word.eq_of_isFound

/-- Words that are divided in a way of their own. -/
def Dividing (_q : Word → Word → Word) : Type :=
  Word

namespace Dividing

variable {q : Word → Word → Word}

/-- The word itself. -/
def ofWord (a : Word) : Dividing q :=
  a

instance : PixelCount (Dividing q) :=
  { (inferInstance : PixelCount Word) with quotient := q }

/-- Words pass to words that are divided in another way only by what is not positive. -/
theorem passage (hq : ∀ a b : Word, 0 < b → q a b = PixelCount.quotient a b) :
    Passage.IsFaithful (ofWord : Word → Dividing q) where
  zero := rfl
  add _ _ := rfl
  sub _ _ := rfl
  mul _ _ := rfl
  max _ _ := rfl
  quotient _ _ hb := (hq _ _ hb).symm
  le_iff := Iff.rfl
  lt_iff := Iff.rfl
  two_pos := (by decide : (0 : Word) < PixelCount.ofInt 2)
  ofInt _ := rfl
  toInt _ := rfl
  found_zero := Word.isFound_zero
  found h := h
  inj _ _ h := h

theorem keepsMishaps : KeepsMishaps (ofWord : Word → Dividing q) :=
  fun _ => rfl

end Dividing

variable {π ρ : Type}

/-! ### Lengths -/

namespace Length

/-- The length with its count passed on. -/
def recount (f : π → ρ) : Length π → Length ρ
  | auto => auto
  | pixel n => pixel (f n)
  | percent share => percent share
  | ofWidth share => ofWidth share
  | ofHeight share => ofHeight share
  | ofShortSide share => ofShortSide share
  | ofLongSide share => ofLongSide share

variable {f : π → ρ} {l : Length π}

@[simp] theorem isAuto_recount (l : Length π) : (l.recount f).isAuto = l.isAuto := by
  cases l <;> rfl

@[simp] theorem pixels?_recount (l : Length π) : (l.recount f).pixels? = l.pixels?.map f := by
  cases l <;> rfl

variable [PixelCount π] [PixelCount ρ] (P : Passage f)
include P

theorem pixelsOr_recount (l : Length π) : (l.recount f).pixelsOr 0 = f (l.pixelsOr 0) := by
  cases l <;> first | rfl | exact P.zero.symm

theorem recount_zero : (zero : Length π).recount f = zero :=
  congrArg pixel P.zero

theorem recount_add (l m : Length π) : (l + m).recount f = l.recount f + m.recount f := by
  cases l <;> cases m <;> first | rfl | exact congrArg pixel (P.add _ _)

theorem recount_shareOf (base share : Float) :
    (shareOf base share : Length π).recount f = shareOf base share :=
  congrArg pixel (P.ofInt _)

/-- A length resolves alike in either kind of counts. -/
theorem recount_resolve (parent natural : Option π) (frame : Resolution) (l : Length π) :
    (l.recount f).resolve (parent.map f) (natural.map f) frame =
      (l.resolve parent natural frame).recount f := by
  cases l with
  | auto => rfl
  | pixel n => rfl
  | percent share =>
      cases parent with
      | none => cases natural <;> rfl
      | some p =>
          change shareOf (Float.ofInt (PixelCount.toInt (f p))) share = _
          rw [P.toInt]
          exact (recount_shareOf P _ _).symm
  | ofWidth share => exact (recount_shareOf P _ _).symm
  | ofHeight share => exact (recount_shareOf P _ _).symm
  | ofShortSide share => exact (recount_shareOf P _ _).symm
  | ofLongSide share => exact (recount_shareOf P _ _).symm

theorem units_recount :
    (units : List (String × (Float → Length ρ))) =
      units.map fun unit => (unit.1, recount f ∘ unit.2) := by
  have hpixels : ∀ x : Decimal.Exact, (PixelCount.nearest x : ρ) = f (PixelCount.nearest x) :=
    fun x => (P.ofInt _).symm
  simp only [units, hpixels]
  rfl

/-- Lengths are read alike. -/
theorem parse_recount (s : String) :
    (parse s : Except ValueError (Length ρ)) = (parse s).map (recount f) := by
  have hfound : ∀ cs : List Char,
      (units.findSome? fun unit : String × (Float → Length ρ) =>
          (Text.stripEnd? unit.1.toList cs).map fun n => (number? n).map unit.2) =
        (units.findSome? fun unit : String × (Float → Length π) =>
          (Text.stripEnd? unit.1.toList cs).map fun n => (number? n).map unit.2).map
            (Option.map (recount f)) := by
    intro cs
    rw [units_recount P, List.findSome?_map, List.map_findSome?]
    refine congrArg (List.findSome? · units) (funext fun unit => ?_)
    simp only [Function.comp_def, Option.map_map]
  simp only [parse]
  rw [hfound]
  split
  · rfl
  · rcases List.findSome? _ units with _ | _ | l <;> rfl

end Length

/-! ### Edges -/

namespace Edges

/-- The edges with their counts passed on. -/
def recount (f : π → ρ) (e : Edges π) : Edges ρ :=
  ⟨e.top.recount f, e.right.recount f, e.bottom.recount f, e.left.recount f⟩

variable {f : π → ρ}

theorem toList_recount (e : Edges π) : (e.recount f).toList = e.toList.map (Length.recount f) :=
  rfl

theorem ofList?_recount (ls : List (Length π)) :
    ofList? (ls.map (Length.recount f)) = (ofList? ls).map (recount f) := by
  rcases ls with _ | ⟨_, _ | ⟨_, _ | ⟨_, _ | ⟨_, _ | _⟩⟩⟩⟩ <;> rfl

variable [PixelCount π] [PixelCount ρ] (P : Passage f)
include P

theorem recount_zero : (zero : Edges π).recount f = zero := by
  simp only [zero, uniform, recount, Length.recount_zero P]

theorem along_recount (e : Edges π) (axis : Axis) (reverse : Bool) :
    (e.recount f).along axis reverse = (e.along axis reverse).map f f := by
  cases axis <;> cases reverse <;> simp [along, recount, Length.pixelsOr_recount P]

omit P in
/-- Edges are seen alike if their pixels are found. -/
theorem isZero_recount (F : Passage.IsFaithful f) {e : Edges π}
    (h : ∀ l ∈ e.toList, ∀ n, l.pixels? = some n → IsFound n) :
    (e.recount f).isZero = e.isZero := by
  have hside : ∀ l ∈ e.toList, ((l.recount f).pixelsOr 0 = 0 ↔ l.pixelsOr 0 = 0) := by
    intro l hl
    have hl : IsFound (l.pixelsOr 0) := by
      cases hn : l.pixels? with
      | none => simpa [Length.pixelsOr, hn] using F.found_zero
      | some n => simpa [Length.pixelsOr, hn] using h l hl n hn
    rw [Length.pixelsOr_recount F.toPassage, ← F.zero]
    exact ⟨F.inj hl F.found_zero, congrArg f⟩
  rw [isZero, isZero, toList_recount, List.all_map, Bool.eq_iff_iff, List.all_eq_true,
    List.all_eq_true]
  refine forall₂_congr fun l hl => ?_
  simp only [Function.comp_def, decide_eq_true_iff, hside l hl]

end Edges

end Montage
