import Montage.Preview.Pick
import Montage.Proofs.Scene.Streams

/-!
# The children that are shown

Which children of a container are shown at an instant, whatever its times are.

**Input.** A container, and a time from the start of its object.

**Algorithm.** The walks through a sequence and through a parallel are followed child by child.

**Results.** `exists_picked`: the children that are shown stand in their order, and each of them is
compiled in a film.
-/

namespace Montage

variable {τ π : Type}

/-- The children of a container that are compiled: in a sequence, those up to the first open one. -/
def Scene.compiled (style : Style τ π) (items : List (Scene τ π)) : List (Scene τ π) :=
  match style.order with
  | .sequence => kept items
  | .parallel => items

theorem Scene.getElem_of_compiled {style : Style τ π} {items : List (Scene τ π)} {i : Nat}
    {item : Scene τ π} (h : (compiled style items)[i]? = some item) : items[i]? = some item := by
  have hkept : ∀ (items : List (Scene τ π)) (i : Nat), (kept items)[i]? = some item →
      items[i]? = some item := by
    intro items
    induction items with
    | nil => exact fun i h => h
    | cons first rest ih =>
        intro i h
        rw [kept] at h
        split at h
        · cases i with
          | zero => exact h
          | succ i => simp at h
        · cases i with
          | zero => exact h
          | succ i => exact ih i h
  unfold compiled at h
  split at h
  · exact hkept items i h
  · exact h

variable [Timescale τ]

/-- What is shown can be seen. -/
theorem hasVideo_of_pickScene {scene : Scene τ π} {t : τ} {p : Pick τ π}
    (h : pickScene scene t = some p) : scene.hasVideo = true := by
  cases scene with
  | leaf =>
      rw [pickScene] at h
      exact (Option.ite_none_right_eq_some.1 h).1
  | container =>
      rw [pickScene] at h
      exact (Option.ite_none_right_eq_some.1 h).1

theorem Style.isFit_of_paddedLength {style : Style τ π} {length : τ}
    (h : style.paddedLength.seconds? = some length) : style.objectLength.isFit = false := by
  cases ho : style.objectLength with
  | fit =>
      rw [paddedLength, ho] at h
      cases h
  | _ => rfl

/-- A child of a sequence that is shown comes no later than the first open one. -/
theorem kept_of_mem_pickSequence {items : List (Scene τ π)} {index : Nat} {start pending t : τ}
    {k : Nat} {p : Pick τ π} (h : (k, p) ∈ pickSequence index start pending items t) :
    ∃ i item second, k = index + i ∧ (Scene.kept items)[i]? = some item ∧
      pickScene item second = some p := by
  induction items generalizing index start pending with
  | nil => simp [pickSequence] at h
  | cons first rest ih =>
      have hfirst : (Scene.kept (first :: rest))[0]? = some first := by
        rw [Scene.kept]
        split <;> rfl
      rw [pickSequence] at h
      split at h
      · cases h
      · split at h
        · split at h
          · next q hq =>
              obtain ⟨rfl, rfl⟩ := Prod.mk.inj (List.mem_singleton.1 h)
              exact ⟨0, first, _, rfl, hfirst, hq⟩
          · cases h
        · split at h
          · next length hlength =>
              obtain ⟨i, item, second, rfl, hi, hp⟩ := ih h
              refine ⟨i + 1, item, second, by omega, ?_, hp⟩
              simpa [Scene.kept, Style.isFit_of_paddedLength hlength] using hi
          · cases h

/-- The first child of a parallel is shown before the others, or not at all. -/
theorem pickParallel_cons (index : Nat) (first : Scene τ π) (rest : List (Scene τ π)) (t : τ) :
    pickParallel index (first :: rest) t = pickParallel (index + 1) rest t ∨
      ∃ p second, pickScene first second = some p ∧
        pickParallel index (first :: rest) t = (index, p) :: pickParallel (index + 1) rest t := by
  generalize hlater : pickParallel (index + 1) rest t = later
  unfold pickParallel
  lift_lets
  intro style start others active
  have hothers : others = later := hlater
  rw [hothers]
  cases active with
  | false => exact .inl rfl
  | true =>
      cases hp : pickScene first (t - start - style.timePaddingStart.secondsOrZero) with
      | none => exact .inl rfl
      | some p => exact .inr ⟨p, _, hp, rfl⟩

/-- A child of a parallel that is shown is the one in its place. -/
theorem getElem_of_mem_pickParallel {items : List (Scene τ π)} {index : Nat} {t : τ} {k : Nat}
    {p : Pick τ π} (h : (k, p) ∈ pickParallel index items t) :
    ∃ i item second, k = index + i ∧ items[i]? = some item ∧ pickScene item second = some p := by
  induction items generalizing index with
  | nil => simp [pickParallel] at h
  | cons first rest ih =>
      have hlater : (k, p) ∈ pickParallel (index + 1) rest t →
          ∃ i item second, k = index + i ∧ (first :: rest)[i]? = some item ∧
            pickScene item second = some p := by
        intro h
        obtain ⟨i, item, second, rfl, hi, hp⟩ := ih h
        exact ⟨i + 1, item, second, by omega, hi, hp⟩
      rcases pickParallel_cons index first rest t with hnone | ⟨q, second, hq, hsome⟩
      · rw [hnone] at h
        exact hlater h
      · rw [hsome] at h
        rcases List.mem_cons.1 h with hfirst | h
        · obtain ⟨rfl, rfl⟩ := Prod.mk.inj hfirst
          exact ⟨0, first, second, rfl, rfl, hq⟩
        · exact hlater h

/-- The children of a parallel are shown in their order. -/
theorem sorted_pickParallel (items : List (Scene τ π)) (index : Nat) (t : τ) :
    ((pickParallel index items t).map Prod.fst).Pairwise (· < ·) := by
  induction items generalizing index with
  | nil => simp [pickParallel]
  | cons first rest ih =>
      rcases pickParallel_cons index first rest t with hnone | ⟨q, second, -, hsome⟩
      · rw [hnone]
        exact ih (index + 1)
      · rw [hsome, List.map_cons, List.pairwise_cons]
        refine ⟨fun k hk => ?_, ih (index + 1)⟩
        obtain ⟨⟨k, p⟩, hmem, rfl⟩ := List.mem_map.1 hk
        obtain ⟨i, item, second, rfl, -, -⟩ := getElem_of_mem_pickParallel hmem
        omega

/-- A sequence shows at most one child. -/
theorem sorted_pickSequence (items : List (Scene τ π)) (index : Nat) (start pending t : τ) :
    ((pickSequence index start pending items t).map Prod.fst).Pairwise (· < ·) := by
  induction items generalizing index start pending with
  | nil => simp [pickSequence]
  | cons first rest ih =>
      rw [pickSequence]
      split
      · exact .nil
      · split
        · split <;> simp
        · split
          · exact ih _ _ _
          · exact .nil

/-- The children of a container that are shown stand in order, and they are compiled in a film. -/
theorem exists_picked {tag : Tag} {style : Style τ π} {items : List (Scene τ π)} {t : τ}
    {p : Pick τ π} (h : pickScene (.container tag style items) t = some p) :
    ∃ picked, p = .container tag style items picked ∧
      (picked.map Prod.fst).Pairwise (· < ·) ∧ ∀ i q, (i, q) ∈ picked →
        ∃ item second, (Scene.compiled style items)[i]? = some item ∧
          pickScene item second = some q := by
  rw [pickScene] at h
  obtain ⟨-, h⟩ := Option.ite_none_right_eq_some.1 h
  cases h
  refine ⟨_, rfl, ?_⟩
  split
  · cases ho : style.order with
    | sequence =>
        refine ⟨sorted_pickSequence items 0 0 0 t, fun i q hq => ?_⟩
        obtain ⟨i, item, second, rfl, hi, hp⟩ := kept_of_mem_pickSequence hq
        exact ⟨item, second, by simpa [Scene.compiled, ho] using hi, hp⟩
    | parallel =>
        refine ⟨sorted_pickParallel items 0 t, fun i q hq => ?_⟩
        obtain ⟨i, item, second, rfl, hi, hp⟩ := getElem_of_mem_pickParallel hq
        exact ⟨item, second, by simpa [Scene.compiled, ho] using hi, hp⟩
  · exact ⟨.nil, fun i q hq => by cases hq⟩

/-- A child that is shown in a container is the one in its place, and it is compiled in a film. -/
theorem exists_of_mem_picked {scene : Scene τ π} {tag : Tag} {style : Style τ π}
    {items : List (Scene τ π)} {picked : List (Nat × Pick τ π)} {t : τ}
    (h : pickScene scene t = some (.container tag style items picked)) {i : Nat} {q : Pick τ π}
    (hq : (i, q) ∈ picked) : scene = .container tag style items ∧
      ∃ item second, (Scene.compiled style items)[i]? = some item ∧
        pickScene item second = some q := by
  cases scene with
  | leaf =>
      rw [pickScene] at h
      obtain ⟨-, h⟩ := Option.ite_none_right_eq_some.1 h
      cases h
  | container =>
      obtain ⟨_, he, -, hpicked⟩ := exists_picked h
      cases he
      exact ⟨rfl, hpicked i q hq⟩

end Montage
