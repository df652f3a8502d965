import Montage.Proofs.Compile.Recount
import Montage.Proofs.Layout.Mirror
import Montage.Proofs.Markup.Documents
import Montage.Proofs.Measure.Ledger

/-!
# Words that overflow

A program with words comes to the whole numbers that a document is laid out with, or it stops.

**Input.** A document, and its media.

**Algorithm.** The document is laid out with ledgers, which keep account of all calculations. Words are
what is left of them, so the program stops at the first calculation in the account that does not fit,
and where all of them fit, its words are the whole numbers.

**Results.**
* `Flow.values_mirrored`: in words, too, reversed flow is the mirror of forward flow.
* `Document.scene_toWord`: when a program with words builds a scene, and which calculation stops it.
* `Document.words_exact`: nothing is divided by what is not positive, and scenes and films in words
  are those in whole numbers unless a calculation stops the program.
* `Document.width_lost`: a picture that is nine quadrillion pixels wide stops the program.
-/

namespace Montage

open PixelCount

variable {τ : Type}

/-- The calculations on the way to the counts of a scene. -/
def Scene.calculations (root : Scene τ Ledger) : List Calculation :=
  root.counts.flatMap Ledger.calculations

/-- What is left of a scene in words stops the program where its calculations do. -/
theorem Scene.mishap?_toWord (root : Scene τ Ledger) :
    (root.recount Ledger.toWord).mishap? = Calculation.firstUnfit? root.calculations := by
  rw [mishap?, counts_recount, calculations, Calculation.firstUnfit?_flatMap, firstMishap?,
    List.findSome?_map]
  rfl

/-! ### Flows -/

theorem Flow.placeAll_recount {π ρ : Type} [PixelCount π] [PixelCount ρ] {f : π → ρ} (P : Passage f)
    (flow : Flow π) (children : List (Style τ π)) :
    (flow.recount f).placeAll (children.map (Style.recount f)) =
      (flow.placeAll children).map (Prod.map f f) := by
  induction children generalizing flow with
  | nil => rfl
  | cons s rest ih =>
      rw [List.map_cons, placeAll, placeAll, place_recount P, List.map_cons]
      exact congrArg (_ :: ·) (ih _)

/-- In words, a reversed flow has the numbers of the forward flow that meets the children from the last
to the first. Only a calculation that stops the program may come in one of them and not in the
other. -/
theorem Flow.values_mirrored {axis : Axis} {children : List (Style τ Word)}
    (hc : ∀ s ∈ children, s.HasRoomAround axis) :
    (catenate axis true children).recount Word.value =
        (catenate axis false children.reverse).recount Word.value ∧
      ∀ container : Style τ Word, container.direction.axis = axis →
        container.direction.isReverse = true →
        container.extent axis = catenate axis true children →
        ((Flow.start container).placeAll children).map (Prod.map Word.value Word.value) =
          (((Flow.start { container with direction := container.direction.mirror }).placeAll
            children.reverse).map (Prod.map Word.value Word.value)).reverse := by
  have P := Word.passage.toPassage
  have hroom : ∀ s ∈ children.map (Style.recount Word.value), s.HasRoomAround axis := by
    refine List.forall_mem_map.2 fun s hs => ?_
    rw [Style.HasRoomAround, Style.recount_margin, Edges.along_recount P]
    exact hc s hs
  constructor
  · rw [← catenate_recount P, ← catenate_recount P, List.map_reverse]
    exact catenate_reverse hroom
  · rintro container rfl hrev hsize
    rw [← placeAll_recount P, ← placeAll_recount P, ← start_recount P, ← start_recount P,
      List.map_reverse]
    refine placeAll_mirror hroom hrev ?_
    rw [Style.extent_recount, Style.recount_direction, hsize, catenate_recount P]

/-! ### Scenes -/

namespace Document

open Markup

variable [Timescale τ] {d : Document τ} {probe : Probe τ}

/-- A document whose scene can be told in ledgers has it in words if all calculations fit; the first
that does not stops the program. -/
theorem scene_toWord {root : Scene τ Ledger} (h : d.scene probe = .ok root) :
    (d.scene probe : Except Failure (Scene τ Word)) =
      match Calculation.firstUnfit? root.calculations with
      | none => .ok (root.recount Ledger.toWord)
      | some c => .error (.mishap c) := by
  obtain ⟨draft, hdraft, rfl⟩ := exists_draft h
  have hscene := scene_of_draft (draft_eq_ok Ledger.passage_toWord hdraft)
  rw [Scene.finish_recount Ledger.passage_toWord, Scene.mishap?_toWord] at hscene
  refine hscene.trans ?_
  cases Calculation.firstUnfit? draft.finish.calculations <;> rfl

/-- A document whose scene cannot be told in ledgers fails alike in words, unless a calculation stops
the program before. -/
theorem scene_of_ledger_error {e : Failure}
    (h : (d.scene probe : Except Failure (Scene τ Ledger)) = .error e) :
    (d.scene probe : Except Failure (Scene τ Word)) = .error e ∨
      ∃ c : Calculation, c.Stops ∧
        (d.scene probe : Except Failure (Scene τ Word)) = .error (.mishap c) := by
  have hfound : ∀ ns : List Ledger, firstMishap? ns = none :=
    fun ns => firstMishap?_eq_none.2 fun _ _ => rfl
  cases hdraft : (d.draft probe : Except Failure (Scene τ Ledger)) with
  | ok draft =>
      rw [scene_of_draft hdraft, Scene.mishap?, hfound] at h
      cases h
  | error e' =>
      obtain rfl : e' = e := by
        rcases scene_of_error hdraft with he | ⟨n, c, hn, -⟩
        · exact Except.error.inj (he.symm.trans h)
        · cases hn
      have hword : (d.draft probe : Except Failure (Scene τ Word)) = .error e' := by
        rw [draft_recount Ledger.passage_toWord, hdraft]
        rfl
      refine (scene_of_error hword).imp_right ?_
      rintro ⟨n, c, hn, hc⟩
      exact ⟨c, Word.stops_of_mishap? hn, hc⟩

/-- A scene in words is the scene in whole numbers. -/
theorem scene_value {root : Scene τ Word} (h : d.scene probe = .ok root) :
    (d.scene probe : Except Failure (Scene τ Int)) = .ok (root.recount Word.value) := by
  obtain ⟨draft, hdraft, rfl⟩ := exists_draft h
  have hexact := draft_eq_ok Word.passage.toPassage hdraft
  have hnone : (draft.recount Word.value).finish.mishap? = none :=
    firstMishap?_eq_none.2 fun _ _ => rfl
  rw [scene_of_draft hexact, hnone, Scene.finish_recount Word.passage.toPassage]

/-! ### Films -/

/-- A film in words is the film in whole numbers, and words hold these. A scene without a film in words
has none in whole numbers, unless a calculation stops the program. -/
theorem film_value {root : Scene τ Word} (h : d.scene probe = .ok root) (sampleRate : Nat) :
    (∀ film, Film.ofScene root d.frame sampleRate = .ok film →
      Film.ofScene (root.recount Word.value) d.frame sampleRate = .ok (film.recount Word.value) ∧
        ∀ n ∈ (film.recount Word.value).counts, FitsWord n) ∧
    ∀ e, Film.ofScene root d.frame sampleRate = .error e →
      Film.ofScene (root.recount Word.value) d.frame sampleRate = .error e ∨
        ∃ c : Calculation, c.Stops ∧ e = .mishap c := by
  obtain ⟨hok, herror⟩ :=
    Film.ofScene_recount Word.passage (found_of_scene h) d.frame sampleRate
  refine ⟨fun film hfilm => ?_, fun e he => ?_⟩
  · obtain ⟨hfound, hsame⟩ := hok film hfilm
    refine ⟨hsame, ?_⟩
    rw [Film.counts_recount]
    exact List.forall_mem_map.2 fun n hn => Word.fits_of_isFound (hfound n hn)
  · refine (herror e he).imp_right ?_
    rintro ⟨n, c, hn, -, rfl⟩
    exact ⟨c, Word.stops_of_mishap? hn, rfl⟩

/-- A document is laid out with words. Another quotient by what is not positive changes nothing: nothing
is divided by that. The scene in whole numbers is that of the ledgers without their account, and the
scene in words is the same as long as all calculations in the account fit; otherwise the first that
does not stops the program. The film of a scene in words fails as it does in whole numbers, or has the
same counts, which words hold, unless a calculation that does not fit stops the program. -/
theorem words_exact (d : Document τ) (probe : Probe τ) (sampleRate : Nat) :
    (∀ q : Word → Word → Word, (∀ a b, 0 < b → q a b = PixelCount.quotient a b) →
      (d.scene probe : Except Failure (Scene τ (Dividing q))) =
        (d.scene probe).map (Scene.recount Dividing.ofWord) ∧
      ∀ root : Scene τ Word, d.scene probe = .ok root →
        Film.ofScene (root.recount (Dividing.ofWord (q := q))) d.frame sampleRate =
          (Film.ofScene root d.frame sampleRate).map (Film.recount Dividing.ofWord)) ∧
    (d.scene probe : Except Failure (Scene τ Int)) =
      (d.scene probe).map (Scene.recount Ledger.value) ∧
    (∀ root : Scene τ Ledger, d.scene probe = .ok root →
      (d.scene probe : Except Failure (Scene τ Word)) =
        match Calculation.firstUnfit? root.calculations with
        | none => .ok (root.recount Ledger.toWord)
        | some c => .error (.mishap c)) ∧
    (∀ e, (d.scene probe : Except Failure (Scene τ Ledger)) = .error e →
      (d.scene probe : Except Failure (Scene τ Word)) = .error e ∨
        ∃ c : Calculation, c.Stops ∧
          (d.scene probe : Except Failure (Scene τ Word)) = .error (.mishap c)) ∧
    ∀ root : Scene τ Word, d.scene probe = .ok root →
      (d.scene probe : Except Failure (Scene τ Int)) = .ok (root.recount Word.value) ∧
      (∀ film, Film.ofScene root d.frame sampleRate = .ok film →
        Film.ofScene (root.recount Word.value) d.frame sampleRate = .ok (film.recount Word.value) ∧
          ∀ n ∈ (film.recount Word.value).counts, FitsWord n) ∧
      ∀ e, Film.ofScene root d.frame sampleRate = .error e →
        Film.ofScene (root.recount Word.value) d.frame sampleRate = .error e ∨
          ∃ c : Calculation, c.Stops ∧ e = .mishap c := by
  refine ⟨fun q hq => ?_, ?_, fun root => scene_toWord, fun e => scene_of_ledger_error,
    fun root h => ⟨scene_value h, film_value h sampleRate⟩⟩
  · have hpass := Dividing.passage hq
    refine ⟨scene_recount hpass.toPassage Dividing.keepsMishaps d probe, fun root h => ?_⟩
    exact Film.ofScene_recount_eq hpass Dividing.keepsMishaps (found_of_scene h) d.frame sampleRate
  · exact scene_recount Ledger.passage_value Ledger.keepsMishaps_value d probe

/-- A document that shows a picture in a style. -/
def onePicture (style : String) : String :=
  "<vsml><cont resolution=\"320x180\" fps=\"25\"><img src=\"a.png\" style=\"" ++ style ++
    "\"/></cont></vsml>"

/-- Whatever is asked about is a picture of a size. -/
def pictures (width height : Nat) : Probe Rat :=
  fun _ => .ok { duration := none, video := some ⟨width, height⟩, audio := none }

/-- A picture that is a hundred pixels wide has a scene and a film in words, as in whole numbers. -/
theorem words_exact_hundred : ∃ (d : Document Rat) (root : Scene Rat Word) (film : Film Rat Word),
    parse (fun _ => .error "") ⟨""⟩ (onePicture "width:100px;object-length:3s") = .ok d ∧
      d.scene (pictures 640 480) = .ok root ∧ Film.ofScene root d.frame 48000 = .ok film ∧
      d.scene (pictures 640 480) = .ok (root.recount Word.value) ∧
      Film.ofScene (root.recount Word.value) d.frame 48000 = .ok (film.recount Word.value) ∧
      ∀ n ∈ (film.recount Word.value).counts, FitsWord n := by
  have hsome : ((parse (τ := Rat) (fun _ => .error "") ⟨""⟩
      (onePicture "width:100px;object-length:3s")).toOption.bind fun d =>
        (d.scene (π := Word) (pictures 640 480)).toOption.map fun root =>
          (Film.ofScene root d.frame 48000).toOption.isSome) = some true := by
    decide +kernel
  obtain ⟨d, hd, hsome⟩ := Option.bind_eq_some_iff.1 hsome
  obtain ⟨root, hroot, hsome⟩ := Option.map_eq_some_iff.1 hsome
  obtain ⟨film, hfilm⟩ := Option.isSome_iff_exists.1 hsome
  have hd := toOption_eq_some.1 hd
  have hroot := toOption_eq_some.1 hroot
  have hfilm := toOption_eq_some.1 hfilm
  obtain ⟨-, -, -, -, hwords⟩ := words_exact d (pictures 640 480) 48000
  obtain ⟨hscene, hfilms, -⟩ := hwords root hroot
  exact ⟨d, root, film, hd, hroot, hfilm, hscene, hfilms film hfilm⟩

/-- A picture that is nine quadrillion pixels wide stops the program where it multiplies, though a word
holds the height in its shape. -/
theorem width_lost : ∃ (d : Document Rat) (exact : Scene Rat Int),
    parse (fun _ => .error "") ⟨""⟩ (onePicture "width:9000000000000000px") = .ok d ∧
      (d.scene (pictures 1920 1080) : Except Failure (Scene Rat Word)) =
        .error (.mishap (.mul 9000000000000000 1080)) ∧
      d.scene (pictures 1920 1080) = .ok exact ∧
      exact.style.height.pixels? = some 5062500000000000 ∧ FitsWord 5062500000000000 := by
  have hsome : ((parse (τ := Rat) (fun _ => .error "") ⟨""⟩
      (onePicture "width:9000000000000000px")).toOption.bind fun d =>
        (d.scene (π := Int) (pictures 1920 1080)).toOption.map fun exact =>
          ((d.scene (π := Word) (pictures 1920 1080)).map fun _ => (), exact.style.height.pixels?)) =
      some (.error (.mishap (.mul 9000000000000000 1080)), some 5062500000000000) := by
    decide +kernel
  obtain ⟨d, hd, hsome⟩ := Option.bind_eq_some_iff.1 hsome
  obtain ⟨exact, hexact, hsame⟩ := Option.map_eq_some_iff.1 hsome
  obtain ⟨hstopped, hheight⟩ := Prod.mk.inj hsame
  refine ⟨d, exact, toOption_eq_some.1 hd, ?_, toOption_eq_some.1 hexact, hheight, by decide⟩
  cases hscene : (d.scene (pictures 1920 1080) : Except Failure (Scene Rat Word)) with
  | error e =>
      rw [hscene] at hstopped
      exact congrArg Except.error (Except.error.inj hstopped)
  | ok root =>
      rw [hscene] at hstopped
      cases hstopped

end Document

end Montage
