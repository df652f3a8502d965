import Mathlib.Data.List.Basic
import Montage.Output.Plan
import Montage.Proofs.Graph.Pads

/-!
# Arguments of a command

How the rendering program reads the options of its command line.

**Input.** The arguments of a plan.

**Algorithm.** An option takes the next argument as its value, but for a few that stand alone. The
last argument is the output.

**Results.** `Plan.valuesOf_ofFilm`, `Plan.valuesOf_ofStill`: the graph and the pads that a plan
gives to the program.
-/

namespace Montage

/-- A pad that a filter offers is kept by its label in brackets. -/
theorem Pad.IsOutput.mapLabel_eq {p : Pad} (h : p.IsOutput) : mapLabel p.label = p.bracketed := by
  obtain ⟨kind, id, rfl⟩ := h
  have hc : ':' ∉ (Pad.output kind id).label.toList := by
    rw [Pad.toList_label_output, List.mem_cons, not_or]
    constructor
    · cases kind <;> decide
    · intro hd
      have := Nat.isDigit_of_mem_toDigits (by decide) (by decide) hd
      simp at this
  rw [mapLabel, if_neg (by simpa using hc), Pad.bracketed]

/-- The pads of a film. -/
def Film.pads {τ π : Type} (f : Film τ π) : List Pad :=
  f.video.toList ++ f.audio.toList

namespace Plan

variable {τ π : Type}

/-- Whether an option has no value. -/
def StandsAlone (option : String) : Prop :=
  option ∈ ["-hide_banner", "-nostats", "-y", "-n"]

instance (option : String) : Decidable (StandsAlone option) :=
  inferInstanceAs (Decidable (option ∈ _))

/-- The values that a command gives to an option. -/
def valuesOf (option : String) : List String → List String
  | [] => []
  | [_] => []
  | name :: value :: rest =>
      if StandsAlone name then valuesOf option (value :: rest)
      else if name = option then value :: valuesOf option rest
      else valuesOf option rest

variable {option name : String}

theorem valuesOf_alone (h : StandsAlone name) (rest : List String) :
    valuesOf option (name :: rest) = valuesOf option rest := by
  cases rest with
  | nil => simp [valuesOf]
  | cons value rest => rw [valuesOf, if_pos h]

theorem valuesOf_given (h : ¬ StandsAlone option) (value : String) (rest : List String) :
    valuesOf option (option :: value :: rest) = value :: valuesOf option rest := by
  rw [valuesOf, if_neg h, if_pos rfl]

theorem valuesOf_other (h : ¬ StandsAlone name) (hn : name ≠ option) (value : String)
    (rest : List String) :
    valuesOf option (name :: value :: rest) = valuesOf option rest := by
  rw [valuesOf, if_neg h, if_neg hn]

/-- The options before an input give nothing to the options for the graph and its pads. -/
theorem valuesOf_inputs [Timescale τ] {fps : τ} {inputs : List Input}
    (hi : ∀ i ∈ inputs, ∃ kind, i.options = Compile.inputOptions fps kind)
    (ho : option ∈ ["-map", "-filter_complex"]) (rest : List String) :
    valuesOf option (inputs.flatMap Input.arguments ++ rest) = valuesOf option rest := by
  have hne : "-i" ≠ option ∧ "-loop" ≠ option ∧ "-framerate" ≠ option := by
    rcases List.mem_pair.1 ho with rfl | rfl <;> decide
  induction inputs with
  | nil => rfl
  | cons i inputs ih =>
      obtain ⟨kind, hk⟩ := hi i List.mem_cons_self
      have hrest := ih fun j hj => hi j (List.mem_cons_of_mem _ hj)
      rw [List.flatMap_cons, Input.arguments, hk]
      cases kind <;>
        simp [Compile.inputOptions, valuesOf_other (by decide : ¬ StandsAlone "-i") hne.1,
          valuesOf_other (by decide : ¬ StandsAlone "-loop") hne.2.1,
          valuesOf_other (by decide : ¬ StandsAlone "-framerate") hne.2.2, hrest]

/-- What a plan gives to an option for the graph and its pads, after the inputs. -/
theorem valuesOf_graphOptions [Timescale τ] {fps : τ} (j : Job) {g : Graph Invocation}
    (hi : ∀ i ∈ g.inputs, ∃ kind, i.options = Compile.inputOptions fps kind)
    (ho : option ∈ ["-map", "-filter_complex"]) (rest : List String) :
    valuesOf option (j.graphOptions g ++ rest) =
      valuesOf option ("-filter_complex" :: g.text :: rest) := by
  have hne : "-progress" ≠ option := by
    rcases List.mem_pair.1 ho with rfl | rfl <;> decide
  have hy : StandsAlone (if j.overwrite then "-y" else "-n") := by
    split <;> decide
  simp only [Job.graphOptions, Job.opening, List.append_assoc, List.cons_append, List.nil_append]
  rw [valuesOf_alone (by decide), valuesOf_alone (by decide), valuesOf_other (by decide) hne,
    valuesOf_alone hy, valuesOf_inputs hi ho]

/-- The codecs of a job give nothing to the options for the graph and its pads. -/
theorem valuesOf_codecs (j : Job) (hasVideo hasAudio : Bool)
    (ho : option ∈ ["-map", "-filter_complex"]) (output : String) :
    valuesOf option (j.codecs hasVideo hasAudio ++ [output]) = [] := by
  unfold Job.codecs Job.codec
  rcases List.mem_pair.1 ho with rfl | rfl <;> cases j.format <;> cases hasVideo <;>
    cases hasAudio <;>
    simp [FileFormat.videoCodec, FileFormat.audioCodec, FileFormat.container, valuesOf,
      StandsAlone]

variable [Timescale τ]

/-- The options for the streams of a film name its pads. -/
theorem valuesOf_streamOptions (f : Film τ π) (hf : ∀ p ∈ f.pads, p.IsOutput)
    (rest : List String) :
    valuesOf "-map" (streamOptions f ++ rest) = f.pads.map Pad.bracketed ++ valuesOf "-map" rest ∧
      valuesOf "-filter_complex" (streamOptions f ++ rest) = valuesOf "-filter_complex" rest := by
  have hm : ∀ p ∈ f.pads, mapLabel p.label = p.bracketed := fun p hp => (hf p hp).mapLabel_eq
  obtain ⟨graph, video, audio, frame, duration⟩ := f
  unfold Film.pads at hm ⊢
  unfold streamOptions
  cases video <;> cases audio <;> simp_all [valuesOf, StandsAlone, Pad.kept]

variable [PixelCount π]

/-- The plan of a film gives the program the graph that fits the format, and keeps its pads. -/
theorem valuesOf_ofFilm {fps : τ} (j : Job) (f : Film τ π)
    (hi : ∀ i ∈ (f.fitted j.format).graph.inputs, ∃ kind,
      i.options = Compile.inputOptions fps kind)
    (hf : ∀ p ∈ (f.fitted j.format).pads, p.IsOutput) :
    valuesOf "-map" (ofFilm j f).arguments = (f.fitted j.format).pads.map Pad.bracketed ∧
      valuesOf "-filter_complex" (ofFilm j f).arguments =
        [((f.fitted j.format).graph.map Filter.invocation).text] := by
  have hm : ∀ option ∈ ["-map", "-filter_complex"], valuesOf option (ofFilm j f).arguments =
      valuesOf option ("-filter_complex" :: ((f.fitted j.format).graph.map Filter.invocation).text ::
        (streamOptions (f.fitted j.format) ++ ("-t" :: Timescale.text f.duration ::
          (j.codecs (f.fitted j.format).video.isSome (f.fitted j.format).audio.isSome
            ++ [j.output.text])))) := by
    intro option ho
    simp only [ofFilm, List.append_assoc, List.cons_append, List.nil_append]
    exact valuesOf_graphOptions j hi ho _
  have ht : ∀ option ∈ ["-map", "-filter_complex"], valuesOf option
      ("-t" :: Timescale.text f.duration :: (j.codecs (f.fitted j.format).video.isSome
        (f.fitted j.format).audio.isSome ++ [j.output.text])) = [] := by
    intro option ho
    have hne : "-t" ≠ option := by
      rcases List.mem_pair.1 ho with rfl | rfl <;> decide
    rw [valuesOf_other (by decide) hne, valuesOf_codecs j _ _ ho]
  constructor
  · rw [hm _ (by simp), valuesOf_other (by decide) (by decide),
      (valuesOf_streamOptions _ hf _).1, ht _ (by simp), List.append_nil]
  · rw [hm _ (by simp), valuesOf_given (by decide), (valuesOf_streamOptions _ hf _).2,
      ht _ (by simp)]

/-- The plan of a still gives the program its graph, and keeps its pad. -/
theorem valuesOf_ofStill {fps : τ} (j : Job) (s : Still τ π)
    (hi : ∀ i ∈ s.graph.inputs, ∃ kind, i.options = Compile.inputOptions fps kind)
    (hs : s.video.IsOutput) :
    valuesOf "-map" (ofStill j s).arguments = [s.video.bracketed] ∧
      valuesOf "-filter_complex" (ofStill j s).arguments =
        [(s.graph.map Filter.invocation).text] := by
  have hm : ∀ option ∈ ["-map", "-filter_complex"], valuesOf option (ofStill j s).arguments =
      valuesOf option ("-filter_complex" :: (s.graph.map Filter.invocation).text ::
        (s.video.kept ++ ["-frames:v", "1", j.output.text])) := by
    intro option ho
    rw [ofStill, List.append_assoc]
    exact valuesOf_graphOptions j hi ho _
  rw [hm _ (by simp), hm _ (by simp)]
  simp [valuesOf, StandsAlone, Pad.kept, hs.mapLabel_eq]

end Plan
end Montage
