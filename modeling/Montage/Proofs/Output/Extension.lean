import Montage.Cli.Run
import Montage.Proofs.Sheet.Words

/-!
# Extensions of films

The path of a film that is named after its document, and the format that it is written in.

**Input.** The path of a document, and a configuration that names a format.

**Algorithm.** The extension of a path is what follows the last point of its last name. Another
extension is put in its place, behind the same stem and in the same folder. The format of the film
is then read off the new path.

**Results.**
* `Path.stem?_withExtension`, `Path.extension?_withExtension`: a path with another extension has
  that extension and the old stem.
* `Cli.carryOut_derived`: a film without a path and a format of its own has the configured extension,
  and the format that this extension tells.
* `Cli.format_lost`: that need not be the configured format.
-/

namespace Montage

/-! ### Names in folders -/

namespace Text

theorem splitAll_concat {sep : Char} {w : List Char} (h : sep ∉ w) (cs : List Char) :
    splitAll sep (cs ++ sep :: w) = splitAll sep cs ++ [w] := by
  induction cs with
  | nil => simp [splitAll, splitAll_of_notMem h]
  | cons c cs ih =>
      rw [List.cons_append, splitAll, splitAll, ih]
      by_cases hc : c = sep
      · rw [if_pos hc, if_pos hc, List.cons_append]
      · rw [if_neg hc, if_neg hc]
        cases hall : splitAll sep cs with
        | nil => exact absurd hall (splitAll_ne_nil sep cs)
        | cons v ws => rfl

end Text

namespace Path

/-- A text that a name can follow in a path: the empty one, or one that ends with a slash. -/
def IsFolder (front : List Char) : Prop :=
  front = [] ∨ ∃ names, front = names ++ ['/']

/-- A name in a folder that is no step within the tree of files. -/
structure IsName (name : List Char) : Prop where
  ne_nil : name ≠ []
  ne_dot : name ≠ ['.']
  ne_dots : name ≠ ['.', '.']
  no_slash : '/' ∉ name

theorem IsFolder.append {front : List Char} (h : IsFolder front) (w : List Char) :
    IsFolder (w ++ '/' :: front) := by
  rcases h with rfl | ⟨names, rfl⟩
  · exact .inr ⟨w, rfl⟩
  · exact .inr ⟨w ++ '/' :: names, by simp⟩

/-- A piece of a text stands in a folder. -/
theorem stands_of_mem_piecesFrom {cs : List Char} {start : Nat} {piece : Piece}
    (h : piece ∈ piecesFrom start (Text.splitAll '/' cs)) :
    '/' ∉ piece.name ∧ ∃ front back, IsFolder front ∧ cs = front ++ piece.name ++ back ∧
      piece.stop = start + front.length + piece.name.length := by
  -- The text is cut at its first slash.
  induction hn : cs.length using Nat.strongRecOn generalizing cs start with
  | _ n ih =>
  by_cases hslash : '/' ∈ cs
  · obtain ⟨w, rest, rfl, hw⟩ := List.eq_append_cons_of_mem hslash
    rw [Text.splitAll_append hw, piecesFrom] at h
    rcases List.mem_cons.1 h with rfl | h
    · exact ⟨hw, [], '/' :: rest, .inl rfl, by simp, by simp⟩
    · obtain ⟨hfree, front, back, hfront, hrest, hstop⟩ :=
        ih rest.length (by rw [← hn]; simp; omega) h rfl
      refine ⟨hfree, w ++ '/' :: front, back, hfront.append w, by simp [hrest], ?_⟩
      rw [hstop, List.length_append, List.length_cons]
      omega
  · rw [Text.splitAll_of_notMem hslash, piecesFrom, piecesFrom, List.mem_singleton] at h
    subst h
    exact ⟨hslash, [], [], .inl rfl, by simp, by simp⟩

theorem exists_piecesFrom_concat (start : Nat) (names : List (List Char)) (w : List Char) :
    ∃ stop, piecesFrom start (names ++ [w]) = piecesFrom start names ++ [⟨w, stop⟩] := by
  induction names generalizing start with
  | nil => exact ⟨_, rfl⟩
  | cons name names ih =>
      obtain ⟨stop, hstop⟩ := ih (start + name.length + 1)
      exact ⟨stop, by rw [List.cons_append, piecesFrom, piecesFrom, hstop, List.cons_append]⟩

variable {p : Path} {front name : List Char}

/-- The name at the end of a path is its file name. -/
theorem exists_fileName? (hfront : IsFolder front) (hname : IsName name)
    (h : p.text.toList = front ++ name) : ∃ stop, p.fileName? = some ⟨name, stop⟩ := by
  have hsplit : ∃ names, Text.splitAll '/' p.text.toList = names ++ [name] := by
    rw [h]
    rcases hfront with rfl | ⟨names, rfl⟩
    · exact ⟨[], Text.splitAll_of_notMem hname.no_slash⟩
    · refine ⟨Text.splitAll '/' names, ?_⟩
      rw [List.append_assoc, List.singleton_append, Text.splitAll_concat hname.no_slash]
  obtain ⟨names, hsplit⟩ := hsplit
  obtain ⟨stop, hpieces⟩ := exists_piecesFrom_concat 0 names name
  refine ⟨stop, ?_⟩
  rw [fileName?, pieces, hsplit, hpieces, List.filter_append]
  simp [hname.ne_nil, hname.ne_dot, hname.ne_dots]

/-- A file name stands in a folder of the path. -/
theorem stands_of_fileName? {piece : Piece} (h : p.fileName? = some piece) :
    IsName piece.name ∧ ∃ front back, IsFolder front ∧
      p.text.toList = front ++ piece.name ++ back ∧
      piece.stop = front.length + piece.name.length := by
  obtain ⟨hlast, hsteps⟩ := Option.filter_eq_some_iff.1 h
  obtain ⟨hmem, hcounts⟩ := List.mem_filter.1 (List.mem_of_getLast? hlast)
  obtain ⟨hfree, front, back, hfront, htext, hstop⟩ := stands_of_mem_piecesFrom hmem
  simp only [Bool.and_eq_true, bne_iff_ne] at hsteps
  simp only [Bool.and_eq_true, Bool.not_eq_true', List.isEmpty_eq_false_iff] at hcounts
  exact ⟨⟨hcounts.1, hsteps.2, hsteps.1, hfree⟩, front, back, hfront, htext, by omega⟩

/-! ### Stems and extensions -/

/-- The last component without its extension. -/
def stem? (p : Path) : Option String :=
  p.fileName?.map fun piece => String.ofList (stemAndExtension piece.name).1

theorem stemAndExtension_append {stem extension : List Char} (hs : stem ≠ [])
    (he : '.' ∉ extension) :
    stemAndExtension (stem ++ '.' :: extension) = (stem, some extension) := by
  rw [stemAndExtension, Text.splitLast?_append stem he]
  cases stem with
  | nil => exact absurd rfl hs
  | cons c cs => rfl

/-- A name begins with its stem. -/
theorem exists_stem_append (hname : name ≠ []) :
    (stemAndExtension name).1 ≠ [] ∧ ∃ rest, name = (stemAndExtension name).1 ++ rest := by
  unfold stemAndExtension
  split
  · exact ⟨hname, [], (List.append_nil name).symm⟩
  · next stem extension hstem h =>
      obtain ⟨hname, -⟩ := Text.splitLast?_eq_some h
      exact ⟨hstem, _, hname⟩
  · exact ⟨hname, [], (List.append_nil name).symm⟩

theorem IsName.extended {stem extension : List Char} (hs : stem ≠ []) (hfree : '/' ∉ stem)
    (he : extension ≠ []) (hslash : '/' ∉ extension) : IsName (stem ++ '.' :: extension) := by
  have hlength : 3 ≤ (stem ++ '.' :: extension).length := by
    rw [List.length_append, List.length_cons]
    have := List.length_pos_iff.2 hs
    have := List.length_pos_iff.2 he
    omega
  refine ⟨?_, ?_, ?_, ?_⟩
  · rintro h
    rw [h] at hlength
    cases hlength
  · rintro h
    rw [h] at hlength
    simp at hlength
  · rintro h
    rw [h] at hlength
    simp at hlength
  · simp [hfree, hslash]

variable {extension : String}

/-- A path with another extension ends with that extension, behind the stem of its file name. -/
theorem exists_fileName?_withExtension (he : extension ≠ "") (hslash : '/' ∉ extension.toList)
    {piece : Piece} (h : p.fileName? = some piece) :
    ∃ stop, (p.withExtension extension).fileName? =
      some ⟨(stemAndExtension piece.name).1 ++ '.' :: extension.toList, stop⟩ := by
  obtain ⟨hname, front, back, hfront, htext, hstop⟩ := stands_of_fileName? h
  obtain ⟨hstem, rest, hrest⟩ := exists_stem_append hname.ne_nil
  have hlength : piece.name.length = (stemAndExtension piece.name).1.length + rest.length := by
    rw [← List.length_append, ← hrest]
  have hfree : '/' ∉ (stemAndExtension piece.name).1 := by
    intro hmem
    exact hname.no_slash (hrest ▸ List.mem_append_left rest hmem)
  have htake : p.text.toList.take
      (piece.stop - (piece.name.length - (stemAndExtension piece.name).1.length)) =
        front ++ (stemAndExtension piece.name).1 := by
    have hsplit : p.text.toList =
        (front ++ (stemAndExtension piece.name).1) ++ (rest ++ back) := by
      rw [htext, List.append_assoc front, List.append_assoc front, ← List.append_assoc _ rest,
        ← hrest]
    rw [hsplit]
    refine List.take_left' ?_
    rw [List.length_append]
    omega
  have hempty : extension.isEmpty = false := by
    rw [String.isEmpty_eq_false_iff]
    exact he
  refine exists_fileName? hfront (.extended hstem hfree ?_ hslash) ?_
  · exact fun hnil => he (String.toList_eq_nil_iff.1 hnil)
  · rw [withExtension, h]
    simp [htake, hempty]

theorem stem?_withExtension (he : extension ≠ "") (hslash : '/' ∉ extension.toList)
    (hdot : '.' ∉ extension.toList) : (p.withExtension extension).stem? = p.stem? := by
  cases h : p.fileName? with
  | none => rw [withExtension, h]
  | some piece =>
      have hstem := (exists_stem_append (stands_of_fileName? h).1.ne_nil).1
      obtain ⟨stop, hname⟩ := exists_fileName?_withExtension he hslash h
      rw [stem?, stem?, hname, h, Option.map_some, Option.map_some,
        stemAndExtension_append hstem hdot]

theorem extension?_withExtension (he : extension ≠ "") (hslash : '/' ∉ extension.toList)
    (hdot : '.' ∉ extension.toList) {stem : String} (h : p.stem? = some stem) :
    (p.withExtension extension).extension? = some extension := by
  obtain ⟨piece, hpiece, -⟩ := Option.map_eq_some_iff.1 h
  have hstem := (exists_stem_append (stands_of_fileName? hpiece).1.ne_nil).1
  obtain ⟨stop, hname⟩ := exists_fileName?_withExtension he hslash hpiece
  rw [extension?, hname, Option.bind_some, stemAndExtension_append hstem hdot, Option.map_some,
    String.ofList_toList]

/-- A path without a file name is as it was. -/
theorem withExtension_of_stem? (h : p.stem? = none) : p.withExtension extension = p := by
  rw [withExtension, Option.map_eq_none_iff.1 h]

end Path

/-! ### Formats of films -/

namespace FileFormat

/-- The format that the extension of files in a format tells. -/
def guessed : FileFormat → FileFormat
  | mp4h265 => mp4h264
  | f => f

theorem ofPath?_extension {p : Path} {f : FileFormat} (h : p.extension? = some f.extension) :
    ofPath? p = some f.guessed := by
  rw [ofPath?, h, Option.bind_some]
  cases f <;> decide +kernel

theorem guessed_eq_self_iff {f : FileFormat} : f.guessed = f ↔ f ≠ mp4h265 := by
  cases f <;> decide

theorem isExtension (f : FileFormat) :
    f.extension ≠ "" ∧ '/' ∉ f.extension.toList ∧ '.' ∉ f.extension.toList := by
  cases f <;> decide +kernel

end FileFormat

namespace Cli

variable {config : Config} {defaults : RenderDefaults} {format told : FileFormat} {document : Path}

/-- A film that is named after its document has the format that its path tells. -/
theorem filmJob_derived (h : FileFormat.ofName? defaults.format = some format)
    (htold : Job.formatOf (document.withExtension format.extension) defaults = .ok told)
    (overwrite dryRun : Bool) :
    ∃ job, filmJob defaults document none none overwrite dryRun = .ok job ∧
      job.output = document.withExtension format.extension ∧ job.format = told := by
  let job : Job := ⟨document.withExtension format.extension, told, overwrite, dryRun,
    defaults.sampleRate, defaults.videoBitrate, defaults.audioBitrate, defaults.renderer⟩
  have houtput : outputPath defaults document none none =
      .ok (document.withExtension format.extension) := by
    rw [outputPath, formatOfName, h]
    rfl
  have hjob : Job.ofDefaults (document.withExtension format.extension) defaults =
      .ok { job with overwrite := false, dryRun := false } := by
    rw [Job.ofDefaults, htold]
    rfl
  refine ⟨job, ?_, rfl, rfl⟩
  simp only [filmJob, Option.mapM_none, pure, Except.pure, bind, Except.bind, houtput, hjob,
    Except.mapError]
  rfl

/-- A film without a path and a format of its own has the stem of its document, the configured
extension, and the format that this extension tells: the configured format is lost if it shares its
extension with another. -/
theorem carryOut_derived (h : FileFormat.ofName? config.render.format = some format)
    (document : Path) (overwrite dryRun : Bool) :
    ∃ job, filmJob config.render document none none overwrite dryRun = .ok job ∧
      (∀ (m : Type → Type) [Monad m] [LawfulMonad m] [Host m],
        (carryOut config (.render document none none overwrite dryRun) : Action m Unit) =
          render config document job) ∧
      (∀ stem, document.stem? = some stem → job.output.stem? = some stem ∧
        job.output.extension? = some format.extension ∧ job.format = format.guessed) ∧
      (document.stem? = none → job.output = document ∧ job.format = format) ∧
      (job.format = format ↔ format ≠ .mp4h265 ∨ document.stem? = none) := by
  have hcarry : ∀ job, filmJob config.render document none none overwrite dryRun = .ok job →
      ∀ (m : Type → Type) [Monad m] [LawfulMonad m] [Host m],
        (carryOut config (.render document none none overwrite dryRun) : Action m Unit) =
          render config document job := by
    intro job hjob m _ _ _
    rw [carryOut, hjob]
    exact pure_bind job (render config document : Job → Action m Unit)
  obtain ⟨hempty, hslash, hdot⟩ := format.isExtension
  cases hstem : document.stem? with
  | some stem =>
      have hextension := Path.extension?_withExtension hempty hslash hdot hstem
      have htold : Job.formatOf (document.withExtension format.extension) config.render =
          .ok format.guessed := by
        rw [Job.formatOf, FileFormat.ofPath?_extension hextension]
      obtain ⟨job, hjob, houtput, hformat⟩ := filmJob_derived h htold overwrite dryRun
      refine ⟨job, hjob, hcarry job hjob, ?_, nofun, ?_⟩
      · rintro _ ⟨⟩
        rw [houtput, Path.stem?_withExtension hempty hslash hdot, hstem]
        exact ⟨rfl, hextension, hformat⟩
      · rw [hformat, FileFormat.guessed_eq_self_iff]
        simp
  | none =>
      have hsame : document.withExtension format.extension = document :=
        Path.withExtension_of_stem? hstem
      have htold : Job.formatOf (document.withExtension format.extension) config.render =
          .ok format := by
        have hnone : document.extension? = none := by
          rw [Path.extension?, Option.map_eq_none_iff.1 hstem]
          rfl
        rw [hsame, Job.formatOf, FileFormat.ofPath?, hnone, Option.bind_none, h]
      obtain ⟨job, hjob, houtput, hformat⟩ := filmJob_derived h htold overwrite dryRun
      exact ⟨job, hjob, hcarry job hjob, nofun, fun _ => ⟨houtput.trans hsame, hformat⟩,
        iff_of_true hformat (.inr rfl)⟩

/-- A configuration that names the given format. -/
def configured (format : String) : Config :=
  { Config.standard with render := { RenderDefaults.standard with format } }

theorem carryOut_derived_talk : ∃ job,
    filmJob (configured " HEVC").render ⟨"talks/talk.vsml"⟩ none none true false = .ok job ∧
      job.output.stem? = some "talk" ∧ job.output.extension? = some "mp4" ∧
      job.format = .mp4h264 := by
  have hname : FileFormat.ofName? (configured " HEVC").render.format = some .mp4h265 := by
    decide +kernel
  obtain ⟨job, hjob, -, hnamed, -⟩ := carryOut_derived hname ⟨"talks/talk.vsml"⟩ true false
  obtain ⟨hstem, hextension, hformat⟩ := hnamed "talk" (by decide +kernel)
  exact ⟨job, hjob, hstem, hextension, hformat⟩

/-- The configured format need not be that of a film which is named after its document. -/
theorem format_lost : ¬ ∀ (config : Config) (format : FileFormat) (document : Path)
    (overwrite dryRun : Bool), FileFormat.ofName? config.render.format = some format →
      ∃ job, filmJob config.render document none none overwrite dryRun = .ok job ∧
        job.output.extension? = some format.extension ∧ job.format = format := by
  intro hkept
  have hname : FileFormat.ofName? (configured "mp4-h265").render.format = some .mp4h265 := by
    decide +kernel
  have hlost : (filmJob (configured "mp4-h265").render ⟨"talk.vsml"⟩ none none true false).map
      Job.format = .ok .mp4h264 := by
    decide +kernel
  obtain ⟨job, hjob, -, hformat⟩ := hkept _ _ ⟨"talk.vsml"⟩ true false hname
  rw [hjob, Except.map, hformat] at hlost
  cases hlost

end Cli
end Montage
