import Montage.Markup.Document
import Montage.Proofs.Lists
import Montage.Proofs.Markup.Schema

/-!
# The schema of documents

A document is read if and only if its elements follow the schema, and it says what they say.

**Input.** An element tree, and the texts of files.

**Algorithm.** The parts of a document are heads with style elements, and the content element behind
them. Each reader of a part succeeds exactly where the part follows the schema (`IsHead`, `IsBody`).

**Results.**
* `partsOfElements_eq_ok`, `frameOfElement_eq_ok`: what the readers of the parts accept.
* `Document.ofElement_iff`: an element tree is a document if and only if it follows the schema, and the
  document reflects it.
-/

namespace Montage

/-- The text of a frame size: two positive counts of 32 bits around its first `x`. -/
def Resolution.IsText (r : Resolution) (text : String) : Prop :=
  ∃ w h, Text.trim text.toList = w ++ 'x' :: h ∧ 'x' ∉ w ∧
    Decimal.parseCount? UInt32.size (Text.trim w) = some r.width ∧ 0 < r.width ∧
    Decimal.parseCount? UInt32.size (Text.trim h) = some r.height ∧ 0 < r.height

theorem Resolution.parse_eq_ok {text : String} {r : Resolution} :
    Resolution.parse text = .ok r ↔ r.IsText text := by
  unfold Resolution.parse
  dsimp only
  constructor
  · intro h
    split at h
    · next sides hsides =>
        obtain rfl := Except.ok.inj h
        simp only [Option.bind_eq_bind, Option.bind_eq_some_iff] at hsides
        obtain ⟨⟨w, v⟩, hcut, width, hwidth, height, hheight, hpos⟩ := hsides
        obtain ⟨htrim, hx⟩ := Text.splitFirst?_eq_some hcut
        split at hpos
        · exact absurd hpos (by simp)
        · next hzero =>
            obtain rfl := Option.some.inj hpos
            obtain ⟨hw, hh⟩ := not_or.1 hzero
            exact ⟨w, v, htrim, hx, hwidth, Nat.pos_of_ne_zero hw, hheight, Nat.pos_of_ne_zero hh⟩
    · cases h
  · rintro ⟨w, v, htrim, hx, hwidth, hw, hheight, hh⟩
    have hzero : ¬(r.width = 0 ∨ r.height = 0) := by omega
    rw [htrim, Text.splitFirst?_append hx]
    simp only [Option.bind_eq_bind, Option.bind_some, hwidth, hheight, if_neg hzero]

namespace Document

open Markup

variable {τ : Type} [Timescale τ]

/-- The text of a frame rate: a number that is real and positive. -/
def IsRate (fps : τ) (text : String) : Prop :=
  ∃ literal, Decimal.Literal.parse? (Text.trim text.toList) = some literal ∧
    Timescale.ofLiteral? literal = some fps ∧ 0 < fps

theorem frameRate?_eq_some {text : String} {fps : τ} :
    frameRate? text = some fps ↔ IsRate fps text := by
  unfold frameRate? IsRate
  simp only [Option.bind_eq_bind, Option.bind_eq_some_iff]
  refine exists_congr fun literal => and_congr Iff.rfl ⟨?_, ?_⟩
  · rintro ⟨rate, hrate, hpos⟩
    split at hpos
    · next hlt =>
        obtain rfl := Option.some.inj hpos
        exact ⟨hrate, hlt⟩
    · exact absurd hpos (by simp)
  · rintro ⟨hrate, hlt⟩
    exact ⟨fps, hrate, if_pos hlt⟩

/-- What a style element says: the text of the file that it names, or else its own text. -/
inductive HoldsText (files : FileTexts) (baseDir : Path) (e : Element) : String → Prop
  | file {source text : String} (hsource : e.attribute? "src" = some source) (hne : source ≠ "")
      (hfile : files (baseDir.join source) = .ok text) : HoldsText files baseDir e text
  | own (hsource : ∀ source, e.attribute? "src" = some source → source = "") :
      HoldsText files baseDir e (String.join e.texts)

/-- A style element and its sheet. -/
def HoldsSheet (files : FileTexts) (baseDir : Path) (e : Element) (sheet : StyleSheet) : Prop :=
  e.name = "style" ∧ ∃ text, HoldsText files baseDir e text ∧ StyleSheet.parse text = .ok sheet

/-- An element in front of the content: it holds style elements with sheets that can be read. -/
structure IsHead (files : FileTexts) (baseDir : Path) (e : Element) : Prop where
  name : e.name = "meta"
  blank : ∀ s ∈ e.texts, IsBlank s
  sheets : ∀ s ∈ e.elements, ∃ sheet, HoldsSheet files baseDir s sheet

/-- The content element with the frame that it names. -/
structure IsBody (e : Element) (frame : Frame τ) : Prop where
  name : e.name = "cont"
  resolution : ∃ text, e.attribute? "resolution" = some text ∧ frame.resolution.IsText text
  fps : ∃ text, e.attribute? "fps" = some text ∧ IsRate frame.fps text
  content : IsContent e

/-- The schema of documents. -/
inductive FollowsSchema (τ : Type) [Timescale τ] (files : FileTexts) (baseDir : Path) : Element → Prop
  | intro {root body : Element} {heads : List Element} (hname : root.name = "vsml")
      (hblank : ∀ s ∈ root.texts, IsBlank s) (helements : root.elements = heads ++ [body])
      (hheads : ∀ e ∈ heads, IsHead files baseDir e)
      (hbody : ∃ frame : Frame τ, IsBody body frame) : FollowsSchema τ files baseDir root

/-- A document that says what an element tree says: the sheets of the style elements one after another,
the frame of the content element, and the nodes of its elements. -/
inductive Reflects (files : FileTexts) (baseDir : Path) : Element → Document τ → Prop
  | intro {root body : Element} {heads : List Element} {sheets : List StyleSheet} {frame : Frame τ}
      {node : Node} (helements : root.elements = heads ++ [body])
      (hsheets : List.Forall₂ (HoldsSheet files baseDir) (heads.flatMap Element.elements) sheets)
      (hbody : IsBody body frame) (hnode : Mirrors body node) :
      Reflects files baseDir root ⟨baseDir, frame, ⟨sheets.flatMap StyleSheet.rules⟩, node⟩

/-! ### The parts of a document -/

theorem mapError_eq_ok {ε ε' α : Type} {f : ε → ε'} {x : Except ε α} {a : α} :
    x.mapError f = .ok a ↔ x = .ok a := by
  cases x <;> simp [Except.mapError]

section

variable {files : FileTexts} {baseDir : Path} {e : Element} {es : List Element} {sheet : StyleSheet}

theorem sheetSource?_eq_some {source : String} :
    sheetSource? e = some source ↔ e.attribute? "src" = some source ∧ source ≠ "" := by
  rw [sheetSource?, Option.filter_eq_some_iff]
  simp

theorem sheetSource?_eq_none :
    sheetSource? e = none ↔ ∀ source, e.attribute? "src" = some source → source = "" := by
  rw [sheetSource?, Option.filter_eq_none_iff]
  simp

/-- The sheet of a style element is read from the one text that the element has. -/
theorem sheetOfElement_eq_ok : sheetOfElement files baseDir e = .ok sheet ↔
    ∃ text, HoldsText files baseDir e text ∧ StyleSheet.parse text = .ok sheet := by
  rw [sheetOfElement]
  cases hsource : sheetSource? e with
  | none =>
      have hown := sheetSource?_eq_none.1 hsource
      simp only [bind_eq_ok, mapError_eq_ok]
      refine exists_congr fun text => and_congr ⟨fun h => ?_, ?_⟩ Iff.rfl
      · obtain rfl := Except.ok.inj h
        exact .own hown
      · rintro (⟨hsome, hne, -⟩ | -)
        · exact absurd (hown _ hsome) hne
        · rfl
  | some source =>
      obtain ⟨hsome, hne⟩ := sheetSource?_eq_some.1 hsource
      simp only [bind_eq_ok, mapError_eq_ok]
      refine exists_congr fun text => and_congr ⟨fun h => .file hsome hne h, ?_⟩ Iff.rfl
      rintro (⟨hsome', -, hfile⟩ | hown)
      · obtain rfl := Option.some.inj (hsome.symm.trans hsome')
        exact hfile
      · exact absurd (hown source hsome) hne

theorem sheetOfElements_eq_ok : sheetOfElements files baseDir es = .ok sheet ↔
    ∃ sheets, List.Forall₂ (HoldsSheet files baseDir) es sheets ∧
      sheet = ⟨sheets.flatMap StyleSheet.rules⟩ := by
  induction es generalizing sheet with
  | nil =>
      constructor
      · exact fun h => ⟨[], .nil, (Except.ok.inj h).symm⟩
      · rintro ⟨sheets, hsheets, rfl⟩
        cases hsheets
        rfl
  | cons e es ih =>
      rw [sheetOfElements]
      split
      · next hname =>
          simp only [bind_eq_ok, ih, sheetOfElement_eq_ok]
          constructor
          · rintro ⟨first, hfirst, _, ⟨sheets, hsheets, rfl⟩, h⟩
            exact ⟨first :: sheets, .cons ⟨hname, hfirst⟩ hsheets, (Except.ok.inj h).symm⟩
          · rintro ⟨sheets, hsheets, rfl⟩
            cases hsheets with
            | cons hfirst hsheets => exact ⟨_, hfirst.2, _, ⟨_, hsheets, rfl⟩, rfl⟩
      · next hname =>
          refine iff_of_false (by simp) ?_
          rintro ⟨sheets, hsheets, rfl⟩
          cases hsheets with
          | cons hfirst hsheets => exact hname hfirst.1

/-- Heads whose style elements hold the rules of a sheet, and the content behind them. -/
def HasParts (files : FileTexts) (baseDir : Path) (es : List Element) (sheet : StyleSheet)
    (body : Element) : Prop :=
  ∃ heads sheets, es = heads ++ [body] ∧
    (∀ e ∈ heads, e.name = "meta" ∧ ∀ s ∈ e.texts, IsBlank s) ∧
    List.Forall₂ (HoldsSheet files baseDir) (heads.flatMap Element.elements) sheets ∧
    sheet = ⟨sheets.flatMap StyleSheet.rules⟩ ∧ body.name = "cont"

variable {body : Element}

theorem hasParts_head (hname : e.name = "meta") : HasParts files baseDir (e :: es) sheet body ↔
    (∀ s ∈ e.texts, IsBlank s) ∧ ∃ first others,
      sheetOfElements files baseDir e.elements = .ok first ∧ HasParts files baseDir es others body ∧
        first ++ others = sheet := by
  simp only [sheetOfElements_eq_ok]
  constructor
  · rintro ⟨_ | ⟨head, heads⟩, sheets, hes, hheads, hsheets, rfl, hbody⟩
    · obtain ⟨rfl, -⟩ := List.cons.inj hes
      exact absurd (hname.symm.trans hbody) (by decide)
    · obtain ⟨rfl, rfl⟩ := List.cons.inj hes
      obtain ⟨hhead, hheads⟩ := List.forall_mem_cons.1 hheads
      rw [List.flatMap_cons] at hsheets
      obtain ⟨first, others, rfl, hfirst, hothers⟩ := forall₂_append_left hsheets
      refine ⟨hhead.2, _, _, ⟨first, hfirst, rfl⟩, ⟨heads, others, rfl, hheads, hothers, rfl, hbody⟩, ?_⟩
      rw [List.flatMap_append]
      rfl
  · rintro ⟨hblank, _, _, ⟨first, hfirst, rfl⟩, ⟨heads, others, rfl, hheads, hothers, rfl, hbody⟩, rfl⟩
    refine ⟨e :: heads, first ++ others, rfl, List.forall_mem_cons.2 ⟨⟨hname, hblank⟩, hheads⟩, ?_, ?_,
      hbody⟩
    · rw [List.flatMap_cons]
      exact List.rel_append hfirst hothers
    · rw [List.flatMap_append]
      rfl

/-- What is no head is the content, and nothing follows it. -/
theorem hasParts_body (hname : e.name ≠ "meta") : HasParts files baseDir (e :: es) sheet body ↔
    e.name = "cont" ∧ es = [] ∧ .empty = sheet ∧ e = body := by
  constructor
  · rintro ⟨_ | ⟨head, heads⟩, sheets, hes, hheads, hsheets, rfl, hbody⟩
    · obtain ⟨rfl, rfl⟩ := List.cons.inj hes
      cases hsheets
      exact ⟨hbody, rfl, rfl, rfl⟩
    · obtain ⟨rfl, -⟩ := List.cons.inj hes
      exact absurd (hheads e List.mem_cons_self).1 hname
  · rintro ⟨hbody, rfl, rfl, rfl⟩
    exact ⟨[], [], rfl, by simp, .nil, rfl, hbody⟩

/-- The parts of a document are heads, and the content behind them. -/
theorem partsOfElements_eq_ok :
    partsOfElements files baseDir es = .ok (sheet, body) ↔ HasParts files baseDir es sheet body := by
  induction es generalizing sheet with
  | nil => simp [partsOfElements, HasParts]
  | cons e es ih =>
      rw [partsOfElements.eq_def]
      dsimp only
      split
      · next hname =>
          simp only [bind_eq_ok, mapError_eq_ok, hasParts_head hname, ← ih, Prod.exists,
            Except.ok.injEq, Prod.mk.injEq]
          constructor
          · rintro ⟨_, hblank, first, hfirst, others, _, hparts, hsheet, rfl⟩
            exact ⟨rejectText_eq_ok.1 hblank, first, others, hfirst, hparts, hsheet⟩
          · rintro ⟨hblank, first, others, hfirst, hparts, hsheet⟩
            exact ⟨(), rejectText_eq_ok.2 hblank, first, hfirst, others, body, hparts, hsheet, rfl⟩
      · next hname =>
          rw [hasParts_body hname]
          split
          · next hcont => cases es <;> simp [hcont]
          · next hcont => simp [hcont]

end

/-- The readers of the frame accept a size and a rate. -/
theorem frameOfElement_eq_ok {e : Element} {frame : Frame τ} :
    frameOfElement e = .ok frame ↔
      (∃ text, e.attribute? "resolution" = some text ∧ frame.resolution.IsText text) ∧
        ∃ text, e.attribute? "fps" = some text ∧ IsRate frame.fps text := by
  rw [frameOfElement]
  cases e.attribute? "resolution" with
  | none => simp
  | some size =>
      simp only [Option.some.injEq, exists_eq_left', ← Resolution.parse_eq_ok]
      cases hsize : Resolution.parse size with
      | error error => simp
      | ok resolution =>
          cases e.attribute? "fps" with
          | none => simp
          | some rate =>
              simp only [Option.some.injEq, exists_eq_left', ← frameRate?_eq_some, Except.ok.injEq]
              cases hrate : (frameRate? rate : Option τ) with
              | none => simp
              | some fps =>
                  constructor
                  · intro h
                    obtain rfl := Except.ok.inj h
                    exact ⟨rfl, rfl⟩
                  · rintro ⟨rfl, hfps⟩
                    obtain rfl := Option.some.inj hfps
                    rfl

theorem ofElement_eq_ok {files : FileTexts} {baseDir : Path} {root : Element} {d : Document τ} :
    ofElement files baseDir root = .ok d ↔
      root.name = "vsml" ∧ root.rejectText = .ok () ∧
        ∃ sheet body frame node, partsOfElements files baseDir root.elements = .ok (sheet, body) ∧
          frameOfElement body = .ok frame ∧ Node.ofElement body = .ok node ∧
          d = ⟨baseDir, frame, sheet, node⟩ := by
  rw [ofElement]
  split
  · next hname =>
      simp only [bind_eq_ok, mapError_eq_ok]
      constructor
      · rintro ⟨_, htexts, ⟨sheet, body⟩, hparts, frame, hframe, node, hnode, h⟩
        exact ⟨hname, htexts, sheet, body, frame, node, hparts, hframe, hnode,
          (Except.ok.inj h).symm⟩
      · rintro ⟨-, htexts, sheet, body, frame, node, hparts, hframe, hnode, rfl⟩
        exact ⟨(), htexts, (sheet, body), hparts, frame, hframe, node, hnode, rfl⟩
  · next hname => simp [hname]

/-- What is read of an element tree follows the schema and says what the tree says. -/
theorem sound_of_ofElement {files : FileTexts} {baseDir : Path} {root : Element} {d : Document τ}
    (h : ofElement files baseDir root = .ok d) :
    FollowsSchema τ files baseDir root ∧ Reflects files baseDir root d := by
  obtain ⟨hname, htexts, sheet, body, frame, node, hparts, hframe, hnode, rfl⟩ := ofElement_eq_ok.1 h
  obtain ⟨heads, sheets, helements, hheads, hsheets, rfl, hcont⟩ := partsOfElements_eq_ok.1 hparts
  obtain ⟨hcontent, hmirrors⟩ := sound_of_nodeOfElement body hnode
  obtain ⟨hsize, hrate⟩ := frameOfElement_eq_ok.1 hframe
  have hbody : IsBody body frame := ⟨hcont, hsize, hrate, hcontent⟩
  have hhead : ∀ e ∈ heads, IsHead files baseDir e := by
    intro e he
    exact ⟨(hheads e he).1, (hheads e he).2, fun s hs =>
      exists_forall₂_iff.1 ⟨sheets, hsheets⟩ s (List.mem_flatMap.2 ⟨e, he, hs⟩)⟩
  exact ⟨.intro hname (rejectText_eq_ok.1 htexts) helements hhead ⟨frame, hbody⟩,
    .intro helements hsheets hbody hmirrors⟩

/-- An element tree is a document if and only if it follows the schema, and the document reflects it. -/
theorem ofElement_iff (files : FileTexts) (baseDir : Path) (root : Element) :
    ((∃ d : Document τ, ofElement files baseDir root = .ok d) ↔
        FollowsSchema τ files baseDir root) ∧
      (∀ d : Document τ, ofElement files baseDir root = .ok d → Reflects files baseDir root d) ∧
      ∀ text, Element.ofText text = .ok root →
        (parse files baseDir text : Except Failure (Document τ)) = ofElement files baseDir root := by
  refine ⟨⟨fun ⟨d, h⟩ => (sound_of_ofElement h).1, ?_⟩, fun d h => (sound_of_ofElement h).2, ?_⟩
  · rintro ⟨hname, hblank, helements, hheads, frame, hcont, hsize, hrate, hcontent⟩
    obtain ⟨node, hnode⟩ := hcontent.exists_node
    obtain ⟨sheets, hsheets⟩ := exists_forall₂_iff.2 fun s hs => by
      obtain ⟨e, he, hs⟩ := List.mem_flatMap.1 hs
      exact (hheads e he).sheets s hs
    exact ⟨_, ofElement_eq_ok.2 ⟨hname, rejectText_eq_ok.2 hblank, _, _, frame, node,
      partsOfElements_eq_ok.2 ⟨_, sheets, helements, fun e he => ⟨(hheads e he).name,
        (hheads e he).blank⟩, hsheets, rfl, hcont⟩,
      frameOfElement_eq_ok.2 ⟨hsize, hrate⟩, hnode, rfl⟩⟩
  · intro text htext
    rw [parse, htext]
    rfl

/-- A document with a sheet of its own and a text in a sequence. -/
def notice : String :=
  "<vsml><meta><style>txt\x7b\x7d</style></meta><cont resolution=\"9x9\" fps=\"1\"><seq>" ++
    "<txt>a<br/><![CDATA[<b>]]></txt></seq></cont></vsml>"

theorem exists_notice : ∃ d : Document Rat, parse (fun _ => .error "") ⟨""⟩ notice = .ok d := by
  have hsome : (parse (τ := Rat) (fun _ => .error "") ⟨""⟩ notice).toOption.isSome = true := by
    decide +kernel
  obtain ⟨d, hd⟩ := Option.isSome_iff_exists.1 hsome
  exact ⟨d, toOption_eq_some.1 hd⟩

theorem ofElement_iff_notice : ∃ root, Element.ofText notice = .ok root ∧
    FollowsSchema Rat (fun _ => .error "") ⟨""⟩ root ∧
    ∃ d : Document Rat, parse (fun _ => .error "") ⟨""⟩ notice = .ok d ∧
      Reflects (fun _ => .error "") ⟨""⟩ root d := by
  obtain ⟨d, hd⟩ := exists_notice
  obtain ⟨root, hroot, -⟩ := bind_eq_ok.1 hd
  have hroot := mapError_eq_ok.1 hroot
  obtain ⟨hiff, hreflects, hparse⟩ := ofElement_iff (τ := Rat) (fun _ => .error "") ⟨""⟩ root
  have hok := (hparse notice hroot).symm.trans hd
  exact ⟨root, hroot, hiff.1 ⟨d, hok⟩, d, hd, hreflects d hok⟩

end Document
end Montage
