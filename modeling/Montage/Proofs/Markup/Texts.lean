import Montage.Proofs.Markup.Documents

/-!
# Where text may stand

What becomes of the text between the tags of a document that is read.

**Input.** The events of a document text.

**Algorithm.** Every text is taken with the elements that are open around it. The tree of the document
has the same texts inside the same elements, since the assembly of the tree loses none of them but those
outside the root. The schema then says which elements can be around a text that is not blank.

**Results.**
* `placedTexts_ofEvents`: the texts of the events are the texts of the tree.
* `Document.lands_of_parse`: where the texts of a document stand, and where they go.
-/

namespace Montage
namespace Markup

/-- What opens an element: its name and its attributes. -/
structure Opening where
  name : String
  attributes : List (String × String)
  deriving Repr, DecidableEq

/-- The texts among events, each with what is open around it, the innermost first. -/
def placedTexts (open? : List Opening) : List Event → List (List Opening × String)
  | [] => []
  | .start name attributes :: es => placedTexts (⟨name, attributes⟩ :: open?) es
  | .stop :: es => placedTexts open?.tail es
  | .text s :: es => (open?, s) :: placedTexts open? es
  | _ :: es => placedTexts open? es

/-- What opens an element. -/
def Element.opening (e : Element) : Opening :=
  ⟨e.name, e.attributes⟩

mutual

/-- The texts in an element, each with what is open around it. -/
def Element.placedTexts (open? : List Opening) : Element → List (List Opening × String)
  | .mk name attributes children => textsOfContents (⟨name, attributes⟩ :: open?) children

/-- The texts in what an element holds. -/
def textsOfContents (open? : List Opening) : List Content → List (List Opening × String)
  | [] => []
  | .text s :: cs => (open?, s) :: textsOfContents open? cs
  | .element e :: cs => e.placedTexts open? ++ textsOfContents open? cs

end

/-! ### The assembly loses no text -/

theorem textsOfContents_append (open? : List Opening) (cs cs' : List Content) :
    textsOfContents open? (cs ++ cs') = textsOfContents open? cs ++ textsOfContents open? cs' := by
  induction cs with
  | nil => rfl
  | cons c cs ih =>
      cases c with
      | text s => rw [List.cons_append, textsOfContents, textsOfContents, ih, List.cons_append]
      | element e => rw [List.cons_append, textsOfContents, textsOfContents, ih, List.append_assoc]

/-- What the open elements of a stack open. -/
def openings (stack : List Element) : List Opening :=
  stack.map Element.opening

/-- The texts in open elements, those of the outermost first. -/
def textsOfStack : List Element → List (List Opening × String)
  | [] => []
  | e :: stack => textsOfStack stack ++ textsOfContents (openings (e :: stack)) e.children

/-- The texts in a tree that is being built. -/
def Assembly.texts (a : Assembly) : List (List Opening × String) :=
  (a.root.elim [] fun e => e.placedTexts []) ++ textsOfStack a.stack

/-- The texts that stand inside an element. -/
def textsInside (open? : List Opening) (es : List Event) : List (List Opening × String) :=
  (placedTexts open? es).filter fun t => !t.1.isEmpty

theorem textsOfStack_push (parent : Element) (stack : List Element) (c : Content) :
    textsOfStack (parent.push c :: stack) =
      textsOfStack (parent :: stack) ++ textsOfContents (openings (parent :: stack)) [c] := by
  have hopen : openings (parent.push c :: stack) = openings (parent :: stack) := rfl
  rw [textsOfStack, textsOfStack, hopen, List.append_assoc, ← textsOfContents_append]
  rfl

/-- A finished element takes its texts with it. -/
theorem texts_attach {a b : Assembly} {e : Element} (h : a.attach e = .ok b) :
    openings b.stack = openings a.stack ∧
      b.texts = a.texts ++ e.placedTexts (openings a.stack) := by
  obtain ⟨stack, root⟩ := a
  cases stack with
  | cons parent stack =>
      obtain rfl := Except.ok.inj h
      refine ⟨rfl, ?_⟩
      rw [Assembly.texts, textsOfStack_push, ← List.append_assoc, textsOfContents, textsOfContents,
        List.append_nil]
      rfl
  | nil =>
      cases root with
      | none =>
          obtain rfl := Except.ok.inj h
          exact ⟨rfl, List.append_nil _⟩
      | some root => cases h

/-- A step takes one event, and keeps the texts that are read and the texts that are left. -/
theorem texts_step {a b : Assembly} {event : Event} (h : a.step event = .ok b) (es : List Event) :
    b.texts ++ textsInside (openings b.stack) es =
      a.texts ++ textsInside (openings a.stack) (event :: es) := by
  cases event with
  | start name attributes =>
      obtain rfl := Except.ok.inj h
      have hnew : textsOfStack (.mk name attributes [] :: a.stack) = textsOfStack a.stack :=
        List.append_nil _
      rw [Assembly.texts, hnew]
      rfl
  | empty name attributes =>
      obtain ⟨hopen, htexts⟩ := texts_attach h
      have hnone : (Element.mk name attributes []).placedTexts (openings a.stack) = [] := rfl
      rw [hopen, htexts, hnone, List.append_nil]
      rfl
  | stop =>
      obtain ⟨stack, root⟩ := a
      cases stack with
      | nil => cases h
      | cons e stack =>
          obtain ⟨hopen, htexts⟩ := texts_attach h
          obtain ⟨name, attributes, children⟩ := e
          rw [hopen, htexts, Assembly.texts, Assembly.texts, textsOfStack]
          simp only [List.append_assoc]
          rfl
  | text s =>
      obtain ⟨stack, root⟩ := a
      cases stack with
      | nil =>
          obtain rfl := Except.ok.inj h
          rfl
      | cons parent stack =>
          obtain rfl := Except.ok.inj h
          have hopen : openings (parent.push (.text s) :: stack) = openings (parent :: stack) := rfl
          rw [Assembly.texts, Assembly.texts, textsOfStack_push, hopen]
          simp [textsOfContents, textsInside, placedTexts, openings]
  | ignored =>
      obtain rfl := Except.ok.inj h
      rfl
  | fault => cases h

theorem texts_run {a b : Assembly} {es : List Event} (h : es.foldlM Assembly.step a = .ok b) :
    b.texts = a.texts ++ textsInside (openings a.stack) es := by
  induction es generalizing a with
  | nil =>
      obtain rfl := Except.ok.inj h
      exact (List.append_nil _).symm
  | cons event es ih =>
      rw [List.foldlM_cons] at h
      obtain ⟨c, hc, h⟩ := bind_eq_ok.1 h
      rw [ih h, texts_step hc]

/-- The texts of the events are the texts of the tree, but for those outside the root. -/
theorem placedTexts_ofEvents {es : List Event} {root : Element} (h : Element.ofEvents es = .ok root) :
    textsInside [] es = root.placedTexts [] := by
  obtain ⟨a, ha, hroot⟩ := bind_eq_ok.1 h
  have htexts : a.texts = textsInside [] es := texts_run ha
  rw [← htexts]
  obtain ⟨stack, root?⟩ := a
  cases stack with
  | cons e stack => cases hroot
  | nil =>
      cases root? with
      | none => cases hroot
      | some e =>
          obtain rfl := Except.ok.inj hroot
          exact List.append_nil _

/-! ### Texts in the elements of a document -/

theorem mem_textsOfContents {open? : List Opening} {cs : List Content} {t : List Opening × String} :
    t ∈ textsOfContents open? cs ↔
      (∃ s, .text s ∈ cs ∧ t = (open?, s)) ∨ ∃ e, .element e ∈ cs ∧ t ∈ e.placedTexts open? := by
  induction cs with
  | nil => simp [textsOfContents]
  | cons c cs ih =>
      cases c with
      | text s =>
          rw [textsOfContents, List.mem_cons, ih]
          simp [or_and_right, exists_or, or_assoc]
      | element e =>
          rw [textsOfContents, List.mem_append, ih]
          simp [or_and_right, exists_or, or_left_comm]

theorem mem_placedTexts {open? : List Opening} {e : Element} {t : List Opening × String} :
    t ∈ e.placedTexts open? ↔
      (∃ s ∈ e.texts, t = (e.opening :: open?, s)) ∨
        ∃ c ∈ e.elements, t ∈ c.placedTexts (e.opening :: open?) := by
  obtain ⟨name, attributes, children⟩ := e
  simp only [mem_texts, mem_elements]
  exact mem_textsOfContents

mutual

/-- A text in an element stands inside that element. -/
theorem exists_inner : ∀ (e : Element) {open? : List Opening} {t : List Opening × String},
    t ∈ e.placedTexts open? → ∃ inner, t.1 = inner ++ e.opening :: open?
  | .mk _ _ children, _, _, h => exists_inner_of_contents children h

theorem exists_inner_of_contents : ∀ (cs : List Content) {open? : List Opening}
    {t : List Opening × String}, t ∈ textsOfContents open? cs → ∃ inner, t.1 = inner ++ open?
  | [], _, _, h => absurd h List.not_mem_nil
  | .text s :: cs, open?, t, h => by
      rcases List.mem_cons.1 h with rfl | h
      · exact ⟨[], rfl⟩
      · exact exists_inner_of_contents cs h
  | .element e :: cs, open?, t, h => by
      rcases List.mem_append.1 h with h | h
      · obtain ⟨inner, hinner⟩ := exists_inner e h
        exact ⟨inner ++ [e.opening], by rw [hinner, List.append_assoc, List.singleton_append]⟩
      · exact exists_inner_of_contents cs h

end

end Markup

/-- A node stands in a node, with what its ancestors there open, the innermost first. -/
inductive Node.Inside : Node → List Markup.Opening → Node → Prop
  | self (n : Node) : Inside n [] n
  | child {n c m : Node} {around : List Markup.Opening} (hc : c ∈ n.children)
      (h : m.Inside around c) : Inside m (around ++ [⟨n.tag.name, n.attributes⟩]) n

namespace Markup

/-- Where a text that is not blank stands in an element of the content, with the node of the element: in
a text, whose node stands in the same containers and has it, or in a line break of a text. -/
inductive Stands (n : Node) (open? : List Opening) : List Opening → String → Prop
  | body {containers : List Opening} {node : Node} {s body : String}
      (hcontainers : ∀ o ∈ containers, o.name ∈ ["cont", "wrp", "seq", "rect", "prl", "layer"])
      (hnode : node.Inside containers n) (htag : node.tag = .txt) (hbody : node.text = some body)
      (hs : inked s.toList <:+: inked body.toList) :
      Stands n open? (⟨"txt", node.attributes⟩ :: (containers ++ open?)) s
  | lineBreak {inner containers : List Opening} {around within : List (String × String)} {s : String}
      (hcontainers : ∀ o ∈ containers, o.name ∈ ["cont", "wrp", "seq", "rect", "prl", "layer"]) :
      Stands n open? (inner ++ ⟨"br", within⟩ :: ⟨"txt", around⟩ :: (containers ++ open?)) s

/-- What stands in an element of a container stands in the container. -/
theorem Stands.up {n m : Node} {open? chain : List Opening} {s : String}
    (h : Stands m (⟨n.tag.name, n.attributes⟩ :: open?) chain s) (hm : m ∈ n.children)
    (hname : n.tag.name ∈ ["cont", "wrp", "seq", "rect", "prl", "layer"]) :
    Stands n open? chain s := by
  have hmore : ∀ containers : List Opening,
      (∀ o ∈ containers, o.name ∈ ["cont", "wrp", "seq", "rect", "prl", "layer"]) →
      ∀ o ∈ containers ++ [(⟨n.tag.name, n.attributes⟩ : Opening)],
        o.name ∈ ["cont", "wrp", "seq", "rect", "prl", "layer"] :=
    fun _ h => List.forall_mem_append.2 ⟨h, List.forall_mem_singleton.2 hname⟩
  cases h with
  | @body containers node s body hcontainers hnode htag hbody hs =>
      have hstands : Stands n open? (⟨"txt", node.attributes⟩ ::
          (containers ++ [⟨n.tag.name, n.attributes⟩] ++ open?)) s :=
        .body (hmore containers hcontainers) (.child hm hnode) htag hbody hs
      rwa [List.append_assoc] at hstands
  | @lineBreak inner containers around within s hcontainers =>
      have hstands : Stands n open? (inner ++ ⟨"br", within⟩ :: ⟨"txt", around⟩ ::
          (containers ++ [⟨n.tag.name, n.attributes⟩] ++ open?)) s :=
        .lineBreak (hmore containers hcontainers)
      rwa [List.append_assoc] at hstands

theorem isInfix_flatMap {α β : Type} {as : List α} {a : α} (ha : a ∈ as) (f : α → List β) :
    f a <:+: as.flatMap f := by
  obtain ⟨front, back, rfl⟩ := List.append_of_mem ha
  rw [List.flatMap_append, List.flatMap_cons]
  exact ⟨_, _, List.append_assoc _ _ _⟩

theorem Mirrors.cases {name : String} {attributes : List (String × String)} {children : List Content}
    {n : Node} (h : Mirrors (.mk name attributes children) n) :
    (name = "txt" ∧ ∃ body, n = ⟨.txt, attributes, [], some body⟩ ∧ inked body.toList =
      (Element.mk name attributes children).texts.flatMap fun s => inked s.toList) ∨
    name ≠ "txt" ∧ n.tag.name = name ∧ n.attributes = attributes ∧
      List.Forall₂ Mirrors (Element.mk name attributes children).elements n.children := by
  generalize he : Element.mk name attributes children = e at h
  cases h with
  | text hbody =>
      obtain ⟨rfl, rfl, rfl⟩ := Element.mk.inj he
      exact Or.inl ⟨rfl, _, rfl, hbody⟩
  | @other tag attributes children nodes htag hnodes =>
      obtain ⟨rfl, rfl, rfl⟩ := Element.mk.inj he
      exact Or.inr ⟨mt (name_inj (b := .txt)).1 htag, rfl, rfl, hnodes⟩

/-- A text that is not blank stands in a text of the content or in a line break. -/
theorem stands_of_isContent {e : Element} (he : IsContent e) {n : Node} (hn : Mirrors e n)
    {open? : List Opening} {t : List Opening × String} (ht : t ∈ e.placedTexts open?)
    (hs : ¬IsBlank t.2) : Stands n open? t.1 t.2 := by
  induction he generalizing n open? with
  | @text attributes children hbreaks =>
      obtain ⟨-, body, rfl, hbody⟩ | ⟨hne, -⟩ := hn.cases
      · rcases mem_placedTexts.1 ht with ⟨s, hmem, rfl⟩ | ⟨c, hc, ht⟩
        · refine @Stands.body _ open? [] ⟨.txt, attributes, [], some body⟩ s body (by simp) (.self _)
            rfl rfl ?_
          rw [hbody]
          exact isInfix_flatMap hmem fun s => inked s.toList
        · obtain ⟨inner, hinner⟩ := exists_inner c ht
          have hname : c.opening = ⟨"br", c.attributes⟩ :=
            congrArg (Opening.mk · c.attributes) (hbreaks c (mem_elements.1 hc))
          rw [hinner, hname]
          exact @Stands.lineBreak _ open? inner [] attributes c.attributes t.2 (by simp)
      · exact absurd rfl hne
  | @media name attributes children hname hsource hempty =>
      rcases mem_placedTexts.1 ht with ⟨s, hmem, rfl⟩ | ⟨c, hc, ht⟩
      · obtain ⟨s', hs', hblank⟩ := hempty _ (mem_texts.1 hmem)
        obtain rfl := Content.text.inj hs'
        exact absurd hblank hs
      · obtain ⟨s', hs', -⟩ := hempty _ (mem_elements.1 hc)
        exact Content.noConfusion hs'
  | @container name attributes children hname hblank hchildren ih =>
      rcases mem_placedTexts.1 ht with ⟨s, hmem, rfl⟩ | ⟨c, hc, ht⟩
      · exact absurd (hblank s (mem_texts.1 hmem)) hs
      · obtain ⟨rfl, -⟩ | ⟨-, rfl, rfl, hnodes⟩ := hn.cases
        · exact absurd hname (by decide)
        · obtain ⟨m, hm, hmirrors⟩ := exists_of_forall₂ hnodes hc
          exact (ih c (mem_elements.1 hc) hmirrors ht).up hm hname

end Markup

namespace Document

open Markup

variable {τ : Type} [Timescale τ]

/-- Where a text that is not blank stands in a document that is read, and where it goes. A text in a
`txt` is in the body of its node, and a text in a `style` without source is in a sheet. All other text
that is not refused is passed over: outside the root, in a line break, in a `style` with a source, and
in an element in a `style`. -/
inductive Lands (d : Document τ) : List Opening → String → Prop
  | outside {s : String} : Lands d [] s
  | content {top : List (String × String)} {chain : List Opening} {s : String}
      (h : Stands d.root [⟨"vsml", top⟩] chain s) : Lands d chain s
  | sheet {top head attributes : List (String × String)} {s front back : String} {sheet : StyleSheet}
      (hsource : ∀ source, attributes.lookup "src" = some source → source = "")
      (hsheet : StyleSheet.parse (front ++ s ++ back) = .ok sheet)
      (hrules : sheet.rules <:+: d.sheet.rules) :
      Lands d [⟨"style", attributes⟩, ⟨"meta", head⟩, ⟨"vsml", top⟩] s
  | linked {top head attributes : List (String × String)} {s source : String}
      (hsource : attributes.lookup "src" = some source) (hne : source ≠ "") :
      Lands d [⟨"style", attributes⟩, ⟨"meta", head⟩, ⟨"vsml", top⟩] s
  | underStyle {top head attributes : List (String × String)} {inner : List Opening} {o : Opening}
      {s : String} :
      Lands d (inner ++ [o, ⟨"style", attributes⟩, ⟨"meta", head⟩, ⟨"vsml", top⟩]) s

section

variable {files : FileTexts} {baseDir : Path} {d : Document τ}

omit [Timescale τ] in
/-- The texts in a style element are its sheet, unless it has a source or they are in an element. -/
theorem lands_of_holdsSheet {e head root : Element} {sheet : StyleSheet}
    (he : HoldsSheet files baseDir e sheet) (hrules : sheet.rules <:+: d.sheet.rules)
    (hhead : head.name = "meta") (hroot : root.name = "vsml") {t : List Opening × String}
    (ht : t ∈ e.placedTexts [head.opening, root.opening]) : Lands d t.1 t.2 := by
  obtain ⟨hname, text, htext, hsheet⟩ := he
  have hopen : [e.opening, head.opening, root.opening] =
      [⟨"style", e.attributes⟩, ⟨"meta", head.attributes⟩, ⟨"vsml", root.attributes⟩] := by
    simp only [Element.opening, hname, hhead, hroot]
  rcases mem_placedTexts.1 ht with ⟨s, hs, rfl⟩ | ⟨c, hc, ht⟩
  · rw [hopen]
    cases htext with
    | file hsource hne hfile => exact .linked hsource hne
    | own hsource =>
        obtain ⟨front, back, hsplit⟩ := List.append_of_mem hs
        rw [hsplit, String.join_append, String.join_cons, ← String.append_assoc] at hsheet
        exact .sheet hsource hsheet hrules
  · obtain ⟨inner, hinner⟩ := exists_inner c ht
    rw [hinner, hopen]
    exact .underStyle

theorem lands_of_ofElement {root : Element} (h : ofElement files baseDir root = .ok d)
    {t : List Opening × String} (ht : t ∈ root.placedTexts []) (hs : ¬IsBlank t.2) :
    Lands d t.1 t.2 := by
  obtain ⟨hname, htexts, _, body, frame, node, hparts, hframe, hnode, rfl⟩ := ofElement_eq_ok.1 h
  obtain ⟨heads, sheets, helements, hheads, hsheets, rfl, hcont⟩ := partsOfElements_eq_ok.1 hparts
  rcases mem_placedTexts.1 ht with ⟨s, hmem, rfl⟩ | ⟨c, hc, ht⟩
  · exact absurd (rejectText_eq_ok.1 htexts s hmem) hs
  rw [helements] at hc
  rcases List.mem_append.1 hc with hc | hc
  · obtain ⟨hhead, hblank⟩ := hheads c hc
    rcases mem_placedTexts.1 ht with ⟨s, hmem, rfl⟩ | ⟨e, he, ht⟩
    · exact absurd (hblank s hmem) hs
    · obtain ⟨sheet, hsheet, hholds⟩ := exists_of_forall₂ hsheets (List.mem_flatMap.2 ⟨c, hc, he⟩)
      exact lands_of_holdsSheet hholds (isInfix_flatMap hsheet StyleSheet.rules) hhead hname ht
  · obtain rfl := List.mem_singleton.1 hc
    obtain ⟨hcontent, hmirrors⟩ := sound_of_nodeOfElement c hnode
    have hroot : root.opening = ⟨"vsml", root.attributes⟩ :=
      congrArg (Opening.mk · root.attributes) hname
    rw [hroot] at ht
    exact .content (stands_of_isContent hcontent hmirrors ht hs)

/-- Every text of a document that is read, unless it is blank, stands in one of the places where text
may stand. -/
theorem lands_of_parse {text : String} (h : parse files baseDir text = .ok d) {chain : List Opening}
    {s : String} (hs : (chain, s) ∈ placedTexts [] (Event.ofText text)) (hblank : ¬IsBlank s) :
    Lands d chain s := by
  obtain ⟨root, hroot, hd⟩ := bind_eq_ok.1 h
  have hroot := mapError_eq_ok.1 hroot
  cases chain with
  | nil => exact .outside
  | cons o open? =>
      have hinside : (o :: open?, s) ∈ textsInside [] (Event.ofText text) := List.mem_filter.2 ⟨hs, rfl⟩
      rw [placedTexts_ofEvents hroot] at hinside
      exact lands_of_ofElement hd hinside hblank

end

theorem lands_of_parse_notice : ∃ d : Document Rat, parse (fun _ => .error "") ⟨""⟩ notice = .ok d ∧
    Lands d [⟨"txt", []⟩, ⟨"seq", []⟩, ⟨"cont", [("resolution", "9x9"), ("fps", "1")]⟩, ⟨"vsml", []⟩]
      "<b>" ∧
    Lands d [⟨"style", []⟩, ⟨"meta", []⟩, ⟨"vsml", []⟩] "txt\x7b\x7d" := by
  obtain ⟨d, hd⟩ := exists_notice
  exact ⟨d, hd, lands_of_parse hd (by decide +kernel) (by decide),
    lands_of_parse hd (by decide +kernel) (by decide)⟩

/-- A document with text in a line break. -/
def spill : String :=
  "<vsml><cont resolution=\"9x9\" fps=\"1\"><txt>a<br>oops</br>b</txt></cont></vsml>"

/-- The text in the line break is lost. -/
theorem text_lost : ∃ d : Document Rat, parse (fun _ => .error "") ⟨""⟩ spill = .ok d ∧
    ([⟨"br", []⟩, ⟨"txt", []⟩, ⟨"cont", [("resolution", "9x9"), ("fps", "1")]⟩, ⟨"vsml", []⟩],
      "oops") ∈ placedTexts [] (Event.ofText spill) ∧
    d.root.children.map Node.text = [some "a\nb"] := by
  have hrun : (parse (τ := Rat) (fun _ => .error "") ⟨""⟩ spill).toOption.map
      (fun d => d.root.children.map Node.text) = some [some "a\nb"] := by
    decide +kernel
  obtain ⟨d, hd, htexts⟩ := Option.map_eq_some_iff.1 hrun
  exact ⟨d, toOption_eq_some.1 hd, by decide +kernel, htexts⟩

end Document
end Montage
