import Mathlib.Data.List.Forall2
import Montage.Markup.Schema

/-!
# The schema of content

An element has a node if and only if it follows the schema, and its node mirrors it.

**Input.** An element of the content.

**Algorithm.** The schema is stated element by element (`IsContent`), without a word on how it is
checked. There are three kinds of elements: texts, media with a source, and containers. Recursion over
the tree finds the kind of each element, and the node is built in the same pass (`Mirrors`).

**Results.**
* `nodeOfElement_eq_ok`: the node of an element, kind by kind.
* `sound_of_nodeOfElement`: an element with a node follows the schema, and the node mirrors it.
* `IsContent.exists_node`: an element that follows the schema has a node.
-/

namespace Montage
namespace Markup

/-! ### The schema of content -/

/-- A text of blanks. -/
def IsBlank (s : String) : Prop :=
  ∀ c ∈ s.toList, Text.isBlank c = true

/-- The characters of a text that are not blank. -/
def inked (cs : List Char) : List Char :=
  cs.filter fun c => !Text.isBlank c

/-- An element of the content that follows the schema. -/
inductive IsContent : Element → Prop
  | text {attributes : List (String × String)} {children : List Content}
      (hbreaks : ∀ e, .element e ∈ children → e.name = "br") :
      IsContent (.mk "txt" attributes children)
  | media {name : String} {attributes : List (String × String)} {children : List Content}
      (hname : name ∈ ["vid", "aud", "img"])
      (hsource : ∃ source, attributes.lookup "src" = some source ∧ source ≠ "")
      (hempty : ∀ c ∈ children, ∃ s, c = .text s ∧ IsBlank s) :
      IsContent (.mk name attributes children)
  | container {name : String} {attributes : List (String × String)} {children : List Content}
      (hname : name ∈ ["cont", "wrp", "seq", "rect", "prl", "layer"])
      (hblank : ∀ s, .text s ∈ children → IsBlank s)
      (hchildren : ∀ e, .element e ∈ children → IsContent e) :
      IsContent (.mk name attributes children)

/-- An element and the node of the same name, the same attributes and, unless it is a text, the same
elements inside. A text holds what its element holds, but for blanks. -/
inductive Mirrors : Element → Node → Prop
  | text {attributes : List (String × String)} {children : List Content} {body : String}
      (hbody : inked body.toList =
        (Element.mk "txt" attributes children).texts.flatMap fun s => inked s.toList) :
      Mirrors (.mk "txt" attributes children) ⟨.txt, attributes, [], some body⟩
  | other {tag : Tag} {attributes : List (String × String)} {children : List Content}
      {nodes : List Node} (htag : tag ≠ .txt)
      (hnodes : List.Forall₂ Mirrors (Element.mk tag.name attributes children).elements nodes) :
      Mirrors (.mk tag.name attributes children) ⟨tag, attributes, nodes, none⟩

/-! ### Content -/

theorem bind_eq_ok {ε α β : Type} {x : Except ε α} {f : α → Except ε β} {b : β} :
    (x >>= f) = .ok b ↔ ∃ a, x = .ok a ∧ f a = .ok b := by
  cases x <;> simp [bind, Except.bind]

theorem toOption_eq_some {ε α : Type} {x : Except ε α} {a : α} : x.toOption = some a ↔ x = .ok a := by
  cases x <;> simp [Except.toOption]

theorem name_of_ofName? {name : String} {tag : Tag} (h : Tag.ofName? name = some tag) :
    tag.name = name :=
  beq_iff_eq.1 (List.find?_some (p := fun t : Tag => t.name == name) h)

theorem isBlankText_iff {s : String} : isBlankText s = true ↔ IsBlank s :=
  List.all_eq_true

instance (s : String) : Decidable (IsBlank s) :=
  decidable_of_iff _ isBlankText_iff

theorem rejectText_eq_ok {e : Element} : e.rejectText = .ok () ↔ ∀ s ∈ e.texts, IsBlank s := by
  rw [Element.rejectText]
  split
  · next s hs =>
      refine iff_of_false (by simp) fun h => ?_
      have hs' := List.find?_some hs
      rw [isBlankText_iff.2 (h s (List.mem_of_find?_eq_some hs))] at hs'
      exact Bool.noConfusion hs'
  · next hs =>
      refine iff_of_true rfl fun s hmem => isBlankText_iff.1 ?_
      simpa using List.find?_eq_none.1 hs s hmem

variable {name : String} {attributes : List (String × String)} {children : List Content} {n : Node}

theorem hasSource_iff : (Element.mk name attributes children).hasSource = true ↔
    ∃ source, attributes.lookup "src" = some source ∧ source ≠ "" := by
  have hattribute : (Element.mk name attributes children).attribute? "src" = attributes.lookup "src" :=
    rfl
  rw [Element.hasSource, hattribute]
  cases attributes.lookup "src" with
  | none => simp
  | some source => simp

theorem isBlank_iff : (Element.mk name attributes children).isBlank = true ↔
    ∀ c ∈ children, ∃ s, c = .text s ∧ IsBlank s := by
  rw [Element.isBlank, List.all_eq_true]
  refine forall₂_congr fun c hc => ?_
  cases c with
  | element e => simp
  | text s => simp [isBlankText_iff]

theorem name_inj {a b : Tag} : a.name = b.name ↔ a = b := by
  refine ⟨fun h => ?_, congrArg Tag.name⟩
  have hsome := Tag.ofName?_name a
  rw [h, Tag.ofName?_name] at hsome
  exact (Option.some.inj hsome).symm

/-- A tag is that of texts, of a medium with a source, or of a container. -/
theorem kind?_cases (tag : Tag) :
    tag = .txt ∨ tag ∈ [Tag.vid, .aud, .img] ∨ tag.kind? = none := by
  cases tag <;> simp [Tag.kind?]

theorem nodeOfElement_text : nodeOfElement (.mk "txt" attributes children) = .ok n ↔
    ∃ body, (Element.mk "txt" attributes children).textBody = .ok body ∧
      n = ⟨.txt, attributes, [], some body⟩ := by
  have hname : Tag.ofName? "txt" = some .txt := Tag.ofName?_name .txt
  rw [nodeOfElement, hname]
  simp only [Tag.kind?, bind_eq_ok, Except.ok.injEq, eq_comm (a := n)]

theorem nodeOfElement_media {tag : Tag} (h : tag ∈ [Tag.vid, .aud, .img]) :
    nodeOfElement (.mk tag.name attributes children) = .ok n ↔
      (Element.mk tag.name attributes children).hasSource = true ∧
        (Element.mk tag.name attributes children).isBlank = true ∧ n = ⟨tag, attributes, [], none⟩ := by
  obtain ⟨kind, hkind, hsome⟩ : ∃ kind ≠ MediaKind.text, tag.kind? = some kind := by
    cases tag <;> simp [Tag.kind?] at h ⊢
  rw [nodeOfElement, Tag.ofName?_name]
  cases kind with
  | text => exact absurd rfl hkind
  | _ =>
      simp only [hsome]
      cases (Element.mk tag.name attributes children).hasSource <;>
        cases (Element.mk tag.name attributes children).isBlank <;> simp [eq_comm]

theorem nodeOfElement_container {tag : Tag} (h : tag.kind? = none) :
    nodeOfElement (.mk tag.name attributes children) = .ok n ↔
      (Element.mk tag.name attributes children).rejectText = .ok () ∧
        ∃ nodes, nodesOfContents children = .ok nodes ∧ n = ⟨tag, attributes, nodes, none⟩ := by
  rw [nodeOfElement, Tag.ofName?_name]
  simp only [h, bind_eq_ok, Except.ok.injEq, eq_comm (a := n)]
  exact ⟨fun ⟨_, htexts, hnodes⟩ => ⟨htexts, hnodes⟩, fun ⟨htexts, hnodes⟩ => ⟨(), htexts, hnodes⟩⟩

/-- The node of an element is that of a text, of a medium or of a container. -/
theorem nodeOfElement_eq_ok : nodeOfElement (.mk name attributes children) = .ok n ↔
    (name = "txt" ∧ ∃ body, (Element.mk name attributes children).textBody = .ok body ∧
      n = ⟨.txt, attributes, [], some body⟩) ∨
    (∃ tag : Tag, tag.name = name ∧ tag ∈ [Tag.vid, .aud, .img] ∧
      (Element.mk name attributes children).hasSource = true ∧
      (Element.mk name attributes children).isBlank = true ∧ n = ⟨tag, attributes, [], none⟩) ∨
    ∃ tag : Tag, tag.name = name ∧ tag.kind? = none ∧
      (Element.mk name attributes children).rejectText = .ok () ∧
      ∃ nodes, nodesOfContents children = .ok nodes ∧ n = ⟨tag, attributes, nodes, none⟩ := by
  constructor
  · intro h
    cases hname : Tag.ofName? name with
    | none =>
        rw [nodeOfElement, hname] at h
        cases h
    | some tag =>
        obtain rfl := name_of_ofName? hname
        rcases kind?_cases tag with rfl | hmedia | hcontainer
        · exact Or.inl ⟨rfl, nodeOfElement_text.1 h⟩
        · exact Or.inr (Or.inl ⟨tag, rfl, hmedia, (nodeOfElement_media hmedia).1 h⟩)
        · exact Or.inr (Or.inr ⟨tag, rfl, hcontainer, (nodeOfElement_container hcontainer).1 h⟩)
  · rintro (⟨rfl, h⟩ | ⟨tag, rfl, hmedia, h⟩ | ⟨tag, rfl, hcontainer, h⟩)
    · exact nodeOfElement_text.2 h
    · exact (nodeOfElement_media hmedia).2 h
    · exact (nodeOfElement_container hcontainer).2 h

/-! ### The bodies of texts -/

theorem inked_append (cs ds : List Char) : inked (cs ++ ds) = inked cs ++ inked ds :=
  List.filter_append _ _

theorem inked_trimStart (cs : List Char) : inked (Text.trimStart cs) = inked cs := by
  induction cs with
  | nil => rfl
  | cons c cs ih =>
      rw [Text.trimStart, List.dropWhile_cons]
      split
      · next hc => simpa [inked, hc, Text.trimStart] using ih
      · rfl

theorem inked_trim (cs : List Char) : inked (Text.trim cs) = inked cs := by
  have hreverse : ∀ ds : List Char, inked ds.reverse = (inked ds).reverse := fun _ =>
    List.filter_reverse
  have hend : inked (Text.trimEnd (Text.trimStart cs)) = inked (Text.trimStart cs) := by
    have hstart := inked_trimStart (Text.trimStart cs).reverse
    rw [Text.trimEnd, hreverse, ← Text.trimStart, hstart, hreverse, List.reverse_reverse]
  rw [Text.trim, hend, inked_trimStart]

theorem inked_splitAll (cs : List Char) : (Text.splitAll '\n' cs).flatMap inked = inked cs := by
  induction cs with
  | nil => rfl
  | cons c cs ih =>
      have hcons : inked (c :: cs) = inked [c] ++ inked cs := inked_append [c] cs
      rw [Text.splitAll, hcons, ← ih]
      split
      · next hc =>
          rw [hc]
          rfl
      · cases h : Text.splitAll '\n' cs with
        | nil => exact absurd h (Text.splitAll_ne_nil _ _)
        | cons w ws =>
            have hw : inked (c :: w) = inked [c] ++ inked w := inked_append [c] w
            rw [List.flatMap_cons, List.flatMap_cons, hw, List.append_assoc]

theorem inked_unwrapped (s : String) : inked (unwrapped s) = inked s.toList := by
  rw [unwrapped, ← inked_splitAll s.toList]
  cases Text.splitAll '\n' s.toList with
  | nil => rfl
  | cons w ws =>
      have hflatten : inked (ws.map Text.trimStart).flatten = ws.flatMap inked := by
        induction ws with
        | nil => rfl
        | cons w ws ih =>
            rw [List.map_cons, List.flatten_cons, inked_append, ih, inked_trimStart, List.flatMap_cons]
      rw [inked_append, hflatten, List.flatMap_cons]

theorem bodyChars_eq_ok {cs : List Char} (h : bodyChars children = .ok cs) :
    (∀ e, .element e ∈ children → e.name = "br") ∧
      inked cs = (Element.mk name attributes children).texts.flatMap fun s => inked s.toList := by
  induction children generalizing cs with
  | nil =>
      obtain rfl := Except.ok.inj h
      exact ⟨by simp, rfl⟩
  | cons c children ih =>
      cases c with
      | text s =>
          rw [bodyChars] at h
          obtain ⟨ds, hds, h⟩ := bind_eq_ok.1 h
          obtain rfl := Except.ok.inj h
          obtain ⟨hbreaks, hinked⟩ := ih hds
          refine ⟨by simpa using hbreaks, ?_⟩
          rw [inked_append, inked_unwrapped, hinked]
          rfl
      | element e =>
          rw [bodyChars] at h
          split at h
          · next hname =>
              obtain ⟨ds, hds, h⟩ := bind_eq_ok.1 h
              obtain rfl := Except.ok.inj h
              obtain ⟨hbreaks, hinked⟩ := ih hds
              refine ⟨?_, hinked⟩
              rintro e' he'
              rcases List.mem_cons.1 he' with he' | he'
              · obtain rfl := Content.element.inj he'
                exact hname
              · exact hbreaks e' he'
          · cases h

theorem exists_bodyChars (h : ∀ e, .element e ∈ children → e.name = "br") :
    ∃ cs, bodyChars children = .ok cs := by
  induction children with
  | nil => exact ⟨[], rfl⟩
  | cons c children ih =>
      obtain ⟨cs, hcs⟩ := ih fun e he => h e (List.mem_cons_of_mem _ he)
      cases c with
      | text s => exact ⟨_, bind_eq_ok.2 ⟨cs, hcs, rfl⟩⟩
      | element e =>
          refine ⟨'\n' :: cs, ?_⟩
          rw [bodyChars, if_pos (h e List.mem_cons_self)]
          exact bind_eq_ok.2 ⟨cs, hcs, rfl⟩

theorem textBody_eq_ok {body : String} (h : (Element.mk name attributes children).textBody = .ok body) :
    (∀ e, .element e ∈ children → e.name = "br") ∧
      inked body.toList =
        (Element.mk name attributes children).texts.flatMap fun s => inked s.toList := by
  obtain ⟨cs, hcs, h⟩ := bind_eq_ok.1 h
  obtain rfl := Except.ok.inj h
  rw [String.toList_ofList, inked_trim]
  exact bodyChars_eq_ok hcs

/-! ### Nodes -/

theorem mem_texts {e : Element} {s : String} : s ∈ e.texts ↔ .text s ∈ e.children := by
  rw [Element.texts, List.mem_filterMap]
  constructor
  · rintro ⟨c, hc, hs⟩
    cases c with
    | element e => exact absurd hs (by simp)
    | text t =>
        obtain rfl := Option.some.inj hs
        exact hc
  · exact fun hs => ⟨_, hs, rfl⟩

theorem mem_elements {e e' : Element} : e' ∈ e.elements ↔ .element e' ∈ e.children := by
  rw [Element.elements, List.mem_filterMap]
  constructor
  · rintro ⟨c, hc, hs⟩
    cases c with
    | element t =>
        obtain rfl := Option.some.inj hs
        exact hc
    | text s => exact absurd hs (by simp)
  · exact fun he => ⟨_, he, rfl⟩

mutual

theorem sound_of_nodeOfElement : ∀ (e : Element) {n : Node}, nodeOfElement e = .ok n →
    IsContent e ∧ Mirrors e n
  | .mk name attributes children, n, h => by
      have ih := @sound_of_nodesOfContents children
      rcases nodeOfElement_eq_ok.1 h with ⟨rfl, body, hbody, rfl⟩ | ⟨tag, rfl, htag, hsource, hblank, rfl⟩ |
        ⟨tag, rfl, htag, htexts, nodes, hnodes, rfl⟩
      · obtain ⟨hbreaks, hinked⟩ := textBody_eq_ok hbody
        exact ⟨.text hbreaks, .text hinked⟩
      · have hempty := isBlank_iff.1 hblank
        have hname : tag.name ∈ [Tag.vid, .aud, .img].map Tag.name := List.mem_map_of_mem htag
        have hnone : (Element.mk tag.name attributes children).elements = [] := by
          refine List.eq_nil_iff_forall_not_mem.2 fun e he => ?_
          obtain ⟨s, hs, -⟩ := hempty _ (mem_elements.1 he)
          exact Content.noConfusion hs
        refine ⟨.media hname (hasSource_iff.1 hsource) hempty, .other ?_ (hnone ▸ .nil)⟩
        rintro rfl
        exact absurd htag (by decide)
      · obtain ⟨hchildren, hmirrors⟩ := ih hnodes
        have hname : tag.name ∈ ["cont", "wrp", "seq", "rect", "prl", "layer"] := by
          cases tag <;> simp [Tag.kind?, Tag.name] at htag ⊢
        refine ⟨.container hname (fun s hs => rejectText_eq_ok.1 htexts s (mem_texts.2 hs)) hchildren,
          .other ?_ hmirrors⟩
        rintro rfl
        exact absurd htag (by decide)

theorem sound_of_nodesOfContents : ∀ (cs : List Content) {ns : List Node},
    nodesOfContents cs = .ok ns → (∀ e, .element e ∈ cs → IsContent e) ∧
      List.Forall₂ Mirrors (Element.mk "" [] cs).elements ns
  | [], ns, h => by
      obtain rfl := Except.ok.inj h
      exact ⟨by simp, .nil⟩
  | .text s :: cs, ns, h => by
      have ih := sound_of_nodesOfContents cs h
      exact ⟨by simpa using ih.1, ih.2⟩
  | .element e :: cs, ns, h => by
      obtain ⟨node, hnode, h⟩ := bind_eq_ok.1 h
      obtain ⟨nodes, hnodes, h⟩ := bind_eq_ok.1 h
      obtain rfl := Except.ok.inj h
      obtain ⟨hcontent, hmirrors⟩ := sound_of_nodeOfElement e hnode
      obtain ⟨hothers, hnodes⟩ := sound_of_nodesOfContents cs hnodes
      refine ⟨?_, .cons hmirrors hnodes⟩
      intro e' he'
      rcases List.mem_cons.1 he' with he' | he'
      · exact Content.element.inj he' ▸ hcontent
      · exact hothers e' he'

end

theorem exists_nodesOfContents {cs : List Content}
    (h : ∀ e, .element e ∈ cs → ∃ n, nodeOfElement e = .ok n) :
    ∃ ns, nodesOfContents cs = .ok ns := by
  induction cs with
  | nil => exact ⟨[], rfl⟩
  | cons c cs ih =>
      obtain ⟨ns, hns⟩ := ih fun e he => h e (List.mem_cons_of_mem _ he)
      cases c with
      | text s => exact ⟨ns, hns⟩
      | element e =>
          obtain ⟨n, hn⟩ := h e List.mem_cons_self
          exact ⟨n :: ns, bind_eq_ok.2 ⟨n, hn, bind_eq_ok.2 ⟨ns, hns, rfl⟩⟩⟩

/-- What follows the schema has a node. -/
theorem IsContent.exists_node {e : Element} (h : IsContent e) : ∃ n, nodeOfElement e = .ok n := by
  induction h with
  | text hbreaks =>
      obtain ⟨cs, hcs⟩ := exists_bodyChars hbreaks
      exact ⟨_, nodeOfElement_eq_ok.2 (Or.inl ⟨rfl, _, bind_eq_ok.2 ⟨cs, hcs, rfl⟩, rfl⟩)⟩
  | @media name attributes children hname hsource hempty =>
      obtain ⟨tag, htag, rfl⟩ : ∃ tag ∈ [Tag.vid, .aud, .img], tag.name = name := List.mem_map.1 hname
      exact ⟨_, nodeOfElement_eq_ok.2 (Or.inr (Or.inl
        ⟨tag, rfl, htag, hasSource_iff.2 hsource, isBlank_iff.2 hempty, rfl⟩))⟩
  | @container name attributes children hname hblank hchildren ih =>
      obtain ⟨tag, htag, rfl⟩ : ∃ tag ∈ [Tag.cont, .wrp, .seq, .rect, .prl, .layer], tag.name = name :=
        List.mem_map.1 hname
      have hkind : tag.kind? = none := by
        cases tag <;> simp at htag ⊢ <;> rfl
      obtain ⟨nodes, hnodes⟩ := exists_nodesOfContents ih
      have htexts : (Element.mk tag.name attributes children).rejectText = .ok () :=
        rejectText_eq_ok.2 fun s hs => hblank s (mem_texts.1 hs)
      exact ⟨_, nodeOfElement_eq_ok.2 (Or.inr (Or.inr ⟨tag, rfl, hkind, htexts, nodes, hnodes, rfl⟩))⟩

end Markup
end Montage
