import Montage.Proofs.Lists
import Montage.Proofs.Markup.Texts

/-!
# Events and their tree

The assembly of the events of a tree gives that tree, and events of no tree are refused.

**Input.** Any sequence of events, whether it comes from a document or not.

**Algorithm.** Events tell what an element holds (`Tells`) child by child: a text has one event, an element
one or two and what it holds between them. The assembly of such events does to any tree that is being built
what adding the children one by one does (`foldlM_step`), so that the events of a document give its tree. The
other way round, whatever the assembly has read so far tells the finished root and the elements that are
still open (`Builds`). What is wrong with the other sequences is said by the elements that are open after
each event (`openAfter`) and by the number of elements that begin outside all others (`roots`); the assembly
keeps account of both.

**Results.**
* `Element.ofEvents_eq_ok`: events give a tree if and only if they are the events of that tree.
* `hasFault_of_ofEvents`, `not_hasFault`: a fault that is reported is there, and no fault is passed over.
* `Element.ofEvents_told`: both together.
-/

namespace Montage
namespace Markup

/-! ### The events of a tree -/

/-- Events that tell what an element holds. An element without children may have a single event; comments
and the like may stand anywhere. -/
inductive Tells : List Event → List Content → Prop
  | nil : Tells [] []
  | ignored {es : List Event} {cs : List Content} (h : Tells es cs) : Tells (.ignored :: es) cs
  | text (s : String) {es : List Event} {cs : List Content} (h : Tells es cs) :
      Tells (.text s :: es) (.text s :: cs)
  | empty (name : String) (attributes : List (String × String)) {es : List Event} {cs : List Content}
      (h : Tells es cs) : Tells (.empty name attributes :: es) (.element (.mk name attributes []) :: cs)
  | tagged (name : String) (attributes : List (String × String)) {inside es : List Event}
      {children cs : List Content} (hinside : Tells inside children) (h : Tells es cs) :
      Tells (.start name attributes :: (inside ++ .stop :: es))
        (.element (.mk name attributes children) :: cs)

/-- Events that may stand outside the root. -/
def Event.isAside : Event → Bool
  | .text _ => true
  | .ignored => true
  | _ => false

/-- The events of a document: they tell its root, with texts, comments and the like around it. -/
def Element.IsToldBy (root : Element) (es : List Event) : Prop :=
  ∃ before middle after, es = before ++ middle ++ after ∧ (∀ event ∈ before, event.isAside = true) ∧
    (∀ event ∈ after, event.isAside = true) ∧ Tells middle [.element root]

theorem Tells.append {es es' : List Event} {cs cs' : List Content} (h : Tells es cs)
    (h' : Tells es' cs') : Tells (es ++ es') (cs ++ cs') := by
  induction h with
  | nil => exact h'
  | ignored _ ih => exact .ignored ih
  | text s _ ih => exact .text s ih
  | empty name attributes _ ih => exact .empty name attributes ih
  | tagged name attributes hinside _ _ ih =>
      rw [List.cons_append, List.append_assoc]
      exact .tagged name attributes hinside ih

mutual

/-- The events of an element, two for each element in it. -/
def Element.events : Element → List Event
  | .mk name attributes children => .start name attributes :: (eventsOfContents children ++ [.stop])

/-- The events of what an element holds. -/
def eventsOfContents : List Content → List Event
  | [] => []
  | .text s :: cs => .text s :: eventsOfContents cs
  | .element e :: cs => e.events ++ eventsOfContents cs

end

mutual

theorem tells_events : ∀ e : Element, Tells e.events [.element e]
  | .mk name attributes children => .tagged name attributes (tells_eventsOfContents children) .nil

theorem tells_eventsOfContents : ∀ cs : List Content, Tells (eventsOfContents cs) cs
  | [] => .nil
  | .text s :: cs => .text s (tells_eventsOfContents cs)
  | .element e :: cs => (tells_events e).append (tells_eventsOfContents cs)

end

/-! ### The events of a tree give the tree -/

namespace Assembly

/-- A child joins the innermost open element; outside all elements a text is passed over. -/
def receive (a : Assembly) : Content → Except TreeFault Assembly
  | .element e => a.attach e
  | .text s => a.step (.text s)

/-- An open element takes all children that come. -/
theorem foldlM_receive (name : String) (attributes : List (String × String))
    (children cs : List Content) (stack : List Element) (root : Option Element) :
    cs.foldlM receive ⟨.mk name attributes children :: stack, root⟩ =
      .ok ⟨.mk name attributes (children ++ cs) :: stack, root⟩ := by
  induction cs generalizing children with
  | nil => rw [List.append_nil]; rfl
  | cons c cs ih =>
      have hstep : receive ⟨.mk name attributes children :: stack, root⟩ c =
          .ok ⟨.mk name attributes (children ++ [c]) :: stack, root⟩ := by
        cases c <;> rfl
      rw [List.foldlM_cons, hstep]
      exact (ih (children ++ [c])).trans (by rw [List.append_assoc]; rfl)

/-- Events that tell children do what the children do. -/
theorem foldlM_step {es : List Event} {cs : List Content} (h : Tells es cs) (a : Assembly) :
    es.foldlM step a = cs.foldlM receive a := by
  induction h generalizing a with
  | nil => rfl
  | ignored _ ih => exact ih a
  | text s _ ih =>
      rw [List.foldlM_cons, List.foldlM_cons]
      exact congrArg _ (funext ih)
  | empty name attributes _ ih =>
      rw [List.foldlM_cons, List.foldlM_cons]
      exact congrArg _ (funext ih)
  | @tagged name attributes inside es children cs _ _ ihinside ih =>
      have hstart : a.step (.start name attributes) =
          .ok ⟨.mk name attributes [] :: a.stack, a.root⟩ := rfl
      have hinside : inside.foldlM step ⟨.mk name attributes [] :: a.stack, a.root⟩ =
          .ok ⟨.mk name attributes children :: a.stack, a.root⟩ := by
        rw [ihinside, foldlM_receive, List.nil_append]
      rw [List.foldlM_cons, hstart, List.foldlM_cons]
      show List.foldlM step _ (inside ++ .stop :: es) = _
      rw [List.foldlM_append, hinside]
      show List.foldlM step _ (.stop :: es) = _
      rw [List.foldlM_cons]
      exact congrArg _ (funext ih)

theorem foldlM_step_aside {es : List Event} (h : ∀ event ∈ es, event.isAside = true)
    (root : Option Element) : es.foldlM step ⟨[], root⟩ = .ok ⟨[], root⟩ := by
  induction es with
  | nil => rfl
  | cons event es ih =>
      obtain ⟨hevent, hes⟩ := List.forall_mem_cons.1 h
      have hstep : step ⟨[], root⟩ event = .ok ⟨[], root⟩ := by
        cases event <;> first | rfl | cases hevent
      rw [List.foldlM_cons, hstep]
      exact ih hes

end Assembly

/-- The events of a document are assembled to its tree. -/
theorem Element.ofEvents_of_isToldBy {root : Element} {es : List Event} (h : root.IsToldBy es) :
    Element.ofEvents es = .ok root := by
  obtain ⟨before, middle, after, rfl, hbefore, hafter, hmiddle⟩ := h
  have hroot : middle.foldlM Assembly.step ⟨[], none⟩ = .ok ⟨[], some root⟩ :=
    Assembly.foldlM_step hmiddle _
  have hrun : (before ++ middle ++ after).foldlM Assembly.step Assembly.start = .ok ⟨[], some root⟩ := by
    rw [List.foldlM_append, List.foldlM_append, Assembly.start,
      Assembly.foldlM_step_aside hbefore none]
    show (List.foldlM Assembly.step _ middle >>= fun a => List.foldlM Assembly.step a after) = _
    rw [hroot]
    exact Assembly.foldlM_step_aside hafter (some root)
  exact bind_eq_ok.2 ⟨_, hrun, rfl⟩

theorem Element.ofEvents_events (e : Element) : Element.ofEvents e.events = .ok e :=
  Element.ofEvents_of_isToldBy
    ⟨[], e.events, [], (List.append_nil _).symm, by simp, by simp, tells_events e⟩

/-! ### What is read tells what is built -/

/-- What events tell of a tree that is being built: the root once it is finished, and what each open
element holds so far. -/
inductive Builds : List Event → Assembly → Prop
  | before {es : List Event} (h : ∀ event ∈ es, event.isAside = true) : Builds es ⟨[], none⟩
  | after {es : List Event} {root : Element} (h : root.IsToldBy es) : Builds es ⟨[], some root⟩
  | inside (name : String) (attributes : List (String × String)) {front inside : List Event}
      {children : List Content} {stack : List Element} {root? : Option Element}
      (h : Builds front ⟨stack, root?⟩) (hinside : Tells inside children) :
      Builds (front ++ .start name attributes :: inside) ⟨.mk name attributes children :: stack, root?⟩

namespace Builds

variable {es middle : List Event} {a b : Assembly} {event : Event} {root? : Option Element}

theorem aside (h : Builds es ⟨[], root?⟩) (hevent : event.isAside = true) :
    Builds (es ++ [event]) ⟨[], root?⟩ := by
  cases h with
  | before hes => exact .before (List.forall_mem_append.2 ⟨hes, List.forall_mem_singleton.2 hevent⟩)
  | after hroot =>
      obtain ⟨before, middle, after, rfl, hbefore, hafter, hmiddle⟩ := hroot
      exact .after ⟨before, middle, after ++ [event], List.append_assoc _ _ _, hbefore,
        List.forall_mem_append.2 ⟨hafter, List.forall_mem_singleton.2 hevent⟩, hmiddle⟩

theorem push {name : String} {attributes : List (String × String)} {children cs : List Content}
    {stack : List Element} (h : Builds es ⟨.mk name attributes children :: stack, root?⟩)
    (hmiddle : Tells middle cs) :
    Builds (es ++ middle) ⟨.mk name attributes (children ++ cs) :: stack, root?⟩ := by
  cases h with
  | inside _ _ hfront hinside =>
      rw [List.append_assoc, List.cons_append]
      exact .inside name attributes hfront (hinside.append hmiddle)

theorem attach {e : Element} (h : Builds es a) (hmiddle : Tells middle [.element e])
    (hb : a.attach e = .ok b) : Builds (es ++ middle) b := by
  cases h with
  | before hes =>
      obtain rfl := Except.ok.inj hb
      exact .after ⟨es, middle, [], (List.append_nil _).symm, hes, by simp, hmiddle⟩
  | after hroot => cases hb
  | inside name attributes hfront hinside =>
      obtain rfl := Except.ok.inj hb
      exact (Builds.inside name attributes hfront hinside).push hmiddle

/-- A step takes one event. -/
theorem step (h : Builds es a) (hb : a.step event = .ok b) : Builds (es ++ [event]) b := by
  cases event with
  | start name attributes =>
      obtain rfl := Except.ok.inj hb
      exact .inside name attributes h .nil
  | empty name attributes => exact h.attach (.empty name attributes .nil) hb
  | stop =>
      cases h with
      | before => cases hb
      | after => cases hb
      | inside name attributes hfront hinside =>
          rw [List.append_assoc]
          exact hfront.attach (.tagged name attributes hinside .nil) hb
  | text s =>
      obtain ⟨stack, root?⟩ := a
      cases stack with
      | nil =>
          obtain rfl := Except.ok.inj hb
          exact h.aside rfl
      | cons parent stack =>
          obtain ⟨name, attributes, children⟩ := parent
          obtain rfl := Except.ok.inj hb
          exact h.push (.text s .nil)
  | ignored =>
      obtain rfl := Except.ok.inj hb
      obtain ⟨stack, root?⟩ := a
      cases stack with
      | nil => exact h.aside rfl
      | cons parent stack =>
          obtain ⟨name, attributes, children⟩ := parent
          have hsame := h.push (.ignored .nil)
          rwa [List.append_nil] at hsame
  | fault => cases hb

end Builds

/-- Events give a tree if and only if they are the events of that tree. -/
theorem Element.ofEvents_eq_ok {es : List Event} {root : Element} :
    Element.ofEvents es = .ok root ↔ root.IsToldBy es := by
  refine ⟨fun h => ?_, ofEvents_of_isToldBy⟩
  obtain ⟨a, ha, hroot⟩ := bind_eq_ok.1 h
  have hbuilds : Builds ([] ++ es) a := foldlM_keeps Builds.step (.before (by simp)) ha
  cases hbuilds with
  | before => cases hroot
  | after htold =>
      obtain rfl := Except.ok.inj hroot
      exact htold
  | inside => cases hroot

/-! ### What is wrong with events -/

/-- Whether an element begins at an event. -/
def Event.begins : Event → Bool
  | .start _ _ => true
  | .empty _ _ => true
  | _ => false

/-- What is open after an event. An end tag that ends nothing leaves nothing open. -/
def opened (open? : List Opening) : Event → List Opening
  | .start name attributes => ⟨name, attributes⟩ :: open?
  | .stop => open?.tail
  | _ => open?

/-- What is open after events. -/
def openAfter (es : List Event) : List Opening :=
  es.foldl opened []

/-- How many of the events are the beginning of an element outside all others. The first argument is
open before them. -/
def rootsFrom (open? : List Opening) : List Event → Nat
  | [] => 0
  | event :: es => (if open?.isEmpty && event.begins then 1 else 0) + rootsFrom (opened open? event) es

/-- The number of elements outside all others. -/
def roots (es : List Event) : Nat :=
  rootsFrom [] es

/-- What can be wrong with events: an event that is a fault itself, an end tag with nothing open, an
element that is open at the end, more than one root, and no root. -/
inductive HasFault (es : List Event) : TreeFault → Prop
  | malformed (h : .fault ∈ es) : HasFault es .malformed
  | unopened {front back : List Event} (h : es = front ++ .stop :: back) (hopen : openAfter front = []) :
      HasFault es .unopened
  | unclosed {o : Opening} {open? : List Opening} (h : openAfter es = o :: open?) :
      HasFault es (.unclosed o.name)
  | secondRoot (h : 2 ≤ roots es) : HasFault es .secondRoot
  | noRoot (h : roots es = 0) : HasFault es .noRoot

theorem rootsFrom_append (open? : List Opening) (es es' : List Event) :
    rootsFrom open? (es ++ es') = rootsFrom open? es + rootsFrom (es.foldl opened open?) es' := by
  induction es generalizing open? with
  | nil => exact (Nat.zero_add _).symm
  | cons event es ih => rw [List.cons_append, rootsFrom, rootsFrom, ih, List.foldl_cons, Nat.add_assoc]

theorem roots_le_append (es es' : List Event) : roots es ≤ roots (es ++ es') := by
  rw [roots, roots, rootsFrom_append]
  exact Nat.le_add_right _ _

/-- The number of elements outside all others that have begun, finished or not. -/
def Assembly.begun (a : Assembly) : Nat :=
  (if a.root.isSome then 1 else 0) + if a.stack.isEmpty then 0 else 1

theorem openings_isEmpty (stack : List Element) : (openings stack).isEmpty = stack.isEmpty := by
  cases stack <;> rfl

theorem attach_eq_error {a : Assembly} {e : Element} {fault : TreeFault} (h : a.attach e = .error fault) :
    fault = .secondRoot ∧ a.stack = [] ∧ a.root.isSome = true := by
  obtain ⟨stack, root⟩ := a
  cases stack with
  | cons parent stack => cases h
  | nil =>
      cases root with
      | none => cases h
      | some root => exact ⟨(Except.error.inj h).symm, rfl, rfl⟩

theorem begun_attach {a b : Assembly} {e : Element} (h : a.attach e = .ok b) :
    b.begun = a.begun + if a.stack.isEmpty then 1 else 0 := by
  obtain ⟨stack, root⟩ := a
  cases stack with
  | cons parent stack =>
      obtain rfl := Except.ok.inj h
      rfl
  | nil =>
      cases root with
      | none =>
          obtain rfl := Except.ok.inj h
          rfl
      | some root => cases h

/-- The stack holds what is open, and the elements outside all others are counted. -/
def Assembly.Accounts (a : Assembly) (es : List Event) : Prop :=
  openings a.stack = openAfter es ∧ a.begun = roots es

theorem account_step {a b : Assembly} {event : Event} (h : a.step event = .ok b) :
    openings b.stack = opened (openings a.stack) event ∧
      b.begun = a.begun + rootsFrom (openings a.stack) [event] := by
  cases event with
  | start name attributes =>
      obtain rfl := Except.ok.inj h
      refine ⟨rfl, ?_⟩
      simp only [Assembly.begun, rootsFrom, openings_isEmpty, Event.begins]
      cases a.stack <;> simp
  | empty name attributes =>
      refine ⟨(texts_attach h).1, ?_⟩
      rw [begun_attach h]
      simp [rootsFrom, openings_isEmpty, Event.begins]
  | stop =>
      obtain ⟨stack, root⟩ := a
      cases stack with
      | nil => cases h
      | cons e stack =>
          refine ⟨(texts_attach h).1, ?_⟩
          rw [begun_attach h]
          cases stack <;> simp [Assembly.begun, rootsFrom, Event.begins]
  | text s =>
      obtain ⟨stack, root⟩ := a
      cases stack with
      | nil =>
          obtain rfl := Except.ok.inj h
          exact ⟨rfl, by simp [rootsFrom, Event.begins]⟩
      | cons parent stack =>
          obtain rfl := Except.ok.inj h
          exact ⟨rfl, by simp [rootsFrom, Event.begins, Assembly.begun]⟩
  | ignored =>
      obtain rfl := Except.ok.inj h
      exact ⟨rfl, by simp [rootsFrom, Event.begins]⟩
  | fault => cases h

theorem Assembly.Accounts.step {a b : Assembly} {es : List Event} {event : Event} (ha : a.Accounts es)
    (h : a.step event = .ok b) : b.Accounts (es ++ [event]) := by
  obtain ⟨hopen, hbegun⟩ := ha
  obtain ⟨hopen', hbegun'⟩ := account_step h
  refine ⟨?_, ?_⟩
  · rw [hopen', hopen, openAfter, openAfter, List.foldl_append]
    rfl
  · rw [hbegun', hbegun, hopen, roots, roots, rootsFrom_append, openAfter]

theorem accounts_of_run {a : Assembly} {es : List Event}
    (h : es.foldlM Assembly.step Assembly.start = .ok a) : a.Accounts es := by
  have hstart : Assembly.start.Accounts [] := ⟨rfl, rfl⟩
  exact foldlM_keeps (P := fun es (a : Assembly) => a.Accounts es) Assembly.Accounts.step hstart h

/-- Why an event is refused. -/
theorem step_eq_error {a : Assembly} {event : Event} {fault : TreeFault}
    (h : a.step event = .error fault) :
    (fault = .malformed ∧ event = .fault) ∨ (fault = .unopened ∧ event = .stop ∧ a.stack = []) ∨
      (fault = .secondRoot ∧ 2 ≤ a.begun + rootsFrom (openings a.stack) [event]) := by
  cases event with
  | start name attributes => cases h
  | empty name attributes =>
      obtain ⟨rfl, hstack, hroot⟩ := attach_eq_error h
      refine Or.inr (Or.inr ⟨rfl, ?_⟩)
      simp [Assembly.begun, rootsFrom, openings, Event.begins, hstack, hroot]
  | stop =>
      obtain ⟨stack, root⟩ := a
      cases stack with
      | nil => exact Or.inr (Or.inl ⟨(Except.error.inj h).symm, rfl, rfl⟩)
      | cons e stack =>
          obtain ⟨rfl, -, hroot⟩ := attach_eq_error h
          refine Or.inr (Or.inr ⟨rfl, ?_⟩)
          have hroot : root.isSome = true := hroot
          simp [Assembly.begun, hroot]
  | text s =>
      obtain ⟨stack, root⟩ := a
      cases stack <;> cases h
  | ignored => cases h
  | fault => exact Or.inl ⟨(Except.error.inj h).symm, rfl⟩

/-- A fault that is reported is there. -/
theorem hasFault_of_ofEvents {es : List Event} {fault : TreeFault}
    (h : Element.ofEvents es = .error fault) : HasFault es fault := by
  rw [Element.ofEvents] at h
  cases hrun : es.foldlM Assembly.step Assembly.start with
  | error fault' =>
      rw [hrun] at h
      obtain rfl := Except.error.inj h
      obtain ⟨front, event, back, a, rfl, hfront, hevent⟩ := foldlM_eq_error hrun
      obtain ⟨hopen, hbegun⟩ := accounts_of_run hfront
      obtain ⟨rfl, rfl⟩ | ⟨rfl, rfl, hstack⟩ | ⟨rfl, htwo⟩ := step_eq_error hevent
      · exact .malformed (by simp)
      · refine .unopened rfl ?_
        rw [← hopen, hstack]
        rfl
      · refine .secondRoot ?_
        calc
          2 ≤ a.begun + rootsFrom (openings a.stack) [event] := htwo
          _ = roots (front ++ [event]) := by
            rw [hbegun, hopen, roots, roots, rootsFrom_append, openAfter]
          _ ≤ roots (front ++ [event] ++ back) := roots_le_append _ _
          _ = roots (front ++ event :: back) := by rw [List.append_assoc, List.singleton_append]
  | ok a =>
      rw [hrun] at h
      obtain ⟨hopen, hbegun⟩ := accounts_of_run hrun
      obtain ⟨stack, root⟩ := a
      cases stack with
      | cons e stack =>
          obtain rfl := Except.error.inj h
          exact .unclosed hopen.symm
      | nil =>
          cases root with
          | none =>
              obtain rfl := Except.error.inj h
              exact .noRoot hbegun.symm
          | some root => cases h

/-- No fault is passed over. -/
theorem not_hasFault {es : List Event} {root : Element} (h : Element.ofEvents es = .ok root)
    (fault : TreeFault) : ¬HasFault es fault := by
  obtain ⟨⟨stack, root?⟩, hrun, hroot⟩ := bind_eq_ok.1 h
  obtain ⟨hopen, hbegun⟩ := accounts_of_run hrun
  cases stack with
  | cons e stack => cases hroot
  | nil =>
      cases root? with
      | none => cases hroot
      | some root =>
          have hone : roots es = 1 := hbegun.symm
          intro hfault
          cases hfault with
          | malformed hmem =>
              obtain ⟨front, back, rfl⟩ := List.append_of_mem hmem
              obtain ⟨c, d, -, hstep⟩ := exists_of_foldlM_append hrun
              cases hstep
          | @unopened front back hes hnone =>
              rw [hes] at hrun
              obtain ⟨⟨stack, root⟩, d, hfront, hstep⟩ := exists_of_foldlM_append hrun
              rw [← (accounts_of_run hfront).1] at hnone
              obtain rfl := List.map_eq_nil_iff.1 hnone
              cases hstep
          | unclosed hsome => cases hopen.trans hsome
          | secondRoot htwo => omega
          | noRoot hzero => omega

/-- Events give a tree if and only if they are the events of that tree, and they are refused if and only
if something is wrong with them; the fault that is reported is one of theirs. -/
theorem Element.ofEvents_told (es : List Event) :
    (∀ root : Element, Element.ofEvents es = .ok root ↔ root.IsToldBy es) ∧
      ((∃ fault, Element.ofEvents es = .error fault) ↔ ∃ fault, HasFault es fault) ∧
      ∀ fault, Element.ofEvents es = .error fault → HasFault es fault := by
  refine ⟨fun root => ofEvents_eq_ok, ⟨?_, ?_⟩, fun fault => hasFault_of_ofEvents⟩
  · rintro ⟨fault, h⟩
    exact ⟨fault, hasFault_of_ofEvents h⟩
  · rintro ⟨fault, h⟩
    cases hread : Element.ofEvents es with
    | error reported => exact ⟨reported, rfl⟩
    | ok root => exact absurd h (not_hasFault hread fault)

/-- The events of a document with a comment in its root and blanks around it. -/
def leaflet : List Event :=
  [.ignored, .text "\n", .start "vsml" [], .text "  ", .empty "meta" [], .ignored,
    .start "cont" [("fps", "25")], .stop, .stop, .text "\n"]

theorem Element.ofEvents_told_leaflet :
    Element.ofEvents leaflet = .ok (.mk "vsml" []
      [.text "  ", .element (.mk "meta" [] []), .element (.mk "cont" [("fps", "25")] [])]) ∧
    (∃ fault, Element.ofEvents (leaflet ++ leaflet) = .error fault) ∧
    HasFault (leaflet ++ [.stop]) .unopened := by
  have hinside : Tells [.text "  ", .empty "meta" [], .ignored, .start "cont" [("fps", "25")], .stop]
      [.text "  ", .element (.mk "meta" [] []), .element (.mk "cont" [("fps", "25")] [])] :=
    .text _ (.empty _ _ (.ignored (.tagged _ _ .nil .nil)))
  refine ⟨((Element.ofEvents_told leaflet).1 _).2 ?_,
    (Element.ofEvents_told (leaflet ++ leaflet)).2.1.2 ⟨_, .secondRoot (by decide)⟩,
    (Element.ofEvents_told (leaflet ++ [.stop])).2.2 _ rfl⟩
  exact ⟨[.ignored, .text "\n"], _, [.text "\n"], rfl, by decide, by decide,
    .tagged "vsml" [] hinside .nil⟩

end Markup
end Montage
