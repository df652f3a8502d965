import Montage.Proofs.Color.Steps

/-!
# Functions of channels

The color of `rgb` and of `rgba` with whole numbers in the brackets.

**Input.** A name in any letter case, and three or four whole numbers below 256 between blanks.

**Algorithm.** The number behind the last comma of `rgba` is rewritten as a fraction, also if it is
no opacity but the third channel. Then the numbers are read as they stand.

**Results.**
* `Color.parse_channels`: three channels of `rgb` are the channels of the color, and so are three of
  `rgba` if a blank keeps the name from the bracket; else the third of `rgba` is lost. A fourth number
  of `rgba` is the opacity.
* `Color.channel_lost`: `rgba` without an opacity is not `rgb`.
-/

namespace Montage
namespace Color

open Decimal

variable {a b c o name args : List Char} {n r g bl alpha : UInt8}

/-! ### Arguments -/

/-- A text that is read as a channel of the given steps. -/
def IsChannel (a : List Char) (n : UInt8) : Prop :=
  ∃ x, argument? 255.0 a = some ⟨x, false⟩ ∧ step (clampUnit x) = n

/-- A text that is read as an opacity of the given steps. -/
def IsOpacity (a : List Char) (n : UInt8) : Prop :=
  ∃ x, argument? 1.0 a = some x ∧ step (clampUnit x.share) = n

theorem argument?_eq {full x : Float32} (hlast : '%' ∉ a.getLast?) (h : single? a = some x) :
    argument? full a = some ⟨x / full, false⟩ := by
  rw [argument?, Text.stripEnd?_eq_none hlast, Option.bind_none, h]
  rfl

theorem isChannel_digits (h : parseNat? a = some n.toNat) : IsChannel a n := by
  obtain ⟨x, hx, hstep⟩ := single_channel h
  obtain ⟨-, hdigits, -⟩ := parseNat?_eq_some h
  refine ⟨_, argument?_eq (fun hlast => ?_) hx, hstep⟩
  exact absurd (hdigits '%' (List.mem_of_getLast? hlast)) (by decide)

theorem argument?_fraction (n : UInt8) :
    IsOpacity (fraction n.toNat).plain n ∧
      IsChannel (fraction n.toNat).plain (if 128 ≤ n then 1 else 0) := by
  obtain ⟨x, hx, hopacity, hchannel⟩ := single_fraction n
  have hlast : '%' ∉ (fraction n.toNat).plain.getLast? := fun hlast =>
    absurd (mem_plain (List.mem_of_getLast? hlast)) (by decide)
  exact ⟨⟨_, argument?_eq hlast hx, hopacity⟩, ⟨_, argument?_eq hlast hx, hchannel⟩⟩

/-- Nothing with a blank in it is read as an argument. -/
theorem free_of_argument? {full : Float32} {x : Argument} (h : argument? full a = some x) :
    ∀ ch ∈ a, Text.isBlank ch = false := by
  have hsingle : ∀ {cs y}, single? cs = some y → ∀ ch ∈ cs, Text.isBlank ch = false := by
    intro cs y hy
    obtain ⟨l, hl, -⟩ := Option.map_eq_some_iff.1 hy
    exact Literal.free_of_parse? hl
  unfold argument? at h
  split at h
  · next y hy =>
      obtain ⟨number, hstrip, hnumber⟩ := Option.bind_eq_some_iff.1 hy
      rw [Text.stripEnd?_eq_some hstrip]
      exact List.forall_mem_append.2 ⟨hsingle hnumber, List.forall_mem_singleton.2 rfl⟩
  · obtain ⟨y, hy, -⟩ := Option.map_eq_some_iff.1 h
    exact hsingle hy

/-! ### Calls -/

/-- A name of the function of red, green and blue. -/
def IsName (name : List Char) : Prop :=
  String.ofList (Text.lower (Text.trimEnd name)) = "rgb" ∨
    String.ofList (Text.lower (Text.trimEnd name)) = "rgba"

theorem channels?_eq (hname : IsName name) (ha : IsChannel a r) (hb : IsChannel b g)
    (hc : IsChannel c bl) :
    ∃ x y z, channels? (String.ofList (Text.lower (Text.trimEnd name))) a b c = some (x, y, z) ∧
      step x = r ∧ step y = g ∧ step z = bl := by
  obtain ⟨x, hx, hr⟩ := ha
  obtain ⟨y, hy, hg⟩ := hb
  obtain ⟨z, hz, hbl⟩ := hc
  refine ⟨_, _, _, ?_, hr, hg, hbl⟩
  rcases hname with h | h
  · rw [h]
    simp [channels?, threeOf, hx, hy, hz]
  · rw [h]
    simp [channels?, threeOf, hx, hy, hz]

theorem ofFunction?_three (hname : IsName name) (hargs : arguments args = [a, b, c])
    (ha : IsChannel a r) (hb : IsChannel b g) (hc : IsChannel c bl) :
    ofFunction? name args = some ⟨r, g, bl, 255⟩ := by
  obtain ⟨x, y, z, hchannels, rfl, rfl, rfl⟩ := channels?_eq hname ha hb hc
  have hopaque : step 1.0 = 255 := by
    decide +kernel
  simp [ofFunction?, hargs, hchannels, hopaque]

theorem ofFunction?_four (hname : IsName name) (hargs : arguments args = [a, b, c, o])
    (ha : IsChannel a r) (hb : IsChannel b g) (hc : IsChannel c bl) (ho : IsOpacity o alpha) :
    ofFunction? name args = some ⟨r, g, bl, alpha⟩ := by
  obtain ⟨x, y, z, hchannels, rfl, rfl, rfl⟩ := channels?_eq hname ha hb hc
  obtain ⟨w, hw, rfl⟩ := ho
  simp [ofFunction?, hargs, hchannels, hw]

theorem free_of_channels? {found : Channels} (hname : IsName name)
    (h : channels? (String.ofList (Text.lower (Text.trimEnd name))) a b c = some found) :
    ∀ w ∈ [a, b, c], ∀ ch ∈ w, Text.isBlank ch = false := by
  have hthree : threeOf 255.0 a b c = some found := by
    rcases hname with hname | hname
    · rw [hname] at h
      exact h
    · rw [hname] at h
      exact h
  obtain ⟨x, hx, h⟩ := Option.bind_eq_some_iff.1 hthree
  obtain ⟨y, hy, h⟩ := Option.bind_eq_some_iff.1 h
  obtain ⟨z, hz, -⟩ := Option.bind_eq_some_iff.1 h
  simp only [List.forall_mem_cons]
  exact ⟨free_of_argument? hx, free_of_argument? hy, free_of_argument? hz, nofun⟩

/-- A function of red, green and blue reads all its arguments. -/
theorem free_of_ofFunction? {color : Color} (hname : IsName name)
    (h : ofFunction? name args = some color) :
    ∀ w ∈ arguments args, ∀ ch ∈ w, Text.isBlank ch = false := by
  unfold ofFunction? at h
  simp only at h
  split at h
  · next heq =>
      obtain ⟨_, ⟨⟩, h⟩ := Option.bind_eq_some_iff.1 h
      obtain ⟨found, hfound, -⟩ := Option.bind_eq_some_iff.1 h
      rw [heq]
      exact free_of_channels? hname hfound
  · next heq =>
      obtain ⟨_, hopacity, h⟩ := Option.bind_eq_some_iff.1 h
      obtain ⟨x, hx, rfl⟩ := Option.map_eq_some_iff.1 hopacity
      obtain ⟨found, hfound, -⟩ := Option.bind_eq_some_iff.1 h
      have hfree := free_of_channels? hname hfound
      rw [heq]
      simp only [List.forall_mem_cons] at hfree ⊢
      exact ⟨hfree.1, hfree.2.1, hfree.2.2.1, free_of_argument? hx, nofun⟩
  · cases h

/-! ### Numbers between blanks -/

/-- What keeps arguments apart. -/
def isSeparator (c : Char) : Bool :=
  c == ',' || c == '/' || Text.isAsciiBlank c

theorem arguments_append (a b : List Char) :
    arguments (a ++ ',' :: b) = arguments a ++ arguments b :=
  Text.fields_append (p := isSeparator) rfl a b

theorem isSeparator_eq_false {ch : Char} (hcomma : ch ≠ ',') (hslash : ch ≠ '/')
    (hplain : Text.isAsciiBlank ch = false) : isSeparator ch = false := by
  simp [isSeparator, hcomma, hslash, hplain]

theorem isSeparator_of_isDigit {ch : Char} (h : isDigit ch = true) : isSeparator ch = false := by
  refine isSeparator_eq_false ?_ ?_ ?_
  · rintro rfl
    exact absurd h (by decide)
  · rintro rfl
    exact absurd h (by decide)
  · refine Bool.eq_false_iff.2 fun hblank => ?_
    have hfree := isBlank_of_isDigit h
    rw [Text.isBlank_of_isAsciiBlank hblank] at hfree
    cases hfree

/-- Blanks that do not keep arguments apart stay in them, and make them unreadable. -/
theorem ofFunction?_eq_none (hname : IsName name)
    (h : ∃ ch ∈ args, Text.isBlank ch = true ∧ Text.isAsciiBlank ch = false) :
    ofFunction? name args = none := by
  obtain ⟨ch, hch, hblank, hplain⟩ := h
  have hkept : isSeparator ch = false := by
    refine isSeparator_eq_false ?_ ?_ hplain
    · rintro rfl
      exact absurd hblank (by decide)
    · rintro rfl
      exact absurd hblank (by decide)
  obtain ⟨w, hw, hmem⟩ := Text.exists_field_of_mem hch hkept
  cases hread : ofFunction? name args with
  | none => rfl
  | some color =>
      have hfree := free_of_ofFunction? hname hread w hw ch hmem
      rw [hblank] at hfree
      cases hfree

/-- A number between blanks, as it is written. -/
structure Written where
  front : List Char
  digits : List Char
  back : List Char

namespace Written

/-- The text of a number with the blanks around it. -/
def text (w : Written) : List Char :=
  w.front ++ w.digits ++ w.back

/-- Whether the blanks around a number are blanks of ASCII. -/
def isPlain (w : Written) : Bool :=
  (w.front ++ w.back).all Text.isAsciiBlank

/-- A number below 256 between any blanks, with or without zeros in front. -/
structure Reads (w : Written) (n : UInt8) : Prop where
  front : ∀ ch ∈ w.front, Text.isBlank ch = true
  digits : parseNat? w.digits = some n.toNat
  back : ∀ ch ∈ w.back, Text.isBlank ch = true

/-- Numbers with commas between them. -/
def listed : List Written → List Char
  | [] => []
  | [w] => w.text
  | w :: v :: ws => w.text ++ ',' :: listed (v :: ws)

variable {w x y z : Written}

theorem Reads.isChannel (h : w.Reads n) : IsChannel w.digits n :=
  isChannel_digits h.digits

theorem Reads.arguments_text (h : w.Reads n) (hp : w.isPlain = true) :
    arguments w.text = [w.digits] := by
  obtain ⟨hne, hdigits, -⟩ := parseNat?_eq_some h.digits
  have hblank : ∀ ch ∈ w.front ++ w.back, isSeparator ch = true := fun ch hch => by
    rw [isSeparator, List.all_eq_true.1 hp ch hch, Bool.or_true]
  obtain ⟨hfront, hback⟩ := List.forall_mem_append.1 hblank
  have hword : ∀ ch ∈ w.digits, isSeparator ch = false := fun ch hch =>
    isSeparator_of_isDigit (hdigits ch hch)
  exact (Text.fields_blanked hfront hback w.digits).trans (Text.fields_of_word hne hword)

/-- The blanks around a number that is not plain. -/
theorem Reads.exists_blank (h : w.Reads n) (hp : w.isPlain = false) :
    ∃ ch ∈ w.text, Text.isBlank ch = true ∧ Text.isAsciiBlank ch = false := by
  obtain ⟨ch, hch, hplain⟩ := List.all_eq_false.1 hp
  have hboth := List.forall_mem_append.2 ⟨h.front, h.back⟩
  refine ⟨ch, ?_, hboth ch hch, Bool.eq_false_iff.2 hplain⟩
  simp only [text, List.mem_append] at hch ⊢
  tauto

theorem Reads.mem_text (h : w.Reads n) :
    ∀ ch ∈ w.text, Text.isBlank ch = true ∨ isDigit ch = true := by
  obtain ⟨-, hdigits, -⟩ := parseNat?_eq_some h.digits
  refine List.forall_mem_append.2 ⟨List.forall_mem_append.2 ⟨?_, ?_⟩, ?_⟩
  · exact fun ch hch => .inl (h.front ch hch)
  · exact fun ch hch => .inr (hdigits ch hch)
  · exact fun ch hch => .inl (h.back ch hch)

theorem Reads.comma_notMem (h : w.Reads n) : ',' ∉ w.text := by
  intro hmem
  exact absurd (h.mem_text ',' hmem) (by decide)

/-- The number is found again between its blanks. -/
theorem Reads.trim_text (h : w.Reads n) : Text.trim w.text = w.digits := by
  obtain ⟨hne, hdigits, -⟩ := parseNat?_eq_some h.digits
  refine Text.trim_blanked h.front h.back (Text.isTrimmed_of_free fun ch hch => ?_) hne
  exact isBlank_of_isDigit (hdigits ch hch)

variable {ws : List Written}

theorem arguments_listed (h : ∀ w ∈ ws, ∃ n, w.Reads n) (hp : ws.all isPlain = true) :
    arguments (listed ws) = ws.map digits := by
  induction ws with
  | nil => rfl
  | cons w ws ih =>
      obtain ⟨⟨n, hw⟩, hws⟩ := List.forall_mem_cons.1 h
      obtain ⟨hplain, hplains⟩ := Bool.and_eq_true_iff.1 hp
      have htext := hw.arguments_text hplain
      cases ws with
      | nil => exact htext
      | cons v ws =>
          rw [listed, arguments_append, htext, ih hws hplains]
          rfl

theorem listed_concat (hne : ws ≠ []) (w : Written) :
    listed (ws ++ [w]) = listed ws ++ ',' :: w.text := by
  induction ws with
  | nil => exact absurd rfl hne
  | cons v ws ih =>
      cases ws with
      | nil => rfl
      | cons u ws =>
          rw [List.cons_append, List.cons_append, listed, ← List.cons_append, ih nofun, listed,
            List.append_assoc, List.cons_append]

theorem lower_listed (h : ∀ w ∈ ws, ∃ n, w.Reads n) : Text.lower (listed ws) = listed ws := by
  have htext : ∀ {w : Written}, (∃ n, w.Reads n) → Text.lower w.text = w.text := by
    rintro w ⟨n, hw⟩
    refine Text.lower_eq_self fun ch hch => ?_
    rcases hw.mem_text ch hch with hblank | hdigit
    · exact Text.isUpper_of_isBlank hblank
    · exact isUpper_of_isDigit hdigit
  induction ws with
  | nil => rfl
  | cons w ws ih =>
      obtain ⟨hw, hws⟩ := List.forall_mem_cons.1 h
      cases ws with
      | nil => exact htext hw
      | cons v ws =>
          rw [listed, Text.lower_append, htext hw]
          change w.text ++ ',' :: Text.lower (listed (v :: ws)) = _
          rw [ih hws]

theorem exists_blank_listed (h : ∀ w ∈ ws, ∃ n, w.Reads n) (hp : ws.all isPlain = false) :
    ∃ ch ∈ listed ws, Text.isBlank ch = true ∧ Text.isAsciiBlank ch = false := by
  induction ws with
  | nil => cases hp
  | cons w ws ih =>
      obtain ⟨⟨n, hw⟩, hws⟩ := List.forall_mem_cons.1 h
      rw [List.all_cons, Bool.and_eq_false_iff] at hp
      cases ws with
      | nil => exact hw.exists_blank (hp.resolve_right nofun)
      | cons v ws =>
          rcases hp with hp | hp
          · obtain ⟨ch, hch, hblank⟩ := hw.exists_blank hp
            exact ⟨ch, List.mem_append_left _ hch, hblank⟩
          · obtain ⟨ch, hch, hblank⟩ := ih hws hp
            exact ⟨ch, List.mem_append_right _ (List.mem_cons_of_mem ',' hch), hblank⟩

end Written

/-! ### Texts of functions -/

/-- The text of a function: a name, and arguments between brackets. -/
def call (name args : List Char) : List Char :=
  name ++ '(' :: (args ++ [')'])

/-- A function is told by its brackets. -/
theorem ofText?_call (hstart : name.head? = some 'r') (hopen : '(' ∉ name) :
    ofText? (call name args) = ofFunction? name args := by
  have hhead : (call name args).head? = some 'r' := by
    rw [call, List.head?_append, hstart]
    rfl
  have hcall : call name args = (name ++ '(' :: args) ++ [')'] := by
    rw [call, List.append_assoc, List.cons_append]
  have hlast : (call name args).getLast? = some ')' := by
    rw [hcall, List.getLast?_concat]
  have ht : Text.IsTrimmed (call name args) := by
    constructor
    · rw [hhead]
      rintro _ ⟨⟩
      decide
    · rw [hlast]
      rintro _ ⟨⟩
      decide
  have hword : String.ofList (Text.lower (call name args)) ≠ "transparent" := by
    intro hword
    have hend : (Text.lower (call name args)).getLast? = "transparent".toList.getLast? := by
      rw [← hword, String.toList_ofList]
    rw [Text.lower, List.getLast?_map, hlast] at hend
    exact absurd hend (by decide)
  have hhash : Text.stripStart? ['#'] (call name args) = none :=
    Text.stripStart?_eq_none (by rw [hhead]; rintro ⟨⟩)
  have hcut : (Text.stripEnd? [')'] (call name args)).bind (Text.splitFirst? '(') =
      some (name, args) := by
    rw [hcall, Text.stripEnd?_append, Option.bind_some, Text.splitFirst?_append hopen]
  unfold ofText?
  simp only [ht.trim_eq, if_neg hword, hhash, hcut]

/-- No function but `rgba` has an opacity to be rewritten. -/
theorem fractionalAlpha?_call (hopen : '(' ∉ name) (hname : name ≠ "rgba".toList) :
    fractionalAlpha? (call name args) = some (call name args) := by
  have hstrip : Text.stripStart? "rgba(".toList (call name args) = none := by
    cases hcut : Text.stripStart? "rgba(".toList (call name args) with
    | none => rfl
    | some rest =>
        have hsplit : Text.splitFirst? '(' (call name args) = some ("rgba".toList, rest) := by
          have hfree : '(' ∉ "rgba".toList := by
            decide
          rw [Text.stripStart?_eq_some_iff.1 hcut]
          exact Text.splitFirst?_append hfree rest
        rw [call, Text.splitFirst?_append hopen] at hsplit
        exact absurd (Prod.mk.inj (Option.some.inj hsplit)).1 hname
  unfold fractionalAlpha?
  rw [hstrip, Option.bind_none]

/-- What follows the last comma of `rgba` is rewritten as a fraction. -/
theorem fractionalAlpha?_rgba {w : Written} (h : w.Reads n) (channels : List Char) :
    fractionalAlpha? (call "rgba".toList (channels ++ ',' :: w.text)) =
      some (call "rgba".toList (channels ++ ',' :: ' ' :: (fraction n.toNat).plain)) := by
  have hcut : (Text.stripStart? "rgba(".toList
      (call "rgba".toList (channels ++ ',' :: w.text))).bind (Text.stripEnd? [')']) =
        some (channels ++ ',' :: w.text) := by
    have hstart : Text.stripStart? "rgba(".toList
        (call "rgba".toList (channels ++ ',' :: w.text)) = some (channels ++ ',' :: w.text ++ [')']) :=
      Text.stripStart?_eq_some_iff.2 rfl
    rw [hstart, Option.bind_some, Text.stripEnd?_append]
  unfold fractionalAlpha?
  simp only [hcut, Text.splitLast?_append channels h.comma_notMem, h.trim_text, h.digits,
    plainText_fraction]
  rw [if_pos (Nat.le_of_lt_succ n.toNat_lt), String.toList_ofList]
  simp [call]

/-! ### Colors of functions -/

variable {s : String} {x y z w : Written} {ws : List Written}

/-- A function is read as its arguments are after an opacity is rewritten. -/
theorem parse_call {name' args' : List Char} (hs : Text.trim s.toList = call name args)
    (hfraction : fractionalAlpha? (call (Text.lower name) (Text.lower args)) =
      some (call name' args'))
    (hstart : name'.head? = some 'r') (hopen : '(' ∉ name') :
    parse s = match ofFunction? name' args' with
      | some color => .ok color
      | none => .error (.color s) := by
  have hlower : Text.lower (call name args) = call (Text.lower name) (Text.lower args) := by
    rw [call, Text.lower_append]
    simp [call, Text.lower]
  unfold parse
  rw [hs, hlower]
  cases hread : ofFunction? name' args' with
  | none => simp only [hfraction, ofText?_call hstart hopen, hread]
  | some color => simp only [hfraction, ofText?_call hstart hopen, hread]

theorem isName_spaced {word : String} (hword : word = "rgb" ∨ word = "rgba") {gap : List Char}
    (hgap : ∀ ch ∈ gap, Text.isBlank ch = true) : IsName (word.toList ++ gap) := by
  have hspelled : ∀ word ∈ ["rgb", "rgba"],
      word.toList.any Text.isBlank = false ∧ String.ofList (Text.lower word.toList) = word := by
    decide
  obtain ⟨hany, hlower⟩ := hspelled word (by simpa using hword)
  have hfree : ∀ ch ∈ word.toList, Text.isBlank ch = false := fun ch hch =>
    Bool.eq_false_iff.2 (List.any_eq_false.1 hany ch hch)
  rw [IsName, Text.trimEnd_blanked hgap (Text.isTrimmed_of_free hfree), hlower]
  exact hword

/-- Whether numbers are read is decided by the blanks around them. -/
theorem ofFunction?_listed {color : Color} (hname : IsName name) (hws : ∀ w ∈ ws, ∃ n, w.Reads n)
    (hargs : ∀ ch ∈ Written.listed ws, ch ∈ args)
    (h : ws.all Written.isPlain = true → ofFunction? name args = some color) :
    ofFunction? name args = if ws.all Written.isPlain then some color else none := by
  cases hp : ws.all Written.isPlain with
  | true => exact h hp
  | false =>
      obtain ⟨ch, hch, hblank⟩ := Written.exists_blank_listed hws hp
      exact ofFunction?_eq_none hname ⟨ch, hargs ch hch, hblank⟩

theorem arguments_fraction (n : UInt8) :
    arguments (' ' :: (fraction n.toNat).plain) = [(fraction n.toNat).plain] := by
  have hword : ∀ ch ∈ (fraction n.toNat).plain, isSeparator ch = false := by
    intro ch hch
    rcases mem_plain hch with hdigit | rfl
    · exact isSeparator_of_isDigit hdigit
    · decide
  exact (Text.fields_cons (p := isSeparator) rfl _).trans
    (Text.fields_of_word (plain_ne_nil _) hword)

/-- A function of three channels, if no opacity is rewritten. -/
theorem parse_rgb (hx : x.Reads r) (hy : y.Reads g) (hz : z.Reads bl) {gap : List Char}
    (hgap : ∀ ch ∈ gap, Text.isBlank ch = true)
    (hname : Text.lower name = "rgb".toList ∨ Text.lower name = "rgba".toList ∧ gap ≠ [])
    (hs : Text.trim s.toList = call (name ++ gap) (Written.listed [x, y, z])) :
    parse s = if [x, y, z].all Written.isPlain then .ok ⟨r, g, bl, 255⟩
      else .error (.color s) := by
  have hws : ∀ w ∈ [x, y, z], ∃ n, w.Reads n := by
    simp only [List.forall_mem_cons]
    exact ⟨⟨r, hx⟩, ⟨g, hy⟩, ⟨bl, hz⟩, nofun⟩
  obtain ⟨word, hword, hlower, hother⟩ : ∃ word : String, (word = "rgb" ∨ word = "rgba") ∧
      Text.lower name = word.toList ∧ word.toList ++ gap ≠ "rgba".toList := by
    rcases hname with hname | ⟨hname, hne⟩
    · refine ⟨"rgb", .inl rfl, hname, fun heq => ?_⟩
      have hlast : 'a' ∈ gap := by
        have htail : "rgb".toList ++ gap = "rgb".toList ++ ['a'] := heq
        rw [List.append_cancel_left htail]
        exact List.mem_cons_self
      exact absurd (hgap 'a' hlast) (by decide)
    · exact ⟨"rgba", .inr rfl, hname, fun heq => hne (List.append_right_eq_self.1 heq)⟩
  have hspelled : ∀ word ∈ ["rgb", "rgba"], word.toList.head? = some 'r' ∧ '(' ∉ word.toList := by
    decide
  obtain ⟨hstart, hopen⟩ := hspelled word (by simpa using hword)
  have hopen' : '(' ∉ word.toList ++ gap := by
    refine fun hmem => hopen ((List.mem_append.1 hmem).resolve_right fun hblank => ?_)
    exact absurd (hgap '(' hblank) (by decide)
  have hgaplower : Text.lower gap = gap :=
    Text.lower_eq_self fun ch hch => Text.isUpper_of_isBlank (hgap ch hch)
  have hread := ofFunction?_listed (isName_spaced hword hgap) hws (fun ch hch => hch) fun hp =>
    ofFunction?_three (isName_spaced hword hgap) (Written.arguments_listed hws hp) hx.isChannel
      hy.isChannel hz.isChannel
  rw [parse_call hs _ _ hopen', hread]
  · cases [x, y, z].all Written.isPlain <;> rfl
  · rw [Text.lower_append, hlower, hgaplower, Written.lower_listed hws]
    exact fractionalAlpha?_call hopen' hother
  · rw [List.head?_append, hstart]
    rfl

/-- The last number of `rgba` is read as a fraction. -/
theorem parse_rgba {color : Color} (hws : ∀ w ∈ ws, ∃ n, w.Reads n) (hne : ws ≠ [])
    (hw : w.Reads n) (hname : Text.lower name = "rgba".toList)
    (hs : Text.trim s.toList = call name (Written.listed (ws ++ [w])))
    (h : ∀ args, arguments args = ws.map Written.digits ++ [(fraction n.toNat).plain] →
      ofFunction? "rgba".toList args = some color) :
    parse s = if ws.all Written.isPlain then .ok color else .error (.color s) := by
  have hrgba : IsName "rgba".toList := isName_spaced (.inr rfl) nofun
  have hall : ∀ v ∈ ws ++ [w], ∃ n, v.Reads n :=
    List.forall_mem_append.2 ⟨hws, List.forall_mem_singleton.2 ⟨n, hw⟩⟩
  have hread : ofFunction? "rgba".toList
      (Written.listed ws ++ ',' :: ' ' :: (fraction n.toNat).plain) =
        if ws.all Written.isPlain then some color else none :=
    ofFunction?_listed hrgba hws (fun ch hch => List.mem_append_left _ hch) fun hp => h _ <| by
      rw [arguments_append, Written.arguments_listed hws hp, arguments_fraction]
  have hfraction : fractionalAlpha? (call (Text.lower name)
      (Text.lower (Written.listed (ws ++ [w])))) =
        some (call "rgba".toList (Written.listed ws ++ ',' :: ' ' :: (fraction n.toNat).plain)) := by
    rw [hname, Written.lower_listed hall, Written.listed_concat hne, fractionalAlpha?_rgba hw]
  rw [parse_call hs hfraction rfl (by decide), hread]
  cases ws.all Written.isPlain <;> rfl

/-- Three channels in any letter case and between any blanks. In `rgba` the third is taken for an
opacity, and its fraction is read as a channel, unless a blank stands before the bracket. A fourth
number is an opacity. Where a blank is none of ASCII, the color is refused, but for those around the
number that is rewritten. -/
theorem parse_channels (hx : x.Reads r) (hy : y.Reads g) (hz : z.Reads bl) :
    (∀ (s : String) (name gap : List Char), (∀ ch ∈ gap, Text.isBlank ch = true) →
      (Text.lower name = "rgb".toList ∨ Text.lower name = "rgba".toList ∧ gap ≠ []) →
      Text.trim s.toList = call (name ++ gap) (Written.listed [x, y, z]) →
        parse s = if [x, y, z].all Written.isPlain then .ok ⟨r, g, bl, 255⟩
          else .error (.color s)) ∧
    (∀ (s : String) (name : List Char), Text.lower name = "rgba".toList →
      Text.trim s.toList = call name (Written.listed [x, y, z]) →
        parse s = if [x, y].all Written.isPlain then .ok ⟨r, g, if 128 ≤ bl then 1 else 0, 255⟩
          else .error (.color s)) ∧
    (∀ (s : String) (name : List Char) (w : Written) (alpha : UInt8), w.Reads alpha →
      Text.lower name = "rgba".toList →
      Text.trim s.toList = call name (Written.listed [x, y, z, w]) →
        parse s = if [x, y, z].all Written.isPlain then .ok ⟨r, g, bl, alpha⟩
          else .error (.color s)) := by
  have hrgba : IsName "rgba".toList := isName_spaced (.inr rfl) nofun
  refine ⟨fun s name gap hgap hname hs => parse_rgb hx hy hz hgap hname hs,
    fun s name hname hs => ?_, fun s name w alpha hw hname hs => ?_⟩
  · have hws : ∀ w ∈ [x, y], ∃ n, w.Reads n := by
      simp only [List.forall_mem_cons]
      exact ⟨⟨r, hx⟩, ⟨g, hy⟩, nofun⟩
    exact parse_rgba hws nofun hz hname hs fun args hargs =>
      ofFunction?_three hrgba hargs hx.isChannel hy.isChannel (argument?_fraction bl).2
  · have hws : ∀ w ∈ [x, y, z], ∃ n, w.Reads n := by
      simp only [List.forall_mem_cons]
      exact ⟨⟨r, hx⟩, ⟨g, hy⟩, ⟨bl, hz⟩, nofun⟩
    exact parse_rgba hws nofun hw hname hs fun args hargs =>
      ofFunction?_four hrgba hargs hx.isChannel hy.isChannel hz.isChannel (argument?_fraction alpha).1

theorem parse_channels_ink :
    parse "RGB(10, 20, 30)" = .ok ⟨10, 20, 30, 255⟩ ∧
      parse "rgba (10, 20, 30)" = .ok ⟨10, 20, 30, 255⟩ ∧
      parse "rgba(10, 20, 30)" = .ok ⟨10, 20, 0, 255⟩ ∧
      parse "Rgba(10, 20, 30,128)" = .ok ⟨10, 20, 30, 128⟩ := by
  have hgap : ∀ ch ∈ [' '], Text.isBlank ch = true := List.forall_mem_singleton.2 rfl
  have hx : Written.Reads ⟨[], ['1', '0'], []⟩ 10 := ⟨nofun, by decide, nofun⟩
  have hy : Written.Reads ⟨[' '], ['2', '0'], []⟩ 20 := ⟨hgap, by decide, nofun⟩
  have hz : Written.Reads ⟨[' '], ['3', '0'], []⟩ 30 := ⟨hgap, by decide, nofun⟩
  have hw : Written.Reads ⟨[], ['1', '2', '8'], []⟩ 128 := ⟨nofun, by decide, nofun⟩
  obtain ⟨hrgb, hthree, hfour⟩ := parse_channels hx hy hz
  refine ⟨?_, ?_, ?_, ?_⟩
  · exact hrgb _ ['R', 'G', 'B'] [] nofun (.inl (by decide)) (by decide +kernel)
  · exact hrgb _ ['r', 'g', 'b', 'a'] [' '] hgap (.inr ⟨by decide, nofun⟩) (by decide +kernel)
  · exact hthree _ ['r', 'g', 'b', 'a'] (by decide) (by decide +kernel)
  · exact hfour _ ['R', 'g', 'b', 'a'] _ 128 hw (by decide) (by decide +kernel)

/-- An opacity that is left out need not leave the channels as they are. -/
theorem channel_lost : ¬ ∀ (x y z : Written) (r g b : UInt8) (s t : String),
    x.Reads r → y.Reads g → z.Reads b →
      Text.trim s.toList = call "rgb".toList (Written.listed [x, y, z]) →
      Text.trim t.toList = call "rgba".toList (Written.listed [x, y, z]) →
        parse t = parse s ∧ parse t = .ok ⟨r, g, b, 255⟩ := by
  intro h
  have hlost : parse "rgba(10, 20, 30)" = .ok ⟨10, 20, 0, 255⟩ := by
    decide +kernel
  have hgap : ∀ ch ∈ [' '], Text.isBlank ch = true := List.forall_mem_singleton.2 rfl
  have hkept := h ⟨[], ['1', '0'], []⟩ ⟨[' '], ['2', '0'], []⟩ ⟨[' '], ['3', '0'], []⟩ 10 20 30
    "rgb(10, 20, 30)" "rgba(10, 20, 30)" ⟨nofun, by decide, nofun⟩ ⟨hgap, by decide, nofun⟩
    ⟨hgap, by decide, nofun⟩ (by decide +kernel) (by decide +kernel)
  rw [hlost] at hkept
  exact absurd hkept.2 (by decide)

end Color
end Montage
